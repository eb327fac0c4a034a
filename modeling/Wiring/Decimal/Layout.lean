import Wiring.Decimal.Shortest

/-!
Writing floating-point numbers: which exponents are written out in full, what a whole number ends
in, and which of two equally good texts is taken. The digits are the shortest ones that read back.
-/

namespace Wiring.Decimal

structure Layout where
  positional : Int → Bool
  wholeEnding : String
  tie : Tie

/-- Numbers in JSON text: written out from `10 ^ -5` up to `10 ^ 16`, always with a point. -/
def Layout.json : Layout where
  positional leading := -5 ≤ leading && leading < 16
  wholeEnding := ".0"
  tie := .toEven

/-- Numbers for a reader's eye: always written out, whole numbers without a point. -/
def Layout.plain : Layout where
  positional _ := true
  wholeEnding := ""
  tie := .upward

def zeros (n : Nat) : String := String.ofList (List.replicate n '0')

def Layout.write (layout : Layout) (number : Digits) : String :=
  let text := String.ofList number.digits
  let count := number.digits.length
  if layout.positional number.leading then
    if number.leading < 0 then
      "0." ++ zeros ((-number.leading).toNat - 1) ++ text
    else
      let whole := number.leading.toNat + 1
      if count ≤ whole then text ++ zeros (whole - count) ++ layout.wholeEnding
      else String.ofList (number.digits.take whole) ++ "." ++ String.ofList (number.digits.drop whole)
  else
    let first := String.ofList (number.digits.take 1)
    let rest := String.ofList (number.digits.drop 1)
    let sign := if number.leading < 0 then "-" else "+"
    first ++ (if count ≤ 1 then "" else "." ++ rest) ++ "e" ++ sign ++ toString number.leading.natAbs

def Layout.text (layout : Layout) (x : Float) : String :=
  if x.isNaN then "NaN"
  else
    let sign := if x.toBits ≥ 0x8000000000000000 then "-" else ""
    if x.isInf then sign ++ "inf"
    else if x == 0.0 then sign ++ "0" ++ layout.wholeEnding
    else sign ++ layout.write (shortest layout.tie (x.toBits &&& 0x7FFFFFFFFFFFFFFF))

end Wiring.Decimal
