/-!
The shortest decimal that reads back as a given binary floating-point number.

A finite number other than zero is `mantissa * 2 ^ exponent`. Every real between its two midpoints
reads back as it, the midpoints themselves when the mantissa is even. For one digit, two digits and
so on, the two neighbours on that decimal grid are tried; the first grid with a hit wins, and of two
hits the nearer. Which of two equally near ones is taken is for the writer to say.
-/

namespace Wiring.Decimal

/-- What becomes of a number half way between two neighbours. -/
inductive Tie where
  | toEven
  | upward
deriving DecidableEq, Inhabited, Repr

/-- `mantissa * 2 ^ exponent`, with `lowest` true at the bottom of a binade above the smallest,
where the midpoint below is half as far away. -/
structure Binary where
  mantissa : Nat
  exponent : Int
  lowest : Bool

def Binary.ofBits (bits : UInt64) : Binary :=
  let fraction : Nat := bits.toNat % Nat.pow 2 52
  let biased : Nat := bits.toNat / Nat.pow 2 52 % 2048
  if biased = 0 then ⟨fraction, -1074, false⟩
  else ⟨fraction + Nat.pow 2 52, (biased : Int) - 1075, fraction = 0 && biased > 1⟩

/-- Quarters of the last binary place, so that both midpoints are whole numbers: the midpoint
below, the number and the midpoint above, all over one denominator. -/
structure Interval where
  low : Nat
  value : Nat
  high : Nat
  denominator : Nat
  closed : Bool

def Binary.interval (number : Binary) : Interval :=
  let scale := Nat.pow 2 (number.exponent - 2).toNat
  { low := (4 * number.mantissa - if number.lowest then 1 else 2) * scale
    value := 4 * number.mantissa * scale
    high := (4 * number.mantissa + 2) * scale
    denominator := Nat.pow 2 (2 - number.exponent).toNat
    closed := number.mantissa % 2 = 0 }

/-- The interval measured in units of `10 ^ place`. -/
def Interval.inUnits (interval : Interval) (place : Int) : Interval :=
  let up := Nat.pow 10 (-place).toNat
  { interval with
    low := interval.low * up
    value := interval.value * up
    high := interval.high * up
    denominator := interval.denominator * Nat.pow 10 place.toNat }

def Interval.holds (interval : Interval) (n : Nat) : Bool :=
  let scaled := n * interval.denominator
  if interval.closed then interval.low ≤ scaled && scaled ≤ interval.high
  else interval.low < scaled && scaled < interval.high

/-- The whole number of units that reads back, if one does. -/
def Interval.nearest? (interval : Interval) (tie : Tie) : Option Nat :=
  let below := interval.value / interval.denominator
  let above := below + 1
  match interval.holds below, interval.holds above with
  | false, false => none
  | true, false => some below
  | false, true => some above
  | true, true =>
      let down := interval.value - below * interval.denominator
      let up := above * interval.denominator - interval.value
      if down < up then some below
      else if up < down then some above
      else if tie = .toEven ∧ below % 2 = 0 then some below
      else some above

def digitCount (n : Nat) : Nat := (Nat.toDigits 10 n).length

/-- The exponent of the first decimal digit. -/
def Interval.leading (interval : Interval) : Int :=
  if interval.denominator ≤ interval.value then
    (digitCount (interval.value / interval.denominator) : Int) - 1
  else
    let places := digitCount (interval.denominator / interval.value)
    if interval.denominator ≤ interval.value * Nat.pow 10 (places - 1) then 1 - (places : Int)
    else -(places : Int)

/-- Digits without trailing zeros, and the exponent of the first of them. -/
structure Digits where
  digits : List Char
  leading : Int

def Digits.ofUnits (n : Nat) (place : Int) : Digits :=
  let digits := Nat.toDigits 10 n
  { digits := (digits.reverse.dropWhile (· = '0')).reverse
    leading := place + digits.length - 1 }

def Interval.search (interval : Interval) (tie : Tie) (leading : Int) : Nat → Nat → Digits
  | 0, count =>
      let place := leading - count
      let units := interval.inUnits place
      Digits.ofUnits (units.value / units.denominator) place
  | more + 1, count =>
      let place := leading - count
      match (interval.inUnits place).nearest? tie with
      | some n => Digits.ofUnits n place
      | none => interval.search tie leading more (count + 1)

/-- Seventeen digits always read back. -/
def shortest (tie : Tie) (bits : UInt64) : Digits :=
  let interval := (Binary.ofBits bits).interval
  interval.search tie interval.leading 17 0

end Wiring.Decimal
