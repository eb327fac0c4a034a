/-!
Reading decimals: a significand of at most 64 bits, converted and then multiplied or divided once
by a power of ten. A quotient below the smallest number is zero; a product above the largest is no
number.
-/

namespace Wiring.Decimal

def powerOfTen (k : Nat) : Float := Float.ofScientific 1 false k

/-- Division by more than `10 ^ 308` goes in steps of that size. -/
def divided (x : Float) (k : Nat) : Float :=
  if k ≤ 308 then x / powerOfTen k
  else if x == 0.0 then x
  else divided (x / powerOfTen 308) (k - 308)
termination_by k

def scaled? (significand : UInt64) (exponent : Int) : Option Float :=
  let x := significand.toFloat
  if exponent < 0 then some (divided x exponent.natAbs)
  else if exponent ≤ 308 then
    let y := x * powerOfTen exponent.toNat
    if y.isInf then none else some y
  else if x == 0.0 then some x else none

end Wiring.Decimal
