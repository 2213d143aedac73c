/-
# Decimals read in steps

The number of a coefficient and a power of ten is found in steps, each of which
rounds: the coefficient becomes a double precision number, and that is multiplied
or divided by a power of ten.  The powers up to `10^308` are numbers themselves;
for a power below `10^(-308)` there is more than one division.

Where the coefficient is below `2^53` and the power between `10^(-22)` and
`10^22`, both are exact, so only the last step rounds, and the result is the
nearest number.  Elsewhere it may be a neighbour of that.
-/

import PageBinding.Decimal.Binary64

namespace PageBinding
namespace Decimal
namespace Binary64

/-- The largest power of ten that is a number. -/
def maxPowerOfTen : Nat := 308

/-- The number nearest to `10^k`, for a power up to the largest one. -/
def powerOfTen (k : Nat) : Binary64 := (ofDecimal? false 1 k).getD (infinity false)

/-- The number multiplied by `10^k`; `none` if that is an infinity. -/
def raise? (x : Binary64) (k : Nat) : Option Binary64 :=
  if k ≤ maxPowerOfTen then x.mul? (powerOfTen k)
  else if x.isZero then some x
  else none

/-- The number divided by `10^k`, by the largest power again and again until what
is left is a power. -/
def lower? (x : Binary64) (k : Nat) : Option Binary64 :=
  if k ≤ maxPowerOfTen then x.div? (powerOfTen k)
  else if x.isZero then some x
  else do (← x.div? (powerOfTen maxPowerOfTen)).lower? (k - maxPowerOfTen)
termination_by k
decreasing_by unfold maxPowerOfTen at *; omega

/-- The number of `± coefficient · 10^power`, rounded in each step; `none` if one
of them leads to an infinity. -/
def ofParts? (negative : Bool) (coefficient : Nat) (power : Int) : Option Binary64 := do
  let x ← ofRatio? negative coefficient 1
  if power ≥ 0 then x.raise? power.toNat else x.lower? (-power).toNat

example : ofParts? false 1 (-1) = ofDecimal? false 1 (-1) := by decide +kernel

/-- The nearest number and the one below it. -/
example : (ofDecimal? false 12345678901234568 4).map toBits = some 0x441ac53a7e04bcda ∧
    (ofParts? false 12345678901234568000 1).map toBits = some 0x441ac53a7e04bcd9 := by
  decide +kernel

end Binary64
end Decimal
end PageBinding
