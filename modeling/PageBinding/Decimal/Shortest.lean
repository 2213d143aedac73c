/-
# The shortest decimal that reads back

Every real number between the halfway points to the two neighbours of a double
precision number rounds to it, and so do the halfway points themselves when its
significand is even.  The shortest decimal of the number is the decimal of that
interval with the fewest digits, and of those the nearest one.

With all quantities over one denominator `unit` the interval is
`low … high` around `mid`, and a decimal with last place `10^p` is a multiple
of a step.  Of the multiples in the interval only the two neighbours of `mid`
matter (`Span.hit?`): the first grid on which one of them lies in the interval
has the fewest digits.  Where the two are equally near, the caller's tie rule
picks one.
-/

import PageBinding.Decimal.Binary64

namespace PageBinding
namespace Decimal

/-- A positive decimal number `coefficient · 10^power`. -/
structure Numeral where
  coefficient : Nat
  power : Int
  deriving DecidableEq, Repr

namespace Numeral

/-- The decimal digits of a natural number, first digit first; `0` has none. -/
def digitsOf (n : Nat) : List Char :=
  if n = 0 then [] else digitsOf (n / 10) ++ [Char.ofNat (48 + n % 10)]
decreasing_by omega

/-- The digits of the coefficient. -/
def digits (d : Numeral) : List Char := digitsOf d.coefficient

/-- The power of ten of the first digit. -/
def exponent (d : Numeral) : Int := d.power + d.digits.length - 1

/-- The same number with a coefficient that does not end in `0`. -/
def trimmed (coefficient : Nat) (power : Int) : Numeral :=
  if h : coefficient ≠ 0 ∧ coefficient % 10 = 0 then trimmed (coefficient / 10) (power + 1)
  else ⟨coefficient, power⟩
termination_by coefficient
decreasing_by omega

end Numeral

/-- Which of two equally near decimals is taken. -/
inductive Tie
  | up
  | even
  deriving DecidableEq, Repr

/-- The decimals that read back as one number: those from `low / unit` to
`high / unit`, the ends only if `closed`.  The number itself is `mid / unit`. -/
structure Span where
  low : Nat
  mid : Nat
  high : Nat
  unit : Nat
  closed : Bool

namespace Span

/-- The interval of a positive finite number `m · 2^q`, with quarters of `2^q`
as the unit: the halfway points are two quarters away, and one quarter away
below a power of two, where the places get half as wide. -/
def ofBinary64 (x : Binary64) : Span :=
  let m := x.significand
  let q := x.scale - 2
  let below := if x.fraction.val = 0 ∧ x.exponent.val > 1 then 1 else 2
  let f := Nat.pow 2 q.toNat
  ⟨(4 * m - below) * f, 4 * m * f, (4 * m + 2) * f, Nat.pow 2 (-q).toNat, m % 2 = 0⟩

/-- The power of ten of the first digit of the number. -/
def exponent (s : Span) : Int :=
  if s.mid ≥ s.unit then (Binary64.digitCount (s.mid / s.unit) : Int) - 1
  else - (Binary64.digitCount ((s.unit - 1) / s.mid) : Int)

/-- The interval with its unit changed so that a multiple of `10^p` is a
multiple of the second component. -/
def onGrid (s : Span) (p : Int) : Span × Nat :=
  let f := Nat.pow 10 (-p).toNat
  (⟨s.low * f, s.mid * f, s.high * f, s.unit, s.closed⟩, s.unit * Nat.pow 10 p.toNat)

def contains (s : Span) (x : Nat) : Bool :=
  if s.closed then s.low ≤ x && x ≤ s.high else s.low < x && x < s.high

/-- The decimal with last place `10^p` that is nearest to the number, if one
lies in the interval. -/
def hit? (s : Span) (tie : Tie) (p : Int) : Option Numeral :=
  let (s, step) := s.onGrid p
  let d := s.mid / step
  let down := s.contains (d * step)
  let up := s.contains ((d + 1) * step)
  if down ∧ up then
    let a := s.mid - d * step
    let b := (d + 1) * step - s.mid
    let takeUp : Bool := if a = b then tie = .up || d % 2 = 1 else b < a
    some (.trimmed (if takeUp then d + 1 else d) p)
  else if down then some (.trimmed d p)
  else if up then some (.trimmed (d + 1) p)
  else none

end Span

/-- The shortest decimal that reads back as a positive finite number.  Seventeen
digits always suffice. -/
def shortest (x : Binary64) (tie : Tie) : Numeral :=
  let s := Span.ofBinary64 x
  let e := s.exponent
  ((List.range 17).findSome? fun k : Nat => s.hit? tie (e - k)).getD ⟨x.significand, 0⟩

example : shortest ⟨false, ⟨1019, by decide⟩, ⟨0x999999999999a, by decide⟩⟩ .up = ⟨1, -1⟩ := by
  decide +kernel

example : shortest ⟨false, 0, ⟨1, by decide⟩⟩ .up = ⟨5, -324⟩ := by decide +kernel

end Decimal
end PageBinding
