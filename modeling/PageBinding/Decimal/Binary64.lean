/-
# Double precision numbers

The numbers of a data context are the 64-bit floating point numbers.  One of
them is a sign, an 11-bit exponent field and a 52-bit fraction:

| field | fraction | number |
| --- | --- | --- |
| `0` | `f` | `± f · 2^(-1074)` |
| `1 … 2046` | `f` | `± (2^52 + f) · 2^(field - 1075)` |
| `2047` | `0` | `± ∞` |
| `2047` | other | not a number |

Without its sign a number is the integer `field · 2^52 + fraction`, and these
integers are ordered as the numbers are (`ofMagnitude?`, `magnitude`).  A
quotient of naturals is rounded to the nearest number, a half to the even one
(`ofRatio?`), and so are the product and the quotient of two numbers (`mul?`,
`div?`).  The number `2^52` is written `0x10000000000000`.
-/

namespace PageBinding
namespace Decimal

/-- A double precision number, by its three fields. -/
structure Binary64 where
  negative : Bool
  exponent : Fin 2048
  fraction : Fin 0x10000000000000
  deriving DecidableEq

namespace Binary64

/-- The zero of the given sign. -/
def zero (negative : Bool) : Binary64 := ⟨negative, 0, ⟨0, by decide⟩⟩

instance : Inhabited Binary64 := ⟨zero false⟩

/-- The infinity of the given sign. -/
def infinity (negative : Bool) : Binary64 := ⟨negative, ⟨2047, by decide⟩, ⟨0, by decide⟩⟩

/-- The quiet value that is not a number. -/
def nan : Binary64 := ⟨false, ⟨2047, by decide⟩, ⟨0x8000000000000, by decide⟩⟩

def isFinite (x : Binary64) : Bool := x.exponent.val < 2047

def isNaN (x : Binary64) : Bool := x.exponent.val = 2047 && x.fraction.val != 0

def isZero (x : Binary64) : Bool := x.exponent.val = 0 && x.fraction.val = 0

/-- The integer `m` of a finite number `± m · 2^q`. -/
def significand (x : Binary64) : Nat :=
  if x.exponent.val = 0 then x.fraction.val else 0x10000000000000 + x.fraction.val

/-- The exponent `q` of a finite number `± m · 2^q`. -/
def scale (x : Binary64) : Int := (max x.exponent.val 1 : Nat) - 1075

/-- A significand has at most 53 bits. -/
theorem significand_lt (x : Binary64) : x.significand < 0x20000000000000 := by
  unfold significand; have := x.fraction.isLt; split <;> omega

/-- The number without its sign, as an integer that grows with it. -/
def magnitude (x : Binary64) : Nat := x.exponent.val * 0x10000000000000 + x.fraction.val

/-- The finite number of a magnitude; `none` from the infinity on. -/
def ofMagnitude? (negative : Bool) (w : Nat) : Option Binary64 :=
  if h : w < 0x7ff0000000000000 then
    some ⟨negative, ⟨w / 0x10000000000000, by omega⟩, ⟨w % 0x10000000000000, Nat.mod_lt _ (by decide)⟩⟩
  else none

/-- A finite double is the one of its own sign and magnitude. -/
theorem ofMagnitude?_magnitude {x : Binary64} (h : x.isFinite = true) :
    ofMagnitude? x.negative x.magnitude = some x := by
  have hf := x.fraction.isLt
  have he : x.exponent.val < 2047 := by simpa [isFinite] using h
  have hw : x.magnitude < 0x7ff0000000000000 := by unfold magnitude; omega
  have h1 : x.magnitude / 0x10000000000000 = x.exponent.val := by unfold magnitude; omega
  have h2 : x.magnitude % 0x10000000000000 = x.fraction.val := by unfold magnitude; omega
  unfold ofMagnitude?
  rw [dif_pos hw]
  congr 2
  · exact Fin.ext h1
  · exact Fin.ext h2

/-- The 64 bits of a number: sign, exponent field, fraction. -/
def toBits (x : Binary64) : Nat := (if x.negative then 0x8000000000000000 else 0) + x.magnitude

/-- The number of 64 bits. -/
def ofBits (b : Nat) : Binary64 :=
  ⟨b / 0x8000000000000000 % 2 = 1, ⟨b / 0x10000000000000 % 2048, Nat.mod_lt _ (by decide)⟩,
    ⟨b % 0x10000000000000, Nat.mod_lt _ (by decide)⟩⟩

/-- A double is determined by its 64 bits. -/
theorem ofBits_toBits (x : Binary64) : ofBits x.toBits = x := by
  obtain ⟨s, ⟨e, he⟩, ⟨f, hf⟩⟩ := x
  cases s <;> simp only [ofBits, toBits, magnitude, Binary64.mk.injEq, Fin.mk.injEq] <;>
    refine ⟨?_, ?_, ?_⟩ <;> simp <;> omega

/-- The quotient rounded to the nearest integer, a half to the even one. -/
def roundToEven (num den : Nat) : Nat :=
  let q := num / den
  let r := num % den
  if 2 * r > den ∨ (2 * r = den ∧ q % 2 = 1) then q + 1 else q

/-- The floor of the binary logarithm of a quotient of positive naturals. -/
def floorLog2 (num den : Nat) : Int :=
  let e : Int := (Nat.log2 num : Int) - Nat.log2 den
  let below := if e ≥ 0 then num < den * Nat.pow 2 e.toNat else num * Nat.pow 2 (-e).toNat < den
  if below then e - 1 else e

/-- The number nearest to `± num / den`, a tie going to the even significand;
`none` if that is an infinity.  The last place kept is `2^s`, 52 places below
the first one, and no lower than `2^(-1074)`. -/
def ofRatio? (negative : Bool) (num den : Nat) : Option Binary64 :=
  if num = 0 then some (zero negative) else
  let s : Int := max (floorLog2 num den - 52) (-1074)
  let m := if s < 0 then roundToEven (num * Nat.pow 2 (-s).toNat) den
    else roundToEven num (den * Nat.pow 2 s.toNat)
  ofMagnitude? negative ((s + 1074).toNat * 0x10000000000000 + m)

/-- A finite number without its sign, as a quotient of naturals. -/
def ratio (x : Binary64) : Nat × Nat :=
  (x.significand * Nat.pow 2 x.scale.toNat, Nat.pow 2 (-x.scale).toNat)

/-- The denominator of a double's ratio is a power of two, hence positive. -/
theorem ratio_den_pos (x : Binary64) : 0 < x.ratio.2 := Nat.pow_pos (by decide)

/-- The number nearest to the product of two finite ones; `none` if that is an
infinity. -/
def mul? (x y : Binary64) : Option Binary64 :=
  ofRatio? (x.negative != y.negative) (x.ratio.1 * y.ratio.1) (x.ratio.2 * y.ratio.2)

/-- The number nearest to the quotient of two finite ones, the second of which is
not zero; `none` if that is an infinity. -/
def div? (x y : Binary64) : Option Binary64 :=
  ofRatio? (x.negative != y.negative) (x.ratio.1 * y.ratio.2) (x.ratio.2 * y.ratio.1)

/-- How many decimal digits a natural number has; `0` has none. -/
def digitCount (n : Nat) : Nat :=
  if h : n = 0 then 0 else digitCount (n / 10) + 1
decreasing_by omega

/-- The number nearest to `± coefficient · 10^power`; `none` if that is an
infinity.  From `10^310` on everything is infinite, and below `10^(-330)`
everything is zero. -/
def ofDecimal? (negative : Bool) (coefficient : Nat) (power : Int) : Option Binary64 :=
  if coefficient = 0 then some (zero negative) else
  let places : Int := digitCount coefficient + power
  if places > 310 then none
  else if places < -330 then some (zero negative)
  else if power ≥ 0 then ofRatio? negative (coefficient * Nat.pow 10 power.toNat) 1
  else ofRatio? negative coefficient (Nat.pow 10 (-power).toNat)

example : ofDecimal? false 1 (-1) = some ⟨false, ⟨1019, by decide⟩, ⟨0x999999999999a, by decide⟩⟩ := by
  decide +kernel

example : ofDecimal? true 5 (-324) = some ⟨true, 0, ⟨1, by decide⟩⟩ := by decide +kernel

example : ofDecimal? false 1 309 = none := by decide +kernel

end Binary64
end Decimal
end PageBinding
