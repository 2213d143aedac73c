/-
# Decimal text

A number is written with its shortest digits, positionally while the power of
ten of its first digit is in a range, and otherwise as a mantissa with that
power.  A `Layout` holds the decisions that differ between the two texts of
this library, the one for people (`Json.Value.display`) and the one for files
(`Json.Value.render`).

| | for people | for files |
| --- | --- | --- |
| positional for first powers | `-6 … 20` | `-5 … 15` |
| an integral number | `3` | `3.0` |
| minus zero | `0` | `-0.0` |
| of two equally near decimals | the larger | the even one |
-/

import PageBinding.Decimal.Shortest

namespace PageBinding
namespace Decimal

/-- The decisions of a decimal text. -/
structure Layout where
  /-- The lowest first power that is written positionally. -/
  lowest : Int
  /-- The highest first power that is written positionally. -/
  highest : Int
  /-- Whether a positional text always has a decimal. -/
  point : Bool
  /-- Whether zero keeps its sign. -/
  signedZero : Bool
  tie : Tie

namespace Layout

/-- The mantissa `d.ddd` of some digits. -/
def mantissa : List Char → List Char
  | [] => []
  | [d] => [d]
  | d :: ds => d :: '.' :: ds

/-- The digits written positionally, the first one standing for `10^e`. -/
def positional (point : Bool) (digits : List Char) (e : Int) : List Char :=
  if e < 0 then '0' :: '.' :: (List.replicate (-e - 1).toNat '0' ++ digits)
  else
    let whole := e.toNat + 1
    if digits.length ≤ whole then
      digits ++ List.replicate (whole - digits.length) '0' ++ (if point then ['.', '0'] else [])
    else digits.take whole ++ '.' :: digits.drop whole

/-- An exponent with its sign. -/
def signedPower (e : Int) : List Char :=
  (if e < 0 then '-' else '+') :: Numeral.digitsOf e.natAbs

/-- The text of a positive decimal. -/
def ofNumeral (l : Layout) (d : Numeral) : List Char :=
  if l.lowest ≤ d.exponent ∧ d.exponent ≤ l.highest then positional l.point d.digits d.exponent
  else mantissa d.digits ++ 'e' :: signedPower d.exponent

/-- The text of a finite number. -/
def ofBinary64 (l : Layout) (x : Binary64) : List Char :=
  if x.isZero then
    (if x.negative && l.signedZero then ['-'] else []) ++ '0' :: (if l.point then ['.', '0'] else [])
  else (if x.negative then ['-'] else []) ++ l.ofNumeral (shortest x l.tie)

end Layout
end Decimal
end PageBinding
