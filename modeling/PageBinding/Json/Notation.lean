/-
# Numbers in two notations

A number is written in one of two notations, both with its shortest digits.  The scientific one is
written first, and which of the two stands is told by the power that is read back from it.

| number | scientific | positional | stands |
| --- | --- | --- | --- |
| `1e-7` | `1e-7` | `0.0000001` | the first, with the sign of the power |
| `2.5` | `2.5e0` | `2.5` | the second |
| `1.5e300` | `1.5e300` | `15…0` | the first, as `1.5e+300` |
-/

import PageBinding.Json.Display
import PageBinding.Json.Reader

namespace PageBinding
namespace Json
namespace Notation

open Decimal

/-- A sign in front of a text, if there is one. -/
def signed (negative : Bool) (s : List Char) : List Char := if negative then '-' :: s else s

/-- An integer, with a sign only if it is negative. -/
def integer (n : Int) : List Char :=
  signed (n < 0) (if n = 0 then ['0'] else Numeral.digitsOf n.natAbs)

/-- A finite number other than zero as a mantissa with a power of ten. -/
def scientific (x : Binary64) : List Char :=
  let d := shortest x .up
  signed x.negative (Layout.mantissa d.digits ++ 'e' :: integer d.exponent)

/-- A finite number other than zero with all places from the point on. -/
def positional (x : Binary64) : List Char :=
  let d := shortest x .up
  signed x.negative (Layout.positional false d.digits d.exponent)

/-- What is before and what is behind the first of some character. -/
def splitOnce? (c : Char) (s : List Char) : Option (List Char × List Char) :=
  match s.dropWhile (· ≠ c) with
  | [] => none
  | _ :: behind => some (s.takeWhile (· ≠ c), behind)

/-- The largest integer that is read. -/
def maxInteger : Nat := 2147483647

/-- Whether a text has a minus in front, and what is behind its sign, if it has one. -/
def unsigned : List Char → Bool × List Char
  | '-' :: s => (true, s)
  | '+' :: s => (false, s)
  | s => (false, s)

/-- The integer of a sign, which may be missing, and of digits to the end. -/
def readInteger? (s : List Char) : Option Int :=
  let (negative, ds) := unsigned s
  if ds = [] ∨ ds.any (!Char.isDigit ·) then none
  else
    let n := Reader.ofDigits ds
    if negative then if n ≤ maxInteger + 1 then some (-n) else none
    else if n ≤ maxInteger then some n else none

example : [readInteger? "-7".toList, readInteger? "2147483648".toList, readInteger? "-".toList] =
    [some (-7), none, none] := by
  decide +kernel

/-- The text of a number for people. -/
def write (x : Binary64) : List Char :=
  if x.isNaN then "NaN".toList
  else if !x.isFinite then (if x.negative then "-Infinity" else "Infinity").toList
  else if x.isZero then ['0']
  else
    let sci := scientific x
    let (mantissa, power) := (splitOnce? 'e' sci).getD (sci, ['0'])
    let e := (readInteger? power).getD 0
    if -7 < e ∧ e < 21 then positional x
    else if e < 0 then mantissa ++ 'e' :: integer e
    else mantissa ++ 'e' :: '+' :: integer e

end Notation
end Json
end PageBinding
