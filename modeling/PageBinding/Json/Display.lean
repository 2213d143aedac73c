/-
# The text of a value for people

What a placeholder is replaced with: a text stands for itself, the items of a
list are joined by commas, null and undefined leave nothing, and an object has
only a fixed text.  A number has its shortest digits, positionally from `10^-6`
to below `10^21`, and without the sign of a zero.
-/

import PageBinding.Decimal.Layout
import PageBinding.Json.Value

namespace PageBinding
namespace Json

open Decimal

/-- Numbers for people: positional from `10^-6` to below `10^21`, no decimal
point in an integral number, no sign at a zero, the larger one of two equally
near decimals. -/
def plainNumbers : Layout :=
  { lowest := -6, highest := 20, point := false, signedZero := false, tie := .up }

/-- The text of a number, with words for those that are not finite. -/
def displayNumber (n : Binary64) : String :=
  if n.isFinite then String.ofList (plainNumbers.ofBinary64 n)
  else if n.isNaN then "NaN"
  else if n.negative then "-Infinity" else "Infinity"

namespace Value

mutual

/-- The text of a value for people. -/
def display : Value → String
  | .null => ""
  | .bool true => "true"
  | .bool false => "false"
  | .number n => displayNumber n
  | .string s => s
  | .array items => ",".intercalate (displayItems items)
  | .object _ => "[object Object]"

/-- The texts of the items of a list. -/
def displayItems : List Value → List String
  | [] => []
  | v :: r => display v :: displayItems r

end

/-- The items of an array are displayed one by one. -/
theorem displayItems_eq_map (items : List Value) : displayItems items = items.map display := by
  induction items with
  | nil => rfl
  | cons v r ih => simp [displayItems, ih]

/-- The text of a value that may be undefined. -/
def display? : Option Value → String
  | none => ""
  | some v => v.display

end Value
end Json
end PageBinding
