/-
# Paths into data

A path is a list of names joined by dots.  A name is looked up in an object; in
a list a name made of digits is an index, which has to fit into 64 bits.  What
is not there is undefined, and so is everything below null and below a scalar.
The paths `.` and `this` stand for the data itself.
-/

import PageBinding.Json.Value
import PageBinding.Text.Split

namespace PageBinding
namespace Json

/-- The paths that denote the data itself. -/
def isSelfPath (path : String) : Bool := path = "." || path = "this"

/-- The largest index. -/
def indexLimit : Nat := 0xffffffffffffffff

/-- An index continued by digits; `none` once these take it over the limit. -/
def continuedIndex? (n : Nat) : List Char → Option Nat
  | [] => some n
  | c :: r =>
    let m := 10 * n + (c.toNat - 48)
    if m > indexLimit then none else continuedIndex? m r

/-- The index that a name of decimal digits stands for, if it is one. -/
def index? (name : List Char) : Option Nat :=
  if name ≠ [] ∧ name.all Char.isDigit then continuedIndex? 0 name else none

example : (index? ['0', '7'], index? ['-', '1'], index? [], index? (List.replicate 20 '9')) =
    (some 7, none, none, none) := by
  decide

namespace Value

/-- One step of a path. -/
def step? (v : Value) (name : List Char) : Option Value :=
  match v with
  | .object members => Named.last? (String.ofList name) members
  | .array items => (index? name).bind fun i => items[i]?
  | _ => none

/-- The steps of a path, one after the other. -/
def walk? (v : Value) : List (List Char) → Option Value
  | [] => some v
  | name :: names => (v.step? name).bind fun w => w.walk? names

/-- Walking along two paths in a row is walking along their concatenation. -/
theorem walk?_append (v : Value) (a b : List (List Char)) :
    v.walk? (a ++ b) = (v.walk? a).bind fun w => w.walk? b := by
  induction a generalizing v with
  | nil => rfl
  | cons name names ih =>
    rw [List.cons_append, walk?, walk?]
    cases v.step? name with
    | none => rfl
    | some w => exact ih w

/-- The value at a path; `none` is undefined. -/
def resolve? (v : Value) (path : String) : Option Value :=
  if isSelfPath path then some v else v.walk? (Text.splitAt '.' path.toList)

end Value
end Json
end PageBinding
