/-
# Data

The data that a template is bound against: null, truth values, double precision
numbers, texts, lists and objects.  The members of an object keep their order,
and a name may occur more than once, in which case its last member counts
(`Value.get?`).

Two values that no template can tell apart have the same canonical form
(`Value.canonical`): members sorted by name, one member per name, and null in
place of the numbers that are not finite.
-/

import PageBinding.Decimal.Binary64
import PageBinding.Named

namespace PageBinding
namespace Json

open Decimal (Binary64)

/-- A data value. -/
inductive Value
  | null
  | bool (b : Bool)
  | number (n : Binary64)
  | string (s : String)
  | array (items : List Value)
  | object (members : List (String × Value))

instance : Inhabited Value := ⟨.null⟩

namespace Value

/-- The member of the given name. -/
def get? (v : Value) (name : String) : Option Value :=
  match v with
  | .object members => Named.last? name members
  | _ => none

/-- Only null, false, zero, the value that is not a number and the empty text
are untrue. -/
def truthy : Value → Bool
  | .null => false
  | .bool b => b
  | .number n => !(n.isZero || n.isNaN)
  | .string s => s ≠ ""
  | .array _ => true
  | .object _ => true

mutual

/-- The form that files keep: names sorted, one member per name, finite
numbers only. -/
def canonical : Value → Value
  | .null => .null
  | .bool b => .bool b
  | .number n => if n.isFinite then .number n else .null
  | .string s => .string s
  | .array items => .array (canonicalItems items)
  | .object members => .object (Named.sorted (canonicalMembers members))

/-- The canonical forms of the items of a list. -/
def canonicalItems : List Value → List Value
  | [] => []
  | v :: r => canonical v :: canonicalItems r

/-- The members with their values in canonical form. -/
def canonicalMembers : List (String × Value) → List (String × Value)
  | [] => []
  | (k, v) :: r => (k, canonical v) :: canonicalMembers r

end

/-- The canonical items of an array are those of its items, one by one. -/
theorem canonicalItems_eq_map (items : List Value) : canonicalItems items = items.map canonical := by
  induction items with
  | nil => rfl
  | cons v r ih => simp [canonicalItems, ih]

/-- The canonical members of an object keep their names and have canonical values. -/
theorem canonicalMembers_eq_map (members : List (String × Value)) :
    canonicalMembers members = members.map fun m => (m.1, canonical m.2) := by
  induction members with
  | nil => rfl
  | cons m r ih => obtain ⟨k, v⟩ := m; simp [canonicalMembers, ih]

end Value

/-- Truth of a value that may be undefined; an undefined one is untrue. -/
def truthy? (v : Option Value) : Bool := (v.map Value.truthy).getD false

end Json
end PageBinding
