/-
# Named entries

A list of entries with names, of which more than one may have the same name.
Where one entry per name is wanted it is the last one of the name.
-/

namespace PageBinding
namespace Named

variable {α : Type}

/-- The last entry of the given name. -/
def last? (name : String) : List (String × α) → Option α
  | [] => none
  | (k, v) :: r =>
    match last? name r with
    | some w => some w
    | none => if k = name then some v else none

/-- The last entry of a name in a concatenation is the one of the second list, if that has the name
at all. -/
theorem last?_append (name : String) (a b : List (String × α)) :
    last? name (a ++ b) = (last? name b).or (last? name a) := by
  induction a with
  | nil => cases h : last? name b <;> simp [last?, h]
  | cons kv r ih =>
    obtain ⟨k, v⟩ := kv
    rw [List.cons_append, last?, last?, ih]
    cases hb : last? name b <;> simp

/-- A list of entries by increasing name with an entry put in: in the place of
the one of its name, if there is one. -/
def put (name : String) (v : α) : List (String × α) → List (String × α)
  | [] => [(name, v)]
  | (k, w) :: r =>
    if name = k then (name, v) :: r
    else if name < k then (name, v) :: (k, w) :: r
    else (k, w) :: put name v r

/-- The last entry of each name, by increasing name. -/
def sorted (entries : List (String × α)) : List (String × α) :=
  entries.foldl (fun found e => put e.1 e.2 found) []

end Named
end PageBinding
