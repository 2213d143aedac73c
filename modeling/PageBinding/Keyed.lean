/-
# Entries by key

A list of entries that holds at most one for each key.  Setting an entry takes
away the one that its key had; `lookup_set_self` and `lookup_set_of_ne` say what
is found afterwards.
-/

namespace PageBinding
namespace Keyed

variable {κ : Type} [BEq κ] [LawfulBEq κ] {α : Type}

/-- The entries with one set. -/
def set (k : κ) (v : α) (entries : List (κ × α)) : List (κ × α) :=
  (k, v) :: entries.filter (·.1 != k)

/-- Setting a key makes its value the one looked up. -/
@[simp] theorem lookup_set_self (k : κ) (v : α) (entries : List (κ × α)) :
    (set k v entries).lookup k = some v := by
  simp [set]

/-- Dropping the entries of one key leaves the lookup of every other key as it was. -/
theorem lookup_filter_of_ne {j k : κ} (h : j ≠ k) (entries : List (κ × α)) :
    (entries.filter (·.1 != k)).lookup j = entries.lookup j := by
  induction entries with
  | nil => rfl
  | cons e es ih =>
    obtain ⟨i, v⟩ := e
    by_cases hi : i = k
    · have hj : (j == i) = false := by simp [hi, h]
      rw [List.filter_cons_of_neg (by simpa using hi), ih, List.lookup_cons, hj]
    · rw [List.filter_cons_of_pos (by simpa using hi), List.lookup_cons, List.lookup_cons, ih]

/-- Setting one key leaves the lookup of every other key as it was. -/
theorem lookup_set_of_ne {j k : κ} (h : j ≠ k) (v : α) (entries : List (κ × α)) :
    (set k v entries).lookup j = entries.lookup j := by
  have hj : (j == k) = false := by simp [h]
  rw [set, List.lookup_cons, hj]
  exact lookup_filter_of_ne h entries

end Keyed
end PageBinding
