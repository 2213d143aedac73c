/-
# Pieces of a text

The pieces between the separators of a text are the texts without a separator that give it when
they are joined, at least one of them (`splitAt_eq_iff`).
-/

import Mathlib.Tactic.SplitIfs
import PageBinding.Text.Split

namespace PageBinding
namespace Text

variable {sep : Char} {s piece : List Char} {pieces : List (List Char)}

/-- Splitting at a separator is the splitting of lists. -/
theorem splitAt_eq_splitOn (sep : Char) (s : List Char) : splitAt sep s = s.splitOn sep := by
  induction s with
  | nil => rfl
  | cons c r ih =>
    obtain ⟨first, rest, hr⟩ := List.exists_cons_of_ne_nil (splitAt_ne_nil sep r)
    rw [List.splitOn_cons_eq_if_modifyHead, ← ih, splitAt, hr]
    simp only [beq_iff_eq, List.modifyHead_cons]

/-- The pieces joined with the separator make up the text. -/
theorem intercalate_splitAt (sep : Char) (s : List Char) :
    [sep].intercalate (splitAt sep s) = s := by
  rw [splitAt_eq_splitOn, List.intercalate_splitOn]

/-- Pieces without the separator are what their joined text splits into. -/
theorem splitAt_intercalate (hne : pieces ≠ []) (h : ∀ piece ∈ pieces, sep ∉ piece) :
    splitAt sep ([sep].intercalate pieces) = pieces := by
  rw [splitAt_eq_splitOn, List.splitOn_intercalate sep h hne]

/-- A piece has no separator in it, and only characters of the text. -/
theorem of_mem_splitAt (h : piece ∈ splitAt sep s) : sep ∉ piece ∧ ∀ c ∈ piece, c ∈ s := by
  induction s generalizing piece with
  | nil =>
    rw [splitAt, List.mem_singleton] at h
    simp [h]
  | cons c r ih =>
    rw [splitAt] at h
    split_ifs at h with hc
    · rcases List.mem_cons.1 h with rfl | h
      · simp
      · exact ⟨(ih h).1, fun d hd => List.mem_cons_of_mem _ ((ih h).2 d hd)⟩
    · obtain ⟨first, rest, hr⟩ := List.exists_cons_of_ne_nil (splitAt_ne_nil sep r)
      rw [hr] at h ih
      rcases List.mem_cons.1 h with rfl | h
      · obtain ⟨hsep, hmem⟩ := ih (List.mem_cons_self ..)
        exact ⟨by simp [Ne.symm hc, hsep], List.forall_mem_cons.2 ⟨List.mem_cons_self ..,
          fun d hd => List.mem_cons_of_mem _ (hmem d hd)⟩⟩
      · obtain ⟨hsep, hmem⟩ := ih (List.mem_cons_of_mem _ h)
        exact ⟨hsep, fun d hd => List.mem_cons_of_mem _ (hmem d hd)⟩

/-- A character of joined pieces is the separator or one of a piece. -/
theorem of_mem_intercalate {c : Char} (h : c ∈ [sep].intercalate pieces) :
    c = sep ∨ ∃ piece ∈ pieces, c ∈ piece := by
  induction pieces with
  | nil => cases h
  | cons piece pieces ih =>
    by_cases hne : pieces = []
    · rw [hne, List.intercalate_singleton] at h
      exact .inr ⟨piece, List.mem_cons_self .., h⟩
    · rw [List.intercalate_cons_of_ne_nil hne, List.append_assoc, List.mem_append,
        List.singleton_append, List.mem_cons] at h
      rcases h with h | h | h
      · exact .inr ⟨piece, List.mem_cons_self .., h⟩
      · exact .inl h
      · exact (ih h).imp_right fun ⟨p, hp, hc⟩ => ⟨p, List.mem_cons_of_mem _ hp, hc⟩

/-- **Splitting is the inverse of joining.** -/
theorem splitAt_eq_iff : splitAt sep s = pieces ↔
    pieces ≠ [] ∧ (∀ piece ∈ pieces, sep ∉ piece) ∧ s = [sep].intercalate pieces := by
  constructor
  · rintro rfl
    exact ⟨splitAt_ne_nil sep s, fun _ hp => (of_mem_splitAt hp).1,
      (intercalate_splitAt sep s).symm⟩
  · rintro ⟨hne, h, rfl⟩
    exact splitAt_intercalate hne h

/-- A text without the separator is one piece. -/
theorem splitAt_of_not_mem (h : sep ∉ s) : splitAt sep s = [s] :=
  splitAt_eq_iff.2 ⟨List.cons_ne_nil _ _, List.forall_mem_singleton.2 h,
    (List.intercalate_singleton ..).symm⟩

end Text
end PageBinding
