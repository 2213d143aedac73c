/-
# Entries by increasing name

Putting an entry into a list by increasing name keeps it one (`increasing_put`), so the last
entries of each name are sorted (`increasing_sorted`), and what is found under a name in them
is what was found before (`last?_sorted`).  Entries that are sorted stay as they are
(`sorted_of_increasing`).
-/

import Mathlib.Data.List.Induction
import Mathlib.Data.List.Sort
import Mathlib.Data.String.Basic
import PageBinding.Named

namespace PageBinding
namespace Named

variable {α : Type} {name k : String} {v : α} {e : String × α} {entries as : List (String × α)}

/-- Entries by increasing name. -/
def Increasing (entries : List (String × α)) : Prop := entries.Pairwise fun a b => a.1 < b.1

/-- An entry after a name was put is that name's, or was there before. -/
theorem mem_put : ∀ as : List (String × α), e ∈ put k v as → e = (k, v) ∨ e ∈ as
  | [], h => .inl (List.mem_singleton.1 h)
  | (j, w) :: as, h => by
    rw [put] at h
    split at h
    · exact (List.mem_cons.1 h).imp_right (List.mem_cons_of_mem _)
    · split at h
      · exact List.mem_cons.1 h
      · rcases List.mem_cons.1 h with h | h
        · exact .inr (h ▸ List.mem_cons_self ..)
        · exact (mem_put as h).imp_right (List.mem_cons_of_mem _)

/-- Entries by increasing name stay so when one is put. -/
theorem increasing_put (k : String) (v : α) :
    ∀ as : List (String × α), Increasing as → Increasing (put k v as)
  | [], _ => List.pairwise_singleton _ _
  | (j, w) :: as, h => by
    obtain ⟨hj, has⟩ := List.pairwise_cons.1 h
    rw [put]
    split
    · next heq => exact List.pairwise_cons.2 ⟨heq ▸ hj, has⟩
    · next hne =>
      split
      · next hlt =>
        refine List.pairwise_cons.2 ⟨fun a ha => ?_, h⟩
        rcases List.mem_cons.1 ha with rfl | ha
        · exact hlt
        · exact lt_trans hlt (hj a ha)
      · next hle =>
        refine List.pairwise_cons.2 ⟨fun a ha => ?_, increasing_put k v as has⟩
        rcases mem_put as ha with rfl | ha
        · exact lt_of_le_of_ne (not_lt.1 hle) (Ne.symm hne)
        · exact hj a ha

/-- Sorting entries and one more puts that one among the sorted ones. -/
theorem sorted_concat (entries : List (String × α)) (e : String × α) :
    sorted (entries ++ [e]) = put e.1 e.2 (sorted entries) :=
  List.foldl_concat ..

/-- **The last entries of each name are sorted,** and are some of the entries. -/
theorem increasing_sorted (entries : List (String × α)) : Increasing (sorted entries) := by
  induction entries using List.reverseRecOn with
  | nil => exact List.Pairwise.nil
  | append_singleton es e ih =>
    rw [sorted_concat]
    exact increasing_put _ _ _ ih

/-- Sorting adds no entry. -/
theorem mem_of_mem_sorted (h : e ∈ sorted entries) : e ∈ entries := by
  induction entries using List.reverseRecOn with
  | nil => exact h
  | append_singleton es b ih =>
    rw [sorted_concat] at h
    rw [List.mem_append, List.mem_singleton]
    exact (mem_put _ h).symm.imp_left ih

/-- An entry whose name is above all others is put behind them. -/
theorem put_of_lt (h : ∀ a ∈ as, a.1 < k) : put k v as = as ++ [(k, v)] := by
  induction as with
  | nil => rfl
  | cons a as ih =>
    obtain ⟨ha, has⟩ := List.forall_mem_cons.1 h
    rw [put, if_neg (ne_of_gt ha), if_neg (not_lt_of_gt ha), ih has, List.cons_append]

/-- **Entries that are sorted stay as they are.** -/
theorem sorted_of_increasing (h : Increasing entries) : sorted entries = entries := by
  induction entries using List.reverseRecOn with
  | nil => rfl
  | append_singleton es e ih =>
    obtain ⟨hes, -, hlt⟩ := List.pairwise_append.1 h
    rw [sorted_concat, ih hes, put_of_lt fun a ha => hlt a ha e (List.mem_singleton_self e)]

/-- Entries that have the same names one by one. -/
theorem map_fst_eq {β : Type} {bs : List (String × β)}
    (h : List.Forall₂ (fun a b => b.1 = a.1) as bs) : bs.map Prod.fst = as.map Prod.fst := by
  induction h with
  | nil => rfl
  | cons hab _ ih => rw [List.map_cons, List.map_cons, hab, ih]

/-! ## What is found -/

/-- The last entry of a name is the last one behind the first entry, or else that. -/
theorem last?_cons (name : String) (e : String × α) (as : List (String × α)) :
    last? name (e :: as) = (last? name as).or (if e.1 = name then some e.2 else none) := by
  rw [last?]
  cases last? name as <;> rfl

/-- A name that no entry has has no last entry. -/
theorem last?_of_forall_ne (h : ∀ a ∈ as, a.1 ≠ name) : last? name as = none := by
  induction as with
  | nil => rfl
  | cons a as ih =>
    obtain ⟨ha, has⟩ := List.forall_mem_cons.1 h
    rw [last?_cons, ih has, if_neg ha, Option.or_none]

/-- The last entry of a name that was put is the new one, and other names keep theirs. -/
theorem last?_put (h : Increasing as) :
    last? name (put k v as) = if k = name then some v else last? name as := by
  induction as with
  | nil => rfl
  | cons a as ih =>
    obtain ⟨j, w⟩ := a
    obtain ⟨hj, has⟩ := List.pairwise_cons.1 h
    rw [put]
    split
    · next heq =>
      subst heq
      have hnone : k = name → last? name as = none := fun hk =>
        last?_of_forall_ne fun a ha => ne_of_gt (hk ▸ hj a ha)
      rw [last?_cons, last?_cons]
      split_ifs with hk
      · rw [hnone hk, Option.none_or]
      · rfl
    · split
      · next hlt =>
        have hnone : k = name → last? name ((j, w) :: as) = none := fun hk =>
          last?_of_forall_ne <| List.forall_mem_cons.2
            ⟨ne_of_gt (hk ▸ hlt), fun a ha => ne_of_gt (hk ▸ lt_trans hlt (hj a ha))⟩
        rw [last?_cons]
        split_ifs with hk
        · rw [hnone hk, Option.none_or]
        · rw [Option.or_none]
      · rw [last?_cons, last?_cons, ih has]
        split_ifs <;> simp

/-- **What is found under a name** is the last entry of it, sorted or not. -/
theorem last?_sorted (name : String) (entries : List (String × α)) :
    last? name (sorted entries) = last? name entries := by
  induction entries using List.reverseRecOn with
  | nil => rfl
  | append_singleton es e ih =>
    rw [sorted_concat, last?_put (increasing_sorted es), ih, last?_append, last?_cons, last?]
    split_ifs <;> simp

/-- The last entry of a name is an entry. -/
theorem mem_of_last? (h : last? name entries = some v) : (name, v) ∈ entries := by
  induction entries with
  | nil => cases h
  | cons e es ih =>
    rw [last?] at h
    split at h
    · rename_i w hw
      exact List.mem_cons_of_mem _ (ih (hw.trans h))
    · rw [Option.ite_none_right_eq_some, Option.some.injEq] at h
      obtain ⟨rfl, rfl⟩ := h
      exact List.mem_cons_self ..

/-- The last entry of a name is the first one from behind. -/
theorem last?_eq_lookup (name : String) (entries : List (String × α)) :
    last? name entries = entries.reverse.lookup name := by
  induction entries with
  | nil => rfl
  | cons e es ih =>
    rw [last?_cons, ih, List.reverse_cons, List.lookup_append, List.lookup_cons, List.lookup_nil]
    by_cases h : e.1 = name
    · rw [if_pos h, beq_iff_eq.2 h.symm]
    · rw [if_neg h, beq_eq_false_iff_ne.2 (Ne.symm h)]

/-- The last entry of a name has no other one behind it. -/
theorem last?_eq_some_iff : last? name entries = some v ↔
    ∃ before after, entries = before ++ (name, v) :: after ∧ ∀ e ∈ after, e.1 ≠ name := by
  constructor
  · intro h
    induction entries with
    | nil => cases h
    | cons e es ih =>
      rw [last?_cons] at h
      rcases Option.or_eq_some_iff.1 h with h | ⟨hnone, h⟩
      · obtain ⟨before, after, rfl, hafter⟩ := ih h
        exact ⟨e :: before, after, rfl, hafter⟩
      · rw [Option.ite_none_right_eq_some, Option.some.injEq] at h
        obtain ⟨rfl, rfl⟩ := h
        refine ⟨[], es, rfl, fun a ha hname => ?_⟩
        rw [last?_eq_lookup, List.lookup_eq_none_iff] at hnone
        exact bne_iff_ne.1 (hnone a (List.mem_reverse.2 ha)) hname.symm
  · rintro ⟨before, after, rfl, hafter⟩
    rw [last?_append, last?_cons, last?_of_forall_ne hafter, if_pos rfl]
    rfl

/-- A name has no last entry just if no entry has it. -/
theorem last?_eq_none_iff : last? name entries = none ↔ name ∉ entries.map Prod.fst := by
  constructor
  · rintro h hm
    obtain ⟨e, he, rfl⟩ := List.mem_map.1 hm
    rw [last?_eq_lookup, List.lookup_eq_none_iff] at h
    exact bne_iff_ne.1 (h e (List.mem_reverse.2 he)) rfl
  · exact fun h => last?_of_forall_ne fun e he hn => h (hn ▸ List.mem_map_of_mem he)

/-- Sorting keeps the names. -/
theorem mem_names_sorted : name ∈ (sorted entries).map Prod.fst ↔ name ∈ entries.map Prod.fst :=
  not_iff_not.1 (by rw [← last?_eq_none_iff, ← last?_eq_none_iff, last?_sorted])

/-- Of entries by increasing name each is the last one of its name. -/
theorem Increasing.mem_iff (h : Increasing entries) :
    e ∈ entries ↔ last? e.1 entries = some e.2 := by
  refine ⟨fun hm => ?_, mem_of_last?⟩
  induction entries with
  | nil => cases hm
  | cons a as ih =>
    obtain ⟨ha, has⟩ := List.pairwise_cons.1 h
    rw [last?_cons]
    rcases List.mem_cons.1 hm with rfl | hm
    · rw [last?_of_forall_ne fun b hb => ne_of_gt (ha b hb), if_pos rfl, Option.none_or]
    · rw [ih has hm, Option.some_or]

/-- What is found in entries by increasing name is also the first entry of its name. -/
theorem Increasing.lookup_eq (h : Increasing entries) (name : String) :
    entries.lookup name = last? name entries := by
  induction entries with
  | nil => rfl
  | cons a as ih =>
    obtain ⟨ha, has⟩ := List.pairwise_cons.1 h
    rw [last?_cons, List.lookup_cons]
    by_cases hn : a.1 = name
    · rw [last?_of_forall_ne fun b hb => ne_of_gt (hn ▸ ha b hb), if_pos hn, beq_iff_eq.2 hn.symm]
      rfl
    · rw [if_neg hn, beq_eq_false_iff_ne.2 (Ne.symm hn), Option.or_none]
      exact ih has

/-- **Entries by increasing name are told by what is found in them.** -/
theorem Increasing.ext {bs : List (String × α)} (ha : Increasing as) (hb : Increasing bs)
    (h : ∀ name, last? name as = last? name bs) : as = bs := by
  have : Std.Irrefl fun a b : String × α => a.1 < b.1 := ⟨fun a => lt_irrefl a.1⟩
  have : Std.Antisymm fun a b : String × α => a.1 < b.1 :=
    ⟨fun _ _ hab hba => absurd hab (lt_asymm hba)⟩
  refine List.Pairwise.eq_of_mem_iff ha hb fun e => ?_
  rw [ha.mem_iff, hb.mem_iff, h]

/-- What is found among entries whose values are changed. -/
theorem last?_map {β : Type} (f : α → β) (name : String) (entries : List (String × α)) :
    last? name (entries.map fun e => (e.1, f e.2)) = (last? name entries).map f := by
  induction entries with
  | nil => rfl
  | cons e es ih =>
    rw [List.map_cons, last?_cons, last?_cons, ih]
    split_ifs <;> cases last? name es <;> rfl

end Named
end PageBinding
