/-
# The longest name

Of the spellings at the front of a text the longest one is its name (`name?`).  No name has a
semicolon in it (`semicolon_notMem`), so what follows a semicolon makes no spelling longer, and a
name with its semicolon is read whatever stands behind it (`name?_of_lookup`).
-/

import PageBinding.Html.Reference
import PageBinding.Proofs.Text.Encoded

namespace PageBinding
namespace Html

variable {name : String} {numbers : List Nat} {e : List Char × List Char}
  {before after : List (List Char × List Char)} {s t : List Char}

/-! ## The longest one -/

/-- **The longest spelling is taken,** the first of those that are as long. -/
theorem foldl_longer (hbefore : ∀ d ∈ before, d.1.length < e.1.length)
    (hafter : ∀ d ∈ after, d.1.length ≤ e.1.length) :
    (before ++ e :: after).foldl longer none = some e := by
  -- What is best before the longest one is shorter.
  have hshorter : ∀ best : Option (List Char × List Char),
      (∀ d ∈ best, d.1.length < e.1.length) →
      ∀ d ∈ before.foldl longer best, d.1.length < e.1.length := by
    induction before with
    | nil => exact fun _ hbest => hbest
    | cons b before ih =>
      obtain ⟨hb, hrest⟩ := List.forall_mem_cons.1 hbefore
      refine fun best hbest => ih hrest _ fun d hd => ?_
      cases best with
      | none =>
        obtain rfl := Option.some.inj hd
        exact hb
      | some c =>
        rw [longer] at hd
        split at hd
        · obtain rfl := Option.some.inj hd
          exact hb
        · obtain rfl := Option.some.inj hd
          exact hbest _ rfl
  have hkept : ∀ l : List (List Char × List Char), (∀ d ∈ l, d.1.length ≤ e.1.length) →
      l.foldl longer (some e) = some e := by
    intro l
    induction l with
    | nil => exact fun _ => rfl
    | cons d l ih =>
      intro h
      obtain ⟨hd, hl⟩ := List.forall_mem_cons.1 h
      rw [List.foldl_cons, longer, if_neg (Nat.not_lt.2 hd), ih hl]
  rw [List.foldl_append, List.foldl_cons]
  have hbest := hshorter none nofun
  cases hfold : before.foldl longer none with
  | none => exact hkept after hafter
  | some b =>
    rw [longer, if_pos (hbest b hfold)]
    exact hkept after hafter

/-! ## Semicolons -/

/-- No name has a semicolon in it. -/
theorem semicolon_notMem (h : (name, numbers) ∈ looseNames ++ closedNames) : ';' ∉ name.toList := by
  have key : (looseNames ++ closedNames).all
      (fun e => e.1.toByteArray.data.toList.all fun b => b.toNat != 59) = true := by
    decide +kernel
  intro hmem
  have hbyte : (59 : UInt8) ∈ name.toByteArray.data.toList := by
    rw [Text.toByteArray_eq rfl, Text.data_utf8Encode]
    exact List.mem_flatMap.2 ⟨';', hmem, by decide⟩
  exact absurd (List.all_eq_true.1 (List.all_eq_true.1 key _ h) _ hbyte) (by decide)

/-- A spelling is a name, with its semicolon or without. -/
theorem exists_name (h : e ∈ spellings) :
    ∃ name numbers, (name, numbers) ∈ looseNames ++ closedNames ∧
      (e.1 = name.toList ++ [';'] ∨ e.1 = name.toList) := by
  rcases List.mem_append.1 h with hloose | hclosed
  · obtain ⟨⟨name, numbers⟩, hmem, he⟩ := List.mem_flatMap.1 hloose
    refine ⟨name, numbers, List.mem_append_left _ hmem, ?_⟩
    rcases List.mem_cons.1 he with rfl | he
    · exact .inl rfl
    · obtain rfl := List.mem_singleton.1 he
      exact .inr rfl
  · obtain ⟨⟨name, numbers⟩, hmem, rfl⟩ := List.mem_map.1 hclosed
    exact ⟨name, numbers, List.mem_append_right _ hmem, .inl rfl⟩

/-- **Nothing behind a semicolon is a part of a name.** -/
theorem length_le_of_semicolon (he : e ∈ spellings) (hs : e.1 <+: s ++ ';' :: t) :
    e.1.length ≤ s.length + 1 := by
  by_contra hlong
  have hfront : s ++ [';'] <+: e.1 := by
    refine List.prefix_of_prefix_length_le ⟨t, by simp⟩ hs ?_
    rw [List.length_append, List.length_singleton]
    omega
  obtain ⟨rest, hrest⟩ := hfront
  have hne : rest ≠ [] := by
    rintro rfl
    rw [← hrest, List.append_nil, List.length_append, List.length_singleton] at hlong
    omega
  obtain ⟨name, numbers, hmem, hname⟩ := exists_name he
  refine semicolon_notMem hmem ?_
  rcases hname with hname | hname
  · -- Its own semicolon is behind the one of the text.
    rw [hname, ← List.dropLast_append_getLast hne, ← List.append_assoc] at hrest
    rw [← List.append_inj_left' hrest rfl]
    simp
  · rw [← hname, ← hrest]
    simp

/-! ## Names -/

/-- **An older name with its semicolon is read,** whatever follows it. -/
theorem name?_of_lookup (h : looseNames.lookup name = some numbers) (t : List Char) :
    name? (name.toList ++ ';' :: t) = some (name.toList ++ [';'], numbers.map Char.ofNat) := by
  obtain ⟨before, after, hsplit, hne⟩ := List.lookup_eq_some_iff.1 h
  have hfits : (closedSpelling (name, numbers)).1 <+: name.toList ++ ';' :: t :=
    ⟨t, List.append_assoc ..⟩
  have hlength : (closedSpelling (name, numbers)).1.length = name.toList.length + 1 :=
    List.length_append ..
  obtain ⟨rest, hrest⟩ : ∃ rest, spellings =
      before.flatMap (fun e => [closedSpelling e, looseSpelling e]) ++
        closedSpelling (name, numbers) :: rest := by
    rw [spellings, hsplit, List.flatMap_append, List.flatMap_cons]
    exact ⟨_, by simp only [List.append_assoc, List.cons_append]; rfl⟩
  have hle : ∀ d ∈ spellings, d.1.isPrefixOf (name.toList ++ ';' :: t) = true →
      d.1.length ≤ (closedSpelling (name, numbers)).1.length := fun d hd hprefix =>
    hlength ▸ length_le_of_semicolon hd (List.isPrefixOf_iff_prefix.1 hprefix)
  rw [name?, hrest, List.filter_append, List.filter_cons,
    if_pos (List.isPrefixOf_iff_prefix.2 hfits)]
  refine foldl_longer (fun d hd => ?_) fun d hd => ?_
  · obtain ⟨hd, hprefix⟩ := List.mem_filter.1 hd
    have hlong := hle d (hrest ▸ List.mem_append_left _ hd) hprefix
    refine Nat.lt_of_le_of_ne hlong fun heq => ?_
    have hsame : d.1 = name.toList ++ [';'] :=
      (List.prefix_of_prefix_length_le (List.isPrefixOf_iff_prefix.1 hprefix) hfits
        hlong).eq_of_length heq
    obtain ⟨⟨other, others⟩, hother, hd⟩ := List.mem_flatMap.1 hd
    rcases List.mem_cons.1 hd with rfl | hd
    · have hname := String.toList_inj.1 (List.append_cancel_right hsame)
      exact absurd hname.symm (bne_iff_ne.1 (hne _ hother))
    · obtain rfl := List.mem_singleton.1 hd
      have hmem : (other, others) ∈ looseNames ++ closedNames := by
        rw [hsplit]
        simp [hother]
      refine semicolon_notMem hmem ?_
      rw [show other.toList = name.toList ++ [';'] from hsame]
      simp
  · obtain ⟨hd, hprefix⟩ := List.mem_filter.1 hd
    exact hle d (hrest ▸ List.mem_append_right _ (List.mem_cons_of_mem _ hd)) hprefix

end Html
end PageBinding
