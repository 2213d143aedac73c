/-
# Looking at every position

The simplest way to find the placeholders of a text is to look at one position after the
other whether a placeholder begins there (`search`).  The reading from left to right
skips more: what is before a closing brace that completes no placeholder is not looked at
again.  It finds the same (`next?_cons`, `search_eq_placed`), because a placeholder that
begins before that brace would have to end at it (`next?_closing`).

So the parts of a text are the placeholders that the search finds and the stretches
between them, and a substitution replaces just those (`substitute?_eq_replace`).
-/

import PageBinding.Proofs.Template.Leftover
import Mathlib.Data.List.Chain

namespace PageBinding
namespace Template

variable {s r u inner behind before rest : List Char} {c : Char} {i : Nat}

/-! ## Searching -/

/-- The inside of the placeholder with which a text begins, and what stands behind it. -/
def opening? : List Char → Option (List Char × List Char)
  | '\x7b' :: '\x7b' :: r =>
    match r.takeWhile (!isClosing ·), r.dropWhile (!isClosing ·) with
    | c :: inner, '\x7d' :: '\x7d' :: behind => some (c :: inner, behind)
    | _, _ => none
  | _ => none

/-- What stands before the first closing brace is taken, and what follows is dropped. -/
theorem takeWhile_closing (hi : '\x7d' ∉ inner) :
    (inner ++ '\x7d' :: rest).takeWhile (!isClosing ·) = inner ∧
      (inner ++ '\x7d' :: rest).dropWhile (!isClosing ·) = '\x7d' :: rest := by
  have hall : ∀ c ∈ inner, (!isClosing c) = true := fun c hc => by
    have : c ≠ '\x7d' := fun he => hi (he ▸ hc)
    simpa [isClosing] using this
  rw [List.takeWhile_append_of_pos hall, List.dropWhile_append_of_pos hall]
  simp [isClosing]

/-- **A placeholder:** two opening braces, one or more characters other than a closing
brace, and two closing braces. -/
theorem opening?_eq_some_iff : opening? s = some (inner, behind) ↔
    s = '\x7b' :: '\x7b' :: (inner ++ '\x7d' :: '\x7d' :: behind) ∧ inner ≠ [] ∧ '\x7d' ∉ inner := by
  constructor
  · fun_cases opening? s with
    | case1 r c inside behind' hd ht =>
      intro h
      obtain ⟨rfl, rfl⟩ := Prod.mk.inj (Option.some.inj h)
      have hr := eq_of_dropWhile_isClosing hd
      have hn := notMem_takeWhile r
      rw [ht] at hr hn
      exact ⟨by rw [hr], nofun, hn⟩
    | case2 => exact nofun
    | case3 => exact nofun
  · rintro ⟨rfl, hne, hn⟩
    obtain ⟨ht, hd⟩ := @takeWhile_closing inner ('\x7d' :: behind) hn
    obtain ⟨c, inside, rfl⟩ := List.exists_cons_of_ne_nil hne
    simp only [opening?, ht, hd]

/-- The placeholders that are found when one position after the other is looked at, each
with the place where it begins; where one is found, the search goes on behind it. -/
def search (i : Nat) (s : List Char) : List (Nat × List Char) :=
  match s with
  | [] => []
  | c :: r =>
    match h : opening? (c :: r) with
    | some (inner, behind) => (i, inner) :: search (i + inner.length + 4) behind
    | none => search (i + 1) r
termination_by s.length
decreasing_by
  · rw [(opening?_eq_some_iff.1 h).1]
    simp only [List.length_cons, List.length_append]
    omega
  · exact Nat.lt_succ_self _

/-- A text with what has been found in it replaced. -/
def replace (lookup : List Char → List Char) (i : Nat) (s : List Char) :
    List (Nat × List Char) → List Char
  | [] => s
  | (start, inner) :: found =>
    s.take (start - i) ++ lookup (Text.trim inner) ++
      replace lookup (start + inner.length + 4) (s.drop (start - i + inner.length + 4)) found

/-- A text that begins with a placeholder has one. -/
theorem hasPlaceholder_of_opening? (h : opening? s = some (inner, behind)) : HasPlaceholder s := by
  obtain ⟨rfl, hne, hn⟩ := opening?_eq_some_iff.1 h
  exact ⟨[], _, rfl, inner, behind, hne, hn, rfl⟩

/-- Where a placeholder begins it is found, and the search goes on behind it. -/
theorem search_of_some (h : opening? (c :: r) = some (inner, behind)) :
    search i (c :: r) = (i, inner) :: search (i + inner.length + 4) behind := by
  rw [search]
  split
  · rename_i hs
    rw [h] at hs
    cases hs
    rfl
  · rename_i hs
    rw [h] at hs
    cases hs

/-- Where none begins the search goes on behind the first character. -/
theorem search_of_none (h : opening? (c :: r) = none) : search i (c :: r) = search (i + 1) r := by
  rw [search]
  split
  · rename_i hs
    rw [h] at hs
    cases hs
  · rfl

/-! ## What stands before a placeholder -/

/-- What stands before a placeholder still does without its first character. -/
theorem Stretch.of_cons (h : Stretch (c :: s)) : Stretch s where
  bare hp := h.bare (hp.append_left [c])
  closed u w he := h.closed (c :: u) w (he ▸ rfl)
  ends u he := h.ends (c :: u) (he ▸ rfl)

/-- **No placeholder begins in a stretch** that an opening brace follows: it would end in
the stretch. -/
theorem Stretch.opening?_eq_none (h : Stretch (c :: s)) (r : List Char) :
    opening? (c :: s ++ '\x7b' :: r) = none := by
  refine Option.eq_none_iff_forall_ne_some.2 fun ⟨inner, behind⟩ ho => ?_
  obtain ⟨he, hne, hn⟩ := opening?_eq_some_iff.1 ho
  rw [List.cons_append, List.cons.injEq] at he
  obtain ⟨rfl, he⟩ := he
  cases s with
  | nil => exact h.ends [] rfl
  | cons d w =>
    rw [List.cons_append, List.cons.injEq] at he
    obtain ⟨rfl, he⟩ := he
    obtain ⟨inside, w, rfl, hin⟩ := List.eq_append_cons_of_mem (h.closed [] w rfl)
    rw [List.append_assoc, List.cons_append] at he
    obtain ⟨rfl, hw⟩ := append_closing_inj hin hn he
    cases w with
    | nil => cases hw
    | cons e w =>
      obtain ⟨rfl, -⟩ := List.cons.inj hw
      exact h.bare ⟨[], _, rfl, inside, w, hne, hn, rfl⟩

/-- Before a placeholder the search finds nothing. -/
theorem Stretch.search (h : Stretch before) (i : Nat) (r : List Char) :
    search i (before ++ '\x7b' :: r) = search (i + before.length) ('\x7b' :: r) := by
  induction before generalizing i with
  | nil => rfl
  | cons c before ih =>
    have hc := h.opening?_eq_none r
    rw [List.cons_append] at hc ⊢
    rw [search_of_none hc, ih h.of_cons, List.length_cons, Nat.add_assoc, Nat.add_comm 1]

/-- Nothing is found where the reading finds nothing. -/
theorem search_of_next?_none (h : next? s = none) (i : Nat) : search i s = [] := by
  have key : ∀ {s : List Char} (i : Nat), ¬ HasPlaceholder s → Template.search i s = [] := by
    intro s
    induction s with
    | nil => exact fun _ _ => by rw [Template.search]
    | cons c s ih =>
      intro i hs
      rw [search_of_none, ih]
      · exact fun hp => hs (hp.append_left [c])
      · exact Option.eq_none_iff_forall_ne_some.2 fun _ ho => hs (hasPlaceholder_of_opening? ho)
  exact key i (not_hasPlaceholder_of_next? h)

/-- What the reading finds is found first. -/
theorem search_of_next?_some (h : next? s = some (before, inner, behind)) (i : Nat) :
    search i s = (i + before.length, inner) ::
      search (i + before.length + inner.length + 4) behind := by
  obtain ⟨hb, hne, hn⟩ := stretch_of_next? h
  rw [next?_eq h, hb.search]
  exact search_of_some (opening?_eq_some_iff.2 ⟨rfl, hne, hn⟩)

/-! ## The parts of a text -/

/-- The text of a part. -/
def Part.source : Part → List Char
  | .literal s => s
  | .placeholder inner => '\x7b' :: '\x7b' :: (inner ++ ['\x7d', '\x7d'])

/-- The placeholders among some parts, each with the place where it begins. -/
def placed (i : Nat) : List Part → List (Nat × List Char)
  | [] => []
  | .literal s :: ps => placed (i + s.length) ps
  | .placeholder inner :: ps => (i, inner) :: placed (i + inner.length + 4) ps

/-- **Nothing is lost:** the parts of a text make it up. -/
theorem source_parts (s : List Char) : (parts s).flatMap Part.source = s := by
  induction s using parts_induction with
  | none s h =>
    rw [parts_of_none h]
    split_ifs with hs
    · exact hs.symm
    · simp [Part.source]
  | some s before inner behind h ih =>
    rw [parts_of_some h, next?_eq h]
    split_ifs with hb <;> simp [hb, Part.source, ih]

/-- Every stretch between placeholders has something in it. -/
theorem literal_ne_nil {l : List Char} (h : Part.literal l ∈ parts s) : l ≠ [] := by
  induction s using parts_induction with
  | none s hs =>
    rw [parts_of_none hs] at h
    split_ifs at h with he
    · cases h
    · obtain rfl := Part.literal.inj (List.mem_singleton.1 h)
      exact he
  | some s before inner behind hs ih =>
    rw [parts_of_some hs] at h
    split_ifs at h with hb
    · exact ih (by simpa using h)
    · rw [List.singleton_append, List.mem_cons, List.mem_cons, Part.literal.injEq] at h
      obtain rfl | h | h := h
      · exact hb
      · cases h
      · exact ih h

/-- There are no two stretches one after the other. -/
theorem isChain_parts (s : List Char) :
    (parts s).IsChain fun p q => p.isPlaceholder ∨ q.isPlaceholder := by
  induction s using parts_induction with
  | none s h =>
    rw [parts_of_none h]
    split_ifs <;> simp
  | some s before inner behind h ih =>
    have hcons : (Part.placeholder inner :: parts behind).IsChain fun p q =>
        p.isPlaceholder ∨ q.isPlaceholder :=
      List.isChain_cons.2 ⟨fun _ _ => .inl rfl, ih⟩
    rw [parts_of_some h]
    split_ifs
    · exact hcons
    · exact List.isChain_cons.2 ⟨fun q hq => .inr (Option.some.inj hq ▸ rfl), hcons⟩

/-- **The placeholders of a text are those that the search finds.** -/
theorem placed_parts (s : List Char) (i : Nat) : placed i (parts s) = search i s := by
  induction s using parts_induction generalizing i with
  | none s h =>
    rw [parts_of_none h, search_of_next?_none h]
    split_ifs <;> rfl
  | some s before inner behind h ih =>
    rw [parts_of_some h, search_of_next?_some h, ← ih]
    split_ifs with hb
    · simp [hb, placed]
    · rfl

/-! ## Substitution -/

variable {lookup : List Char → List Char}

/-- The parts of a text, filled, are the text with all that the search finds replaced. -/
theorem fill_parts (s : List Char) (i : Nat) :
    (parts s).flatMap (Part.fill lookup) = replace lookup i s (search i s) := by
  induction s using parts_induction generalizing i with
  | none s h => rw [fill_of_none h, search_of_next?_none h, replace]
  | some s before inner behind h ih =>
    have hs : s = before ++ (('\x7b' :: '\x7b' :: (inner ++ ['\x7d', '\x7d'])) ++ behind) := by
      rw [next?_eq h]
      simp
    have hdrop : s.drop (before.length + inner.length + 4) = behind := by
      rw [hs, Nat.add_assoc, ← List.drop_drop, List.drop_left]
      exact List.drop_left' (by simp)
    have htake : s.take before.length = before := by rw [hs, List.take_left]
    rw [fill_of_some h, search_of_next?_some h, replace, Nat.add_sub_cancel_left, hdrop, htake, ← ih,
      List.append_assoc]

/-- **A substitution replaces what the search finds,** and does nothing where that is
nothing. -/
theorem substitute?_eq_replace (s lookup) : substitute? s lookup =
    if search 0 s = [] then none else some (replace lookup 0 s (search 0 s)) := by
  rw [substitute?_eq, ← fill_parts]
  cases h : next? s with
  | none => rw [if_pos (search_of_next?_none h 0)]; rfl
  | some found =>
    rw [if_neg (by rw [search_of_next?_some h]; exact nofun)]
    rfl

end Template
end PageBinding
