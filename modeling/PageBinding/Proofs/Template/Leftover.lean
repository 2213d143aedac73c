/-
# What a substitution leaves

A text has a placeholder in it (`HasPlaceholder`) just if the reading from left to right
finds one (`not_hasPlaceholder_of_next?`).  When the placeholders are replaced by texts without
braces, one can be left over in one way only: a stretch between two placeholders lacks
just the last brace of one (`Lacking`), what follows it leaves nothing, and the next
stretch that is not empty begins with a closing brace.  Then the two stretches are
joined to a placeholder (`Joins`, `hasPlaceholder_fill_iff`).

What is before the first placeholder of a text does not end with an opening brace, and
wherever it has two of them a closing one follows in it (`Stretch`); otherwise the
reading would have found a placeholder that begins earlier.  So nothing that begins in
a stretch goes on beyond the placeholder that follows it, unless the last brace does.
-/

import PageBinding.Template.Placeholder
import Mathlib.Tactic.SplitIfs

namespace PageBinding
namespace Template

/-- What follows two opening braces makes a placeholder of them. -/
def Completes (r : List Char) : Prop :=
  ∃ inner behind, inner ≠ [] ∧ '\x7d' ∉ inner ∧ r = inner ++ '\x7d' :: '\x7d' :: behind

/-- A text has a placeholder in it: two opening braces, one or more characters other
than a closing brace, and two closing braces. -/
def HasPlaceholder (s : List Char) : Prop :=
  ∃ before r, s = before ++ '\x7b' :: '\x7b' :: r ∧ Completes r

/-- A text ends with a placeholder that lacks its last brace. -/
def Lacking (s : List Char) : Prop :=
  ∃ before inner, inner ≠ [] ∧ '\x7d' ∉ inner ∧
    s = before ++ '\x7b' :: '\x7b' :: (inner ++ ['\x7d'])

/-- A text has no braces. -/
def Unbraced (s : List Char) : Prop := '\x7b' ∉ s ∧ '\x7d' ∉ s

variable {s r u v w inner before rest : List Char} {c : Char}

/-! ## Texts with placeholders -/

/-- The first closing brace stands where the inside of a placeholder ends. -/
theorem append_closing_inj (hu : '\x7d' ∉ u) (hv : '\x7d' ∉ v)
    (h : u ++ '\x7d' :: r = v ++ '\x7d' :: w) : u = v ∧ r = w := by
  induction u generalizing v with
  | nil =>
    cases v with
    | nil => exact ⟨rfl, (List.cons.inj h).2⟩
    | cons d v => exact absurd ((List.cons.inj h).1 ▸ List.mem_cons_self ..) hv
  | cons c u ih =>
    cases v with
    | nil => exact absurd ((List.cons.inj h).1 ▸ List.mem_cons_self ..) hu
    | cons d v =>
      rw [List.cons_append, List.cons_append, List.cons.injEq] at h
      obtain ⟨rfl, h⟩ := h
      obtain ⟨rfl, rfl⟩ := ih (fun hm => hu (List.mem_cons_of_mem _ hm))
        (fun hm => hv (List.mem_cons_of_mem _ hm)) h
      exact ⟨rfl, rfl⟩

/-- What follows two opening braces makes a placeholder of them if the first closing brace comes
behind some character and right before another one. -/
theorem completes_iff (hi : '\x7d' ∉ inner) :
    Completes (inner ++ '\x7d' :: rest) ↔ inner ≠ [] ∧ ∃ behind, rest = '\x7d' :: behind := by
  constructor
  · rintro ⟨i, behind, hne, hni, he⟩
    obtain ⟨rfl, rfl⟩ := append_closing_inj hi hni he
    exact ⟨hne, behind, rfl⟩
  · rintro ⟨hne, behind, rfl⟩
    exact ⟨inner, behind, hne, hi, rfl⟩

/-- Without a closing brace there is no placeholder. -/
theorem not_completes (h : '\x7d' ∉ r) : ¬ Completes r := by
  rintro ⟨inner, behind, -, -, rfl⟩
  exact h (List.mem_append_right _ (List.mem_cons_self ..))

/-- A placeholder begins at the first character or behind it. -/
theorem hasPlaceholder_cons :
    HasPlaceholder (c :: r) ↔ (c = '\x7b' ∧ ∃ r', r = '\x7b' :: r' ∧ Completes r') ∨
      HasPlaceholder r := by
  constructor
  · rintro ⟨before, r', he, hr'⟩
    cases before with
    | nil =>
      obtain ⟨rfl, rfl⟩ := List.cons.inj he
      exact .inl ⟨rfl, r', rfl, hr'⟩
    | cons d before =>
      obtain ⟨rfl, rfl⟩ := List.cons.inj he
      exact .inr ⟨before, r', rfl, hr'⟩
  · rintro (⟨rfl, r', rfl, hr'⟩ | ⟨before, r', rfl, hr'⟩)
    · exact ⟨[], r', rfl, hr'⟩
    · exact ⟨c :: before, r', rfl, hr'⟩

/-- The empty text has no placeholder. -/
theorem not_hasPlaceholder_nil : ¬ HasPlaceholder [] := by
  rintro ⟨before, r, he, -⟩
  cases before <;> cases he

/-- A placeholder stays one behind any text. -/
theorem HasPlaceholder.append_left (h : HasPlaceholder r) (u : List Char) :
    HasPlaceholder (u ++ r) := by
  obtain ⟨before, r', rfl, hr'⟩ := h
  exact ⟨u ++ before, r', (List.append_assoc ..).symm, hr'⟩

/-- A text without a closing brace has no placeholder. -/
theorem not_hasPlaceholder (h : '\x7d' ∉ s) : ¬ HasPlaceholder s := by
  rintro ⟨before, r, rfl, hr⟩
  refine not_completes (fun hm => h ?_) hr
  exact List.mem_append_right _ (List.mem_cons_of_mem _ (List.mem_cons_of_mem _ hm))

/-- No placeholder begins in a text without opening braces. -/
theorem hasPlaceholder_append (hv : '\x7b' ∉ v) : HasPlaceholder (v ++ r) ↔ HasPlaceholder r := by
  induction v with
  | nil => rfl
  | cons c v ih =>
    rw [List.mem_cons, not_or] at hv
    rw [List.cons_append, hasPlaceholder_cons, ih hv.2, or_iff_right]
    exact fun h => hv.1 h.1.symm

/-- **The first closing brace decides:** a placeholder that begins before it ends at
it. -/
theorem hasPlaceholder_closing (hu : '\x7d' ∉ u) :
    HasPlaceholder (u ++ '\x7d' :: rest) ↔
      (∃ before inner, inner ≠ [] ∧ u = before ++ '\x7b' :: '\x7b' :: inner ∧
        ∃ behind, rest = '\x7d' :: behind) ∨ HasPlaceholder rest := by
  induction u with
  | nil =>
    rw [List.nil_append, hasPlaceholder_cons, or_iff_right (by rintro ⟨h, -⟩; cases h),
      or_iff_right]
    rintro ⟨before, inner, -, h, -⟩
    cases before <;> cases h
  | cons c u ih =>
    rw [List.mem_cons, not_or] at hu
    rw [List.cons_append, hasPlaceholder_cons, ih hu.2]
    constructor
    · rintro (⟨rfl, r', he, hr'⟩ | ⟨before, inner, hne, rfl, h⟩ | h)
      · cases u with
        | nil => cases he
        | cons d inner =>
          obtain ⟨rfl, rfl⟩ := List.cons.inj he
          have hn : '\x7d' ∉ inner := fun hm => hu.2 (List.mem_cons_of_mem _ hm)
          obtain ⟨hne, h⟩ := (completes_iff hn).1 hr'
          exact .inl ⟨[], inner, hne, rfl, h⟩
      · exact .inl ⟨c :: before, inner, hne, rfl, h⟩
      · exact .inr h
    · rintro (⟨before, inner, hne, he, h⟩ | h)
      · cases before with
        | nil =>
          obtain ⟨rfl, rfl⟩ := List.cons.inj he
          have hn : '\x7d' ∉ inner := fun hm => hu.2 (List.mem_cons_of_mem _ hm)
          exact .inl ⟨rfl, inner ++ '\x7d' :: rest, rfl, (completes_iff hn).2 ⟨hne, h⟩⟩
        | cons d before =>
          obtain ⟨rfl, rfl⟩ := List.cons.inj he
          exact .inr (.inl ⟨before, inner, hne, rfl, h⟩)
      · exact .inr (.inr h)

/-! ## Stretches -/

/-- **What stands before a placeholder:** there is none in it, it does not end with an
opening brace, and two of them are followed in it by a closing one. -/
structure Stretch (s : List Char) : Prop where
  bare : ¬ HasPlaceholder s
  closed : ∀ u w, s = u ++ '\x7b' :: '\x7b' :: w → '\x7d' ∈ w
  ends : ∀ u, s ≠ u ++ ['\x7b']

/-- Nothing can stand before a placeholder. -/
theorem stretch_nil : Stretch [] where
  bare := not_hasPlaceholder_nil
  closed u w h := by cases u <;> cases h
  ends u h := by cases u <;> cases h

/-- A character before a stretch, if it makes no two opening braces with it. -/
theorem Stretch.cons (h : Stretch s) (hc : c = '\x7b' → ∃ d r, s = d :: r ∧ d ≠ '\x7b') :
    Stretch (c :: s) where
  bare hp := by
    rcases hasPlaceholder_cons.1 hp with ⟨rfl, r', rfl, -⟩ | hp
    · obtain ⟨d, r, hs, hd⟩ := hc rfl
      exact hd (List.cons.inj hs).1.symm
    · exact h.bare hp
  closed u w he := by
    cases u with
    | nil =>
      obtain ⟨rfl, rfl⟩ := List.cons.inj he
      obtain ⟨d, r, hs, hd⟩ := hc rfl
      exact absurd (List.cons.inj hs).1.symm hd
    | cons d u => exact h.closed u w (List.cons.inj he).2
  ends u he := by
    cases u with
    | nil =>
      obtain ⟨rfl, rfl⟩ := List.cons.inj he
      obtain ⟨d, r, hs, -⟩ := hc rfl
      cases hs
    | cons d u => exact h.ends u (List.cons.inj he).2

/-- What is closed and no placeholder before a stretch. -/
theorem Stretch.closing (h : Stretch s) (hu : '\x7d' ∉ u)
    (hn : ∀ before inner, inner ≠ [] → u = before ++ '\x7b' :: '\x7b' :: inner →
      ∀ behind, s ≠ '\x7d' :: behind) : Stretch (u ++ '\x7d' :: s) where
  bare hp := by
    rcases (hasPlaceholder_closing hu).1 hp with ⟨before, inner, hne, he, behind, hs⟩ | hp
    · exact hn before inner hne he behind hs
    · exact h.bare hp
  closed a w he := by
    clear hn
    induction u generalizing a with
    | nil =>
      cases a with
      | nil => cases he
      | cons d a => exact h.closed a w (List.cons.inj he).2
    | cons c u ih =>
      cases a with
      | nil =>
        cases u with
        | nil => cases (List.cons.inj he).2
        | cons d u =>
          obtain ⟨-, rfl⟩ := List.cons.inj (List.cons.inj he).2
          exact List.mem_append_right _ (List.mem_cons_self ..)
      | cons d a =>
        exact ih (fun hm => hu (List.mem_cons_of_mem _ hm)) a (List.cons.inj he).2
  ends a he := by
    rcases List.eq_nil_or_concat s with rfl | ⟨s', d, rfl⟩
    · exact absurd (List.append_inj_right' he rfl) (by decide)
    · rw [List.concat_eq_append, ← List.cons_append, ← List.append_assoc] at he
      refine h.ends s' ?_
      rw [List.concat_eq_append, List.append_inj_right' he rfl]

/-- What stands before the first closing brace has none. -/
theorem notMem_takeWhile (r : List Char) : '\x7d' ∉ r.takeWhile (!isClosing ·) := fun h => by
  have := List.all_eq_true.1 List.all_takeWhile _ h
  simp [isClosing] at this

/-- If nothing is left from a closing brace on, there is none. -/
theorem notMem_of_dropWhile (h : r.dropWhile (!isClosing ·) = []) : '\x7d' ∉ r := by
  have hr := List.takeWhile_append_dropWhile (p := (!isClosing ·)) (l := r)
  rw [h, List.append_nil] at hr
  exact hr ▸ notMem_takeWhile r

/-- Two opening braces that the first closing brace makes no placeholder of. -/
def Fails (inner rest : List Char) : Prop := inner = [] ∨ ∀ behind, rest ≠ '\x7d' :: behind

/-- Where the first closing brace makes no placeholder, no later opening brace before it does. -/
theorem Fails.not_closed (h : Fails inner rest) : ∀ before inside, inside ≠ [] →
    '\x7b' :: '\x7b' :: inner = before ++ '\x7b' :: '\x7b' :: inside →
      ∀ behind, rest ≠ '\x7d' :: behind := by
  rintro before inside hne he
  rcases h with rfl | h
  · have hl := congrArg List.length he
    have := List.length_pos_iff.2 hne
    simp only [List.length_cons, List.length_nil, List.length_append] at hl
    omega
  · exact h

/-- Two opening braces add no closing one. -/
theorem notMem_opened (h : '\x7d' ∉ inner) : '\x7d' ∉ '\x7b' :: '\x7b' :: inner := by
  simpa using h

/-- Where the first closing brace makes no placeholder, one can only stand behind it. -/
theorem Fails.hasPlaceholder (h : Fails inner rest) (hi : '\x7d' ∉ inner)
    (hp : HasPlaceholder ('\x7b' :: '\x7b' :: (inner ++ '\x7d' :: rest))) : HasPlaceholder rest := by
  rcases (hasPlaceholder_closing (notMem_opened hi)).1 hp with
    ⟨before, inside, hne, he, behind, hr⟩ | hp
  · exact absurd hr (h.not_closed before inside hne he behind)
  · exact hp

/-- Where the first closing brace makes no placeholder, it can stand before one, with what is behind
it. -/
theorem Fails.stretch (h : Fails inner rest) (hi : '\x7d' ∉ inner) (hs : Stretch s)
    (hr : ∀ behind, s = '\x7d' :: behind → ∃ behind', rest = '\x7d' :: behind') :
    Stretch ('\x7b' :: '\x7b' :: (inner ++ '\x7d' :: s)) :=
  hs.closing (notMem_opened hi) fun before inside hne he behind hb => by
    obtain ⟨behind', hb'⟩ := hr behind hb
    exact h.not_closed before inside hne he behind' hb'

/-- **The reading finds a placeholder if there is one.** -/
theorem not_hasPlaceholder_of_next? (h : next? s = none) : ¬ HasPlaceholder s := by
  fun_induction next? s with
  | case1 => exact not_hasPlaceholder_nil
  | case2 r hd =>
    exact not_hasPlaceholder (notMem_opened (notMem_of_dropWhile hd))
  | case3 r inside c rest hd hi ih =>
    rw [eq_of_dropWhile_isClosing hd]
    exact fun hp => ih (Option.map_eq_none_iff.1 h)
      (Fails.hasPlaceholder (.inl hi) (notMem_takeWhile r) hp)
  | case4 r inside c rest hd => cases h
  | case5 r inside c rest hne hd ih =>
    rw [eq_of_dropWhile_isClosing hd]
    exact fun hp => ih (Option.map_eq_none_iff.1 h)
      (Fails.hasPlaceholder (.inr hne) (notMem_takeWhile r) hp)
  | case6 c r hne ih =>
    rw [hasPlaceholder_cons]
    rintro (⟨hc, r', hr, -⟩ | hp)
    · exact hne r' hc hr
    · exact ih (Option.map_eq_none_iff.1 h) hp

/-- What the reading finds is the first placeholder of a text. -/
theorem stretch_of_next? {behind : List Char} (h : next? s = some (before, inner, behind)) :
    Stretch before ∧ inner ≠ [] ∧ '\x7d' ∉ inner := by
  fun_induction next? s generalizing before inner behind with
  | case1 => cases h
  | case2 => cases h
  | case3 r inside c rest hd hi =>
    rename_i ih
    obtain ⟨⟨b, i, a⟩, hn, he⟩ := Option.map_eq_some_iff.1 h
    simp only [Prod.mk.injEq] at he
    obtain ⟨rfl, rfl, rfl⟩ := he
    obtain ⟨hb, hne, hni⟩ := ih hn
    refine ⟨?_, hne, hni⟩
    have hf : Fails [] ('\x7d' :: rest) := .inl rfl
    exact hf.stretch List.not_mem_nil hb fun _ _ => ⟨_, rfl⟩
  | case4 r inside c rest hd =>
    rename_i hi
    simp only [Option.some.injEq, Prod.mk.injEq] at h
    obtain ⟨rfl, rfl, rfl⟩ := h
    exact ⟨stretch_nil, hi, notMem_takeWhile r⟩
  | case5 r inside c rest hne hd =>
    rename_i ih
    obtain ⟨⟨b, i, a⟩, hn, he⟩ := Option.map_eq_some_iff.1 h
    simp only [Prod.mk.injEq] at he
    obtain ⟨rfl, rfl, rfl⟩ := he
    obtain ⟨hb, hnei, hni⟩ := ih hn
    refine ⟨Fails.stretch (.inr hne) (notMem_takeWhile r) hb fun behind hb => ?_, hnei, hni⟩
    rw [next?_eq hn, hb]
    exact ⟨_, rfl⟩
  | case6 c r hne ih =>
    obtain ⟨⟨b, i, a⟩, hn, he⟩ := Option.map_eq_some_iff.1 h
    simp only [Prod.mk.injEq] at he
    obtain ⟨rfl, rfl, rfl⟩ := he
    obtain ⟨hb, hnei, hni⟩ := ih hn
    have hr := next?_eq hn
    refine ⟨hb.cons fun hc => ?_, hnei, hni⟩
    cases b with
    | nil => exact absurd hr (hne _ hc)
    | cons d b => exact ⟨d, b, rfl, fun hd => hne _ hc (hd ▸ hr)⟩

/-! ## Substitution -/

/-- What some parts leave begins with a closing brace. -/
def BeginsClosing (lookup : List Char → List Char) : List Part → Prop
  | [] => False
  | .literal s :: _ => s.head? = some '\x7d'
  | .placeholder inner :: ps => lookup (Text.trim inner) = [] ∧ BeginsClosing lookup ps

/-- **A substitution joins parts of a text to a placeholder:** one of them lacks only
the last brace of it, and what the parts behind it leave begins with that. -/
def Joins (lookup : List Char → List Char) (ps : List Part) : Prop :=
  ∃ before s behind, ps = before ++ .literal s :: behind ∧ Lacking s ∧ BeginsClosing lookup behind

variable {lookup : List Char → List Char} {ps : List Part} {value : List Char}

/-- A placeholder at the front neither joins nor keeps parts from being joined. -/
theorem joins_placeholder (inner : List Char) :
    Joins lookup (.placeholder inner :: ps) ↔ Joins lookup ps := by
  constructor
  · rintro ⟨before, s, behind, he, hs, hb⟩
    cases before with
    | nil => cases he
    | cons p before => exact ⟨before, s, behind, (List.cons.inj he).2, hs, hb⟩
  · rintro ⟨before, s, behind, rfl, hs, hb⟩
    exact ⟨.placeholder inner :: before, s, behind, rfl, hs, hb⟩

/-- A literal at the front joins parts if it lacks the last brace of a placeholder and what is left
behind it begins with one. -/
theorem joins_literal (s : List Char) :
    Joins lookup (.literal s :: ps) ↔ (Lacking s ∧ BeginsClosing lookup ps) ∨ Joins lookup ps := by
  constructor
  · rintro ⟨before, s', behind, he, hs, hb⟩
    cases before with
    | nil =>
      rw [List.nil_append, List.cons.injEq, Part.literal.injEq] at he
      obtain ⟨rfl, rfl⟩ := he
      exact .inl ⟨hs, hb⟩
    | cons p before => exact .inr ⟨before, s', behind, (List.cons.inj he).2, hs, hb⟩
  · rintro (⟨hs, hb⟩ | ⟨before, s', behind, rfl, hs, hb⟩)
    · exact ⟨[], s, ps, rfl, hs, hb⟩
    · exact ⟨.literal s :: before, s', behind, rfl, hs, hb⟩

/-- The empty text lacks no brace. -/
theorem not_lacking_nil : ¬ Lacking [] := by
  rintro ⟨before, inner, -, -, he⟩
  cases before <;> cases he

/-- **What is put between a stretch and the rest of a text** makes a placeholder of them
just if it is nothing, and the stretch lacks one brace with which the rest begins. -/
theorem Stretch.hasPlaceholder_iff (h : Stretch s) (hv : Unbraced value) :
    HasPlaceholder (s ++ (value ++ rest)) ↔
      (Lacking s ∧ value = [] ∧ rest.head? = some '\x7d') ∨ HasPlaceholder rest := by
  constructor
  · rintro ⟨before, r, he, hr⟩
    rcases List.append_eq_append_iff.1 he with ⟨y, rfl, htail⟩ | ⟨x, hs, htail⟩
    -- It begins behind the stretch.
    · exact .inr ((hasPlaceholder_append hv.1).1 ⟨y, r, htail, hr⟩)
    · cases x with
      | nil => exact .inr ((hasPlaceholder_append hv.1).1 ⟨[], r, htail.symm, hr⟩)
      | cons c x =>
        rw [List.cons_append, List.cons.injEq] at htail
        obtain ⟨rfl, htail⟩ := htail
        cases x with
        | nil => exact absurd hs (h.ends before)
        | cons d w =>
          rw [List.cons_append, List.cons.injEq] at htail
          obtain ⟨rfl, htail⟩ := htail
          -- Its inside ends within the stretch, where the first closing brace is.
          obtain ⟨inside, w', rfl, hin⟩ := List.eq_append_cons_of_mem (h.closed before w hs)
          rw [htail, List.append_assoc, List.cons_append] at hr
          obtain ⟨hne, behind, hb⟩ := (completes_iff hin).1 hr
          cases w' with
          | cons e w' =>
            rw [List.cons_append, List.cons.injEq] at hb
            exact absurd ⟨before, _, hs, (completes_iff hin).2 ⟨hne, w', hb.1 ▸ rfl⟩⟩ h.bare
          | nil =>
            cases value with
            | cons e value =>
              rw [List.nil_append, List.cons_append, List.cons.injEq] at hb
              exact absurd (hb.1 ▸ List.mem_cons_self ..) hv.2
            | nil => exact .inl ⟨⟨before, inside, hne, hin, hs⟩, rfl, congrArg List.head? hb⟩
  · rintro (⟨⟨before, inner, hne, hn, rfl⟩, rfl, hrest⟩ | hp)
    · obtain ⟨behind, rfl⟩ := List.head?_eq_some_iff.1 hrest
      exact ⟨before, inner ++ '\x7d' :: '\x7d' :: behind, by simp, inner, behind, hne, hn, rfl⟩
    · exact (hp.append_left value).append_left s

/-! ## The parts of a text -/

section
variable {behind : List Char}

/-- A text in which no placeholder is found is a single literal, unless it is empty. -/
theorem parts_of_none (h : next? s = none) : parts s = if s = [] then [] else [.literal s] := by
  rw [parts]
  split
  · rfl
  · rename_i hs
    rw [h] at hs
    cases hs

/-- The parts of a text up to the first placeholder, and those behind it. -/
theorem parts_of_some (h : next? s = some (before, inner, behind)) :
    parts s = (if before = [] then [] else [.literal before]) ++ .placeholder inner :: parts behind := by
  rw [parts]
  split
  · rename_i hs
    rw [h] at hs
    cases hs
  · rename_i hs
    rw [h] at hs
    cases hs
    rfl

/-- What the parts of a text without a placeholder leave is the text. -/
theorem fill_of_none (h : next? s = none) : (parts s).flatMap (Part.fill lookup) = s := by
  rw [parts_of_none h]
  split_ifs with hs
  · exact hs.symm
  · simp [Part.fill]

/-- A text with its first placeholder filled, and the rest. -/
theorem fill_of_some (h : next? s = some (before, inner, behind)) :
    (parts s).flatMap (Part.fill lookup) =
      before ++ (lookup (Text.trim inner) ++ (parts behind).flatMap (Part.fill lookup)) := by
  rw [parts_of_some h]
  split_ifs with hb
  · simp [hb, Part.fill]
  · simp [Part.fill]

/-- What holds of a text without a placeholder, and of another one if it holds of what
stands behind its first one, holds of every text. -/
theorem parts_induction {P : List Char → Prop} (none : ∀ s, next? s = none → P s)
    (some : ∀ s before inner behind, next? s = some (before, inner, behind) → P behind → P s)
    (s : List Char) : P s := by
  fun_induction parts s with
  | case1 h => exact none [] h
  | case2 s h => exact none s h
  | case3 s before inner behind h ih => exact some s before inner behind h ih

end

/-- What the parts of a text leave begins with a closing brace if the filled text does. -/
theorem beginsClosing_iff (hl : ∀ path, Unbraced (lookup path)) (s : List Char) :
    BeginsClosing lookup (parts s) ↔
      ((parts s).flatMap (Part.fill lookup)).head? = some '\x7d' := by
  induction s using parts_induction with
  | none s h =>
    rw [fill_of_none h, parts_of_none h]
    split_ifs with hs
    · simp [BeginsClosing, hs]
    · rfl
  | some s before inner behind h ih =>
    rw [fill_of_some h, parts_of_some h]
    split_ifs with hb
    · rw [List.nil_append, BeginsClosing, ih, hb, List.nil_append]
      cases hv : lookup (Text.trim inner) with
      | nil => simp
      | cons c v =>
        have hc : c ≠ '\x7d' := fun he => (hl (Text.trim inner)).2 (by simp [hv, he])
        simp [hc]
    · obtain ⟨c, r, rfl⟩ := List.exists_cons_of_ne_nil hb
      rfl

/-- **What a substitution leaves** has a placeholder in it just if parts of the text are
joined to one. -/
theorem hasPlaceholder_fill_iff (hl : ∀ path, Unbraced (lookup path)) (s : List Char) :
    HasPlaceholder ((parts s).flatMap (Part.fill lookup)) ↔ Joins lookup (parts s) := by
  induction s using parts_induction with
  | none s h =>
    rw [fill_of_none h, parts_of_none h, iff_false_left (not_hasPlaceholder_of_next? h)]
    split_ifs with hs
    · rintro ⟨before, s, behind, he, -⟩
      cases before <;> cases he
    · rw [joins_literal]
      rintro (⟨-, hb⟩ | ⟨before, s, behind, he, -⟩)
      · exact hb
      · cases before <;> cases he
  | some s before inner behind h ih =>
    rw [fill_of_some h, (stretch_of_next? h).1.hasPlaceholder_iff (hl _), ih,
      ← beginsClosing_iff hl, parts_of_some h]
    split_ifs with hb
    · rw [List.nil_append, joins_placeholder, or_iff_right]
      exact fun hlack => not_lacking_nil (hb ▸ hlack.1)
    · rw [List.singleton_append, joins_literal, joins_placeholder, BeginsClosing]

/-- A text in which a placeholder is found passes the quick test. -/
theorem mayHavePlaceholder_of_next? {found : List Char × List Char × List Char}
    (h : next? s = some found) : mayHavePlaceholder s = true := by
  have key : ∀ before r : List Char, mayHavePlaceholder (before ++ '\x7b' :: '\x7b' :: r) = true := by
    intro before r
    induction before with
    | nil => rfl
    | cons c before ih =>
      rw [List.cons_append, mayHavePlaceholder.eq_def]
      split
      · rename_i he
        cases he
      · rfl
      · rename_i he
        rw [← (List.cons.inj he).2, ih]
  obtain ⟨before, inner, behind⟩ := found
  rw [next?_eq h]
  exact key before _

/-- A substitution puts the parts together, if the reading finds a placeholder. -/
theorem substitute?_eq (s : List Char) (lookup : List Char → List Char) :
    substitute? s lookup = (next? s).map fun _ => (parts s).flatMap (Part.fill lookup) := by
  rw [substitute?]
  cases h : next? s with
  | none =>
    have hp : (parts s).any Part.isPlaceholder = false := by
      rw [parts_of_none h]
      split_ifs <;> rfl
    simp [hp]
  | some found =>
    obtain ⟨before, inner, behind⟩ := found
    have hp : (parts s).any Part.isPlaceholder = true := by
      rw [parts_of_some h]
      simp [Part.isPlaceholder]
    simp [mayHavePlaceholder_of_next? h, hp]

/-- A substitution leaves what the parts leave, one after the other. -/
theorem getD_substitute? (s : List Char) (lookup : List Char → List Char) :
    (substitute? s lookup).getD s = (parts s).flatMap (Part.fill lookup) := by
  rw [substitute?_eq]
  cases h : next? s with
  | none => exact (fill_of_none h).symm
  | some found => rfl

end Template
end PageBinding
