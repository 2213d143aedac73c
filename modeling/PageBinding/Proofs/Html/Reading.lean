/-
# What is read can be written

Each token of a text without carriage returns holds what can be written again
(`writable_of_mem_tokensOf`): its names are in lower case and end where they would be
read to end, its attributes are sorted and its comment does not contain an end.

What is left of a text after each part of a token is a suffix of the text, so no
carriage return comes up.
-/

import PageBinding.Proofs.Html.Rereading
import PageBinding.Proofs.Named
import Mathlib.Data.List.TakeWhile

namespace PageBinding
namespace Html

variable {c : Char} {s t : List Char} {e : Element}

/-! ## Names -/

/-- A letter does not end an attribute's name. -/
theorem endsAttributeName_of_isAlpha (hc : c.isAlpha) : endsAttributeName c = false := by
  have hne : ∀ d : Char, d.isAlpha = false → (c = d) = False := fun d hd =>
    eq_false fun h => by
      subst h
      rw [hc] at hd
      cases hd
  simp [endsAttributeName, endsTagName, isTagSpace, hne]

/-- A letter does not end a tag's name. -/
theorem endsTagName_of_isAlpha (hc : c.isAlpha) : endsTagName c = false :=
  (Bool.or_eq_false_iff.1 (endsAttributeName_of_isAlpha hc)).1

/-- Letters in upper case are those from A to Z. -/
theorem isUpper_iff : c.isUpper ↔ 65 ≤ c.val.toNat ∧ c.val.toNat ≤ 90 := decide_eq_true_iff

/-- Letters in lower case are those from a to z. -/
theorem isLower_iff : c.isLower ↔ 97 ≤ c.val.toNat ∧ c.val.toNat ≤ 122 :=
  Bool.and_eq_true_iff.trans (and_congr decide_eq_true_iff decide_eq_true_iff)

/-- What is in no upper case stays. -/
theorem toLower_of_not_isUpper (hc : ¬ c.isUpper) : c.toLower = c :=
  dif_neg fun h => hc (isUpper_iff.2 h)

/-- What is in upper case goes to lower case. -/
theorem isLower_toLower (hc : c.isUpper) : c.toLower.isLower := by
  have h := isUpper_iff.1 hc
  have hval : c.toLower.val = c.val + 32 := congrArg Char.val (dif_pos h)
  rw [isLower_iff, hval, UInt32.toNat_add]
  show 97 ≤ (c.val.toNat + 32) % 2 ^ 32 ∧ (c.val.toNat + 32) % 2 ^ 32 ≤ 122
  omega

/-- No letter is in both cases. -/
theorem not_isUpper_of_isLower (hc : c.isLower) : ¬ c.isUpper := by
  rw [isUpper_iff]
  rw [isLower_iff] at hc
  omega

/-- A small letter is kept in a name. -/
theorem nameChar_of_isLower (hc : c.isLower) : nameChar c = c := by
  rw [nameChar, toLower_of_not_isUpper (not_isUpper_of_isLower hc), withoutNul, if_neg]
  rintro rfl
  exact absurd hc (by decide)

/-- A character is a letter, is kept in a name, or is NUL. -/
theorem nameChar_cases (c : Char) :
    (c.isAlpha ∧ (nameChar c).isLower) ∨ nameChar c = c ∨ c = '\x00' := by
  by_cases hc : c.isUpper
  · have ha : c.isAlpha := Bool.or_eq_true _ _ ▸ .inl hc
    have hl : c.toLower.isLower := isLower_toLower hc
    have hn : nameChar c = c.toLower := by
      have := nameChar_of_isLower hl
      rwa [nameChar, toLower_of_not_isUpper (not_isUpper_of_isLower hl)] at this
    exact .inl ⟨ha, hn ▸ hl⟩
  · rw [nameChar, toLower_of_not_isUpper hc, withoutNul]
    by_cases hn : c = '\x00'
    · exact .inr (.inr hn)
    · exact .inr (.inl (if_neg hn))

/-- What becomes of a character in a name is kept when the name is read again. -/
theorem isNameChar_nameChar (hc : c ≠ '\r') : IsNameChar (nameChar c) := by
  rcases nameChar_cases c with ⟨-, hl⟩ | hk | rfl
  · refine ⟨nameChar_of_isLower hl, fun h => ?_⟩
    rw [h] at hl
    exact absurd hl (by decide)
  · rw [hk]
    exact ⟨hk, hc⟩
  · exact ⟨by decide, by decide⟩

/-- A letter stays a letter in a name. -/
theorem isAlpha_nameChar (hc : c.isAlpha) : (nameChar c).isAlpha := by
  rcases nameChar_cases c with ⟨-, hl⟩ | hk | rfl
  · exact Bool.or_eq_true _ _ ▸ .inr hl
  · rwa [hk]
  · exact absurd hc (by decide)

/-- A property of characters that no letter has and that does not tell NUL from
U+FFFD holds of a name's character just if it holds of what it was read from. -/
theorem apply_nameChar {p : Char → Bool} (hp : ∀ d : Char, d.isAlpha → p d = false)
    (hnul : p replacement = p '\x00') (c : Char) : p (nameChar c) = p c := by
  rcases nameChar_cases c with ⟨hc, -⟩ | hk | rfl
  · rw [hp _ hc, hp _ (isAlpha_nameChar hc)]
  · rw [hk]
  · exact hnul

/-- What ends a tag's name is not changed in a name, and nothing becomes it. -/
theorem endsTagName_nameChar (c : Char) : endsTagName (nameChar c) = endsTagName c :=
  apply_nameChar (fun _ => endsTagName_of_isAlpha) (by decide) c

/-- What ends an attribute's name is not changed in a name, and nothing becomes it. -/
theorem endsAttributeName_nameChar (c : Char) :
    endsAttributeName (nameChar c) = endsAttributeName c :=
  apply_nameChar (fun _ => endsAttributeName_of_isAlpha) (by decide) c

/-- The characters of a name that is read up to where it ends. -/
theorem forall_mem_map_nameChar {p : Char → Bool} (hp : ∀ d, p (nameChar d) = p d)
    (hs : '\r' ∉ s) :
    ∀ d ∈ (s.takeWhile (!p ·)).map nameChar, IsNameChar d ∧ p d = false := by
  intro d hd
  obtain ⟨c, hc, rfl⟩ := List.mem_map.1 hd
  have hpc : (!p c) = true := List.mem_takeWhile_imp (p := fun x => !p x) hc
  refine ⟨isNameChar_nameChar fun he => hs ?_, ?_⟩
  · exact he ▸ (List.takeWhile_prefix _).subset hc
  · rw [hp]
    simpa using hpc

/-! ## Comments -/

/-- NUL does not stay. -/
theorem withoutNul_ne_nul (c : Char) : withoutNul c ≠ '\x00' := by
  rw [withoutNul]
  split
  · decide
  · next h => exact h

/-- Only a character itself is read as it, if it is not U+FFFD. -/
theorem eq_of_withoutNul_eq {d : Char} (h : withoutNul c = d) (hd : d ≠ replacement) : c = d := by
  rw [withoutNul] at h
  split at h
  · exact absurd h.symm hd
  · exact h

/-- A prefix without U+FFFD of a text with NUL replaced is a prefix of the text itself. -/
theorem prefix_of_prefix_map {w : List Char} (hw : replacement ∉ w) (h : w <+: s.map withoutNul) :
    w <+: s := by
  induction w generalizing s with
  | nil => exact List.nil_prefix
  | cons d w ih =>
    cases s with
    | nil => cases List.prefix_nil.1 h
    | cons c s =>
      rw [List.map_cons, List.cons_prefix_cons] at h
      rw [List.mem_cons, not_or] at hw
      exact List.cons_prefix_cons.2 ⟨(eq_of_withoutNul_eq h.1.symm (Ne.symm hw.1)).symm,
        ih hw.2 h.2⟩

/-- The data of a comment is a prefix of the text with NUL replaced. -/
theorem comment_prefix (s : List Char) : (comment s).1 <+: s.map withoutNul := by
  fun_induction comment s with
  | case7 c r _ _ _ _ _ _ _ hr ih =>
    rw [hr] at ih
    exact List.cons_prefix_cons.2 ⟨rfl, ih⟩
  | _ => exact List.nil_prefix

/-- The data of a comment that is read does not contain an end. -/
theorem comment_noEnd (s : List Char) :
    ¬ ['-', '-', '>'] <:+: (comment s).1 ∧ ¬ ['-', '-', '!', '>'] <:+: (comment s).1 := by
  fun_induction comment s with
  | case7 c r _ _ _ hend hbang data rest hr ih =>
    have hdata : data <+: r.map withoutNul := by
      have := comment_prefix r
      rwa [hr] at this
    rw [hr] at ih
    constructor
    · intro h
      rcases List.infix_cons_iff.1 h with h | h
      · obtain ⟨hc, h⟩ := List.cons_prefix_cons.1 h
        obtain ⟨u, hu⟩ := prefix_of_prefix_map (by decide) (h.trans hdata)
        exact (hend u (eq_of_withoutNul_eq hc.symm (by decide)) hu.symm).elim
      · exact ih.1 h
    · intro h
      rcases List.infix_cons_iff.1 h with h | h
      · obtain ⟨hc, h⟩ := List.cons_prefix_cons.1 h
        obtain ⟨u, hu⟩ := prefix_of_prefix_map (by decide) (h.trans hdata)
        exact (hbang u (eq_of_withoutNul_eq hc.symm (by decide)) hu.symm).elim
      · exact ih.2 h
  | _ => exact ⟨by simp, by simp⟩

/-- Replacing NUL leaves none, and adds no carriage return. -/
theorem notMem_map_withoutNul (hs : '\r' ∉ s) :
    '\r' ∉ s.map withoutNul ∧ '\x00' ∉ s.map withoutNul := by
  constructor
  · intro h
    obtain ⟨c, hc, he⟩ := List.mem_map.1 h
    exact hs (eq_of_withoutNul_eq he (by decide) ▸ hc)
  · intro h
    obtain ⟨c, -, he⟩ := List.mem_map.1 h
    exact withoutNul_ne_nul c he

/-- A text without carriage returns, NUL and `>` is the data of a comment. -/
theorem isCommentData_of_notMem (hreturn : '\r' ∉ s) (hnul : '\x00' ∉ s) (hclose : '>' ∉ s) :
    IsCommentData s where
  notMem_return := hreturn
  notMem_nul := hnul
  noClose h := hclose (h.subset (by decide))
  noShortEnd h := hclose (h.subset (by decide))
  noEnd h := hclose (h.subset (by decide))
  noBangEnd h := hclose (h.subset (by decide))

/-- **A comment that is read can be written.** -/
theorem isCommentData_commentStart (hs : '\r' ∉ s) : IsCommentData (commentStart s).1 := by
  unfold commentStart
  split
  · exact isCommentData_of_notMem List.not_mem_nil List.not_mem_nil List.not_mem_nil
  · exact isCommentData_of_notMem List.not_mem_nil List.not_mem_nil List.not_mem_nil
  · next hclose hshort =>
    have hp := comment_prefix s
    refine ⟨fun h => (notMem_map_withoutNul hs).1 (hp.subset h),
      fun h => (notMem_map_withoutNul hs).2 (hp.subset h), fun h => ?_, fun h => ?_,
      (comment_noEnd s).1, (comment_noEnd s).2⟩
    · obtain ⟨u, hu⟩ := prefix_of_prefix_map (by decide) (h.trans hp)
      exact hclose u hu.symm
    · obtain ⟨u, hu⟩ := prefix_of_prefix_map (by decide) (h.trans hp)
      exact hshort u hu.symm

/-- What is read as a bogus comment is the data of one. -/
theorem isCommentData_bogus (hs : '\r' ∉ s) :
    IsCommentData ((s.takeWhile (· ≠ '>')).map withoutNul) := by
  have hr : '\r' ∉ s.takeWhile (· ≠ '>') := fun h => hs ((List.takeWhile_prefix _).subset h)
  refine isCommentData_of_notMem (notMem_map_withoutNul hr).1 (notMem_map_withoutNul hr).2 fun h => ?_
  obtain ⟨c, hc, he⟩ := List.mem_map.1 h
  have hne : decide (c ≠ '>') = true := List.mem_takeWhile_imp (p := fun d => decide (d ≠ '>')) hc
  exact of_decide_eq_true hne (eq_of_withoutNul_eq he (by decide))

/-! ## What is left -/

/-- What follows a comment is a suffix of the text. -/
theorem comment_suffix (s : List Char) : (comment s).2 <:+ s := by
  fun_induction comment s with
  | case5 r => exact List.suffix_append ['-', '-', '>'] r
  | case6 r => exact List.suffix_append ['-', '-', '!', '>'] r
  | case7 c r _ _ _ _ _ _ _ hr ih =>
    rw [hr] at ih
    exact ih.trans (List.suffix_cons c r)
  | _ => exact List.nil_suffix

/-- What follows the opening of a comment is a suffix of the text. -/
theorem commentStart_suffix (s : List Char) : (commentStart s).2 <:+ s := by
  unfold commentStart
  split
  · exact List.suffix_cons _ _
  · next r => exact List.suffix_append ['-', '>'] r
  · exact comment_suffix s

/-- What follows the first characters, and the one that ends them, is a suffix of the text. -/
theorem dropWhile_drop_suffix (p : Char → Bool) (s : List Char) : (s.dropWhile p).drop 1 <:+ s :=
  (List.drop_suffix 1 _).trans (List.dropWhile_suffix p)

/-- What follows a value is a suffix of the text. -/
theorem valueText_suffix (s : List Char) : (valueText s).2 <:+ s := by
  have hs : s.dropWhile isTagSpace <:+ s := List.dropWhile_suffix _
  unfold valueText
  split
  · next r hr =>
    rw [hr] at hs
    exact (dropWhile_drop_suffix _ r).trans ((List.suffix_cons _ r).trans hs)
  · next r hr =>
    rw [hr] at hs
    exact (dropWhile_drop_suffix _ r).trans ((List.suffix_cons _ r).trans hs)
  · exact (List.dropWhile_suffix _).trans hs

/-- What follows an attribute is a suffix of the text behind its first character. -/
theorem attributeAt_suffix (c : Char) (s : List Char) : (attributeAt c s).2 <:+ s := by
  have hs : (s.dropWhile (!endsAttributeName ·)).dropWhile isTagSpace <:+ s :=
    (List.dropWhile_suffix _).trans (List.dropWhile_suffix _)
  unfold attributeAt
  dsimp only
  split
  · next r hr =>
    rw [hr] at hs
    exact (valueText_suffix r).trans ((List.suffix_cons _ r).trans hs)
  · exact hs

/-- What is left of a text without its first characters is a suffix of it. -/
theorem suffix_of_dropWhile {p : Char → Bool} (h : s.dropWhile p = t) : t <:+ s :=
  h ▸ List.dropWhile_suffix p

/-- What follows the attributes of a tag is a suffix of the text. -/
theorem tagRest_suffix {as : List Attribute} {b : Bool} {s rest : List Char}
    (h : tagRest s = some (as, b, rest)) : rest <:+ s := by
  fun_induction tagRest s generalizing as b rest with
  | case1 => cases h
  | case2 s r hs =>
    obtain ⟨-, -, rfl⟩ : [] = as ∧ false = b ∧ r = rest := by simpa using h
    exact (List.suffix_cons _ r).trans (suffix_of_dropWhile hs)
  | case3 s r hs =>
    obtain ⟨-, -, rfl⟩ : [] = as ∧ true = b ∧ r = rest := by simpa using h
    exact (List.suffix_append ['/', '>'] r).trans (suffix_of_dropWhile hs)
  | case4 s r _ hs ih => exact (ih h).trans ((List.suffix_cons _ r).trans (suffix_of_dropWhile hs))
  | case5 => cases h
  | case6 s c r _ _ _ hs as' b' rest' ha ih =>
    obtain ⟨-, -, rfl⟩ : (attributeAt c r).1 :: as' = as ∧ b' = b ∧ rest' = rest := by simpa using h
    exact (ih ha).trans ((attributeAt_suffix c r).trans
      ((List.suffix_cons _ r).trans (suffix_of_dropWhile hs)))

/-! ## Attributes -/

/-- **The attributes of a tag that is read are sorted.** -/
theorem increasing_firstByName (as : List Attribute) : Increasing (firstByName as) :=
  Named.increasing_sorted _

/-- Keeping the first attribute of each name adds none. -/
theorem mem_of_mem_firstByName {as : List Attribute} {a : Attribute} (h : a ∈ firstByName as) :
    a ∈ as :=
  List.mem_reverse.1 (Named.mem_of_mem_sorted h)

/-- The name of an attribute that is read can be written. -/
theorem isAttributeName_attributeAt (hc : endsTagName c = false) (hr : '\r' ∉ c :: s) :
    IsAttributeName (attributeAt c s).1.1.toList := by
  rw [List.mem_cons, not_or] at hr
  have hname : (attributeAt c s).1.1.toList =
      nameChar c :: (s.takeWhile (!endsAttributeName ·)).map nameChar := by
    unfold attributeAt
    dsimp only
    split <;> rw [String.toList_ofList]
  refine ⟨_, _, hname, ⟨isNameChar_nameChar (Ne.symm hr.1), ?_⟩,
    forall_mem_map_nameChar endsAttributeName_nameChar hr.2⟩
  rw [endsTagName_nameChar, hc]

/-- The names of all attributes that are read in a tag can be written. -/
theorem isAttributeName_tagRest {as : List Attribute} {b : Bool} {s rest : List Char}
    (h : tagRest s = some (as, b, rest)) (hs : '\r' ∉ s) :
    ∀ a ∈ as, IsAttributeName a.1.toList := by
  fun_induction tagRest s generalizing as b rest with
  | case1 => cases h
  | case2 s r hd =>
    obtain ⟨rfl, -⟩ : [] = as ∧ false = b ∧ r = rest := by simpa using h
    exact List.forall_mem_nil _
  | case3 s r hd =>
    obtain ⟨rfl, -⟩ : [] = as ∧ true = b ∧ r = rest := by simpa using h
    exact List.forall_mem_nil _
  | case4 s r _ hd ih =>
    exact ih h fun hm => hs ((suffix_of_dropWhile hd).subset (List.mem_cons_of_mem _ hm))
  | case5 => cases h
  | case6 s c r hclose _ hslash hd as' b' rest' ha ih =>
    obtain ⟨rfl, -⟩ : (attributeAt c r).1 :: as' = as ∧ b' = b ∧ rest' = rest := by simpa using h
    have hcr : '\r' ∉ c :: r := fun hm => hs ((suffix_of_dropWhile hd).subset hm)
    have hspace : isTagSpace c = false := by
      have := List.head?_dropWhile_not isTagSpace s
      rwa [hd] at this
    have hends : endsTagName c = false := by
      have hne : c ≠ '/' ∧ c ≠ '>' := ⟨hslash, hclose⟩
      simp [endsTagName, hspace, hne]
    refine List.forall_mem_cons.2 ⟨isAttributeName_attributeAt hends hcr, ih ha fun hm => hcr ?_⟩
    exact List.mem_cons_of_mem _ ((attributeAt_suffix c r).subset hm)

/-! ## Tokens -/

/-- What follows a tag is a suffix of the text. -/
theorem tag_suffix {s rest : List Char} {b : Bool} (h : tag s = some (e, b, rest)) : rest <:+ s := by
  obtain ⟨⟨as, b', r⟩, ht, he⟩ := Option.map_eq_some_iff.1 h
  obtain ⟨-, -, rfl⟩ : _ ∧ b' = b ∧ r = rest := by simpa using he
  exact (tagRest_suffix ht).trans (List.dropWhile_suffix _)

/-- **A tag that is read can be written.** -/
theorem writable_tag {s rest : List Char} {b : Bool} (h : tag (c :: s) = some (e, b, rest))
    (hc : c.isAlpha) (hs : '\r' ∉ c :: s) : e.Writable := by
  obtain ⟨⟨as, b', r⟩, ht, he⟩ := Option.map_eq_some_iff.1 h
  obtain ⟨rfl, -⟩ : _ = e ∧ b' = b ∧ r = rest := by simpa using he
  have hname := forall_mem_map_nameChar endsTagName_nameChar hs
  have hcut : '\r' ∉ (c :: s).dropWhile (!endsTagName ·) := fun hm =>
    hs ((List.dropWhile_suffix _).subset hm)
  refine ⟨⟨nameChar c, (s.takeWhile (!endsTagName ·)).map nameChar, ?_, isAlpha_nameChar hc, ?_⟩,
    fun a ha => isAttributeName_tagRest ht hcut a (mem_of_mem_firstByName ha),
    increasing_firstByName as⟩
  · have : (!endsTagName c) = true := by rw [endsTagName_of_isAlpha hc]; rfl
    rw [String.toList_ofList, List.takeWhile_cons_of_pos (p := (!endsTagName ·)) this,
      List.map_cons]
  · rwa [String.toList_ofList]

/-- A token that holds what can be written. -/
def Token.Writable : Token → Prop
  | .startTag e _ => e.Writable
  | .comment s => IsCommentData s.toList
  | _ => True

/-- What follows an end tag is a suffix of the text. -/
theorem afterClose_suffix (s : List Char) : afterClose s <:+ s := dropWhile_drop_suffix _ s

/-- What follows a piece of markup is a suffix of the text. -/
theorem markup_suffix (s : List Char) : (markup s).2 <:+ s := by
  unfold markup
  split
  · next r => exact (commentStart_suffix r).trans (List.suffix_append ['!', '-', '-'] r)
  · next r _ => split <;> exact (afterClose_suffix r).trans (List.suffix_cons _ r)
  · next r => exact afterClose_suffix _
  · next r => exact List.suffix_append ['/', '>'] r
  · next c r _ =>
    split
    · split
      · next h => exact (tag_suffix h).trans (List.suffix_cons _ _)
      · exact List.nil_suffix
    · exact (afterClose_suffix _).trans (List.suffix_cons _ _)
  · exact List.nil_suffix
  · next c r _ _ _ _ _ _ =>
    split
    · split
      · next h => exact tag_suffix h
      · exact List.nil_suffix
    · exact List.suffix_rfl
  · exact List.nil_suffix

/-- A bogus comment can be written. -/
theorem writable_bogusComment (hs : '\r' ∉ s) : (bogusComment s).Writable := by
  rw [bogusComment, Token.Writable, String.toList_ofList]
  exact isCommentData_bogus hs

/-- Each token of a piece of markup can be written. -/
theorem writable_markup (hs : '\r' ∉ s) : ∀ k ∈ (markup s).1, k.Writable := by
  unfold markup
  split
  · next r =>
    refine List.forall_mem_singleton.2 ?_
    rw [Token.Writable, String.toList_ofList]
    exact isCommentData_commentStart fun hm => hs (by simp [hm])
  · next r _ =>
    split
    · exact List.forall_mem_singleton.2 trivial
    · exact List.forall_mem_singleton.2 (writable_bogusComment fun hm => hs (by simp [hm]))
  · exact List.forall_mem_singleton.2 (writable_bogusComment hs)
  · nofun
  · next c r _ =>
    split
    · split
      · exact List.forall_mem_singleton.2 trivial
      · nofun
    · exact List.forall_mem_singleton.2
        (writable_bogusComment fun hm => hs (List.mem_cons_of_mem _ hm))
  · exact List.forall_mem_singleton.2 trivial
  · next c r _ _ _ _ _ _ =>
    split
    · next hc =>
      split
      · next h => exact List.forall_mem_singleton.2 (writable_tag h hc hs)
      · nofun
    · exact List.forall_mem_singleton.2 trivial
  · exact List.forall_mem_singleton.2 trivial

/-- **What is read can be written.** -/
theorem writable_of_mem_tokensOf (hs : '\r' ∉ s) : ∀ k ∈ tokensOf s, k.Writable := by
  fun_induction tokensOf s with
  | case1 => nofun
  | case2 r ih =>
    have hr : '\r' ∉ r := fun hm => hs (List.mem_cons_of_mem _ hm)
    exact List.forall_mem_append.2
      ⟨writable_markup hr, ih fun hm => hr ((markup_suffix r).subset hm)⟩
  | case3 c r _ ih =>
    refine List.forall_mem_cons.2 ⟨trivial, ih fun hm => hs ?_⟩
    exact List.mem_cons_of_mem _ ((List.dropWhile_suffix _).subset hm)

/-- Each token of a text can be written. -/
theorem writable_of_mem_tokens (text : String) : ∀ k ∈ tokens text, k.Writable :=
  writable_of_mem_tokensOf (notMem_normalizeNewlines _)

end Html
end PageBinding
