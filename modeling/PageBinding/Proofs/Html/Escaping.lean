/-
# What is escaped reads back

A text that is written with references is decoded to itself (`decode_escape`), and
nothing in it is a `<` or a quotation mark.  Line ends and NUL are left to what the
text is read by: turning them before or after escaping is the same
(`normalizeNewlines_escape`, `map_withoutNul_escape`).

Line ends of two texts that follow each other are turned one after the other, unless
a carriage return ends the first text and a line feed begins the second
(`normalizeNewlines_append`).
-/

import PageBinding.Html.Printer
import PageBinding.Html.Tokenizer
import PageBinding.Proofs.Html.Naming
import Mathlib.Tactic.SplitIfs

namespace PageBinding
namespace Html

variable {c : Char} {s t : List Char} {inAttribute : Bool}

/-! ## References -/

/-- A character other than an ampersand is decoded as itself. -/
theorem decode_cons_of_ne (h : c ≠ '&') (t : List Char) :
    decode inAttribute (c :: t) = c :: decode inAttribute t := by
  rw [decode]
  exact h

/-- The name of an older character is read with its semicolon, also in an attribute value. -/
theorem decode_name {name : String} {numbers : List Nat}
    (h : looseNames.lookup name = some numbers) (hname : name.toList.head? ≠ some '#')
    (t : List Char) : decode inAttribute ('&' :: (name.toList ++ ';' :: t)) =
      numbers.map Char.ofNat ++ decode inAttribute t := by
  have hlast : (name.toList ++ [';']).getLast? = some ';' := List.getLast?_concat ..
  have hhead : (name.toList ++ ';' :: t).head? ≠ some '#' := by
    cases hn : name.toList with
    | nil => nofun
    | cons c r => rwa [hn] at hname
  have href : reference? inAttribute (name.toList ++ ';' :: t) =
      some (numbers.map Char.ofNat, (name.toList ++ [';']).length) := by
    rw [reference?]
    · rw [name?_of_lookup h]
      dsimp only
      rw [hlast, bne_self_eq_false, Bool.and_false, Bool.false_and, if_neg Bool.false_ne_true]
    all_goals
      intro r hr
      exact hhead (by rw [hr]; rfl)
  have hdrop : (name.toList ++ ';' :: t).drop (name.toList ++ [';']).length = t := by
    rw [show name.toList ++ ';' :: t = name.toList ++ [';'] ++ t by simp, List.drop_left]
  rw [decode, href]
  dsimp only
  rw [hdrop]

/-- A character that is written with a reference is read back. -/
theorem decode_escapeChar (c : Char) (t : List Char) :
    decode inAttribute (escapeChar c ++ t) = c :: decode inAttribute t := by
  rw [escapeChar]
  split_ifs with hamp hlt hgt hquot hapos
  · subst hamp
    exact decode_name (show looseNames.lookup "amp" = some [0x26] by decide +kernel) (by decide) t
  · subst hlt
    exact decode_name (show looseNames.lookup "lt" = some [0x3C] by decide +kernel) (by decide) t
  · subst hgt
    exact decode_name (show looseNames.lookup "gt" = some [0x3E] by decide +kernel) (by decide) t
  · subst hquot
    exact decode_name (show looseNames.lookup "quot" = some [0x22] by decide +kernel) (by decide) t
  · subst hapos
    have href : reference? inAttribute ('#' :: '3' :: '9' :: ';' :: t) = some (['\''], 4) := by
      have hdigits : ('3' :: '9' :: ';' :: t).takeWhile Char.isDigit = ['3', '9'] := rfl
      have hnumber : numbered (ofDigits 10 ['3', '9']) = '\'' := by decide
      rw [reference?, number?, hdigits, hnumber]
      · rfl
      · intro r h
        cases h
      · intro r h
        cases h
    rw [List.cons_append, decode, show ['#', '3', '9', ';'] ++ t = '#' :: '3' :: '9' :: ';' :: t from rfl,
      href]
    rfl
  · exact decode_cons_of_ne hamp t

/-- **What is escaped is decoded to itself.** -/
theorem decode_escape (s : List Char) : decode inAttribute (escape s) = s := by
  induction s with
  | nil => rw [escape, List.flatMap_nil, decode]
  | cons c s ih =>
    rw [escape, List.flatMap_cons, decode_escapeChar]
    exact congrArg (c :: ·) ih

/-- Nothing that is escaped ends a text or an attribute value. -/
theorem notMem_escapeChar (c : Char) : '<' ∉ escapeChar c ∧ '\"' ∉ escapeChar c := by
  rw [escapeChar]
  split_ifs with hamp hlt hgt hquot hapos
  · decide
  · decide
  · decide
  · decide
  · decide
  · rw [List.mem_singleton, List.mem_singleton]
    exact ⟨Ne.symm hlt, Ne.symm hquot⟩

/-- What is escaped has neither a `<` nor a quotation mark. -/
theorem ne_of_mem_escape (h : c ∈ escape s) : c ≠ '<' ∧ c ≠ '\"' := by
  obtain ⟨d, -, hc⟩ := List.mem_flatMap.1 h
  constructor
  · rintro rfl
    exact (notMem_escapeChar d).1 hc
  · rintro rfl
    exact (notMem_escapeChar d).2 hc

/-! ## NUL -/

/-- Replacing NUL and escaping a character can be done in either order. -/
theorem map_withoutNul_escapeChar (c : Char) :
    (escapeChar c).map withoutNul = escapeChar (withoutNul c) := by
  by_cases hc : c = '\x00'
  · subst hc
    rfl
  · have hw : withoutNul c = c := if_neg hc
    rw [hw, escapeChar]
    split_ifs
    · rfl
    · rfl
    · rfl
    · rfl
    · rfl
    · rw [List.map_singleton, hw]

/-- Replacing NUL and escaping a text can be done in either order. -/
theorem map_withoutNul_escape (s : List Char) :
    (escape s).map withoutNul = escape (s.map withoutNul) := by
  rw [escape, escape, List.map_flatMap, List.flatMap_map]
  simp only [map_withoutNul_escapeChar]

/-! ## Line ends -/

/-- A character other than a carriage return is kept. -/
theorem normalizeNewlines_cons_of_ne (h : c ≠ '\r') (t : List Char) :
    normalizeNewlines (c :: t) = c :: normalizeNewlines t := by
  rw [normalizeNewlines]
  · exact fun _ hc => absurd hc h
  · exact fun hc => absurd hc h

/-- A carriage return without a line feed behind it becomes one. -/
theorem normalizeNewlines_return (h : t.head? ≠ some '\n') :
    normalizeNewlines ('\r' :: t) = '\n' :: normalizeNewlines t := by
  rw [normalizeNewlines]
  rintro r rfl
  exact h rfl

/-- Where there is no carriage return, line ends stay. -/
theorem normalizeNewlines_append_of_notMem (h : '\r' ∉ s) (t : List Char) :
    normalizeNewlines (s ++ t) = s ++ normalizeNewlines t := by
  induction s with
  | nil => rfl
  | cons c s ih =>
    rw [List.mem_cons, not_or] at h
    rw [List.cons_append, normalizeNewlines_cons_of_ne (Ne.symm h.1), ih h.2, List.cons_append]

/-- No carriage return is left. -/
theorem notMem_normalizeNewlines (s : List Char) : '\r' ∉ normalizeNewlines s := by
  fun_induction normalizeNewlines s with
  | case1 => exact List.not_mem_nil
  | case2 r ih => simpa using ih
  | case3 r _ ih => simpa using ih
  | case4 c r _ hc ih =>
    rw [List.mem_cons, not_or]
    exact ⟨fun he => hc he.symm, ih⟩

/-- A text that is not empty does not become empty. -/
theorem normalizeNewlines_ne_nil (h : s ≠ []) : normalizeNewlines s ≠ [] := by
  fun_induction normalizeNewlines s with
  | case1 => exact absurd rfl h
  | _ => exact List.cons_ne_nil _ _

/-- **Line ends are turned one text after the other,** if no line end is cut. -/
theorem normalizeNewlines_append (h : t.head? ≠ some '\n') :
    normalizeNewlines (s ++ t) = normalizeNewlines s ++ normalizeNewlines t := by
  fun_induction normalizeNewlines s with
  | case1 => rfl
  | case2 r ih => rw [List.cons_append, List.cons_append, normalizeNewlines, ih, List.cons_append]
  | case3 r hr ih =>
    rw [List.cons_append, normalizeNewlines_return, ih, List.cons_append]
    cases r with
    | nil => exact h
    | cons d r =>
      rintro he
      obtain rfl : d = '\n' := Option.some.inj he
      exact hr r rfl
  | case4 c r _ hc ih =>
    rw [List.cons_append, normalizeNewlines_cons_of_ne (fun he => hc he), ih, List.cons_append]

/-- Only a carriage return is escaped with one. -/
theorem notMem_escapeChar_return (h : c ≠ '\r') : '\r' ∉ escapeChar c := by
  rw [escapeChar]
  split_ifs
  · decide
  · decide
  · decide
  · decide
  · decide
  · exact fun hm => h (List.mem_singleton.1 hm).symm

/-- An escaped text begins with a line feed only if the text does. -/
theorem head?_escape_ne (h : s.head? ≠ some '\n') : (escape s).head? ≠ some '\n' := by
  cases s with
  | nil => exact h
  | cons c s =>
    have hc : c ≠ '\n' := fun he => h (congrArg some he)
    rw [escape, List.flatMap_cons, escapeChar]
    split_ifs
    · nofun
    · nofun
    · nofun
    · nofun
    · nofun
    · exact fun he => hc (Option.some.inj he)

/-- Turning line ends and escaping commute. -/
theorem normalizeNewlines_escape (s : List Char) :
    normalizeNewlines (escape s) = escape (normalizeNewlines s) := by
  fun_induction normalizeNewlines s with
  | case1 => rfl
  | case2 r ih =>
    show normalizeNewlines ('\r' :: '\n' :: escape r) = '\n' :: escape (normalizeNewlines r)
    rw [normalizeNewlines, ih]
  | case3 r hr ih =>
    show normalizeNewlines ('\r' :: escape r) = '\n' :: escape (normalizeNewlines r)
    rw [normalizeNewlines_return (head?_escape_ne ?_), ih]
    cases r with
    | nil => nofun
    | cons d r =>
      intro he
      obtain rfl : d = '\n' := Option.some.inj he
      exact hr r rfl
  | case4 c r _ hc ih =>
    rw [escape, List.flatMap_cons, ← escape,
      normalizeNewlines_append_of_notMem (notMem_escapeChar_return fun he => hc he), ih]
    rfl

end Html
end PageBinding
