/-
# Data without braces

If no text in some data has a brace in it (`BraceFree`), then no placeholder is
replaced by a text with one (`unbraced_lookup`).  The values in a list or an object
are inside it (`Inside`), and so is what a path leads to; the text of a value for
people is made of the texts inside it and of characters that are no braces: those of
numbers (`mem_ofBinary64`), commas and some fixed words.
-/

import PageBinding.Proofs.Named
import PageBinding.Proofs.Template.Leftover
import PageBinding.Template.Rendering

namespace PageBinding

open Decimal (Layout Numeral Binary64)
open Template (Unbraced)

/-! ## The characters of numbers -/

namespace Decimal

/-- The characters that numbers are written with. -/
def IsNumeric (c : Char) : Prop := c.isDigit = true ∨ c ∈ ['-', '+', '.', 'e']

variable {l : Layout} {c : Char}

/-- The digits of a number are digits. -/
theorem isDigit_of_mem_digitsOf (n : Nat) : ∀ c ∈ Numeral.digitsOf n, c.isDigit = true := by
  fun_induction Numeral.digitsOf n with
  | case1 => exact fun c hc => absurd hc List.not_mem_nil
  | case2 n _ ih =>
    have key : ∀ d < 10, (Char.ofNat (48 + d)).isDigit = true := by decide
    exact List.forall_mem_append.2 ⟨ih, List.forall_mem_singleton.2 (key _ (Nat.mod_lt _ (by omega)))⟩

/-- Digits are among the characters that numbers are written with. -/
theorem mem_digitsOf (n : Nat) : ∀ c ∈ Numeral.digitsOf n, IsNumeric c :=
  fun c hc => .inl (isDigit_of_mem_digitsOf n c hc)

/-- A positional layout has only characters that numbers are written with. -/
theorem mem_positional {digits : List Char} (hd : ∀ c ∈ digits, IsNumeric c) (point : Bool)
    (e : Int) : ∀ c ∈ Layout.positional point digits e, IsNumeric c := by
  have hz : ∀ n, ∀ c ∈ List.replicate n '0', IsNumeric c := fun n c hc =>
    List.eq_of_mem_replicate hc ▸ .inl rfl
  have hp : IsNumeric '.' := .inr (by decide)
  rw [Layout.positional]
  split
  · exact List.forall_mem_cons.2 ⟨.inl rfl, List.forall_mem_cons.2 ⟨hp,
      List.forall_mem_append.2 ⟨hz _, hd⟩⟩⟩
  · dsimp only
    split
    · refine List.forall_mem_append.2 ⟨List.forall_mem_append.2 ⟨hd, hz _⟩, ?_⟩
      split
      · exact List.forall_mem_cons.2 ⟨hp, List.forall_mem_singleton.2 (.inl rfl)⟩
      · exact fun c hc => absurd hc List.not_mem_nil
    · exact List.forall_mem_append.2 ⟨fun c hc => hd c (List.mem_of_mem_take hc),
        List.forall_mem_cons.2 ⟨hp, fun c hc => hd c (List.mem_of_mem_drop hc)⟩⟩

/-- A mantissa has only characters that numbers are written with. -/
theorem mem_mantissa {digits : List Char} (hd : ∀ c ∈ digits, IsNumeric c) :
    ∀ c ∈ Layout.mantissa digits, IsNumeric c := by
  cases digits with
  | nil => exact hd
  | cons d ds =>
    cases ds with
    | nil => exact hd
    | cons e es =>
      obtain ⟨h, hds⟩ := List.forall_mem_cons.1 hd
      exact List.forall_mem_cons.2 ⟨h, List.forall_mem_cons.2 ⟨.inr (by decide), hds⟩⟩

/-- **A number is written with digits, signs, a point and an `e`.** -/
theorem mem_ofBinary64 (l : Layout) (x : Binary64) : ∀ c ∈ l.ofBinary64 x, IsNumeric c := by
  have hs : ∀ b : Bool, ∀ c ∈ if b then ['-'] else [], IsNumeric c := fun b c hc => by
    cases b with
    | false => cases hc
    | true =>
      obtain rfl := List.mem_singleton.1 hc
      exact .inr (by decide)
  rw [Layout.ofBinary64]
  split
  · refine List.forall_mem_append.2 ⟨hs _, List.forall_mem_cons.2 ⟨.inl rfl, fun c hc => ?_⟩⟩
    split at hc
    · rcases List.mem_cons.1 hc with rfl | hc
      · exact .inr (by decide)
      · exact .inl (List.mem_singleton.1 hc ▸ rfl)
    · cases hc
  · refine List.forall_mem_append.2 ⟨hs _, ?_⟩
    rw [Layout.ofNumeral]
    split
    · exact mem_positional (mem_digitsOf _) _ _
    · refine List.forall_mem_append.2 ⟨mem_mantissa (mem_digitsOf _),
        List.forall_mem_cons.2 ⟨.inr (by decide), List.forall_mem_cons.2 ⟨?_, mem_digitsOf _⟩⟩⟩
      split <;> exact .inr (by decide)

end Decimal

namespace Json
namespace Value

/-! ## Values inside a value -/

/-- A value is another one or somewhere in it. -/
inductive Inside : Value → Value → Prop
  | self (v : Value) : Inside v v
  | item {items : List Value} {v w : Value} : v ∈ items → Inside v w → Inside (.array items) w
  | member {members : List (String × Value)} {name : String} {v w : Value} :
      (name, v) ∈ members → Inside v w → Inside (.object members) w

variable {u v w : Value}

/-- What is inside a value inside another one is inside that. -/
theorem Inside.trans (h : Inside u v) (hw : Inside v w) : Inside u w := by
  induction h with
  | self => exact hw
  | item hv _ ih => exact .item hv (ih hw)
  | member hv _ ih => exact .member hv (ih hw)

/-- A step leads inside. -/
theorem inside_of_step? {name : List Char} (h : v.step? name = some w) : Inside v w := by
  cases v with
  | object members => exact .member (Named.mem_of_last? h) (.self w)
  | array items =>
    obtain ⟨i, -, hi⟩ := Option.bind_eq_some_iff.1 h
    exact .item (List.mem_of_getElem? hi) (.self w)
  | _ => cases h

/-- Names lead inside. -/
theorem inside_of_walk? {names : List (List Char)} (h : v.walk? names = some w) : Inside v w := by
  induction names generalizing v with
  | nil => exact Option.some.inj h ▸ .self v
  | cons name names ih =>
    obtain ⟨u, hu, h⟩ := Option.bind_eq_some_iff.1 h
    exact (inside_of_step? hu).trans (ih h)

/-- **What a path leads to is inside the data.** -/
theorem inside_of_resolve? {path : String} (h : v.resolve? path = some w) : Inside v w := by
  rw [resolve?] at h
  split at h
  · exact Option.some.inj h ▸ .self v
  · exact inside_of_walk? h

/-- No text inside a value has a brace in it. -/
def BraceFree (v : Value) : Prop := ∀ s, Inside v (.string s) → Unbraced s.toList

/-- What is inside a value without braces has none. -/
theorem BraceFree.of_inside (h : v.BraceFree) (hw : Inside v w) : w.BraceFree :=
  fun s hs => h s (hw.trans hs)

/-! ## Texts for people -/

/-- Characters that numbers are written with are no braces. -/
theorem unbraced_of_numeric {s : List Char} (h : ∀ c ∈ s, Decimal.IsNumeric c) : Unbraced s := by
  constructor <;> exact fun hc => by rcases h _ hc with h | h <;> exact absurd h (by decide)

/-- What is in a list with separators is in the list, or is the separator. -/
theorem mem_of_mem_intersperse {α : Type} {sep x : α} {xs : List α} (h : x ∈ xs.intersperse sep) :
    x ∈ xs ∨ x = sep := by
  fun_induction List.intersperse sep xs with
  | case1 => cases h
  | case2 y => exact .inl h
  | case3 y z zs ih =>
    rcases List.mem_cons.1 h with rfl | h
    · exact .inl (List.mem_cons_self ..)
    · rcases List.mem_cons.1 h with rfl | h
      · exact .inr rfl
      · exact (ih h).imp_left (List.mem_cons_of_mem _)

/-- Texts without braces have none with commas between them. -/
theorem unbraced_intercalate {texts : List (List Char)} (h : ∀ s ∈ texts, Unbraced s) :
    Unbraced ([','].intercalate texts) := by
  have key : ∀ c, c ≠ ',' → (∀ s ∈ texts, c ∉ s) → c ∉ [','].intercalate texts := by
    intro c hc h hm
    rw [List.intercalate, List.mem_flatten] at hm
    obtain ⟨s, hs, hcs⟩ := hm
    rcases mem_of_mem_intersperse hs with hs | rfl
    · exact h s hs hcs
    · exact hc (List.mem_singleton.1 hcs)
  exact ⟨key _ (by decide) fun s hs => (h s hs).1, key _ (by decide) fun s hs => (h s hs).2⟩

/-- A number is shown without braces. -/
theorem unbraced_displayNumber (n : Binary64) : Unbraced (displayNumber n).toList := by
  rw [displayNumber]
  split
  · rw [String.toList_ofList]
    exact unbraced_of_numeric (Decimal.mem_ofBinary64 _ n)
  · split
    · exact ⟨by decide, by decide⟩
    · split <;> exact ⟨by decide, by decide⟩

mutual

/-- **The text of data without braces has none.** -/
theorem unbraced_display : ∀ v : Value, v.BraceFree → Unbraced v.display.toList
  | .null, _ => ⟨List.not_mem_nil, List.not_mem_nil⟩
  | .bool true, _ => ⟨by decide, by decide⟩
  | .bool false, _ => ⟨by decide, by decide⟩
  | .number n, _ => by
    rw [display]
    exact unbraced_displayNumber n
  | .string s, h => by
    rw [display]
    exact h s (.self _)
  | .array items, h => by
    rw [display, String.toList_intercalate]
    refine unbraced_intercalate fun s hs => ?_
    obtain ⟨text, ht, rfl⟩ := List.mem_map.1 hs
    exact unbraced_displayItems items (fun v hv => h.of_inside (.item hv (.self v))) text ht
  | .object _, _ => by
    rw [display]
    exact ⟨by decide, by decide⟩

/-- Items without braces are shown without braces. -/
theorem unbraced_displayItems : ∀ items : List Value, (∀ v ∈ items, v.BraceFree) →
    ∀ s ∈ displayItems items, Unbraced s.toList
  | [], _, s, hs => absurd hs List.not_mem_nil
  | v :: r, h, s, hs => by
    rw [displayItems] at hs
    rcases List.mem_cons.1 hs with rfl | hs
    · exact unbraced_display v (h v (List.mem_cons_self ..))
    · exact unbraced_displayItems r (fun w hw => h w (List.mem_cons_of_mem _ hw)) s hs

end

end Value
end Json

namespace Template

/-- **A placeholder is replaced by a text without braces.** -/
theorem unbraced_lookup {context : Json.Value} (h : context.BraceFree) (path : List Char) :
    Unbraced (lookup context path) := by
  rw [lookup]
  cases hr : context.resolve? (String.ofList path) with
  | none => exact ⟨List.not_mem_nil, List.not_mem_nil⟩
  | some v => exact Json.Value.unbraced_display v (h.of_inside (Json.Value.inside_of_resolve? hr))

end Template
end PageBinding
