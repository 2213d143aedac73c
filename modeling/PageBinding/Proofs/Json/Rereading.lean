/-
# Reading data back

The text that files keep of a value is read as the canonical form of the value
(`parse_render`).
-/

import PageBinding.Proofs.Json.Canonical
import PageBinding.Proofs.Json.Literal

namespace PageBinding
namespace Json
namespace Reader

variable {s rest : List Char}

/-! ## Texts -/

/-- The escape of a control character is read as that character. -/
theorem unicodeEscape_control {n : Nat} (hn : n < 32) (r : List Char) :
    unicodeEscape ('0' :: '0' :: hexDigit (n / 16) :: hexDigit (n % 16) :: r) =
      .ok (Char.ofNat n, 4) := by
  have hhex : ∀ n < 32, fourHex? '0' '0' (hexDigit (n / 16)) (hexDigit (n % 16)) = some n := by decide
  have hunit : codeUnit ('0' :: '0' :: hexDigit (n / 16) :: hexDigit (n % 16) :: r) = .ok n := by
    rw [codeUnit, hhex n hn]
  have htrailing : isTrailing n = false := by simp [isTrailing]; omega
  have hleading : isLeading n = false := by simp [isLeading]; omega
  rw [unicodeEscape, hunit]
  simp only [bind, Except.bind, htrailing, hleading]
  rfl

/-- What is read after a character goes behind it. -/
theorem characters_control {n : Nat} (hn : n < 32) (r : List Char) :
    characters ('\\' :: 'u' :: '0' :: '0' :: hexDigit (n / 16) :: hexDigit (n % 16) :: r) =
      (characters r).map fun (cs, rest) => (Char.ofNat n :: cs, rest) := by
  rw [characters, unicodeEscape_control hn]
  simp only [List.drop_succ_cons, List.drop_zero]
  cases characters r <;> rfl

/-- A letter behind a backslash is read as what it stands for. -/
theorem characters_letter {c e : Char} (he : e ≠ 'u') (hc : letterEscape? e = some c)
    (r : List Char) :
    characters ('\\' :: e :: r) = (characters r).map fun (cs, rest) => (c :: cs, rest) := by
  rw [characters, hc]
  · cases characters r <;> rfl
  · exact he

/-- A character that needs no escape is read as itself. -/
theorem characters_plain {c : Char} (hquote : c ≠ '\"') (hslash : c ≠ '\\') (hc : ¬ c.toNat < 32)
    (r : List Char) :
    characters (c :: r) = (characters r).map fun (cs, rest) => (c :: cs, rest) := by
  rw [characters, if_neg hc]
  · cases characters r <;> rfl
  · exact hquote
  · exact fun h _ => hslash h
  · exact fun _ h _ => hslash h
  · exact fun _ _ h _ => hslash h

/-- **A character is read as it was written.** -/
theorem characters_escapeChar (c : Char) (r : List Char) :
    characters (escapeChar c ++ r) = (characters r).map fun (cs, rest) => (c :: cs, rest) := by
  rw [escapeChar]
  split_ifs with hquote hslash hfeed hreturn htab hback hform hcontrol
  · subst hquote
    exact characters_letter (by decide) rfl r
  · subst hslash
    exact characters_letter (by decide) rfl r
  · subst hfeed
    exact characters_letter (by decide) rfl r
  · subst hreturn
    exact characters_letter (by decide) rfl r
  · subst htab
    exact characters_letter (by decide) rfl r
  · subst hback
    exact characters_letter (by decide) rfl r
  · subst hform
    exact characters_letter (by decide) rfl r
  · have hchar := characters_control hcontrol r
    rwa [Char.ofNat_toNat] at hchar
  · exact characters_plain hquote hslash hcontrol r

/-- Escaped characters are read as themselves, up to the quotation mark. -/
theorem characters_flatMap (s rest : List Char) :
    characters (s.flatMap escapeChar ++ '\"' :: rest) = .ok (s, rest) := by
  induction s with
  | nil => rw [List.flatMap_nil, List.nil_append, characters]
  | cons c s ih => rw [List.flatMap_cons, List.append_assoc, characters_escapeChar, ih]; rfl

/-! ## Sequences -/

/-- A closing bracket is no part of an item and not what comes between items. -/
def Brackets.Plain (b : Brackets) : Prop := isSpace b.close = false ∧ b.close ≠ ',' ∧ Ended [b.close]

/-- The brackets of a list are no part of its items. -/
theorem plain_listBrackets : listBrackets.Plain :=
  ⟨by decide, by decide, by simp [Ended, listBrackets]⟩

/-- The brackets of an object are no part of its members. -/
theorem plain_objectBrackets : objectBrackets.Plain :=
  ⟨by decide, by decide, by simp [Ended, objectBrackets]⟩

variable {α : Type} {b : Brackets} {item : Reader α} {write : α → List Char} {vs : List α}
  {fuel : Nat}

/-- An item begins with no space and not as a sequence ends. -/
def Begins (b : Brackets) (write : α → List Char) (v : α) : Prop :=
  ∃ c r, write v = c :: r ∧ isSpace c = false ∧ c ≠ b.close

/-- An item is read as it was written, whatever follows it that does not continue a number. -/
structure ReadsBack (b : Brackets) (item : Reader α) (write : α → List Char) (v : α) : Prop where
  reads : ∀ rest, Ended rest → item (write v ++ rest) = .ok (v, rest)
  begins : Begins b write v

/-- What begins with no space is not skipped. -/
theorem skipSpace_cons {c : Char} (h : isSpace c = false) (r : List Char) :
    skipSpace (c :: r) = c :: r :=
  List.dropWhile_cons_of_neg (by simp [h])

/-- A sequence begins as its first item does. -/
theorem intercalate_begins (h : ∀ v ∈ vs, Begins b write v) (hne : vs ≠ []) :
    ∃ c r, [','].intercalate (vs.map write) = c :: r ∧ isSpace c = false ∧ c ≠ b.close := by
  cases vs with
  | nil => exact absurd rfl hne
  | cons v r =>
    obtain ⟨c, t, ht, hc⟩ := h v (List.mem_cons_self ..)
    rw [List.map_cons]
    cases r with
    | nil => exact ⟨c, t, by rw [List.map_nil, List.intercalate_singleton, ht], hc⟩
    | cons w r => exact ⟨c, _, by rw [List.map_cons, List.intercalate_cons_cons, ht]; rfl, hc⟩

/-- Behind the last item the sequence is closed. -/
theorem items_last (hb : b.Plain) {v : α} (hi : item s = .ok (v, b.close :: rest)) :
    items b item (fuel + 1) s = .ok ([v], rest) := by
  rw [items, hi]
  simp only [skipSpace_cons hb.1, if_true]

/-- Behind an item and a comma the others follow. -/
theorem items_next (hb : b.Plain) {v : α} {c : Char} {t : List Char} (hc : isSpace c = false)
    (hclose : c ≠ b.close) (hi : item s = .ok (v, ',' :: c :: t)) :
    items b item (fuel + 1) s = (items b item fuel (c :: t)).map fun (vs, rest) => (v :: vs, rest) := by
  rw [items, hi]
  simp only [skipSpace_cons (show isSpace ',' = false from rfl), skipSpace_cons hc,
    if_neg hb.2.1.symm, if_neg hclose, if_true]
  cases items b item fuel (c :: t) <;> rfl

/-- The text of a sequence of more than one item. -/
theorem intercalate_next (v w : α) (r : List α) (rest : List Char) :
    [','].intercalate ((v :: w :: r).map write) ++ rest =
      write v ++ ',' :: ([','].intercalate ((w :: r).map write) ++ rest) := by
  simp [List.intercalate_cons_cons]

/-- Items with commas between them are read as they were written. -/
theorem items_intercalate (hb : b.Plain) (h : ∀ v ∈ vs, ReadsBack b item write v) (hne : vs ≠ [])
    (hfuel : vs.length ≤ fuel) (rest : List Char) :
    items b item fuel ([','].intercalate (vs.map write) ++ b.close :: rest) = .ok (vs, rest) := by
  induction vs generalizing fuel with
  | nil => exact absurd rfl hne
  | cons v r ih =>
    obtain ⟨fuel, rfl⟩ : ∃ k, fuel = k + 1 := ⟨fuel - 1, by simp at hfuel; omega⟩
    obtain ⟨hv, hr⟩ := List.forall_mem_cons.1 h
    cases r with
    | nil =>
      rw [List.map_cons, List.map_nil, List.intercalate_singleton]
      exact items_last hb (hv.reads _ hb.2.2)
    | cons w r =>
      obtain ⟨c, t, ht, hc, hclose⟩ :=
        intercalate_begins (fun v hv => (hr v hv).begins) (List.cons_ne_nil w r)
      have hread := ih hr (List.cons_ne_nil w r) (Nat.le_of_succ_le_succ hfuel)
      have hended : ∀ t, Ended (',' :: t) := fun t => by simp [Ended]
      rw [intercalate_next]
      rw [ht, List.cons_append] at hread ⊢
      rw [items_next hb hc hclose (hv.reads _ (hended _)), hread]
      rfl

/-- A text between separators is no longer than all of it. -/
theorem length_le_intercalate (sep : List Char) {x : List Char} {xs : List (List Char)} (h : x ∈ xs) :
    x.length ≤ (sep.intercalate xs).length := by
  induction xs with
  | nil => cases h
  | cons y r ih =>
    cases r with
    | nil => rw [List.mem_singleton.1 h, List.intercalate_singleton]
    | cons z r =>
      rw [List.intercalate_cons_cons, List.length_append, List.length_append]
      rcases List.mem_cons.1 h with rfl | h
      · omega
      · have := ih h
        omega

/-- Parts that are not empty are no more than the characters of the joined text. -/
theorem length_le_length_intercalate {sep : List Char} {xs : List (List Char)}
    (h : ∀ x ∈ xs, x ≠ []) :
    xs.length ≤ (sep.intercalate xs).length := by
  induction xs with
  | nil => exact Nat.le_refl 0
  | cons y r ih =>
    obtain ⟨hy, hr⟩ := List.forall_mem_cons.1 h
    have hpos := List.length_pos_of_ne_nil hy
    have hlen := ih hr
    cases r with
    | nil => rw [List.intercalate_singleton, List.length_singleton]; omega
    | cons z r =>
      rw [List.intercalate_cons_cons, List.length_append, List.length_append, List.length_cons]
      omega

/-- **A sequence is read as it was written.** -/
theorem sequence_intercalate (hb : b.Plain) (h : ∀ v ∈ vs, ReadsBack b item write v)
    (hfuel : ([','].intercalate (vs.map write)).length ≤ fuel) (rest : List Char) :
    sequence b fuel item ([','].intercalate (vs.map write) ++ b.close :: rest) = .ok (vs, rest) := by
  rcases eq_or_ne vs [] with rfl | hne
  · rw [sequence, List.map_nil, List.intercalate_nil, List.nil_append, skipSpace_cons hb.1]
    exact if_pos rfl
  · obtain ⟨c, t, ht, hc, hclose⟩ := intercalate_begins (fun v hv => (h v hv).begins) hne
    have hcount : (vs.map write).length ≤ ([','].intercalate (vs.map write)).length := by
      refine length_le_length_intercalate fun x hx => ?_
      obtain ⟨v, hv, rfl⟩ := List.mem_map.1 hx
      obtain ⟨c, r, hr, -⟩ := (h v hv).begins
      exact hr ▸ List.cons_ne_nil c r
    rw [List.length_map] at hcount
    have hread := items_intercalate hb h hne (hcount.trans hfuel) rest
    rw [ht, List.cons_append] at hread
    rw [sequence, ht, List.cons_append, skipSpace_cons hc]
    exact (if_neg hclose).trans hread

/-- A member is read as the value behind its name. -/
theorem member_eq (value : Reader α) (name : String) (s : List Char) :
    member value (quote name.toList ++ ':' :: s) =
      (value s).map fun (v, rest) => ((name, v), rest) := by
  have hquote : quote name.toList ++ ':' :: s =
      '\"' :: (name.toList.flatMap escapeChar ++ '\"' :: ':' :: s) := by simp [quote]
  have hcolon : skipSpace (':' :: s) = ':' :: s := skipSpace_cons rfl _
  rw [hquote, member, characters_flatMap]
  simp only [hcolon, String.ofList_toList]
  cases value s <;> rfl

end Reader

namespace Value

open Reader (Ended CorrectlyRounded ReadsBack)

variable {v : Value} {fuel k : Nat}

/-! ## Values -/

/-- An array is written as its items, with commas between them, in brackets. -/
theorem write_array (items : List Value) :
    (Value.array items).write = '[' :: ([','].intercalate (items.map write) ++ [']']) := by
  have hitems : ∀ items : List Value, writeItems items = [','].intercalate (items.map write) := by
    intro items
    induction items with
    | nil => rfl
    | cons v r ih =>
      cases r with
      | nil => rw [writeItems, List.map_cons, List.map_nil, List.intercalate_singleton]
      | cons w r =>
        rw [writeItems, ih]
        · simp [List.intercalate_cons_cons]
        · exact List.cons_ne_nil w r
  rw [write, hitems]

/-- A member of an object. -/
def writeMember (e : String × Value) : List Char := quote e.1.toList ++ ':' :: e.2.write

/-- An object is written as its members, with commas between them, in braces. -/
theorem write_object (members : List (String × Value)) :
    (Value.object members).write =
      '\x7b' :: ([','].intercalate (members.map writeMember) ++ ['\x7d']) := by
  have hmembers : ∀ members : List (String × Value),
      writeMembers members = [','].intercalate (members.map writeMember) := by
    intro members
    induction members with
    | nil => rfl
    | cons e r ih =>
      obtain ⟨name, v⟩ := e
      cases r with
      | nil => rw [writeMembers, List.map_cons, List.map_nil, List.intercalate_singleton, writeMember]
      | cons f r =>
        rw [writeMembers, ih]
        · simp [writeMember, List.intercalate_cons_cons]
        · exact List.cons_ne_nil f r
  rw [write, hmembers]

/-- The numbers in a value are read as they are written, and its objects are sorted. -/
structure Legible (v : Value) : Prop where
  numbers : ∀ n, Inside v (.number n) → n.isFinite = true ∧ CorrectlyRounded n
  objects : ∀ members, Inside v (.object members) → Named.Increasing members

/-- A part of a legible value is legible. -/
theorem Legible.of_inside {w : Value} (h : v.Legible) (hw : Inside v w) : w.Legible :=
  ⟨fun n hn => h.numbers n (hw.trans hn), fun members hm => h.objects members (hw.trans hm)⟩

/-- A legible value has finite numbers only. -/
theorem Legible.finite (h : v.Legible) : v.Finite := fun n hn => (h.numbers n hn).1

/-- A value begins with no space and no bracket that closes. -/
theorem write_begins (h : v.Finite) :
    ∃ c r, v.write = c :: r ∧ Reader.isSpace c = false ∧ c ≠ ']' := by
  cases v with
  | null => exact ⟨'n', _, rfl, rfl, by decide⟩
  | bool b => cases b <;> exact ⟨_, _, rfl, rfl, by decide⟩
  | string s => exact ⟨'\"', _, rfl, rfl, by decide⟩
  | array items => exact ⟨'[', _, by rw [write], rfl, by decide⟩
  | object members => exact ⟨'\x7b', _, by rw [write], rfl, by decide⟩
  | number n =>
    have hended : Ended [] := by simp [Ended]
    obtain ⟨c, r, hr, hc, -⟩ := Reader.number_ofBinary64 (h n (.self _)) hended
    rw [write, hr]
    cases n.negative with
    | true => exact ⟨'-', _, rfl, rfl, by decide⟩
    | false => exact ⟨c, _, rfl, Reader.isSpace_digit hc, by rintro rfl; exact absurd hc (by decide)⟩

/-- A quoted string is read as that string. -/
theorem valueWith_string (fuel : Nat) (inside : Option (Reader Value)) (s : String)
    (rest : List Char) :
    Reader.valueWith fuel inside (quote s.toList ++ rest) = .ok (.string s, rest) := by
  have hquote : quote s.toList ++ rest = '\"' :: (s.toList.flatMap escapeChar ++ '\"' :: rest) := by
    simp [quote]
  rw [hquote]
  change (Reader.characters _).map _ = _
  rw [Reader.characters_flatMap]
  change Except.ok (Value.string (String.ofList s.toList), rest) = _
  rw [String.ofList_toList]

/-- A sequence in brackets is read as an array. -/
theorem valueWith_array {inside : Reader Value} {s rest : List Char} {items : List Value}
    (h : Reader.sequence Reader.listBrackets fuel inside s = .ok (items, rest)) :
    Reader.valueWith fuel (some inside) ('[' :: s) = .ok (.array items, rest) := by
  change (Reader.sequence _ _ _ s).map _ = _
  rw [h]
  rfl

/-- A sequence of members in braces is read as an object, sorted by name. -/
theorem valueWith_object {inside : Reader Value} {s rest : List Char}
    {members : List (String × Value)}
    (h : Reader.sequence Reader.objectBrackets fuel (Reader.member inside) s = .ok (members, rest)) :
    Reader.valueWith fuel (some inside) ('\x7b' :: s) =
      .ok (.object (Named.sorted members), rest) := by
  change (Reader.sequence _ _ _ s).map _ = _
  rw [h]
  rfl

/-- Only lists and objects are read by means of what reads the values inside. -/
theorem value_eq (fuel k : Nat) : ∃ inside, Reader.value fuel k = Reader.valueWith fuel inside := by
  cases k <;> exact ⟨_, rfl⟩

/-- **A legible value is read as it was written.** -/
theorem value_write (h : v.Legible) (hdepth : v.depth ≤ k) (hfuel : v.write.length ≤ fuel)
    {rest : List Char} (hrest : Ended rest) :
    Reader.value fuel k (v.write ++ rest) = .ok (v, rest) := by
  obtain ⟨inside, hinside⟩ := value_eq fuel k
  induction v using induction_up generalizing k rest inside with
  | null => rw [hinside]; rfl
  | bool b => rw [hinside]; cases b <;> rfl
  | number n =>
    obtain ⟨hfinite, hround⟩ := h.numbers n (.self _)
    rw [hinside, write]
    exact Reader.valueWith_number fuel inside hfinite hround hrest
  | string s =>
    rw [hinside, write]
    exact valueWith_string fuel inside s rest
  | array items ih =>
    obtain ⟨k, rfl⟩ : ∃ m, k = m + 1 := ⟨k - 1, by rw [depth] at hdepth; omega⟩
    rw [write_array] at hfuel ⊢
    rw [List.length_cons, List.length_append] at hfuel
    have hitems : ∀ v ∈ items, ReadsBack Reader.listBrackets (Reader.value fuel k) write v := by
      intro v hv
      have hlegible := h.of_inside (.item hv (.self v))
      have hlen := Reader.length_le_intercalate [','] (List.mem_map_of_mem (f := write) hv)
      obtain ⟨inside, hinside⟩ := value_eq fuel k
      refine ⟨fun rest hrest => ?_, write_begins hlegible.finite⟩
      exact ih v hv hlegible (depthItems_le.1 (Nat.le_of_succ_le_succ hdepth) v hv) (by omega) hrest
        inside hinside
    rw [List.cons_append, List.append_assoc, List.singleton_append]
    exact valueWith_array
      (Reader.sequence_intercalate Reader.plain_listBrackets hitems (by omega) rest)
  | object members ih =>
    obtain ⟨k, rfl⟩ : ∃ m, k = m + 1 := ⟨k - 1, by rw [depth] at hdepth; omega⟩
    rw [write_object] at hfuel ⊢
    rw [List.length_cons, List.length_append] at hfuel
    have hmembers : ∀ e ∈ members,
        ReadsBack Reader.objectBrackets (Reader.member (Reader.value fuel k)) writeMember e := by
      intro e he
      have hlegible := h.of_inside (.member he (.self e.2))
      have hlen := Reader.length_le_intercalate [','] (List.mem_map_of_mem (f := writeMember) he)
      rw [writeMember, List.length_append, List.length_cons] at hlen
      obtain ⟨inside, hinside⟩ := value_eq fuel k
      refine ⟨fun rest hrest => ?_, '\"', _, rfl, rfl, by decide⟩
      rw [writeMember, List.append_assoc, List.cons_append, Reader.member_eq,
        ih e he hlegible (depthMembers_le.1 (Nat.le_of_succ_le_succ hdepth) e he) (by omega)
          hrest inside hinside]
      rfl
    have hsorted := Named.sorted_of_increasing (h.objects members (.self _))
    rw [List.cons_append, List.append_assoc, List.singleton_append]
    exact (valueWith_object (Reader.sequence_intercalate Reader.plain_objectBrackets hmembers
      (by omega) rest)).trans (by rw [hsorted])

/-- A canonical form is legible if the numbers in it are rounded correctly. -/
theorem legible_canonical (h : ∀ n, Inside v.canonical (.number n) → CorrectlyRounded n) :
    v.canonical.Legible where
  numbers n hn := ⟨(number_canonical hn).2, h n hn⟩
  objects _ hm := increasing_canonical hm

/-- **The text that files keep of a value is read as the canonical form of it,** if the numbers
in that are rounded correctly. -/
theorem parse_render_of_rounded (hdepth : v.depth ≤ maxDepth)
    (h : ∀ n, Inside v.canonical (.number n) → CorrectlyRounded n) :
    parse v.render = .ok v.canonical := by
  have hended : Ended [] := by simp [Ended]
  have hread := value_write (legible_canonical h) (v.depth_canonical.trans hdepth) (Nat.le_refl _)
    hended
  rw [List.append_nil] at hread
  rw [parse, render, String.toList_ofList]
  simp only [hread]
  rfl

/-- What is written for a value is read as its canonical form, if it is not too deep and its numbers
are rounded correctly. -/
theorem parse_render (hdepth : v.depth ≤ maxDepth)
    (h : ∀ n, Inside v (.number n) → n.isFinite = true → CorrectlyRounded n) :
    parse v.render = .ok v.canonical :=
  parse_render_of_rounded hdepth fun n hn => h n (number_canonical hn).1 (number_canonical hn).2

end Value
end Json
end PageBinding
