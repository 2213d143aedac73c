/-
# Escaping as an encoding

What is written of a text byte by byte is its spelling: five characters are replaced by their
references, whatever stands beside them (`writeEscaped_ok`).  The bytes of a special character
are one byte, and that is in no other character (`spell_bytes`).  So the mark is always between
two characters of the text, and no cut fails.

Each `&` of a spelling begins a reference, so putting the characters back from left to right
gives the text again (`unescape_flatMap_spell`).

What is written of a document is what it is printed as (`Document.write_ok`), so the bytes
always read as a text (`Document.renderBytes_ok`).
-/

import PageBinding.Html.Bytes
import PageBinding.Proofs.Text.Encoded
import PageBinding.Proofs.Tree.Views

namespace PageBinding
namespace Html

open Text (toByteArray_eq data_utf8Encode extract_middle fromUTF8?_toUTF8)

variable {b : UInt8} {c d : Char} {s : String} {u v r t : List Char} {e : Char × List Char}

/-- The special characters and their references. -/
def references : List (Char × List Char) :=
  [('&', "&amp;".toList), ('<', "&lt;".toList), ('>', "&gt;".toList), ('\"', "&quot;".toList),
    ('\'', "&#39;".toList)]

/-- A character as it is spelled: its reference if it has one, otherwise itself. -/
def spell (c : Char) : List Char := (references.lookup c).getD [c]

/-- The text spelled, character by character. -/
def spelling (s : String) : String := .ofList (s.toList.flatMap spell)

/-- The text with each reference replaced by its character, from left to right. -/
def unescape : List Char → List Char
  | [] => []
  | c :: r =>
    match references.find? fun e => e.2.isPrefixOf (c :: r) with
    | none => c :: unescape r
    | some e => e.1 :: unescape (r.drop (e.2.length - 1))
termination_by s => s.length
decreasing_by
  · simp
  · simp only [List.length_drop, List.length_cons]
    omega

/-! ## Characters -/

/-- A reference begins with `&` and has no other one. -/
theorem ampersand_of_mem (he : e ∈ references) : ∃ tail, e.2 = '&' :: tail ∧ '&' ∉ tail := by
  simp only [references, List.mem_cons, List.not_mem_nil, or_false] at he
  rcases he with rfl | rfl | rfl | rfl | rfl <;> exact ⟨_, rfl, by decide⟩

/-- A character is spelled as its reference, or has none and is spelled as itself. -/
theorem spell_cases (c : Char) : (∃ e ∈ references, e.1 = c ∧ spell c = e.2) ∨
    (∀ e ∈ references, e.1 ≠ c) ∧ spell c = [c] := by
  rw [spell]
  cases hc : references.lookup c with
  | none =>
    refine .inr ⟨fun e he => ?_, rfl⟩
    exact Ne.symm (bne_iff_ne.1 (List.lookup_eq_none_iff.1 hc e he))
  | some reference =>
    obtain ⟨before, after, hsplit, -⟩ := List.lookup_eq_some_iff.1 hc
    exact .inl ⟨(c, reference), by rw [hsplit]; simp, rfl, rfl⟩

/-- The printer spells as the table says. -/
theorem escapeChar_eq_spell (c : Char) : escapeChar c = spell c := by
  rw [escapeChar]
  split_ifs with hamp hlt hgt hquot hapos
  · subst hamp; rfl
  · subst hlt; rfl
  · subst hgt; rfl
  · subst hquot; rfl
  · subst hapos; rfl
  · simp [spell, references, List.lookup_cons, beq_eq_false_iff_ne.2, hamp, hlt, hgt, hquot, hapos]

/-- Escaping spells each character. -/
theorem escape_eq_flatMap_spell (t : List Char) : escape t = t.flatMap spell := by
  rw [escape, funext escapeChar_eq_spell]

/-- The spelling of two texts in a row is their two spellings in a row. -/
theorem spelling_append (s t : String) : spelling (s ++ t) = spelling s ++ spelling t := by
  rw [spelling, String.toList_append, List.flatMap_append, String.ofList_append]
  rfl

/-- What needs a reference is in no spelling, the `&` of the references apart. -/
theorem notMem_spell (h : d ∈ spell c) : d ∉ ['<', '>', '\"', '\''] := by
  rcases spell_cases c with ⟨e, he, -, hc⟩ | ⟨hne, hc⟩
  · have key : ∀ e ∈ references, e.2.all (· ∉ ['<', '>', '\"', '\'']) := by decide
    exact of_decide_eq_true (List.all_eq_true.1 (key e he) d (hc ▸ h))
  · obtain rfl := List.mem_singleton.1 (hc ▸ h)
    simp only [references, List.forall_mem_cons] at hne
    obtain ⟨-, hlt, hgt, hquot, hapos, -⟩ := hne
    simp [hlt.symm, hgt.symm, hquot.symm, hapos.symm]

/-- An `&` in the spelling of a character is the beginning of it, and of a reference. -/
theorem spell_ampersand (h : spell c = u ++ '&' :: v) :
    u = [] ∧ ∃ e ∈ references, e.2 = '&' :: v := by
  rcases spell_cases c with ⟨e, he, -, hc⟩ | ⟨hne, hc⟩
  · obtain ⟨tail, htail, hmem⟩ := ampersand_of_mem he
    rw [hc, htail] at h
    cases u with
    | nil => exact ⟨rfl, e, he, htail.trans h⟩
    | cons x u =>
      rw [List.cons_append, List.cons.injEq] at h
      exact absurd (h.2 ▸ List.mem_append_right _ (List.mem_cons_self ..)) hmem
  · rw [hc] at h
    cases u with
    | nil => exact absurd (List.cons.inj h).1.symm (hne _ (List.mem_cons_self ..))
    | cons x u => simp at h

/-- **Each `&` of a spelling begins a reference.** -/
theorem reference_of_ampersand (s : List Char) (before after : List Char)
    (h : s.flatMap spell = before ++ '&' :: after) :
    ∃ e ∈ references, e.2 <+: '&' :: after := by
  induction s generalizing before with
  | nil => simp at h
  | cons c s ih =>
    rw [List.flatMap_cons, List.append_eq_append_iff] at h
    rcases h with ⟨rest, -, hrest⟩ | ⟨rest, hc, hafter⟩
    · exact ih rest hrest
    · cases rest with
      | nil => exact ih [] hafter.symm
      | cons x rest =>
        rw [List.cons_append, List.cons.injEq] at hafter
        obtain ⟨rfl, hafter⟩ := hafter
        obtain ⟨-, e, he, hreference⟩ := spell_ampersand hc
        exact ⟨e, he, _, by rw [hreference, hafter, List.cons_append]⟩

/-! ## Putting the characters back -/

/-- Every reference begins with `&`, so nothing else begins one. -/
theorem find?_reference_of_ne (h : c ≠ '&') (t : List Char) :
    references.find? (fun e => e.2.isPrefixOf (c :: t)) = none := by
  simp [references, Ne.symm h]

/-- No reference begins another one. -/
theorem find?_reference (he : e ∈ references) (t : List Char) :
    references.find? (fun d => d.2.isPrefixOf (e.2 ++ t)) = some e := by
  simp only [references, List.mem_cons, List.not_mem_nil, or_false] at he
  rcases he with rfl | rfl | rfl | rfl | rfl <;> rfl

/-- A reference is read as its character, whatever follows it. -/
theorem unescape_reference (he : e ∈ references) (t : List Char) :
    unescape (e.2 ++ t) = e.1 :: unescape t := by
  have hfind := find?_reference he t
  obtain ⟨tail, htail, -⟩ := ampersand_of_mem he
  rw [htail, List.cons_append] at hfind ⊢
  rw [unescape, hfind]
  dsimp only
  rw [htail, List.length_cons, Nat.add_sub_cancel, List.drop_left]

/-- A character that begins no reference is read as it stands. -/
theorem unescape_cons_of_ne (h : c ≠ '&') (t : List Char) : unescape (c :: t) = c :: unescape t := by
  rw [unescape, find?_reference_of_ne h]

/-- **Putting the characters back gives the text again.** -/
theorem unescape_flatMap_spell (t : List Char) : unescape (t.flatMap spell) = t := by
  induction t with
  | nil => rw [List.flatMap_nil, unescape]
  | cons c t ih =>
    rw [List.flatMap_cons]
    rcases spell_cases c with ⟨e, he, rfl, hc⟩ | ⟨hne, hc⟩
    · rw [hc, unescape_reference he, ih]
    · rw [hc, List.singleton_append,
        unescape_cons_of_ne (hne _ (List.mem_cons_self ..)).symm, ih]

/-! ## Bytes -/

/-- A byte below 128 is a character. -/
theorem toNat_of_mem_encodeChar (hb : b ∈ String.utf8EncodeChar c) (h : b.toNat < 128) :
    c.toNat = b.toNat := by
  rw [← Char.toNat_val]
  rw [String.utf8EncodeChar] at hb
  generalize c.val.toNat = n at hb ⊢
  -- All bytes of a longer encoding are 128 or more.
  split_ifs at hb <;> simp only [List.mem_cons, List.not_mem_nil, or_false] at hb
  · rw [hb, UInt8.toNat_ofNat'] at h ⊢
    omega
  · rcases hb with rfl | rfl <;> rw [UInt8.toNat_ofNat'] at h <;> omega
  · rcases hb with rfl | rfl | rfl <;> rw [UInt8.toNat_ofNat'] at h <;> omega
  · rcases hb with rfl | rfl | rfl | rfl <;> rw [UInt8.toNat_ofNat'] at h <;> omega

/-- The byte of a special character is in no other one. -/
theorem referenceFor?_of_mem_encodeChar (hne : ∀ e ∈ references, e.1 ≠ c)
    (hb : b ∈ String.utf8EncodeChar c) : referenceFor? b = none := by
  have hsmall : ∀ e ∈ references, e.1.toUInt8.toNat = e.1.toNat ∧ e.1.toNat < 128 := by decide
  have key : ∀ e ∈ references, b ≠ e.1.toUInt8 := by
    rintro e he rfl
    obtain ⟨hbyte, hlt⟩ := hsmall e he
    have hc := toNat_of_mem_encodeChar hb (hbyte ▸ hlt)
    exact hne e he (Char.toNat_inj.1 (hbyte ▸ hc).symm)
  simp only [references, List.forall_mem_cons] at key
  obtain ⟨hamp, hlt, hgt, hquot, hapos, -⟩ := key
  rw [referenceFor?, if_neg (show b ≠ 0x26 from hamp), if_neg (show b ≠ 0x3c from hlt),
    if_neg (show b ≠ 0x3e from hgt), if_neg (show b ≠ 0x22 from hquot),
    if_neg (show b ≠ 0x27 from hapos)]

/-- **A character is special just if its bytes are.**  Then there is one, and the reference
for it is the spelling. -/
theorem spell_bytes (c : Char) :
    (∃ b reference, String.utf8EncodeChar c = [b] ∧ referenceFor? b = some reference ∧
      spell c = reference.toList) ∨
    (∀ b ∈ String.utf8EncodeChar c, referenceFor? b = none) ∧ spell c = [c] := by
  rcases spell_cases c with ⟨e, he, rfl, hc⟩ | ⟨hne, hc⟩
  · refine .inl ?_
    rw [hc]
    simp only [references, List.mem_cons, List.not_mem_nil, or_false] at he
    rcases he with rfl | rfl | rfl | rfl | rfl <;> exact ⟨_, _, rfl, rfl, rfl⟩
  · exact .inr ⟨fun b hb => referenceFor?_of_mem_encodeChar hne hb, hc⟩

/-- The bytes of a character are as many as the encoding counts for it. -/
theorem length_encodeChar (c : Char) :
    (String.utf8EncodeChar c).length = [c].utf8Encode.size := by
  rw [List.utf8Encode_singleton, List.size_toByteArray]

/-- The slice between two sizes is the middle one of three parts. -/
theorem slice_middle (a b d : ByteArray) :
    slice (a ++ (b ++ d)) a.size (a.size + b.size) = .ok b := by
  have hrange : a.size ≤ a.size + b.size ∧ a.size + b.size ≤ (a ++ (b ++ d)).size := by
    rw [ByteArray.size_append, ByteArray.size_append]
    omega
  rw [slice, if_pos hrange, extract_middle]

namespace Writing

variable {bytes out : ByteArray}

/-- Bytes of no special character are gone through without a trace. -/
theorem foldlM_pass_of_none {l : List UInt8} (h : ∀ b ∈ l, referenceFor? b = none)
    (position : Nat) (w : Writing) : (l.zipIdx position).foldlM (pass bytes) w = .ok w := by
  induction l generalizing position with
  | nil => rfl
  | cons b l ih =>
    obtain ⟨hb, hl⟩ := List.forall_mem_cons.1 h
    rw [List.zipIdx_cons, List.foldlM_cons, pass, hb]
    exact ih hl _

/-- At a byte that has a reference, the pass writes what was left to write, and the reference. -/
theorem pass_reference {reference : String} (h : s.toList = u ++ (v ++ r))
    (hb : referenceFor? b = some reference) (out : ByteArray) :
    pass s.toByteArray ⟨out, u.utf8Encode.size⟩ (b, u.utf8Encode.size + v.utf8Encode.size) =
      .ok ⟨out ++ v.utf8Encode ++ reference.toByteArray,
        u.utf8Encode.size + v.utf8Encode.size + 1⟩ := by
  rw [pass, hb]
  dsimp only
  rw [toByteArray_eq h, List.utf8Encode_append, List.utf8Encode_append, slice_middle, ok_bind]
  rfl

/-- At the end the rest is written as it is. -/
theorem finish_ok (h : s.toList = u ++ v) (out : ByteArray) :
    finish s.toByteArray ⟨out, u.utf8Encode.size⟩ = .ok (out ++ v.utf8Encode) := by
  have hcut := slice_middle u.utf8Encode v.utf8Encode .empty
  rw [ByteArray.append_empty, ← ByteArray.size_append] at hcut
  rw [finish, toByteArray_eq h, List.utf8Encode_append, hcut, ok_bind, pure_eq_ok]

/-- **Going through the rest of a text.**  The mark is behind `u`, and nothing of `v`, which was
gone through since, needs a reference.  So what is still written is `v` and the spelling of what
is left. -/
theorem foldlM_pass (h : s.toList = u ++ (v ++ r)) (out : ByteArray) :
    ((r.flatMap String.utf8EncodeChar).zipIdx (u.utf8Encode.size + v.utf8Encode.size)).foldlM
        (pass s.toByteArray) ⟨out, u.utf8Encode.size⟩ >>= finish s.toByteArray =
      .ok (out ++ (v ++ r.flatMap spell).utf8Encode) := by
  induction r generalizing u v out with
  | nil =>
    rw [List.append_nil] at h
    rw [List.flatMap_nil, List.flatMap_nil, List.append_nil, List.zipIdx_nil, List.foldlM_nil,
      pure_eq_ok, ok_bind, finish_ok h]
  | cons c r ih =>
    rw [List.flatMap_cons, List.flatMap_cons, List.zipIdx_append, List.foldlM_append, bind_assoc]
    rcases spell_bytes c with ⟨b, reference, hbytes, hb, hc⟩ | ⟨hnone, hc⟩
    · -- The mark is set behind the character.
      have hsize : (u ++ v ++ [c]).utf8Encode.size =
          u.utf8Encode.size + v.utf8Encode.size + 1 := by
        rw [List.utf8Encode_append, List.utf8Encode_append, ByteArray.size_append,
          ByteArray.size_append, ← length_encodeChar, hbytes, List.length_singleton]
      have hrest := ih (u := u ++ v ++ [c]) (v := []) (by rw [h]; simp)
        (out ++ v.utf8Encode ++ reference.toByteArray)
      rw [hsize, List.utf8Encode_nil, ByteArray.size_empty, Nat.add_zero, List.nil_append] at hrest
      rw [hbytes, List.zipIdx_singleton, List.foldlM_cons, pass_reference h hb, ok_bind,
        List.foldlM_nil, pure_eq_ok, ok_bind, List.length_singleton, hrest, hc,
        List.utf8Encode_append, List.utf8Encode_append, String.utf8Encode_toList]
      simp only [ByteArray.append_assoc]
    · have hsize : (v ++ [c]).utf8Encode.size =
          v.utf8Encode.size + (String.utf8EncodeChar c).length := by
        rw [List.utf8Encode_append, ByteArray.size_append, length_encodeChar]
      have hrest := ih (u := u) (v := v ++ [c]) (by rw [h]; simp) out
      rw [hsize, ← Nat.add_assoc] at hrest
      rw [foldlM_pass_of_none hnone, ok_bind, hrest, hc, List.append_assoc]

end Writing

/-- **What is written of a text is its spelling.** -/
theorem writeEscaped_ok (s : String) (out : ByteArray) :
    writeEscaped s out = .ok (out ++ (spelling s).toByteArray) := by
  have h := Writing.foldlM_pass (s := s) (u := []) (v := []) (r := s.toList) rfl out
  rw [List.utf8Encode_nil, ByteArray.size_empty, List.nil_append, ← data_utf8Encode,
    String.utf8Encode_toList] at h
  rw [spelling, String.toByteArray_ofList]
  exact h

/-- **Escaping is an encoding, character by character.**  Going through the bytes of any text
succeeds and leaves its spelling behind what was written before, as the printer has it.  So:

* what is written is a text in UTF-8;
* two texts written one after the other are written as one text;
* no `<`, no `>` and no quotation mark is written, and each `&` begins a reference;
* putting the characters back from left to right gives the text again, also where it had
  references before;
* no other text is written in the same way. -/
theorem escaping_encodes (s : String) :
    (∀ out, writeEscaped s out = .ok (out ++ (spelling s).toByteArray)) ∧
    (spelling s).toList = escape s.toList ∧
    (∃ bytes, writeEscaped s .empty = .ok bytes ∧ String.fromUTF8? bytes = some (spelling s)) ∧
    (∀ t out, writeEscaped (s ++ t) out = writeEscaped s out >>= writeEscaped t) ∧
    (∀ c ∈ (spelling s).toList, c ∉ ['<', '>', '\"', '\'']) ∧
    (∀ before after, (spelling s).toList = before ++ '&' :: after →
      ∃ e ∈ references, e.2 <+: '&' :: after) ∧
    unescape (spelling s).toList = s.toList ∧
    ∀ t out, writeEscaped t out = writeEscaped s out → t = s := by
  have hspelling (t : String) : (spelling t).toList = t.toList.flatMap spell :=
    String.toList_ofList
  have hback (t : String) : unescape (spelling t).toList = t.toList := by
    rw [hspelling, unescape_flatMap_spell]
  refine ⟨writeEscaped_ok s, ?_, ⟨(spelling s).toByteArray, ?_, ?_⟩, ?_, ?_, ?_, hback s, ?_⟩
  · rw [hspelling, escape_eq_flatMap_spell]
  · rw [writeEscaped_ok, ByteArray.empty_append]
  · exact fromUTF8?_toUTF8 (spelling s)
  · intro t out
    rw [writeEscaped_ok, writeEscaped_ok, ok_bind, writeEscaped_ok, spelling_append,
      String.toByteArray_append, ByteArray.append_assoc]
  · intro c hc
    rw [hspelling] at hc
    obtain ⟨d, -, hd⟩ := List.mem_flatMap.1 hc
    exact notMem_spell hd
  · intro before after h
    rw [hspelling] at h
    exact reference_of_ampersand s.toList before after h
  · intro t out h
    rw [writeEscaped_ok, writeEscaped_ok, Except.ok.injEq, ByteArray.append_right_inj,
      String.toByteArray_inj] at h
    rw [← String.toList_inj, ← hback t, ← hback s, h]

example : spelling "&amp;lt;" = "&amp;amp;lt;" := by decide

/-! ## Documents -/

/-- The bytes of a spelling are those of the escaped text. -/
theorem toByteArray_spelling (s : String) :
    (spelling s).toByteArray = (escape s.toList).utf8Encode := by
  rw [spelling, String.toByteArray_ofList, escape_eq_flatMap_spell]

/-- Writing an attribute succeeds and writes the bytes of what is printed. -/
theorem writeAttribute_ok (a : Attribute) (out : ByteArray) :
    writeAttribute out a = .ok (out ++ (printAttribute a).utf8Encode) := by
  have hprint : printAttribute a =
      " ".toList ++ a.1.toList ++ "=\"".toList ++ escape a.2.toList ++ "\"".toList := by
    simp [printAttribute]
  rw [writeAttribute, writeEscaped_ok, ok_bind, pure_eq_ok, toByteArray_spelling, hprint]
  simp only [List.utf8Encode_append, String.utf8Encode_toList, ByteArray.append_assoc]

/-- Writing attributes one by one writes the bytes of what is printed for all of them. -/
theorem foldlM_writeAttribute (l : List Attribute) (out : ByteArray) :
    l.foldlM writeAttribute out = .ok (out ++ (l.flatMap printAttribute).utf8Encode) := by
  induction l generalizing out with
  | nil => rw [List.foldlM_nil, pure_eq_ok, List.flatMap_nil, List.utf8Encode_nil,
      ByteArray.append_empty]
  | cons a l ih =>
    rw [List.foldlM_cons, writeAttribute_ok, ok_bind, ih, List.flatMap_cons,
      List.utf8Encode_append, ByteArray.append_assoc]

/-- Writing a start tag succeeds and writes the bytes of what is printed. -/
theorem writeStartTag_ok (e : Element) (out : ByteArray) :
    writeStartTag e out = .ok (out ++ (printStartTag e).utf8Encode) := by
  have hprint : printStartTag e =
      "<".toList ++ e.tag.toList ++ e.attributes.flatMap printAttribute ++ ">".toList := by
    simp [printStartTag]
  rw [writeStartTag, foldlM_writeAttribute, ok_bind, pure_eq_ok, hprint]
  simp only [List.utf8Encode_append, String.utf8Encode_toList, ByteArray.append_assoc]

namespace Document

mutual

/-- **What is written of a document is what it is printed as.** -/
theorem write_ok : ∀ (d : Document) (out : ByteArray),
    d.write out = .ok (out ++ d.print.utf8Encode)
  | .node .fragment children, out => by rw [write, print, writeAll_ok children]
  | .node (.element e) children, out => by
    rw [write, print, writeStartTag_ok, ok_bind]
    split
    · rfl
    · have hprint : printEndTag e = "</".toList ++ e.tag.toList ++ ">".toList := by
        simp [printEndTag]
      rw [writeAll_ok children, ok_bind, pure_eq_ok, hprint]
      simp only [List.utf8Encode_append, String.utf8Encode_toList, ByteArray.append_assoc]
  | .node (.text s) _, out => by rw [write, print, writeEscaped_ok, toByteArray_spelling]
  | .node (.comment s) children, out => by
    have hprint : (Document.node (.comment s) children).print =
        "<!--".toList ++ s.toList ++ "-->".toList := by
      simp [print]
    rw [write, hprint, pure_eq_ok]
    simp only [List.utf8Encode_append, String.utf8Encode_toList, ByteArray.append_assoc]

/-- Writing documents one by one succeeds and writes the bytes of what is printed for all of
them. -/
theorem writeAll_ok : ∀ (ds : List Document) (out : ByteArray),
    writeAll ds out = .ok (out ++ (printAll ds).utf8Encode)
  | [], out => by rw [writeAll, printAll, pure_eq_ok, List.utf8Encode_nil, ByteArray.append_empty]
  | d :: ds, out => by
    rw [writeAll, printAll, write_ok d, ok_bind, writeAll_ok ds, List.utf8Encode_append,
      ByteArray.append_assoc]

end

/-- **The bytes of a document always read as a text, and that is the one it is printed as.** -/
theorem renderBytes_ok (d : Document) : d.renderBytes = .ok (some d.render) := by
  rw [renderBytes, write_ok, ok_bind, pure_eq_ok, ByteArray.empty_append,
    ← toByteArray_eq (toList_render d)]
  exact congrArg Except.ok (fromUTF8?_toUTF8 d.render)

end Document
end Html
end PageBinding
