/-
# Positions fall between characters

The reading by positions cuts a text only where it is between two characters of it: it
goes on behind a brace that it has found or at the end of the text, and a brace is one
byte.  A byte that is that of a closing brace is one, since the first byte of no other
character is the same (`byte_closing`).  So no cut fails, and what is given out one by
one are the parts of the text (`toList_upTo`).

With the search at every position, this says which texts the reading takes for
placeholders and what a substitution makes of them (`scan_reads_placeholders`).
-/

import PageBinding.Proofs.Template.Search
import PageBinding.Proofs.Text.Encoded
import PageBinding.Proofs.Tree.Views
import PageBinding.Template.Scan

namespace PageBinding
namespace Template
namespace Scan

variable {t : String} {u v w r : List Char} {c : Char}

/-! ## Widths -/

/-- The number of bytes of some characters. -/
def width : List Char → Nat
  | [] => 0
  | c :: r => c.utf8Size + width r

/-- No characters have no bytes. -/
@[simp] theorem width_nil : width [] = 0 := rfl

/-- The bytes of the first character and those of the rest. -/
@[simp] theorem width_cons (c : Char) (r : List Char) : width (c :: r) = c.utf8Size + width r := rfl

/-- The bytes of characters in a row. -/
@[simp] theorem width_append (u v : List Char) : width (u ++ v) = width u + width v := by
  induction u with
  | nil => simp
  | cons c u ih => simp [ih, Nat.add_assoc]

/-- Only the empty text has no bytes. -/
theorem width_pos : 0 < width u ↔ u ≠ [] := by
  cases u with
  | nil => simp
  | cons c u => simpa using Nat.lt_add_right _ c.utf8Size_pos

/-- The width is the size of the encoding. -/
theorem width_eq_size (u : List Char) : width u = u.utf8Encode.size := by
  induction u with
  | nil => simp
  | cons c u ih =>
    rw [List.utf8Encode_cons, ByteArray.size_append, ← ih, List.utf8Encode_singleton]
    simp [String.length_utf8EncodeChar]

/-- The width of a text's characters is its size. -/
theorem width_toList (t : String) : width t.toList = t.utf8ByteSize := by
  rw [width_eq_size, String.utf8Encode_toList, String.size_toByteArray]

/-- An opening brace is one byte. -/
@[simp] theorem utf8Size_opening : Char.utf8Size '\x7b' = 1 := rfl

/-- A closing brace is one byte. -/
@[simp] theorem utf8Size_closing : Char.utf8Size '\x7d' = 1 := rfl

/-! ## Cutting -/

/-- Behind each character is a position of the text. -/
theorem isValid_width (h : t.toList = u ++ r) : String.Pos.Raw.IsValid t ⟨width u⟩ := by
  refine String.Pos.Raw.isValid_iff_exists_append.2 ⟨.ofList u, .ofList r, ?_, ?_⟩
  · rw [← String.ofList_append, ← h, String.ofList_toList]
  · ext
    rw [String.byteIdx_rawEndPos, ← width_toList, String.toList_ofList]

/-- **Cutting between characters.** -/
theorem cut_ok (h : t.toList = u ++ (v ++ w)) :
    cut t (width u) (width u + width v) = .ok (String.ofList v) := by
  have hv : width u ≤ width u + width v ∧ String.Pos.Raw.IsValid t ⟨width u⟩ ∧
      String.Pos.Raw.IsValid t ⟨width u + width v⟩ :=
    ⟨Nat.le_add_right .., isValid_width h,
      width_append u v ▸ isValid_width (h.trans (List.append_assoc ..).symm)⟩
  have hbytes : t.toByteArray.extract (width u) (width u + width v) = v.utf8Encode := by
    rw [Text.toByteArray_eq h, List.utf8Encode_append, List.utf8Encode_append, width_eq_size,
      width_eq_size, Text.extract_middle]
  rw [cut, dif_pos hv]
  exact congrArg Except.ok (String.toByteArray_inj.1 (hbytes.trans String.toByteArray_ofList.symm))

/-- Cutting off what stands behind some characters. -/
theorem cut_end (h : t.toList = u ++ r) : cut t (width u) t.utf8ByteSize = .ok (String.ofList r) := by
  have hcut := cut_ok (h.trans (congrArg (u ++ ·) (List.append_nil r).symm))
  rwa [← width_append, ← h, width_toList] at hcut

/-- The first byte of a character is that of a closing brace only if it is one. -/
theorem first_byte_closing (h : 0 < (String.utf8EncodeChar c).length) :
    (String.utf8EncodeChar c)[0] = 0x7d ↔ c = '\x7d' := by
  have hc : c = '\x7d' ↔ c.val.toNat = 0x7d := by
    rw [← Char.toNat_inj]
    rfl
  have hbyte : UInt8.toNat 0x7d = 0x7d := rfl
  rw [hc, ← UInt8.toNat_inj, hbyte]
  simp only [String.utf8EncodeChar]
  split_ifs <;> simp only [List.getElem_cons_zero, UInt8.toNat_ofNat'] <;> omega

/-- The byte at the end of the first part is the first byte of the second one. -/
theorem getElem_size {a b d : ByteArray} (hb : 0 < b.size) (h : a.size < (a ++ (b ++ d)).size) :
    (a ++ (b ++ d))[a.size] = b[0] := by
  rw [ByteArray.getElem_append_right (Nat.le_refl _)]
  simp only [Nat.sub_self]
  exact ByteArray.getElem_append_left hb

/-- **A closing brace is told by its byte.** -/
theorem byte_closing (h : t.toList = u ++ r) :
    t.toByteArray[width u]? = some 0x7d ↔ ∃ behind, r = '\x7d' :: behind := by
  rw [Text.toByteArray_eq h, List.utf8Encode_append, width_eq_size, getElem?_eq_some_iff]
  cases r with
  | nil => simp
  | cons c r =>
    have hlen : 0 < (String.utf8EncodeChar c).length := by
      rw [String.length_utf8EncodeChar]
      exact c.utf8Size_pos
    have hsize : 0 < (String.utf8EncodeChar c).toByteArray.size := by simpa using hlen
    rw [List.utf8Encode_cons, List.utf8Encode_singleton]
    constructor
    · rintro ⟨hlt, hb⟩
      rw [getElem_size hsize, List.getElem_toByteArray, first_byte_closing hlen] at hb
      exact ⟨r, hb ▸ rfl⟩
    · rintro ⟨behind, hc⟩
      have hlt : u.utf8Encode.size <
          (u.utf8Encode ++ ((String.utf8EncodeChar c).toByteArray ++ r.utf8Encode)).size := by
        rw [ByteArray.size_append, ByteArray.size_append]
        omega
      refine ⟨hlt, ?_⟩
      rw [getElem_size hsize, List.getElem_toByteArray, first_byte_closing hlen]
      exact (List.cons.inj hc).1

/-! ## Finding a placeholder -/

/-- Two opening braces are found where they are. -/
theorem position?_opened (r : List Char) : position? opening ('\x7b' :: '\x7b' :: r) = some 0 := by
  simp [position?, opening]

/-- Where no two opening braces begin, they are found further on. -/
theorem position?_unopened (h : ∀ r', c = '\x7b' → r ≠ '\x7b' :: r') :
    position? opening (c :: r) = (position? opening r).map (c.utf8Size + ·) := by
  rw [position?, if_neg]
  intro hp
  cases r with
  | nil => simp [opening] at hp
  | cons d r =>
    simp only [opening, List.isPrefixOf_cons_cons, Bool.and_eq_true, beq_iff_eq] at hp
    exact h r hp.1.symm (hp.2.1 ▸ rfl)

/-- A closing brace that is not there is not found. -/
theorem position?_unclosed (h : '\x7d' ∉ r) : position? ['\x7d'] r = none := by
  induction r with
  | nil => rfl
  | cons c r ih =>
    rw [List.mem_cons, not_or] at h
    rw [position?, if_neg (by simpa using h.1), ih h.2]
    rfl

/-- The first closing brace is found behind the bytes before it. -/
theorem position?_closed (h : '\x7d' ∉ u) : position? ['\x7d'] (u ++ '\x7d' :: r) = some (width u) := by
  induction u with
  | nil => simp [position?]
  | cons c u ih =>
    rw [List.mem_cons, not_or] at h
    rw [List.cons_append, position?, if_neg (by simpa using h.1), ih h.2]
    rfl

/-- The search goes on behind a character at which no two opening braces begin. -/
theorem find_skip (h : t.toList = u ++ c :: r) (hc : ∀ r', c = '\x7b' → r ≠ '\x7b' :: r') :
    find t (width u) = find t (width (u ++ [c])) := by
  have h' : t.toList = (u ++ [c]) ++ r := by rw [h]; simp
  rw [find, find, cut_end h, cut_end h']
  dsimp only
  rw [String.toList_ofList, String.toList_ofList, position?_unopened hc]
  cases position? opening r with
  | none => rfl
  | some off =>
    dsimp only [Option.map_some]
    rw [show width u + (c.utf8Size + off) = width (u ++ [c]) + off by simp; omega]

/-- Two opening braces with no closing one behind them end the search. -/
theorem find_unclosed (h : t.toList = u ++ '\x7b' :: '\x7b' :: r) (hr : '\x7d' ∉ r) :
    find t (width u) = .ok none := by
  have h' : t.toList = (u ++ ['\x7b', '\x7b']) ++ r := by rw [h]; simp
  have hw : width u + 0 + 2 = width (u ++ ['\x7b', '\x7b']) := by simp
  rw [find, cut_end h]
  dsimp only
  rw [String.toList_ofList, position?_opened]
  dsimp only
  rw [hw, cut_end h']
  dsimp only
  rw [String.toList_ofList, position?_unclosed hr]

/-- **The first closing brace decides.** -/
theorem find_closed {inner rest : List Char}
    (h : t.toList = u ++ '\x7b' :: '\x7b' :: (inner ++ '\x7d' :: rest)) (hi : '\x7d' ∉ inner) :
    find t (width u) = if inner ≠ [] ∧ rest.head? = some '\x7d' then
        .ok (some (width u, width u + width inner + 4))
      else find t (width (u ++ '\x7b' :: '\x7b' :: (inner ++ ['\x7d']))) := by
  have h' : t.toList = (u ++ ['\x7b', '\x7b']) ++ (inner ++ '\x7d' :: rest) := by rw [h]; simp
  have h'' : t.toList = (u ++ '\x7b' :: '\x7b' :: (inner ++ ['\x7d'])) ++ rest := by rw [h]; simp
  have hw : width u + 0 + 2 = width (u ++ ['\x7b', '\x7b']) := by simp
  have hw' : width (u ++ ['\x7b', '\x7b']) + width inner + 1 =
      width (u ++ '\x7b' :: '\x7b' :: (inner ++ ['\x7d'])) := by simp; omega
  have hends : (width (u ++ ['\x7b', '\x7b']) < width (u ++ ['\x7b', '\x7b']) + width inner ∧
      t.toByteArray[width (u ++ ['\x7b', '\x7b']) + width inner + 1]? = some 0x7d) ↔
        inner ≠ [] ∧ rest.head? = some '\x7d' := by
    rw [hw', byte_closing h'', ← List.head?_eq_some_iff, Nat.lt_add_right_iff_pos, width_pos]
  rw [find, cut_end h]
  dsimp only
  rw [String.toList_ofList, position?_opened]
  dsimp only
  rw [hw, cut_end h']
  dsimp only
  rw [String.toList_ofList, position?_closed hi]
  dsimp only
  have hstop : width (u ++ ['\x7b', '\x7b']) + width inner + 2 = width u + width inner + 4 := by
    rw [← hw]
    omega
  rw [if_congr hends rfl rfl, hw', hstop, Nat.add_zero]

/-- Where a placeholder stands that is found from a position on. -/
def located (pos : Nat) (found : Option (List Char × List Char × List Char)) : Option (Nat × Nat) :=
  found.map fun (before, inner, _) =>
    (pos + width before, pos + width before + width inner + 4)

/-- What is found farther on stands where it stands. -/
theorem located_map {pos : Nat} {found : Option (List Char × List Char × List Char)}
    {f : List Char × List Char × List Char → List Char × List Char × List Char}
    (hf : ∀ before inner behind, f (before, inner, behind) = (v ++ before, inner, behind)) :
    located pos (found.map f) = located (pos + width v) found := by
  rw [located, Option.map_map, located]
  congr 1
  funext ⟨before, inner, behind⟩
  simp only [Function.comp_apply, hf, width_append, Nat.add_assoc]

/-- **Finding the first placeholder** from a position between characters on. -/
theorem find_eq (h : t.toList = u ++ r) : find t (width u) = .ok (located (width u) (next? r)) := by
  fun_induction next? r generalizing u with
  | case1 =>
    rw [find, cut_end h]
    rfl
  | case2 r hd => exact find_unclosed h (notMem_of_dropWhile hd)
  | case3 r inside c rest hd hi =>
    rename_i ih
    rw [eq_of_dropWhile_isClosing hd, show r.takeWhile (!isClosing ·) = [] from hi] at h
    rw [find_closed h List.not_mem_nil, if_neg (by simp), ih (by rw [h]; simp), width_append]
    exact congrArg _ (located_map fun _ _ _ => rfl).symm
  | case4 r inside c rest hd =>
    rename_i hi
    rw [eq_of_dropWhile_isClosing hd] at h
    rw [find_closed h (notMem_takeWhile r), if_pos ⟨hi, rfl⟩]
    rfl
  | case5 r inside c rest hne hd =>
    rename_i ih
    rw [eq_of_dropWhile_isClosing hd] at h
    rw [find_closed h (notMem_takeWhile r), if_neg, ih (by rw [h]; simp), width_append]
    · refine congrArg _ (located_map fun _ _ _ => ?_).symm
      simp
      rfl
    · rintro ⟨-, hr⟩
      obtain ⟨behind, hr⟩ := List.head?_eq_some_iff.1 hr
      exact hne behind hr
  | case6 c r hne ih =>
    rw [find_skip h fun r' hc hr => hne r' hc hr, ih (by rw [h]; simp), width_append]
    exact congrArg _ (located_map fun _ _ _ => rfl).symm

/-! ## Giving out the parts -/

namespace Pieces

/-- The scan ends when there is no next part. -/
theorem toList_of_none {p : Pieces t} (h : p.next = .ok none) : p.toList = .ok [] := by
  rw [toList]
  split <;> rename_i hn <;> rw [h] at hn <;> cases hn

/-- The next part is the first one of those that are left. -/
theorem toList_of_some {p q : Pieces t} {part : Part} {ps : List Part}
    (h : p.next = .ok (some (part, q))) (hq : q.toList = .ok ps) : p.toList = .ok (part :: ps) := by
  rw [toList]
  split <;> rename_i hn <;> rw [h] at hn <;> cases hn
  rw [hq]
  rfl

variable {before inner behind : List Char}

/-- A placeholder is cut out of the text without a failure. -/
theorem placeholder_ok
    (h : t.toList = u ++ '\x7b' :: '\x7b' :: (inner ++ '\x7d' :: '\x7d' :: behind)) :
    placeholder t (width u) (width u + width inner + 4) =
      .ok (some (.placeholder inner, upTo t (width u + width inner + 4))) := by
  have h' : t.toList = (u ++ ['\x7b', '\x7b']) ++ (inner ++ '\x7d' :: '\x7d' :: behind) := by
    rw [h]; simp
  have hcut := cut_ok h'
  rw [width_append] at hcut
  rw [placeholder, show width u + width inner + 4 - 2 = width u + 2 + width inner by omega]
  rw [show cut t (width u + 2) (width u + 2 + width inner) = .ok (.ofList inner) from hcut, ok_bind,
    String.toList_ofList]
  rfl

/-- At the end of the text there is no next part. -/
theorem next_of_end (h : t.utf8ByteSize ≤ width u) : (upTo t (width u)).next = .ok none :=
  if_pos h

/-- Before the end of the text some bytes are left. -/
theorem not_end (h : t.toList = u ++ r) (hr : r ≠ []) : ¬ t.utf8ByteSize ≤ width u := by
  have := width_pos.2 hr
  rw [← width_toList, h, width_append]
  omega

/-- If no placeholder is left, the rest of the text is the next part. -/
theorem next_of_none (h : t.toList = u ++ r) (hr : r ≠ []) (hn : next? r = none) :
    (upTo t (width u)).next = .ok (some (.literal r, upTo t t.utf8ByteSize)) := by
  rw [next, upTo]
  dsimp only
  rw [if_neg (not_end h hr)]
  split <;> rename_i hf <;> rw [find_eq h, hn] at hf <;> cases hf
  rw [cut_end h, ok_bind, String.toList_ofList]
  rfl

/-- A placeholder that begins here is the next part. -/
theorem next_of_first (h : t.toList = u ++ r) (hn : next? r = some ([], inner, behind)) :
    (upTo t (width u)).next =
      .ok (some (.placeholder inner, upTo t (width u + width inner + 4))) := by
  have hr := next?_eq hn
  have hne : r ≠ [] := by rw [hr]; exact nofun
  rw [next, upTo]
  dsimp only
  rw [if_neg (not_end h hne)]
  split <;> rename_i hf <;> rw [find_eq h, hn] at hf <;> cases hf
  rw [if_neg (show ¬ width u < width u + width [] from Nat.lt_irrefl _)]
  exact placeholder_ok (h.trans (congrArg (u ++ ·) hr))

/-- What stands before a placeholder is given out before it. -/
theorem next_of_later (h : t.toList = u ++ r) (hn : next? r = some (before, inner, behind))
    (hb : before ≠ []) : ∃ q, (upTo t (width u)).next = .ok (some (.literal before, q)) ∧
      q.next = .ok (some (.placeholder inner, upTo t (width (u ++ before) + width inner + 4))) := by
  have hr := next?_eq hn
  have hne : r ≠ [] := by
    rw [hr]
    exact List.append_ne_nil_of_left_ne_nil hb _
  rw [next, upTo]
  dsimp only
  rw [if_neg (not_end h hne)]
  split <;> rename_i hf <;> rw [find_eq h, hn] at hf <;> cases hf
  rw [if_pos (Nat.lt_add_of_pos_right (width_pos.2 hb)), cut_ok (h.trans (congrArg (u ++ ·) hr)),
    ok_bind, String.toList_ofList]
  have hp := placeholder_ok (h.trans ((congrArg (u ++ ·) hr).trans (List.append_assoc ..).symm))
  rw [width_append] at hp ⊢
  exact ⟨_, rfl, hp⟩

/-- **All the parts are given out,** from a position between characters on. -/
theorem toList_upTo (h : t.toList = u ++ r) : (upTo t (width u)).toList = .ok (parts r) := by
  induction r using parts_induction generalizing u with
  | none r hn =>
    have hend : (upTo t t.utf8ByteSize).toList = .ok [] := by
      rw [← width_toList]
      exact toList_of_none (next_of_end (width_toList t).ge)
    rw [parts_of_none hn]
    split_ifs with hr
    · rw [← width_toList, h, hr, List.append_nil] at hend
      exact hend
    · exact toList_of_some (next_of_none h hr hn) hend
  | some r before inner behind hn ih =>
    have hrest : (upTo t (width (u ++ before) + width inner + 4)).toList = .ok (parts behind) := by
      have := ih (u := u ++ before ++ '\x7b' :: '\x7b' :: (inner ++ ['\x7d', '\x7d'])) (by
        rw [h, next?_eq hn]; simp)
      convert this using 3
      simp
      omega
    rw [parts_of_some hn]
    split_ifs with hb
    · subst hb
      rw [List.append_nil] at hrest
      exact toList_of_some (next_of_first h hn) hrest
    · obtain ⟨q, hq, hnext⟩ := next_of_later h hn hb
      exact toList_of_some hq (toList_of_some hnext hrest)

end Pieces

/-- The parts that the scan yields are those of the text. -/
theorem pieces_eq (s : String) : pieces s = .ok (parts s.toList) :=
  Pieces.toList_upTo (u := []) rfl

/-! ## Substitution -/

/-- Two opening braces are found where there are some. -/
theorem position?_isNone (r : List Char) :
    (position? opening r).isNone = !mayHavePlaceholder r := by
  fun_induction mayHavePlaceholder r with
  | case1 => rfl
  | case2 r => rw [position?_opened]; rfl
  | case3 c r hne ih =>
    rw [position?_unopened fun r' hc hr => hne r' hc hr, Option.isNone_map, ih]

/-- Putting parts one by one adds each of them, filled, and notes whether one is a placeholder. -/
theorem foldl_put (lookup : List Char → List Char) (ps : List Part) (out : List Char)
    (replaced : Bool) : ps.foldl (put lookup) (out, replaced) =
      (out ++ ps.flatMap (Part.fill lookup), replaced || ps.any Part.isPlaceholder) := by
  induction ps generalizing out replaced with
  | nil => simp
  | cons p ps ih =>
    rw [List.foldl_cons]
    cases p <;> simp [put, ih, Part.fill, Part.isPlaceholder]

/-- Substituting in the text is substituting in its characters. -/
theorem substitute_eq (s : String) (lookup : List Char → List Char) :
    substitute s lookup = .ok (substitute? s.toList lookup) := by
  rw [substitute, position?_isNone, substitute?]
  cases mayHavePlaceholder s.toList with
  | false => rfl
  | true =>
    rw [pieces_eq, ok_bind, foldl_put]
    rfl

/-- **The reading of a text accepts the grammar of placeholders.**  Each text can be read by
positions: every cut is between characters of it, and what is given out comes to an end.
The parts make up the text, none of them is an empty stretch and no two stretches are
neighbours.  The placeholders among them are those that are found when one position after
the other is looked at.  A substitution says that there are none just if the search finds
none, whatever the look for opening braces said before; otherwise it leaves the text with
what the search finds replaced.  So do the operations on characters that are used to
render a page. -/
theorem scan_reads_placeholders (s : String) :
    (∃ ps, pieces s = .ok ps ∧ ps = parts s.toList ∧
      ps.flatMap Part.source = s.toList ∧ (∀ l, .literal l ∈ ps → l ≠ []) ∧
      (ps.IsChain fun p q => p.isPlaceholder ∨ q.isPlaceholder) ∧
      placed 0 ps = search 0 s.toList) ∧
    ∀ lookup, substitute s lookup = .ok (substitute? s.toList lookup) ∧
      substitute? s.toList lookup =
        if search 0 s.toList = [] then none
        else some (replace lookup 0 s.toList (search 0 s.toList)) :=
  ⟨⟨_, pieces_eq s, rfl, source_parts _, fun _ => literal_ne_nil, isChain_parts _, placed_parts _ 0⟩,
    fun lookup => ⟨substitute_eq s lookup, substitute?_eq_replace _ lookup⟩⟩

end Scan
end Template
end PageBinding
