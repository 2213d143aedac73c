/-
# Reading what was written

The text of documents is read in two steps, as any text is.  Turning its line ends
turns those of the texts and values (`normalizeNewlines_printAll`), and the tokens
read then are one for each start tag, end tag, text and comment that was written
(`tokensOf_printAll`).

Both are said in front of a rest, which is nothing or begins with `<` (`Opens`): so a
text ends where it was written to end, and a carriage return there is not joined with
a line feed.  Documents in which adjacent texts are joined leave each text such a rest.
-/

import PageBinding.Proofs.Html.Writable
import Mathlib.Data.String.Basic

namespace PageBinding
namespace Html

variable {c : Char} {s t rest : List Char} {e : Element} {d : Document} {ds : List Document}

/-! ## Where a text ends -/

/-- Nothing, or markup. -/
def Opens (s : List Char) : Prop := ∀ c ∈ s.head?, c = '<'

/-- Nothing ends a text. -/
theorem opens_nil : Opens [] := by
  intro c hc
  cases hc

/-- What ends a text begins with no other character than `<`. -/
theorem Opens.head?_ne (h : Opens s) (hc : c ≠ '<') : s.head? ≠ some c :=
  fun hs => hc (h c hs)

namespace Document

/-- A document that is no text begins with markup. -/
theorem opens_print (hd : Writable d) (ht : ¬ d.IsText) (rest : List Char) :
    Opens (print d ++ rest) := by
  obtain ⟨n, below⟩ := d
  intro c hc
  cases n with
  | fragment => exact hd.1.elim
  | element e =>
    rw [print] at hc
    split at hc <;> exact (Option.some.inj hc).symm
  | text s => exact absurd rfl ht
  | comment s =>
    rw [print] at hc
    exact (Option.some.inj hc).symm

/-- Documents that do not begin with a text begin with markup, or there are none. -/
theorem opens_printAll (h : WritableAll ds) (ht : ∀ d ∈ ds.head?, ¬ d.IsText) (hr : Opens rest) :
    Opens (printAll ds ++ rest) := by
  cases ds with
  | nil => exact hr
  | cons d ds =>
    rw [printAll, List.append_assoc]
    exact opens_print h.1 (ht d rfl) _

/-- An end tag is markup. -/
theorem opens_printEndTag (e : Element) (rest : List Char) : Opens (printEndTag e ++ rest) :=
  fun _ hc => (Option.some.inj hc).symm

end Document

/-! ## Line ends -/

/-- No carriage return stands in the name of a tag. -/
theorem IsTagName.notMem_return (h : IsTagName s) : '\r' ∉ s := by
  obtain ⟨-, -, -, -, h⟩ := h
  exact fun hr => (h _ hr).1.2 rfl

/-- No carriage return stands in the name of an attribute. -/
theorem IsAttributeName.notMem_return (h : IsAttributeName s) : '\r' ∉ s := by
  obtain ⟨c, r, rfl, hc, hr⟩ := h
  intro hm
  rcases List.mem_cons.1 hm with hm | hm
  · exact hc.1.2 hm.symm
  · exact (hr _ hm).1.2 rfl

/-- Turning the line ends of a printed attribute turns those of its value. -/
theorem normalizeNewlines_printAttribute {a : Attribute} (h : IsAttributeName a.1.toList)
    (t : List Char) :
    normalizeNewlines (printAttribute a ++ t) =
      printAttribute (a.1, lineFeeds a.2) ++ normalizeNewlines t := by
  have hname : '\r' ∉ ' ' :: (a.1.toList ++ ['=', '\"']) := by
    simpa using h.notMem_return
  calc normalizeNewlines (printAttribute a ++ t)
      = normalizeNewlines ((' ' :: (a.1.toList ++ ['=', '\"'])) ++
          (escape a.2.toList ++ '\"' :: t)) := by simp [printAttribute]
    _ = (' ' :: (a.1.toList ++ ['=', '\"'])) ++
          (escape (normalizeNewlines a.2.toList) ++ '\"' :: normalizeNewlines t) := by
        rw [normalizeNewlines_append_of_notMem hname, normalizeNewlines_append (by simp),
          normalizeNewlines_escape, normalizeNewlines_cons_of_ne (by decide)]
    _ = printAttribute (a.1, lineFeeds a.2) ++ normalizeNewlines t := by
        simp [printAttribute, lineFeeds]

/-- Turning the line ends of printed attributes turns those of their values. -/
theorem normalizeNewlines_printAttributes (t : List Char) :
    ∀ as : List Attribute, (∀ a ∈ as, IsAttributeName a.1.toList) →
      normalizeNewlines (as.flatMap printAttribute ++ t) =
        (as.map fun a => (a.1, lineFeeds a.2)).flatMap printAttribute ++ normalizeNewlines t
  | [], _ => rfl
  | a :: as, h => by
    rw [List.forall_mem_cons] at h
    rw [List.flatMap_cons, List.append_assoc, normalizeNewlines_printAttribute h.1,
      normalizeNewlines_printAttributes t as h.2, List.map_cons, List.flatMap_cons,
      List.append_assoc]

/-- Turning the line ends of a printed start tag turns those of its values. -/
theorem normalizeNewlines_printStartTag (h : e.Writable) (t : List Char) :
    normalizeNewlines (printStartTag e ++ t) =
      printStartTag (e.mapValues lineFeeds) ++ normalizeNewlines t := by
  have htag : '\r' ∉ '<' :: e.tag.toList := by
    simpa using h.tag.notMem_return
  calc normalizeNewlines (printStartTag e ++ t)
      = normalizeNewlines (('<' :: e.tag.toList) ++
          (e.attributes.flatMap printAttribute ++ '>' :: t)) := by simp [printStartTag]
    _ = ('<' :: e.tag.toList) ++ ((e.mapValues lineFeeds).attributes.flatMap printAttribute ++
          '>' :: normalizeNewlines t) := by
        rw [normalizeNewlines_append_of_notMem htag,
          normalizeNewlines_printAttributes _ _ h.names,
          normalizeNewlines_cons_of_ne (by decide)]
        rfl
    _ = printStartTag (e.mapValues lineFeeds) ++ normalizeNewlines t := by
        simp [printStartTag, Element.mapValues]

/-- An end tag is printed without line ends. -/
theorem normalizeNewlines_printEndTag (h : e.Writable) (t : List Char) :
    normalizeNewlines (printEndTag e ++ t) = printEndTag e ++ normalizeNewlines t := by
  refine normalizeNewlines_append_of_notMem ?_ t
  simpa [printEndTag] using h.tag.notMem_return

namespace Document

mutual

/-- Turning the line ends of a printed document turns those of its texts and values. -/
theorem normalizeNewlines_print : ∀ (d : Document) (rest : List Char), Merged d → Writable d →
    (d.IsText → Opens rest) →
      normalizeNewlines (print d ++ rest) = print (map Node.lineFeeds d) ++ normalizeNewlines rest
  | .node .fragment ds, rest, _, hw, _ => hw.1.elim
  | .node (.element e) ds, rest, hm, hw, _ => by
    rw [map, Node.lineFeeds, print, print]
    show normalizeNewlines ((if isVoid e.tag then _ else _) ++ rest) =
      (if isVoid e.tag then _ else _) ++ normalizeNewlines rest
    split
    · exact normalizeNewlines_printStartTag hw.1 rest
    · rw [List.append_assoc, List.append_assoc, normalizeNewlines_printStartTag hw.1,
        normalizeNewlines_printAll ds _ hm.2 hw.2.2 (opens_printEndTag e rest),
        normalizeNewlines_printEndTag hw.1, List.append_assoc, List.append_assoc]
      rfl
  | .node (.text s) ds, rest, _, _, hr => by
    rw [map, Node.lineFeeds, print, print,
      normalizeNewlines_append ((hr rfl).head?_ne (by decide)), normalizeNewlines_escape,
      lineFeeds, String.toList_ofList]
  | .node (.comment s) ds, rest, _, hw, _ => by
    have hs : '\r' ∉ '<' :: '!' :: '-' :: '-' :: (s.toList ++ ['-', '-', '>']) := by
      simpa using hw.1.notMem_return
    show normalizeNewlines (print (.node (.comment s) ds) ++ rest) =
      print (.node (.comment s) (mapAll Node.lineFeeds ds)) ++ normalizeNewlines rest
    rw [print, print]
    exact normalizeNewlines_append_of_notMem hs rest

/-- **Turning the line ends of a written text** turns those of its texts and values. -/
theorem normalizeNewlines_printAll : ∀ (ds : List Document) (rest : List Char), MergedAll ds →
    WritableAll ds → Opens rest →
      normalizeNewlines (printAll ds ++ rest) =
        printAll (mapAll Node.lineFeeds ds) ++ normalizeNewlines rest
  | [], rest, _, _, _ => by rw [mapAll, printAll, List.nil_append, List.nil_append]
  | d :: ds, rest, hm, hw, hr => by
    rw [mapAll, printAll, printAll, List.append_assoc,
      normalizeNewlines_print d _ hm.1 hw.1 fun ht => opens_printAll hw.2 (hm.2.1 ht) hr,
      normalizeNewlines_printAll ds rest hm.2.2 hw.2 hr, List.append_assoc]

end

end Document

/-! ## Tags -/

/-- All characters before the first one that fails a test are taken. -/
theorem takeWhile_append_cons {p : Char → Bool} (hs : ∀ d ∈ s, p d) (hc : p c = false)
    (t : List Char) : (s ++ c :: t).takeWhile p = s := by
  rw [List.takeWhile_append_of_pos hs, List.takeWhile_cons_of_neg (by simp [hc]), List.append_nil]

/-- All characters before the first one that fails a test are dropped. -/
theorem dropWhile_append_cons {p : Char → Bool} (hs : ∀ d ∈ s, p d) (hc : p c = false)
    (t : List Char) : (s ++ c :: t).dropWhile p = c :: t := by
  rw [List.dropWhile_append_of_pos hs, List.dropWhile_cons_of_neg (by simp [hc])]

/-- A name in which each character is kept is kept. -/
theorem map_nameChar (h : ∀ d ∈ s, IsNameChar d) : s.map nameChar = s :=
  (List.map_congr_left fun d hd => (h d hd).1).trans (List.map_id s)

/-- A written value is read back, and what follows it. -/
theorem valueText_escape (v t : List Char) :
    valueText ('\"' :: (escape v ++ '\"' :: t)) = (escape v, t) := by
  have hv : ∀ d ∈ escape v, decide (d ≠ '\"') = true := fun d hd => by
    simpa using (ne_of_mem_escape hd).2
  rw [valueText, List.dropWhile_cons_of_neg (by decide)]
  simp only
  rw [takeWhile_append_cons hv (by simp), dropWhile_append_cons hv (by simp), List.drop_one,
    List.tail_cons]

/-- A written attribute is read back, up to NUL in its value. -/
theorem attributeAt_printAttribute {r : List Char} (v : String) (hc : IsNameChar c)
    (hr : ∀ d ∈ r, IsNameChar d ∧ endsAttributeName d = false) (t : List Char) :
    attributeAt c (r ++ '=' :: '\"' :: (escape v.toList ++ '\"' :: t)) =
      ((String.ofList (c :: r), withoutNuls v), t) := by
  have hends : ∀ d ∈ r, (!endsAttributeName d) = true := fun d hd => by simp [(hr d hd).2]
  have hstop : (!endsAttributeName '=') = false := by decide
  rw [attributeAt, takeWhile_append_cons hends hstop, dropWhile_append_cons hends hstop,
    List.dropWhile_cons_of_neg (by decide), map_nameChar fun d hd => (hr d hd).1, hc.1]
  simp only
  rw [valueText_escape, map_withoutNul_escape, decode_escape, withoutNuls]

/-- A tag goes on with an attribute, unless its name may end there. -/
theorem tagRest_attribute {r : List Char} (hs : s.dropWhile isTagSpace = c :: r)
    (hc : endsTagName c = false) :
    tagRest s = (tagRest (attributeAt c r).2).map fun found =>
      ((attributeAt c r).1 :: found.1, found.2.1, found.2.2) := by
  rw [tagRest]
  split
  · next h => cases hs.symm.trans h
  · next h =>
    obtain ⟨rfl, -⟩ := List.cons.inj (hs.symm.trans h)
    exact absurd hc (by decide)
  · next h =>
    obtain ⟨rfl, -⟩ := List.cons.inj (hs.symm.trans h)
    exact absurd hc (by decide)
  · next h =>
    obtain ⟨rfl, -⟩ := List.cons.inj (hs.symm.trans h)
    exact absurd hc (by decide)
  · next h =>
    obtain ⟨rfl, rfl⟩ := List.cons.inj (hs.symm.trans h)
    cases tagRest (attributeAt c r).2 <;> rfl

/-- The attributes that are written are read back. -/
theorem tagRest_printAttributes (t : List Char) :
    ∀ as : List Attribute, (∀ a ∈ as, IsAttributeName a.1.toList) →
      tagRest (as.flatMap printAttribute ++ '>' :: t) =
        some (as.map fun a => (a.1, withoutNuls a.2), false, t)
  | [], _ => by
    rw [List.flatMap_nil, List.nil_append, tagRest]
    rfl
  | a :: as, h => by
    rw [List.forall_mem_cons] at h
    obtain ⟨c, r, hname, hc, hr⟩ := h.1
    have hspace : isTagSpace c = false := by
      have := hc.2
      simp only [endsTagName, Bool.or_eq_false_iff] at this
      exact this.1.1
    have hsplit : (a :: as).flatMap printAttribute ++ '>' :: t =
        ' ' :: c :: (r ++ '=' :: '\"' :: (escape a.2.toList ++
          '\"' :: (as.flatMap printAttribute ++ '>' :: t))) := by
      simp [printAttribute, hname]
    have hcut : ((a :: as).flatMap printAttribute ++ '>' :: t).dropWhile isTagSpace =
        c :: (r ++ '=' :: '\"' :: (escape a.2.toList ++
          '\"' :: (as.flatMap printAttribute ++ '>' :: t))) := by
      rw [hsplit, List.dropWhile_cons_of_pos (by decide),
        List.dropWhile_cons_of_neg (by simp [hspace])]
    rw [tagRest_attribute hcut hc.2, attributeAt_printAttribute a.2 hc.1 hr,
      tagRest_printAttributes t as h.2, ← hname, String.ofList_toList]
    rfl

/-- Names that increase are kept in their order. -/
theorem firstByName_of_increasing {as : List Attribute} (h : Increasing as) : firstByName as = as := by
  rw [firstByName, Named.sorted, List.foldl_reverse]
  induction as with
  | nil => rfl
  | cons a as ih =>
    obtain ⟨ha, has⟩ := List.pairwise_cons.1 h
    rw [List.foldr_cons, ih has]
    cases as with
    | nil => rfl
    | cons b as =>
      have hlt : a.1 < b.1 := ha b (List.mem_cons_self ..)
      rw [Named.put, if_neg (ne_of_lt hlt), if_pos hlt]

/-- What follows a tag name is read behind it. -/
theorem tag_append_cons (hs : ∀ d ∈ s, IsNameChar d ∧ endsTagName d = false)
    (hc : endsTagName c = true) (t : List Char) :
    tag (s ++ c :: t) = (tagRest (c :: t)).map fun found =>
      (⟨String.ofList s, firstByName found.1⟩, found.2.1, found.2.2) := by
  have hall : ∀ d ∈ s, (!endsTagName d) = true := fun d hd => by simp [(hs d hd).2]
  have hstop : (!endsTagName c) = false := by simp [hc]
  rw [tag, takeWhile_append_cons hall hstop, dropWhile_append_cons hall hstop,
    map_nameChar fun d hd => (hs d hd).1]

/-- Attributes stay by increasing name when their values change. -/
theorem increasing_map (f : String → String) {as : List Attribute} (h : Increasing as) :
    Increasing (as.map fun a => (a.1, f a.2)) :=
  List.pairwise_map.2 h

/-- **A written start tag is read back,** up to NUL in its values. -/
theorem tag_printStartTag (h : e.Writable) (t : List Char) :
    tag (e.tag.toList ++ (e.attributes.flatMap printAttribute ++ '>' :: t)) =
      some (e.mapValues withoutNuls, false, t) := by
  obtain ⟨c, r, hname, hc, hall⟩ := h.tag
  have hrest : ∃ d u, e.attributes.flatMap printAttribute ++ '>' :: t = d :: u ∧
      endsTagName d = true := by
    cases e.attributes with
    | nil => exact ⟨'>', t, rfl, by decide⟩
    | cons a as => exact ⟨' ', _, rfl, by decide⟩
  obtain ⟨d, u, hu, hd⟩ := hrest
  rw [hu, tag_append_cons hall hd, ← hu, tagRest_printAttributes t e.attributes h.names]
  simp only [Option.map_some]
  rw [firstByName_of_increasing (increasing_map _ h.increasing), String.ofList_toList]
  rfl

/-- An end tag is read as a tag without attributes. -/
theorem tag_printEndTag (h : e.Writable) (t : List Char) :
    tag (e.tag.toList ++ '>' :: t) = some (⟨e.tag, []⟩, false, t) := by
  obtain ⟨c, r, hname, hc, hall⟩ := h.tag
  have hclose : tagRest ('>' :: t) = some ([], false, t) := tagRest_printAttributes t [] nofun
  rw [tag_append_cons hall (by decide), hclose, Option.map_some, String.ofList_toList]
  rfl

/-! ## Comments -/

/-- What makes a hyphen in front of it the end of a comment. -/
def EndsComment (s : List Char) : Prop :=
  s = [] ∨ s = ['-'] ∨ s = ['-', '!'] ∨ ['-', '>'] <+: s ∨ ['-', '!', '>'] <+: s

/-- A comment goes on with a character that does not end it. -/
theorem comment_cons (h : c = '-' → ¬ EndsComment s) :
    comment (c :: s) = (withoutNul c :: (comment s).1, (comment s).2) := by
  rw [comment]
  · exact fun hc hs => h hc (.inl hs)
  · exact fun hc hs => h hc (.inr (.inl hs))
  · exact fun hc hs => h hc (.inr (.inr (.inl hs)))
  · rintro r hc rfl
    exact h hc (.inr (.inr (.inr (.inl ⟨r, rfl⟩))))
  · rintro r hc rfl
    exact h hc (.inr (.inr (.inr (.inr ⟨r, rfl⟩))))

/-- The written end of a comment makes no other end before it. -/
theorem not_endsComment_append (hend : ¬ ['-', '>'] <+: s) (hbang : ¬ ['-', '!', '>'] <+: s)
    (rest : List Char) : ¬ EndsComment (s ++ '-' :: '-' :: '>' :: rest) := by
  rintro (h | h | h | h | h)
  · simp at h
  · have := congrArg List.length h
    simp only [List.length_append, List.length_cons, List.length_nil] at this
    omega
  · have := congrArg List.length h
    simp only [List.length_append, List.length_cons, List.length_nil] at this
    omega
  · rcases s with _ | ⟨a, _ | ⟨b, s⟩⟩
    · simp [List.cons_prefix_cons] at h
    · simp [List.cons_prefix_cons] at h
    · exact hend (by simpa [List.cons_prefix_cons] using h)
  · rcases s with _ | ⟨a, _ | ⟨b, _ | ⟨d, s⟩⟩⟩
    · simp [List.cons_prefix_cons] at h
    · simp [List.cons_prefix_cons] at h
    · simp [List.cons_prefix_cons] at h
    · exact hbang (by simpa [List.cons_prefix_cons] using h)

/-- A comment is read up to its end if its data neither contains an end nor NUL. -/
theorem comment_append_end (hend : ¬ ['-', '-', '>'] <:+: s) (hbang : ¬ ['-', '-', '!', '>'] <:+: s)
    (hnul : '\x00' ∉ s) (rest : List Char) :
    comment (s ++ '-' :: '-' :: '>' :: rest) = (s, rest) := by
  induction s with
  | nil => rw [List.nil_append, comment]
  | cons c s ih =>
    rw [List.infix_cons_iff, not_or] at hend hbang
    rw [List.mem_cons, not_or] at hnul
    have hc : withoutNul c = c := if_neg (Ne.symm hnul.1)
    rw [List.cons_append, comment_cons, ih hend.2 hbang.2 hnul.2, hc]
    rintro rfl
    exact not_endsComment_append (fun h => hend.1 (List.cons_prefix_cons.2 ⟨rfl, h⟩))
      (fun h => hbang.1 (List.cons_prefix_cons.2 ⟨rfl, h⟩)) rest

/-- A comment that does not close at once is read as any other. -/
theorem commentStart_eq_comment (hclose : ¬ ['>'] <+: s) (hshort : ¬ ['-', '>'] <+: s) :
    commentStart s = comment s := by
  rw [commentStart]
  · rintro r rfl
    exact hclose ⟨r, rfl⟩
  · rintro r rfl
    exact hshort ⟨r, rfl⟩

/-- **A written comment is read back.** -/
theorem commentStart_append_end (h : IsCommentData s) (rest : List Char) :
    commentStart (s ++ '-' :: '-' :: '>' :: rest) = (s, rest) := by
  rw [commentStart_eq_comment, comment_append_end h.noEnd h.noBangEnd h.notMem_nul]
  · intro hp
    cases s with
    | nil => simp [List.cons_prefix_cons] at hp
    | cons a s => exact h.noClose (by simpa [List.cons_prefix_cons] using hp)
  · intro hp
    rcases s with _ | ⟨a, _ | ⟨b, s⟩⟩
    · simp [List.cons_prefix_cons] at hp
    · simp [List.cons_prefix_cons] at hp
    · exact h.noShortEnd (by simpa [List.cons_prefix_cons] using hp)

/-! ## Markup -/

/-- A letter begins neither a comment, nor an instruction, nor an end tag. -/
theorem ne_of_isAlpha (hc : c.isAlpha) : c ≠ '!' ∧ c ≠ '?' ∧ c ≠ '/' ∧ c ≠ '>' := by
  refine ⟨?_, ?_, ?_, ?_⟩ <;> rintro rfl <;> exact absurd hc (by decide)

/-- Markup that begins with a letter is a start tag. -/
theorem markup_letter {b : Bool} {r : List Char} (hc : c.isAlpha)
    (ht : tag (c :: r) = some (e, b, rest)) : markup (c :: r) = ([.startTag e b], rest) := by
  obtain ⟨hbang, hquestion, hslash, -⟩ := ne_of_isAlpha hc
  rw [markup, if_pos hc, ht]
  · exact fun _ h _ => hbang h
  · exact hbang
  · exact hquestion
  · exact fun _ h _ => hslash h
  · exact fun _ _ h _ => hslash h
  · exact fun h _ => hslash h

/-- Markup that begins with a slash and a letter is an end tag. -/
theorem markup_slash_letter {b : Bool} {r : List Char} (hc : c.isAlpha)
    (ht : tag (c :: r) = some (e, b, rest)) : markup ('/' :: c :: r) = ([.endTag e.tag], rest) := by
  rw [markup, if_pos hc, ht]
  exact (ne_of_isAlpha hc).2.2.2

/-- The tokens behind a `<` are those of the piece of markup and those of what follows it. -/
theorem tokensOf_markup (s : List Char) :
    tokensOf ('<' :: s) = (markup s).1 ++ tokensOf (markup s).2 := by
  rw [tokensOf]

/-- A printed start tag is read as one, with U+FFFD for NUL in its values. -/
theorem tokensOf_printStartTag (h : e.Writable) (t : List Char) :
    tokensOf (printStartTag e ++ t) = .startTag (e.mapValues withoutNuls) false :: tokensOf t := by
  have ht := tag_printStartTag h t
  obtain ⟨c, r, hname, hc, -⟩ := h.tag
  rw [hname, List.cons_append] at ht
  have hsplit : printStartTag e ++ t =
      '<' :: c :: (r ++ (e.attributes.flatMap printAttribute ++ '>' :: t)) := by
    simp [printStartTag, hname]
  rw [hsplit, tokensOf_markup, markup_letter hc ht, List.singleton_append]

/-- A printed end tag is read as one. -/
theorem tokensOf_printEndTag (h : e.Writable) (t : List Char) :
    tokensOf (printEndTag e ++ t) = .endTag e.tag :: tokensOf t := by
  have ht := tag_printEndTag h t
  obtain ⟨c, r, hname, hc, -⟩ := h.tag
  rw [hname, List.cons_append] at ht
  have hsplit : printEndTag e ++ t = '<' :: '/' :: c :: (r ++ '>' :: t) := by
    simp [printEndTag, hname]
  rw [hsplit, tokensOf_markup, markup_slash_letter hc ht, List.singleton_append]

/-- A printed comment is read as one. -/
theorem tokensOf_printComment {s : String} (h : IsCommentData s.toList) (t : List Char) :
    tokensOf ('<' :: '!' :: '-' :: '-' :: (s.toList ++ ['-', '-', '>']) ++ t) =
      .comment s :: tokensOf t := by
  have hsplit : '<' :: '!' :: '-' :: '-' :: (s.toList ++ ['-', '-', '>']) ++ t =
      '<' :: '!' :: '-' :: '-' :: (s.toList ++ '-' :: '-' :: '>' :: t) := by simp
  rw [hsplit, tokensOf_markup, markup, commentStart_append_end h t]
  simp only
  rw [String.ofList_toList, List.singleton_append]

/-- The characters of a text before markup are just those before the first `<`. -/
theorem takeWhile_of_opens (hs : ∀ d ∈ s, d ≠ '<') (ht : Opens t) :
    (s ++ t).takeWhile (· ≠ '<') = s ∧ (s ++ t).dropWhile (· ≠ '<') = t := by
  have hall : ∀ d ∈ s, decide (d ≠ '<') = true := fun d hd => by simpa using hs d hd
  cases t with
  | nil =>
    rw [List.takeWhile_append_of_pos hall, List.dropWhile_append_of_pos hall]
    exact ⟨List.append_nil s, rfl⟩
  | cons c t =>
    have hc : decide (c ≠ '<') = false := by simpa using ht c rfl
    exact ⟨takeWhile_append_cons hall hc t, dropWhile_append_cons hall hc t⟩

/-- **A written text is read back,** if it is not empty and what follows it is markup. -/
theorem tokensOf_escape {s : String} (hs : s ≠ "") (ht : Opens t) :
    tokensOf (escape s.toList ++ t) = .text s :: tokensOf t := by
  have hdecode : decode false (escape s.toList) = s.toList := decode_escape _
  have hne : ∀ d ∈ escape s.toList, d ≠ '<' := fun d hd => (ne_of_mem_escape hd).1
  cases he : escape s.toList with
  | nil =>
    rw [he, decode] at hdecode
    exact absurd (String.toList_eq_nil_iff.1 hdecode.symm) hs
  | cons c r =>
    rw [he] at hdecode hne
    rw [List.forall_mem_cons] at hne
    obtain ⟨htake, hdrop⟩ := takeWhile_of_opens hne.2 ht
    rw [List.cons_append, tokensOf, htake, hdrop, hdecode, String.ofList_toList]
    exact hne.1

namespace Document

/-! ## Documents -/

mutual

/-- The tokens of a document as it is written. -/
def tokensFor : Document → List Token
  | .node .fragment ds => tokensForAll ds
  | .node (.element e) ds =>
    if isVoid e.tag then [.startTag e false]
    else .startTag e false :: (tokensForAll ds ++ [.endTag e.tag])
  | .node (.text s) _ => [.text s]
  | .node (.comment s) _ => [.comment s]

/-- The tokens of documents as they are written. -/
def tokensForAll : List Document → List Token
  | [] => []
  | d :: ds => tokensFor d ++ tokensForAll ds

end

mutual

/-- A printed document is read as its tokens, with U+FFFD for NUL in its values. -/
theorem tokensOf_print : ∀ (d : Document) (rest : List Char), Merged d → Writable d →
    (d.IsText → Opens rest) →
      tokensOf (print d ++ rest) = tokensFor (map Node.withoutNul d) ++ tokensOf rest
  | .node .fragment ds, rest, _, hw, _ => hw.1.elim
  | .node (.element e) ds, rest, hm, hw, _ => by
    rw [map, Node.withoutNul, print, tokensFor]
    show tokensOf ((if isVoid e.tag then _ else _) ++ rest) =
      (if isVoid e.tag then _ else _) ++ tokensOf rest
    split
    · exact tokensOf_printStartTag hw.1 rest
    · rw [List.append_assoc, List.append_assoc, tokensOf_printStartTag hw.1,
        tokensOf_printAll ds _ hm.2 hw.2.2 (opens_printEndTag e rest),
        tokensOf_printEndTag hw.1, List.cons_append, List.append_assoc]
      rfl
  | .node (.text s) ds, rest, hm, _, hr => by
    rw [print]
    exact tokensOf_escape (fun hs => hm.1 (congrArg Node.text hs)) (hr rfl)
  | .node (.comment s) ds, rest, _, hw, _ => by
    rw [print]
    exact tokensOf_printComment hw.1 rest

/-- **The tokens of a written text** are those of its documents, up to NUL in values. -/
theorem tokensOf_printAll : ∀ (ds : List Document) (rest : List Char), MergedAll ds →
    WritableAll ds → Opens rest →
      tokensOf (printAll ds ++ rest) = tokensForAll (mapAll Node.withoutNul ds) ++ tokensOf rest
  | [], rest, _, _, _ => by rw [mapAll, printAll, tokensForAll, List.nil_append, List.nil_append]
  | d :: ds, rest, hm, hw, hr => by
    rw [mapAll, printAll, tokensForAll, List.append_assoc,
      tokensOf_print d _ hm.1 hw.1 fun ht => opens_printAll hw.2 (hm.2.1 ht) hr,
      tokensOf_printAll ds rest hm.2.2 hw.2 hr, List.append_assoc]

end

/-- **What is written has the tokens of its normal form.** -/
theorem tokensOf_normalizeNewlines_printAll (h : WritableAll ds) :
    tokensOf (normalizeNewlines (printAll ds)) = tokensForAll (normalForm ds) := by
  have hw := writableAll_mergedAll ds h
  have hlines : normalizeNewlines (printAll ds) =
      printAll (mapAll Node.lineFeeds (mergedAll ds)) := by
    rw [← printAll_mergedAll]
    simpa [normalizeNewlines] using
      normalizeNewlines_printAll (mergedAll ds) [] (mergedAll_mergedAll ds) hw opens_nil
  rw [hlines]
  simpa [tokensOf, normalForm] using tokensOf_printAll (mapAll Node.lineFeeds (mergedAll ds)) []
    (MergedAll.map Node.keepsTexts_lineFeeds _ (mergedAll_mergedAll ds))
    (writableAll_map Node.keepsWritable_lineFeeds _ hw) opens_nil

end Document
end Html
end PageBinding
