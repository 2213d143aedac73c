/-
# Documents that can be written

What can be read back once it is written (`Document.Writable`):

| part | condition |
| --- | --- |
| tag name | a letter, then characters that do not end a tag name |
| attribute name | a character that does not end a tag name, then ones that do not end an attribute name |
| both | no upper case letter, NUL or carriage return |
| attributes | by increasing name, so no name twice |
| comment | no NUL or carriage return, no `-->` or `--!>` inside and no `>` or `->` in front |
| void elements, texts and comments | nothing inside |
| fragments | none |

A text and a value may hold anything.
-/

import PageBinding.Proofs.Html.Normal

namespace PageBinding
namespace Html

/-- A character that a name keeps. -/
def IsNameChar (c : Char) : Prop := nameChar c = c ∧ c ≠ '\r'

/-- A tag name as it is written. -/
def IsTagName (s : List Char) : Prop :=
  ∃ c r, s = c :: r ∧ c.isAlpha ∧ ∀ d ∈ s, IsNameChar d ∧ endsTagName d = false

/-- An attribute name as it is written.  Its first character may be an equals sign. -/
def IsAttributeName (s : List Char) : Prop :=
  ∃ c r, s = c :: r ∧ (IsNameChar c ∧ endsTagName c = false) ∧
    ∀ d ∈ r, IsNameChar d ∧ endsAttributeName d = false

/-- Attributes by increasing name. -/
def Increasing (attributes : List Attribute) : Prop :=
  attributes.Pairwise fun a b => a.1 < b.1

/-- An element that can be written. -/
structure Element.Writable (e : Element) : Prop where
  tag : IsTagName e.tag.toList
  names : ∀ a ∈ e.attributes, IsAttributeName a.1.toList
  increasing : Increasing e.attributes

/-- The data of a comment as it is written: it neither is nor contains the end of
one. -/
structure IsCommentData (s : List Char) : Prop where
  notMem_return : '\r' ∉ s
  notMem_nul : '\x00' ∉ s
  noClose : ¬ ['>'] <+: s
  noShortEnd : ¬ ['-', '>'] <+: s
  noEnd : ¬ ['-', '-', '>'] <:+: s
  noBangEnd : ¬ ['-', '-', '!', '>'] <:+: s

namespace Node

/-- A content that can be written. -/
def Writable : Node → Prop
  | .fragment => False
  | .element e => e.Writable
  | .text _ => True
  | .comment s => IsCommentData s.toList

/-- A content that has nothing inside. -/
def IsLeaf : Node → Prop
  | .fragment => False
  | .element e => isVoid e.tag
  | .text _ => True
  | .comment _ => True

/-- A change of contents that keeps what can be written. -/
structure KeepsWritable (f : Node → Node) : Prop where
  writable : ∀ n, n.Writable → (f n).Writable
  isLeaf : ∀ n, (f n).IsLeaf ↔ n.IsLeaf

end Node

/-- Values may change as they like. -/
theorem Element.Writable.mapValues {e : Element} (h : e.Writable) (f : String → String) :
    (e.mapValues f).Writable where
  tag := h.tag
  names a ha := by
    obtain ⟨b, hb, rfl⟩ := List.mem_map.1 ha
    exact h.names b hb
  increasing := List.pairwise_map.2 h.increasing

/-- An element from which an attribute is removed can still be written. -/
theorem Element.Writable.remove {e : Element} (h : e.Writable) (name : String) :
    (e.remove name).Writable where
  tag := h.tag
  names a ha := h.names a (List.mem_of_mem_eraseP ha)
  increasing := h.increasing.sublist List.eraseP_sublist

namespace Node

/-- Turning line ends keeps what can be written. -/
theorem keepsWritable_lineFeeds : KeepsWritable lineFeeds where
  writable n hn := by
    cases n with
    | element e => exact hn.mapValues _
    | _ => exact hn
  isLeaf n := by cases n <;> rfl

/-- Replacing NUL keeps what can be written. -/
theorem keepsWritable_withoutNul : KeepsWritable withoutNul where
  writable n hn := by
    cases n with
    | element e => exact hn.mapValues _
    | _ => exact hn
  isLeaf n := by cases n <;> rfl

end Node

namespace Document

mutual

/-- A document that can be written. -/
def Writable : Document → Prop
  | .node n ds => n.Writable ∧ (n.IsLeaf → ds = []) ∧ WritableAll ds

/-- Documents that can be written. -/
def WritableAll : List Document → Prop
  | [] => True
  | d :: ds => Writable d ∧ WritableAll ds

end

variable {d : Document} {ds es : List Document} {f : Node → Node}

/-- Documents can be written if each of them can. -/
theorem writableAll_iff : WritableAll ds ↔ ∀ d ∈ ds, Writable d := by
  induction ds with
  | nil => simp [WritableAll]
  | cons d ds ih => rw [WritableAll, ih, List.forall_mem_cons]

/-- A document can be written if its content can, a leaf has nothing inside, and what is inside
can. -/
theorem writable_node {n : Node} :
    Writable (.node n ds) ↔ n.Writable ∧ (n.IsLeaf → ds = []) ∧ ∀ d ∈ ds, Writable d := by
  rw [Writable, writableAll_iff]

/-- Every text can be written. -/
theorem writable_text (s : String) : Writable (.node (.text s) []) :=
  ⟨trivial, fun _ => rfl, trivial⟩

/-- A change that keeps contents that can be written keeps documents that can. -/
theorem writableAll_map (hf : Node.KeepsWritable f) :
    ∀ ds : List Document, WritableAll ds → WritableAll (mapAll f ds)
  | [], _ => trivial
  | .node n below :: ds, ⟨⟨hn, hleaf, hb⟩, h⟩ =>
    ⟨⟨hf.writable n hn, fun hl => by rw [hleaf ((hf.isLeaf n).1 hl), mapAll],
      writableAll_map hf below hb⟩, writableAll_map hf ds h⟩

/-- Documents with a text joined in front can be written. -/
theorem WritableAll.textBefore (s : String) (h : WritableAll ds) : WritableAll (textBefore s ds) := by
  unfold Document.textBefore
  split
  · exact ⟨⟨trivial, h.1.2⟩, h.2⟩
  · split
    · exact h
    · exact ⟨writable_text s, h⟩

/-- Documents with one joined in front can be written. -/
theorem WritableAll.joined (hd : Writable d) (h : WritableAll ds) : WritableAll (joined d ds) := by
  unfold Document.joined
  split
  · exact h.textBefore _
  · exact ⟨hd, h⟩

/-- Documents in which texts are joined can be written. -/
theorem writableAll_mergedAll : ∀ ds : List Document, WritableAll ds → WritableAll (mergedAll ds)
  | [], _ => trivial
  | .node _ below :: ds, ⟨⟨hn, hleaf, hb⟩, h⟩ =>
    WritableAll.joined ⟨hn, fun hl => by rw [hleaf hl, mergedAll], writableAll_mergedAll below hb⟩
      (writableAll_mergedAll ds h)

/-- What is read back can be written again. -/
theorem WritableAll.normalForm (h : WritableAll ds) : WritableAll (normalForm ds) :=
  writableAll_map Node.keepsWritable_withoutNul _
    (writableAll_map Node.keepsWritable_lineFeeds _ (writableAll_mergedAll ds h))

end Document
end Html
end PageBinding
