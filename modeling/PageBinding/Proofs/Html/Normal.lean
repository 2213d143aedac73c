/-
# Documents as they are read back

A text does not say where one of two adjacent text nodes ends, which of the three
line ends was meant, or that a value held NUL.  What is read back is the normal form
of what was written:

1. adjacent texts are one, and there are no empty ones (`mergedAll`),
2. line ends in texts and values are line feeds (`Node.lineFeeds`),
3. NUL in values is U+FFFD (`Node.withoutNul`).

The elements with their names, the comments and what is inside what stay as they are.
Joining texts does not change what is written (`printAll_mergedAll`), and the other two
steps keep texts joined (`MergedAll.map`).
-/

import PageBinding.Proofs.Html.Escaping
import PageBinding.Proofs.Html.Every

namespace PageBinding
namespace Html

/-- A text with its line ends turned. -/
def lineFeeds (s : String) : String := String.ofList (normalizeNewlines s.toList)

/-- A text with U+FFFD for NUL. -/
def withoutNuls (s : String) : String := String.ofList (s.toList.map withoutNul)

/-- An element with each of its values changed. -/
def Element.mapValues (f : String → String) (e : Element) : Element :=
  { e with attributes := e.attributes.map fun a => (a.1, f a.2) }

namespace Node

/-- A content with the line ends turned. -/
def lineFeeds : Node → Node
  | .element e => .element (e.mapValues Html.lineFeeds)
  | .text s => .text (Html.lineFeeds s)
  | n => n

/-- A content with U+FFFD for NUL in its values. -/
def withoutNul : Node → Node
  | .element e => .element (e.mapValues withoutNuls)
  | n => n

/-- A change of contents that makes no texts and empties none. -/
structure KeepsTexts (f : Node → Node) : Prop where
  isSome : ∀ n, (f n).text?.isSome = n.text?.isSome
  ne_empty : ∀ n, n ≠ .text "" → f n ≠ .text ""

/-- Turning line ends makes no text and empties none. -/
theorem keepsTexts_lineFeeds : KeepsTexts lineFeeds where
  isSome n := by cases n <;> rfl
  ne_empty n hn := by
    cases n with
    | text s =>
      intro h
      have he : normalizeNewlines s.toList = [] := by
        rw [← String.toList_ofList (l := normalizeNewlines s.toList), ← Html.lineFeeds,
          Node.text.inj h]
        rfl
      refine normalizeNewlines_ne_nil (fun hs => hn ?_) he
      rw [String.toList_eq_nil_iff.1 hs]
    | _ => nofun

/-- Replacing NUL makes no text and empties none. -/
theorem keepsTexts_withoutNul : KeepsTexts withoutNul where
  isSome n := by cases n <;> rfl
  ne_empty n hn := by
    cases n with
    | text s => exact hn
    | _ => nofun

end Node

namespace Document

/-- Whether the top node is a text. -/
def IsText (d : Document) : Prop := d.content.text?.isSome

/-! ## Changing contents -/

mutual

/-- A document with each content changed. -/
def map (f : Node → Node) : Document → Document
  | .node n ds => .node (f n) (mapAll f ds)

/-- Documents with each content changed. -/
def mapAll (f : Node → Node) : List Document → List Document
  | [] => []
  | d :: ds => map f d :: mapAll f ds

end

/-! ## Joining texts -/

/-- A text in front of documents, joined with the text behind it. -/
def textBefore (s : String) : List Document → List Document
  | .node (.text t) ds :: r => .node (.text (s ++ t)) ds :: r
  | ds => if s = "" then ds else .node (.text s) [] :: ds

/-- A document in front of documents, joined with what is behind it if both are texts. -/
def joined : Document → List Document → List Document
  | .node (.text s) _, ds => textBefore s ds
  | d, ds => d :: ds

mutual

/-- A document in which adjacent texts are joined. -/
def merged : Document → Document
  | .node n ds => .node n (mergedAll ds)

/-- Documents in which adjacent texts are joined. -/
def mergedAll : List Document → List Document
  | [] => []
  | d :: ds => joined (merged d) (mergedAll ds)

end

/-- **The documents that are read back.** -/
def normalForm (ds : List Document) : List Document :=
  mapAll Node.withoutNul (mapAll Node.lineFeeds (mergedAll ds))

/-- A text joined in front is printed in front. -/
theorem printAll_textBefore (s : String) (ds : List Document) :
    printAll (textBefore s ds) = escape s.toList ++ printAll ds := by
  unfold textBefore
  split
  · rw [printAll, print, printAll, print, String.toList_append, escape_append, List.append_assoc]
  · split
    · next hs => rw [hs]; rfl
    · rw [printAll, print]

/-- Joining a document with what is behind it does not change what is printed. -/
theorem printAll_joined (d : Document) (ds : List Document) :
    printAll (joined d ds) = print d ++ printAll ds := by
  unfold joined
  split
  · rw [printAll_textBefore, print]
  · rw [printAll]

mutual

/-- Joining texts inside a document does not change what is printed. -/
theorem print_merged : ∀ d : Document, print (merged d) = print d
  | .node .fragment ds => by rw [merged, print, print, printAll_mergedAll ds]
  | .node (.element e) ds => by rw [merged, print, print, printAll_mergedAll ds]
  | .node (.text s) ds => by rw [merged, print, print]
  | .node (.comment s) ds => by rw [merged, print, print]

/-- **Joining texts does not change what is written.** -/
theorem printAll_mergedAll : ∀ ds : List Document, printAll (mergedAll ds) = printAll ds
  | [] => by rw [mergedAll]
  | d :: ds => by rw [mergedAll, printAll_joined, printAll, print_merged d, printAll_mergedAll ds]

end

/-! ## Joined texts -/

mutual

/-- There are no empty and no adjacent texts in a document. -/
def Merged : Document → Prop
  | .node n ds => n ≠ .text "" ∧ MergedAll ds

/-- There are no empty and no adjacent texts in documents. -/
def MergedAll : List Document → Prop
  | [] => True
  | d :: ds => Merged d ∧ (d.IsText → ∀ e ∈ ds.head?, ¬ e.IsText) ∧ MergedAll ds

end

variable {d : Document} {ds : List Document} {f : Node → Node}

/-- A text joined in front leaves no two texts side by side. -/
theorem MergedAll.textBefore {s : String} (h : MergedAll ds) : MergedAll (textBefore s ds) := by
  unfold Document.textBefore
  split
  · next t below r =>
    obtain ⟨⟨ht, hb⟩, hr, h⟩ := h
    refine ⟨⟨fun he => ht ?_, hb⟩, hr, h⟩
    have hst : s ++ t = "" := Node.text.inj he
    rw [(String.append_eq_empty_iff.1 hst).2]
  · next hds =>
    split
    · exact h
    · next hs =>
      refine ⟨⟨fun he => hs (Node.text.inj he), trivial⟩, fun _ e he het => ?_, h⟩
      obtain ⟨n, below⟩ := e
      cases n with
      | text t =>
        obtain ⟨r, rfl⟩ := List.head?_eq_some_iff.1 he
        exact hds t below r rfl
      | _ => cases het

/-- A document joined in front leaves no two texts side by side. -/
theorem MergedAll.joined (hd : d.IsText ∨ Merged d) (h : MergedAll ds) : MergedAll (joined d ds) := by
  obtain ⟨n, below⟩ := d
  cases n with
  | text s => exact h.textBefore
  | _ => exact ⟨hd.resolve_left nofun, nofun, h⟩

mutual

/-- A document in which texts are joined is a text, or has no two side by side in it. -/
theorem isText_or_merged_merged : ∀ d : Document, (merged d).IsText ∨ Merged (merged d)
  | .node (.text _) _ => .inl rfl
  | .node .fragment ds => .inr ⟨nofun, mergedAll_mergedAll ds⟩
  | .node (.element _) ds => .inr ⟨nofun, mergedAll_mergedAll ds⟩
  | .node (.comment _) ds => .inr ⟨nofun, mergedAll_mergedAll ds⟩

/-- **There are no empty and no adjacent texts any more.** -/
theorem mergedAll_mergedAll : ∀ ds : List Document, MergedAll (mergedAll ds)
  | [] => trivial
  | d :: ds => MergedAll.joined (isText_or_merged_merged d) (mergedAll_mergedAll ds)

end

/-- A change that keeps texts makes a text of texts only. -/
theorem isText_map (hf : Node.KeepsTexts f) (d : Document) : (map f d).IsText ↔ d.IsText := by
  cases d with
  | node n ds => rw [IsText, IsText, map, content, content, hf.isSome]

mutual

/-- A change that keeps texts puts no two of them side by side. -/
theorem Merged.map (hf : Node.KeepsTexts f) : ∀ d : Document, Merged d → Merged (map f d)
  | .node n ds, h => ⟨hf.ne_empty n h.1, MergedAll.map hf ds h.2⟩

/-- Joined texts stay joined. -/
theorem MergedAll.map (hf : Node.KeepsTexts f) :
    ∀ ds : List Document, MergedAll ds → MergedAll (mapAll f ds)
  | [], _ => trivial
  | d :: ds, h => by
    refine ⟨Merged.map hf d h.1, fun hd e he => ?_, MergedAll.map hf ds h.2.2⟩
    cases ds with
    | nil => cases he
    | cons c ds =>
      obtain rfl : Document.map f c = e := Option.some.inj he
      rw [isText_map hf]
      exact h.2.1 ((isText_map hf d).1 hd) c rfl

end

/-- What is read back has no empty and no adjacent texts. -/
theorem mergedAll_normalForm (ds : List Document) : MergedAll (normalForm ds) :=
  MergedAll.map Node.keepsTexts_withoutNul _
    (MergedAll.map Node.keepsTexts_lineFeeds _ (mergedAll_mergedAll ds))

example : normalForm [.node (.text "a\r") [], .node (.text "") [], .node (.text "\nb") []] =
    [.node (.text "a\nb") []] := by
  decide +kernel

end Document
end Html
end PageBinding
