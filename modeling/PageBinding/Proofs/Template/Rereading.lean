/-
# What is rendered reads back

The documents that a template stands for can be written if the template's own can
(`writable_of_mem_meaning`): data changes texts and values only, and those may hold
anything.  What is read from a text can be written, and what is written is read back
in its normal form, so the tree that is read from a rendered page's text is the
rendered one (`rendered_reads_back`).
-/

import PageBinding.Proofs.Template.Binding
import PageBinding.Proofs.Tree.Building
import PageBinding.Tree.Reading

namespace PageBinding

open Html (Node Element Document)
open Html.Document (WritableAll weight normalForm writable_node writableAll_iff)
open Json (Value)

namespace Html

/-- Names that increase differ. -/
theorem Node.Writable.distinct {n : Node} (h : n.Writable) : Template.Distinct n := by
  cases n with
  | element e => exact List.pairwise_map.2 (h.increasing.imp fun hlt => ne_of_lt hlt)
  | _ => exact List.nodup_nil

/-- In a document that can be written, no name of an attribute occurs twice. -/
theorem Document.Writable.every_distinct {d : Document} (h : d.Writable) :
    d.Every Template.Distinct := by
  induction d using Document.induction_up with
  | step n ds ih =>
    obtain ⟨hn, -, hds⟩ := writable_node.1 h
    exact every_node.2 ⟨hn.distinct, fun d hd => ih d hd (hds d hd)⟩

end Html

namespace Template

variable {m : Markers} {context : Value} {n : Node} {d b : Document}

/-! ## Meanings -/

/-- Filling keeps contents that can be written. -/
theorem keepsWritable_fillContent (context : Value) : Node.KeepsWritable (fillContent context) where
  writable n hn := by
    cases n with
    | element e => exact hn.mapValues _
    | _ => exact hn
  isLeaf n := by cases n <;> rfl

/-- Removing what marks a repetition keeps contents that can be written. -/
theorem keepsWritable_singleContent (m : Markers) : Node.KeepsWritable (singleContent m) where
  writable n hn := by
    cases n with
    | element e => exact (hn.remove m.each).remove m.condition
    | _ => exact hn
  isLeaf n := by cases n <;> rfl

/-- Checking a condition keeps contents that can be written. -/
theorem keepsWritable_checkContent (m : Markers) (context : Value) :
    Node.KeepsWritable fun n => (checkContent m context n).1 where
  writable n hn := by
    cases n with
    | element e =>
      rw [checkContent]
      split
      · exact hn
      · exact Element.Writable.remove hn _
    | _ => exact hn
  isLeaf n := by
    cases n with
    | element e =>
      rw [checkContent]
      split <;> rfl
    | _ => rfl

/-- **What stands for a document that can be written can be written.**  The induction
is on the weight, as the copies of an element are no part of it. -/
theorem writable_of_mem_meaning (hd : d.Writable) (hb : b ∈ meaning m context d) : b.Writable := by
  induction hk : weight d using Nat.strong_induction_on generalizing d b context with
  | _ k ih =>
    subst hk
    obtain ⟨n, ds⟩ := d
    obtain ⟨hn, hleaf, hds⟩ := writable_node.1 hd
    cases hrep : repetition? m n with
    | some path =>
      have hsingle : Document.Writable (.node (singleContent m n) ds) :=
        writable_node.2 ⟨(keepsWritable_singleContent m).writable n hn,
          fun hl => hleaf (((keepsWritable_singleContent m).isLeaf n).1 hl), hds⟩
      rw [meaning_repeated hrep] at hb
      split at hb
      · obtain ⟨item, -, hb⟩ := List.mem_flatMap.1 hb
        exact ih _ (weight_singleContent_lt hrep) hsingle hb rfl
      · cases hb
    | none =>
      rw [meaning_single hrep] at hb
      split at hb
      · obtain rfl := List.mem_singleton.1 hb
        have hf := keepsWritable_fillContent context
        have hc := keepsWritable_checkContent m context
        refine writable_node.2 ⟨hc.writable _ (hf.writable n hn), fun hl => ?_, fun c hc => ?_⟩
        · rw [hleaf ((hf.isLeaf n).1 ((hc.isLeaf _).1 hl)), List.flatMap_nil]
        · obtain ⟨d, hd, hc⟩ := List.mem_flatMap.1 hc
          have hlt : weight d < weight (.node n ds) := by
            have := Document.weight_le_of_mem hd
            rw [weight]
            omega
          exact ih _ hlt (hds d hd) hc rfl
      · cases hb

/-! ## Rendered texts -/

/-- Reading the text of documents gives their normal form, and nothing to report. -/
theorem ofHtml_printAll {ds : List Document} (h : WritableAll ds) (printed : String)
    (hp : printed.toList = Document.printAll ds) :
    Tree.ofHtml printed = (Tree.ofDocuments (normalForm ds), #[]) := by
  rw [Tree.ofHtml, Tree.ofTokens, Html.tokens, hp,
    Document.tokensOf_normalizeNewlines_printAll h,
    Tree.documentsOf_tokensForAll (Document.mergedAll_normalForm ds) h.normalForm]

/-- A tree of documents shows them. -/
theorem read_ofDocuments (ds : List Document) :
    (Tree.ofDocuments ds).read Tree.root = .ok (.node .fragment ds) := by
  have h := (Tree.ofDocuments_holds ds).read (Tree.ofDocuments_wellFormed ds)
  rwa [Numbered.top_numberFrom, Numbered.document_numberFrom] at h

/-- **Documents are rendered to what they mean.** -/
theorem render_ofDocuments_meaning {ds : List Document} (hd : Document.EveryAll Distinct ds)
    (context : Value) (m : Markers) :
    ∃ out notices, render (Tree.ofDocuments ds) context m = .ok (out, notices) ∧
      out.read Tree.root = .ok (.node .fragment (ds.flatMap (meaning m context))) := by
  obtain ⟨a, ha, htop, hn, hinside⟩ : ∃ a, (Tree.ofDocuments ds).Holds a ∧ a.top = Tree.root ∧
      a.content = .fragment ∧ a.inside.map Numbered.document = ds := by
    refine ⟨_, Tree.ofDocuments_holds ds, Numbered.top_numberFrom .., ?_, ?_⟩
    · rw [Numbered.numberFrom, Numbered.content]
    · rw [Numbered.numberFrom, Numbered.inside, ← Numbered.documents_eq_map,
        Numbered.documents_numberAllFrom]
  have hd : a.document.Every Distinct := by
    rw [Numbered.document_eq, hn, hinside]
    exact ⟨List.nodup_nil, hd⟩
  obtain ⟨out, notices, b, hout, hwo, hb, hbt, hbd⟩ :=
    bindAt_fragment (Tree.ofDocuments_wellFormed ds) ha hn hd context m
  rw [htop] at hout hbt
  rw [hinside] at hbd
  exact ⟨out, notices, hout, by rw [← hbt, hb.read hwo, hbd]⟩

/-- **Documents that can be written are rendered as such.** -/
theorem render_ofDocuments {ds : List Document} (h : WritableAll ds) (context : Value)
    (m : Markers) :
    ∃ out notices outs, render (Tree.ofDocuments ds) context m = .ok (out, notices) ∧
      out.read Tree.root = .ok (.node .fragment outs) ∧ WritableAll outs := by
  have hd : Document.EveryAll Distinct ds :=
    Document.everyAll_iff.2 fun d hd => (writableAll_iff.1 h d hd).every_distinct
  obtain ⟨out, notices, hout, hread⟩ := render_ofDocuments_meaning hd context m
  refine ⟨out, notices, _, hout, hread, writableAll_iff.2 fun b hb => ?_⟩
  obtain ⟨d, hd, hb⟩ := List.mem_flatMap.1 hb
  exact writable_of_mem_meaning (writableAll_iff.1 h d hd) hb

/-- **What is rendered reads back.**  A text is read and rendered whatever the text, the
data and the markers; the tree that is rendered has a text; and reading this text gives
the normal form of what the tree holds, with nothing to report. -/
theorem rendered_reads_back (text : String) (context : Value) (m : Markers) :
    ∃ out notices ds printed,
      render (Tree.ofHtml text).1 context m = .ok (out, notices) ∧
      out.read Tree.root = .ok (.node .fragment ds) ∧
      out.html = .ok printed ∧
      (Tree.ofHtml printed).1.read Tree.root = .ok (.node .fragment (normalForm ds)) ∧
      (Tree.ofHtml printed).2 = #[] := by
  have hread : WritableAll (Tree.documentsOf (Html.tokens text)).1 :=
    Tree.writable_documentsOf (Html.writable_of_mem_tokens text)
  obtain ⟨out, notices, ds, hout, hdocs, hwritable⟩ := render_ofDocuments hread context m
  have hprint : (Document.node .fragment ds).render.toList = Document.printAll ds := by
    rw [Document.toList_render, Document.print]
  have hback := ofHtml_printAll hwritable _ hprint
  refine ⟨out, notices, ds, (Document.node .fragment ds).render, hout, hdocs, ?_, ?_, ?_⟩
  · rw [Tree.html, Tree.htmlAt, hdocs]
    rfl
  · rw [hback, read_ofDocuments]
  · rw [hback]

end Template
end PageBinding
