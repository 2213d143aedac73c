/-
# Putting tokens together

The tokens that documents are written with build these documents again
(`documentsOf_tokensForAll`).  The step of this is said of a document in the making:
the tokens of a document put it behind what is innermost (`foldl_tokensFor`), since
what they open they close.  A text is not joined with what is there if that is none.

Tokens that can be written build documents that can be written
(`writable_documentsOf`), because everything in the making can be
(`Growing.Writable`).
-/

import PageBinding.Proofs.Html.Reading
import PageBinding.Tree.OfTokens

namespace PageBinding
namespace Tree

open Html (Document Element Token Node isVoid)
open Html.Document (tokensFor tokensForAll MergedAll Merged WritableAll IsText writableAll_iff)

variable {g : Growing} {d : Document} {ds : List Document}

namespace Growing

/-- What is innermost, the last first. -/
def inside : Growing → List Document
  | ⟨top, [], _⟩ => top
  | ⟨_, o :: _, _⟩ => o.inside

/-- A change of what is innermost gives that, changed. -/
theorem inside_change (f : List Document → List Document) (g : Growing) :
    (g.change f).inside = f g.inside := by
  obtain ⟨top, _ | ⟨o, outer⟩, notices⟩ := g <;> rfl

/-- Two changes in a row are one change. -/
theorem change_change (f h : List Document → List Document) (g : Growing) :
    (g.change f).change h = g.change fun ds => h (f ds) := by
  obtain ⟨top, _ | ⟨o, outer⟩, notices⟩ := g <;> rfl

/-- Only what is innermost counts. -/
theorem change_congr {f h : List Document → List Document} (heq : f g.inside = h g.inside) :
    g.change f = g.change h := by
  obtain ⟨top, _ | ⟨o, outer⟩, notices⟩ := g
  · exact congrArg (fun ds => Growing.mk ds [] notices) heq
  · exact congrArg (fun ds => Growing.mk top (⟨o.element, ds⟩ :: outer) notices) heq

/-- No text could be joined with the first of the documents. -/
def Apart (g : Growing) (ds : List Document) : Prop :=
  ∀ d ∈ ds.head?, d.IsText → ∀ e ∈ g.inside.head?, ¬ e.IsText

/-- Where nothing is innermost there is no text to join. -/
theorem apart_of_inside_eq_nil (h : g.inside = []) (ds : List Document) : g.Apart ds := by
  intro d _ _ e he
  rw [h] at he
  cases he

/-- A text is put behind what is no text. -/
theorem withText_of_not_isText {s : String} (h : ∀ e ∈ ds.head?, ¬ e.IsText) :
    withText s ds = .node (.text s) [] :: ds := by
  rw [withText]
  rintro t below r rfl
  exact h _ rfl rfl

/-- An end tag closes what is innermost, if that is of its name. -/
theorem add_endTag (top : List Document) (e : Element) (inside : List Document)
    (outer : List OpenElement) (notices : Array Notice) :
    add ⟨top, ⟨e, inside⟩ :: outer, notices⟩ (.endTag e.tag) =
      append ⟨top, outer, notices⟩ (.node (.element e) inside.reverse) := by
  rw [add, List.findIdx?_cons, if_pos (by simp)]
  rfl

end Growing

mutual

/-- The tokens of a document that is written add that document. -/
theorem foldl_tokensFor : ∀ (d : Document) (g : Growing), Merged d → Document.Writable d →
    g.Apart [d] → (tokensFor d).foldl Growing.add g = g.append d
  | .node .fragment ds, g, _, hw, _ => hw.1.elim
  | .node (.element e) ds, g, hm, hw, _ => by
    rw [tokensFor]
    split
    · next hvoid =>
      rw [hw.2.1 hvoid, List.foldl_cons, List.foldl_nil, Growing.add, hvoid, Bool.true_or, if_pos rfl]
    · next hvoid =>
      rw [List.foldl_cons, List.foldl_append, Growing.add, Bool.or_false, if_neg hvoid,
        foldl_tokensForAll ds _ hm.2 hw.2.2 (Growing.apart_of_inside_eq_nil rfl ds),
        List.foldl_cons, List.foldl_nil, Growing.change, Growing.add_endTag, List.append_nil, List.reverse_reverse]
  | .node (.text s) ds, g, _, hw, ha => by
    rw [tokensFor, List.foldl_cons, List.foldl_nil, Growing.add, Growing.append, hw.2.1 trivial]
    exact Growing.change_congr (Growing.withText_of_not_isText (ha _ rfl rfl))
  | .node (.comment s) ds, g, _, hw, _ => by
    rw [tokensFor, List.foldl_cons, List.foldl_nil, Growing.add, hw.2.1 trivial]

/-- **The tokens of documents put them behind what is innermost.** -/
theorem foldl_tokensForAll : ∀ (ds : List Document) (g : Growing), MergedAll ds →
    WritableAll ds → g.Apart ds →
      (tokensForAll ds).foldl Growing.add g = g.change (ds.reverse ++ ·)
  | [], g, _, _, _ => by
    rw [tokensForAll, List.foldl_nil]
    obtain ⟨top, _ | ⟨o, outer⟩, notices⟩ := g <;> rfl
  | d :: ds, g, hm, hw, ha => by
    have hnext : (g.append d).Apart ds := by
      intro e he het c hc hct
      rw [Growing.append, Growing.inside_change] at hc
      obtain rfl : d = c := Option.some.inj hc
      exact hm.2.1 hct e he het
    rw [tokensForAll, List.foldl_append,
      foldl_tokensFor d g hm.1 hw.1 fun e he => ha e he,
      foldl_tokensForAll ds _ hm.2.2 hw.2 hnext, Growing.append, Growing.change_change]
    refine Growing.change_congr ?_
    rw [List.reverse_cons, List.append_assoc, List.singleton_append]

end

/-- **Documents are built from the tokens they are written with,** and nothing is
reported. -/
theorem documentsOf_tokensForAll (hm : MergedAll ds) (hw : WritableAll ds) :
    documentsOf (tokensForAll ds) = (ds, #[]) := by
  rw [documentsOf, foldl_tokensForAll ds .start hm hw (Growing.apart_of_inside_eq_nil rfl ds),
    Growing.start, Growing.change, List.append_nil]
  exact congrArg (·, #[]) (List.reverse_reverse ds)

/-! ## What can be written -/

/-- An open element with what is in it can be written. -/
structure OpenElement.Writable (o : OpenElement) : Prop where
  element : o.element.Writable
  notVoid : ¬ isVoid o.element.tag
  inside : ∀ d ∈ o.inside, d.Writable

/-- All that is in the making can be written. -/
structure Growing.Writable (g : Growing) : Prop where
  top : ∀ d ∈ g.top, d.Writable
  openElements : ∀ o ∈ g.openElements, o.Writable

/-- An open element that can be written can be closed. -/
theorem OpenElement.Writable.closed {o : OpenElement} (h : o.Writable) : o.closed.Writable :=
  Html.Document.writable_node.2 ⟨h.element, fun hv => absurd hv h.notVoid,
    fun d hd => h.inside d (List.mem_reverse.1 hd)⟩

namespace Growing

/-- A change that keeps what can be written keeps all that is in the making so. -/
theorem Writable.change (h : g.Writable) {f : List Document → List Document}
    (hf : ∀ ds : List Document, (∀ d ∈ ds, d.Writable) → ∀ d ∈ f ds, d.Writable) :
    (g.change f).Writable := by
  obtain ⟨top, _ | ⟨o, outer⟩, notices⟩ := g
  · exact ⟨hf top h.top, h.openElements⟩
  · obtain ⟨ho, houter⟩ := List.forall_mem_cons.1 h.openElements
    exact ⟨h.top, List.forall_mem_cons.2 ⟨⟨ho.element, ho.notVoid, hf _ ho.inside⟩, houter⟩⟩

/-- All can still be written once a document is added that can. -/
theorem Writable.append (h : g.Writable) (hd : d.Writable) : (g.append d).Writable :=
  h.change fun _ hds => List.forall_mem_cons.2 ⟨hd, hds⟩

/-- All can still be written once elements are closed. -/
theorem Writable.close (n : Nat) (h : g.Writable) : (g.close n).Writable := by
  induction n generalizing g with
  | zero => exact h
  | succ n ih =>
    obtain ⟨top, _ | ⟨o, outer⟩, notices⟩ := g
    · exact h
    · obtain ⟨ho, houter⟩ := List.forall_mem_cons.1 h.openElements
      exact ih (Writable.append ⟨h.top, houter⟩ ho.closed)

/-- Documents with a text put behind can be written. -/
theorem writable_withText (s : String) (ds : List Document) (h : ∀ d ∈ ds, d.Writable) :
    ∀ d ∈ withText s ds, d.Writable := by
  unfold withText
  split
  · rw [List.forall_mem_cons] at h ⊢
    exact ⟨h.1, h.2⟩
  · exact List.forall_mem_cons.2 ⟨Html.Document.writable_text s, h⟩

/-- All can still be written after a token that can. -/
theorem Writable.add (h : g.Writable) {k : Token} (hk : k.Writable) : (g.add k).Writable := by
  cases k with
  | startTag e selfClosing =>
    rw [Growing.add]
    split
    · exact h.append ⟨hk, fun _ => rfl, trivial⟩
    · next hvoid =>
      refine ⟨h.top, List.forall_mem_cons.2 ⟨⟨hk, fun hv => hvoid ?_, nofun⟩, h.openElements⟩⟩
      rw [hv, Bool.true_or]
  | endTag tag =>
    rw [Growing.add]
    split
    · exact h.close _
    · split
      · exact h
      · exact ⟨h.top, h.openElements⟩
  | text s => exact h.change (writable_withText s)
  | comment s => exact h.append ⟨hk, fun _ => rfl, trivial⟩
  | doctype => exact h
  | mistake words => exact ⟨h.top, h.openElements⟩

/-- All can still be written after tokens that can. -/
theorem Writable.foldl_add (ks : List Token) (hk : ∀ k ∈ ks, k.Writable) (h : g.Writable) :
    (ks.foldl Growing.add g).Writable := by
  induction ks generalizing g with
  | nil => exact h
  | cons k ks ih =>
    rw [List.forall_mem_cons] at hk
    exact ih hk.2 (h.add hk.1)

end Growing

/-- **Tokens that can be written build documents that can.** -/
theorem writable_documentsOf {ks : List Token} (hk : ∀ k ∈ ks, k.Writable) :
    WritableAll (documentsOf ks).1 := by
  have hstart : Growing.start.Writable := ⟨nofun, nofun⟩
  have h := (hstart.foldl_add ks hk).close (ks.foldl Growing.add .start).openElements.length
  exact writableAll_iff.2 fun d hd => h.top d (List.mem_reverse.1 hd)

end Tree
end PageBinding
