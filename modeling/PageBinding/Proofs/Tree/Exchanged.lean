/-
# Others in the place of a node

What a tree reads once a node is replaced is what it read before with other documents in
the place of that node (`Numbered.exchanged`, `Replaced.read_exchanged`).

Written out, these stand between the text before the node and the text behind it, which
are the same whatever the documents are (`print_exchanged`), if everything above the node
is written with what is inside it: a void element, a text and a comment are not.
-/

import PageBinding.Proofs.Html.Writable
import PageBinding.Proofs.Tree.Replacing

namespace PageBinding

open Html (Node Document)
open Html.Document (print printAll)

/-- What is inside a node that has something inside stands between two texts. -/
theorem Html.Node.print_node {n : Node} (h : ¬ n.IsLeaf) :
    ∃ before behind, ∀ ds, print (.node n ds) = before ++ (printAll ds ++ behind) := by
  cases n with
  | fragment => exact ⟨[], [], fun ds => by rw [print, List.nil_append, List.append_nil]⟩
  | element e =>
    have hv : ¬ Html.isVoid e.tag = true := h
    exact ⟨Html.printStartTag e, Html.printEndTag e, fun ds => by rw [print, if_neg hv]⟩
  | text _ => exact absurd trivial h
  | comment _ => exact absurd trivial h

/-- Documents in a row are printed one after the other. -/
theorem Html.Document.printAll_append (ds es : List Document) :
    printAll (ds ++ es) = printAll ds ++ printAll es := by
  induction ds with
  | nil => rfl
  | cons d ds ih => rw [List.cons_append, printAll, printAll, ih, List.append_assoc]

/-- A single document is printed as itself. -/
theorem Html.Document.printAll_singleton (d : Document) : printAll [d] = print d := by
  rw [printAll, printAll, List.append_nil]

namespace Numbered

mutual

/-- What a numbered document reads with other documents in the place of a node. -/
def exchanged (x : NodeId) (ds : List Document) : Numbered → List Document
  | .node id n bs => if id = x then ds else [.node n (exchangedAll x ds bs)]

/-- What some numbered documents read with other documents in the place of a node. -/
def exchangedAll (x : NodeId) (ds : List Document) : List Numbered → List Document
  | [] => []
  | b :: bs => exchanged x ds b ++ exchangedAll x ds bs

end

variable {x : NodeId} {ds : List Document} {as bs : List Numbered} {a b : Numbered}

/-- The exchange in documents in a row is one in both. -/
theorem exchangedAll_append (x : NodeId) (ds : List Document) (as bs : List Numbered) :
    exchangedAll x ds (as ++ bs) = exchangedAll x ds as ++ exchangedAll x ds bs := by
  induction as with
  | nil => rfl
  | cons a as ih => rw [List.cons_append, exchangedAll, exchangedAll, ih, List.append_assoc]

/-- In the place of the top there are the others. -/
theorem exchanged_top (a : Numbered) (ds : List Document) : exchanged a.top ds a = ds := by
  obtain ⟨id, n, bs⟩ := a
  rw [exchanged, top, if_pos rfl]

/-- A document keeps its top if that is another node, and what is inside is exchanged. -/
theorem exchanged_of_ne (h : a.top ≠ x) :
    exchanged x ds a = [.node a.content (exchangedAll x ds a.inside)] := by
  obtain ⟨id, n, bs⟩ := a
  exact if_neg h

/-- Documents in which nothing is exchanged are as they were. -/
theorem exchangedAll_of_forall (h : ∀ b ∈ bs, exchanged x ds b = [b.document]) :
    exchangedAll x ds bs = documents bs := by
  induction bs with
  | nil => rfl
  | cons b bs ih =>
    obtain ⟨hb, hbs⟩ := List.forall_mem_cons.1 h
    rw [exchangedAll, documents, hb, ih hbs, List.singleton_append]

/-- Where the node is not, nothing is exchanged. -/
theorem exchanged_of_notMem (h : x ∉ a.ids) : exchanged x ds a = [a.document] := by
  induction a using Numbered.induction_up with
  | step id n bs ih =>
    have hne : (Numbered.node id n bs).top ≠ x := fun he => h (he ▸ top_mem_ids _)
    have hbs := exchangedAll_of_forall fun b hb => ih b hb fun hx =>
      h (mem_ids.2 (.inr ⟨b, hb, hx⟩))
    rw [exchanged_of_ne hne, document_eq, ← documents_eq_map]
    exact congrArg (fun ds => [Document.node n ds]) hbs

end Numbered

namespace Tree

open Numbered (documents exchanged exchangedAll)

variable {t u : Tree} {a b : Numbered} {outs : List Numbered} {x : NodeId}

/-- A node in its own place. -/
theorem Holds.exchanged_self (ha : t.Holds a) (hb : t.Holds b) :
    exchanged b.top [b.document] a = [a.document] := by
  induction a using Numbered.induction_up with
  | step id n bs ih =>
    by_cases hid : (Numbered.node id n bs).top = b.top
    · obtain rfl := ha.unique hb hid
      rw [Numbered.exchanged_top]
    · have hbs := Numbered.exchangedAll_of_forall fun c hc => ih c hc (ha.of_mem hc)
      rw [Numbered.exchanged_of_ne hid, Numbered.document_eq (.node id n bs),
        ← Numbered.documents_eq_map]
      exact congrArg (fun ds => [Document.node n ds]) hbs

/-! ## Reading -/

/-- Those inside a node are held once another one is replaced, if each of them is. -/
theorem holdsAll_exchanged {as : List Numbered} (h : ∀ a ∈ as, ∃ cs, cs.map Numbered.top =
      exchange x (outs.map Numbered.top) [a.top] ∧
      documents cs = exchanged x (documents outs) a ∧ ∀ c ∈ cs, u.Holds c) :
    ∃ cs, cs.map Numbered.top = exchange x (outs.map Numbered.top) (as.map Numbered.top) ∧
      documents cs = exchangedAll x (documents outs) as ∧ ∀ c ∈ cs, u.Holds c := by
  induction as with
  | nil => exact ⟨[], rfl, rfl, nofun⟩
  | cons a as ih =>
    obtain ⟨ha, has⟩ := List.forall_mem_cons.1 h
    obtain ⟨cs, htop, hdoc, hh⟩ := ha
    obtain ⟨es, htops, hdocs, hhs⟩ := ih has
    refine ⟨cs ++ es, ?_, ?_, List.forall_mem_append.2 ⟨hh, hhs⟩⟩
    · rw [List.map_append, htop, htops, ← exchange_append]
      rfl
    · rw [Numbered.documents_eq_map, List.map_append, ← Numbered.documents_eq_map,
        ← Numbered.documents_eq_map, hdoc, hdocs, exchangedAll]

/-- **Replacing a node exchanges what is read in its place,** in everything that is held and
not strictly inside the node. -/
theorem Replaced.holds_exchanged (h : Replaced t u b outs) (hw : t.WellFormed) (hb : t.Holds b)
    (ha : t.Holds a) (hout : a.top = b.top ∨ a.top ∉ b.ids) :
    ∃ cs, cs.map Numbered.top = exchange b.top (outs.map Numbered.top) [a.top] ∧
      documents cs = exchanged b.top (documents outs) a ∧ ∀ c ∈ cs, u.Holds c := by
  induction a using Numbered.induction_up with
  | step id n bs ih =>
    by_cases hid : (Numbered.node id n bs).top = b.top
    · refine ⟨outs, ?_, ?_, h.holds⟩
      · rw [hid, exchange, List.flatMap_singleton, if_pos rfl]
      · rw [← hid, Numbered.exchanged_top]
    · have hid' := hout.resolve_left hid
      have hbs : ∀ c ∈ bs, c.top = b.top ∨ c.top ∉ b.ids := by
        intro c hc
        by_contra hcon
        obtain ⟨hne, hmem⟩ := not_or.1 hcon
        -- The parent of a node strictly inside another one is inside that too.
        have hp : t.parentOf c.top = some id := (hw.linked _ _).1 (ha.mem_children hc)
        refine hid' ((hb.mem_ids hw).2 ?_)
        rcases (hb.mem_ids hw).1 (not_not.1 hmem) with he | habove
        · exact absurd he hne
        · exact habove.within_parent hp
      obtain ⟨cs, htops, hdocs, hhs⟩ := holdsAll_exchanged fun c hc =>
        ih c hc (ha.of_mem hc) (hbs c hc)
      refine ⟨[.node id n cs], ?_, ?_, List.forall_mem_singleton.2 (holds_iff.2 ⟨?_, ?_, hhs⟩)⟩
      · rw [exchange, List.flatMap_singleton, if_neg hid]
        rfl
      · rw [Numbered.exchanged_of_ne hid, documents, documents, Numbered.document, hdocs]
        rfl
      · exact (h.content _ ha.has_top hid').trans ha.content
      · rw [Numbered.inside, htops]
        exact (h.children _ ha.has_top hid').trans (congrArg _ ha.children)

/-- **What a tree reads once a node below its root is replaced.** -/
theorem Replaced.read_exchanged (h : Replaced t u b outs) (hw : t.WellFormed) (hb : t.Holds b)
    (ha : t.Holds a) (hout : a.top ∉ b.ids) :
    u.read a.top = .ok (.node a.content (exchangedAll b.top (documents outs) a.inside)) := by
  have hne : a.top ≠ b.top := fun he => hout (he ▸ b.top_mem_ids)
  obtain ⟨cs, htops, hdocs, hh⟩ := h.holds_exchanged hw hb ha (.inr hout)
  rw [exchange, List.flatMap_singleton, if_neg hne] at htops
  obtain ⟨c, rfl, hc⟩ := List.map_eq_singleton_iff.1 htops
  rw [Numbered.exchanged_of_ne hne, documents, documents, List.singleton_inj] at hdocs
  rw [← hc, (hh c (List.mem_singleton_self c)).read h.wellFormed, hdocs]

/-! ## Writing -/

/-- **What stands in the place of a node is written between two texts,** the same ones
whatever it is. -/
theorem Holds.print_exchanged (ha : t.Holds a) (hw : t.WellFormed) (hx : x ∈ a.ids)
    (hwrites : ∀ y n, t.Above y x → t.contentOf y = some n → ¬ n.IsLeaf) :
    ∃ before behind, ∀ ds, printAll (exchanged x ds a) = before ++ (printAll ds ++ behind) := by
  induction a using Numbered.induction_up with
  | step id n bs ih =>
    by_cases hid : (Numbered.node id n bs).top = x
    · refine ⟨[], [], fun ds => ?_⟩
      rw [← hid, Numbered.exchanged_top, List.nil_append, List.append_nil]
    · obtain ⟨b, hb, hxb⟩ := (Numbered.mem_ids.1 hx).resolve_left (Ne.symm hid)
      obtain ⟨before, behind, hprint⟩ := ih b hb (ha.of_mem hb) hxb
      have habove : t.Above id x := ((ha.mem_ids hw).1 hx).resolve_left (Ne.symm hid)
      obtain ⟨opening, closing, hnode⟩ := Node.print_node (hwrites id n habove ha.content)
      -- Beside the one that has the node, nothing is exchanged.
      obtain ⟨left, right, rfl⟩ := List.append_of_mem hb
      have hnodup := hw.nodup id
      rw [show t.childrenOf id = _ from ha.children, Numbered.inside, List.map_append,
        List.map_cons, List.nodup_append', List.nodup_cons] at hnodup
      have hother : ∀ c ∈ left ++ b :: right, c.top ≠ b.top → ∀ ds,
          exchanged x ds c = [c.document] := fun c hc hne ds =>
        Numbered.exchanged_of_notMem fun hxc =>
          ha.disjoint_of_mem hw hb hc (Ne.symm hne) hxb hxc
      have hleft : ∀ ds, exchangedAll x ds left = documents left := fun ds =>
        Numbered.exchangedAll_of_forall fun c hc => by
          refine hother c (List.mem_append_left _ hc) (fun he => ?_) ds
          exact hnodup.2.2 (List.mem_map_of_mem hc) (he ▸ List.mem_cons_self ..)
      have hright : ∀ ds, exchangedAll x ds right = documents right := fun ds =>
        Numbered.exchangedAll_of_forall fun c hc => by
          refine hother c (List.mem_append_right _ (List.mem_cons_of_mem _ hc)) (fun he => ?_) ds
          exact hnodup.2.1.1 (he ▸ List.mem_map_of_mem hc)
      refine ⟨opening ++ (printAll (documents left) ++ before),
        behind ++ (printAll (documents right) ++ closing), fun ds => ?_⟩
      rw [Numbered.exchanged_of_ne hid, Document.printAll_singleton]
      show print (.node n (exchangedAll x ds (left ++ b :: right))) = _
      rw [hnode, Numbered.exchangedAll_append, exchangedAll, Document.printAll_append,
        Document.printAll_append, hleft, hright, hprint]
      simp only [List.append_assoc]

end Tree
end PageBinding
