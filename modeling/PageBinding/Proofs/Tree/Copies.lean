/-
# Copies are faithful, new and apart

A copy of what is at a node reads as that does, and it is made of new nodes only, which are
numbered in document order (`CopyOf`).  As no node is both in the copy and within a node
that was there before, edits below the one never show at the other.

The copies of a tree's own nodes and those of another tree's are made by two recursions.
Both do the same (`copies_are_apart`), and of a tree itself they make the same copy.
-/

import PageBinding.Proofs.Tree.Copying
import PageBinding.Proofs.Tree.Elsewhere

namespace PageBinding
namespace Tree

open Html (Document)
open Html.Document (count countAll)
open Numbered (idsAll documents numberFrom numberAllFrom)

/-- **What a copy is:** the tree has grown by it, and is well-formed.  It is detached, reads as
what is at the node, and has the next numbers in document order.  Edits outside of a node,
of the copy or of what was there, leave the text and the HTML there. -/
structure CopyOf (t other : Tree) (id : NodeId) (u : Tree) (copy : NodeId) : Prop where
  wellFormed : u.WellFormed
  kept : ∀ x, t.Has x → u.node? x = t.node? x
  detached : u.parentOf copy = none
  reads : ∃ d, other.read id = .ok d ∧ u.read copy = .ok d
  numbers : ∃ below, other.descendants id = .ok below ∧ u.size = t.size + (below.length + 1) ∧
    copy = ⟨t.size⟩ ∧
      u.descendants copy = .ok ((List.range' (t.size + 1) below.length).map NodeId.mk)
  apart : ∀ x y, t.Has x → u.Within x y → ¬ u.Within copy y
  others : ∀ x v, t.Has x → u.EditedOutside x v →
    v.htmlAt x = t.htmlAt x ∧ v.textContent x = t.textContent x
  stays : ∀ v, u.EditedOutside copy v →
    v.htmlAt copy = other.htmlAt id ∧ v.textContent copy = other.textContent id

variable {t u other : Tree} {a : Numbered} {id : NodeId}

/-- A tree that has grown by what is at a node has a copy of it. -/
theorem Grown.copyOf (hg : Grown t u [a.document]) (hw : t.WellFormed) (ho : other.WellFormed)
    (ha : other.Holds a) : CopyOf t other a.top u ⟨t.size⟩ := by
  have hb := hg.holds.1
  have htop := Numbered.top_numberFrom t.size a.document
  have hhtml : other.htmlAt a.top = .ok a.document.render := by
    rw [htmlAt, ha.read ho]
    rfl
  have hdoc := Numbered.document_numberFrom t.size a.document
  refine ⟨hg.wellFormed, hg.growsTo.node?, ?_, ⟨a.document, ha.read ho, ?_⟩,
    ⟨idsAll a.inside, descendants_ok ho ha, ?_, rfl, ?_⟩, fun x y hx hxy hc => ?_,
    fun x v hx hv => ?_, fun v hv => ?_⟩
  · rw [← htop]
    exact hg.detached _ (List.mem_cons_self ..)
  · have hread := hb.read hg.wellFormed
    rwa [htop, hdoc] at hread
  · rw [hg.size, countAll, countAll, Nat.add_zero, ← Numbered.length_ids, Numbered.ids_eq,
      List.length_cons]
  · have hd := descendants_ok hg.wellFormed hb
    rw [htop] at hd
    rw [hd, Numbered.document_eq, numberFrom, Numbered.inside, Numbered.idsAll_numberAllFrom,
      Numbered.length_idsAll, Numbered.documents_eq_map]
  · -- What was within an old node is old, and what is in the copy is new.
    obtain ⟨b, rfl, hbx⟩ := hw.exists_holds hx
    have hold := hbx.has (((hg.growsTo.holds hbx).mem_ids hg.wellFormed).2 hxy)
    rw [← htop] at hc
    exact Nat.not_lt_of_le
      (Numbered.mem_ids_numberFrom.1 ((hb.mem_ids hg.wellFormed).2 hc)).1 hold
  · obtain ⟨b, rfl, hbx⟩ := hw.exists_holds hx
    obtain ⟨hh, ht⟩ := hv.shows hg.wellFormed (hg.growsTo.holds hbx)
    exact ⟨by rw [hh, htmlAt, hbx.read hw]; rfl, by rw [ht, textContent_ok hw hbx]⟩
  · rw [← htop] at hv ⊢
    obtain ⟨hh, ht⟩ := hv.shows hg.wellFormed hb
    rw [hh, ht, hdoc, hhtml, textContent_ok ho ha]
    exact ⟨rfl, rfl⟩

/-- **Copies are faithful, new and apart,** whether they are of the tree's own nodes or of those
of another tree, and whether they are made in place or planted as they are read.  Of the tree
itself both are the same. -/
theorem copies_are_apart (hw : t.WellFormed) (hid : t.Has id) :
    (∃ u, t.cloneInPlace id = .ok (u, ⟨t.size⟩) ∧ t.clone id = .ok (u, ⟨t.size⟩) ∧
      CopyOf t t id u ⟨t.size⟩) ∧
    t.importInPlace t id = t.cloneInPlace id ∧
    ∀ (other : Tree) (id' : NodeId), other.WellFormed → other.Has id' →
      ∃ u, t.importInPlace other id' = .ok (u, ⟨t.size⟩) ∧
        t.importFrom other id' = .ok (u, ⟨t.size⟩) ∧ CopyOf t other id' u ⟨t.size⟩ := by
  obtain ⟨a, rfl, ha⟩ := hw.exists_holds hid
  obtain ⟨u, hu, hclone, hg⟩ := hw.clone_in_place ha
  refine ⟨⟨u, hu, hclone, hg.copyOf hw hw ha⟩, ?_, fun other id' ho hid' => ?_⟩
  · obtain ⟨v, hv, -, hgv⟩ := hw.import_in_place hw ha
    rw [hv, hu, hgv.unique hg]
  · obtain ⟨b, rfl, hb⟩ := ho.exists_holds hid'
    obtain ⟨v, hv, himport, hgv⟩ := hw.import_in_place ho hb
    exact ⟨v, hv, himport, hgv.copyOf hw ho hb⟩

/-- A list whose item is copied: the two nodes of the copy are numbered 4 and 5, and a text set in
it does not show in the item. -/
theorem copies_are_apart_of_item : ∃ t u v : Tree, t.WellFormed ∧ t.Has ⟨2⟩ ∧
    t.cloneInPlace ⟨2⟩ = .ok (u, ⟨4⟩) ∧ u.descendants ⟨4⟩ = .ok [⟨5⟩] ∧
      u.setContent ⟨5⟩ (.text "y") = .ok v ∧ v.textContent ⟨2⟩ = .ok "x" := by
  let item : Document := .node (.element ⟨"li", []⟩) [.node (.text "x") []]
  let t : Tree := .ofDocuments [.node (.element ⟨"ul", []⟩) [item]]
  have hw : t.WellFormed := ofDocuments_wellFormed _
  have hid : t.Has ⟨2⟩ := by decide +kernel
  have hbelow : t.descendants ⟨2⟩ = .ok [⟨3⟩] := by decide +kernel
  have hparent : (t.cloneInPlace ⟨2⟩).map (fun made => made.1.parentOf ⟨5⟩) = .ok (some ⟨4⟩) := by
    decide +kernel
  obtain ⟨⟨u, hu, -, hcopy⟩, -, -⟩ := copies_are_apart hw hid
  obtain ⟨below, hb, hsize, -, hnumbers⟩ := hcopy.numbers
  obtain rfl := Except.ok.inj (hbelow.symm.trans hb)
  rw [hu] at hparent
  have h5 : u.Has ⟨5⟩ := has_of_parentOf (Except.ok.inj hparent)
  obtain ⟨v, hv, -⟩ := setContent_ok h5 (.text "y")
  have hout : u.EditedOutside ⟨2⟩ v := by
    refine .edit (.setContent ⟨5⟩ (.text "y")) .refl h5 (fun h => by cases h)
      (fun x hx hwithin => ?_) (fun _ hx => by cases hx) hv
    rw [List.mem_singleton.1 hx] at hwithin
    exact hcopy.apart _ _ hid hwithin (.inr (.parent (Except.ok.inj hparent)))
  refine ⟨t, u, v, hw, hid, hu, hnumbers, hv, ?_⟩
  rw [(hcopy.others _ _ hid hout).2]
  rfl

end Tree
end PageBinding
