/-
# Compaction as an isomorphism

A renumbering carries one tree onto another (`Isomorphic`) if it is defined for just the nodes
to which the root leads, takes different nodes to different numbers and reaches every node of
the other tree, and if each node has under its new number the content that it had and the new
numbers of the nodes that it was linked to.

Compaction is one (`Compacted.isomorphic`).  Its numbers are the places in document order, so
the compacted tree is numbered in order (`ids_renumber_placeIn`), and compacting it again
changes nothing (`Compacted.compact_again`).  All of it holds of every well-formed tree
(`compact_isomorphic`), also where detached nodes are linked to ones that are kept: the root
may be put in below a detached node, and then it loses that parent.
-/

import PageBinding.Proofs.Tree.Renamed

namespace PageBinding
namespace Tree

open Html (Node Element)
open Numbered (idsAll)

variable {t u : Tree} {a : Numbered} {x y : NodeId} {new : Renumbering}

/-- **A renumbering carries what the root of a tree leads to onto another tree.** -/
structure Isomorphic (t u : Tree) (new : Renumbering) : Prop where
  /-- It is defined for just the nodes to which the root leads. -/
  defined : ∀ x, (new.get? x).isSome ↔ t.Within root x
  inj : ∀ x x' y, new.get? x = some y → new.get? x' = some y → x = x'
  onto : ∀ y, u.Has y ↔ ∃ x, new.get? x = some y
  fixed : new.get? root = some root
  content : ∀ x y, new.get? x = some y → u.contentOf y = t.contentOf x
  /-- The children are carried over one by one, and none of them is lost. -/
  children : ∀ x y, new.get? x = some y →
    (u.childrenOf y).map some = (t.childrenOf x).map new.get?
  parent : ∀ x y, new.get? x = some y → x ≠ root →
    ∃ p q, t.parentOf x = some p ∧ new.get? p = some q ∧ u.parentOf y = some q
  parent_root : u.parentOf root = none

namespace Compacted

/-- Only nodes that are held are renumbered, each to its place. -/
theorem get?_eq_some (h : Compacted t u a new) (hx : new.get? x = some y) :
    x ∈ a.ids ∧ y = placeIn a x := by
  rw [h.get?] at hx
  split_ifs at hx with hm
  exact ⟨hm, (Option.some.inj hx).symm⟩

/-- Each node that is held is renumbered to its place. -/
theorem get?_of_mem (h : Compacted t u a new) (hx : x ∈ a.ids) :
    new.get? x = some (placeIn a x) := by
  rw [h.get?, if_pos hx]

/-- **Compaction is an isomorphism.** -/
theorem isomorphic (h : Compacted t u a new) (hw : t.WellFormed) (ha : t.Holds a)
    (htop : a.top = root) : Isomorphic t u new where
  defined x := by
    rw [← htop, ← ha.mem_ids hw, h.get?]
    constructor
    · intro he
      split_ifs at he with hm
      · exact hm
      · cases he
    · intro hm
      rw [if_pos hm]
      rfl
  inj x x' y hx hx' := by
    obtain ⟨hm, rfl⟩ := h.get?_eq_some hx
    exact placeIn_inj hm (h.get?_eq_some hx').2
  onto y := by
    constructor
    · intro hy
      obtain ⟨x, hx, rfl⟩ := h.exists_place (ha.ids_nodup hw) hy
      exact ⟨x, h.get?_of_mem hx⟩
    · rintro ⟨x, hx⟩
      exact h.has_of_get? hx
  fixed := by
    rw [h.get?_of_mem (htop ▸ a.top_mem_ids), placeIn_root htop]
  content x y hx := by
    obtain ⟨hm, rfl⟩ := h.get?_eq_some hx
    exact h.content x hm
  children x y hx := by
    obtain ⟨hm, rfl⟩ := h.get?_eq_some hx
    rw [h.children x hm, List.map_map]
    exact List.map_congr_left fun c hc => (h.get?_of_mem (ha.child_mem hm hc)).symm
  parent x y hx hroot := by
    obtain ⟨hm, rfl⟩ := h.get?_eq_some hx
    have hbelow : t.Above root x := by
      rcases (ha.mem_ids hw).1 hm with he | hb
      · exact absurd (he.trans htop) hroot
      · exact htop ▸ hb
    obtain ⟨p, hp, hwithin⟩ := hbelow.parent_within
    have hpm : p ∈ a.ids := (ha.mem_ids hw).2 (htop.symm ▸ hwithin)
    refine ⟨p, _, hp, h.get?_of_mem hpm, ?_⟩
    rw [h.parent x hm, hp, Option.bind_some, h.get?_of_mem hpm]
  parent_root := h.parentOf_root hw ha htop

/-! ## Once more -/

/-- **The kept nodes are numbered in document order.** -/
theorem ids_renumber_placeIn (hn : a.ids.Nodup) :
    (a.renumber (placeIn a)).ids = (List.range a.ids.length).map NodeId.mk := by
  rw [Numbered.ids_renumber]
  refine List.ext_getElem (by simp) fun k hk _ => ?_
  rw [List.length_map] at hk
  rw [List.getElem_map, List.getElem_map, List.getElem_range, placeIn, hn.idxOf_getElem k hk]

/-- A node of a tree that is numbered in document order is at the place of its number. -/
theorem placeIn_of_ids {b : Numbered} {n : Nat} (hb : b.ids = (List.range n).map NodeId.mk)
    (hx : x ∈ b.ids) : placeIn b x = x := by
  have hn : b.ids.Nodup := hb ▸ List.nodup_range.map fun i j hij => NodeId.mk.inj hij
  obtain ⟨k, hk, rfl⟩ := List.getElem_of_mem hx
  have hget : b.ids[k] = ⟨k⟩ := by simp [hb]
  rw [placeIn, hn.idxOf_getElem k hk, hget]

/-- **Compacting once more changes nothing.** -/
theorem compact_again (h : Compacted t u a new) (hw : t.WellFormed) (ha : t.Holds a)
    (htop : a.top = root) :
    ∃ same, u.compact = .ok (u, same) ∧
      ∀ y, same.get? y = if y.index < u.size then some y else none := by
  have hwu := h.wellFormed hw ha
  have hb := h.holds ha ha a.top_mem_ids
  have hids := ids_renumber_placeIn (ha.ids_nodup hw)
  have hmem : ∀ y, y ∈ (a.renumber (placeIn a)).ids ↔ u.Has y := by
    intro y
    rw [hids, List.mem_map, Has, h.size]
    constructor
    · rintro ⟨k, hk, rfl⟩
      exact List.mem_range.1 hk
    · exact fun hy => ⟨y.index, List.mem_range.2 hy, rfl⟩
  obtain ⟨w, same, hc, hs⟩ := compact_compacted hwu hb (by
    rw [Numbered.top_renumber, htop, placeIn_root htop])
  have hplace : ∀ y, u.Has y → placeIn (a.renumber (placeIn a)) y = y := fun y hy =>
    placeIn_of_ids hids ((hmem y).2 hy)
  have hsame : ∀ y, same.get? y = if y.index < u.size then some y else none := by
    intro y
    by_cases hy : u.Has y
    · rw [hs.get?, if_pos ((hmem y).2 hy), hplace y hy]
      exact (if_pos hy).symm
    · rw [hs.get?, if_neg fun hm => hy ((hmem y).1 hm)]
      exact (if_neg hy).symm
  obtain rfl : w = u := by
    refine ext_of_views ?_ (fun y hy => ?_) (fun y hy => ?_) fun y hy => ?_
    · rw [hs.size, hids, List.length_map, List.length_range, h.size]
    · have := hs.content y ((hmem y).2 hy)
      rwa [hplace y hy] at this
    · have := hs.parent y ((hmem y).2 hy)
      rw [hplace y hy] at this
      rw [this]
      cases hp : u.parentOf y with
      | none => rfl
      | some p =>
        rw [Option.bind_some, hsame]
        exact if_pos (hwu.has_parent hp)
    · have := hs.children y ((hmem y).2 hy)
      rw [hplace y hy] at this
      rw [this]
      exact (List.map_congr_left fun c hc => hplace c (hwu.has_child hc)).trans (List.map_id' _)
  exact ⟨same, hc, hsame⟩

end Compacted

/-- **Compaction is an isomorphism of what the root leads to.**  Every well-formed tree can be
compacted.  The `k`-th of the nodes to which the root leads, in document order and the root
first, becomes node `k`, and no other number is given.  What is read at the root, as markup
and as text, stays the same, the compacted tree has no nodes but those, and compacting it
again gives the same tree and each node its own number. -/
theorem compact_isomorphic (hw : t.WellFormed) (hr : t.Has root) :
    ∃ u new a, t.compact = .ok (u, new) ∧ a.top = root ∧ t.Holds a ∧
      Isomorphic t u new ∧
      (∀ k x, a.ids[k]? = some x → new.get? x = some ⟨k⟩) ∧
      (∀ x, t.size ≤ x.index → new.get? x = none) ∧
      t.liveSize = .ok u.size ∧ u.liveSize = .ok u.size ∧
      (∃ s, t.html = .ok s ∧ u.html = .ok s) ∧
      (∃ s, t.textContent root = .ok s ∧ u.textContent root = .ok s) ∧
      ∃ same, u.compact = .ok (u, same) ∧
        ∀ y, same.get? y = if y.index < u.size then some y else none := by
  obtain ⟨a, htop, ha⟩ := hw.exists_holds hr
  obtain ⟨u, new, hc, h⟩ := compact_compacted hw ha htop
  have hwu := h.wellFormed hw ha
  have hb := h.holds ha ha a.top_mem_ids
  have hbtop : (a.renumber (placeIn a)).top = root := by
    rw [Numbered.top_renumber, htop, Compacted.placeIn_root htop]
  refine ⟨u, new, a, hc, htop, ha, h.isomorphic hw ha htop, fun k x hk => ?_, fun x hx => ?_, ?_,
    ?_, ⟨a.document.render, ?_, ?_⟩, ⟨a.document.text, ?_, ?_⟩, h.compact_again hw ha htop⟩
  · obtain ⟨hlt, rfl⟩ := List.getElem?_eq_some_iff.1 hk
    rw [h.get?_of_mem (List.getElem_mem hlt), placeIn, (ha.ids_nodup hw).idxOf_getElem k hlt]
  · rw [h.get?, if_neg fun hm => absurd (ha.has hm) (Nat.not_lt.2 hx)]
  · rw [liveSize_ok hw ha htop, h.size]
  · rw [liveSize_ok hwu hb hbtop, Numbered.ids_renumber, List.length_map, h.size]
  · rw [html, htmlAt, ← htop, ha.read hw]
    rfl
  · rw [html, htmlAt, ← hbtop, hb.read hwu, Numbered.document_renumber]
    rfl
  · rw [← htop, textContent_ok hw ha]
  · rw [← hbtop, textContent_ok hwu hb, Numbered.document_renumber]

/-- A paragraph is detached and dropped by compaction, and what stood beside it is kept. -/
theorem compact_isomorphic_of_detached : ∃ t u new, t.WellFormed ∧ t.Has root ∧ t.size = 5 ∧
    t.compact = .ok (u, new) ∧ Isomorphic t u new ∧ u.size = 3 ∧ new.get? ⟨2⟩ = none ∧
      u.html = .ok "<div>kept</div>" := by
  let list : Tree := .ofDocuments [.node (.element ⟨"div", []⟩)
    [.node (.element ⟨"p", []⟩) [.node (.text "gone") []], .node (.text "kept") []]]
  have hlist : list.size = 5 := by decide +kernel
  have hw : list.WellFormed := ofDocuments_wellFormed _
  have hid : list.Has ⟨2⟩ := by rw [Has, hlist]; decide
  have hlive : (list.detach ⟨2⟩ >>= liveSize) = .ok 3 := by decide +kernel
  have hhtml : (list.detach ⟨2⟩ >>= html) = .ok "<div>kept</div>" := by decide +kernel
  obtain ⟨t, ht, hd⟩ := detach_relinked hw hid
  rw [ht, ok_bind] at hlive hhtml
  have hsize : t.size = 5 := hd.size.trans hlist
  have hwt := hw.of_detached hd
  have hr : t.Has root := by rw [Has, hsize]; decide
  obtain ⟨u, new, a, hc, htop, ha, hiso, -, -, hsizes, -, ⟨s, hs, hsu⟩, -⟩ :=
    compact_isomorphic hwt hr
  have hgone : ¬ t.Within root ⟨2⟩ := by
    rintro (he | habove)
    · cases he
    · obtain ⟨p, hp, -⟩ := habove.parent_within
      rw [hd.parent, parentsWithout, if_pos (List.mem_singleton_self _)] at hp
      cases hp
  refine ⟨t, u, new, hwt, hr, hsize, hc, hiso, ?_, ?_, ?_⟩
  · exact Except.ok.inj (hsizes.symm.trans hlive)
  · exact Option.not_isSome_iff_eq_none.1 fun h => hgone ((hiso.defined _).1 h)
  · rw [hsu, ← hs, hhtml]

end Tree
end PageBinding
