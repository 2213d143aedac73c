/-
# What compaction keeps

Compaction keeps what is held at the root and numbers it in document order
(`Compacted`): a node gets as its number the place of the old one among those
that are kept (`get?_ofOrder`), and there is no number for the others.  So what is
held is held under the new numbers (`Compacted.holds`), and a compacted tree is
well-formed again.
-/

import PageBinding.Proofs.Tree.Walking
import PageBinding.Tree.Compact

namespace PageBinding

open Html (Node)
open Numbered (idsAll)

namespace Numbered

mutual

/-- The numbered document with other numbers. -/
def renumber (f : NodeId → NodeId) : Numbered → Numbered
  | .node id n bs => .node (f id) n (renumberAll f bs)

/-- Some numbered documents with other numbers. -/
def renumberAll (f : NodeId → NodeId) : List Numbered → List Numbered
  | [] => []
  | b :: bs => renumber f b :: renumberAll f bs

end

variable {f : NodeId → NodeId} {a : Numbered} {bs : List Numbered}

/-- Renumbering works document by document. -/
theorem renumberAll_eq_map : renumberAll f bs = bs.map (renumber f) := by
  induction bs with
  | nil => rfl
  | cons b bs ih => rw [renumberAll, ih, List.map_cons]

/-- Documents in a row are renumbered on both sides. -/
theorem renumberAll_append (f : NodeId → NodeId) (as bs : List Numbered) :
    renumberAll f (as ++ bs) = renumberAll f as ++ renumberAll f bs := by
  rw [renumberAll_eq_map, renumberAll_eq_map, renumberAll_eq_map, List.map_append]

/-- The top node gets its new number. -/
@[simp] theorem top_renumber : (a.renumber f).top = f a.top := by
  cases a; rfl

/-- Renumbering keeps the content. -/
@[simp] theorem content_renumber : (a.renumber f).content = a.content := by
  cases a; rfl

/-- What is inside is renumbered too. -/
@[simp] theorem inside_renumber : (a.renumber f).inside = a.inside.map (renumber f) := by
  cases a
  exact renumberAll_eq_map

/-- Renumbering keeps the document. -/
theorem document_renumber : (a.renumber f).document = a.document := by
  induction a using Numbered.induction_up with
  | step id n bs ih =>
    rw [document_eq, document_eq (.node id n bs), content_renumber, inside_renumber, List.map_map]
    congr 1
    exact List.map_congr_left ih

/-- Renumbering keeps the documents. -/
theorem documents_renumberAll : documents (renumberAll f bs) = documents bs := by
  rw [documents_eq_map, documents_eq_map, renumberAll_eq_map, List.map_map]
  exact List.map_congr_left fun b _ => document_renumber

/-- The top nodes get their new numbers. -/
theorem map_top_renumberAll : (renumberAll f bs).map top = (bs.map top).map f := by
  rw [renumberAll_eq_map, List.map_map, List.map_map]
  exact List.map_congr_left fun b _ => top_renumber

/-- The numbers in document order are renumbered in that order. -/
theorem ids_renumber : (a.renumber f).ids = a.ids.map f := by
  induction a using Numbered.induction_up with
  | step id n bs ih =>
    rw [ids_eq, ids_eq (.node id n bs), top_renumber, inside_renumber, List.map_cons,
      idsAll_eq_flatMap, idsAll_eq_flatMap, List.flatMap_map, List.map_flatMap]
    congr 1
    exact List.flatMap_congr ih

end Numbered

/-- **The number of a node is its place** among those that are numbered. -/
theorem Renumbering.get?_ofOrder {size : Nat} {order : List NodeId} {x : NodeId}
    (hn : order.Nodup) (hs : ∀ y ∈ order, y.index < size) :
    (ofOrder size order).get? x = if x ∈ order then some ⟨order.idxOf x⟩ else none := by
  have key : ∀ (order : List NodeId) (k : Nat) (table : Array (Option NodeId)), order.Nodup →
      (∀ y ∈ order, y.index < table.size) →
        (((order.zipIdx k).foldl (fun table e => table.setIfInBounds e.1.index (some ⟨e.2⟩))
          table)[x.index]?).join =
            if x ∈ order then some ⟨k + order.idxOf x⟩ else (table[x.index]?).join := by
    intro order
    induction order with
    | nil => exact fun k table _ _ => by simp
    | cons y order ih =>
      intro k table hn hs
      rw [List.nodup_cons] at hn
      have hy := hs y (List.mem_cons_self ..)
      rw [List.zipIdx_cons, List.foldl_cons, ih (k + 1) _ hn.2 fun z hz => by
        rw [Array.size_setIfInBounds]; exact hs z (List.mem_cons_of_mem _ hz)]
      by_cases hxy : x = y
      · subst hxy
        rw [if_neg hn.1, if_pos (List.mem_cons_self ..), Array.getElem?_setIfInBounds_self_of_lt hy,
          List.idxOf_cons_self]
        rfl
      · have hi : y.index ≠ x.index := fun h => hxy (by cases x; cases y; exact congrArg _ h.symm)
        rw [Array.getElem?_setIfInBounds_ne hi, List.idxOf_cons_ne _ (Ne.symm hxy)]
        by_cases hm : x ∈ order
        · rw [if_pos hm, if_pos (List.mem_cons_of_mem _ hm), Nat.add_assoc, Nat.add_comm 1]
        · rw [if_neg hm, if_neg fun h => (List.mem_cons.1 h).elim hxy hm]
  rw [get?, ofOrder, key order 0 _ hn fun y hy => by simpa using hs y hy, Nat.zero_add]
  split_ifs
  · rfl
  · rw [Array.getElem?_replicate]
    split_ifs <;> rfl

/-- A renumbering has an entry for each old number. -/
theorem Renumbering.size_ofOrder (size : Nat) (order : List NodeId) :
    (ofOrder size order).table.size = size := by
  have key : ∀ (l : List (NodeId × Nat)) (table : Array (Option NodeId)),
      (l.foldl (fun table e => table.setIfInBounds e.1.index (some ⟨e.2⟩)) table).size =
        table.size := by
    intro l
    induction l with
    | nil => exact fun _ => rfl
    | cons e l ih => exact fun table => (ih _).trans Array.size_setIfInBounds
  rw [ofOrder, key, Array.size_replicate]

/-- A number of the table has an entry. -/
theorem Renumbering.entry_ok {new : Renumbering} {x : NodeId} (h : x.index < new.table.size) :
    new.entry x = .ok (new.get? x) := by
  rw [entry, get?, Array.getElem?_eq_getElem h]
  rfl

/-- **A node is renumbered** if the table has an entry for each of its links. -/
theorem LinkedNode.renumber_ok {s : LinkedNode} {new : Renumbering}
    (hp : ∀ p ∈ s.parent, p.index < new.table.size)
    (hc : ∀ c ∈ s.children, c.index < new.table.size) : s.renumber new =
      .ok { s with parent := s.parent.bind new.get?, children := s.children.filterMap new.get? } := by
  have hchildren := mapM_ok (f := new.entry) (g := new.get?) fun c hmem =>
    Renumbering.entry_ok (hc c hmem)
  have hfilter : (s.children.map new.get?).filterMap id = s.children.filterMap new.get? := by
    rw [List.filterMap_map]
    rfl
  rw [renumber, hchildren]
  cases hparent : s.parent with
  | none =>
    dsimp only
    rw [pure_eq_ok, ok_bind, ok_bind, hfilter]
    rfl
  | some p =>
    dsimp only
    rw [Renumbering.entry_ok (hp p hparent), ok_bind, ok_bind, hfilter]
    rfl

namespace Tree

variable {t u : Tree} {a b : Numbered} {x y p : NodeId} {new : Renumbering}

/-- **Nodes are kept in their order,** if none is in it twice. -/
theorem foldlM_keep {node : NodeId → LinkedNode} {order : List NodeId} (hn : order.Nodup)
    {left : Array (Option LinkedNode)} (kept : Array LinkedNode)
    (h : ∀ x ∈ order, ∃ s, left[x.index]? = some (some s) ∧ s.renumber new = .ok (node x)) :
    ∃ rest, order.foldlM (keep new) (left, kept) = .ok (rest, kept ++ (order.map node).toArray) := by
  induction order generalizing left kept with
  | nil => exact ⟨left, by rw [List.foldlM_nil, pure_eq_ok, List.map_nil, Array.append_empty]⟩
  | cons x order ih =>
    obtain ⟨hx, hn⟩ := List.nodup_cons.1 hn
    obtain ⟨⟨s, hs, hrenumber⟩, hrest⟩ := List.forall_mem_cons.1 h
    -- The nodes that follow are still there once this one is taken out.
    have hleft : ∀ y ∈ order, ∃ s, (left.setIfInBounds x.index none)[y.index]? = some (some s) ∧
        s.renumber new = .ok (node y) := by
      intro y hy
      have hi : x.index ≠ y.index := fun he => hx (by cases x; cases y; cases he; exact hy)
      rw [Array.getElem?_setIfInBounds_ne hi]
      exact hrest y hy
    obtain ⟨rest, hfold⟩ := ih hn (kept.push (node x)) hleft
    refine ⟨rest, ?_⟩
    have hkeep : keep new (left, kept) x =
        .ok (left.setIfInBounds x.index none, kept.push (node x)) := by
      rw [keep, hs]
      dsimp only
      rw [hrenumber, ok_bind, pure_eq_ok]
    have hpush : kept.push (node x) ++ (order.map node).toArray =
        kept ++ ((x :: order).map node).toArray := by simp
    rw [List.foldlM_cons, hkeep, ok_bind, hfold, hpush]

/-- The place of a node among those that are held. -/
def placeIn (a : Numbered) (x : NodeId) : NodeId := ⟨a.ids.idxOf x⟩

/-- **What compaction leaves** of a tree that holds a document at its root. -/
structure Compacted (t u : Tree) (a : Numbered) (new : Renumbering) : Prop where
  get? : ∀ x, new.get? x = if x ∈ a.ids then some (placeIn a x) else none
  size : u.size = a.ids.length
  content : ∀ x ∈ a.ids, u.contentOf (placeIn a x) = t.contentOf x
  parent : ∀ x ∈ a.ids, u.parentOf (placeIn a x) = (t.parentOf x).bind new.get?
  children : ∀ x ∈ a.ids, u.childrenOf (placeIn a x) = (t.childrenOf x).map (placeIn a)

/-- **Compaction succeeds,** and keeps what is held at the root. -/
theorem compact_compacted (hw : t.WellFormed) (ha : t.Holds a) (htop : a.top = root) :
    ∃ u new, t.compact = .ok (u, new) ∧ Compacted t u a new := by
  have hn : a.ids.Nodup := ha.ids_nodup hw
  obtain ⟨new, hnew⟩ : ∃ new, new = Renumbering.ofOrder t.size a.ids := ⟨_, rfl⟩
  have hget : ∀ x, new.get? x = if x ∈ a.ids then some (placeIn a x) else none := fun x =>
    hnew ▸ Renumbering.get?_ofOrder hn fun y hy => ha.has hy
  have hsize : new.table.size = t.size := hnew ▸ Renumbering.size_ofOrder t.size a.ids
  have horder : root :: idsAll a.inside = a.ids := by rw [Numbered.ids_eq, htop]
  let kept (x : NodeId) : LinkedNode :=
    ⟨(t.contentOf x).getD .fragment, (t.parentOf x).bind new.get?, (t.childrenOf x).map (placeIn a)⟩
  have hkept : ∀ x ∈ a.ids, ∃ s, (t.nodes.map some)[x.index]? = some (some s) ∧
      s.renumber new = .ok (kept x) := by
    intro x hx
    obtain ⟨s, hs⟩ := has_iff.1 (ha.has hx)
    have hc : s.children.filterMap new.get? = (t.childrenOf x).map (placeIn a) := by
      rw [childrenOf, hs, Option.map_some, Option.getD_some, ← List.filterMap_eq_map]
      refine List.filterMap_congr fun c hc => ?_
      have hchild : c ∈ t.childrenOf x := by rwa [childrenOf, hs]
      rw [hget, if_pos (ha.child_mem hx hchild)]
      rfl
    refine ⟨s, by rw [Array.getElem?_map, show t.nodes[x.index]? = some s from hs]; rfl, ?_⟩
    rw [LinkedNode.renumber_ok, hc]
    · simp only [kept, contentOf, parentOf, hs, Option.map_some, Option.getD_some, Option.bind_some]
    · intro p hp
      have hparent : t.parentOf x = some p := by rw [parentOf, hs]; exact hp
      exact hsize ▸ hw.has_parent hparent
    · intro c hc
      have hchild : c ∈ t.childrenOf x := by rwa [childrenOf, hs]
      exact hsize ▸ hw.bounded x c hchild
  obtain ⟨rest, hm⟩ := foldlM_keep hn #[] hkept
  rw [Array.empty_append] at hm
  have hnode : ∀ x ∈ a.ids, node? ⟨(a.ids.map kept).toArray⟩ (placeIn a x) = some (kept x) := by
    intro x hx
    rw [node?, placeIn, List.getElem?_toArray, List.getElem?_map, List.getElem?_idxOf hx]
    rfl
  refine ⟨⟨(a.ids.map kept).toArray⟩, new, ?_, hget, ?_, fun x hx => ?_, fun x hx => ?_,
    fun x hx => ?_⟩
  · have hd := descendants_ok hw ha
    rw [htop] at hd
    rw [compact, hd, ok_bind, horder]
    dsimp only
    rw [← hnew, hm]
    rfl
  · simp [Tree.size]
  · obtain ⟨n, hnx⟩ := has_iff_contentOf.1 (ha.has hx)
    rw [contentOf, hnode x hx, hnx, Option.map_some]
    simp only [kept, hnx, Option.getD_some]
  · rw [parentOf, hnode x hx]
    rfl
  · rw [childrenOf, hnode x hx]
    rfl

namespace Compacted

/-- Different nodes that are held have different places. -/
theorem placeIn_inj (hx : x ∈ a.ids) (h : placeIn a x = placeIn a y) : x = y :=
  (List.idxOf_inj hx).1 (NodeId.mk.inj h)

/-- What is held has a node in the compacted tree. -/
theorem has (h : Compacted t u a new) (hx : x ∈ a.ids) : u.Has (placeIn a x) := by
  rw [Has, h.size]
  exact List.idxOf_lt_length_of_mem hx

/-- Every node is one that was kept. -/
theorem exists_place (h : Compacted t u a new) (hn : a.ids.Nodup) (hy : u.Has y) :
    ∃ x ∈ a.ids, y = placeIn a x := by
  rw [Has, h.size] at hy
  refine ⟨a.ids[y.index], List.getElem_mem hy, ?_⟩
  rw [placeIn, hn.idxOf_getElem y.index hy]

/-- A node that was renumbered is one of the compacted tree. -/
theorem has_of_get? (h : Compacted t u a new) (hxy : new.get? x = some y) : u.Has y := by
  rw [h.get?] at hxy
  split_ifs at hxy with hx
  exact Option.some.inj hxy ▸ h.has hx

/-- **What is held at a node that is kept is held there.** -/
theorem holds (h : Compacted t u a new) (ha : t.Holds a) (hb : t.Holds b) (hba : b.top ∈ a.ids) :
    u.Holds (b.renumber (placeIn a)) := by
  induction b using Numbered.induction_up with
  | step id n bs ih =>
    refine holds_iff.2 ⟨?_, ?_, fun c hc => ?_⟩
    · rw [Numbered.top_renumber, h.content _ hba, Numbered.content_renumber]
      exact hb.content
    · rw [Numbered.top_renumber, h.children _ hba, hb.children, Numbered.inside_renumber,
        List.map_map, List.map_map]
      exact List.map_congr_left fun c _ => (Numbered.top_renumber (a := c)).symm
    · rw [Numbered.inside_renumber] at hc
      obtain ⟨d, hd, rfl⟩ := List.mem_map.1 hc
      exact ih d hd (hb.of_mem hd) (ha.child_mem hba (hb.mem_children hd))

/-- **A compacted tree is well-formed.** -/
theorem wellFormed (h : Compacted t u a new) (hw : t.WellFormed) (ha : t.Holds a) :
    u.WellFormed := by
  have hn : a.ids.Nodup := ha.ids_nodup hw
  -- The links of a kept node lead to kept nodes.
  have hparent : ∀ {x q}, x ∈ a.ids → u.parentOf (placeIn a x) = some q →
      ∃ p ∈ a.ids, t.parentOf x = some p ∧ q = placeIn a p := by
    intro x q hx hq
    rw [h.parent x hx] at hq
    obtain ⟨p, hp, hpq⟩ := Option.bind_eq_some_iff.1 hq
    rw [h.get?] at hpq
    split_ifs at hpq with hpm
    exact ⟨p, hpm, hp, (Option.some.inj hpq).symm⟩
  have habove : ∀ {y z}, u.Above y z → ∃ v ∈ a.ids, ∃ w ∈ a.ids,
      y = placeIn a v ∧ z = placeIn a w ∧ t.Above v w := by
    intro y z hyz
    induction hyz with
    | parent hp =>
      obtain ⟨w, hwm, rfl⟩ := h.exists_place hn (has_of_parentOf hp)
      obtain ⟨v, hvm, hvp, rfl⟩ := hparent hwm hp
      exact ⟨v, hvm, w, hwm, rfl, rfl, .parent hvp⟩
    | step _ hp ih =>
      obtain ⟨v, hvm, w, hwm, rfl, rfl, hvw⟩ := ih
      obtain ⟨c, hcm, rfl⟩ := h.exists_place hn (has_of_parentOf hp)
      obtain ⟨w', _, hwc, he⟩ := hparent hcm hp
      obtain rfl := placeIn_inj hwm he
      exact ⟨v, hvm, c, hcm, rfl, rfl, .step hvw hwc⟩
  have hchild : ∀ {x y}, x ∈ a.ids → (y ∈ u.childrenOf (placeIn a x) ↔
      ∃ c ∈ t.childrenOf x, y = placeIn a c) := by
    intro x y hx
    rw [h.children x hx, List.mem_map]
    constructor
    · rintro ⟨c, hc, rfl⟩
      exact ⟨c, hc, rfl⟩
    · rintro ⟨c, hc, rfl⟩
      exact ⟨c, hc, rfl⟩
  refine ⟨fun p c hc => ?_, fun p c => ⟨fun hc => ?_, fun hp => ?_⟩, fun p => ?_, fun y hy => ?_⟩
  · obtain ⟨x, hx, rfl⟩ := h.exists_place hn (has_of_mem_childrenOf hc)
    obtain ⟨d, hd, rfl⟩ := (hchild hx).1 hc
    exact h.has (ha.child_mem hx hd)
  · obtain ⟨x, hx, rfl⟩ := h.exists_place hn (has_of_mem_childrenOf hc)
    obtain ⟨d, hd, rfl⟩ := (hchild hx).1 hc
    rw [h.parent d (ha.child_mem hx hd), (hw.linked x d).1 hd, Option.bind_some, h.get?, if_pos hx]
  · obtain ⟨c, hc, rfl⟩ := h.exists_place hn (has_of_parentOf hp)
    obtain ⟨x, hx, hxc, rfl⟩ := hparent hc hp
    exact (hchild hx).2 ⟨c, (hw.linked x c).2 hxc, rfl⟩
  · by_cases hp : u.Has p
    · obtain ⟨x, hx, rfl⟩ := h.exists_place hn hp
      rw [h.children x hx]
      exact (hw.nodup x).map_on fun c hc d _ hcd => placeIn_inj (ha.child_mem hx hc) hcd
    · rw [childrenOf, node?_eq_none hp]
      exact List.nodup_nil
  · obtain ⟨v, hvm, w, _, rfl, he, hvw⟩ := habove hy
    obtain rfl := placeIn_inj hvm he
    exact hw.acyclic _ hvw

/-- The root is held at the first place. -/
theorem placeIn_root (htop : a.top = root) : placeIn a root = root := by
  rw [placeIn, Numbered.ids_eq, htop, List.idxOf_cons_self]
  rfl

/-- The root of the compacted tree has no parent. -/
theorem parentOf_root (h : Compacted t u a new) (hw : t.WellFormed) (ha : t.Holds a)
    (htop : a.top = root) : u.parentOf root = none := by
  have hr : root ∈ a.ids := htop ▸ a.top_mem_ids
  rw [← placeIn_root htop, h.parent _ hr, Option.bind_eq_none_iff]
  intro p hp
  rw [h.get?, if_neg]
  intro hpm
  exact hw.not_within_parent hp (htop ▸ (ha.mem_ids hw).1 hpm)

end Compacted
end Tree
end PageBinding
