/-
# Trees as their links

What can be seen of a tree is, for each of its nodes, a content, a parent and a
list of children (`contentOf`, `parentOf`, `childrenOf`).  Each operation on the
links of a tree is described by what it does to these three, and succeeds on
nodes of the tree:

| operation | parents | children |
| --- | --- | --- |
| `setContent` | as before | as before |
| `detach`, `detachAll` | none for the detached nodes | without the detached nodes |
| `insertAllBefore` | the node for those put in | those put in stand at their place |

No child of a well-formed tree has another node as its parent, so looking
through the children of the parents only is looking through all children.
-/

import PageBinding.Tree.Links
import PageBinding.Proofs.Results
import Mathlib.Data.List.Nodup

namespace PageBinding

namespace Tree

open Html (Node)

/-- The tree has a node of this number. -/
def Has (t : Tree) (id : NodeId) : Prop := id.index < t.size

instance (t : Tree) (id : NodeId) : Decidable (t.Has id) := inferInstanceAs (Decidable (_ < _))

/-- The content of a node; `none` where there is no node. -/
def contentOf (t : Tree) (id : NodeId) : Option Node := (t.node? id).map LinkedNode.content

variable {t u : Tree} {id p c x : NodeId}

/-- A tree has a node if there is a slot of its number. -/
theorem has_iff : t.Has id ↔ ∃ s, t.node? id = some s := by
  rw [Has, size, node?]
  constructor
  · intro h
    exact ⟨_, Array.getElem?_eq_getElem h⟩
  · rintro ⟨s, hs⟩
    exact (Array.getElem?_eq_some_iff.1 hs).1

/-- A tree has a node if that has a content. -/
theorem has_iff_contentOf : t.Has id ↔ ∃ n, t.contentOf id = some n := by
  rw [has_iff, contentOf]
  constructor
  · rintro ⟨s, hs⟩
    exact ⟨s.content, by rw [hs]; rfl⟩
  · rintro ⟨n, hn⟩
    obtain ⟨s, hs, -⟩ := Option.map_eq_some_iff.1 hn
    exact ⟨s, hs⟩

/-- What has a parent is there. -/
theorem has_of_parentOf (h : t.parentOf c = some p) : t.Has c := by
  obtain ⟨s, hs, -⟩ := Option.bind_eq_some_iff.1 h
  exact has_iff.2 ⟨s, hs⟩

/-- What has children is there. -/
theorem has_of_mem_childrenOf (h : c ∈ t.childrenOf p) : t.Has p := by
  rw [childrenOf] at h
  cases hs : t.node? p with
  | none => rw [hs] at h; cases h
  | some s => exact has_iff.2 ⟨s, hs⟩

/-- What is not there has no slot. -/
theorem node?_eq_none (h : ¬ t.Has id) : t.node? id = none := by
  rw [has_iff, not_exists] at h
  exact Option.eq_none_iff_forall_not_mem.2 h

/-- What is not there has no children. -/
theorem childrenOf_eq_nil (h : ¬ t.Has id) : t.childrenOf id = [] := by
  rw [childrenOf, node?_eq_none h]
  rfl

/-- What is not there has no content. -/
theorem contentOf_eq_none (h : ¬ t.Has id) : t.contentOf id = none := by
  rw [contentOf, node?_eq_none h]
  rfl

/-- A node is made of what can be seen of it. -/
theorem node_eq_ok {n : Node} (h : t.contentOf id = some n) :
    t.node id = .ok ⟨n, t.parentOf id, t.childrenOf id⟩ := by
  obtain ⟨s, hs, rfl⟩ := Option.map_eq_some_iff.1 h
  simp [node, parentOf, childrenOf, hs]

/-- A content that is there is read. -/
theorem content_ok {n : Node} (h : t.contentOf id = some n) : t.content id = .ok n := by
  rw [content, node_eq_ok h]; rfl

/-- The element of a content that is there is read. -/
theorem element?_ok {n : Node} (h : t.contentOf id = some n) : t.element? id = .ok n.element? := by
  rw [element?, node_eq_ok h]; rfl

/-- The parent of a node is read. -/
theorem parent_ok (h : t.Has id) : t.parent id = .ok (t.parentOf id) := by
  obtain ⟨n, hn⟩ := has_iff_contentOf.1 h
  rw [parent, node_eq_ok hn]; rfl

/-- The children of a node are read. -/
theorem children_ok (h : t.Has id) : t.children id = .ok (t.childrenOf id) := by
  obtain ⟨n, hn⟩ := has_iff_contentOf.1 h
  rw [children, node_eq_ok hn]; rfl

/-! ## One node changed -/

/-- A node of the tree can be changed. -/
theorem modify_ok (h : t.Has id) (f : LinkedNode → LinkedNode) :
    t.modify id f = .ok ⟨t.nodes.modify id.index f⟩ :=
  if_pos h

/-- Changing a node leaves all others. -/
theorem node?_modify (t : Tree) (id : NodeId) (f : LinkedNode → LinkedNode) (x : NodeId) :
    node? ⟨t.nodes.modify id.index f⟩ x = if x = id then (t.node? x).map f else t.node? x := by
  obtain ⟨i⟩ := id
  obtain ⟨j⟩ := x
  simp only [node?, Array.getElem?_modify, NodeId.mk.injEq, eq_comm]

/-- Changing a node adds none. -/
@[simp] theorem size_mk_modify (t : Tree) (i : Nat) (f : LinkedNode → LinkedNode) :
    size ⟨t.nodes.modify i f⟩ = t.size := by
  simp [size]

/-- **What an operation on links leaves:** the nodes and their contents as they
were, with these parents and these children. -/
structure Relinked (t u : Tree) (parent : NodeId → Option NodeId) (children : NodeId → List NodeId) :
    Prop where
  size : u.size = t.size
  content : ∀ x, u.contentOf x = t.contentOf x
  parent : ∀ x, u.parentOf x = parent x
  children : ∀ x, u.childrenOf x = children x

/-- Other links are on the same nodes. -/
theorem Relinked.has {parent : NodeId → Option NodeId} {children : NodeId → List NodeId}
    (h : Relinked t u parent children) : u.Has x ↔ t.Has x := by
  rw [Has, Has, h.size]

/-- The content of a node can be set, and nothing else changes. -/
theorem setContent_ok (h : t.Has id) (n : Node) :
    ∃ u, t.setContent id n = .ok u ∧ u.size = t.size ∧
      (∀ x, u.contentOf x = if x = id then some n else t.contentOf x) ∧
      (∀ x, u.parentOf x = t.parentOf x) ∧ ∀ x, u.childrenOf x = t.childrenOf x := by
  refine ⟨_, modify_ok h _, size_mk_modify .., fun x => ?_, fun x => ?_, fun x => ?_⟩
  · rw [contentOf, node?_modify]
    split_ifs with hx
    · obtain ⟨s, hs⟩ := has_iff.1 (hx ▸ h)
      rw [hs]; rfl
    · rfl
  · rw [parentOf, node?_modify]
    split_ifs
    · cases hs : t.node? x <;> simp [parentOf, hs]
    · rfl
  · rw [childrenOf, node?_modify]
    split_ifs
    · cases hs : t.node? x <;> simp [childrenOf, hs]
    · rfl

/-- The tree with the parent of a node set. -/
theorem setParent_relinked (h : t.Has id) (q : Option NodeId) :
    ∃ u, t.modify id (fun s => { s with parent := q }) = .ok u ∧
      Relinked t u (fun x => if x = id then q else t.parentOf x) t.childrenOf := by
  refine ⟨_, modify_ok h _, size_mk_modify .., fun x => ?_, fun x => ?_, fun x => ?_⟩
  · rw [contentOf, contentOf, node?_modify]
    split_ifs
    · cases t.node? x <;> rfl
    · rfl
  · rw [parentOf, node?_modify]
    split_ifs with hx
    · obtain ⟨s, hs⟩ := has_iff.1 (hx ▸ h)
      rw [hs]; rfl
    · rfl
  · rw [childrenOf, node?_modify]
    split_ifs
    · cases hs : t.node? x <;> simp [childrenOf, hs]
    · rfl

/-- The tree with the children of a node changed. -/
theorem setChildren_relinked (h : t.Has id) (f : List NodeId → List NodeId) :
    ∃ u, t.modify id (fun s => { s with children := f s.children }) = .ok u ∧
      Relinked t u t.parentOf fun x => if x = id then f (t.childrenOf x) else t.childrenOf x := by
  refine ⟨_, modify_ok h _, size_mk_modify .., fun x => ?_, fun x => ?_, fun x => ?_⟩
  · rw [contentOf, contentOf, node?_modify]
    split_ifs
    · cases t.node? x <;> rfl
    · rfl
  · rw [parentOf, node?_modify]
    split_ifs
    · cases hs : t.node? x <;> simp [parentOf, hs]
    · rfl
  · rw [childrenOf, node?_modify]
    split_ifs with hx
    · obtain ⟨s, hs⟩ := has_iff.1 (hx ▸ h)
      rw [childrenOf, hs]; rfl
    · rfl

/-! ## Nodes detached -/

/-- The parents once some nodes are detached. -/
def parentsWithout (t : Tree) (ids : List NodeId) (x : NodeId) : Option NodeId :=
  if x ∈ ids then none else t.parentOf x

/-- The children once some nodes are detached. -/
def childrenWithout (t : Tree) (ids : List NodeId) (x : NodeId) : List NodeId :=
  (t.childrenOf x).filter (· ∉ ids)

/-- Detaching one node more takes that one's parent. -/
theorem parentsWithout_cons (t : Tree) (i : NodeId) (ids : List NodeId) (x : NodeId) :
    t.parentsWithout (i :: ids) x = if x = i then none else t.parentsWithout ids x := by
  unfold parentsWithout
  by_cases hx : x = i <;> simp [hx]

/-- The children of nodes are there. -/
theorem WellFormed.has_child (h : t.WellFormed) (hc : c ∈ t.childrenOf p) : t.Has c :=
  h.bounded p c hc

/-- The parents of nodes are there. -/
theorem WellFormed.has_parent (h : t.WellFormed) (hc : t.parentOf c = some p) : t.Has p :=
  has_of_mem_childrenOf ((h.linked p c).2 hc)

/-- Only the children of its parent change when a node is detached. -/
theorem WellFormed.childrenWithout_singleton (h : t.WellFormed) (hx : t.parentOf id ≠ some x) :
    t.childrenWithout [id] x = t.childrenOf x := by
  refine List.filter_eq_self.2 fun c hc => ?_
  have : c ≠ id := by
    rintro rfl
    exact hx ((h.linked x c).1 hc)
  simpa using this

/-- `detach` of a node of the tree. -/
theorem detach_relinked (h : t.WellFormed) (hid : t.Has id) :
    ∃ u, t.detach id = .ok u ∧ Relinked t u (t.parentsWithout [id]) (t.childrenWithout [id]) := by
  rw [detach, parent_ok hid, ok_bind]
  cases hp : t.parentOf id with
  | none =>
    refine ⟨t, rfl, rfl, fun _ => rfl, fun x => ?_, fun x => ?_⟩
    · rw [parentsWithout_cons]
      split_ifs with hx
      · rw [hx, hp]
      · rfl
    · exact (h.childrenWithout_singleton (by rw [hp]; exact nofun)).symm
  | some p =>
    obtain ⟨v, hv, hr⟩ := setParent_relinked hid none
    obtain ⟨u, hu, hs⟩ := setChildren_relinked (hr.has.2 (h.has_parent hp)) (·.filter (· ≠ id))
    refine ⟨u, by simp only [hv, ok_bind]; exact hu, hs.size.trans hr.size,
      fun x => (hs.content x).trans (hr.content x), fun x => ?_, fun x => ?_⟩
    · rw [hs.parent, hr.parent, parentsWithout_cons]
      rfl
    · rw [hs.children, hr.children]
      split_ifs with hx
      · simp [childrenWithout]
      · refine (h.childrenWithout_singleton fun he => hx ?_).symm
        exact Option.some.inj (he.symm.trans hp)

/-- A node without a parent is detached already. -/
theorem detach_of_detached (hid : t.Has id) (hfree : t.parentOf id = none) : t.detach id = .ok t := by
  rw [detach, parent_ok hid, ok_bind, hfree]
  rfl

/-- The state of `detachAll` once the nodes have lost their parents: all of
these are listed, and nothing else but what was. -/
theorem foldlM_orphan (ids : List NodeId) : ∀ (t : Tree) (ps : List NodeId),
    (∀ id ∈ ids, t.Has id) → ∃ u qs, ids.foldlM orphan (t, ps) = .ok (u, qs) ∧
      Relinked t u (t.parentsWithout ids) t.childrenOf ∧
        (∀ q ∈ qs, q ∈ ps ∨ ∃ id ∈ ids, t.parentOf id = some q) ∧ (∀ q ∈ ps, q ∈ qs) ∧
          ∀ id ∈ ids, ∀ q, t.parentOf id = some q → q ∈ qs := by
  induction ids with
  | nil =>
    intro t ps _
    exact ⟨t, ps, rfl, ⟨rfl, fun _ => rfl, fun _ => by simp [parentsWithout], fun _ => rfl⟩,
      fun q hq => .inl hq, fun q hq => hq, fun _ hi => absurd hi List.not_mem_nil⟩
  | cons i ids ih =>
    intro t ps hids
    have hi : t.Has i := hids i (List.mem_cons_self ..)
    rw [List.foldlM_cons, orphan, parent_ok hi, ok_bind]
    cases hp : t.parentOf i with
    | none =>
      obtain ⟨u, qs, hu, hr, hq, hps, hall⟩ := ih t ps fun j hj => hids j (List.mem_cons_of_mem _ hj)
      refine ⟨u, qs, hu, ⟨hr.size, hr.content, fun x => ?_, hr.children⟩, fun q hmem => ?_, hps,
        fun j hj q hjq => ?_⟩
      · rw [hr.parent, parentsWithout_cons]
        split_ifs with hx
        · rw [hx, parentsWithout, hp, ite_self]
        · rfl
      · exact (hq q hmem).imp_right fun ⟨j, hj, he⟩ => ⟨j, List.mem_cons_of_mem _ hj, he⟩
      · rcases List.mem_cons.1 hj with rfl | hj
        · rw [hp] at hjq; cases hjq
        · exact hall j hj q hjq
    | some p =>
      obtain ⟨v, hv, hs⟩ := setParent_relinked hi none
      obtain ⟨u, qs, hu, hr, hq, hps, hall⟩ := ih v (if p ∈ ps then ps else p :: ps) fun j hj =>
        hs.has.2 (hids j (List.mem_cons_of_mem _ hj))
      have hp' : p ∈ if p ∈ ps then ps else p :: ps := by
        split_ifs with hmem
        · exact hmem
        · exact List.mem_cons_self ..
      refine ⟨u, qs, by simp only [hv, ok_bind]; exact hu,
        ⟨hr.size.trans hs.size, fun x => (hr.content x).trans (hs.content x), fun x => ?_,
          fun x => (hr.children x).trans (hs.children x)⟩, fun q hmem => ?_, fun q hmem => ?_,
        fun j hj q hjq => ?_⟩
      · rw [hr.parent, parentsWithout_cons, parentsWithout, parentsWithout, hs.parent]
        split_ifs <;> rfl
      · rcases hq q hmem with h | ⟨j, hj, he⟩
        · split_ifs at h
          · exact .inl h
          · rcases List.mem_cons.1 h with rfl | h
            · exact .inr ⟨i, List.mem_cons_self .., hp⟩
            · exact .inl h
        · rw [hs.parent] at he
          split_ifs at he
          exact .inr ⟨j, List.mem_cons_of_mem _ hj, he⟩
      · refine hps q ?_
        split_ifs
        · exact hmem
        · exact List.mem_cons_of_mem _ hmem
      · by_cases hji : j = i
        · exact hps q (Option.some.inj (hp.symm.trans (hji ▸ hjq)) ▸ hp')
        · refine hall j ((List.mem_cons.1 hj).resolve_left hji) q ?_
          rw [hs.parent, if_neg hji]
          exact hjq

/-- The children once those of some nodes are reduced to their own. -/
theorem foldlM_sweep (ps : List NodeId) : ∀ t : Tree, (∀ p ∈ ps, t.Has p) →
    (∀ p c, c ∈ t.childrenOf p → t.Has c) → ∃ u, ps.foldlM sweep t = .ok u ∧
      Relinked t u t.parentOf fun x =>
        if x ∈ ps then (t.childrenOf x).filter (t.parentOf · = some x) else t.childrenOf x := by
  induction ps with
  | nil =>
    intro t _ _
    exact ⟨t, rfl, rfl, fun _ => rfl, fun _ => rfl, fun x => by simp⟩
  | cons p ps ih =>
    intro t hps hcs
    have hp : t.Has p := hps p (List.mem_cons_self ..)
    have hk : (t.childrenOf p).filterM (fun c => do return (← t.parent c) = some p) =
        .ok ((t.childrenOf p).filter (t.parentOf · = some p)) :=
      filterM_ok fun c hc => by rw [parent_ok (hcs p c hc)]; rfl
    obtain ⟨v, hv, hs⟩ := setChildren_relinked hp
      fun _ => (t.childrenOf p).filter (t.parentOf · = some p)
    obtain ⟨u, hu, hr⟩ := ih v (fun q hq => hs.has.2 (hps q (List.mem_cons_of_mem _ hq)))
      fun q c hc => by
        rw [hs.children] at hc
        refine hs.has.2 (hcs q c ?_)
        split_ifs at hc with hq
        · exact hq ▸ List.mem_of_mem_filter hc
        · exact hc
    refine ⟨u, ?_, hr.size.trans hs.size, fun x => (hr.content x).trans (hs.content x),
      fun x => (hr.parent x).trans (hs.parent x), fun x => ?_⟩
    · rw [List.foldlM_cons, sweep, children_ok hp, ok_bind, hk, ok_bind, hv, ok_bind]
      exact hu
    · rw [hr.children, hs.children]
      simp only [hs.parent, List.mem_cons]
      by_cases hx : x = p
      · subst hx
        simp
      · simp [hx]

/-- `detachAll` of nodes of the tree. -/
theorem detachAll_relinked {ids : List NodeId} (h : t.WellFormed) (hids : ∀ id ∈ ids, t.Has id) :
    ∃ u, t.detachAll ids = .ok u ∧
      Relinked t u (t.parentsWithout ids) (t.childrenWithout ids) := by
  obtain ⟨v, ps, hv, hr, hps, -, hall⟩ := foldlM_orphan ids t [] hids
  obtain ⟨u, hu, hs⟩ := foldlM_sweep ps v
    (fun p hp => by
      rcases hps p hp with hp | ⟨i, -, hi⟩
      · cases hp
      · exact hr.has.2 (h.has_parent hi))
    fun p c hc => hr.has.2 (h.has_child (hr.children p ▸ hc))
  refine ⟨u, by rw [detachAll, hv, ok_bind]; exact hu, hs.size.trans hr.size,
    fun x => (hs.content x).trans (hr.content x), fun x => (hs.parent x).trans (hr.parent x),
    fun x => ?_⟩
  rw [hs.children, hr.children]
  split_ifs with hx
  · refine List.filter_congr fun c hc => ?_
    rw [hr.parent, parentsWithout]
    split_ifs with hmem
    · simp [hmem]
    · simp [hmem, (h.linked x c).1 hc]
  · refine (List.filter_eq_self.2 fun c hc => ?_).symm
    have : c ∉ ids := fun hmem => hx (hall c hmem x ((h.linked x c).1 hc))
    simpa using this

/-! ## Nodes put in -/

/-- The parents once some nodes are put in. -/
def parentsWith (t : Tree) (parent : NodeId) (new : List NodeId) (x : NodeId) : Option NodeId :=
  if x ∈ new then some parent else t.parentOf x

/-- The children once some nodes are put in. -/
def childrenWith (t : Tree) (parent : NodeId) (new : List NodeId) (before : Option NodeId)
    (x : NodeId) : List NodeId :=
  if x = parent then splice before new (t.childrenOf x) else t.childrenOf x

/-- Nodes that have no parents yet are adopted one by one, and only their parents change. -/
theorem foldlM_adopt (parent : NodeId) (new : List NodeId) : ∀ t : Tree, (∀ n ∈ new, t.Has n) →
    (∀ n ∈ new, t.parentOf n = none) → parent ∉ new → new.Nodup →
      ∃ u, new.foldlM (adopt parent) t = .ok u ∧
        Relinked t u (t.parentsWith parent new) t.childrenOf := by
  induction new with
  | nil =>
    intro t _ _ _ _
    exact ⟨t, rfl, rfl, fun _ => rfl, fun _ => by simp [parentsWith], fun _ => rfl⟩
  | cons n new ih =>
    intro t hnew hfree hp hn
    have hnt : t.Has n := hnew n (List.mem_cons_self ..)
    rw [List.mem_cons, not_or] at hp
    rw [List.nodup_cons] at hn
    obtain ⟨v, hv, hs⟩ := setParent_relinked hnt (some parent)
    obtain ⟨u, hu, hr⟩ := ih v (fun m hm => hs.has.2 (hnew m (List.mem_cons_of_mem _ hm)))
      (fun m hm => by
        rw [hs.parent, if_neg (by rintro rfl; exact hn.1 hm)]
        exact hfree m (List.mem_cons_of_mem _ hm))
      hp.2 hn.2
    refine ⟨u, ?_, hr.size.trans hs.size, fun x => (hr.content x).trans (hs.content x), fun x => ?_,
      fun x => (hr.children x).trans (hs.children x)⟩
    · rw [List.foldlM_cons, adopt, if_neg hp.1, parent_ok hnt, ok_bind,
        hfree n (List.mem_cons_self ..), hv]
      exact hu
    · rw [hr.parent, parentsWith, parentsWith, hs.parent]
      by_cases hx : x = n <;> simp [hx]

/-- `insertAllBefore` of detached nodes of the tree. -/
theorem insertAllBefore_relinked {parent : NodeId} {new : List NodeId} (before : Option NodeId)
    (hp : t.Has parent) (hnew : ∀ n ∈ new, t.Has n) (hfree : ∀ n ∈ new, t.parentOf n = none)
    (hpn : parent ∉ new) (hn : new.Nodup) :
    ∃ u, t.insertAllBefore parent new before = .ok u ∧
      Relinked t u (t.parentsWith parent new) (t.childrenWith parent new before) := by
  obtain ⟨v, hv, hr⟩ := foldlM_adopt parent new t hnew hfree hpn hn
  obtain ⟨u, hu, hs⟩ := setChildren_relinked (hr.has.2 hp) (splice before new)
  refine ⟨u, by rw [insertAllBefore, hv, ok_bind]; exact hu, hs.size.trans hr.size,
    fun x => (hs.content x).trans (hr.content x), fun x => (hs.parent x).trans (hr.parent x),
    fun x => ?_⟩
  rw [hs.children, hr.children, childrenWith]

end Tree
end PageBinding
