/-
# Refilling a place

A place is valid in a tree that has its nodes (`Place.Valid`).  Refilling a valid
place with what is below the root of a tree succeeds; the new nodes hold copies
of that and stand before the first of the old nodes, or before what comes after
the place if there are none, and the old nodes are detached
(`Place.refill_refilled`).
-/

import PageBinding.Page.LivePage
import PageBinding.Proofs.Tree.Exchange
import PageBinding.Proofs.Tree.Planting

namespace PageBinding

open Html (Node Document)
open Numbered (idsAll numberAllFrom)

namespace Page

open PageBinding.Tree (Relinked Inserted following)

/-- The tree has the nodes of a place. -/
structure Place.Valid (t : Tree) (p : Place) : Prop where
  parent : t.Has p.parent
  nodes : ∀ x ∈ p.nodes, t.Has x
  next : ∀ x, p.next = some x → t.Has x

/-- What comes after the nodes of a place. -/
def Place.afterOf (t : Tree) (p : Place) : Option NodeId :=
  match p.nodes.getLast? with
  | none => p.next
  | some last => t.following last

/-- Where the new nodes of a place are put in. -/
def Place.before (t : Tree) (p : Place) : Option NodeId := p.nodes.head?.or (p.afterOf t)

/-- How many nodes there are below the parent of a place from the one on that came after
the nodes when they were put there. -/
def Place.distance (t : Tree) (p : Place) : Nat :=
  match p.next with
  | none => 0
  | some x => ((t.childrenOf p.parent).dropWhile (· ≠ x)).length

/-- **What refilling a place leaves.** -/
structure Refilled (t u : Tree) (p filled : Place) (news : List Numbered) : Prop where
  wellFormed : u.WellFormed
  size_le : t.size ≤ u.size
  content : ∀ x, t.Has x → u.contentOf x = t.contentOf x
  parent : ∀ x, t.Has x → u.parentOf x = t.parentsWithout p.nodes x
  children : ∀ x, t.Has x → u.childrenOf x =
    (t.childrenWith p.parent (news.map Numbered.top) (p.before t) x).filter (· ∉ p.nodes)
  holds : ∀ b ∈ news, u.Holds b
  fresh : ∀ x ∈ idsAll news, ¬ t.Has x
  filled_eq : filled = ⟨p.parent, news.map Numbered.top,
    Place.afterOf u ⟨p.parent, news.map Numbered.top, p.afterOf t⟩⟩

variable {t u v : Tree} {p filled : Place} {news : List Numbered} {r : Numbered} {x : NodeId}

/-- A place is no further from the end than there are children. -/
theorem Place.distance_le (t : Tree) (p : Place) :
    p.distance t ≤ (t.childrenOf p.parent).length := by
  rw [distance]
  cases p.next with
  | none => exact Nat.zero_le _
  | some x => exact (List.dropWhile_suffix _).length_le

/-- Nodes that are put in before what came after a place are put in that far from the
end. -/
theorem Place.splice_next (t : Tree) (p : Place) (new : List NodeId) :
    Tree.splice p.next new (t.childrenOf p.parent) =
      (t.childrenOf p.parent).take ((t.childrenOf p.parent).length - p.distance t) ++ new ++
        (t.childrenOf p.parent).drop ((t.childrenOf p.parent).length - p.distance t) := by
  rw [distance]
  cases p.next with
  | none => simp [Tree.splice]
  | some x => exact Tree.splice_some x new _

/-- What comes after a place is found. -/
theorem Place.after_ok (hw : t.WellFormed) (hp : p.Valid t) : p.after t = .ok (p.afterOf t) := by
  rw [after, afterOf]
  cases hl : p.nodes.getLast? with
  | none => rfl
  | some last => exact hw.nextSibling_ok (hp.nodes last (List.mem_of_getLast? hl))

/-- What comes after a place is a node of the tree. -/
theorem Place.has_afterOf (hw : t.WellFormed) (hp : p.Valid t) (h : p.afterOf t = some x) :
    t.Has x := by
  rw [afterOf] at h
  cases hl : p.nodes.getLast? with
  | none => rw [hl] at h; exact hp.next x h
  | some last => rw [hl] at h; exact hw.has_following h

/-- The old nodes are detached once the new ones are put in. -/
theorem refilled_of_inserted (hp : p.Valid t) (hi : Inserted t u p.parent (p.before t) news)
    (hr : Relinked u v (u.parentsWithout p.nodes) (u.childrenWithout p.nodes)) :
    Refilled t v p ⟨p.parent, news.map Numbered.top,
      Place.afterOf v ⟨p.parent, news.map Numbered.top, p.afterOf t⟩⟩ news := by
  refine ⟨hi.wellFormed.of_detached hr, hr.size ▸ hi.size_le, fun x hx => ?_, fun x hx => ?_,
    fun x hx => ?_, fun b hb => ?_, hi.fresh, rfl⟩
  · rw [hr.content, hi.content x hx]
  · rw [hr.parent, Tree.parentsWithout, hi.parent x hx]
    rfl
  · rw [hr.children, Tree.childrenWithout, hi.children x hx]
  · have hb' := hi.holds b hb
    refine hb'.frame (fun x _ => hr.content x) fun x hx => ?_
    rw [hr.children, Tree.childrenWithout, List.filter_eq_self]
    intro c hc
    have hnew : ¬ t.Has c := hi.fresh c (Numbered.mem_idsAll.2 ⟨b, hb, hb'.child_mem hx hc⟩)
    have : c ∉ p.nodes := fun hm => hnew (hp.nodes c hm)
    simpa using this

/-- **A valid place can be refilled.** -/
theorem Place.refill_refilled {content : Tree} (hw : t.WellFormed) (hp : p.Valid t)
    (hc : content.WellFormed) (hr : content.Holds r) (htop : r.top = Tree.root) :
    ∃ u filled, p.refill t content = .ok (u, filled) ∧
      Refilled t u p filled (numberAllFrom t.size (r.inside.map Numbered.document)) := by
  obtain ⟨v, hv, hi⟩ := hw.insertTreeBefore_inserted hc hr htop hp.parent (p.before t)
  have hold : ∀ {x}, t.Has x → v.Has x := fun hx => Nat.lt_of_lt_of_le hx hi.size_le
  obtain ⟨u, hu, hd⟩ := Tree.detachAll_relinked hi.wellFormed fun x hx => hold (hp.nodes x hx)
  have href := refilled_of_inserted hp hi hd
  have hvalid : Place.Valid u ⟨p.parent,
      (numberAllFrom t.size (r.inside.map Numbered.document)).map Numbered.top, p.afterOf t⟩ := by
    refine ⟨hd.has.2 (hold hp.parent), fun x hx => ?_, fun x hx => ?_⟩
    · obtain ⟨b, hb, rfl⟩ := List.mem_map.1 hx
      exact (href.holds b hb).has_top
    · exact hd.has.2 (hold (has_afterOf hw hp hx))
  refine ⟨u, _, ?_, href⟩
  rw [refill, after_ok hw hp, ok_bind]
  rw [before] at hv
  rw [hv, ok_bind]
  dsimp only
  rw [hu, ok_bind, after_ok href.wellFormed hvalid]
  rfl

namespace Refilled

/-- Refilling a place keeps all nodes of the tree. -/
theorem has (h : Refilled t u p filled news) (hx : t.Has x) : u.Has x :=
  Nat.lt_of_lt_of_le hx h.size_le

/-- A place that was refilled is one of the tree that comes of it. -/
theorem valid (h : Refilled t u p filled news) (hw : t.WellFormed) (hp : p.Valid t) :
    filled.Valid u := by
  have hnodes : ∀ x ∈ news.map Numbered.top, u.Has x := fun x hx => by
    obtain ⟨b, hb, rfl⟩ := List.mem_map.1 hx
    exact (h.holds b hb).has_top
  have hbefore : Place.Valid u ⟨p.parent, news.map Numbered.top, p.afterOf t⟩ :=
    ⟨h.has hp.parent, hnodes, fun y hy => h.has (Place.has_afterOf hw hp hy)⟩
  rw [h.filled_eq]
  exact ⟨h.has hp.parent, hnodes, fun x hx => Place.has_afterOf h.wellFormed hbefore hx⟩

/-- A place keeps its parent when it is refilled. -/
theorem parent_eq (h : Refilled t u p filled news) : filled.parent = p.parent := by
  rw [h.filled_eq]

/-- The nodes of a place are the new ones once it is refilled. -/
theorem nodes_eq (h : Refilled t u p filled news) : filled.nodes = news.map Numbered.top := by
  rw [h.filled_eq]

/-- The children of other nodes stay. -/
theorem children_of_ne (h : Refilled t u p filled news) (hw : t.WellFormed)
    (hnodes : ∀ y ∈ p.nodes, t.parentOf y = some p.parent) (hx : t.Has x) (hne : x ≠ p.parent) :
    u.childrenOf x = t.childrenOf x := by
  rw [h.children x hx, Tree.childrenWith, if_neg hne, List.filter_eq_self]
  intro c hc
  rw [decide_eq_true_eq]
  intro hm
  exact hne (Option.some.inj (((hw.linked x c).1 hc).symm.trans (hnodes c hm)))

/-- The new nodes stand where the old ones were. -/
theorem children_of_nodes {pre post : List NodeId} (h : Refilled t u p filled news)
    (hw : t.WellFormed) (hp : p.Valid t) (hne : p.nodes ≠ [])
    (hc : t.childrenOf p.parent = pre ++ p.nodes ++ post) :
    u.childrenOf p.parent = pre ++ news.map Numbered.top ++ post := by
  obtain ⟨y, ys, hys⟩ : ∃ y ys, p.nodes = y :: ys := List.exists_cons_of_ne_nil hne
  have hn := hw.nodup p.parent
  rw [hc, List.append_assoc, List.nodup_append', List.nodup_append'] at hn
  obtain ⟨-, ⟨-, -, hpost⟩, hpre⟩ := hn
  have hpre' : ∀ x ∈ pre, x ∉ p.nodes := fun x hx hm => hpre hx (List.mem_append_left _ hm)
  have hnew : ∀ x ∈ news.map Numbered.top, x ∉ p.nodes := fun x hx hm => by
    obtain ⟨b, hb, rfl⟩ := List.mem_map.1 hx
    exact h.fresh _ (Numbered.mem_idsAll.2 ⟨b, hb, b.top_mem_ids⟩) (hp.nodes _ hm)
  have hkeep : ∀ {l : List NodeId}, (∀ x ∈ l, x ∉ p.nodes) → l.filter (· ∉ p.nodes) = l := fun hl =>
    List.filter_eq_self.2 fun x hx => decide_eq_true (hl x hx)
  have hdrop : p.nodes.filter (· ∉ p.nodes) = [] :=
    List.filter_eq_nil_iff.2 fun x hx => by simpa using hx
  have hbefore : p.before t = some y := by rw [Place.before, hys]; rfl
  have hy : ∀ c ∈ pre, decide (c ≠ y) = true := fun c hx => decide_eq_true fun he =>
    hpre' c hx (hys ▸ he ▸ List.mem_cons_self ..)
  have hsplice : Tree.splice (some y) (news.map Numbered.top) (pre ++ p.nodes ++ post) =
      pre ++ news.map Numbered.top ++ (p.nodes ++ post) := by
    rw [List.append_assoc pre, Tree.splice, List.takeWhile_append_of_pos hy,
      List.dropWhile_append_of_pos hy, hys]
    simp
  rw [h.children _ hp.parent, Tree.childrenWith, if_pos rfl, hbefore, hc, hsplice,
    List.filter_append, List.filter_append, List.filter_append, hkeep hpre', hkeep hnew, hdrop,
    hkeep fun x hx hm => hpost hm hx, List.nil_append]

/-- Where there are no old nodes, the new ones stand before what came after the place. -/
theorem children_of_empty (h : Refilled t u p filled news) (hp : p.Valid t) (hnil : p.nodes = []) :
    u.childrenOf p.parent = Tree.splice p.next (news.map Numbered.top) (t.childrenOf p.parent) := by
  have hbefore : p.before t = p.next := by rw [Place.before, Place.afterOf, hnil]; rfl
  rw [h.children _ hp.parent, Tree.childrenWith, if_pos rfl, hbefore, hnil]
  simp

end Refilled

end Page
end PageBinding
