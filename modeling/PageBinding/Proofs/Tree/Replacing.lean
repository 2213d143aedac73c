/-
# A node replaced

`Replaced t u a outs` says that one tree is another one in which what was held at
a node has been replaced by others.  They are made of its nodes and of new ones,
and stand where the node was; what was not within the node stays as it was.

A node is replaced by nothing when it is detached (`Beside.detach_replaced`), by
others when these are put in afterwards before what followed it
(`Replaced.insert`), and by itself when those inside it are replaced one after
the other (`Midway.step`, `Midway.replaced`).
-/

import PageBinding.Proofs.Tree.Exchange
import PageBinding.Proofs.Tree.Planting

namespace PageBinding
namespace Tree

open Html (Node)
open Numbered (idsAll)

variable {t u v w : Tree} {a b : Numbered} {n : Node} {outs done todo : List Numbered}
  {p x : NodeId}

/-- **What replacing a node leaves.** -/
structure Replaced (t u : Tree) (a : Numbered) (outs : List Numbered) : Prop where
  wellFormed : u.WellFormed
  size_le : t.size ≤ u.size
  content : ∀ x, t.Has x → x ∉ a.ids → u.contentOf x = t.contentOf x
  parent : ∀ x, t.Has x → x ∉ a.ids → u.parentOf x = t.parentOf x
  children : ∀ x, t.Has x → x ∉ a.ids →
    u.childrenOf x = exchange a.top (outs.map Numbered.top) (t.childrenOf x)
  detached : t.parentOf a.top = none → u.parentOf a.top = none
  holds : ∀ b ∈ outs, u.Holds b
  fresh : ∀ x ∈ idsAll outs, x ∈ a.ids ∨ ¬ t.Has x

/-- A tree with the links of another one, and with its contents but for those
within a node.  There may be new nodes. -/
structure Beside (t u : Tree) (a : Numbered) : Prop where
  wellFormed : u.WellFormed
  size_le : t.size ≤ u.size
  content : ∀ x, t.Has x → x ∉ a.ids → u.contentOf x = t.contentOf x
  parent : ∀ x, t.Has x → u.parentOf x = t.parentOf x
  children : ∀ x, t.Has x → u.childrenOf x = t.childrenOf x

/-- A tree is beside itself. -/
theorem WellFormed.beside (hw : t.WellFormed) (a : Numbered) : Beside t t a :=
  ⟨hw, Nat.le_refl _, fun _ _ _ => rfl, fun _ _ => rfl, fun _ _ => rfl⟩

/-- A well-formed tree that has grown has the links of what it was. -/
theorem GrowsTo.beside (hg : t.GrowsTo u) (hu : u.WellFormed) (a : Numbered) : Beside t u a :=
  ⟨hu, hg.size_le, fun _ hx _ => hg.contentOf hx, fun _ hx => hg.parentOf hx,
    fun _ hx => hg.childrenOf hx⟩

/-- A new node and its content do not count for the old ones. -/
theorem Beside.growsTo (h : Beside u v a) (hg : t.GrowsTo u) (hf : ∀ x ∈ a.ids, ¬ t.Has x) :
    t.GrowsTo v := by
  refine .of_views (Nat.le_trans hg.size_le h.size_le) (fun x hx => ?_) (fun x hx => ?_)
    fun x hx => ?_
  · rw [h.content x (hg.has hx) fun hm => hf x hm hx, hg.contentOf hx]
  · rw [h.parent x (hg.has hx), hg.parentOf hx]
  · rw [h.children x (hg.has hx), hg.childrenOf hx]

/-- The content of the top node set. -/
theorem Holds.setContent_beside (ha : t.Holds a) (hw : t.WellFormed) (n : Node) :
    ∃ u, t.setContent a.top n = .ok u ∧ Beside t u a ∧
      ∀ x, u.contentOf x = if x = a.top then some n else t.contentOf x := by
  obtain ⟨u, hu, hs, hn, hp, hc⟩ := setContent_ok ha.has_top n
  refine ⟨u, hu, ⟨hw.of_links hs hp hc, hs.ge, fun x _ hx => ?_, fun x _ => hp x, fun x _ => hc x⟩, hn⟩
  rw [hn, if_neg]
  rintro rfl
  exact hx a.top_mem_ids

/-- **A detached node is replaced by nothing.** -/
theorem Beside.detach_replaced (h : Beside t v a) (ha : t.Holds a) :
    ∃ u, v.detach a.top = .ok u ∧ Replaced t u a [] ∧ u.size = v.size ∧
      (∀ x, u.contentOf x = v.contentOf x) ∧
        ∀ x, u.childrenOf x = v.childrenWithout [a.top] x := by
  have hv : v.Has a.top := Nat.lt_of_lt_of_le ha.has_top h.size_le
  obtain ⟨u, hu, hr⟩ := detach_relinked h.wellFormed hv
  refine ⟨u, hu, ⟨h.wellFormed.of_detached hr, hr.size ▸ h.size_le, fun x hx hm => ?_,
    fun x hx hm => ?_, fun x hx _ => ?_, fun _ => ?_, fun b hb => ?_, fun x hx => ?_⟩, hr.size,
    hr.content, hr.children⟩
  · rw [hr.content, h.content x hx hm]
  · rw [hr.parent, parentsWithout, if_neg, h.parent x hx]
    rw [List.mem_singleton]
    rintro rfl
    exact hm a.top_mem_ids
  · rw [hr.children, childrenWithout, h.children x hx, List.map_nil, exchange_nil]
  · rw [hr.parent, parentsWithout, if_pos (List.mem_singleton_self _)]
  · cases hb
  · cases hx

/-- **A node is replaced by those that are put in before what followed it,** once
it is detached. -/
theorem Replaced.insert (h : Replaced t u a []) (hw : t.WellFormed)
    (hp : t.parentOf a.top = some p)
    (hi : Inserted u w p (follower? a.top (t.childrenOf p)) outs) : Replaced t w a outs := by
  have hu : ∀ {x}, t.Has x → u.Has x := fun hx => Nat.lt_of_lt_of_le hx h.size_le
  refine ⟨hi.wellFormed, Nat.le_trans h.size_le hi.size_le,
    fun x hx hm => (hi.content x (hu hx)).trans (h.content x hx hm),
    fun x hx hm => (hi.parent x (hu hx)).trans (h.parent x hx hm), fun x hx hm => ?_, fun hn => ?_,
    hi.holds, fun x hx => .inr fun ht => hi.fresh x hx (hu ht)⟩
  · rw [hi.children x (hu hx), childrenWith, h.children x hx hm, List.map_nil]
    split_ifs with hxp
    · rw [hxp]
      exact splice_follower? (hw.nodup p) ((hw.linked p _).2 hp)
    · have hnot : a.top ∉ t.childrenOf x := fun hc =>
        hxp (Option.some.inj (((hw.linked x _).1 hc).symm.trans hp))
      rw [exchange_of_notMem hnot, exchange_of_notMem hnot]
  · rw [hp] at hn
    cases hn

/-! ## Those inside a node -/

/-- What is inside a node has been replaced in part. -/
structure Midway (t v : Tree) (a : Numbered) (n : Node) (done todo : List Numbered) : Prop where
  wellFormed : v.WellFormed
  size_le : t.size ≤ v.size
  content : ∀ x, t.Has x → x ∉ a.ids → v.contentOf x = t.contentOf x
  parent : ∀ x, t.Has x → x ∉ a.ids → v.parentOf x = t.parentOf x
  children : ∀ x, t.Has x → x ∉ a.ids → v.childrenOf x = t.childrenOf x
  parent_top : v.parentOf a.top = t.parentOf a.top
  holds : v.Holds (.node a.top n (done ++ todo))
  fresh : ∀ x ∈ idsAll (done ++ todo), x ∈ a.ids ∨ ¬ t.Has x

/-- Nothing has been replaced yet. -/
theorem Beside.midway (h : Beside t v a) (ha : t.Holds a) (hw : t.WellFormed)
    (hn : ∀ x, v.contentOf x = if x = a.top then some n else t.contentOf x) :
    Midway t v a n [] a.inside := by
  refine ⟨h.wellFormed, h.size_le, h.content, fun x hx _ => h.parent x hx,
    fun x hx _ => h.children x hx, h.parent _ ha.has_top, holds_iff.2 ⟨?_, ?_, fun b hb => ?_⟩,
    fun x hx => .inl (Numbered.ids_eq a ▸ List.mem_cons_of_mem _ hx)⟩
  · exact (hn a.top).trans (if_pos rfl)
  · exact (h.children _ ha.has_top).trans ha.children
  · refine (ha.of_mem hb).frame (fun x hx => ?_) fun x hx => h.children x ((ha.of_mem hb).has hx)
    rw [hn, if_neg]
    rintro rfl
    exact ha.top_notMem_idsAll hw (Numbered.mem_idsAll.2 ⟨b, hb, hx⟩)

section
variable (h : Midway t v a n done (b :: todo))
include h

/-- The next one inside is a child of the node only. -/
theorem Midway.notMem_children {x : NodeId} (hx : x ≠ a.top) : b.top ∉ v.childrenOf x := by
  intro hc
  have hp : v.parentOf b.top = some a.top :=
    (h.wellFormed.linked _ _).1 (h.holds.mem_children List.mem_append_cons_self)
  exact hx (Option.some.inj (((h.wellFormed.linked _ _).1 hc).symm.trans hp))

/-- The top is none of the nodes of what is inside. -/
theorem Midway.top_notMem : a.top ∉ b.ids := fun hm =>
  h.holds.top_notMem_idsAll h.wellFormed (Numbered.mem_idsAll.2 ⟨b, List.mem_append_cons_self, hm⟩)

/-- The others inside stay when the next one is replaced. -/
theorem Midway.holds_other {c : Numbered} (hr : Replaced v w b outs) (hc : c ∈ done ++ b :: todo)
    (hne : c.top ≠ b.top) : w.Holds c := by
  have hheld := h.holds.of_mem hc
  have hout : ∀ {x}, x ∈ c.ids → x ∉ b.ids := fun hx =>
    h.holds.disjoint_of_mem h.wellFormed hc List.mem_append_cons_self hne hx
  refine hheld.frame (fun x hx => hr.content x (hheld.has hx) (hout hx)) fun x hx => ?_
  rw [hr.children x (hheld.has hx) (hout hx), exchange_of_notMem (h.notMem_children ?_)]
  rintro rfl
  exact h.holds.top_notMem_idsAll h.wellFormed (Numbered.mem_idsAll.2 ⟨c, hc, hx⟩)

/-- What is inside then is new, if it was not inside before. -/
theorem Midway.fresh_step (hr : Replaced v w b outs) :
    ∀ x ∈ idsAll (done ++ outs ++ todo), x ∈ a.ids ∨ ¬ t.Has x := by
  intro x hx
  have hmem : ∀ {c}, c ∈ done ++ b :: todo → x ∈ c.ids → x ∈ a.ids ∨ ¬ t.Has x := fun hc hx =>
    h.fresh x (Numbered.mem_idsAll.2 ⟨_, hc, hx⟩)
  obtain ⟨c, hc, hx⟩ := Numbered.mem_idsAll.1 hx
  rcases List.mem_append.1 hc with hc | hc
  · rcases List.mem_append.1 hc with hc | hc
    · exact hmem (List.mem_append_left _ hc) hx
    · rcases hr.fresh x (Numbered.mem_idsAll.2 ⟨c, hc, hx⟩) with hxb | hxv
      · exact hmem List.mem_append_cons_self hxb
      · exact .inr fun ht => hxv (Nat.lt_of_lt_of_le ht h.size_le)
  · exact hmem (List.mem_append_right _ (List.mem_cons_of_mem _ hc)) hx

/-- The next one inside is replaced. -/
theorem Midway.step (hr : Replaced v w b outs) : Midway t w a n (done ++ outs) todo := by
  have hv : ∀ {x}, t.Has x → v.Has x := fun hx => Nat.lt_of_lt_of_le hx h.size_le
  have hout : ∀ {x}, t.Has x → x ∉ a.ids → x ∉ b.ids := fun hx hm hxb =>
    (h.fresh _ (Numbered.mem_idsAll.2 ⟨b, List.mem_append_cons_self, hxb⟩)).elim hm fun hf => hf hx
  have hne : ∀ {x}, x ∉ a.ids → x ≠ a.top := by
    rintro x hm rfl
    exact hm a.top_mem_ids
  have hvt : v.Has a.top := h.holds.has_top
  have hnodup : (done.map Numbered.top ++ b.top :: todo.map Numbered.top).Nodup := by
    have := h.wellFormed.nodup a.top
    rwa [show v.childrenOf a.top = _ from h.holds.children, Numbered.inside, List.map_append,
      List.map_cons] at this
  rw [List.nodup_append'] at hnodup
  refine ⟨hr.wellFormed, Nat.le_trans h.size_le hr.size_le, fun x hx hm => ?_, fun x hx hm => ?_,
    fun x hx hm => ?_, ?_, holds_iff.2 ⟨?_, ?_, fun c hc => ?_⟩, h.fresh_step hr⟩
  · rw [hr.content x (hv hx) (hout hx hm), h.content x hx hm]
  · rw [hr.parent x (hv hx) (hout hx hm), h.parent x hx hm]
  · rw [hr.children x (hv hx) (hout hx hm), exchange_of_notMem (h.notMem_children (hne hm)),
      h.children x hx hm]
  · rw [hr.parent _ hvt h.top_notMem, h.parent_top]
  · exact (hr.content _ hvt h.top_notMem).trans h.holds.content
  · change w.childrenOf a.top = _
    rw [hr.children _ hvt h.top_notMem, show v.childrenOf a.top = _ from h.holds.children,
      Numbered.inside, Numbered.inside, List.map_append, List.map_cons, List.map_append,
      List.map_append]
    exact exchange_split (fun hm => hnodup.2.2 hm (List.mem_cons_self ..))
      (List.nodup_cons.1 hnodup.2.1).1
  · rcases List.mem_append.1 hc with hc | hc
    · rcases List.mem_append.1 hc with hc | hc
      · refine h.holds_other hr (List.mem_append_left _ hc) fun he => ?_
        exact hnodup.2.2 (List.mem_map_of_mem hc) (he ▸ List.mem_cons_self ..)
      · exact hr.holds c hc
    · refine h.holds_other hr (List.mem_append_right _ (List.mem_cons_of_mem _ hc)) fun he => ?_
      exact (List.nodup_cons.1 hnodup.2.1).1 (he ▸ List.mem_map_of_mem hc)

end

/-- **A node is replaced by itself** once all of those inside it are replaced. -/
theorem Midway.replaced (h : Midway t v a n done []) : Replaced t v a [.node a.top n done] := by
  have hd := h.holds
  rw [List.append_nil] at hd
  refine ⟨h.wellFormed, h.size_le, h.content, h.parent, fun x hx hm => ?_, fun hp => ?_,
    fun b hb => ?_, fun x hx => ?_⟩
  · exact (h.children x hx hm).trans (exchange_self ..).symm
  · rw [h.parent_top, hp]
  · exact List.mem_singleton.1 hb ▸ hd
  · have hf := h.fresh x
    rw [List.append_nil] at hf
    rw [idsAll, idsAll, List.append_nil, Numbered.ids, List.mem_cons] at hx
    rcases hx with rfl | hx
    · exact .inl a.top_mem_ids
    · exact hf hx

end Tree
end PageBinding
