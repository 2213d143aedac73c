/-
# Trees under other numbers

A tree is another one under other numbers (`Renamed`) if, as far as the root leads,
different nodes have different new numbers, and a node has under its new number the
content that it had, and as its children the new numbers of those that it had.  What the
root does not lead to counts for neither of the trees.

Whatever is found from the root on is found under the new number: the parent of a node
(`Renamed.parentOf`) and the sibling that follows it (`Renamed.following`), the nodes above
it (`Renamed.ancestorsOrSelf`), the element of an `id` (`Renamed.findById?`).

Compaction gives nodes other numbers (`Compacted.renamed`).  As it numbers them by their
place, it makes one and the same tree of a tree and of that tree under other numbers
(`Renamed.compacted_eq`).
-/

import PageBinding.Proofs.Tree.Compacting
import PageBinding.Proofs.Tree.Exchange
import PageBinding.Proofs.Tree.Planting

namespace PageBinding
namespace Tree

open Html (Node)
open Numbered (idsAll)

/-- A well-formed tree has a root, and that has no parent. -/
structure Rooted (t : Tree) : Prop where
  wellFormed : t.WellFormed
  has : t.Has root
  parent : t.parentOf root = none

/-- **A tree is another one under other numbers,** as far as the root leads. -/
structure Renamed (g : NodeId → NodeId) (t u : Tree) : Prop where
  fixed : g root = root
  inj : ∀ x y, t.Within root x → t.Within root y → g x = g y → x = y
  content : ∀ x, t.Within root x → u.contentOf (g x) = t.contentOf x
  children : ∀ x, t.Within root x → u.childrenOf (g x) = (t.childrenOf x).map g

variable {t u v w : Tree} {g : NodeId → NodeId} {a b : Numbered} {x y p : NodeId}
  {new new' : Renumbering}

/-! ## Ways down -/

namespace Rooted

/-- A rooted tree holds a document at its root. -/
theorem exists_holds (h : t.Rooted) : ∃ a, a.top = root ∧ t.Holds a :=
  h.wellFormed.exists_holds h.has

/-- What the root leads to is there. -/
theorem within_has (h : t.Rooted) (hx : t.Within root x) : t.Has x := hx.has h.has

/-- The root leads to the children of a node to which it leads. -/
theorem within_child (h : t.Rooted) (hp : t.Within root p) (hx : x ∈ t.childrenOf p) :
    t.Within root x :=
  (hp.above ((h.wellFormed.linked p x).1 hx)).within

/-- The root leads to a node just if it leads to the parent. -/
theorem within_parent_iff (h : t.Rooted) (hx : t.parentOf x = some p) :
    t.Within root x ↔ t.Within root p := by
  constructor
  · rintro (rfl | hr)
    · rw [h.parent] at hx
      cases hx
    · exact hr.within_parent hx
  · exact fun hp => (hp.above hx).within

/-- The root leads to what is above a node to which it leads. -/
theorem within_of_within (h : t.Rooted) (hx : t.Within root x) (hy : t.Within y x) :
    t.Within root y := by
  -- Two nodes above one are above each other, and nothing is above the root.
  rcases hx.total hy with hr | rfl | habove
  · exact hr
  · exact .self ..
  · obtain ⟨q, hq, -⟩ := habove.parent_within
    rw [h.parent] at hq
    cases hq

/-- The root leads to the sibling that follows a node just if it leads to the node. -/
theorem within_following_iff (h : t.Rooted) (hx : t.following x = some y) :
    t.Within root y ↔ t.Within root x := by
  obtain ⟨p, hp, hy⟩ := Option.bind_eq_some_iff.1 hx
  have hy : t.parentOf y = some p := (h.wellFormed.linked p y).1 (mem_of_follower? hy)
  rw [h.within_parent_iff hp, h.within_parent_iff hy]

end Rooted

/-- What holds of the root and of each child of a node to which the root leads, if it holds
of the node, holds of all nodes to which the root leads. -/
theorem Within.down {P : NodeId → Prop} (hx : t.Within root x) (hroot : P root)
    (step : ∀ p c, t.Within root p → P p → t.parentOf c = some p → P c) : P x := by
  rcases hx with rfl | hx
  · exact hroot
  · induction hx with
    | parent h => exact step _ _ (.self ..) hroot h
    | step habove h ih => exact step _ _ habove.within ih h

/-! ## Lists under other numbers -/

/-- What is dropped up to a node is renamed, if no other one takes its name. -/
theorem dropWhile_map_ne {cs : List NodeId} (h : ∀ c ∈ cs, g c = g x → c = x) :
    (cs.map g).dropWhile (· ≠ g x) = (cs.dropWhile (· ≠ x)).map g := by
  induction cs with
  | nil => rfl
  | cons c cs ih =>
    obtain ⟨hc, hcs⟩ := List.forall_mem_cons.1 h
    by_cases hcx : c = x
    · rw [hcx, List.map_cons, List.dropWhile_cons_of_neg (by simp),
        List.dropWhile_cons_of_neg (by simp), List.map_cons]
    · have hg : g c ≠ g x := fun he => hcx (hc he)
      rw [List.map_cons, List.dropWhile_cons_of_pos (by simpa using hg),
        List.dropWhile_cons_of_pos (by simpa using hcx), ih hcs]

/-- What is taken up to a node is renamed, if no other one takes its name. -/
theorem takeWhile_map_ne {cs : List NodeId} (h : ∀ c ∈ cs, g c = g x → c = x) :
    (cs.map g).takeWhile (· ≠ g x) = (cs.takeWhile (· ≠ x)).map g := by
  induction cs with
  | nil => rfl
  | cons c cs ih =>
    obtain ⟨hc, hcs⟩ := List.forall_mem_cons.1 h
    by_cases hcx : c = x
    · rw [hcx, List.map_cons, List.takeWhile_cons_of_neg (by simp),
        List.takeWhile_cons_of_neg (by simp), List.map_nil]
    · have hg : g c ≠ g x := fun he => hcx (hc he)
      rw [List.map_cons, List.takeWhile_cons_of_pos (by simpa using hg),
        List.takeWhile_cons_of_pos (by simpa using hcx), ih hcs, List.map_cons]

/-- A splice before a node is renamed, if no other child takes its name. -/
theorem splice_map {new cs : List NodeId} (h : ∀ c ∈ cs, g c = g x → c = x) :
    splice (some (g x)) (new.map g) (cs.map g) = (splice (some x) new cs).map g := by
  rw [splice, splice, takeWhile_map_ne h, dropWhile_map_ne h, List.map_append, List.map_append]

/-- What follows a node is renamed, if no other child takes its name. -/
theorem follower?_map {cs : List NodeId} (h : ∀ c ∈ cs, g c = g x → c = x) :
    follower? (g x) (cs.map g) = (follower? x cs).map g := by
  rw [follower?, follower?, dropWhile_map_ne h, List.getElem?_map]

/-- What is found first is renamed. -/
theorem find?_map_congr {P Q : NodeId → Bool} {l : List NodeId} (h : ∀ x ∈ l, Q (g x) = P x) :
    (l.map g).find? Q = (l.find? P).map g := by
  induction l with
  | nil => rfl
  | cons c l ih =>
    obtain ⟨hc, hl⟩ := List.forall_mem_cons.1 h
    rw [List.map_cons, List.find?_cons, List.find?_cons, hc, ih hl]
    cases P c <;> rfl

namespace Renamed

/-! ## Ways in the other tree -/

/-- What the root leads to has a name that the other root leads to. -/
theorem within (h : Renamed g t u) (ht : t.Rooted) (hu : u.Rooted) (hx : t.Within root x) :
    u.Within root (g x) := by
  refine hx.down (h.fixed.symm ▸ .self ..) fun p c hp ih hc => hu.within_child ih ?_
  rw [h.children p hp]
  exact List.mem_map_of_mem ((ht.wellFormed.linked p c).2 hc)

/-- The other tree has no nodes but those, as far as its root leads. -/
theorem exists_within (h : Renamed g t u) (ht : t.Rooted) (hu : u.Rooted)
    (hy : u.Within root y) : ∃ x, t.Within root x ∧ g x = y := by
  refine Within.down (P := fun y => ∃ x, t.Within root x ∧ g x = y) hy ⟨_, .self .., h.fixed⟩ ?_
  rintro _ c - ⟨x, hx, rfl⟩ hc
  have hc := (hu.wellFormed.linked _ c).2 hc
  rw [h.children x hx] at hc
  obtain ⟨d, hd, rfl⟩ := List.mem_map.1 hc
  exact ⟨d, ht.within_child hx hd, rfl⟩

/-- What is held is held under the new numbers. -/
theorem holds (h : Renamed g t u) (ht : t.Rooted) (ha : t.Holds a) (htop : t.Within root a.top) :
    u.Holds (a.renumber g) := by
  induction a using Numbered.induction_up with
  | step id n bs ih =>
    refine holds_iff.2 ⟨?_, ?_, fun c hc => ?_⟩
    · rw [Numbered.top_renumber, h.content _ htop, Numbered.content_renumber]
      exact ha.content
    · rw [Numbered.top_renumber, h.children _ htop, ha.children, Numbered.inside_renumber,
        List.map_map, List.map_map]
      exact List.map_congr_left fun c _ => (Numbered.top_renumber (a := c)).symm
    · rw [Numbered.inside_renumber] at hc
      obtain ⟨d, hd, rfl⟩ := List.mem_map.1 hc
      exact ih d hd (ha.of_mem hd) (ht.within_child htop (ha.mem_children hd))

section
variable (h : Renamed g t u) (ht : t.Rooted) (hu : u.Rooted)
include h ht

/-- Children of a node keep different numbers. -/
theorem inj_children (hp : t.Within root p) (hx : t.Within root x) :
    ∀ c ∈ t.childrenOf p, g c = g x → c = x :=
  fun c hc he => h.inj c x (ht.within_child hp hc) hx he

include hu

/-- A node keeps its parent under other names. -/
theorem parentOf (hx : t.Within root x) : u.parentOf (g x) = (t.parentOf x).map g := by
  cases hp : t.parentOf x with
  | none =>
    rcases hx with rfl | hx
    · rw [h.fixed, hu.parent]
      rfl
    · obtain ⟨p, hp', -⟩ := hx.parent_within
      cases hp.symm.trans hp'
  | some p =>
    refine (hu.wellFormed.linked _ _).1 ?_
    rw [h.children p ((ht.within_parent_iff hp).1 hx)]
    exact List.mem_map_of_mem ((ht.wellFormed.linked p x).2 hp)

/-- **The sibling that follows** is found under the new number. -/
theorem following (hx : t.Within root x) : u.following (g x) = (t.following x).map g := by
  rw [Tree.following, Tree.following, h.parentOf ht hu hx]
  cases hp : t.parentOf x with
  | none => rfl
  | some p =>
    have hpw := (ht.within_parent_iff hp).1 hx
    rw [Option.map_some, Option.bind_some, Option.bind_some, h.children p hpw,
      follower?_map (h.inj_children ht hpw hx)]

/-- **The element of an `id`** is found under the new number. -/
theorem findById? (name : String) : ∃ found, t.findById? name = .ok found ∧
    u.findById? name = .ok (found.map g) ∧ ∀ x, found = some x → t.Within root x := by
  obtain ⟨a, htop, ha⟩ := ht.exists_holds
  have hb := h.holds ht ha (htop ▸ .self ..)
  have hbtop : (a.renumber g).top = root := by rw [Numbered.top_renumber, htop, h.fixed]
  have hlive : ∀ x ∈ idsAll a.inside, t.Within root x := fun x hx =>
    htop ▸ (ha.mem_ids ht.wellFormed).1 (Numbered.ids_eq a ▸ List.mem_cons_of_mem _ hx)
  have hids : idsAll (a.renumber g).inside = (idsAll a.inside).map g := by
    have hids : (a.renumber g).ids = a.ids.map g := Numbered.ids_renumber
    rw [Numbered.ids_eq, Numbered.ids_eq a, List.map_cons, List.cons.injEq] at hids
    exact hids.2
  refine ⟨_, findById?_ok ht.wellFormed ha htop name, ?_, fun x hx =>
    hlive x (List.mem_of_find?_eq_some hx)⟩
  rw [findById?_ok hu.wellFormed hb hbtop, hids]
  exact congrArg _ (find?_map_congr fun x hx => by rw [h.content x (hlive x hx)])

/-- Walks up from a node and from its new number go by the same steps. -/
theorem climb {ids ids' : List NodeId} (n k : Nat) (hx : t.Within root x)
    (hids : t.climb n x = .ok ids) (hids' : u.climb k (g x) = .ok ids') : ids' = ids.map g := by
  induction n generalizing k x ids ids' with
  | zero => cases hids
  | succ n ih =>
    cases k with
    | zero => cases hids'
    | succ k =>
      have hgx := hu.within_has (h.within ht hu hx)
      rw [Tree.climb, parent_ok (ht.within_has hx), ok_bind] at hids
      rw [Tree.climb, parent_ok hgx, ok_bind, h.parentOf ht hu hx] at hids'
      cases hp : t.parentOf x with
      | none =>
        rw [hp] at hids hids'
        obtain rfl := Except.ok.inj hids
        obtain rfl := Except.ok.inj hids'
        rfl
      | some p =>
        rw [hp] at hids
        rw [hp, Option.map_some] at hids'
        dsimp only at hids hids'
        cases hup : t.climb n p with
        | error f => rw [hup] at hids; cases hids
        | ok above =>
          cases hup' : u.climb k (g p) with
          | error f => rw [hup'] at hids'; cases hids'
          | ok above' =>
            rw [hup] at hids
            rw [hup'] at hids'
            obtain rfl := Except.ok.inj hids
            obtain rfl := Except.ok.inj hids'
            rw [ih k ((ht.within_parent_iff hp).1 hx) hup hup', List.map_cons]

/-- **The nodes above a node** are found under their new numbers. -/
theorem ancestorsOrSelf (hx : t.Within root x) : ∃ ids, t.ancestorsOrSelf x = .ok ids ∧
    u.ancestorsOrSelf (g x) = .ok (ids.map g) ∧ ∀ y ∈ ids, t.Within root y := by
  obtain ⟨ids, hids, hmem⟩ := ancestorsOrSelf_ok ht.wellFormed (ht.within_has hx)
  obtain ⟨ids', hids', -⟩ := ancestorsOrSelf_ok hu.wellFormed (hu.within_has (h.within ht hu hx))
  obtain rfl := h.climb ht hu _ _ hx hids hids'
  exact ⟨ids, hids, hids', fun y hy => ht.within_of_within hx ((hmem y).1 hy)⟩

/-- **What is within what** stays so under the new numbers. -/
theorem within_iff (hx : t.Within root x) (hy : t.Within root y) :
    u.Within (g x) (g y) ↔ t.Within x y := by
  obtain ⟨ids, hids, hids', hlive⟩ := h.ancestorsOrSelf ht hu hy
  obtain ⟨above, habove, hmem⟩ := ancestorsOrSelf_ok ht.wellFormed (ht.within_has hy)
  obtain ⟨above', habove', hmem'⟩ :=
    ancestorsOrSelf_ok hu.wellFormed (hu.within_has (h.within ht hu hy))
  obtain rfl := Except.ok.inj (hids.symm.trans habove)
  obtain rfl := Except.ok.inj (hids'.symm.trans habove')
  rw [← hmem', ← hmem, List.mem_map]
  constructor
  · rintro ⟨z, hz, he⟩
    exact h.inj z x (hlive z hz) hx he ▸ hz
  · exact fun hm => ⟨x, hm, rfl⟩

end
end Renamed

/-! ## Compaction -/

/-- Two trees are the same if the same can be seen of them. -/
theorem ext_of_views (hs : u.size = t.size) (hn : ∀ x, t.Has x → u.contentOf x = t.contentOf x)
    (hp : ∀ x, t.Has x → u.parentOf x = t.parentOf x)
    (hc : ∀ x, t.Has x → u.childrenOf x = t.childrenOf x) : u = t :=
  (GrowsTo.of_views hs.ge hn hp hc).eq hs

/-- In well-formed trees the children tell the parents. -/
theorem WellFormed.ext_of_children (ht : t.WellFormed) (hu : u.WellFormed) (hs : u.size = t.size)
    (hn : ∀ x, t.Has x → u.contentOf x = t.contentOf x)
    (hc : ∀ x, t.Has x → u.childrenOf x = t.childrenOf x) : u = t := by
  refine ext_of_views hs hn (fun x _ => Option.ext fun p => ?_) hc
  rw [← hu.linked, ← ht.linked]
  by_cases hp : t.Has p
  · rw [hc p hp]
  · rw [childrenOf_eq_nil hp, childrenOf_eq_nil (by rwa [Has, hs])]

namespace Compacted

/-- The tree that compaction leaves is rooted. -/
theorem rooted (h : Compacted t u a new) (ht : t.Rooted) (ha : t.Holds a) (htop : a.top = root) :
    u.Rooted :=
  ⟨h.wellFormed ht.wellFormed ha, placeIn_root htop ▸ h.has (htop ▸ a.top_mem_ids),
    h.parentOf_root ht.wellFormed ha htop⟩

/-- **Compaction gives the nodes other numbers.** -/
theorem renamed (h : Compacted t u a new) (ht : t.Rooted) (ha : t.Holds a) (htop : a.top = root) :
    Renamed (placeIn a) t u := by
  have hids : ∀ {x}, t.Within root x → x ∈ a.ids := fun hx =>
    (ha.mem_ids ht.wellFormed).2 (htop ▸ hx)
  exact ⟨placeIn_root htop, fun x y hx _ he => placeIn_inj (hids hx) he,
    fun x hx => h.content x (hids hx), fun x hx => h.children x (hids hx)⟩

end Compacted

/-- A node is at the same place among renamed ones, if no other one takes its name. -/
theorem idxOf_map {l : List NodeId} (h : ∀ y ∈ l, g y = g x → y = x) :
    (l.map g).idxOf (g x) = l.idxOf x := by
  induction l with
  | nil => rfl
  | cons c l ih =>
    obtain ⟨hc, hl⟩ := List.forall_mem_cons.1 h
    by_cases hcx : c = x
    · rw [List.map_cons, hcx, List.idxOf_cons_self, List.idxOf_cons_self]
    · rw [List.map_cons, List.idxOf_cons_ne _ fun he => hcx (hc he), List.idxOf_cons_ne _ hcx, ih hl]

/-- **A tree under other numbers compacts to the same tree,** and a node has the same number
there as its old one. -/
theorem Renamed.compacted_eq (h : Renamed g t u) (ht : t.Rooted)
    (hu : u.Rooted) (ha : t.Holds a) (htop : a.top = root) (hb : u.Holds b) (hbtop : b.top = root)
    (hc : Compacted t v a new) (hc' : Compacted u w b new') :
    w = v ∧ ∀ x, t.Within root x → new'.get? (g x) = new.get? x := by
  have hids : ∀ {x}, x ∈ a.ids ↔ t.Within root x := fun {x} => htop ▸ ha.mem_ids ht.wellFormed
  obtain rfl : b = a.renumber g := by
    refine hb.unique (h.holds ht ha (htop ▸ .self ..)) ?_
    rw [Numbered.top_renumber, htop, hbtop, h.fixed]
  have hplace : ∀ {x}, x ∈ a.ids → placeIn (a.renumber g) (g x) = placeIn a x := fun {x} hx => by
    rw [placeIn, placeIn, Numbered.ids_renumber,
      idxOf_map fun y hy he => h.inj y x (hids.1 hy) (hids.1 hx) he]
  have hmem : ∀ {x}, x ∈ a.ids → g x ∈ (a.renumber g).ids := fun hx =>
    Numbered.ids_renumber ▸ List.mem_map_of_mem hx
  have hget : ∀ x, t.Within root x → new'.get? (g x) = new.get? x := fun x hx => by
    rw [hc'.get?, hc.get?, if_pos (hids.2 hx), if_pos (hmem (hids.2 hx)), hplace (hids.2 hx)]
  have hview : ∀ y, v.Has y → w.contentOf y = v.contentOf y ∧ w.parentOf y = v.parentOf y ∧
      w.childrenOf y = v.childrenOf y := by
    intro y hy
    obtain ⟨x, hx, rfl⟩ := hc.exists_place (ha.ids_nodup ht.wellFormed) hy
    have hxw := hids.1 hx
    refine ⟨?_, ?_, ?_⟩
    · rw [← hplace hx, hc'.content _ (hmem hx), hplace hx, hc.content x hx, h.content x hxw]
    · rw [← hplace hx, hc'.parent _ (hmem hx), hplace hx, hc.parent x hx, h.parentOf ht hu hxw]
      cases hp : t.parentOf x with
      | none => rfl
      | some p => exact hget p ((ht.within_parent_iff hp).1 hxw)
    · rw [← hplace hx, hc'.children _ (hmem hx), hplace hx, hc.children x hx, h.children x hxw,
        List.map_map]
      exact List.map_congr_left fun c hcx => hplace (ha.child_mem hx hcx)
  refine ⟨ext_of_views ?_ (fun y hy => (hview y hy).1) (fun y hy => (hview y hy).2.1)
    fun y hy => (hview y hy).2.2, hget⟩
  rw [hc'.size, hc.size, Numbered.ids_renumber, List.length_map]

/-- **A tree compacts to another one.** -/
structure CompactsTo (t u : Tree) (a : Numbered) (new : Renumbering) : Prop where
  rooted : t.Rooted
  holds : t.Holds a
  top : a.top = root
  compacted : Compacted t u a new

namespace CompactsTo

/-- What is held at the root is what the root leads to. -/
theorem mem_ids (h : CompactsTo t u a new) : x ∈ a.ids ↔ t.Within root x :=
  h.top ▸ h.holds.mem_ids h.rooted.wellFormed

/-- What the root leads to is renumbered to its place. -/
theorem get?_live (h : CompactsTo t u a new) (hx : t.Within root x) :
    new.get? x = some (placeIn a x) := by
  rw [h.compacted.get?, if_pos (h.mem_ids.2 hx)]

/-- What the root does not lead to gets no new number. -/
theorem get?_lost (h : CompactsTo t u a new) (hx : ¬ t.Within root x) : new.get? x = none := by
  rw [h.compacted.get?, if_neg fun hm => hx (h.mem_ids.1 hm)]

/-- A new number tells that the root leads to the node, and its place. -/
theorem live_of_get? (h : CompactsTo t u a new) (hxy : new.get? x = some y) :
    t.Within root x ∧ placeIn a x = y := by
  by_cases hx : t.Within root x
  · exact ⟨hx, Option.some.inj ((h.get?_live hx).symm.trans hxy)⟩
  · rw [h.get?_lost hx] at hxy
    cases hxy

/-- A compacted tree is the tree itself under the new numbers. -/
theorem renamed (h : CompactsTo t u a new) : Renamed (placeIn a) t u :=
  h.compacted.renamed h.rooted h.holds h.top

/-- A compacted tree is rooted. -/
theorem compacted_rooted (h : CompactsTo t u a new) : u.Rooted :=
  h.compacted.rooted h.rooted h.holds h.top

/-- What the root leads to it leads to once compacted. -/
theorem within (h : CompactsTo t u a new) (hx : t.Within root x) : u.Within root (placeIn a x) :=
  h.renamed.within h.rooted h.compacted_rooted hx

/-- Looking at the children only, a walk visits the same nodes. -/
theorem descendants_congr (hs : u.size = t.size) (hc : ∀ x, u.children x = t.children x)
    (x : NodeId) : u.descendants x = t.descendants x := by
  have key : ∀ (steps : Nat) (pending : List NodeId),
      u.walk steps pending = t.walk steps pending := by
    intro steps
    induction steps with
    | zero => intro pending; cases pending <;> rfl
    | succ steps ih =>
      intro pending
      cases pending with
      | nil => rfl
      | cons y pending => rw [walk, walk, hc]; simp only [ih]
  rw [descendants, descendants, hc, hs]
  simp only [key]

/-- Changing contents changes no children. -/
theorem children_congr (hs : u.size = t.size) (hc : ∀ x, u.childrenOf x = t.childrenOf x)
    (x : NodeId) : u.children x = t.children x := by
  by_cases hx : t.Has x
  · rw [children_ok hx, children_ok (Nat.lt_of_lt_of_le hx hs.ge), hc]
  · have hx' : ¬ u.Has x := fun hm => hx (Nat.lt_of_lt_of_le hm hs.le)
    rw [Tree.children, Tree.children, node, node, node?_eq_none hx, node?_eq_none hx']

/-- **Contents may be changed before or after compaction.** -/
theorem setContent (h : CompactsTo t u a new) (hx : t.Within root x) (n : Node) :
    ∃ t' u' a', t.setContent x n = .ok t' ∧ u.setContent (placeIn a x) n = .ok u' ∧
      CompactsTo t' u' a' new := by
  have hxt := h.rooted.within_has hx
  obtain ⟨t', ht', hs, hcon, hpar, hch⟩ := setContent_ok hxt n
  obtain ⟨u', hu', hsu, hconu, hparu, hchu⟩ := setContent_ok (h.compacted.has (h.mem_ids.2 hx)) n
  have hw : t'.WellFormed := h.rooted.wellFormed.of_links hs hpar hch
  have hr : t'.Rooted := ⟨hw, Nat.lt_of_lt_of_le h.rooted.has hs.ge, (hpar _).trans h.rooted.parent⟩
  obtain ⟨a', htop, ha'⟩ := hr.exists_holds
  have hids : a'.ids = a.ids := by
    have hd := descendants_ok h.rooted.wellFormed h.holds
    have hd' := descendants_ok hw ha'
    rw [htop, descendants_congr hs (children_congr hs hch), ← h.top, hd] at hd'
    rw [Numbered.ids_eq, Numbered.ids_eq a, htop, h.top, Except.ok.inj hd']
  have hplace : ∀ y, placeIn a' y = placeIn a y := fun y => by rw [placeIn, placeIn, hids]
  refine ⟨t', u', a', ht', hu', hr, ha', htop, fun y => ?_, ?_, fun y hy => ?_, fun y hy => ?_,
    fun y hy => ?_⟩
  · rw [hids, hplace]
    exact h.compacted.get? y
  · rw [hids, hsu, h.compacted.size]
  · rw [hids] at hy
    rw [hplace, hconu, hcon, h.compacted.content y hy]
    by_cases hyx : y = x
    · rw [if_pos hyx, if_pos (congrArg _ hyx)]
    · rw [if_neg hyx, if_neg fun he => hyx (Compacted.placeIn_inj hy he)]
  · rw [hplace, hparu, hpar, h.compacted.parent y (hids ▸ hy)]
  · rw [hplace, hchu, hch, h.compacted.children y (hids ▸ hy)]
    exact List.map_congr_left fun c _ => (hplace c).symm

end CompactsTo

end Tree
end PageBinding
