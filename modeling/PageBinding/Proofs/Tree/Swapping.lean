/-
# Nodes swapped in a tree and in its compaction

New nodes are put in below a node, and old ones are detached (`Swapped`).  When this is done
to a tree and to what compaction has made of it, with the nodes that it speaks of under
their new numbers, the one tree is the other one under other numbers again
(`CompactsTo.swapped`), and so both compact to the same tree.  Nodes that compaction has
dropped make no difference: the root does not lead to them.

What has become of a node in the one tree has become of its new number in the other one
(`Onward.get?_eq`).
-/

import PageBinding.Proofs.Tree.Renamed
import PageBinding.Proofs.Tree.Showing

namespace PageBinding

open Html (Node Document)
open Html.Document (count)
open Numbered (idsAll numberFrom numberAllFrom)

namespace Tree

variable {t u t' u' v w : Tree} {a a' b : Numbered} {new new' new'' : Renumbering}
  {g : NodeId → NodeId} {spot x y : NodeId} {old : List NodeId} {before : Option NodeId}
  {ds : List Document}

namespace CompactsTo

/-- A number is among the new ones of some nodes just if its node is among these. -/
theorem mem_filterMap (h : CompactsTo t u a new) (hx : t.Within root x) :
    placeIn a x ∈ old.filterMap new.get? ↔ x ∈ old := by
  rw [List.mem_filterMap]
  constructor
  · rintro ⟨y, hy, hyx⟩
    obtain ⟨hyw, he⟩ := h.live_of_get? hyx
    rwa [← h.renamed.inj y x hyw hx he]
  · exact fun hm => ⟨x, hm, h.get?_live hx⟩

end CompactsTo

/-! ## Going on alike -/

/-- **Two trees have gone on alike** from a tree and from what compaction made of it: the one
is the other one under numbers that are still those of compaction for the nodes that it kept,
and no node that it dropped has come back. -/
structure Onward (t : Tree) (a : Numbered) (g : NodeId → NodeId) (t' u' : Tree) : Prop where
  renamed : Renamed g t' u'
  old : ∀ x, t.Within root x → g x = placeIn a x
  live : ∀ x, t.Has x → t'.Within root x → t.Within root x
  apart : ∀ x y, t.Within root x → t'.Within root y → g x = g y → x = y

/-- Nothing has happened yet. -/
theorem CompactsTo.onward (h : CompactsTo t u a new) : Onward t a (placeIn a) t u :=
  ⟨h.renamed, fun _ _ => rfl, fun _ _ hx => hx, h.renamed.inj⟩

namespace Onward

variable (h : Onward t a g t' u') (hc : CompactsTo t u a new) (hc' : CompactsTo t' v a' new')
  (hc'' : CompactsTo u' w b new'')
include h hc' hc''

/-- **Trees that have gone on alike compact to the same tree,** and a node has the same number
there as its new one. -/
theorem compacted_eq : w = v ∧ ∀ x, t'.Within root x → new''.get? (g x) = new'.get? x :=
  h.renamed.compacted_eq hc'.rooted hc''.rooted hc'.holds hc'.top hc''.holds hc''.top hc'.compacted
    hc''.compacted

include hc

/-- **What has become of an old node** has become of its new number, if it had one. -/
theorem get?_eq (hx : t.Has x) : new'.get? x = (new.get? x).bind new''.get? := by
  by_cases hlive : t.Within root x
  · rw [hc.get?_live hlive, Option.bind_some, ← h.old x hlive]
    by_cases hx' : t'.Within root x
    · exact ((h.compacted_eq hc' hc'').2 x hx').symm
    · rw [hc'.get?_lost hx', hc''.get?_lost]
      intro hgx
      obtain ⟨y, hy, he⟩ := h.renamed.exists_within hc'.rooted hc''.rooted hgx
      exact hx' (h.apart x y hlive hy he.symm ▸ hy)
  · rw [hc.get?_lost hlive, hc'.get?_lost fun hx' => hlive (h.live x hx hx')]
    rfl

end Onward

/-! ## Swapping -/

namespace Swapped

/-- A swap keeps the nodes. -/
theorem has (h : Swapped t u spot old before ds) (hx : t.Has x) : u.Has x :=
  Nat.lt_of_lt_of_le hx h.size_le

/-- A swap keeps a tree rooted. -/
theorem rooted (h : Swapped t u spot old before ds) (ht : t.Rooted) : u.Rooted :=
  ⟨h.wellFormed, h.has ht.has, by rw [h.parent _ ht.has, parentsWithout, ht.parent, ite_self]⟩

/-- Children with new ones put in among them are children that were there and new nodes. -/
theorem childrenWith_cases (ht : t.Rooted) (hx : t.Within root x)
    (hy : y ∈ t.childrenWith spot ((numberAllFrom t.size ds).map Numbered.top) before x) :
    t.Within root y ∨ y ∈ idsAll (numberAllFrom t.size ds) := by
  rw [childrenWith] at hy
  split_ifs at hy
  · rcases mem_splice.1 hy with hy | hy
    · exact .inr ((Numbered.map_top_sublist _).subset hy)
    · exact .inl (ht.within_child hx hy)
  · exact .inl (ht.within_child hx hy)

/-- The root leads to no old nodes but those to which it led, and to new ones. -/
theorem within_cases (h : Swapped t u spot old before ds) (ht : t.Rooted) (hx : u.Within root x) :
    t.Within root x ∨ x ∈ idsAll (numberAllFrom t.size ds) := by
  refine Within.down (P := fun x => t.Within root x ∨ x ∈ idsAll (numberAllFrom t.size ds)) hx
    (.inl (.self ..)) fun p c _ hp hc => ?_
  have hc := (h.wellFormed.linked p c).2 hc
  rcases hp with hp | hp
  · rw [h.children p (ht.within_has hp)] at hc
    exact childrenWith_cases ht hp (List.mem_of_mem_filter hc)
  · obtain ⟨b, hb, hp⟩ := Numbered.mem_idsAll.1 hp
    exact .inr (Numbered.mem_idsAll.2 ⟨b, hb, (h.holds b hb).child_mem hp hc⟩)

/-- A node that the root leads to after a swap, and that was there, it led to before. -/
theorem live (h : Swapped t u spot old before ds) (ht : t.Rooted) (hx : t.Has x)
    (hxu : u.Within root x) : t.Within root x :=
  (h.within_cases ht hxu).resolve_right fun hm => Nat.not_lt_of_le (new_of_mem hm) hx

end Swapped

/-! ## New numbers of new nodes -/

/-- New numbers for a tree that has more nodes than another one: those of that, and for its
own nodes the ones from the end of a third tree on. -/
def moved (g : NodeId → NodeId) (t u : Tree) (x : NodeId) : NodeId :=
  if x.index < t.size then g x else ⟨u.size + (x.index - t.size)⟩

/-- A node of the first tree keeps its new number. -/
theorem moved_old (hx : t.Has x) : moved g t u x = g x := if_pos hx

/-- A node that came later is numbered from the end of the other tree on. -/
theorem moved_new (hx : t.size ≤ x.index) : moved g t u x = ⟨u.size + (x.index - t.size)⟩ :=
  if_neg (Nat.not_lt_of_le hx)

mutual

/-- New nodes get the numbers that they have in the other tree. -/
theorem renumber_moved (g : NodeId → NodeId) (t u : Tree) : ∀ (k : Nat) (d : Document),
    (numberFrom (t.size + k) d).renumber (moved g t u) = numberFrom (u.size + k) d
  | k, .node n ds => by
    rw [numberFrom, Numbered.renumber, numberFrom, Nat.add_assoc, renumberAll_moved g t u (k + 1) ds,
      moved_new (Nat.le_add_right ..), Nat.add_sub_cancel_left, Nat.add_assoc]

/-- All new nodes get the numbers that they have in the other tree. -/
theorem renumberAll_moved (g : NodeId → NodeId) (t u : Tree) : ∀ (k : Nat) (ds : List Document),
    Numbered.renumberAll (moved g t u) (numberAllFrom (t.size + k) ds) =
      numberAllFrom (u.size + k) ds
  | k, [] => rfl
  | k, d :: ds => by
    rw [numberAllFrom, Numbered.renumberAll, numberAllFrom, renumber_moved g t u k d, Nat.add_assoc,
      renumberAll_moved g t u (k + count d) ds, Nat.add_assoc]

end

/-- The tops of new nodes get the numbers that they have in the other tree. -/
theorem map_top_moved (g : NodeId → NodeId) (t u : Tree) (ds : List Document) :
    (numberAllFrom u.size ds).map Numbered.top =
      ((numberAllFrom t.size ds).map Numbered.top).map (moved g t u) := by
  rw [← Numbered.map_top_renumberAll]
  exact congrArg _ (renumberAll_moved g t u 0 ds).symm

/-- What is held under two kinds of numbers looks the same. -/
theorem Holds.renumber_views (ha : t.Holds a) (hb : u.Holds (a.renumber g)) (hx : x ∈ a.ids) :
    u.contentOf (g x) = t.contentOf x ∧ u.childrenOf (g x) = (t.childrenOf x).map g := by
  induction a using Numbered.induction_up with
  | step id n bs ih =>
    rcases Numbered.mem_ids.1 hx with rfl | ⟨b, hmem, hx⟩
    · have hcontent := hb.content
      have hchildren := hb.children
      rw [Numbered.top_renumber] at hcontent hchildren
      rw [Numbered.content_renumber] at hcontent
      have hold : t.childrenOf x = bs.map Numbered.top := ha.children
      refine ⟨hcontent.trans ha.content.symm, hchildren.trans ?_⟩
      rw [hold, Numbered.inside_renumber, List.map_map, List.map_map]
      exact List.map_congr_left fun c _ => Numbered.top_renumber
    · refine ih b hmem (ha.of_mem hmem) (hb.of_mem ?_) hx
      rw [Numbered.inside_renumber]
      exact List.mem_map_of_mem hmem

/-! ## Swapping in both trees -/

section
variable (hc : CompactsTo t u a new) (h : Swapped t t' spot old before ds)
  (h' : Swapped u u' (placeIn a spot) (old.filterMap new.get?) (before.bind new.get?) ds)
  (hspot : t.Within root spot) (hold : ∀ x ∈ old, t.Has x)
include hc

/-- Nodes put in among children to which the root leads are put in among their new numbers. -/
theorem CompactsTo.splice_map {cs news : List NodeId} (hg : ∀ x, t.Has x → g x = placeIn a x)
    (hcs : ∀ c ∈ cs, t.Within root c) :
    splice (before.bind new.get?) (news.map g) (cs.map (placeIn a)) = (splice before news cs).map g := by
  have hmap : cs.map (placeIn a) = cs.map g :=
    List.map_congr_left fun c hm => (hg c (hc.rooted.within_has (hcs c hm))).symm
  rw [hmap]
  cases before with
  | none => rw [Option.bind_none, splice, splice, List.map_append]
  | some x =>
    by_cases hx : t.Within root x
    · rw [Option.bind_some, hc.get?_live hx, ← hg x (hc.rooted.within_has hx)]
      refine Tree.splice_map fun c hm he => hc.renamed.inj c x (hcs c hm) hx ?_
      rwa [hg c (hc.rooted.within_has (hcs c hm)), hg x (hc.rooted.within_has hx)] at he
    · -- The root does not lead to the node before which they would be put in.
      rw [Option.bind_some, hc.get?_lost hx, splice_of_notMem fun hm => hx (hcs x hm), splice,
        List.map_append]

/-- A node that compaction keeps has its number from there. -/
theorem CompactsTo.moved_live (hx : t.Within root x) : moved (placeIn a) t u x = placeIn a x :=
  moved_old (hc.rooted.within_has hx)

/-- The number of a node that compaction keeps is one of the compacted tree. -/
theorem CompactsTo.has_moved (hx : t.Within root x) : u.Has (moved (placeIn a) t u x) :=
  hc.moved_live hx ▸ hc.compacted_rooted.within_has (hc.within hx)

/-- A new node has another number than one that compaction keeps. -/
theorem CompactsTo.moved_apart (hx : t.Within root x) (hy : t.size ≤ y.index) :
    moved (placeIn a) t u x ≠ moved (placeIn a) t u y := fun he => by
  have hlt : (moved (placeIn a) t u x).index < u.size := hc.has_moved hx
  rw [he, moved_new hy] at hlt
  exact Nat.not_lt_of_le (Nat.le_add_right ..) hlt

/-- Different nodes, kept or new, have different numbers. -/
theorem CompactsTo.moved_inj (hx : t.Within root x ∨ x ∈ idsAll (numberAllFrom t.size ds))
    (hy : t.Within root y ∨ y ∈ idsAll (numberAllFrom t.size ds))
    (he : moved (placeIn a) t u x = moved (placeIn a) t u y) : x = y := by
  rcases hx with hx | hx <;> rcases hy with hy | hy
  · rw [hc.moved_live hx, hc.moved_live hy] at he
    exact hc.renamed.inj x y hx hy he
  · exact absurd he (hc.moved_apart hx (new_of_mem hy))
  · exact absurd he.symm (hc.moved_apart hy (new_of_mem hx))
  · have hxt := new_of_mem hx
    have hyt := new_of_mem hy
    rw [moved_new hxt, moved_new hyt, NodeId.mk.injEq] at he
    cases x
    cases y
    congr 1
    simp only at he hxt hyt
    omega

/-- A node, kept or new, is detached just if its number is. -/
theorem CompactsTo.moved_mem_filterMap (hold : ∀ x ∈ old, t.Has x)
    (hx : t.Within root x ∨ x ∈ idsAll (numberAllFrom t.size ds)) :
    moved (placeIn a) t u x ∈ old.filterMap new.get? ↔ x ∈ old := by
  rcases hx with hx | hx
  · rw [hc.moved_live hx, hc.mem_filterMap hx]
  · refine iff_of_false (fun hm => ?_) fun hm => ?_
    · obtain ⟨y, -, hy⟩ := List.mem_filterMap.1 hm
      have hlt : (moved (placeIn a) t u x).index < u.size := hc.compacted.has_of_get? hy
      rw [moved_new (new_of_mem hx)] at hlt
      exact Nat.not_lt_of_le (Nat.le_add_right ..) hlt
    · exact Nat.not_lt_of_le (new_of_mem hx) (hold x hm)

/-- Children with new ones put in among them are so in both trees. -/
theorem CompactsTo.childrenWith_moved (hspot : t.Within root spot) (hx : t.Within root x) :
    u.childrenWith (placeIn a spot) ((numberAllFrom u.size ds).map Numbered.top)
        (before.bind new.get?) (placeIn a x) =
      (t.childrenWith spot ((numberAllFrom t.size ds).map Numbered.top) before x).map
        (moved (placeIn a) t u) := by
  have hcs : ∀ c ∈ t.childrenOf x, t.Within root c := fun c hm => hc.rooted.within_child hx hm
  rw [childrenWith, childrenWith, hc.renamed.children x hx]
  by_cases hxs : x = spot
  · rw [if_pos hxs, if_pos (congrArg _ hxs), map_top_moved (placeIn a) t u,
      hc.splice_map (fun _ hx => moved_old hx) hcs]
  · rw [if_neg hxs, if_neg fun he => hxs (hc.renamed.inj x spot hx hspot he)]
    exact List.map_congr_left fun c hm => (hc.moved_live (hcs c hm)).symm

omit hc in
/-- What is put in looks the same in both trees. -/
theorem Swapped.moved_views {spot' : NodeId} {old' : List NodeId} {before' : Option NodeId}
    (h : Swapped t t' spot old before ds) (h' : Swapped u u' spot' old' before' ds)
    (hx : x ∈ idsAll (numberAllFrom t.size ds)) :
    u'.contentOf (moved g t u x) = t'.contentOf x ∧
      u'.childrenOf (moved g t u x) = (t'.childrenOf x).map (moved g t u) := by
  obtain ⟨b, hb, hx⟩ := Numbered.mem_idsAll.1 hx
  refine (h.holds b hb).renumber_views (h'.holds _ ?_) hx
  rw [← Nat.add_zero u.size, ← renumberAll_moved g t u 0 ds, Numbered.renumberAll_eq_map]
  exact List.mem_map_of_mem hb

include h h' hspot hold

/-- **Swapping in both trees** leaves one that is the other one under other numbers. -/
theorem CompactsTo.swapped_renamed : Renamed (moved (placeIn a) t u) t' u' := by
  have hhas : ∀ {x}, t.Within root x → u.Has (placeIn a x) := fun hx =>
    hc.compacted_rooted.within_has (hc.within hx)
  refine ⟨?fixed, fun x y hx hy he => ?inj, fun x hx => ?content, fun x hx => ?children⟩
  case fixed => rw [hc.moved_live (.self ..), hc.renamed.fixed]
  case inj => exact hc.moved_inj (h.within_cases hc.rooted hx) (h.within_cases hc.rooted hy) he
  case content =>
    rcases h.within_cases hc.rooted hx with hx | hx
    · rw [hc.moved_live hx, h'.content _ (hhas hx), hc.renamed.content x hx,
        h.content x (hc.rooted.within_has hx)]
    · exact (h.moved_views h' hx).1
  case children =>
    rcases h.within_cases hc.rooted hx with hx | hx
    · rw [hc.moved_live hx, h'.children _ (hhas hx), h.children x (hc.rooted.within_has hx),
        hc.childrenWith_moved hspot hx, List.filter_map]
      refine congrArg _ (List.filter_congr fun c hm => ?_)
      rw [Function.comp_apply, decide_eq_decide, not_iff_not]
      exact hc.moved_mem_filterMap hold (Swapped.childrenWith_cases hc.rooted hx hm)
    · exact (h.moved_views h' hx).2

/-- **Swapping in a tree and in its compaction** makes the two go on alike. -/
theorem CompactsTo.swapped : Onward t a (moved (placeIn a) t u) t' u' where
  renamed := hc.swapped_renamed h h' hspot hold
  old _ hx := hc.moved_live hx
  live _ hx hx' := h.live hc.rooted hx hx'
  apart _ _ hx hy he := hc.moved_inj (.inl hx) (h.within_cases hc.rooted hy) he

end

end Tree
end PageBinding
