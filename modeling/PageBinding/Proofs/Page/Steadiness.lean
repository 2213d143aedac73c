/-
# Steady places

Compaction drops the nodes that the root does not lead to, and what is remembered of them.
A place is steady (`Place.Steady`) if nothing is dropped that says where it is: the page has
its parent, and the first and the last of its nodes, or else neither its nodes nor what came
after them.  Then the place and what compaction makes of it are at the same spot
(`Place.Steady.marks`), so that both can be refilled or neither; the trees go on alike
(`Refilled.onward`), and compaction makes the same of the two places afterwards
(`Refilled.renumber?_eq`).
-/

import PageBinding.Proofs.Page.Showing
import PageBinding.Proofs.Tree.Swapping

namespace PageBinding

open Numbered (numberAllFrom)

namespace Page

open PageBinding.Tree (root placeIn CompactsTo Onward Swapped following moved)

/-- **A place is steady** if the page has its parent, and has the first and the last of its
nodes, or else neither any of them nor what came after them. -/
structure Place.Steady (t : Tree) (p : Place) : Prop where
  parent : t.Within root p.parent
  ends : (∀ x, p.nodes.head? = some x ∨ p.nodes.getLast? = some x → t.Within root x) ∨
    (∀ x ∈ p.nodes, ¬ t.Within root x) ∧ ∀ x, p.next = some x → ¬ t.Within root x

variable {t u t' u' v w : Tree} {a a' b : Numbered} {new new' new'' : Renumbering} {x y : NodeId}
  {place : Place}

/-! ## Places -/

/-- Compaction renumbers a place whose parent is in the page: its parent, those of its nodes that
are kept, and what came after them. -/
theorem Place.renumber?_eq (h : CompactsTo t u a new) (hp : t.Within root place.parent) :
    place.renumber? new = some ⟨placeIn a place.parent, place.nodes.filterMap new.get?,
      place.next.bind new.get?⟩ := by
  rw [renumber?, h.get?_live hp, Option.map_some]

/-- The first of some nodes stays the first if it is kept. -/
theorem head?_filterMap {f : NodeId → Option NodeId} {l : List NodeId} (hx : l.head? = some x)
    (hy : f x = some y) : (l.filterMap f).head? = some y := by
  obtain ⟨l, rfl⟩ := List.head?_eq_some_iff.1 hx
  rw [List.filterMap_cons_some hy, List.head?_cons]

/-- The last of some nodes stays the last if it is kept. -/
theorem getLast?_filterMap {f : NodeId → Option NodeId} {l : List NodeId}
    (hx : l.getLast? = some x) (hy : f x = some y) : (l.filterMap f).getLast? = some y := by
  obtain ⟨l, rfl⟩ := List.getLast?_eq_some_iff.1 hx
  simp [List.filterMap_append, hy]

/-- Without nodes a place remembers what comes after. -/
theorem Place.afterOf_of_none (h : place.nodes.getLast? = none) : place.afterOf t = place.next := by
  rw [afterOf, h]

/-- With nodes what comes after a place is what follows the last one. -/
theorem Place.afterOf_of_last (h : place.nodes.getLast? = some x) :
    place.afterOf t = t.following x := by
  rw [afterOf, h]

/-- What follows a node of the page follows its new number. -/
theorem following_compacted (h : CompactsTo t u a new) (hx : t.Within root x) :
    u.following (placeIn a x) = (t.following x).bind new.get? := by
  rw [h.renamed.following h.rooted h.compacted_rooted hx]
  cases hy : t.following x with
  | none => rfl
  | some y =>
    rw [Option.map_some, Option.bind_some, h.get?_live ((h.rooted.within_following_iff hy).2 hx)]

/-- **What compaction makes of a steady place is at the same spot.** -/
theorem Place.Steady.marks (hs : place.Steady t) (h : CompactsTo t u a new) {place' : Place}
    (hp : place.renumber? new = some place') :
    place'.afterOf u = (place.afterOf t).bind new.get? ∧
      place'.before u = (place.before t).bind new.get? := by
  rw [renumber?_eq h hs.parent] at hp
  obtain rfl := Option.some.inj hp
  rw [before, before]
  rcases hs.ends with hends | ⟨hnodes, hnext⟩
  · cases hl : place.nodes.getLast? with
    | none =>
      rw [afterOf_of_none hl, afterOf, List.getLast?_eq_none_iff.1 hl]
      exact ⟨rfl, rfl⟩
    | some last =>
      obtain ⟨first, hf⟩ : ∃ first, place.nodes.head? = some first := by
        cases hn : place.nodes with
        | nil => rw [hn] at hl; cases hl
        | cons first nodes => exact ⟨first, rfl⟩
      have hfirst := h.get?_live (hends first (.inl hf))
      have hlast := h.get?_live (hends last (.inr hl))
      rw [afterOf_of_last hl, afterOf_of_last (getLast?_filterMap hl hlast),
        head?_filterMap hf hfirst, hf]
      exact ⟨following_compacted h (hends last (.inr hl)), hfirst.symm⟩
  · -- Nothing is left of it but its parent.
    have hnil : place.nodes.filterMap new.get? = [] :=
      List.filterMap_eq_nil_iff.2 fun x hx => h.get?_lost (hnodes x hx)
    have hnone : place.next.bind new.get? = none :=
      Option.bind_eq_none_iff.2 fun x hx => h.get?_lost (hnext x hx)
    have hafter : (afterOf t place).bind new.get? = none := by
      cases hl : place.nodes.getLast? with
      | none => rw [afterOf_of_none hl, hnone]
      | some last =>
        rw [afterOf_of_last hl]
        refine Option.bind_eq_none_iff.2 fun x hx => h.get?_lost fun hlive => ?_
        exact hnodes last (List.mem_of_getLast? hl) ((h.rooted.within_following_iff hx).1 hlive)
    rw [hnil, hafter]
    refine ⟨hnone, hnone.trans ?_⟩
    cases hf : place.nodes.head? with
    | none => exact hafter.symm
    | some first => exact (h.get?_lost (hnodes first (List.mem_of_head? hf))).symm

/-- Renumbering twice is renumbering once. -/
theorem Place.renumber?_bind (hv : place.Valid t)
    (h : ∀ x, t.Has x → new'.get? x = (new.get? x).bind new''.get?) :
    place.renumber? new' = (place.renumber? new).bind fun q => q.renumber? new'' := by
  have hnodes : place.nodes.filterMap new'.get? =
      (place.nodes.filterMap new.get?).filterMap new''.get? := by
    rw [List.filterMap_filterMap]
    exact List.filterMap_congr fun x hx => h x (hv.nodes x hx)
  have hnext : place.next.bind new'.get? = (place.next.bind new.get?).bind new''.get? := by
    rw [Option.bind_assoc]
    cases hn : place.next with
    | none => rfl
    | some x => exact h x (hv.next x hn)
  rw [renumber?, renumber?, h _ hv.parent, hnodes, hnext]
  cases new.get? place.parent <;> rfl

/-- Renumbering places twice is renumbering them once, by both. -/
theorem renumberPlaces_bind {places : List (String × Place)} (hv : ∀ e ∈ places, e.2.Valid t)
    (h : ∀ x, t.Has x → new'.get? x = (new.get? x).bind new''.get?) :
    renumberPlaces new' places = renumberPlaces new'' (renumberPlaces new places) := by
  rw [renumberPlaces, renumberPlaces, renumberPlaces, List.filterMap_filterMap]
  refine List.filterMap_congr fun e he => ?_
  obtain ⟨name, place⟩ := e
  dsimp only
  rw [Place.renumber?_bind (hv _ he) h]
  cases place.renumber? new <;> rfl

/-- Renumbering data twice is renumbering it once, by both. -/
theorem renumberData_bind {data : List (NodeId × OwnData)} (hd : ∀ e ∈ data, t.Has e.1)
    (h : ∀ x, t.Has x → new'.get? x = (new.get? x).bind new''.get?) :
    renumberData new' data = renumberData new'' (renumberData new data) := by
  rw [renumberData, renumberData, renumberData, List.filterMap_filterMap]
  refine List.filterMap_congr fun e he => ?_
  obtain ⟨id, d⟩ := e
  dsimp only
  rw [h id (hd _ he)]
  cases new.get? id <;> rfl

/-- The place of a template can be left out before renumbering or after it. -/
theorem renumberPlaces_filter (new : Renumbering) (name : String) (places : List (String × Place)) :
    renumberPlaces new (places.filter (·.1 != name)) =
      (renumberPlaces new places).filter (·.1 != name) := by
  rw [renumberPlaces, renumberPlaces, List.filterMap_filter, List.filter_filterMap]
  refine List.filterMap_congr fun e _ => ?_
  obtain ⟨key, place⟩ := e
  dsimp only
  cases place.renumber? new <;> cases hk : key != name <;> simp [Option.filter_some, hk]

/-- A place that is set is renumbered with the others. -/
theorem renumberPlaces_set (new : Renumbering) (name : String) (place : Place)
    (places : List (String × Place)) :
    renumberPlaces new (Keyed.set name place places) =
      ((place.renumber? new).map (name, ·)).toList ++
        (renumberPlaces new places).filter (·.1 != name) := by
  rw [Keyed.set, ← renumberPlaces_filter, renumberPlaces, List.filterMap_cons]
  dsimp only
  cases place.renumber? new <;> rfl

/-- Data that is set on an element of the page is renumbered with the rest. -/
theorem renumberData_set (h : CompactsTo t u a new) (hx : t.Within root x) (d : OwnData)
    (data : List (NodeId × OwnData)) :
    renumberData new (Keyed.set x d data) = Keyed.set (placeIn a x) d (renumberData new data) := by
  have hfilter : renumberData new (data.filter (·.1 != x)) =
      (renumberData new data).filter (·.1 != placeIn a x) := by
    rw [renumberData, renumberData, List.filterMap_filter, List.filter_filterMap]
    refine List.filterMap_congr fun entry _ => ?_
    obtain ⟨z, e⟩ := entry
    cases hy : new.get? z with
    | none => simp [hy]
    | some y =>
      obtain ⟨hlive, rfl⟩ := h.live_of_get? hy
      by_cases hz : z = x
      · subst hz
        simp [Option.filter_some, hy]
      · have hne : placeIn a z ≠ placeIn a x := fun hp => hz (h.renamed.inj _ _ hlive hx hp)
        simp [Option.filter_some, hy, hz, hne]
  rw [Keyed.set, Keyed.set, ← hfilter, renumberData, List.filterMap_cons]
  dsimp only
  rw [h.get?_live hx]
  rfl

/-- Data of an element of the page is found under its new number. -/
theorem lookup_renumberData (h : CompactsTo t u a new) (hx : t.Within root x)
    (data : List (NodeId × OwnData)) :
    (renumberData new data).lookup (placeIn a x) = data.lookup x := by
  induction data with
  | nil => rfl
  | cons e data ih =>
    obtain ⟨z, d⟩ := e
    rw [renumberData, List.filterMap_cons, List.lookup_cons]
    dsimp only
    cases hy : new.get? z with
    | none =>
      have hne : (x == z) = false := by
        rw [beq_eq_false_iff_ne]
        rintro rfl
        rw [h.get?_live hx] at hy
        cases hy
      rw [hne]
      exact ih
    | some y =>
      obtain ⟨hz, rfl⟩ := h.live_of_get? hy
      have heq : (placeIn a x == placeIn a z) = (x == z) := by
        by_cases hxz : x = z
        · simp [hxz]
        · have hne : placeIn a x ≠ placeIn a z := fun hp => hxz (h.renamed.inj x z hx hz hp)
          simp [hxz, hne]
      rw [Option.map_some]
      dsimp only
      rw [List.lookup_cons, heq]
      cases x == z
      · exact ih
      · rfl

/-! ## Refilling -/

/-- What comes after a place that has been refilled with nothing came after it before. -/
theorem Refilled.next_of_none {filled : Place} {news : List Numbered}
    (h : Refilled t u place filled news) (hl : filled.nodes.getLast? = none) :
    filled.next = place.afterOf t := by
  rw [h.nodes_eq] at hl
  rw [h.filled_eq]
  exact Place.afterOf_of_none hl

/-- A place that was refilled remembers what follows its last node. -/
theorem Refilled.next_of_last {filled : Place} {news : List Numbered}
    (h : Refilled t u place filled news) (hl : filled.nodes.getLast? = some x) :
    filled.next = u.following x := by
  rw [h.nodes_eq] at hl
  rw [h.filled_eq]
  exact Place.afterOf_of_last hl

section
variable {ds : List Html.Document} {place' filled filled' : Place} (hc : CompactsTo t u a new)
  (hs : place.Steady t) (hv : place.Valid t) (hren : place.renumber? new = some place')
  (hr : Refilled t t' place filled (numberAllFrom t.size ds))
  (hr' : Refilled u u' place' filled' (numberAllFrom u.size ds))
include hc hs hv hren hr hr'

/-- **Refilling a steady place** and what compaction makes of it makes two trees go on alike. -/
theorem Refilled.onward : Onward t a (moved (placeIn a) t u) t' u' := by
  have hswap' := hr'.swapped
  rw [(hs.marks hc hren).2] at hswap'
  rw [Place.renumber?_eq hc hs.parent] at hren
  obtain rfl := Option.some.inj hren
  exact hc.swapped hr.swapped hswap' hs.parent hv.nodes

/-- Compaction makes the same of a steady place that has been refilled, and of what it had
made of the place once that has been refilled. -/
theorem Refilled.renumber?_eq (hlive : ∀ x ∈ filled.nodes, t'.Within root x)
    (hget : ∀ x, t.Has x → new'.get? x = (new.get? x).bind new''.get?)
    (hget' : ∀ x, t'.Within root x → new''.get? (moved (placeIn a) t u x) = new'.get? x) :
    filled.renumber? new' = filled'.renumber? new'' := by
  have ho := Refilled.onward hc hs hv hren hr hr'
  have hafter := (hs.marks hc hren).1
  have ht' := hr.swapped.rooted hc.rooted
  have hu' := hr'.swapped.rooted hc.compacted_rooted
  have hparent : new'.get? place.parent = new''.get? (placeIn a place.parent) := by
    rw [hget _ hv.parent, hc.get?_live hs.parent, Option.bind_some]
  rw [Place.renumber?_eq hc hs.parent] at hren
  obtain rfl := Option.some.inj hren
  have htops : filled'.nodes = filled.nodes.map (moved (placeIn a) t u) := by
    rw [hr'.nodes_eq, hr.nodes_eq, Tree.map_top_moved (placeIn a) t u]
  have hnodes : filled.nodes.filterMap new'.get? = filled'.nodes.filterMap new''.get? := by
    rw [htops, List.filterMap_map]
    exact List.filterMap_congr fun x hx => (hget' x (hlive x hx)).symm
  have hnext : filled.next.bind new'.get? = filled'.next.bind new''.get? := by
    have hlast' : filled'.nodes.getLast? = filled.nodes.getLast?.map (moved (placeIn a) t u) := by
      rw [htops, List.getLast?_map]
    cases hl : filled.nodes.getLast? with
    | none =>
      rw [hl] at hlast'
      rw [hr.next_of_none hl, hr'.next_of_none hlast', hafter, Option.bind_assoc]
      cases hx : place.afterOf t with
      | none => rfl
      | some x => exact hget x (Place.has_afterOf hc.rooted.wellFormed hv hx)
    | some last =>
      have hlast := hlive last (List.mem_of_getLast? hl)
      rw [hl] at hlast'
      rw [hr.next_of_last hl, hr'.next_of_last hlast', ho.renamed.following ht' hu' hlast]
      cases hx : t'.following last with
      | none => rfl
      | some x => exact (hget' x ((ht'.within_following_iff hx).2 hlast)).symm
  rw [Place.renumber?, Place.renumber?, hr.parent_eq, hr'.parent_eq, hnodes, hnext,
    hparent]

end

end Page
end PageBinding
