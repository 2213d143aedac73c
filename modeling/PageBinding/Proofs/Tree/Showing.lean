/-
# Nodes that show something

Nodes show some documents (`Shows`) if the root leads to them, if they stand side by side
below one node, and if that is what is read at them.

New nodes that are put in below a node (`Laid`) do so just if the root leads to that node,
as old ones are detached on the way only below the same node, which takes nothing from
the way up from there (`within_parentsWithout`).  `Swapped` says the rest of what is left
then.  Compaction keeps what nodes show, and drops one of them if they show nothing
(`Compacted.shows_iff`).
-/

import PageBinding.Proofs.Tree.Compacting
import PageBinding.Proofs.Tree.Planting

namespace PageBinding
namespace Tree

open Html (Document)
open Numbered (documents idsAll numberAllFrom)

/-- **What nodes show:** the root leads to them, they stand side by side, and what is read
at them are some documents. -/
structure Shows (t : Tree) (nodes : List NodeId) (ds : List Document) : Prop where
  within : ∀ x ∈ nodes, t.Within root x
  siblings : ∃ p, nodes <:+: t.childrenOf p
  read : nodes.mapM t.read = .ok ds

/-- Some nodes have no parent but the one. -/
def OnlyBelow (t : Tree) (p : NodeId) (nodes : List NodeId) : Prop :=
  ∀ x ∈ nodes, ∀ q, t.parentOf x = some q → q = p

variable {t u v : Tree} {a : Numbered} {p spot x y : NodeId} {nodes old : List NodeId}
  {before : Option NodeId} {news bs : List Numbered} {ds : List Document} {new : Renumbering}

/-! ## Ways up -/

/-- A way up to a node is one in another tree that has the links on it. -/
theorem Above.mono_within (h : t.Above y x)
    (hp : ∀ c q, t.Within c x → t.parentOf c = some q → u.parentOf c = some q) : u.Above y x := by
  induction h with
  | parent h => exact .parent (hp _ _ (.self ..) h)
  | step _ h ih =>
    have hup := hp _ _ (.self ..) h
    exact .step (ih fun c q hc => hp c q (hc.above h).within) hup

/-- Detaching nodes below a node takes nothing from the way up from there. -/
theorem within_parentsWithout (hw : t.WellFormed) (ho : t.OnlyBelow p old)
    (hu : ∀ x, t.Has x → u.parentOf x = t.parentsWithout old x) (hp : t.Has p) :
    u.Within y p ↔ t.Within y p := by
  constructor
  · rintro (rfl | h)
    · exact .self ..
    have hold : ∀ {c q}, t.Has c → u.parentOf c = some q → t.parentOf c = some q := by
      intro c q hc hq
      rw [hu c hc, parentsWithout] at hq
      split_ifs at hq
      exact hq
    clear ho
    refine .inr ?_
    induction h with
    | parent h => exact .parent (hold hp h)
    | step _ h ih =>
      have h := hold hp h
      exact .step (ih (hw.has_parent h)) h
  · rintro (rfl | h)
    · exact .self ..
    refine .inr (h.mono_within fun c q hc hq => ?_)
    rw [hu c (has_of_parentOf hq), parentsWithout, if_neg, hq]
    intro hm
    obtain rfl := ho c hm q hq
    exact hw.not_within_parent hq hc

/-! ## New nodes -/

/-- **What is left when new nodes are put in below a node** and others that stood there are
detached. -/
structure Laid (t u : Tree) (p : NodeId) (old : List NodeId) (news : List Numbered) : Prop where
  wellFormed : u.WellFormed
  size_le : t.size ≤ u.size
  parent : ∀ x, t.Has x → u.parentOf x = t.parentsWithout old x
  onlyBelow : t.OnlyBelow p old
  siblings : news.map Numbered.top <:+: u.childrenOf p
  holds : ∀ b ∈ news, u.Holds b
  fresh : ∀ x ∈ idsAll news, ¬ t.Has x

/-- What is put in among some nodes stands side by side. -/
theorem infix_splice (before : Option NodeId) (nodes cs : List NodeId) :
    nodes <:+: splice before nodes cs := by
  cases before with
  | none => exact (List.suffix_append ..).isInfix
  | some b => exact ⟨_, _, rfl⟩

/-- The new nodes have the node for their parent. -/
theorem Laid.parentOf_top (h : Laid t u p old news) (hx : x ∈ news.map Numbered.top) :
    u.parentOf x = some p :=
  (h.wellFormed.linked p x).1 (h.siblings.subset hx)

/-- **New nodes show what they hold** just if the root leads to the node below which they
are put, or if there are none. -/
theorem Laid.shows_iff (h : Laid t u p old news) (hw : t.WellFormed) (hroot : t.Has root)
    (hp : t.Has p) :
    u.Shows (news.map Numbered.top) (documents news) ↔ documents news = [] ∨ t.Within root p := by
  have hup := within_parentsWithout (y := root) hw h.onlyBelow h.parent hp
  constructor
  · intro hs
    cases news with
    | nil => exact .inl rfl
    | cons b news =>
      have hb : b.top ∈ (b :: news).map Numbered.top := List.mem_cons_self ..
      refine .inr (hup.1 ?_)
      rcases hs.within _ hb with he | habove
      · exact absurd (he ▸ hroot) (h.fresh _ (Numbered.mem_idsAll.2 ⟨b, List.mem_cons_self ..,
          b.top_mem_ids⟩))
      · exact habove.within_parent (h.parentOf_top hb)
  · intro hr
    refine ⟨fun x hx => ?_, ⟨p, h.siblings⟩, mapM_read h.wellFormed h.holds⟩
    rcases hr with hnil | hr
    · rw [Numbered.documents_eq_map, List.map_eq_nil_iff] at hnil
      rw [hnil] at hx
      cases hx
    · exact ((hup.2 hr).above (h.parentOf_top hx)).within

/-- **What is left when new nodes are put in below a node** that hold some documents, and old
ones are detached. -/
structure Swapped (t u : Tree) (spot : NodeId) (old : List NodeId) (before : Option NodeId)
    (ds : List Document) : Prop where
  wellFormed : u.WellFormed
  size_le : t.size ≤ u.size
  content : ∀ x, t.Has x → u.contentOf x = t.contentOf x
  parent : ∀ x, t.Has x → u.parentOf x = t.parentsWithout old x
  children : ∀ x, t.Has x → u.childrenOf x =
    (t.childrenWith spot ((numberAllFrom t.size ds).map Numbered.top) before x).filter (· ∉ old)
  holds : ∀ b ∈ numberAllFrom t.size ds, u.Holds b

/-- New nodes come behind those that there were. -/
theorem new_of_mem {k : Nat} (hx : x ∈ idsAll (numberAllFrom k ds)) : k ≤ x.index :=
  (Numbered.mem_idsAll_numberAllFrom.1 hx).1

/-- New nodes are none of the old ones. -/
theorem filter_new (ds : List Document) (ho : ∀ x ∈ old, t.Has x) :
    ((numberAllFrom t.size ds).map Numbered.top).filter (· ∉ old) =
      (numberAllFrom t.size ds).map Numbered.top := by
  refine List.filter_eq_self.2 fun x hx => decide_eq_true fun hm => ?_
  exact Nat.not_lt_of_le (new_of_mem ((Numbered.map_top_sublist _).subset hx)) (ho x hm)

/-- Replacing the children of a node. -/
theorem Inserted.swapped (hw : t.WellFormed)
    (hd : Relinked t v (t.parentsWithout (t.childrenOf spot)) (t.childrenWithout (t.childrenOf spot)))
    (hi : Inserted v u spot none (numberAllFrom t.size ds)) :
    Swapped t u spot (t.childrenOf spot) none ds := by
  refine ⟨hi.wellFormed, hd.size ▸ hi.size_le, fun x hx => ?_, fun x hx => ?_, fun x hx => ?_,
    hi.holds⟩
  · rw [hi.content x (hd.has.2 hx), hd.content]
  · rw [hi.parent x (hd.has.2 hx), hd.parent]
  · have hkeep : ((numberAllFrom t.size ds).map Numbered.top).filter (· ∉ t.childrenOf spot) = _ :=
      filter_new ds fun y hy => hw.has_child hy
    rw [hi.children x (hd.has.2 hx), childrenWith, childrenWith, hd.children, childrenWithout]
    split_ifs
    · rw [splice, splice, List.filter_append, hkeep]
    · rfl

/-- Nodes that were swapped are laid below the spot, if the old ones were nowhere else. -/
theorem Swapped.laid (h : Swapped t u spot old before ds) (ho : t.OnlyBelow spot old)
    (hold : ∀ x ∈ old, t.Has x) (hp : t.Has spot) : Laid t u spot old (numberAllFrom t.size ds) := by
  refine ⟨h.wellFormed, h.size_le, h.parent, ho, ?_, h.holds, fun x hx =>
    Nat.not_lt_of_le (new_of_mem hx)⟩
  have hinfix := (infix_splice before ((numberAllFrom t.size ds).map Numbered.top)
    (t.childrenOf spot)).filter (· ∉ old)
  rw [filter_new ds hold] at hinfix
  rwa [h.children _ hp, childrenWith, if_pos rfl]

/-! ## Compaction -/

/-- The nodes that were shown have new numbers, in their order. -/
theorem Compacted.filterMap_eq (h : Compacted t u a new) (hnodes : ∀ x ∈ nodes, x ∈ a.ids) :
    nodes.filterMap new.get? = nodes.map (placeIn a) := by
  rw [← List.filterMap_eq_map]
  refine List.filterMap_congr fun x hx => ?_
  rw [h.get?, if_pos (hnodes x hx)]
  rfl

/-- **Compaction keeps what nodes show,** and nodes that showed nothing show nothing
afterwards. -/
theorem Compacted.shows_iff (h : Compacted t u a new) (hw : t.WellFormed) (ha : t.Holds a)
    (htop : a.top = root) (hr : t.parentOf root = none) (hb : ∀ b ∈ bs, t.Holds b)
    (hs : ∃ p, bs.map Numbered.top <:+: t.childrenOf p) :
    u.Shows ((bs.map Numbered.top).filterMap new.get?) (documents bs) ↔
      t.Shows (bs.map Numbered.top) (documents bs) := by
  have hwu := h.wellFormed hw ha
  constructor
  · intro hu
    have hlen := length_of_mapM_ok hu.read
    rw [Numbered.documents_eq_map, List.length_map, ← List.length_map Numbered.top] at hlen
    refine ⟨fun x hx => ?_, hs, mapM_read hw hb⟩
    have hx := List.filterMap_length_eq_length.1 hlen.symm x hx
    rw [h.get?] at hx
    split_ifs at hx with hm
    · exact htop ▸ (ha.mem_ids hw).1 hm
    · cases hx
  · intro ht
    have hmem : ∀ x ∈ bs.map Numbered.top, x ∈ a.ids := fun x hx =>
      (ha.mem_ids hw).2 (htop ▸ ht.within x hx)
    have hheld := h.holds ha ha a.top_mem_ids
    rw [h.filterMap_eq hmem]
    refine ⟨fun x hx => ?_, ?_, ?_⟩
    · obtain ⟨y, hy, rfl⟩ := List.mem_map.1 hx
      have hids : placeIn a y ∈ (a.renumber (placeIn a)).ids := by
        rw [Numbered.ids_renumber]
        exact List.mem_map_of_mem (hmem y hy)
      have := (hheld.mem_ids hwu).1 hids
      rwa [Numbered.top_renumber, htop, placeIn_root htop] at this
    · obtain ⟨p, hp⟩ := ht.siblings
      cases bs with
      | nil => exact ⟨root, List.nil_infix⟩
      | cons b bs =>
        have hbp : t.parentOf b.top = some p := (hw.linked p _).1 (hp.subset (List.mem_cons_self ..))
        have hpa : p ∈ a.ids := by
          rcases ht.within b.top (List.mem_cons_self ..) with he | habove
          · rw [he, hr] at hbp
            cases hbp
          · exact (ha.mem_ids hw).2 (htop ▸ habove.within_parent hbp)
        exact ⟨placeIn a p, by rw [h.children p hpa]; exact hp.map _⟩
    · have hmap : (bs.map Numbered.top).map (placeIn a) =
          (bs.map (Numbered.renumber (placeIn a))).map Numbered.top := by
        rw [List.map_map, List.map_map]
        exact List.map_congr_left fun b _ => Numbered.top_renumber.symm
      have hdocs : documents (bs.map (Numbered.renumber (placeIn a))) = documents bs := by
        rw [← Numbered.renumberAll_eq_map, Numbered.documents_renumberAll]
      rw [hmap, mapM_read hwu fun b hb' => ?_, hdocs]
      obtain ⟨c, hc, rfl⟩ := List.mem_map.1 hb'
      exact h.holds ha (hb c hc) (hmem _ (List.mem_map_of_mem hc))

end Tree
end PageBinding
