/-
# Many nodes, one by one

`detachAll` and `insertAllBefore` change the parents of all the nodes first and the
children afterwards, so in between the links of the tree do not agree.  What they leave
is all the same what `detach` and `insertBefore` leave when they are asked for one node
after the other (`bulk_links_eq_one_by_one`).  Both sides are described by what can be
seen of the tree, and that determines it (`Relinked.unique`).

Nodes can be put in one after the other as long as the ones that are left are still
detached and none of them has come to be above the parent (`Insertable`).  The ones that
are put in have not, for they are below it now.
-/

import PageBinding.Proofs.Tree.Editing
import PageBinding.Proofs.Tree.Renamed
import PageBinding.Proofs.Tree.Showing

namespace PageBinding
namespace Tree

variable {t u v : Tree} {parent n c : NodeId} {ids new cs : List NodeId} {before : Option NodeId}

/-- What an operation on links leaves is determined by the links. -/
theorem Relinked.unique {ps : NodeId → Option NodeId} {cs : NodeId → List NodeId}
    (h : Relinked t u ps cs) (h' : Relinked t v ps cs) : u = v :=
  ext_of_views (h.size.trans h'.size.symm) (fun x _ => (h.content x).trans (h'.content x).symm)
    (fun x _ => (h.parent x).trans (h'.parent x).symm)
    fun x _ => (h.children x).trans (h'.children x).symm

/-! ## Detaching -/

/-- Detaching nodes and then others is detaching all of them. -/
theorem Relinked.without_append {ids' : List NodeId}
    (h : Relinked t v (t.parentsWithout ids) (t.childrenWithout ids))
    (h' : Relinked v u (v.parentsWithout ids') (v.childrenWithout ids')) :
    Relinked t u (t.parentsWithout (ids ++ ids')) (t.childrenWithout (ids ++ ids')) where
  size := h'.size.trans h.size
  content x := (h'.content x).trans (h.content x)
  parent x := by
    rw [h'.parent, parentsWithout, h.parent, parentsWithout, parentsWithout]
    by_cases hx : x ∈ ids <;> by_cases hx' : x ∈ ids' <;> simp [hx, hx']
  children x := by
    rw [h'.children, childrenWithout, h.children, childrenWithout, childrenWithout,
      List.filter_filter]
    refine List.filter_congr fun c _ => ?_
    by_cases hc : c ∈ ids <;> by_cases hc' : c ∈ ids' <;> simp [hc, hc']

/-- Only which nodes are detached counts. -/
theorem Relinked.without_congr {ids' : List NodeId} (hmem : ∀ x, x ∈ ids ↔ x ∈ ids')
    (h : Relinked t u (t.parentsWithout ids) (t.childrenWithout ids)) :
    Relinked t u (t.parentsWithout ids') (t.childrenWithout ids') where
  size := h.size
  content := h.content
  parent x := by
    rw [h.parent]
    simp only [parentsWithout, hmem]
  children x := by
    rw [h.children]
    simp only [childrenWithout, hmem]

/-- **Nodes detached one after the other.** -/
theorem foldlM_detach (ids : List NodeId) : ∀ {t : Tree}, t.WellFormed → (∀ id ∈ ids, t.Has id) →
    ∃ u, ids.foldlM detach t = .ok u ∧
      Relinked t u (t.parentsWithout ids) (t.childrenWithout ids) := by
  induction ids with
  | nil =>
    intro t _ _
    exact ⟨t, rfl, rfl, fun _ => rfl, fun _ => by simp [parentsWithout],
      fun _ => by simp [childrenWithout]⟩
  | cons id ids ih =>
    intro t hw hids
    obtain ⟨v, hv, hd⟩ := detach_relinked hw (hids id (List.mem_cons_self ..))
    obtain ⟨u, hu, hr⟩ := ih (hw.of_detached hd) fun x hx =>
      hd.has.2 (hids x (List.mem_cons_of_mem _ hx))
    exact ⟨u, by rw [List.foldlM_cons, hv, ok_bind, hu], hd.without_append hr⟩

/-! ## Putting in -/

/-- The place before a member is where the members before it end. -/
theorem splice_at {b : NodeId} {pre post : List NodeId} (hpre : ∀ x ∈ pre, x ≠ b)
    (hpost : ∀ x ∈ post.head?, x = b) (new : List NodeId) :
    splice (some b) new (pre ++ post) = pre ++ new ++ post := by
  have hpre' : ∀ x ∈ pre, decide (x ≠ b) = true := fun x hx => decide_eq_true (hpre x hx)
  rw [splice, List.takeWhile_append_of_pos hpre', List.dropWhile_append_of_pos hpre']
  cases post with
  | nil => simp
  | cons x post => simp [hpost x rfl]

/-- The first of some nodes is put in before the others, at the same place. -/
theorem splice_cons (hn : ∀ b ∈ before, b ≠ n) (new cs : List NodeId) :
    splice before new (splice before [n] cs) = splice before (n :: new) cs := by
  cases before with
  | none => rw [splice, splice, splice, List.append_assoc, List.singleton_append]
  | some b =>
    have hpre : ∀ x ∈ cs.takeWhile (· ≠ b), x ≠ b := fun x hx =>
      of_decide_eq_true (List.all_eq_true.1 List.all_takeWhile x hx)
    have hpost : ∀ x ∈ (cs.dropWhile (· ≠ b)).head?, x = b := fun x hx => by
      have := List.head?_dropWhile_not (· ≠ b) cs
      rw [hx] at this
      simpa using this
    have hpre' : ∀ x ∈ cs.takeWhile (· ≠ b) ++ [n], x ≠ b := by
      intro x hx
      rcases List.mem_append.1 hx with hx | hx
      · exact hpre x hx
      · exact List.mem_singleton.1 hx ▸ (hn b rfl).symm
    have hone : splice (some b) [n] cs =
        cs.takeWhile (· ≠ b) ++ [n] ++ cs.dropWhile (· ≠ b) := rfl
    rw [hone, splice_at hpre' hpost, splice, List.append_assoc _ [n], List.singleton_append]

/-- **Nodes that can be put in,** one after the other. -/
structure Insertable (t : Tree) (parent : NodeId) (before : Option NodeId) (new : List NodeId) :
    Prop where
  hasParent : t.Has parent
  has : ∀ n ∈ new, t.Has n
  detached : ∀ n ∈ new, t.parentOf n = none
  notAbove : ∀ n ∈ new, ¬ t.Within n parent
  nodup : new.Nodup
  notNew : ∀ b ∈ before, b ∉ new

/-- A node is none of those that can be put in below it. -/
theorem Insertable.parent_notMem (h : t.Insertable parent before new) : parent ∉ new :=
  fun hm => h.notAbove parent hm (.self ..)

/-- The first of the nodes is put in, and the others can be put in then. -/
theorem Insertable.insertBefore (h : t.Insertable parent before (n :: new)) (hw : t.WellFormed) :
    ∃ u, t.insertBefore parent n before = .ok u ∧ u.WellFormed ∧
      Relinked t u (t.parentsWith parent [n]) (t.childrenWith parent [n] before) ∧
      u.Insertable parent before new := by
  have hmem : n ∈ n :: new := List.mem_cons_self ..
  obtain ⟨v, u, -, hv, hu, hwu, hr⟩ := hw.insertBefore_ok h.hasParent (h.has n hmem)
    (h.notAbove n hmem) before
  obtain rfl : t = v :=
    Except.ok.inj ((detach_of_detached (h.has n hmem) (h.detached n hmem)).symm.trans hv)
  have hother : ∀ x, x ≠ n → u.parentOf x = t.parentOf x := fun x hx => by
    rw [hr.parent, parentsWith, if_neg (by simpa using hx)]
  have hnew : ∀ m ∈ new, m ∈ n :: new ∧ m ≠ n := fun m hm =>
    ⟨List.mem_cons_of_mem _ hm, fun he => (List.nodup_cons.1 h.nodup).1 (he ▸ hm)⟩
  refine ⟨u, hu, hwu, hr, hr.has.2 h.hasParent, fun m hm => hr.has.2 (h.has m (hnew m hm).1),
    fun m hm => (hother m (hnew m hm).2).trans (h.detached m (hnew m hm).1), fun m hm hin => ?_,
    (List.nodup_cons.1 h.nodup).2, fun b hb hm => h.notNew b hb (List.mem_cons_of_mem _ hm)⟩
  -- The way up from the parent does not lead through the node, which is below it.
  have hn : u.parentOf n = some parent := by
    rw [hr.parent, parentsWith, if_pos (List.mem_singleton_self _)]
  refine h.notAbove m (hnew m hm).1 (hin.imp_right fun ha => ha.mono_within fun c q hc hq => ?_)
  rwa [← hother c]
  rintro rfl
  exact hwu.not_within_parent hn hc

/-- Putting in a node and then others is putting in all of them. -/
theorem Relinked.with_cons (hn : ∀ b ∈ before, b ≠ n)
    (h : Relinked t v (t.parentsWith parent [n]) (t.childrenWith parent [n] before))
    (h' : Relinked v u (v.parentsWith parent new) (v.childrenWith parent new before)) :
    Relinked t u (t.parentsWith parent (n :: new)) (t.childrenWith parent (n :: new) before) where
  size := h'.size.trans h.size
  content x := (h'.content x).trans (h.content x)
  parent x := by
    rw [h'.parent, parentsWith, h.parent, parentsWith, parentsWith]
    by_cases hx : x = n <;> simp [hx]
  children x := by
    rw [h'.children, childrenWith, h.children, childrenWith, childrenWith]
    split_ifs
    · exact splice_cons hn ..
    · rfl

/-- **Nodes put in one after the other.** -/
theorem foldlM_insertBefore (new : List NodeId) : ∀ {t : Tree}, t.WellFormed →
    t.Insertable parent before new →
      ∃ u, new.foldlM (fun t n => t.insertBefore parent n before) t = .ok u ∧
        Relinked t u (t.parentsWith parent new) (t.childrenWith parent new before) := by
  induction new with
  | nil =>
    intro t _ _
    refine ⟨t, rfl, rfl, fun _ => rfl, fun _ => by simp [parentsWith], fun x => ?_⟩
    rw [childrenWith]
    split_ifs
    · cases before <;> simp [splice, List.takeWhile_append_dropWhile]
    · rfl
  | cons n new ih =>
    intro t hw h
    obtain ⟨v, hv, hwv, hr, hrest⟩ := h.insertBefore hw
    obtain ⟨u, hu, hs⟩ := ih hwv hrest
    refine ⟨u, by rw [List.foldlM_cons, hv, ok_bind, hu], hr.with_cons (fun b hb he => ?_) hs⟩
    exact h.notNew b hb (he ▸ List.mem_cons_self ..)

/-! ## Both at once -/

/-- **The operations on many nodes are those on one, repeated.**  Detached nodes that are
put in together are put in one after the other, before the same node or at the end;
nodes that are detached together, some of them perhaps named twice, detached before or
below each other, are detached one after the other in any order. -/
theorem bulk_links_eq_one_by_one (t : Tree) (hw : t.WellFormed) :
    (∀ (parent : NodeId) (new : List NodeId) (before : Option NodeId), t.Has parent → new.Nodup →
      (∀ n ∈ new, t.Has n ∧ t.parentOf n = none ∧ ¬ t.Within n parent) → (∀ b ∈ before, b ∉ new) →
        ∃ u, t.insertAllBefore parent new before = .ok u ∧
          new.foldlM (fun t n => t.insertBefore parent n before) t = .ok u) ∧
    ∀ ids : List NodeId, (∀ id ∈ ids, t.Has id) →
      ∃ u, t.detachAll ids = .ok u ∧
        ∀ order : List NodeId, order.Perm ids → order.foldlM detach t = .ok u := by
  refine ⟨fun parent new before hp hn hnew hb => ?_, fun ids hids => ?_⟩
  · have h : t.Insertable parent before new := ⟨hp, fun n hm => (hnew n hm).1,
      fun n hm => (hnew n hm).2.1, fun n hm => (hnew n hm).2.2, hn, hb⟩
    obtain ⟨u, hu, hr⟩ := insertAllBefore_relinked before hp h.has h.detached h.parent_notMem hn
    obtain ⟨v, hv, hs⟩ := foldlM_insertBefore new hw h
    exact ⟨u, hu, hr.unique hs ▸ hv⟩
  · obtain ⟨u, hu, hr⟩ := detachAll_relinked hw hids
    refine ⟨u, hu, fun order horder => ?_⟩
    obtain ⟨v, hv, hs⟩ := foldlM_detach order hw fun id hid => hids id (horder.mem_iff.1 hid)
    exact hr.unique (hs.without_congr fun x => horder.mem_iff) ▸ hv

/-- Two items of a list are detached, put in again the other way round, and detached with the
list itself, one of them named twice. -/
theorem bulk_links_eq_one_by_one_of_list : ∃ t, t.WellFormed ∧ t.childrenOf ⟨1⟩ = [⟨4⟩] ∧
    (∃ u, t.insertAllBefore ⟨1⟩ [⟨3⟩, ⟨2⟩] (some ⟨4⟩) = .ok u ∧ u.childrenOf ⟨1⟩ = [⟨3⟩, ⟨2⟩, ⟨4⟩] ∧
      [⟨3⟩, ⟨2⟩].foldlM (fun t n => t.insertBefore ⟨1⟩ n (some ⟨4⟩)) t = .ok u) ∧
    ∃ u, t.detachAll [⟨4⟩, ⟨1⟩, ⟨4⟩, ⟨2⟩] = .ok u ∧ u.childrenOf ⟨1⟩ = [] ∧
      [⟨1⟩, ⟨4⟩, ⟨4⟩, ⟨2⟩].foldlM detach t = .ok u := by
  let item : Html.Document := .node (.element ⟨"li", []⟩) []
  let list : Tree := .ofDocuments [.node (.element ⟨"ul", []⟩) [item, item, item]]
  have hsize : list.size = 5 := by decide +kernel
  have hup : (list.detachAll [⟨2⟩, ⟨3⟩] >>= (·.ancestorsOrSelf ⟨1⟩)) = .ok [⟨1⟩, ⟨0⟩] := by decide +kernel
  have hput : (list.detachAll [⟨2⟩, ⟨3⟩] >>= (·.insertAllBefore ⟨1⟩ [⟨3⟩, ⟨2⟩] (some ⟨4⟩))).map
      (·.childrenOf ⟨1⟩) = .ok [⟨3⟩, ⟨2⟩, ⟨4⟩] := by decide +kernel
  have hout : (list.detachAll [⟨2⟩, ⟨3⟩] >>= (·.detachAll [⟨4⟩, ⟨1⟩, ⟨4⟩, ⟨2⟩])).map
      (·.childrenOf ⟨1⟩) = .ok [] := by decide +kernel
  have hchildren : list.childrenOf ⟨1⟩ = [⟨2⟩, ⟨3⟩, ⟨4⟩] := by decide +kernel
  have hw : list.WellFormed := ofDocuments_wellFormed _
  have hitems : ∀ id ∈ [(⟨2⟩ : NodeId), ⟨3⟩], list.Has id := by simp [Has, hsize]
  obtain ⟨t, ht, hd⟩ := detachAll_relinked hw hitems
  rw [ht, ok_bind] at hup hput hout
  have hwt := hw.of_detached hd
  have hhas : ∀ i < 5, t.Has ⟨i⟩ := fun i hi => hd.has.2 (by rwa [Has, hsize])
  obtain ⟨ids, hids, hmem⟩ := ancestorsOrSelf_ok hwt (hhas 1 (by decide))
  obtain rfl := Except.ok.inj (hup.symm.trans hids)
  obtain ⟨hinsert, hdetach⟩ := bulk_links_eq_one_by_one t hwt
  obtain ⟨u, hu, hone⟩ := hinsert ⟨1⟩ [⟨3⟩, ⟨2⟩] (some ⟨4⟩) (hhas 1 (by decide)) (by decide)
    (by simp [hhas, hd.parent, parentsWithout, ← hmem]) (by decide)
  obtain ⟨v, hv, horder⟩ := hdetach [⟨4⟩, ⟨1⟩, ⟨4⟩, ⟨2⟩] (by simp [hhas])
  rw [hu] at hput
  rw [hv] at hout
  refine ⟨t, hwt, ?_, ⟨u, hu, Except.ok.inj hput, hone⟩, v, hv, Except.ok.inj hout, horder _ ?_⟩
  · rw [hd.children, childrenWithout, hchildren]
    decide
  · decide

end Tree
end PageBinding
