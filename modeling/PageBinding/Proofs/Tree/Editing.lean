/-
# Trees that are edited

An edit is one operation on a tree (`Edit`).  It may be asked of a tree that has the
nodes it speaks of and where it puts no node within itself (`Admits`); other trees that
it copies from are well-formed.  Where a node goes is told by a sibling that is to
follow, and that one need not be a sibling, nor a node at all.

| edit | nodes afterwards |
| --- | --- |
| `push`, `clone`, `importFrom` | the same and new ones, which are detached |
| `insertTreeBefore`, `replaceChildren` | the same and new ones, which are put in |
| `setContent`, `detach`, `detachAll`, `insertBefore`, `appendChild`, `insertAllBefore` | the same |
| `compact` | those that the root leads to, numbered anew |

Each edit that may be asked of a well-formed tree succeeds and gives one
(`WellFormed.edit_ok`), so all trees that edits make of the empty one are well-formed
(`edited_trees_are_wellFormed`).  A node that is moved is detached first and put in
then, also if it stays with its parent (`insertBefore_relinked`).
-/

import PageBinding.Proofs.Tree.Compacting
import PageBinding.Proofs.Tree.Exchange
import PageBinding.Proofs.Tree.Planting

namespace PageBinding
namespace Tree

open Html (Node)

/-- One edit of a tree. -/
inductive Edit
  /-- A new detached node. -/
  | push (content : Node)
  /-- Another content of a node. -/
  | setContent (id : NodeId) (content : Node)
  | detach (id : NodeId)
  | detachAll (ids : List NodeId)
  | insertBefore (parent child : NodeId) (before : Option NodeId)
  | appendChild (parent child : NodeId)
  | insertAllBefore (parent : NodeId) (new : List NodeId) (before : Option NodeId)
  /-- A detached copy of what is at a node. -/
  | clone (id : NodeId)
  /-- A detached copy of what is at a node of another tree. -/
  | importFrom (other : Tree) (id : NodeId)
  | insertTreeBefore (parent : NodeId) (other : Tree) (before : Option NodeId)
  | replaceChildren (parent : NodeId) (other : Tree)
  | compact

/-- The tree that an edit makes. -/
def edit (t : Tree) : Edit → Except Fault Tree
  | .push n => return (t.push n).1
  | .setContent id n => t.setContent id n
  | .detach id => t.detach id
  | .detachAll ids => t.detachAll ids
  | .insertBefore parent child before => t.insertBefore parent child before
  | .appendChild parent child => t.appendChild parent child
  | .insertAllBefore parent new before => t.insertAllBefore parent new before
  | .clone id => return (← t.clone id).1
  | .importFrom other id => return (← t.importFrom other id).1
  | .insertTreeBefore parent other before => return (← t.insertTreeBefore parent other before).1
  | .replaceChildren parent other => return (← t.replaceChildren parent other).1
  | .compact => return (← t.compact).1

/-- What may be asked of a tree: an edit of nodes that it has, and that puts no node
within itself. -/
def Admits (t : Tree) : Edit → Prop
  | .push _ => True
  | .setContent id _ => t.Has id
  | .detach id => t.Has id
  | .detachAll ids => ∀ id ∈ ids, t.Has id
  | .insertBefore parent child _ => t.Has parent ∧ t.Has child ∧ ¬ t.Within child parent
  | .appendChild parent child => t.Has parent ∧ t.Has child ∧ ¬ t.Within child parent
  | .insertAllBefore parent new _ => t.Has parent ∧ new.Nodup ∧
    ∀ n ∈ new, t.Has n ∧ t.parentOf n = none ∧ ¬ t.Within n parent
  | .clone id => t.Has id
  | .importFrom other id => other.WellFormed ∧ other.Has id
  | .insertTreeBefore parent other _ => t.Has parent ∧ other.WellFormed ∧ other.Has root
  | .replaceChildren parent other => t.Has parent ∧ other.WellFormed ∧ other.Has root
  | .compact => True

/-- The trees that edits make of the empty one. -/
inductive Edited : Tree → Prop
  | empty : Edited empty
  | edit {t u : Tree} (e : Edit) : Edited t → t.Admits e → t.edit e = .ok u → Edited u

variable {t u v : Tree} {id parent child c x : NodeId} {before : Option NodeId}

/-! ## Moving a node -/

/-- `insertBefore` of a node of the tree: it is detached and then put in. -/
theorem insertBefore_relinked (hw : t.WellFormed) (hp : t.Has parent) (hc : t.Has child)
    (hne : parent ≠ child) (before : Option NodeId) :
    ∃ v u, Relinked t v (t.parentsWithout [child]) (t.childrenWithout [child]) ∧
      t.detach child = .ok v ∧ t.insertBefore parent child before = .ok u ∧
      Relinked v u (v.parentsWith parent [child]) (v.childrenWith parent [child] before) := by
  obtain ⟨v, hv, hd⟩ := detach_relinked hw hc
  obtain ⟨w, hw', hs⟩ := setChildren_relinked (hd.has.2 hp) (splice before [child])
  obtain ⟨u, hu, hr⟩ := setParent_relinked (hs.has.2 (hd.has.2 hc)) (some parent)
  refine ⟨v, u, hd, hv, ?_, hr.size.trans hs.size, fun x => (hr.content x).trans (hs.content x),
    fun x => ?_, fun x => (hr.children x).trans (hs.children x)⟩
  · rw [insertBefore, if_neg hne]
    simp only [ok_bind, hv, hw', hu]
  · rw [hr.parent, hs.parent, parentsWith]
    simp only [List.mem_singleton]

/-- A way up in a tree with fewer links is one. -/
theorem Within.of_detached {ids : List NodeId}
    (hd : Relinked t v (t.parentsWithout ids) (t.childrenWithout ids)) (h : v.Within child x) :
    t.Within child x := by
  refine h.imp_right fun ha => ha.mono fun c p hc => ?_
  rw [hd.parent, parentsWithout] at hc
  split_ifs at hc
  exact hc

/-- **Moving a node keeps a tree well-formed,** if it does not go within itself. -/
theorem WellFormed.insertBefore_ok (hw : t.WellFormed) (hp : t.Has parent) (hc : t.Has child)
    (hwithin : ¬ t.Within child parent) (before : Option NodeId) :
    ∃ v u, Relinked t v (t.parentsWithout [child]) (t.childrenWithout [child]) ∧
      t.detach child = .ok v ∧ t.insertBefore parent child before = .ok u ∧ u.WellFormed ∧
      Relinked v u (v.parentsWith parent [child]) (v.childrenWith parent [child] before) := by
  have hne : parent ≠ child := by
    rintro rfl
    exact hwithin (.self ..)
  obtain ⟨v, u, hd, hv, hu, hr⟩ := insertBefore_relinked hw hp hc hne before
  refine ⟨v, u, hd, hv, hu, (hw.of_detached hd).of_inserted (fun n hn => ?_) (fun n hn => ?_)
    (List.nodup_singleton _) (fun n hn => ?_) hr, hr⟩ <;> obtain rfl := List.mem_singleton.1 hn
  · exact hd.has.2 hc
  · rw [hd.parent, parentsWithout, if_pos hn]
  · exact fun h => hwithin (h.of_detached hd)

/-- A list without a member, and with it put in anywhere, is the list in another order. -/
theorem splice_filter_perm {cs : List NodeId} (hn : cs.Nodup) (hc : child ∈ cs)
    (before : Option NodeId) : (splice before [child] (cs.filter (· ∉ [child]))).Perm cs := by
  obtain ⟨pre, post, rfl, hpre, hpost⟩ := split_of_nodup hn hc
  refine (splice_perm ..).trans ?_
  rw [← exchange_nil, exchange_split hpre hpost, List.append_nil, List.singleton_append]
  exact List.perm_middle.symm

/-- A child that is put in anew and taken out leaves the others. -/
theorem filter_splice {cs : List NodeId} (h : child ∉ cs) (before : Option NodeId) :
    (splice before [child] cs).filter (· ≠ child) = cs := by
  have hkeep : ∀ {l : List NodeId}, (∀ x ∈ l, x ∈ cs) → l.filter (· ≠ child) = l := fun hl =>
    List.filter_eq_self.2 fun x hx => decide_eq_true fun he => h (he ▸ hl x hx)
  have hdrop : [child].filter (· ≠ child) = [] := by simp
  cases before with
  | none => rw [splice, List.filter_append, hkeep fun x hx => hx, hdrop, List.append_nil]
  | some b =>
    rw [splice, List.filter_append, List.filter_append, hdrop, List.append_nil,
      hkeep fun x hx => (List.takeWhile_sublist _).subset hx,
      hkeep fun x hx => (List.dropWhile_sublist _).subset hx, List.takeWhile_append_dropWhile]

/-- What is at a node stays there if nothing below it is detached. -/
theorem Holds.detached {a : Numbered} {ids : List NodeId} (ha : t.Holds a)
    (hd : Relinked t v (t.parentsWithout ids) (t.childrenWithout ids))
    (hids : ∀ x ∈ ids, x ∉ Numbered.idsAll a.inside) : v.Holds a := by
  refine ha.frame (fun x _ => hd.content x) fun x hx => ?_
  rw [hd.children]
  exact List.filter_eq_self.2 fun c hc => decide_eq_true fun hm =>
    hids c hm (ha.child_mem_inside hx hc)

/-- What is at a node stays there if nothing is put in at it or below. -/
theorem Holds.inserted {a : Numbered} {new : List NodeId} (ha : t.Holds a)
    (hi : Relinked t u (t.parentsWith parent new) (t.childrenWith parent new before))
    (hp : parent ∉ a.ids) : u.Holds a := by
  refine ha.frame (fun x _ => hi.content x) fun x hx => ?_
  rw [hi.children, childrenWith, if_neg]
  rintro rfl
  exact hp hx

/-- What is at a node that is detached stays there. -/
theorem Holds.detach {a : Numbered} (ha : t.Holds a) (hw : t.WellFormed)
    (hd : Relinked t v (t.parentsWithout [a.top]) (t.childrenWithout [a.top])) : v.Holds a :=
  ha.detached hd (List.forall_mem_singleton.2 (ha.top_notMem_idsAll hw))

/-- What is at a node that is moved stays there, and the node gets its new parent. -/
theorem Holds.insertBefore {a : Numbered} (ha : t.Holds a) (hw : t.WellFormed) (hp : t.Has parent)
    (hwithin : ¬ t.Within a.top parent) (before : Option NodeId) :
    ∃ u, t.insertBefore parent a.top before = .ok u ∧ a.top ∈ u.childrenOf parent ∧
      u.WellFormed ∧ u.Holds a := by
  obtain ⟨v, u, hd, -, hu, hwu, hi⟩ := hw.insertBefore_ok hp ha.has_top hwithin before
  refine ⟨u, hu, ?_, hwu, (ha.detach hw hd).inserted hi fun hm => hwithin ((ha.mem_ids hw).1 hm)⟩
  rw [hi.children, childrenWith, if_pos rfl, mem_splice]
  exact .inl (List.mem_singleton_self _)

/-- **A node that stays with its parent** is neither lost nor doubled, and the others
keep their order. -/
theorem WellFormed.insertBefore_within (hw : t.WellFormed) (hc : t.parentOf child = some parent)
    (before : Option NodeId) : ∃ u, t.insertBefore parent child before = .ok u ∧
      (u.childrenOf parent).Perm (t.childrenOf parent) ∧
      (u.childrenOf parent).filter (· ≠ child) = (t.childrenOf parent).filter (· ≠ child) ∧
      (∀ x, x ≠ parent → u.childrenOf x = t.childrenOf x) ∧ ∀ x, u.parentOf x = t.parentOf x := by
  obtain ⟨v, u, hd, -, hu, -, hi⟩ := hw.insertBefore_ok (hw.has_parent hc) (has_of_parentOf hc)
    (hw.not_within_parent hc) before
  have hpar : u.childrenOf parent =
      splice before [child] ((t.childrenOf parent).filter (· ∉ [child])) := by
    rw [hi.children, childrenWith, if_pos rfl, hd.children, childrenWithout]
  refine ⟨u, hu, ?_, ?_, fun x hx => ?_, fun x => ?_⟩
  · rw [hpar]
    exact splice_filter_perm (hw.nodup parent) ((hw.linked _ _).2 hc) before
  · rw [hpar, filter_splice (by simp)]
    exact List.filter_congr fun x _ => by simp
  · rw [hi.children, childrenWith, if_neg hx, hd.children]
    exact hw.childrenWithout_singleton fun he => hx (Option.some.inj (he.symm.trans hc))
  · rw [hi.parent, parentsWith, hd.parent, parentsWithout]
    split_ifs with hx
    · rw [List.mem_singleton.1 hx, hc]
    · rfl

/-! ## Edits -/

/-- A tree with a new node is well-formed if the tree was. -/
theorem WellFormed.of_push (hw : t.WellFormed) (n : Node) : (t.push n).1.WellFormed :=
  (hw.push_grown n).wellFormed

/-- **Each edit keeps a tree well-formed,** and it succeeds. -/
theorem WellFormed.edit_ok (hw : t.WellFormed) (hr : t.Has root) {e : Edit} (he : t.Admits e) :
    ∃ u, t.edit e = .ok u ∧ u.WellFormed ∧ u.Has root := by
  have hgrow : ∀ {u : Tree}, t.size ≤ u.size → u.Has root := fun hs => Nat.lt_of_lt_of_le hr hs
  cases e with
  | push n =>
    exact ⟨_, rfl, hw.of_push n, hgrow (by rw [size_push]; exact Nat.le_succ _)⟩
  | setContent id n =>
    obtain ⟨u, hu, hs, -, hp, hc⟩ := setContent_ok he n
    exact ⟨u, hu, hw.of_links hs hp hc, hgrow hs.ge⟩
  | detach id =>
    obtain ⟨u, hu, hd⟩ := detach_relinked hw he
    exact ⟨u, hu, hw.of_detached hd, hgrow hd.size.ge⟩
  | detachAll ids =>
    obtain ⟨u, hu, hd⟩ := detachAll_relinked hw he
    exact ⟨u, hu, hw.of_detached hd, hgrow hd.size.ge⟩
  | insertBefore parent child before =>
    obtain ⟨v, u, hd, -, hu, hwu, hi⟩ := hw.insertBefore_ok he.1 he.2.1 he.2.2 before
    exact ⟨u, hu, hwu, hgrow (hi.size.trans hd.size).ge⟩
  | appendChild parent child =>
    obtain ⟨v, u, hd, -, hu, hwu, hi⟩ := hw.insertBefore_ok he.1 he.2.1 he.2.2 none
    exact ⟨u, hu, hwu, hgrow (hi.size.trans hd.size).ge⟩
  | insertAllBefore parent new before =>
    obtain ⟨hp, hn, hnew⟩ := he
    obtain ⟨u, hu, hi⟩ := insertAllBefore_relinked before hp (fun n hm => (hnew n hm).1)
      (fun n hm => (hnew n hm).2.1) (fun hm => (hnew _ hm).2.2 (.self ..)) hn
    exact ⟨u, hu, hw.of_inserted (fun n hm => (hnew n hm).1) (fun n hm => (hnew n hm).2.1) hn
      (fun n hm => (hnew n hm).2.2) hi, hgrow hi.size.ge⟩
  | clone id =>
    obtain ⟨a, rfl, ha⟩ := hw.exists_holds he
    obtain ⟨u, hu, hg⟩ := hw.clone_grown ha
    exact ⟨u, by rw [edit, hu]; rfl, hg.wellFormed, hgrow hg.growsTo.size_le⟩
  | importFrom other id =>
    obtain ⟨a, rfl, ha⟩ := he.1.exists_holds he.2
    obtain ⟨u, hu, hg⟩ := hw.import_grown he.1 ha
    exact ⟨u, by rw [edit, hu]; rfl, hg.wellFormed, hgrow hg.growsTo.size_le⟩
  | insertTreeBefore parent other before =>
    obtain ⟨a, htop, ha⟩ := he.2.1.exists_holds he.2.2
    obtain ⟨u, hu, hi⟩ := hw.insertTreeBefore_inserted he.2.1 ha htop he.1 before
    exact ⟨u, by rw [edit, hu]; rfl, hi.wellFormed, hgrow hi.size_le⟩
  | replaceChildren parent other =>
    obtain ⟨a, htop, ha⟩ := he.2.1.exists_holds he.2.2
    obtain ⟨v, u, hd, hu, hi⟩ := hw.replaceChildren_inserted he.2.1 ha htop he.1
    exact ⟨u, by rw [edit, hu]; rfl, hi.wellFormed, hgrow (hd.size ▸ hi.size_le)⟩
  | compact =>
    obtain ⟨a, htop, ha⟩ := hw.exists_holds hr
    obtain ⟨u, new, hu, hc⟩ := compact_compacted hw ha htop
    refine ⟨u, by rw [edit, hu]; rfl, hc.wellFormed hw ha, ?_⟩
    exact Compacted.placeIn_root htop ▸ hc.has (htop ▸ a.top_mem_ids)

/-- The empty tree is well-formed. -/
theorem wellFormed_empty : empty.WellFormed := wellFormed_nil.of_push .fragment

/-- The trees that edits make are well-formed and have a root. -/
theorem Edited.wellFormed (h : Edited t) : t.WellFormed ∧ t.Has root := by
  induction h with
  | empty => exact ⟨wellFormed_empty, Nat.one_pos⟩
  | edit e _ he hu ih =>
    obtain ⟨v, hv, hw, hr⟩ := ih.1.edit_ok ih.2 he
    obtain rfl := Except.ok.inj (hu.symm.trans hv)
    exact ⟨hw, hr⟩

/-- **Trees that are edited are well-formed,** and no edit of them fails.  In each of
them the way up from any node ends; what is at a node that is detached is there
unchanged, also once the node is put in again; and a node that is moved among its
siblings is neither lost nor doubled. -/
theorem edited_trees_are_wellFormed : ∀ t, Edited t →
    (t.WellFormed ∧ (∀ c p, t.parentOf c = some p → t.Has p) ∧
      ∀ id, t.Has id → ∃ ids, t.ancestorsOrSelf id = .ok ids) ∧
    (∀ e, t.Admits e → ∃ u, t.edit e = .ok u) ∧
    (∀ id, t.Has id → ∃ d u, t.read id = .ok d ∧ t.detach id = .ok u ∧ u.parentOf id = none ∧
      u.read id = .ok d ∧ ∀ parent before, u.Has parent → ¬ u.Within id parent →
        ∃ v, u.insertBefore parent id before = .ok v ∧ id ∈ v.childrenOf parent ∧
          v.read id = .ok d) ∧
    ∀ parent child before, t.parentOf child = some parent →
      ∃ u, t.insertBefore parent child before = .ok u ∧
        (u.childrenOf parent).Perm (t.childrenOf parent) ∧
        (u.childrenOf parent).filter (· ≠ child) = (t.childrenOf parent).filter (· ≠ child) ∧
        (∀ x, x ≠ parent → u.childrenOf x = t.childrenOf x) ∧ ∀ x, u.parentOf x = t.parentOf x := by
  intro t h
  obtain ⟨hw, hr⟩ := h.wellFormed
  refine ⟨⟨hw, fun c p => hw.has_parent, fun id hid => ?_⟩, fun e he => ?_, fun id hid => ?_,
    fun parent child before hc => hw.insertBefore_within hc before⟩
  · obtain ⟨ids, hids, -⟩ := ancestorsOrSelf_ok hw hid
    exact ⟨ids, hids⟩
  · obtain ⟨u, hu, -⟩ := hw.edit_ok hr he
    exact ⟨u, hu⟩
  · obtain ⟨a, rfl, ha⟩ := hw.exists_holds hid
    obtain ⟨u, hu, hd⟩ := detach_relinked hw hid
    have hwu := hw.of_detached hd
    have hau := ha.detach hw hd
    refine ⟨a.document, u, ha.read hw, hu, ?_, hau.read hwu, fun parent before hp hwithin => ?_⟩
    · rw [hd.parent, parentsWithout, if_pos (List.mem_singleton_self _)]
    · obtain ⟨v, hv, hmem, hwv, hav⟩ := hau.insertBefore hwu hp hwithin before
      exact ⟨v, hv, hmem, hav.read hwv⟩

/-- A list of two items, of which the first is moved before itself. -/
theorem edited_trees_are_wellFormed_of_list : ∃ t, Edited t ∧ t.WellFormed ∧
    t.childrenOf ⟨1⟩ = [⟨2⟩, ⟨3⟩] ∧ t.parentOf ⟨2⟩ = some ⟨1⟩ ∧
      ∃ u, t.insertBefore ⟨1⟩ ⟨2⟩ (some ⟨2⟩) = .ok u ∧ (u.childrenOf ⟨1⟩).Perm [⟨2⟩, ⟨3⟩] := by
  let item : Html.Document := .node (.element ⟨"li", []⟩) []
  let list : Tree := .ofDocuments [.node (.element ⟨"ul", []⟩) [item, item]]
  obtain ⟨t, ht, hchildren, hparent⟩ : ∃ t,
      empty.edit (.insertTreeBefore root list none) = .ok t ∧
        t.childrenOf ⟨1⟩ = [⟨2⟩, ⟨3⟩] ∧ t.parentOf ⟨2⟩ = some ⟨1⟩ :=
    exists_of_map_decide (by decide +kernel)
  have hedited : Edited t := .edit (.insertTreeBefore root list none) .empty
    ⟨Nat.one_pos, ofDocuments_wellFormed _, has_iff_contentOf.2 ⟨_, contentOf_ofDocuments _⟩⟩ ht
  obtain ⟨⟨hw, -⟩, -, -, hmove⟩ := edited_trees_are_wellFormed t hedited
  obtain ⟨u, hu, hperm, -⟩ := hmove ⟨1⟩ ⟨2⟩ (some ⟨2⟩) hparent
  exact ⟨t, hedited, hw, hchildren, hparent, u, hu, hchildren ▸ hperm⟩

end Tree
end PageBinding
