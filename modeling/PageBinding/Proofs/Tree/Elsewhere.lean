/-
# Edits elsewhere

An edit sets the contents or the children of some nodes (`Edit.changed`), and it is asked to
move others (`Edit.moved`).  If it changes no node within a given one, and moves none that is
below that, then what is at the given node stays (`Holds.edit`), and it may well be moved as
a whole.  The same goes for edits one after the other (`EditedOutside`), as long as the
nodes keep their numbers, that is without `compact`.

| edit | changes | moves |
| --- | --- | --- |
| `push`, `clone`, `importFrom` | | |
| `setContent` | the node | |
| `detach`, `detachAll` | | the nodes |
| `insertBefore`, `appendChild`, `insertAllBefore` | the parent | the nodes put in |
| `insertTreeBefore`, `replaceChildren` | the parent | |
-/

import PageBinding.Proofs.Tree.Editing
import PageBinding.Proofs.Tree.Walking

namespace PageBinding
namespace Tree

open Numbered (idsAll)

/-- The nodes of which an edit sets the content or the children. -/
def Edit.changed : Edit → List NodeId
  | .setContent id _ => [id]
  | .insertBefore parent _ _ | .appendChild parent _ | .insertAllBefore parent _ _
  | .insertTreeBefore parent _ _ | .replaceChildren parent _ => [parent]
  | .push _ | .detach _ | .detachAll _ | .clone _ | .importFrom _ _ | .compact => []

/-- The nodes that an edit is asked to move. -/
def Edit.moved : Edit → List NodeId
  | .detach id => [id]
  | .detachAll ids => ids
  | .insertBefore _ child _ | .appendChild _ child => [child]
  | .insertAllBefore _ new _ => new
  | .push _ | .setContent _ _ | .clone _ | .importFrom _ _ | .insertTreeBefore _ _ _
  | .replaceChildren _ _ | .compact => []

/-- **Edits outside of a node,** one after the other: they change nothing that was within
it, move nothing that was below it, and leave the numbers. -/
inductive EditedOutside (t : Tree) (id : NodeId) : Tree → Prop
  | refl : EditedOutside t id t
  | edit {u v : Tree} (e : Edit) : EditedOutside t id u → u.Admits e → e ≠ .compact →
    (∀ x ∈ e.changed, ¬ t.Within id x) → (∀ x ∈ e.moved, ¬ t.Above id x) → u.edit e = .ok v →
      EditedOutside t id v

variable {t u : Tree} {a : Numbered} {id p : NodeId} {before : Option NodeId}
  {news : List Numbered} {e : Edit}

/-- What is at a node stays there if new nodes are put in elsewhere. -/
theorem Inserted.holds_other (hi : Inserted t u p before news) (ha : t.Holds a) (hp : p ∉ a.ids) :
    u.Holds a := by
  refine ha.frame (fun x hx => hi.content x (ha.has hx)) fun x hx => ?_
  rw [hi.children x (ha.has hx), childrenWith, if_neg]
  rintro rfl
  exact hp hx

/-- **An edit elsewhere** leaves what is at a node. -/
theorem Holds.edit (ha : t.Holds a) (hw : t.WellFormed) (he : t.Admits e) (hne : e ≠ .compact)
    (hchanged : ∀ x ∈ e.changed, x ∉ a.ids) (hmoved : ∀ x ∈ e.moved, x ∉ idsAll a.inside)
    (hu : t.edit e = .ok u) : u.Holds a := by
  cases e with
  | push n =>
    obtain rfl := Except.ok.inj hu
    exact (hw.push_grown n).growsTo.holds ha
  | setContent id n =>
    obtain ⟨v, hv, -, hcon, -, hch⟩ := setContent_ok he n
    obtain rfl := Except.ok.inj (hv.symm.trans hu)
    refine ha.frame (fun x hx => ?_) fun x _ => hch x
    rw [hcon, if_neg]
    rintro rfl
    exact hchanged x (List.mem_singleton_self _) hx
  | detach id =>
    obtain ⟨v, hv, hd⟩ := detach_relinked hw he
    obtain rfl := Except.ok.inj (hv.symm.trans hu)
    exact ha.detached hd hmoved
  | detachAll ids =>
    obtain ⟨v, hv, hd⟩ := detachAll_relinked hw he
    obtain rfl := Except.ok.inj (hv.symm.trans hu)
    exact ha.detached hd hmoved
  | insertBefore parent child before =>
    obtain ⟨v, w, hd, -, hv, -, hi⟩ := hw.insertBefore_ok he.1 he.2.1 he.2.2 before
    obtain rfl := Except.ok.inj (hv.symm.trans hu)
    exact (ha.detached hd hmoved).inserted hi (hchanged parent (List.mem_singleton_self _))
  | appendChild parent child =>
    obtain ⟨v, w, hd, -, hv, -, hi⟩ := hw.insertBefore_ok he.1 he.2.1 he.2.2 none
    obtain rfl := Except.ok.inj (hv.symm.trans hu)
    exact (ha.detached hd hmoved).inserted hi (hchanged parent (List.mem_singleton_self _))
  | insertAllBefore parent new before =>
    obtain ⟨hp, hn, hnew⟩ := he
    obtain ⟨v, hv, hi⟩ := insertAllBefore_relinked before hp (fun n hm => (hnew n hm).1)
      (fun n hm => (hnew n hm).2.1) (fun hm => (hnew _ hm).2.2 (.self ..)) hn
    obtain rfl := Except.ok.inj (hv.symm.trans hu)
    exact ha.inserted hi (hchanged parent (List.mem_singleton_self _))
  | clone id =>
    obtain ⟨b, rfl, hb⟩ := hw.exists_holds he
    obtain ⟨v, hv, hg⟩ := hw.clone_grown hb
    rw [Tree.edit, hv] at hu
    obtain rfl := Except.ok.inj hu
    exact hg.growsTo.holds ha
  | importFrom other id =>
    obtain ⟨b, rfl, hb⟩ := he.1.exists_holds he.2
    obtain ⟨v, hv, hg⟩ := hw.import_grown he.1 hb
    rw [Tree.edit, hv] at hu
    obtain rfl := Except.ok.inj hu
    exact hg.growsTo.holds ha
  | insertTreeBefore parent other before =>
    obtain ⟨b, htop, hb⟩ := he.2.1.exists_holds he.2.2
    obtain ⟨v, hv, hi⟩ := hw.insertTreeBefore_inserted he.2.1 hb htop he.1 before
    rw [Tree.edit, hv] at hu
    obtain rfl := Except.ok.inj hu
    exact hi.holds_other ha (hchanged parent (List.mem_singleton_self _))
  | replaceChildren parent other =>
    obtain ⟨b, htop, hb⟩ := he.2.1.exists_holds he.2.2
    obtain ⟨w, v, hd, hv, hi⟩ := hw.replaceChildren_inserted he.2.1 hb htop he.1
    rw [Tree.edit, hv] at hu
    obtain rfl := Except.ok.inj hu
    have hp := hchanged parent (List.mem_singleton_self _)
    refine hi.holds_other (ha.detached hd fun c hc hm => hp ((ha.mem_ids hw).2 ?_)) hp
    exact ((ha.mem_inside hw).1 hm).within_parent ((hw.linked _ _).1 hc)
  | compact => exact absurd rfl hne

/-- **Edits elsewhere** leave what is at a node. -/
theorem EditedOutside.holds (h : t.EditedOutside a.top u) (hw : t.WellFormed) (ha : t.Holds a) :
    u.WellFormed ∧ u.Holds a := by
  induction h with
  | refl => exact ⟨hw, ha⟩
  | edit e _ he hne hchanged hmoved hv ih =>
    obtain ⟨hwu, hau⟩ := ih
    obtain ⟨v, hv', hwv, -⟩ := hwu.edit_ok (Nat.lt_of_le_of_lt (Nat.zero_le _) hau.has_top) he
    obtain rfl := Except.ok.inj (hv.symm.trans hv')
    exact ⟨hwv, hau.edit hwu he hne (fun x hx hm => hchanged x hx ((ha.mem_ids hw).1 hm))
      (fun x hx hm => hmoved x hx ((ha.mem_inside hw).1 hm)) hv⟩

/-- **What is read at a node** is the same after edits elsewhere, and so are its texts. -/
theorem EditedOutside.shows (h : t.EditedOutside a.top u) (hw : t.WellFormed) (ha : t.Holds a) :
    u.htmlAt a.top = .ok a.document.render ∧ u.textContent a.top = .ok a.document.text := by
  obtain ⟨hwu, hau⟩ := h.holds hw ha
  exact ⟨by rw [htmlAt, hau.read hwu]; rfl, textContent_ok hwu hau⟩

end Tree
end PageBinding
