/-
# Comments are spared

Some changes of a tree leave its comments alone, wherever they are made: a comment keeps
its text and its parent, and nothing comes below a node that had no children (`Spares`).
This is said of what the operations leave when they succeed, of any tree, so it goes
through a recursion without a look at what is held where.
-/

import PageBinding.Proofs.Tree.Planting

namespace PageBinding
namespace Tree

open Html (Node Document)

variable {t u v w : Tree} {id parent x : NodeId} {n : Node}

/-- **What leaves comments alone,** and nodes without children without children. -/
structure Spares (t u : Tree) : Prop where
  size_le : t.size ≤ u.size
  content : ∀ x s, t.contentOf x = some (.comment s) → u.contentOf x = some (.comment s)
  parent : ∀ x s, t.contentOf x = some (.comment s) → u.parentOf x = t.parentOf x
  below : ∀ c x, t.Has x → u.parentOf c = some x → ∃ b, t.parentOf b = some x

namespace Spares

/-- Doing nothing leaves comments alone. -/
theorem refl (t : Tree) : Spares t t :=
  ⟨Nat.le_refl _, fun _ _ h => h, fun _ _ _ => rfl, fun c _ _ h => ⟨c, h⟩⟩

/-- No node is lost. -/
theorem has (h : Spares t u) (hx : t.Has x) : u.Has x := Nat.lt_of_lt_of_le hx h.size_le

/-- What leaves comments alone twice leaves them alone. -/
theorem trans (h : Spares t u) (h' : Spares u v) : Spares t v where
  size_le := Nat.le_trans h.size_le h'.size_le
  content x s hx := h'.content x s (h.content x s hx)
  parent x s hx := (h'.parent x s (h.content x s hx)).trans (h.parent x s hx)
  below c x hx hc := by
    obtain ⟨b, hb⟩ := h'.below c x (h.has hx) hc
    exact h.below b x hx hb

/-- Nothing comes below a node without children. -/
theorem children (h : Spares t u) (hw : t.WellFormed) (hu : u.WellFormed) (hx : t.Has x)
    (hc : t.childrenOf x = []) : u.childrenOf x = [] := by
  refine List.eq_nil_iff_forall_not_mem.2 fun c hm => ?_
  obtain ⟨b, hb⟩ := h.below c x hx ((hu.linked x c).1 hm)
  exact List.not_mem_nil (hc ▸ (hw.linked x b).2 hb)

/-- Links that are changed. -/
theorem of_relinked {ps : NodeId → Option NodeId} {cs : NodeId → List NodeId}
    (h : Relinked t u ps cs) (hp : ∀ x s, t.contentOf x = some (.comment s) → ps x = t.parentOf x)
    (hb : ∀ c x, t.Has x → ps c = some x → ∃ b, t.parentOf b = some x) : Spares t u where
  size_le := h.size.ge
  content x _ hx := (h.content x).trans hx
  parent x s hx := (h.parent x).trans (hp x s hx)
  below c x hx hc := hb c x hx ((h.parent c).symm.trans hc)

end Spares

/-! ## Operations -/

/-- A node that was changed is there. -/
theorem has_of_modify {f : LinkedNode → LinkedNode} (h : t.modify id f = .ok u) : t.Has id := by
  rw [modify] at h
  split_ifs at h with hid
  exact hid

/-- Setting a parent changes no content and no children. -/
theorem relinked_of_setParent {q : Option NodeId}
    (h : t.modify id (fun s => { s with parent := q }) = .ok u) :
    Relinked t u (fun x => if x = id then q else t.parentOf x) t.childrenOf := by
  obtain ⟨v, hv, hr⟩ := setParent_relinked (has_of_modify h) q
  exact Except.ok.inj (hv.symm.trans h) ▸ hr

/-- Setting children changes no content and no parent. -/
theorem relinked_of_setChildren {f : List NodeId → List NodeId}
    (h : t.modify id (fun s => { s with children := f s.children }) = .ok u) :
    Relinked t u t.parentOf fun x => if x = id then f (t.childrenOf x) else t.childrenOf x := by
  obtain ⟨v, hv, hr⟩ := setChildren_relinked (has_of_modify h) f
  exact Except.ok.inj (hv.symm.trans h) ▸ hr

/-- Setting children leaves comments alone. -/
theorem spares_of_setChildren {f : List NodeId → List NodeId}
    (h : t.modify id (fun s => { s with children := f s.children }) = .ok u) : Spares t u :=
  .of_relinked (relinked_of_setChildren h) (fun _ _ _ => rfl) fun c _ _ hc => ⟨c, hc⟩

/-- A content set, that of no comment unless it is the same. -/
theorem spares_of_setContent (hn : ∀ s, t.contentOf id = some (.comment s) → n = .comment s)
    (h : t.setContent id n = .ok u) : Spares t u := by
  obtain ⟨v, hv, hs, hcon, hpar, -⟩ := setContent_ok (has_of_modify h) n
  obtain rfl := Except.ok.inj (hv.symm.trans h)
  refine ⟨hs.ge, fun x s hx => ?_, fun x _ _ => hpar x, fun c x _ hc => ⟨c, (hpar c).symm.trans hc⟩⟩
  rw [hcon]
  split_ifs with he
  · rw [hn s (he ▸ hx)]
  · exact hx

/-- A node detached that is no comment. -/
theorem spares_of_detach (hn : ∀ s, t.contentOf id ≠ some (.comment s)) (h : t.detach id = .ok u) :
    Spares t u := by
  rw [detach] at h
  obtain ⟨q, -, h⟩ := exists_of_bind_ok h
  cases q with
  | none => exact Except.ok.inj h ▸ .refl t
  | some p =>
    obtain ⟨v, hv, h⟩ := exists_of_bind_ok h
    refine .trans (.of_relinked (relinked_of_setParent hv) (fun x s hx => ?_) fun c x _ hc => ?_)
      (spares_of_setChildren h)
    · rw [if_neg]
      rintro rfl
      exact hn s hx
    · split_ifs at hc
      exact ⟨c, hc⟩

/-- A copy: new nodes, of which none is below an old one. -/
theorem spares_of_clone {copy : NodeId} (h : t.clone id = .ok (u, copy)) :
    Spares t u ∧ t.GrowsTo u ∧ ¬ t.Has copy := by
  rw [clone] at h
  obtain ⟨d, -, h⟩ := exists_of_bind_ok h
  obtain ⟨v, hv, hs, hg, hpl⟩ := plantUnder_spec d t none
  have hp : (v, (⟨t.size⟩ : NodeId)) = (u, copy) := by
    rw [← hv]
    exact Except.ok.inj h
  obtain ⟨rfl, rfl⟩ := Prod.mk.inj hp
  have hold : ∀ {x s}, t.contentOf x = some (.comment s) → t.Has x := fun hx =>
    has_iff_contentOf.2 ⟨_, hx⟩
  refine ⟨⟨hg.size_le, fun x s hx => (hg.contentOf (hold hx)).trans hx,
    fun x _ hx => hg.parentOf (hold hx), fun c x hx hc => ?_⟩, hg, Nat.lt_irrefl _⟩
  by_cases hct : t.Has c
  · exact ⟨c, (hg.parentOf hct).symm.trans hc⟩
  · have hmem : c ∈ (Numbered.numberFrom t.size d).ids :=
      Numbered.mem_ids_numberFrom.2 ⟨Nat.le_of_not_lt hct, hs ▸ has_of_parentOf hc⟩
    rcases hpl.mem_childrenOf hmem hc with ⟨-, he⟩ | ⟨hxn, -⟩
    · cases he
    · exact absurd hx (Nat.not_lt_of_le (Numbered.mem_ids_numberFrom.1 hxn).1)

namespace Spares

variable {new : List NodeId} {before : Option NodeId}

/-- A new node gets a parent that has children, if it is an old one. -/
theorem adopt {c : NodeId} (h : Spares t u) (hp : t.Has parent → ∃ b, t.parentOf b = some parent)
    (hn : ¬ t.Has c) (ha : Tree.adopt parent u c = .ok w) : Spares t w := by
  have hm : u.modify c (fun s => { s with parent := some parent }) = .ok w := by
    rw [Tree.adopt] at ha
    split_ifs at ha
    · cases ha
    · obtain ⟨q, -, ha⟩ := exists_of_bind_ok ha
      split_ifs at ha
      · cases ha
      · exact ha
  have hr := relinked_of_setParent hm
  refine ⟨hr.size ▸ h.size_le, fun x s hx => (hr.content x).trans (h.content x s hx),
    fun x s hx => ?_, fun d x hx hd => ?_⟩
  · rw [hr.parent, if_neg, h.parent x s hx]
    rintro rfl
    exact hn (has_iff_contentOf.2 ⟨_, hx⟩)
  · rw [hr.parent] at hd
    split_ifs at hd
    · obtain rfl := Option.some.inj hd
      exact hp hx
    · exact h.below d x hx hd

/-- New nodes are put in below a node that has children, if it is an old one. -/
theorem insertAllBefore (h : Spares t u) (hp : t.Has parent → ∃ b, t.parentOf b = some parent)
    (hn : ∀ c ∈ new, ¬ t.Has c) (hi : u.insertAllBefore parent new before = .ok w) :
    Spares t w := by
  have adopted : ∀ (new : List NodeId) (u v : Tree), Spares t u → (∀ c ∈ new, ¬ t.Has c) →
      new.foldlM (Tree.adopt parent) u = .ok v → Spares t v := by
    intro new
    induction new with
    | nil => exact fun u v h _ hv => Except.ok.inj hv ▸ h
    | cons c new ih =>
      intro u v h hn hv
      rw [List.foldlM_cons] at hv
      obtain ⟨w, hc, hv⟩ := exists_of_bind_ok hv
      exact ih w v (h.adopt hp (hn c (List.mem_cons_self ..)) hc)
        (fun d hd => hn d (List.mem_cons_of_mem _ hd)) hv
  rw [Tree.insertAllBefore] at hi
  obtain ⟨v, hv, hi⟩ := exists_of_bind_ok hi
  exact (adopted new u v h hn hv).trans (spares_of_setChildren hi)

end Spares
end Tree
end PageBinding
