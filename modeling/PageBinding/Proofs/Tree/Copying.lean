/-
# Copies made in place are planted documents

A copy that is made in place (`cloneInPlace`, `importInPlace`) grows in the tree that it
is linked in.  What makes it right is one invariant of the loop over the children: the
tree holds, from the next free number on, the copied node with the children that have been
copied so far (`Grown`).  The next copy takes the numbers behind these and is put in as
the last child (`Grown.copyBelow`).

So it makes no difference whether the nodes are linked as they are copied, or a document
is read first and planted then.

| copy | read and planted |
| --- | --- |
| `cloneInPlace` | `clone` |
| `importInPlace` | `importFrom` |
| `gather` | `ofDocuments` |
-/

import PageBinding.Proofs.Tree.OneByOne
import PageBinding.Tree.CopyInPlace

namespace PageBinding
namespace Tree

open Html (Node Document)
open Html.Document (count countAll)
open Numbered (idsAll numberFrom numberAllFrom)

variable {t u v w other : Tree} {a : Numbered} {id parent child copy : NodeId} {n : Node}
  {d : Document} {ds : List Document} {copyOne : Tree → NodeId → Except Fault (Tree × NodeId)}

/-! ## One child more -/

/-- A new copy can be put in behind the children that have been copied. -/
theorem Grown.insertable (h : Grown t v [.node n ds]) (hw : Grown v w [d]) :
    w.Insertable ⟨t.size⟩ none [⟨v.size⟩] where
  hasParent := hw.growsTo.has h.holds.1.has_top
  has := List.forall_mem_singleton.2 (by simpa using hw.holds.1.has_top)
  detached := List.forall_mem_singleton.2 (by simpa using hw.detached _ (List.mem_cons_self ..))
  notAbove := List.forall_mem_singleton.2
    (hw.growsTo.not_within h.wellFormed (Nat.lt_irrefl _) h.holds.1.has_top)
  nodup := List.nodup_singleton _
  notNew := nofun

/-- **The next child is copied:** it has the next numbers, and is the last child. -/
theorem Grown.linked (h : Grown t v [.node n ds]) (hw : Grown v w [d])
    (hr : Relinked w u (w.parentsWith ⟨t.size⟩ [⟨v.size⟩])
      (w.childrenWith ⟨t.size⟩ [⟨v.size⟩] none)) :
    Grown t u [.node n (ds ++ [d])] := by
  have hsize : v.size = t.size + 1 + countAll ds := by
    rw [h.size]
    simp only [countAll, count]
    omega
  have hi := h.insertable hw
  have hb := h.holds.1
  have hd := hw.holds.1
  have htop : v.Has ⟨t.size⟩ := hb.has_top
  have hnew : ¬ v.Has ⟨v.size⟩ := Nat.lt_irrefl _
  -- Only the copied node gets a child, and only its copied child a parent.
  have hpar : ∀ x, v.Has x → u.parentOf x = v.parentOf x := fun x hx => by
    rw [hr.parent, parentsWith, if_neg, hw.growsTo.parentOf hx]
    exact fun hm => hnew (List.mem_singleton.1 hm ▸ hx)
  have hch : ∀ x, v.Has x → x ≠ ⟨t.size⟩ → u.childrenOf x = v.childrenOf x := fun x hx hne => by
    rw [hr.children, childrenWith, if_neg hne, hw.growsTo.childrenOf hx]
  have hcon : ∀ x, v.Has x → u.contentOf x = v.contentOf x := fun x hx => by
    rw [hr.content, hw.growsTo.contentOf hx]
  have htops : numberAllFrom (t.size + 1) (ds ++ [d]) =
      numberAllFrom (t.size + 1) ds ++ [numberFrom v.size d] := by
    rw [Numbered.numberAllFrom_append, hsize]
    rfl
  refine ⟨hw.wellFormed.of_inserted hi.has hi.detached hi.nodup hi.notAbove hr, ?_,
    .of_views ?_ (fun x hx => ?_) (fun x hx => ?_) fun x hx => ?_,
    ⟨holds_iff.2 ⟨?_, ?_, fun b hbm => ?_⟩, trivial⟩, fun b hbm => ?_⟩
  · rw [hr.size, hw.size, hsize]
    simp only [countAll, count, Html.Document.countAll_append]
    omega
  · rw [hr.size]
    exact (h.growsTo.trans hw.growsTo).size_le
  · rw [hcon x (h.growsTo.has hx), h.growsTo.contentOf hx]
  · rw [hpar x (h.growsTo.has hx), h.growsTo.parentOf hx]
  · rw [hch x (h.growsTo.has hx) (by rintro rfl; exact Nat.lt_irrefl _ hx), h.growsTo.childrenOf hx]
  · exact (hcon _ htop).trans hb.content
  · rw [Numbered.top_numberFrom, hr.children, childrenWith, if_pos rfl,
      hw.growsTo.childrenOf htop, show v.childrenOf ⟨t.size⟩ = _ from hb.children]
    simp only [numberFrom, Numbered.inside, htops, splice, List.map_append, List.map_cons,
      List.map_nil, Numbered.top_numberFrom]
  · rw [numberFrom, Numbered.inside, htops, List.mem_append, List.mem_singleton] at hbm
    rcases hbm with hbm | rfl
    · have hbv := hb.of_mem hbm
      refine hbv.frame (fun x hx => hcon x (hbv.has hx)) fun x hx => hch x (hbv.has hx) ?_
      rintro rfl
      exact hb.top_notMem_idsAll h.wellFormed (Numbered.mem_idsAll.2 ⟨b, hbm, hx⟩)
    · refine hd.inserted hr fun hm => hnew ?_
      exact Nat.lt_of_le_of_lt (Numbered.mem_ids_numberFrom.1 hm).1 htop
  · obtain rfl := List.mem_singleton.1 hbm
    rw [Numbered.top_numberFrom, hpar _ htop]
    simpa using h.detached _ (List.mem_cons_self ..)

/-- **The loop over the children:** they are copied from the first to the last. -/
theorem Grown.foldlM {f : Tree → NodeId → Except Fault Tree} (as : List Numbered)
    (step : ∀ a ∈ as, ∀ v ds, Grown t v [.node n ds] →
      ∃ u, f v a.top = .ok u ∧ Grown t u [.node n (ds ++ [a.document])])
    (h : Grown t v [.node n ds]) :
    ∃ u, (as.map Numbered.top).foldlM f v = .ok u ∧
      Grown t u [.node n (ds ++ as.map Numbered.document)] := by
  induction as generalizing v ds with
  | nil => exact ⟨v, rfl, by simpa using h⟩
  | cons a as ih =>
    obtain ⟨w, hw, hgrown⟩ := step a (List.mem_cons_self ..) v ds h
    obtain ⟨u, hu, hall⟩ := ih (fun b hb => step b (List.mem_cons_of_mem _ hb)) hgrown
    refine ⟨u, ?_, ?_⟩
    · rw [List.map_cons, List.foldlM_cons, hw, ok_bind, hu]
    · rwa [List.append_assoc] at hall

/-- `copyBelow`: a copy is linked as nodes are put in together. -/
theorem Grown.copyBelow (h : Grown t v [.node n ds]) (hw : Grown v w [d])
    (hcopy : copyOne v child = .ok (w, ⟨v.size⟩)) :
    ∃ u, Tree.copyBelow copyOne ⟨t.size⟩ v child = .ok u ∧ Grown t u [.node n (ds ++ [d])] := by
  have hi := h.insertable hw
  have hc := hi.has _ (List.mem_cons_self ..)
  have hfree := hi.detached _ (List.mem_cons_self ..)
  obtain ⟨u, hu, hr⟩ := insertAllBefore_relinked none hi.hasParent hi.has hi.detached
    hi.parent_notMem hi.nodup
  refine ⟨u, ?_, h.linked hw hr⟩
  have hne : (⟨t.size⟩ : NodeId) ≠ ⟨v.size⟩ := fun he =>
    hi.parent_notMem (List.mem_singleton.2 he)
  rw [← hu, Tree.copyBelow, hcopy, insertAllBefore, List.foldlM_cons, adopt, if_neg hne,
    parent_ok hc, hfree]
  simp only [ok_bind, List.foldlM_nil, bind_pure]
  rfl

/-! ## Whole copies -/

/-- **A copy made in place** of what a tree holds, in a tree that has grown of it. -/
theorem Holds.cloneWithin_grown (ha : t.Holds a) : ∀ {v : Tree} {depth : Nat}, v.WellFormed →
    t.GrowsTo v → a.ids.length ≤ depth →
      ∃ u, cloneWithin depth v a.top = .ok (u, ⟨v.size⟩) ∧ Grown v u [a.document] := by
  induction a using Numbered.induction_up with
  | step id n bs ih =>
    rintro v (_ | depth) hv hg hdepth
    · rw [Numbered.ids_eq] at hdepth
      cases hdepth
    · have hpush := hv.push_grown n
      have hall := (hg.trans hpush.growsTo).holds ha
      obtain ⟨u, hu, hgrown⟩ := hpush.foldlM (f := Tree.copyBelow (cloneWithin depth) ⟨v.size⟩)
        bs fun b hb w ds hw => by
          obtain ⟨w', hcopy, hgrown⟩ := ih b hb (ha.of_mem hb) hw.wellFormed (hg.trans hw.growsTo)
            (Nat.le_trans (Numbered.length_ids_le_of_mem hb) (Nat.le_of_succ_le_succ hdepth))
          exact hw.copyBelow hgrown hcopy
      refine ⟨u, ?_, by rwa [Numbered.document_eq]⟩
      -- The children are read once the new node is there.
      have hbelow : (v.push n).1.children id = .ok (bs.map Numbered.top) :=
        (children_ok hall.has_top).trans (congrArg _ hall.children)
      rw [cloneWithin, content_ok (hg.holds ha).content, ok_bind]
      simp only [Numbered.content, Numbered.top, hbelow, ok_bind]
      rw [show (v.push n).2 = ⟨v.size⟩ from rfl, hu]
      rfl

/-- **A copy made in place** of what another tree holds. -/
theorem Holds.importWithin_grown (ha : other.Holds a) : ∀ {t : Tree} {depth : Nat}, t.WellFormed →
    a.ids.length ≤ depth →
      ∃ u, importWithin other depth t a.top = .ok (u, ⟨t.size⟩) ∧ Grown t u [a.document] := by
  induction a using Numbered.induction_up with
  | step id n bs ih =>
    rintro t (_ | depth) hw hdepth
    · rw [Numbered.ids_eq] at hdepth
      cases hdepth
    · have hpush := hw.push_grown n
      obtain ⟨u, hu, hgrown⟩ := hpush.foldlM
        (f := Tree.copyBelow (importWithin other depth) ⟨t.size⟩) bs fun b hb v ds hv => by
          obtain ⟨w, hcopy, hgrown⟩ := ih b hb (ha.of_mem hb) hv.wellFormed
            (Nat.le_trans (Numbered.length_ids_le_of_mem hb) (Nat.le_of_succ_le_succ hdepth))
          exact hv.copyBelow hgrown hcopy
      refine ⟨u, ?_, by rwa [Numbered.document_eq]⟩
      have hbelow : other.children id = .ok (bs.map Numbered.top) :=
        (children_ok ha.has_top).trans (congrArg _ ha.children)
      rw [importWithin, content_ok ha.content, ok_bind]
      simp only [Numbered.content, Numbered.top, hbelow, ok_bind]
      rw [show (t.push n).2 = ⟨t.size⟩ from rfl, hu]
      rfl

/-- **Documents grow in a tree in one way only.** -/
theorem Grown.unique (hu : Grown t u ds) (hv : Grown t v ds) : u = v := by
  have hsize : u.size = v.size := hu.size.trans hv.size.symm
  have hviews : ∀ x, v.Has x → u.contentOf x = v.contentOf x ∧ u.childrenOf x = v.childrenOf x := by
    intro x hx
    by_cases hxt : t.Has x
    · exact ⟨(hu.growsTo.contentOf hxt).trans (hv.growsTo.contentOf hxt).symm,
        (hu.growsTo.childrenOf hxt).trans (hv.growsTo.childrenOf hxt).symm⟩
    · obtain ⟨b, hb, hxb⟩ := Numbered.mem_idsAll.1 (Numbered.mem_idsAll_numberAllFrom.2
        ⟨Nat.le_of_not_lt hxt, Nat.lt_of_lt_of_eq hx hv.size⟩)
      exact (holdsAll_iff.1 hv.holds b hb).same_views (holdsAll_iff.1 hu.holds b hb) hxb
  exact hv.wellFormed.ext_of_children hu.wellFormed hsize (fun x hx => (hviews x hx).1)
    fun x hx => (hviews x hx).2

/-- **Copies made in place are copies:** it is the same to read a document at a node, and to
plant it then. -/
theorem WellFormed.clone_in_place (hw : t.WellFormed) (ha : t.Holds a) :
    ∃ u, t.cloneInPlace a.top = .ok (u, ⟨t.size⟩) ∧ t.clone a.top = .ok (u, ⟨t.size⟩) ∧
      Grown t u [a.document] := by
  obtain ⟨u, hu, hg⟩ := ha.cloneWithin_grown hw (.refl t) (Nat.le_succ_of_le (ha.length_ids_le hw))
  obtain ⟨v, hv, hgv⟩ := hw.clone_grown ha
  obtain rfl := hg.unique hgv
  exact ⟨u, hu, hv, hg⟩

/-- An import in place makes what an import makes: a copy under the next number. -/
theorem WellFormed.import_in_place (hw : t.WellFormed) (ho : other.WellFormed) (ha : other.Holds a) :
    ∃ u, t.importInPlace other a.top = .ok (u, ⟨t.size⟩) ∧
      t.importFrom other a.top = .ok (u, ⟨t.size⟩) ∧ Grown t u [a.document] := by
  obtain ⟨u, hu, hg⟩ := ha.importWithin_grown hw (Nat.le_succ_of_le (ha.length_ids_le ho))
  obtain ⟨v, hv, hgv⟩ := hw.import_grown ho ha
  obtain rfl := hg.unique hgv
  exact ⟨u, hu, hv, hg⟩

/-- `gather`: the copies are what `ofDocuments` plants below its root. -/
theorem WellFormed.gather_ok (ho : other.WellFormed) (ha : other.Holds a) :
    other.gather a.top = .ok (ofDocuments (a.inside.map Numbered.document)) := by
  have hempty : Grown ⟨#[]⟩ empty [.node .fragment []] := wellFormed_nil.push_grown .fragment
  obtain ⟨u, hu, hg⟩ := hempty.foldlM (f := appendCopy other) a.inside fun b hb v ds hv => by
    obtain ⟨w, hcopy, -, hgrown⟩ := hv.wellFormed.import_in_place ho (ha.of_mem hb)
    obtain ⟨u, hu, -, hr, -⟩ := (hv.insertable hgrown).insertBefore hgrown.wellFormed
    refine ⟨u, ?_, hv.linked hgrown hr⟩
    rw [appendCopy, hcopy, ok_bind]
    exact hu
  rw [List.nil_append] at hg
  rw [gather, children_ok ha.has_top, ok_bind, ha.children, hu, hg.unique (ofDocuments_grown _)]

end Tree
end PageBinding
