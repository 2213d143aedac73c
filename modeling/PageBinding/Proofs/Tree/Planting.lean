/-
# Planting documents

A planted document takes the next free numbers, in document order
(`numberFrom`), and the tree grows by it: the nodes that it had stay as they are
(`GrowsTo`).  The top node of the document is detached.

Copies are planted documents.  So the copies of the top nodes of a tree are new
nodes with what is in that tree, which are then put in among the children of a
node (`insertTreeBefore_inserted`), possibly in place of these
(`replaceChildren_inserted`).
-/

import PageBinding.Proofs.Html.Every
import PageBinding.Proofs.Tree.Numbered
import PageBinding.Tree.Copy

namespace PageBinding

open Html (Node Document)

namespace Html.Document

mutual

/-- The number of nodes of a document. -/
def count : Document → Nat
  | .node _ ds => countAll ds + 1

/-- The number of nodes of some documents. -/
def countAll : List Document → Nat
  | [] => 0
  | d :: ds => count d + countAll ds

end

/-- The number of nodes of documents in a row. -/
theorem countAll_append (as bs : List Document) :
    countAll (as ++ bs) = countAll as + countAll bs := by
  induction as with
  | nil => simp [countAll]
  | cons a as ih => simp only [List.cons_append, countAll, ih, Nat.add_assoc]

end Html.Document

namespace Numbered

open Html.Document (count countAll)

mutual

/-- The document with its nodes numbered in document order, from a number on. -/
def numberFrom (k : Nat) : Document → Numbered
  | .node n ds => .node ⟨k⟩ n (numberAllFrom (k + 1) ds)

/-- Some documents with their nodes numbered, from a number on. -/
def numberAllFrom (k : Nat) : List Document → List Numbered
  | [] => []
  | d :: ds => numberFrom k d :: numberAllFrom (k + count d) ds

end

/-- The top has the first number. -/
@[simp] theorem top_numberFrom (k : Nat) (d : Document) : (numberFrom k d).top = ⟨k⟩ := by
  cases d; rfl

/-- Documents in a row are numbered on. -/
theorem numberAllFrom_append (k : Nat) (as bs : List Document) :
    numberAllFrom k (as ++ bs) = numberAllFrom k as ++ numberAllFrom (k + countAll as) bs := by
  induction as generalizing k with
  | nil => rfl
  | cons a as ih =>
    rw [List.cons_append, numberAllFrom, ih, numberAllFrom, countAll, List.cons_append,
      Nat.add_assoc]

mutual

/-- There are as many numbers as nodes. -/
theorem length_ids : ∀ a : Numbered, a.ids.length = count a.document
  | .node _ _ bs => by rw [ids, document, count, List.length_cons, length_idsAll]

/-- There are as many numbers as nodes in some documents. -/
theorem length_idsAll : ∀ bs : List Numbered, (idsAll bs).length = countAll (documents bs)
  | [] => rfl
  | b :: bs => by
    rw [idsAll, documents, countAll, List.length_append, length_ids, length_idsAll]

end

mutual

/-- Numbering keeps the document. -/
@[simp] theorem document_numberFrom : ∀ (k : Nat) (d : Document), (numberFrom k d).document = d
  | k, .node n ds => by rw [numberFrom, document, documents_numberAllFrom]

/-- Numbering keeps the documents. -/
@[simp] theorem documents_numberAllFrom : ∀ (k : Nat) (ds : List Document),
    documents (numberAllFrom k ds) = ds
  | k, [] => rfl
  | k, d :: ds => by
    rw [numberAllFrom, documents, document_numberFrom, documents_numberAllFrom]

end

mutual

/-- The numbers of a document are the next ones. -/
theorem ids_numberFrom : ∀ (k : Nat) (d : Document),
    (numberFrom k d).ids = (List.range' k (count d)).map NodeId.mk
  | k, .node n ds => by
    rw [numberFrom, ids, count, idsAll_numberAllFrom, List.range'_succ, List.map_cons]

/-- The numbers of some documents are the next ones. -/
theorem idsAll_numberAllFrom : ∀ (k : Nat) (ds : List Document),
    idsAll (numberAllFrom k ds) = (List.range' k (countAll ds)).map NodeId.mk
  | k, [] => rfl
  | k, d :: ds => by
    rw [numberAllFrom, idsAll, countAll, ids_numberFrom, idsAll_numberAllFrom, ← List.map_append,
      List.range'_append_1]

end

/-- The numbers of some documents lie between the first and the number of nodes behind it. -/
theorem mem_idsAll_numberAllFrom {k : Nat} {ds : List Document} {x : NodeId} :
    x ∈ idsAll (numberAllFrom k ds) ↔ k ≤ x.index ∧ x.index < k + countAll ds := by
  rw [idsAll_numberAllFrom, List.mem_map]
  constructor
  · rintro ⟨i, hi, rfl⟩
    exact List.mem_range'_1.1 hi
  · exact fun hx => ⟨x.index, List.mem_range'_1.2 hx, rfl⟩

/-- The numbers of a document lie between the first and the number of nodes behind it. -/
theorem mem_ids_numberFrom {k : Nat} {d : Document} {x : NodeId} :
    x ∈ (numberFrom k d).ids ↔ k ≤ x.index ∧ x.index < k + count d := by
  rw [ids_numberFrom, List.mem_map]
  constructor
  · rintro ⟨i, hi, rfl⟩
    exact List.mem_range'_1.1 hi
  · exact fun hx => ⟨x.index, List.mem_range'_1.2 hx, rfl⟩

/-- The numbers of a document increase in document order. -/
theorem ids_numberFrom_increasing (k : Nat) (d : Document) :
    (numberFrom k d).ids.Pairwise (·.index < ·.index) := by
  rw [ids_numberFrom, List.pairwise_map]
  exact List.pairwise_lt_range'

/-- No number occurs twice in some documents. -/
theorem idsAll_numberAllFrom_nodup (k : Nat) (ds : List Document) :
    (idsAll (numberAllFrom k ds)).Nodup := by
  rw [idsAll_numberAllFrom]
  exact List.Nodup.map (fun i j h => NodeId.mk.inj h) List.nodup_range'

end Numbered

namespace Tree

open Html.Document (count countAll)
open Numbered (documents idsAll numberFrom numberAllFrom)

variable {t u v : Tree} {a : Numbered} {parent : Option NodeId} {x c p : NodeId}

/-- A tree with more nodes, in which those of the first one are as they were. -/
structure GrowsTo (t u : Tree) : Prop where
  size_le : t.size ≤ u.size
  node? : ∀ x, t.Has x → u.node? x = t.node? x

namespace GrowsTo

/-- A tree grows to itself. -/
theorem refl (t : Tree) : t.GrowsTo t := ⟨Nat.le_refl _, fun _ _ => rfl⟩

/-- Growth keeps the nodes. -/
theorem has (h : t.GrowsTo u) (hx : t.Has x) : u.Has x := Nat.lt_of_lt_of_le hx h.size_le

/-- Growth in steps is growth. -/
theorem trans (h : t.GrowsTo u) (h' : u.GrowsTo v) : t.GrowsTo v :=
  ⟨Nat.le_trans h.size_le h'.size_le, fun x hx => (h'.node? x (h.has hx)).trans (h.node? x hx)⟩

/-- Growth keeps the contents of the nodes that there are. -/
theorem contentOf (h : t.GrowsTo u) (hx : t.Has x) : u.contentOf x = t.contentOf x := by
  rw [Tree.contentOf, h.node? x hx, Tree.contentOf]

/-- Growth keeps the parents of the nodes that there are. -/
theorem parentOf (h : t.GrowsTo u) (hx : t.Has x) : u.parentOf x = t.parentOf x := by
  rw [Tree.parentOf, h.node? x hx, Tree.parentOf]

/-- Growth keeps the children of the nodes that there are. -/
theorem childrenOf (h : t.GrowsTo u) (hx : t.Has x) : u.childrenOf x = t.childrenOf x := by
  rw [Tree.childrenOf, h.node? x hx, Tree.childrenOf]

/-- Growth keeps what a tree holds. -/
theorem holds (h : t.GrowsTo u) (ha : t.Holds a) : u.Holds a :=
  ha.frame (fun _ hx => h.contentOf (ha.has hx)) fun _ hx => h.childrenOf (ha.has hx)

/-- A tree grows to one that has its nodes with what can be read of them. -/
theorem of_views (hs : t.size ≤ u.size) (hn : ∀ x, t.Has x → u.contentOf x = t.contentOf x)
    (hp : ∀ x, t.Has x → u.parentOf x = t.parentOf x)
    (hc : ∀ x, t.Has x → u.childrenOf x = t.childrenOf x) : t.GrowsTo u := by
  refine ⟨hs, fun x hx => ?_⟩
  obtain ⟨s, h⟩ := has_iff.1 hx
  obtain ⟨s', h'⟩ := has_iff.1 (Nat.lt_of_lt_of_le hx hs : u.Has x)
  have hn := hn x hx
  have hp := hp x hx
  have hc := hc x hx
  simp only [Tree.contentOf, Tree.parentOf, Tree.childrenOf, h, h', Option.map_some, Option.bind_some,
    Option.getD_some, Option.some.injEq] at hn hp hc
  obtain ⟨n, q, cs⟩ := s
  obtain ⟨n', q', cs'⟩ := s'
  dsimp only at hn hp hc
  rw [h, h', hn, hp, hc]

/-- A tree that has grown by nothing is the same. -/
theorem eq (h : t.GrowsTo u) (hs : u.size = t.size) : u = t := by
  obtain ⟨ts⟩ := t
  obtain ⟨us⟩ := u
  congr 1
  refine Array.ext hs fun i hi hi' => ?_
  have h := h.node? ⟨i⟩ hi'
  rw [Tree.node?, Tree.node?, Array.getElem?_eq_getElem hi, Array.getElem?_eq_getElem hi'] at h
  exact Option.some.inj h

/-- No node that was there is within a new one. -/
theorem not_within (h : t.GrowsTo u) (hw : t.WellFormed) (hc : ¬ t.Has c) (hp : t.Has p) :
    ¬ u.Within c p := by
  rintro (rfl | ha)
  · exact hc hp
  · refine hc (ha.of_closed (S := t.Has) hp fun x q hx hq => ?_)
    rw [h.parentOf hx] at hq
    exact hw.has_parent hq

end GrowsTo

mutual

/-- The tree holds a numbered document under a parent, and each node of it has
its parent. -/
def Planted (t : Tree) (parent : Option NodeId) : Numbered → Prop
  | .node id n bs => t.node? id = some ⟨n, parent, bs.map Numbered.top⟩ ∧ PlantedAll t (some id) bs

/-- The tree holds some numbered documents under a parent. -/
def PlantedAll (t : Tree) (parent : Option NodeId) : List Numbered → Prop
  | [] => True
  | b :: bs => Planted t parent b ∧ PlantedAll t parent bs

end

/-- Some documents are planted under a parent if each of them is. -/
theorem plantedAll_iff {bs : List Numbered} :
    t.PlantedAll parent bs ↔ ∀ b ∈ bs, t.Planted parent b := by
  induction bs with
  | nil => simp [PlantedAll]
  | cons b bs ih => rw [PlantedAll, ih, List.forall_mem_cons]

namespace Planted

/-- What is planted stays so as long as its nodes do. -/
theorem frame (h : t.Planted parent a) (hn : ∀ x ∈ a.ids, u.node? x = t.node? x) :
    u.Planted parent a := by
  induction a using Numbered.induction_up generalizing parent with
  | step id n bs ih =>
    refine ⟨(hn id (Numbered.top_mem_ids _)).trans h.1, plantedAll_iff.2 fun b hb => ?_⟩
    exact ih b hb (plantedAll_iff.1 h.2 b hb) fun x hx =>
      hn x (Numbered.ids_subset_of_mem hb hx)

/-- What is planted is held. -/
theorem holds (h : t.Planted parent a) : t.Holds a := by
  induction a using Numbered.induction_up generalizing parent with
  | step id n bs ih =>
    refine holds_iff.2 ⟨?_, ?_, fun b hb => ih b hb (plantedAll_iff.1 h.2 b hb)⟩
    · rw [contentOf, Numbered.top, h.1]; rfl
    · rw [childrenOf, Numbered.top, h.1]; rfl

/-- The top of what is planted has the parent. -/
theorem parentOf_top (h : t.Planted parent a) : t.parentOf a.top = parent := by
  cases a with
  | node id n bs => rw [parentOf, Numbered.top, h.1]; rfl

/-- The children of a planted node have it as their parent. -/
theorem parentOf_child (h : t.Planted parent a) (hp : p ∈ a.ids) (hc : c ∈ t.childrenOf p) :
    t.parentOf c = some p := by
  induction a using Numbered.induction_up generalizing parent with
  | step id n bs ih =>
    rcases Numbered.mem_ids.1 hp with rfl | ⟨b, hb, hp⟩
    · obtain ⟨b, hb, rfl⟩ := List.mem_map.1 (h.holds.children ▸ hc)
      exact (plantedAll_iff.1 h.2 b hb).parentOf_top
    · exact ih b hb (plantedAll_iff.1 h.2 b hb) hp

/-- A planted node is a child of its parent, unless it is the top one. -/
theorem mem_childrenOf (h : t.Planted parent a) (hc : c ∈ a.ids) (hp : t.parentOf c = some p) :
    (c = a.top ∧ parent = some p) ∨ (p ∈ a.ids ∧ c ∈ t.childrenOf p) := by
  induction a using Numbered.induction_up generalizing parent with
  | step id n bs ih =>
    rcases Numbered.mem_ids.1 hc with rfl | ⟨b, hb, hc⟩
    · exact .inl ⟨rfl, h.parentOf_top.symm.trans hp⟩
    · rcases ih b hb (plantedAll_iff.1 h.2 b hb) hc with ⟨rfl, he⟩ | ⟨hpb, hcp⟩
      · obtain rfl := Option.some.inj he
        exact .inr ⟨Numbered.top_mem_ids _, h.holds.mem_children hb⟩
      · exact .inr ⟨Numbered.ids_subset_of_mem hb hpb, hcp⟩

end Planted

/-- A new last node of the tree. -/
theorem growsTo_push (t : Tree) (s : LinkedNode) :
    t.GrowsTo ⟨t.nodes.push s⟩ ∧ node? ⟨t.nodes.push s⟩ ⟨t.size⟩ = some s := by
  refine ⟨⟨by simp [size], fun x hx => ?_⟩, ?_⟩
  · exact (Array.getElem?_push_lt hx).trans (Array.getElem?_eq_getElem hx).symm
  · exact Array.getElem?_push_size

mutual

/-- **Planting a document** grows the tree by its nodes, numbered from the next
free number on. -/
theorem plantUnder_spec : ∀ (d : Document) (t : Tree) (parent : Option NodeId),
    ∃ u, t.plantUnder parent d = (u, ⟨t.size⟩) ∧ u.size = t.size + count d ∧ t.GrowsTo u ∧
      u.Planted parent (numberFrom t.size d)
  | .node n ds, t, parent => by
    obtain ⟨hgrow, hnode⟩ := growsTo_push t ⟨n, parent, []⟩
    obtain ⟨v, hv, hsize, hg, hpl⟩ := plantAll_spec ds ⟨t.nodes.push ⟨n, parent, []⟩⟩ (some ⟨t.size⟩)
    have hs : size ⟨t.nodes.push ⟨n, parent, []⟩⟩ = t.size + 1 := by simp [size]
    rw [hs] at hv hsize hpl
    have hother : ∀ x : NodeId, x ≠ ⟨t.size⟩ → ∀ f, node? ⟨v.nodes.modify t.size f⟩ x = v.node? x := by
      intro x hx f
      exact (node?_modify v ⟨t.size⟩ f x).trans (if_neg hx)
    refine ⟨_, by rw [plantUnder, hv], ?_, ⟨?_, fun x hx => ?_⟩, ?_, ?_⟩
    · rw [size_mk_modify, hsize, count]; omega
    · rw [size_mk_modify, hsize]; omega
    · rw [hother x (by rintro rfl; exact Nat.lt_irrefl _ hx), hg.node? x (hgrow.has hx)]
      exact hgrow.node? x hx
    · rw [node?_modify v ⟨t.size⟩, if_pos rfl, hg.node? _ (by rw [Has, hs]; exact Nat.lt_succ_self _),
        hnode]
      rfl
    · refine plantedAll_iff.2 fun b hb => (plantedAll_iff.1 hpl b hb).frame fun x hx => hother x ?_ _
      rintro rfl
      have := Numbered.mem_idsAll_numberAllFrom.1 (Numbered.mem_idsAll.2 ⟨b, hb, hx⟩)
      exact Nat.not_succ_le_self _ this.1

/-- Planting some documents one after the other. -/
theorem plantAll_spec : ∀ (ds : List Document) (t : Tree) (parent : Option NodeId),
    ∃ u, t.plantAll parent ds = (u, (numberAllFrom t.size ds).map Numbered.top) ∧
      u.size = t.size + countAll ds ∧ t.GrowsTo u ∧ u.PlantedAll parent (numberAllFrom t.size ds)
  | [], t, _ => ⟨t, rfl, rfl, .refl t, trivial⟩
  | d :: ds, t, parent => by
    obtain ⟨v, hv, hvs, hvg, hvp⟩ := plantUnder_spec d t parent
    obtain ⟨u, hu, hus, hug, hup⟩ := plantAll_spec ds v parent
    rw [hvs] at hu hup
    refine ⟨u, ?_, by rw [hus, hvs, countAll]; omega, hvg.trans hug,
      hvp.frame fun x hx => hug.node? x ?_, hup⟩
    · rw [plantAll, hv]
      simp only [hu, numberAllFrom, List.map_cons, Numbered.top_numberFrom]
    · rw [Has, hvs]
      exact (Numbered.mem_ids_numberFrom.1 hx).2

end

/-- **A planted document keeps a tree well-formed.** -/
theorem WellFormed.of_planted {d : Document} (hw : t.WellFormed) (hg : t.GrowsTo u)
    (hs : u.size = t.size + count d) (hp : u.Planted none (numberFrom t.size d)) :
    u.WellFormed := by
  have hnew : ∀ {x}, u.Has x → ¬ t.Has x → x ∈ (numberFrom t.size d).ids := fun hx ht =>
    Numbered.mem_ids_numberFrom.2 ⟨Nat.le_of_not_lt ht, hs ▸ hx⟩
  have hold : ∀ {x}, x ∈ (numberFrom t.size d).ids → ¬ t.Has x := fun hx =>
    Nat.not_lt_of_le (Numbered.mem_ids_numberFrom.1 hx).1
  have hinc := Numbered.ids_numberFrom_increasing t.size d
  -- The parent of an old node is its old parent, that of a new one is a new one before it.
  have hparent : ∀ {c p}, u.parentOf c = some p → (t.Has c ∧ t.parentOf c = some p) ∨
      (¬ t.Has c ∧ ¬ t.Has p ∧ c ∈ u.childrenOf p ∧ p.index < c.index) := by
    intro c p hc
    by_cases hct : t.Has c
    · exact .inl ⟨hct, (hg.parentOf hct).symm.trans hc⟩
    · rcases hp.mem_childrenOf (hnew (has_of_parentOf hc) hct) hc with ⟨-, h⟩ | ⟨hpn, h⟩
      · cases h
      · exact .inr ⟨hct, hold hpn, h, hp.holds.index_lt_of_child hinc hpn h⟩
  have hchild : ∀ {p c}, c ∈ u.childrenOf p → u.parentOf c = some p := by
    intro p c hc
    by_cases hpt : t.Has p
    · rw [hg.childrenOf hpt] at hc
      exact (hg.parentOf (hw.has_child hc)).trans ((hw.linked p c).1 hc)
    · exact hp.parentOf_child (hnew (has_of_mem_childrenOf hc) hpt) hc
  refine ⟨fun p c hc => has_of_parentOf (hchild hc), fun p c => ⟨hchild, fun hc => ?_⟩,
    fun p => ?_, fun a ha => ?_⟩
  · rcases hparent hc with ⟨-, h⟩ | ⟨-, -, h, -⟩
    · rw [hg.childrenOf (hw.has_parent h)]
      exact (hw.linked p c).2 h
    · exact h
  · by_cases hpt : t.Has p
    · rw [hg.childrenOf hpt]
      exact hw.nodup p
    · by_cases hpu : u.Has p
      · exact hp.holds.childrenOf_nodup (hinc.imp fun h he => absurd (he ▸ h) (Nat.lt_irrefl _))
          (hnew hpu hpt)
      · rw [childrenOf, node?_eq_none hpu]
        exact List.nodup_nil
  · have key : ∀ {x}, u.Above a x → (t.Has x ∧ t.Above a x) ∨ (¬ t.Has x ∧ a.index < x.index) := by
      intro x hx
      induction hx with
      | parent hc =>
        rcases hparent hc with ⟨hx, h⟩ | ⟨hx, -, -, h⟩
        · exact .inl ⟨hx, .parent h⟩
        · exact .inr ⟨hx, h⟩
      | step _ hc ih =>
        rcases hparent hc with ⟨hx, h⟩ | ⟨hx, hb, -, h⟩
        · rcases ih with ⟨-, ih⟩ | ⟨hb, -⟩
          · exact .inl ⟨hx, .step ih h⟩
          · exact absurd (hw.has_parent h) hb
        · rcases ih with ⟨hb', -⟩ | ⟨-, ih⟩
          · exact absurd hb' hb
          · exact .inr ⟨hx, Nat.lt_trans ih h⟩
    rcases key ha with ⟨-, h⟩ | ⟨-, h⟩
    · exact hw.acyclic a h
    · exact Nat.lt_irrefl _ h

/-- **What planting does:** the next free numbers hold the document, detached. -/
structure Grown (t u : Tree) (ds : List Document) : Prop where
  wellFormed : u.WellFormed
  size : u.size = t.size + countAll ds
  growsTo : t.GrowsTo u
  holds : u.HoldsAll (numberAllFrom t.size ds)
  detached : ∀ b ∈ numberAllFrom t.size ds, u.parentOf b.top = none

/-- A tree grows to itself by no documents. -/
theorem WellFormed.grown_nil (hw : t.WellFormed) : Grown t t [] :=
  ⟨hw, rfl, .refl t, trivial, fun _ hb => absurd hb List.not_mem_nil⟩

/-- Planting some documents and then others. -/
theorem Grown.cons {d : Document} {ds : List Document} (h : Grown t v [d]) (h' : Grown v u ds) :
    Grown t u (d :: ds) := by
  have hs : v.size = t.size + count d := h.size
  have hb := h.holds.1
  refine ⟨h'.wellFormed, by rw [h'.size, hs, countAll]; omega, h.growsTo.trans h'.growsTo,
    ⟨h'.growsTo.holds hb, hs ▸ h'.holds⟩, fun b hmem => ?_⟩
  rw [numberAllFrom, List.mem_cons] at hmem
  rcases hmem with rfl | hmem
  · rw [h'.growsTo.parentOf hb.has_top]
    exact h.detached _ (List.mem_cons_self ..)
  · exact h'.detached b (hs ▸ hmem)

/-- A tree that grew to one with a document planted under no parent has grown by it. -/
theorem WellFormed.grown_of_planted {d : Document} (hw : t.WellFormed) (hg : t.GrowsTo u)
    (hs : u.size = t.size + count d) (hp : u.Planted none (numberFrom t.size d)) :
    Grown t u [d] := by
  refine ⟨hw.of_planted hg hs hp, by rw [hs]; rfl, hg, ⟨hp.holds, trivial⟩, fun b hb => ?_⟩
  rw [List.mem_singleton.1 hb]
  exact hp.parentOf_top

/-- Planting a document makes the tree grow by it, under the next number. -/
theorem WellFormed.plant_grown (hw : t.WellFormed) (d : Document) :
    ∃ u, t.plant d = (u, ⟨t.size⟩) ∧ Grown t u [d] := by
  obtain ⟨u, hu, hs, hg, hp⟩ := plantUnder_spec d t none
  exact ⟨u, hu, hw.grown_of_planted hg hs hp⟩

/-- `push`: a node without children is planted. -/
theorem WellFormed.push_grown (hw : t.WellFormed) (n : Node) :
    Grown t (t.push n).1 [.node n []] := by
  obtain ⟨hg, hn⟩ := growsTo_push t ⟨n, none, []⟩
  exact hw.grown_of_planted hg (size_push t n) ⟨hn, trivial⟩

/-- `importFrom`: what is at a node of another tree is planted. -/
theorem WellFormed.import_grown {other : Tree} (hw : t.WellFormed) (ho : other.WellFormed)
    (ha : other.Holds a) :
    ∃ u, t.importFrom other a.top = .ok (u, ⟨t.size⟩) ∧ Grown t u [a.document] := by
  obtain ⟨u, hu, hg⟩ := hw.plant_grown a.document
  exact ⟨u, by rw [importFrom, ha.read ho, ok_bind, hu]; rfl, hg⟩

/-- `clone`: what is at a node of the tree itself is. -/
theorem WellFormed.clone_grown (hw : t.WellFormed) (ha : t.Holds a) :
    ∃ u, t.clone a.top = .ok (u, ⟨t.size⟩) ∧ Grown t u [a.document] :=
  hw.import_grown hw ha

/-- `importAll`: what is at some nodes of another tree is planted. -/
theorem WellFormed.importAll_grown {other : Tree} (ho : other.WellFormed) (as : List Numbered) :
    ∀ {t : Tree}, t.WellFormed → (∀ a ∈ as, other.Holds a) →
      ∃ u, t.importAll other (as.map Numbered.top) =
        .ok (u, (numberAllFrom t.size (as.map Numbered.document)).map Numbered.top) ∧
          Grown t u (as.map Numbered.document) := by
  induction as with
  | nil => exact fun hw _ => ⟨_, rfl, hw.grown_nil⟩
  | cons a as ih =>
    intro t hw ha
    obtain ⟨v, hv, hgv⟩ := hw.import_grown ho (ha a (List.mem_cons_self ..))
    obtain ⟨u, hu, hgu⟩ := ih hgv.wellFormed fun b hb => ha b (List.mem_cons_of_mem _ hb)
    refine ⟨u, ?_, hgv.cons hgu⟩
    rw [List.map_cons, importAll, hv, ok_bind]
    dsimp only
    rw [hu, ok_bind, hgv.size]
    simp only [pure_eq_ok, List.map_cons, numberAllFrom, Numbered.top_numberFrom, countAll,
      Nat.add_zero]

/-! ## Contents -/

/-- A property of contents holds of all nodes. -/
def Everywhere (t : Tree) (P : Node → Prop) : Prop := ∀ x n, t.contentOf x = some n → P n

/-- What holds of the nodes of what is held holds everywhere in it. -/
theorem Holds.every_of_ids {P : Node → Prop} (ha : t.Holds a)
    (h : ∀ x ∈ a.ids, ∀ n, t.contentOf x = some n → P n) : a.document.Every P := by
  induction a using Numbered.induction_up with
  | step id n bs ih =>
    rw [Numbered.document_eq, Document.every_node]
    refine ⟨h id (Numbered.top_mem_ids _) n ha.content, fun d hd => ?_⟩
    obtain ⟨b, hb, rfl⟩ := List.mem_map.1 hd
    exact ih b hb (ha.of_mem hb) fun x hx => h x (Numbered.ids_subset_of_mem hb hx)

/-- What holds of all nodes holds everywhere in what is held. -/
theorem Everywhere.every {P : Node → Prop} (h : t.Everywhere P) (ha : t.Holds a) :
    a.document.Every P :=
  ha.every_of_ids fun x _ n hn => h x n hn

/-- What holds everywhere in what is held holds of its nodes. -/
theorem Holds.of_every {P : Node → Prop} (ha : t.Holds a) (h : a.document.Every P)
    (hx : x ∈ a.ids) {n : Node} (hn : t.contentOf x = some n) : P n := by
  induction a using Numbered.induction_up with
  | step id _ bs ih =>
    rw [Numbered.document_eq, Document.every_node] at h
    rcases Numbered.mem_ids.1 hx with rfl | ⟨b, hb, hx⟩
    · exact Option.some.inj (ha.content.symm.trans hn) ▸ h.1
    · exact ih b hb (ha.of_mem hb) (h.2 _ (List.mem_map_of_mem hb)) hx

/-- A property that holds of all contents, and everywhere in what is planted, holds of all
contents. -/
theorem Grown.everywhere {P : Node → Prop} {ds : List Document} (hg : Grown t u ds)
    (h : t.Everywhere P) (hds : Document.EveryAll P ds) : u.Everywhere P := by
  intro x n hn
  by_cases hx : t.Has x
  · exact h x n (hg.growsTo.contentOf hx ▸ hn)
  · have hxu : u.Has x := has_iff_contentOf.2 ⟨n, hn⟩
    rw [Has, hg.size] at hxu
    obtain ⟨b, hb, hxb⟩ := Numbered.mem_idsAll.1
      (Numbered.mem_idsAll_numberAllFrom.2 ⟨Nat.le_of_not_lt hx, hxu⟩)
    refine (holdsAll_iff.1 hg.holds b hb).of_every ?_ hxb hn
    have hd : b.document ∈ documents (numberAllFrom t.size ds) := by
      rw [Numbered.documents_eq_map]
      exact List.mem_map_of_mem hb
    rw [Numbered.documents_numberAllFrom] at hd
    exact Document.everyAll_iff.1 hds _ hd

/-! ## Documents below a root -/

/-- The tree without nodes is well-formed. -/
theorem wellFormed_nil : WellFormed ⟨#[]⟩ where
  bounded _ _ h := by cases h
  linked _ _ := by constructor <;> nofun
  nodup _ := List.nodup_nil
  acyclic _ h := by
    obtain ⟨p, hp, -⟩ := h.parent_within
    cases hp

/-- **A tree of documents** holds them below its root, and nothing else. -/
theorem ofDocuments_grown (ds : List Document) :
    Grown ⟨#[]⟩ (ofDocuments ds) [.node .fragment ds] := by
  obtain ⟨u, hu, hg⟩ := wellFormed_nil.plant_grown (.node .fragment ds)
  rw [ofDocuments, hu]
  exact hg

/-- The tree that is built of documents is well-formed. -/
theorem ofDocuments_wellFormed (ds : List Document) : (ofDocuments ds).WellFormed :=
  (ofDocuments_grown ds).wellFormed

/-- The tree that is built of documents holds them at its root. -/
theorem ofDocuments_holds (ds : List Document) :
    (ofDocuments ds).Holds (numberFrom 0 (.node .fragment ds)) :=
  (ofDocuments_grown ds).holds.1

/-- The root of a tree that is built is a fragment. -/
theorem contentOf_ofDocuments (ds : List Document) :
    (ofDocuments ds).contentOf root = some .fragment :=
  (ofDocuments_holds ds).content

/-- The root of a tree that is built has no parent. -/
theorem parentOf_ofDocuments (ds : List Document) : (ofDocuments ds).parentOf root = none :=
  (ofDocuments_grown ds).detached _ (List.mem_cons_self ..)

/-- A property that holds of the fragment and everywhere in some documents holds of all contents of
their tree. -/
theorem ofDocuments_everywhere {P : Node → Prop} {ds : List Document} (hf : P .fragment)
    (h : Document.EveryAll P ds) : (ofDocuments ds).Everywhere P :=
  (ofDocuments_grown ds).everywhere (fun _ _ hx => by cases hx) ⟨⟨hf, h⟩, trivial⟩

/-! ## Copies put in -/

/-- **What putting in new nodes does:** they hold what they are to show, and stand
among the children of the node; the nodes that were there stay as they are, but
for these children. -/
structure Inserted (t u : Tree) (p : NodeId) (before : Option NodeId) (news : List Numbered) :
    Prop where
  wellFormed : u.WellFormed
  size_le : t.size ≤ u.size
  content : ∀ x, t.Has x → u.contentOf x = t.contentOf x
  parent : ∀ x, t.Has x → u.parentOf x = t.parentOf x
  children : ∀ x, t.Has x → u.childrenOf x = t.childrenWith p (news.map Numbered.top) before x
  holds : ∀ b ∈ news, u.Holds b
  fresh : ∀ x ∈ idsAll news, ¬ t.Has x

/-- New detached nodes are put in. -/
theorem GrowsTo.inserted {news : List Numbered} (hg : t.GrowsTo v) (hw : t.WellFormed)
    (hv : v.WellFormed) (hh : ∀ b ∈ news, v.Holds b) (hd : ∀ b ∈ news, v.parentOf b.top = none)
    (hn : (news.map Numbered.top).Nodup) (hf : ∀ x ∈ idsAll news, ¬ t.Has x) (hp : t.Has p)
    (before : Option NodeId) :
    ∃ u, v.insertAllBefore p (news.map Numbered.top) before = .ok u ∧
      Inserted t u p before news ∧ ∀ x, u.contentOf x = v.contentOf x := by
  have htop : ∀ x ∈ news.map Numbered.top, v.Has x ∧ v.parentOf x = none ∧ ¬ t.Has x := by
    intro x hx
    obtain ⟨b, hb, rfl⟩ := List.mem_map.1 hx
    exact ⟨(hh b hb).has_top, hd b hb, hf _ (Numbered.mem_idsAll.2 ⟨b, hb, b.top_mem_ids⟩)⟩
  have hout : ∀ {x}, t.Has x → x ∉ news.map Numbered.top := fun hx hm => (htop _ hm).2.2 hx
  obtain ⟨u, hu, hr⟩ := insertAllBefore_relinked before (hg.has hp) (fun x hx => (htop x hx).1)
    (fun x hx => (htop x hx).2.1) (hout hp) hn
  refine ⟨u, hu, ⟨hv.of_inserted (fun x hx => (htop x hx).1) (fun x hx => (htop x hx).2.1) hn
    (fun x hx => hg.not_within hw (htop x hx).2.2 hp) hr, hr.size ▸ hg.size_le, fun x hx => ?_,
    fun x hx => ?_, fun x hx => ?_, fun b hb => ?_, hf⟩, hr.content⟩
  · rw [hr.content, hg.contentOf hx]
  · rw [hr.parent, parentsWith, if_neg (hout hx), hg.parentOf hx]
  · rw [hr.children, childrenWith, hg.childrenOf hx]
    rfl
  · refine (hh b hb).frame (fun x _ => hr.content x) fun x hx => ?_
    rw [hr.children, childrenWith, if_neg]
    rintro rfl
    exact hf _ (Numbered.mem_idsAll.2 ⟨b, hb, hx⟩) hp

/-- `insertTreeBefore`: copies of the top nodes of a tree are put in. -/
theorem WellFormed.insertTreeBefore_inserted (hw : t.WellFormed) {other : Tree} {r : Numbered}
    (ho : other.WellFormed) (hr : other.Holds r) (htop : r.top = root) (hp : t.Has p)
    (before : Option NodeId) :
    ∃ u, t.insertTreeBefore p other before =
        .ok (u, (numberAllFrom t.size (r.inside.map Numbered.document)).map Numbered.top) ∧
      Inserted t u p before (numberAllFrom t.size (r.inside.map Numbered.document)) := by
  obtain ⟨v, hv, hg⟩ := WellFormed.importAll_grown ho r.inside hw fun a ha => hr.of_mem ha
  obtain ⟨u, hu, hi, -⟩ := hg.growsTo.inserted hw hg.wellFormed (holdsAll_iff.1 hg.holds) hg.detached
    ((Numbered.idsAll_numberAllFrom_nodup ..).sublist (Numbered.map_top_sublist _))
    (fun x hx => Nat.not_lt_of_le (Numbered.mem_idsAll_numberAllFrom.1 hx).1) hp before
  refine ⟨u, ?_, hi⟩
  have hc := children_ok hr.has_top
  rw [hr.children, htop] at hc
  rw [insertTreeBefore, hc, ok_bind, hv, ok_bind]
  dsimp only
  rw [hu, ok_bind]
  rfl

/-- `replaceChildren`: the children of a node are detached, and copies of the top
nodes of a tree take their place. -/
theorem WellFormed.replaceChildren_inserted (hw : t.WellFormed) {other : Tree} {r : Numbered}
    (ho : other.WellFormed) (hr : other.Holds r) (htop : r.top = root) (hp : t.Has p) :
    ∃ v u, Relinked t v (t.parentsWithout (t.childrenOf p)) (t.childrenWithout (t.childrenOf p)) ∧
      t.replaceChildren p other =
        .ok (u, (numberAllFrom t.size (r.inside.map Numbered.document)).map Numbered.top) ∧
      Inserted v u p none (numberAllFrom t.size (r.inside.map Numbered.document)) := by
  obtain ⟨v, hv, hd⟩ := detachAll_relinked hw fun c hc => hw.has_child (p := p) hc
  obtain ⟨u, hu, hi⟩ := (hw.of_detached hd).insertTreeBefore_inserted ho hr htop (hd.has.2 hp) none
  rw [hd.size] at hu hi
  exact ⟨v, u, hd, by rw [replaceChildren, children_ok hp, ok_bind, hv, ok_bind, hu], hi⟩

end Tree
end PageBinding
