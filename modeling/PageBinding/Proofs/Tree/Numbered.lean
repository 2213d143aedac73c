/-
# Documents with node numbers

A numbered document is a document in which each node bears its number in a tree.
A tree holds it (`Tree.Holds`) if the nodes with these numbers have these
contents and these children.  At each node of a well-formed tree there is exactly
one (`WellFormed.exists_holds`, `Holds.unique`), its numbers are the nodes within
that node, each once (`Holds.mem_ids`, `Holds.ids_nodup`), and what is read at
the node is its document (`Holds.read`).

A tree goes on holding a numbered document as long as the contents and the
children of its nodes stay as they are (`Holds.frame`).
-/

import PageBinding.Proofs.Tree.Order
import PageBinding.Tree.Reading
import Mathlib.Data.List.Dedup
import Mathlib.Data.Finset.Dedup

namespace PageBinding

open Html (Node Document)

/-- A document with the numbers of its nodes. -/
inductive Numbered
  | node (id : NodeId) (content : Node) (inside : List Numbered)

namespace Numbered

/-- The number of the top node. -/
def top : Numbered → NodeId
  | .node id _ _ => id

/-- The content of the top node. -/
def content : Numbered → Node
  | .node _ n _ => n

/-- What is inside the top node. -/
def inside : Numbered → List Numbered
  | .node _ _ bs => bs

mutual

/-- The document without the numbers. -/
def document : Numbered → Document
  | .node _ n bs => .node n (documents bs)

/-- The documents without the numbers. -/
def documents : List Numbered → List Document
  | [] => []
  | b :: bs => document b :: documents bs

end

mutual

/-- The numbers in document order. -/
def ids : Numbered → List NodeId
  | .node id _ bs => id :: idsAll bs

/-- The numbers of some documents, one after the other. -/
def idsAll : List Numbered → List NodeId
  | [] => []
  | b :: bs => ids b ++ idsAll bs

end

/-- The documents without the numbers, one by one. -/
theorem documents_eq_map (bs : List Numbered) : documents bs = bs.map document := by
  induction bs with
  | nil => rfl
  | cons b bs ih => rw [documents, ih, List.map_cons]

/-- The numbers of some documents are those of each of them, in a row. -/
theorem idsAll_eq_flatMap (bs : List Numbered) : idsAll bs = bs.flatMap ids := by
  induction bs with
  | nil => rfl
  | cons b bs ih => rw [idsAll, ih, List.flatMap_cons]

/-- A number is among those of some documents if it is one of one of them. -/
theorem mem_idsAll {bs : List Numbered} {x : NodeId} : x ∈ idsAll bs ↔ ∃ b ∈ bs, x ∈ b.ids := by
  rw [idsAll_eq_flatMap, List.mem_flatMap]

/-- The numbers of documents in a row. -/
theorem idsAll_append (as bs : List Numbered) : idsAll (as ++ bs) = idsAll as ++ idsAll bs := by
  rw [idsAll_eq_flatMap, idsAll_eq_flatMap, idsAll_eq_flatMap, List.flatMap_append]

/-- Each of some documents has no more nodes than all of them. -/
theorem length_ids_le_of_mem {bs : List Numbered} {b : Numbered} (hb : b ∈ bs) :
    b.ids.length ≤ (idsAll bs).length := by
  obtain ⟨cs, ds, rfl⟩ := List.append_of_mem hb
  rw [idsAll_append, idsAll, List.length_append, List.length_append]
  omega

/-- The numbers of a document are that of its top and those inside. -/
theorem ids_eq (a : Numbered) : a.ids = a.top :: idsAll a.inside := by
  cases a; rfl

/-- A document without the numbers is its content with what is inside, without the numbers. -/
theorem document_eq (a : Numbered) : a.document = .node a.content (a.inside.map document) := by
  cases a with
  | node _ _ bs => rw [document, documents_eq_map]; rfl

/-- A number of a document is that of its top, or one inside. -/
theorem mem_ids {a : Numbered} {x : NodeId} :
    x ∈ a.ids ↔ x = a.top ∨ ∃ b ∈ a.inside, x ∈ b.ids := by
  rw [ids_eq, List.mem_cons, mem_idsAll]

/-- The number of the top is one of the document. -/
theorem top_mem_ids (a : Numbered) : a.top ∈ a.ids := by
  rw [ids_eq]; exact List.mem_cons_self ..

/-- The numbers of what is inside come in their order among those of the whole. -/
theorem ids_sublist_of_mem {a b : Numbered} (hb : b ∈ a.inside) : b.ids.Sublist a.ids := by
  obtain ⟨cs, ds, h⟩ := List.append_of_mem hb
  rw [ids_eq a, h, idsAll_append, idsAll]
  exact .cons _ ((List.sublist_append_left ..).trans (List.sublist_append_right ..))

/-- The numbers of what is inside are among those of the whole. -/
theorem ids_subset_of_mem {a b : Numbered} (hb : b ∈ a.inside) : b.ids ⊆ a.ids :=
  (ids_sublist_of_mem hb).subset

/-- The top nodes are among the nodes, in their order. -/
theorem map_top_sublist (as : List Numbered) : (as.map top).Sublist (idsAll as) := by
  induction as with
  | nil => exact .slnil
  | cons a as ih =>
    rw [List.map_cons, idsAll, ids_eq, List.cons_append]
    exact (ih.trans (List.sublist_append_right ..)).cons_cons _

mutual

/-- What holds of a numbered document if it holds of those right below its top
node holds of every one. -/
theorem induction_up {P : Numbered → Prop}
    (step : ∀ id n bs, (∀ b ∈ bs, P b) → P (.node id n bs)) : ∀ a, P a
  | .node id n bs => step id n bs (induction_upAll step bs)

/-- What passes from the documents inside to the one around them holds for each of some
documents. -/
theorem induction_upAll {P : Numbered → Prop}
    (step : ∀ id n bs, (∀ b ∈ bs, P b) → P (.node id n bs)) : ∀ bs : List Numbered, ∀ b ∈ bs, P b
  | [], _, hb => absurd hb List.not_mem_nil
  | c :: bs, b, hb => by
    rcases List.mem_cons.1 hb with h | hb
    · exact h ▸ induction_up step c
    · exact induction_upAll step bs b hb

end

end Numbered

namespace Tree

open Numbered (documents idsAll)

variable {t u : Tree} {a b : Numbered} {id x : NodeId}

mutual

/-- The tree holds a numbered document. -/
def Holds (t : Tree) : Numbered → Prop
  | .node id n bs => t.contentOf id = some n ∧ t.childrenOf id = bs.map Numbered.top ∧ HoldsAll t bs

/-- The tree holds some numbered documents. -/
def HoldsAll (t : Tree) : List Numbered → Prop
  | [] => True
  | b :: bs => Holds t b ∧ HoldsAll t bs

end

/-- Some documents are held if each of them is. -/
theorem holdsAll_iff {bs : List Numbered} : t.HoldsAll bs ↔ ∀ b ∈ bs, t.Holds b := by
  induction bs with
  | nil => simp [HoldsAll]
  | cons b bs ih => rw [HoldsAll, ih, List.forall_mem_cons]

/-- A document is held if its top has the content and the children that it tells, and what is inside
is held. -/
theorem holds_iff : t.Holds a ↔ t.contentOf a.top = some a.content ∧
    t.childrenOf a.top = a.inside.map Numbered.top ∧ ∀ b ∈ a.inside, t.Holds b := by
  cases a
  rw [Holds, holdsAll_iff]
  rfl

/-- Different nodes of a tree are no more than it has. -/
theorem length_le_size {l : List NodeId} (hn : l.Nodup) (h : ∀ x ∈ l, t.Has x) :
    l.length ≤ t.size := by
  have hm : (l.map NodeId.index).Nodup :=
    hn.map fun x y hxy => by cases x; cases y; simpa using hxy
  rw [← List.length_map NodeId.index, ← List.toFinset_card_of_nodup hm,
    ← Finset.card_range t.size]
  refine Finset.card_le_card fun i hi => ?_
  obtain ⟨x, hx, rfl⟩ := List.mem_map.1 (List.mem_toFinset.1 hi)
  exact Finset.mem_range.2 (h x hx)

namespace Holds

/-- The top of what is held has its content. -/
theorem content (h : t.Holds a) : t.contentOf a.top = some a.content := (holds_iff.1 h).1

/-- The top of what is held has the tops inside for its children. -/
theorem children (h : t.Holds a) : t.childrenOf a.top = a.inside.map Numbered.top :=
  (holds_iff.1 h).2.1

/-- What is inside is held too. -/
theorem of_mem (h : t.Holds a) (hb : b ∈ a.inside) : t.Holds b := (holds_iff.1 h).2.2 b hb

/-- The tree has the top of what it holds. -/
theorem has_top (h : t.Holds a) : t.Has a.top := has_iff_contentOf.2 ⟨_, h.content⟩

/-- The tops inside are among the children. -/
theorem mem_children (h : t.Holds a) (hb : b ∈ a.inside) : b.top ∈ t.childrenOf a.top := by
  rw [h.children]
  exact List.mem_map_of_mem hb

/-- The tree has all nodes of what it holds. -/
theorem has (h : t.Holds a) (hx : x ∈ a.ids) : t.Has x := by
  induction a using Numbered.induction_up with
  | step id n bs ih =>
    rcases Numbered.mem_ids.1 hx with rfl | ⟨b, hb, hx⟩
    · exact h.has_top
    · exact ih b hb (h.of_mem hb) hx

/-- The numbered document has with each node its children, below its top node. -/
theorem child_mem_inside (h : t.Holds a) (hx : x ∈ a.ids) {c : NodeId} (hc : c ∈ t.childrenOf x) :
    c ∈ idsAll a.inside := by
  induction a using Numbered.induction_up with
  | step id n bs ih =>
    rcases Numbered.mem_ids.1 hx with rfl | ⟨b, hb, hx⟩
    · obtain ⟨b, hb, rfl⟩ := List.mem_map.1 (h.children ▸ hc)
      exact Numbered.mem_idsAll.2 ⟨b, hb, b.top_mem_ids⟩
    · refine Numbered.mem_idsAll.2 ⟨b, hb, ?_⟩
      rw [Numbered.ids_eq]
      exact List.mem_cons_of_mem _ (ih b hb (h.of_mem hb) hx)

/-- The children of a node that is held are held. -/
theorem child_mem (h : t.Holds a) (hx : x ∈ a.ids) {c : NodeId} (hc : c ∈ t.childrenOf x) :
    c ∈ a.ids := by
  rw [Numbered.ids_eq]
  exact List.mem_cons_of_mem _ (h.child_mem_inside hx hc)

/-- **The numbers of what is held at a node are the nodes within it.** -/
theorem mem_ids (h : t.Holds a) (hw : t.WellFormed) : x ∈ a.ids ↔ t.Within a.top x := by
  constructor
  · intro hx
    induction a using Numbered.induction_up with
    | step id n bs ih =>
      rcases Numbered.mem_ids.1 hx with rfl | ⟨b, hb, hx⟩
      · exact .self ..
      · exact (hw.above_child (h.mem_children hb)).within.trans (ih b hb (h.of_mem hb) hx)
  · rintro (rfl | hx)
    · exact a.top_mem_ids
    · induction hx with
      | parent hp => exact h.child_mem a.top_mem_ids ((hw.linked _ _).2 hp)
      | step _ hp ih => exact h.child_mem ih ((hw.linked _ _).2 hp)

/-- If the numbers increase, they increase from each node to its children. -/
theorem index_lt_of_child (h : t.Holds a) (hi : a.ids.Pairwise (·.index < ·.index))
    (hx : x ∈ a.ids) {c : NodeId} (hc : c ∈ t.childrenOf x) : x.index < c.index := by
  induction a using Numbered.induction_up with
  | step id n bs ih =>
    rcases Numbered.mem_ids.1 hx with rfl | ⟨b, hb, hx⟩
    · obtain ⟨b, hb, rfl⟩ := List.mem_map.1 (h.children ▸ hc)
      exact (List.pairwise_cons.1 hi).1 _ (Numbered.mem_idsAll.2 ⟨b, hb, b.top_mem_ids⟩)
    · exact ih b hb (h.of_mem hb) (hi.sublist (Numbered.ids_sublist_of_mem hb)) hx

/-- If no number occurs twice, no child does. -/
theorem childrenOf_nodup (h : t.Holds a) (hn : a.ids.Nodup) (hx : x ∈ a.ids) :
    (t.childrenOf x).Nodup := by
  induction a using Numbered.induction_up with
  | step id n bs ih =>
    rcases Numbered.mem_ids.1 hx with rfl | ⟨b, hb, hx⟩
    · exact h.children.symm ▸ (List.nodup_cons.1 hn).2.sublist (Numbered.map_top_sublist _)
    · exact ih b hb (h.of_mem hb) (hn.sublist (Numbered.ids_sublist_of_mem hb)) hx

/-- **What is held at a node is determined by it.** -/
theorem unique (ha : t.Holds a) (hb : t.Holds b) (hab : a.top = b.top) : a = b := by
  induction a using Numbered.induction_up generalizing b with
  | step id n as ih =>
    obtain ⟨id', n', bs⟩ := b
    obtain rfl : id = id' := hab
    have hn : n = n' := Option.some.inj (ha.content.symm.trans hb.content)
    have hbs : as.map Numbered.top = bs.map Numbered.top := ha.children.symm.trans hb.children
    have key : ∀ {as bs : List Numbered}, as.map Numbered.top = bs.map Numbered.top →
        (∀ a ∈ as, t.Holds a ∧ ∀ {b}, t.Holds b → a.top = b.top → a = b) →
          (∀ b ∈ bs, t.Holds b) → as = bs := by
      intro as
      induction as with
      | nil =>
        intro bs h _ _
        exact (List.map_eq_nil_iff.1 h.symm).symm
      | cons a as iha =>
        intro bs h h₁ h₂
        cases bs with
        | nil => cases h
        | cons b bs =>
          rw [List.map_cons, List.map_cons, List.cons.injEq] at h
          rw [(h₁ a (List.mem_cons_self ..)).2 (h₂ b (List.mem_cons_self ..)) h.1,
            iha h.2 (fun a h => h₁ a (List.mem_cons_of_mem _ h))
              fun b h => h₂ b (List.mem_cons_of_mem _ h)]
    rw [hn, key hbs (fun a ha' => ⟨ha.of_mem ha', fun {b} hb h => ih a ha' (ha.of_mem ha') hb h⟩)
      fun b hb' => hb.of_mem hb']

/-- **What is held stays held** as long as its nodes keep their contents and
children. -/
theorem frame (h : t.Holds a) (hn : ∀ x ∈ a.ids, u.contentOf x = t.contentOf x)
    (hc : ∀ x ∈ a.ids, u.childrenOf x = t.childrenOf x) : u.Holds a := by
  induction a using Numbered.induction_up with
  | step id n bs ih =>
    refine holds_iff.2 ⟨?_, ?_, fun b hb => ih b hb (h.of_mem hb)
      (fun x hx => hn x (Numbered.ids_subset_of_mem hb hx))
      fun x hx => hc x (Numbered.ids_subset_of_mem hb hx)⟩
    · exact (hn _ (Numbered.top_mem_ids _)).trans h.content
    · exact (hc _ (Numbered.top_mem_ids _)).trans h.children

/-- Trees that hold the same look the same there. -/
theorem same_views (ht : t.Holds a) (hu : u.Holds a) (hx : x ∈ a.ids) :
    u.contentOf x = t.contentOf x ∧ u.childrenOf x = t.childrenOf x := by
  induction a using Numbered.induction_up with
  | step id n bs ih =>
    rcases Numbered.mem_ids.1 hx with rfl | ⟨b, hb, hx⟩
    · exact ⟨hu.content.trans ht.content.symm, hu.children.trans ht.children.symm⟩
    · exact ih b hb (ht.of_mem hb) (hu.of_mem hb) hx

/-- Nodes of what is held right below a node are different ones. -/
theorem disjoint_of_mem (h : t.Holds a) (hw : t.WellFormed) {b c : Numbered} (hb : b ∈ a.inside)
    (hc : c ∈ a.inside) (hbc : b.top ≠ c.top) (hx : x ∈ b.ids) : x ∉ c.ids := fun hxc =>
  hbc (hw.eq_of_within_children (h.mem_children hb) (h.mem_children hc)
    (((h.of_mem hb).mem_ids hw).1 hx) (((h.of_mem hc).mem_ids hw).1 hxc))

/-- In a well-formed tree the top is nowhere inside. -/
theorem top_notMem_idsAll (h : t.Holds a) (hw : t.WellFormed) : a.top ∉ idsAll a.inside := by
  intro hx
  obtain ⟨b, hb, hx⟩ := Numbered.mem_idsAll.1 hx
  exact hw.not_within_parent ((hw.linked _ _).1 (h.mem_children hb))
    (((h.of_mem hb).mem_ids hw).1 hx)

/-- The numbers inside are the nodes below. -/
theorem mem_inside (h : t.Holds a) (hw : t.WellFormed) :
    x ∈ idsAll a.inside ↔ t.Above a.top x := by
  have hx := h.mem_ids hw (x := x)
  rw [Numbered.ids_eq, List.mem_cons] at hx
  constructor
  · intro hm
    rcases hx.1 (.inr hm) with rfl | ha
    · exact absurd hm (h.top_notMem_idsAll hw)
    · exact ha
  · intro ha
    rcases hx.2 ha.within with rfl | hm
    · exact absurd ha (hw.acyclic _)
    · exact hm

/-- **No node occurs twice in what is held.** -/
theorem ids_nodup (h : t.Holds a) (hw : t.WellFormed) : a.ids.Nodup := by
  induction a using Numbered.induction_up with
  | step id n bs ih =>
    refine List.nodup_cons.2 ⟨h.top_notMem_idsAll hw, ?_⟩
    rw [Numbered.idsAll_eq_flatMap]
    refine List.nodup_flatMap.2 ⟨fun b hb => ih b hb (h.of_mem hb), ?_⟩
    have hn : (bs.map Numbered.top).Nodup := by
      have := hw.nodup id
      rwa [show t.childrenOf id = bs.map Numbered.top from h.children] at this
    refine (List.pairwise_map.1 hn).imp_of_mem fun {b c} hb hc hbc x hxb hxc => ?_
    exact h.disjoint_of_mem hw hb hc hbc hxb hxc

/-- A well-formed tree holds no more nodes than it has. -/
theorem length_ids_le (h : t.Holds a) (hw : t.WellFormed) : a.ids.length ≤ t.size :=
  length_le_size (h.ids_nodup hw) fun _ hx => h.has hx

end Holds

/-- **At each node of a well-formed tree a numbered document is held.** -/
theorem WellFormed.exists_holds (hw : t.WellFormed) (hid : t.Has id) :
    ∃ a, a.top = id ∧ t.Holds a := by
  refine hw.induction_below (P := fun id => ∃ a, a.top = id ∧ t.Holds a) (fun id hid ih => ?_) id hid
  obtain ⟨n, hn⟩ := has_iff_contentOf.1 hid
  have key : ∀ cs : List NodeId, (∀ c ∈ cs, ∃ a, a.top = c ∧ t.Holds a) →
      ∃ bs : List Numbered, bs.map Numbered.top = cs ∧ t.HoldsAll bs := by
    intro cs
    induction cs with
    | nil => exact fun _ => ⟨[], rfl, trivial⟩
    | cons c cs ihc =>
      intro h
      obtain ⟨b, rfl, hb⟩ := h c (List.mem_cons_self ..)
      obtain ⟨bs, rfl, hbs⟩ := ihc fun c hc => h c (List.mem_cons_of_mem _ hc)
      exact ⟨b :: bs, rfl, hb, hbs⟩
  obtain ⟨bs, hbs, hall⟩ := key _ ih
  exact ⟨.node id n bs, rfl, hn, hbs.symm, hall⟩

/-! ## Reading -/

/-- What is held is read as its document within as many steps as it has nodes. -/
theorem Holds.readWithin (h : t.Holds a) : ∀ n, a.ids.length ≤ n →
    t.readWithin n a.top = .ok a.document := by
  induction a using Numbered.induction_up with
  | step id c bs ih =>
    rintro (_ | n) hn
    · rw [Numbered.ids_eq] at hn
      cases hn
    · have hb : ∀ b ∈ bs, t.readWithin n b.top = .ok b.document := by
        refine fun b hb => ih b hb (h.of_mem hb) n (Nat.le_trans ?_ (Nat.succ_le_succ_iff.1 hn))
        exact Numbered.length_ids_le_of_mem hb
      have hm : (bs.map Numbered.top).mapM (t.readWithin n) = .ok (bs.map Numbered.document) := by
        clear ih hn h
        induction bs with
        | nil => rfl
        | cons b bs ihb =>
          rw [List.map_cons, List.mapM_cons, hb b (List.mem_cons_self ..),
            ihb fun c hc => hb c (List.mem_cons_of_mem _ hc)]
          rfl
      have hs := node_eq_ok h.content
      rw [h.children] at hs
      change t.readWithin (n + 1) id = _
      rw [Tree.readWithin, show t.node id = _ from hs, ok_bind, show Numbered.inside _ = bs from rfl,
        hm, Numbered.document_eq]
      rfl

/-- **What is read at a node is the document held there.** -/
theorem Holds.read (h : t.Holds a) (hw : t.WellFormed) : t.read a.top = .ok a.document :=
  h.readWithin _ (Nat.le_succ_of_le (h.length_ids_le hw))

/-- What is held at some nodes is read at them. -/
theorem mapM_read {bs : List Numbered} (hw : t.WellFormed) (h : ∀ b ∈ bs, t.Holds b) :
    (bs.map Numbered.top).mapM t.read = .ok (Numbered.documents bs) := by
  induction bs with
  | nil => rfl
  | cons b bs ih =>
    rw [List.map_cons, List.mapM_cons, (h b (List.mem_cons_self ..)).read hw,
      ih fun c hc => h c (List.mem_cons_of_mem _ hc)]
    rfl

/-- **Every node of a well-formed tree can be read.** -/
theorem WellFormed.exists_read (hw : t.WellFormed) (hid : t.Has id) : ∃ d, t.read id = .ok d := by
  obtain ⟨a, rfl, ha⟩ := hw.exists_holds hid
  exact ⟨_, ha.read hw⟩

end Tree
end PageBinding
