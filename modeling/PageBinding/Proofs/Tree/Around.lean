/-
# What is around the children of a node

`Around q owner S` says how the children of one node stand within those of another
one, which is that node or above it: `S` makes the latter out of the former.  A
tree in which only the children of the one node are others holds what is made out
of these (`Around.holds`), and it shows how they read (`Around.documents_inj`).
-/

import PageBinding.Proofs.Tree.Numbered

namespace PageBinding

open Html (Node Document)

namespace Numbered

/-- The children of a node, and what they are part of as children of a node at or
above it. -/
inductive Around (q : NodeId) : NodeId → (List Numbered → List Numbered) → Prop
  | here : Around q q id
  | within {id owner : NodeId} {n : Node} {S : List Numbered → List Numbered}
      (before after : List Numbered) : Around q id S →
    Around q owner fun bs => before ++ .node id n (S bs) :: after

namespace Around

variable {q owner : NodeId} {S : List Numbered → List Numbered} {bs cs : List Numbered} {n : Node}

/-- The documents of two lists in a row. -/
theorem documents_append (as bs : List Numbered) :
    documents (as ++ bs) = documents as ++ documents bs := by
  rw [documents_eq_map, documents_eq_map, documents_eq_map, List.map_append]

/-- The children are part of what they are in. -/
theorem idsAll_subset (h : Around q owner S) : idsAll bs ⊆ idsAll (S bs) := by
  induction h with
  | here => exact List.Subset.refl _
  | within before after _ ih =>
    rw [idsAll_append, idsAll, ids]
    exact fun x hx => List.mem_append_right _ (List.mem_append_left _ (List.mem_cons_of_mem _ (ih hx)))

/-- The node is there, if it is not where the way down begins. -/
theorem mem_idsAll (h : Around q owner S) : q = owner ∨ q ∈ idsAll (S bs) := by
  induction h with
  | here => exact .inl rfl
  | within before after _ ih =>
    right
    rw [idsAll_append, idsAll, ids]
    refine List.mem_append_right _ (List.mem_append_left _ ?_)
    rcases ih with rfl | ih
    · exact List.mem_cons_self ..
    · exact List.mem_cons_of_mem _ ih

/-- **How the children read** can be told from how all of it reads. -/
theorem documents_inj (h : Around q owner S) (hd : documents (S bs) = documents (S cs)) :
    documents bs = documents cs := by
  induction h with
  | here => exact hd
  | within before after _ ih =>
    rw [documents_append, documents_append, List.append_cancel_left_eq, documents, documents,
      document, document, List.cons.injEq, Document.node.injEq] at hd
    exact ih hd.1.2

/-- The children are held. -/
theorem holds_inner {t : Tree} (h : Around q owner S) (ht : t.Holds (.node owner n (S bs))) :
    ∃ n', t.Holds (.node q n' bs) := by
  induction h generalizing n with
  | here => exact ⟨n, ht⟩
  | within before after _ ih =>
    exact ih (ht.of_mem (List.mem_append_right _ (List.mem_cons_self ..)))

/-- **A tree with other children of the node** holds what is made of them. -/
theorem holds {t u : Tree} (h : Around q owner S) (hw : t.WellFormed)
    (ht : t.Holds (.node owner n (S bs)))
    (hn : ∀ x ∈ owner :: idsAll (S bs), x ∉ idsAll bs → u.contentOf x = t.contentOf x)
    (hc : ∀ x ∈ owner :: idsAll (S bs), x ∉ idsAll bs → x ≠ q → u.childrenOf x = t.childrenOf x)
    (hq : u.childrenOf q = cs.map top) (hcs : ∀ c ∈ cs, u.Holds c) :
    u.Holds (.node owner n (S cs)) := by
  induction h generalizing n with
  | here =>
    have htop : q ∉ idsAll bs := ht.top_notMem_idsAll hw
    exact Tree.holds_iff.2 ⟨(hn q (List.mem_cons_self ..) htop).trans ht.content, hq, hcs⟩
  | @within id owner n' S before after h ih =>
    have hmid : .node id n' (S bs) ∈ before ++ .node id n' (S bs) :: after :=
      List.mem_append_right _ (List.mem_cons_self ..)
    have htop := ht.top_notMem_idsAll hw
    have hhole : idsAll bs ⊆ (Numbered.node id n' (S bs)).ids := fun x hx =>
      List.mem_cons_of_mem _ (h.idsAll_subset hx)
    have hall : ∀ {b}, b ∈ before ++ .node id n' (S bs) :: after → ∀ {x}, x ∈ b.ids →
        x ∈ idsAll (before ++ .node id n' (S bs) :: after) := fun hb _ hx =>
      Numbered.mem_idsAll.2 ⟨_, hb, hx⟩
    have hout : owner ∉ idsAll bs := fun hx => htop (hall hmid (hhole hx))
    have hqin : q ∈ (Numbered.node id n' (S bs)).ids := by
      rcases h.mem_idsAll with rfl | hx
      · exact List.mem_cons_self ..
      · exact List.mem_cons_of_mem _ hx
    have howner : owner ≠ q := by
      rintro rfl
      exact htop (hall hmid hqin)
    have hnodup := hw.nodup owner
    rw [show t.childrenOf owner = _ from ht.children, Numbered.inside, List.map_append,
      List.map_cons, List.nodup_append'] at hnodup
    -- What stands beside the way down is as it was.
    have hbeside : ∀ b ∈ before ++ .node id n' (S bs) :: after, b.top ≠ id → u.Holds b := by
      intro b hb hne
      have hdisjoint : ∀ {x}, x ∈ b.ids → x ∉ (Numbered.node id n' (S bs)).ids := fun hx =>
        ht.disjoint_of_mem hw hb hmid hne hx
      refine (ht.of_mem hb).frame (fun x hx => ?_) fun x hx => ?_
      · exact hn x (List.mem_cons_of_mem _ (hall hb hx)) fun hm => hdisjoint hx (hhole hm)
      · refine hc x (List.mem_cons_of_mem _ (hall hb hx)) (fun hm => hdisjoint hx (hhole hm)) ?_
        rintro rfl
        exact hdisjoint hx hqin
    refine Tree.holds_iff.2 ⟨?_, ?_, fun b hb => ?_⟩
    · exact (hn owner (List.mem_cons_self ..) hout).trans ht.content
    · have hch := (hc owner (List.mem_cons_self ..) hout howner).trans ht.children
      rw [Numbered.inside, List.map_append, List.map_cons] at hch ⊢
      exact hch
    · rcases List.mem_append.1 hb with hb | hb
      · refine hbeside b (List.mem_append_left _ hb) fun he => ?_
        exact hnodup.2.2 (List.mem_map_of_mem hb) (he ▸ List.mem_cons_self ..)
      · rcases List.mem_cons.1 hb with rfl | hb
        · refine ih (ht.of_mem hmid) (fun x hx => hn x (List.mem_cons_of_mem _ (hall hmid hx)))
            fun x hx => hc x (List.mem_cons_of_mem _ (hall hmid hx))
        · refine hbeside b (List.mem_append_right _ (List.mem_cons_of_mem _ hb)) fun he => ?_
          refine (List.nodup_cons.1 hnodup.2.1).1 ?_
          show id ∈ after.map top
          rw [← he]
          exact List.mem_map_of_mem hb

end Around
end Numbered
end PageBinding
