/-
# Open nodes of a tree

A tree in the making has open nodes, each inside the next one (`Frame`).  The nodes that
are there are numbered in document order, so an open node has the number of the nodes
that are around it and before it (`count`), and the next inner one is its last child.  A
tree in which this is so raises the open nodes (`Tree.Raises`).

| operation | open nodes |
| --- | --- |
| a new last child of the innermost one (`Extended.open`) | one more, which is empty |
| another content of the innermost one (`Rewritten.raises`) | the same with this content |
| none (`raises_close`) | the innermost one has become the last document inside the next one |

A new node that is not open is one that is opened and closed at once.
-/

import PageBinding.Proofs.Tree.Extending
import PageBinding.Proofs.Tree.Renamed

namespace PageBinding

open Html (Node Document)
open Html.Document (count countAll)
open Numbered (numberFrom numberAllFrom)

namespace Html.Document

/-- Turning documents around keeps the number of nodes. -/
@[simp] theorem countAll_reverse (ds : List Document) : countAll ds.reverse = countAll ds := by
  induction ds with
  | nil => rfl
  | cons d ds ih =>
    rw [List.reverse_cons, countAll_append, ih, countAll, countAll, countAll]
    omega

end Html.Document

namespace Tree

variable {t u : Tree} {n : Node} {id x : NodeId} {more : List NodeId}

/-! ## Frames -/

/-- An open node with what is in it and closed, the last first. -/
structure Frame where
  content : Node
  inside : List Document

namespace Frame

/-- The number of nodes that open nodes and what is in them are. -/
def count : List Frame → Nat
  | [] => 0
  | f :: outer => count outer + 1 + countAll f.inside

/-- The numbers of open nodes, each inside the next one. -/
def ids : List Frame → List NodeId
  | [] => []
  | _ :: outer => ⟨count outer⟩ :: ids outer

/-- The node once it is closed. -/
def closed (f : Frame) : Document := .node f.content f.inside.reverse

/-- The number of an open node is below the number of nodes. -/
theorem index_lt_count {fs : List Frame} (h : id ∈ ids fs) : id.index < count fs := by
  induction fs with
  | nil => cases h
  | cons f outer ih =>
    rw [count]
    rcases List.mem_cons.1 h with rfl | h
    · dsimp only; omega
    · exact Nat.lt_of_lt_of_le (ih h) (by omega)

end Frame

open Html.Document (countAll_reverse)

/-- The tree has open nodes, each inside the next one, and more children behind what is
in the innermost one. -/
def Raises (t : Tree) : List NodeId → List Frame → Prop
  | _, [] => True
  | more, f :: outer =>
    t.contentOf ⟨Frame.count outer⟩ = some f.content ∧
      t.childrenOf ⟨Frame.count outer⟩ =
        (numberAllFrom (Frame.count outer + 1) f.inside.reverse).map Numbered.top ++ more ∧
      t.HoldsAll (numberAllFrom (Frame.count outer + 1) f.inside.reverse) ∧
      t.Raises [⟨Frame.count outer⟩] outer

section

variable {f p : Frame} {fs outer : List Frame}

/-- Documents stay held as long as the contents and children of their nodes stay. -/
theorem HoldsAll.frame {k : Nat} {ds : List Document} (h : t.HoldsAll (numberAllFrom k ds))
    (hn : ∀ x : NodeId, k ≤ x.index → x.index < k + countAll ds → u.contentOf x = t.contentOf x)
    (hc : ∀ x : NodeId, k ≤ x.index → x.index < k + countAll ds →
      u.childrenOf x = t.childrenOf x) : u.HoldsAll (numberAllFrom k ds) := by
  refine holdsAll_iff.2 fun b hb => (holdsAll_iff.1 h b hb).frame (fun x hx => ?_) fun x hx => ?_
  all_goals
    obtain ⟨hle, hlt⟩ :=
      Numbered.mem_idsAll_numberAllFrom.1 (Numbered.mem_idsAll.2 ⟨b, hb, hx⟩)
  · exact hn x hle hlt
  · exact hc x hle hlt

/-- Documents in a row are held if they are on both sides. -/
theorem holdsAll_append {as bs : List Numbered} :
    t.HoldsAll (as ++ bs) ↔ t.HoldsAll as ∧ t.HoldsAll bs := by
  simp only [holdsAll_iff, List.forall_mem_append]

/-- The open nodes that are around stay as long as their nodes do. -/
theorem Raises.frame (h : t.Raises more fs)
    (hn : ∀ x : NodeId, x.index < Frame.count fs → u.contentOf x = t.contentOf x)
    (hc : ∀ x : NodeId, x.index < Frame.count fs → u.childrenOf x = t.childrenOf x) :
    u.Raises more fs := by
  induction fs generalizing more with
  | nil => trivial
  | cons f outer ih =>
    obtain ⟨hcontent, hchildren, hinside, houter⟩ := h
    rw [Frame.count] at hn hc
    refine ⟨?_, ?_, hinside.frame (fun x _ hx => hn x (by simpa using hx))
      fun x _ hx => hc x (by simpa using hx), ih houter (fun x hx => hn x ?_) fun x hx => hc x ?_⟩
    · rw [hn _ (by dsimp only; omega), hcontent]
    · rw [hc _ (by dsimp only; omega), hchildren]
    all_goals omega

/-- **Closing** the innermost node does not change the tree: it is the last document
inside the next one then. -/
theorem raises_close : t.Raises [] (⟨p.content, f.closed :: p.inside⟩ :: outer) ↔
    t.Raises [] (f :: p :: outer) := by
  have hnumber : numberAllFrom (Frame.count outer + 1) (f.closed :: p.inside).reverse =
      numberAllFrom (Frame.count outer + 1) p.inside.reverse ++
        [.node ⟨Frame.count (p :: outer)⟩ f.content
          (numberAllFrom (Frame.count (p :: outer) + 1) f.inside.reverse)] := by
    rw [List.reverse_cons, Numbered.numberAllFrom_append, countAll_reverse]
    rfl
  simp only [Raises, hnumber, holdsAll_append, HoldsAll, Holds, List.map_append, List.map_cons,
    List.map_nil, Numbered.top, List.append_nil]
  tauto

/-- Closing a node keeps the number of nodes. -/
theorem count_close :
    Frame.count (⟨p.content, f.closed :: p.inside⟩ :: outer) = Frame.count (f :: p :: outer) := by
  simp only [Frame.count, Frame.closed, countAll, count, countAll_reverse]
  omega

section

variable {ds rest : List Document} (hins : f.inside = .node n ds :: rest)

include hins

/-- What stands last in the innermost node can be opened again. -/
theorem Raises.reopen (hr : t.Raises [] (f :: outer)) :
    t.Raises [] (⟨n, ds.reverse⟩ :: ⟨f.content, rest⟩ :: outer) := by
  rw [← raises_close, Frame.closed, List.reverse_reverse, ← hins]
  exact hr

/-- Opening a node again keeps the number of nodes. -/
theorem count_reopen : Frame.count (⟨n, ds.reverse⟩ :: ⟨f.content, rest⟩ :: outer) =
    Frame.count (f :: outer) := by
  rw [← count_close, Frame.closed, List.reverse_reverse, ← hins]

end

/-- **A new node** in the innermost open one can be open itself. -/
theorem Extended.open (h : Extended t u ⟨Frame.count outer⟩ n)
    (hs : t.size = Frame.count (f :: outer)) (hr : t.Raises [] (f :: outer)) :
    u.Raises [] (⟨n, []⟩ :: f :: outer) := by
  have hlt : Frame.count outer < t.size := by rw [hs, Frame.count]; omega
  -- Only the innermost node gets a child, and only the new node a content.
  have hn : ∀ x : NodeId, x.index < t.size → u.contentOf x = t.contentOf x := fun x hx => by
    rw [h.content, if_neg]
    rintro rfl
    exact Nat.lt_irrefl _ hx
  have hc : ∀ x : NodeId, x.index ≠ Frame.count outer → u.childrenOf x = t.childrenOf x :=
    fun x hx => by
      rw [h.children, if_neg]
      rintro rfl
      exact hx rfl
  obtain ⟨hcontent, hchildren, hinside, houter⟩ := hr
  refine ⟨?_, ?_, trivial, ?_, ?_, ?_, ?_⟩
  · rw [← hs, h.content, if_pos rfl]
  · rw [← hs, hc ⟨t.size⟩ (Nat.ne_of_gt hlt), childrenOf_eq_nil t.not_has_size]
    rfl
  · rw [hn _ hlt, hcontent]
  · rw [h.children, if_pos rfl, hchildren, List.append_nil, hs]
  · refine hinside.frame (fun x _ hx => hn x ?_) fun x hle _ => hc x (Nat.ne_of_gt hle)
    rwa [countAll_reverse, ← Frame.count, ← hs] at hx
  · exact houter.frame (fun x hx => hn x (Nat.lt_trans hx hlt)) fun x hx => hc x (Nat.ne_of_lt hx)

/-- **Another content** of the innermost open node. -/
theorem Rewritten.raises (h : Rewritten t u ⟨Frame.count outer⟩ n) (hr : t.Raises [] (f :: outer)) :
    u.Raises [] (⟨n, f.inside⟩ :: outer) := by
  have hn : ∀ x : NodeId, x.index ≠ Frame.count outer → u.contentOf x = t.contentOf x :=
    fun x hx => by
      rw [h.content, if_neg]
      rintro rfl
      exact hx rfl
  obtain ⟨-, hchildren, hinside, houter⟩ := hr
  refine ⟨?_, (h.children _).trans hchildren, ?_, ?_⟩
  · rw [h.content, if_pos rfl]
  · exact hinside.frame (fun x hle _ => hn x (Nat.ne_of_gt hle)) fun x _ _ => h.children x
  · exact houter.frame (fun x hx => hn x (Nat.ne_of_lt hx)) fun x _ => h.children x

/-- A tree that raises only the root, and has no other nodes, is the tree of what is
inside the root. -/
theorem Raises.eq_ofDocuments {ds : List Document} (hw : t.WellFormed)
    (hr : t.Raises [] [⟨.fragment, ds.reverse⟩]) (hs : t.size = countAll ds + 1) :
    t = ofDocuments ds := by
  obtain ⟨hcontent, hchildren, hinside, -⟩ := hr
  rw [List.append_nil] at hchildren
  rw [List.reverse_reverse] at hchildren hinside
  have ht : t.Holds (numberFrom 0 (.node .fragment ds)) := ⟨hcontent, hchildren, hinside⟩
  have hd := ofDocuments_holds ds
  have hids : ∀ x, t.Has x → x ∈ (numberFrom 0 (.node .fragment ds)).ids := fun x hx =>
    Numbered.mem_ids_numberFrom.2 ⟨Nat.zero_le _, by rw [count]; rw [Has, hs] at hx; omega⟩
  have hsize : (ofDocuments ds).size = t.size := by
    rw [(ofDocuments_grown ds).size, hs]
    simp [countAll, count, size]
  have hviews : ∀ x, t.Has x → (ofDocuments ds).contentOf x = t.contentOf x ∧
      (ofDocuments ds).childrenOf x = t.childrenOf x := fun x hx => ht.same_views hd (hids x hx)
  exact (hw.ext_of_children (ofDocuments_wellFormed ds) hsize (fun x hx => (hviews x hx).1)
    fun x hx => (hviews x hx).2).symm

end

end Tree
end PageBinding
