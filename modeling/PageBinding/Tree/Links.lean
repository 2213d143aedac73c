/-
# Linking nodes

Nodes are detached from their parents and put in among the children of others.
The place is named by the child that is to follow (`splice`); where that is no
child, or none is named, the place is the end.

| operation | effect |
| --- | --- |
| `detach` | the node leaves its parent |
| `detachAll` | the nodes leave their parents, each parent's children being looked through once |
| `insertBefore` | the node leaves its parent and is put in |
| `insertAllBefore` | detached nodes are put in together |
-/

import PageBinding.Tree.Basic

namespace PageBinding
namespace Tree

/-- The list with others put in before the first occurrence of one of its
members, or at the end. -/
def splice (before : Option NodeId) (new children : List NodeId) : List NodeId :=
  match before with
  | none => children ++ new
  | some b => children.takeWhile (· ≠ b) ++ new ++ children.dropWhile (· ≠ b)

/-- Before a sibling that is no child the new nodes go to the end. -/
theorem splice_of_notMem {b : NodeId} {new children : List NodeId} (h : b ∉ children) :
    splice (some b) new children = children ++ new := by
  induction children with
  | nil => simp [splice]
  | cons c cs ih =>
    simp only [List.mem_cons, not_or] at h
    simpa [splice, List.takeWhile_cons, List.dropWhile_cons, Ne.symm h.1] using ih h.2

/-- The member that follows another one. -/
def follower? (id : NodeId) (siblings : List NodeId) : Option NodeId :=
  (siblings.dropWhile (· ≠ id))[1]?

/-- The sibling that follows a node. -/
def nextSibling (t : Tree) (id : NodeId) : Except Fault (Option NodeId) := do
  match ← t.parent id with
  | none => return none
  | some p => return follower? id (← t.children p)

/-- The tree with a node detached from its parent, if it has one. -/
def detach (t : Tree) (id : NodeId) : Except Fault Tree := do
  match ← t.parent id with
  | none => return t
  | some p =>
    let t ← t.modify id fun s => { s with parent := none }
    t.modify p fun s => { s with children := s.children.filter (· ≠ id) }

/-- The tree with a node moved to the children of another one, before one of
them or to the end. -/
def insertBefore (t : Tree) (parent child : NodeId) (before : Option NodeId) :
    Except Fault Tree := do
  if parent = child then throw (.intoItself parent)
  let t ← t.detach child
  let t ← t.modify parent fun s => { s with children := splice before [child] s.children }
  t.modify child fun s => { s with parent := some parent }

/-- The tree with a node moved to the end of the children of another one. -/
def appendChild (t : Tree) (parent child : NodeId) : Except Fault Tree :=
  t.insertBefore parent child none

/-- The tree with the parent of a detached node set. -/
def adopt (parent : NodeId) (t : Tree) (child : NodeId) : Except Fault Tree := do
  if parent = child then throw (.intoItself parent)
  if (← t.parent child).isSome then throw (.attached child)
  t.modify child fun s => { s with parent := some parent }

/-- The tree with detached nodes put in together among the children of a node,
before one of them or at the end. -/
def insertAllBefore (t : Tree) (parent : NodeId) (new : List NodeId) (before : Option NodeId) :
    Except Fault Tree := do
  let t ← new.foldlM (adopt parent) t
  t.modify parent fun s => { s with children := splice before new s.children }

/-- The tree without the parent of a node, and the parents that have lost a
child so far. -/
def orphan (state : Tree × List NodeId) (id : NodeId) : Except Fault (Tree × List NodeId) := do
  let (t, parents) := state
  match ← t.parent id with
  | none => return state
  | some p =>
    return (← t.modify id fun s => { s with parent := none },
      if p ∈ parents then parents else p :: parents)

/-- The tree with the children of a node reduced to those that have it as their
parent. -/
def sweep (t : Tree) (p : NodeId) : Except Fault Tree := do
  let kept ← (← t.children p).filterM fun c => return (← t.parent c) = some p
  t.modify p fun s => { s with children := kept }

/-- The tree with nodes detached from their parents. -/
def detachAll (t : Tree) (ids : List NodeId) : Except Fault Tree := do
  let (t, parents) ← ids.foldlM orphan (t, [])
  parents.foldlM sweep t

end Tree
end PageBinding
