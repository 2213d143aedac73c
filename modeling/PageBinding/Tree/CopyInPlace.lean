/-
# Copies made in place

A copy can be made node by node, in the tree that it grows in.  The new node is made
first, detached and without children.  Then each child is copied in the same way; its
copy gets the new node as its parent and becomes the last of its children.

| copy | is read in |
| --- | --- |
| `cloneInPlace` | the tree itself, which has the copies made so far by then |
| `importInPlace` | another tree |
| `gather` | another tree, child by child; each copy is appended to the root |

In a well-formed tree no node is below itself, so the number of nodes bounds the depth
of the recursion.
-/

import PageBinding.Tree.Links

namespace PageBinding
namespace Tree

/-- The tree with a node copied by a step, and the copy linked as the last child of
another one. -/
def copyBelow (copyOne : Tree → NodeId → Except Fault (Tree × NodeId)) (parent : NodeId) (t : Tree)
    (child : NodeId) : Except Fault Tree := do
  let (t, copy) ← copyOne t child
  let t ← t.modify copy fun s => { s with parent := some parent }
  t.modify parent fun s => { s with children := s.children ++ [copy] }

/-- The tree with a copy of what is at one of its nodes, of at most the given depth. -/
def cloneWithin : Nat → Tree → NodeId → Except Fault (Tree × NodeId)
  | 0, _, id => throw (.cyclic id)
  | depth + 1, t, id => do
    let (t, copy) := t.push (← t.content id)
    return (← (← t.children id).foldlM (copyBelow (cloneWithin depth) copy) t, copy)

/-- The tree with a copy of what is at a node of another one, of at most the given depth. -/
def importWithin (other : Tree) : Nat → Tree → NodeId → Except Fault (Tree × NodeId)
  | 0, _, id => throw (.cyclic id)
  | depth + 1, t, id => do
    let (t, copy) := t.push (← other.content id)
    return (← (← other.children id).foldlM (copyBelow (importWithin other depth) copy) t, copy)

/-- The tree with a detached copy of what is at one of its nodes, made in place. -/
def cloneInPlace (t : Tree) (id : NodeId) : Except Fault (Tree × NodeId) :=
  cloneWithin (t.size + 1) t id

/-- The tree with a detached copy of what is at a node of another one, made in place. -/
def importInPlace (t other : Tree) (id : NodeId) : Except Fault (Tree × NodeId) :=
  importWithin other (other.size + 1) t id

/-- The tree with a copy of what is at a node of another one appended to the root. -/
def appendCopy (other t : Tree) (id : NodeId) : Except Fault Tree := do
  let (t, copy) ← t.importInPlace other id
  t.appendChild root copy

/-- A tree of copies of what is below a node of another one. -/
def gather (other : Tree) (id : NodeId) : Except Fault Tree := do
  (← other.children id).foldlM (appendCopy other) empty

end Tree
end PageBinding
