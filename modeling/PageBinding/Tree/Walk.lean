/-
# Walking through a tree

The nodes below a node are visited in document order: each node before its
children, and these from the first to the last.  The walk keeps the nodes still
to be visited in a list, the next one first.  In a well-formed tree it visits no
node twice, so the number of nodes bounds its steps.
-/

import PageBinding.Tree.Basic

namespace PageBinding
namespace Tree

/-- The listed nodes and those below them, in document order, in at most the
given number of steps. -/
def walk (t : Tree) : Nat → List NodeId → Except Fault (List NodeId)
  | _, [] => return []
  | 0, id :: _ => throw (.cyclic id)
  | steps + 1, id :: pending => do
    let below ← t.children id
    return id :: (← t.walk steps (below ++ pending))

/-- The nodes below a node, in document order. -/
def descendants (t : Tree) (id : NodeId) : Except Fault (List NodeId) := do
  t.walk t.size (← t.children id)

/-- A node and those above it, from the bottom to the top, in at most the given
number of steps. -/
def climb (t : Tree) : Nat → NodeId → Except Fault (List NodeId)
  | 0, id => throw (.cyclic id)
  | steps + 1, id => do
    match ← t.parent id with
    | none => return [id]
    | some p => return id :: (← t.climb steps p)

/-- A node and those above it, from the bottom to the top. -/
def ancestorsOrSelf (t : Tree) (id : NodeId) : Except Fault (List NodeId) := t.climb (t.size + 1) id

/-- The first node of a list with a property. -/
def firstWith? (p : NodeId → Except Fault Bool) : List NodeId → Except Fault (Option NodeId)
  | [] => return none
  | id :: ids => do if ← p id then return some id else firstWith? p ids

/-- Whether a node is an element with the given `id` attribute. -/
def hasId (t : Tree) (name : String) (id : NodeId) : Except Fault Bool := do
  match ← t.element? id with
  | none => return false
  | some e => return e.get? "id" = some name

/-- The first element below the root, in document order, with the given `id`
attribute. -/
def findById? (t : Tree) (name : String) : Except Fault (Option NodeId) := do
  firstWith? (t.hasId name) (← t.descendants root)

/-- The text of a text node, and nothing for other nodes. -/
def ownText (t : Tree) (id : NodeId) : Except Fault String := return (← t.content id).text?.getD ""

/-- The texts in and below a node, one after the other. -/
def textContent (t : Tree) (id : NodeId) : Except Fault String := do
  let own ← t.ownText id
  let below ← (← t.descendants id).mapM t.ownText
  return own ++ String.join below

/-- The number of nodes that the root leads to, itself included. -/
def liveSize (t : Tree) : Except Fault Nat := return (← t.descendants root).length + 1

end Tree
end PageBinding
