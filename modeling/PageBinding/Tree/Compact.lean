/-
# Compaction

Detached nodes stay in their tree until it is compacted.  That keeps the nodes
that the root leads to and numbers them anew, in document order from the root
on.  The renumbering says what became of each of the old numbers.

Each node is taken out of the old tree as it is kept.  One that the order has
twice is not there any more the second time, and that is a fault.
-/

import PageBinding.Tree.Walk

namespace PageBinding

/-- The new number of each old one; `none` for a node that was dropped. -/
structure Renumbering where
  table : Array (Option NodeId)

namespace Renumbering

/-- The new number of a node; `none` also for a number that no node had. -/
def get? (r : Renumbering) (id : NodeId) : Option NodeId := (r.table[id.index]?).join

/-- The new number of a node; there has to be an entry for it. -/
def entry (r : Renumbering) (id : NodeId) : Except Fault (Option NodeId) :=
  match r.table[id.index]? with
  | some new => .ok new
  | none => .error (.outOfTable r.table.size id.index)

/-- The renumbering that numbers the listed ones of some nodes in the order of
the list. -/
def ofOrder (size : Nat) (order : List NodeId) : Renumbering :=
  ⟨(order.zipIdx).foldl (fun table (id, new) => table.setIfInBounds id.index (some ⟨new⟩))
    (Array.replicate size none)⟩

end Renumbering

/-- A node with the new numbers in its links.  Links to nodes that have none go. -/
def LinkedNode.renumber (s : LinkedNode) (new : Renumbering) : Except Fault LinkedNode := do
  let parent ← match s.parent with
    | none => pure none
    | some p => new.entry p
  let children ← s.children.mapM new.entry
  return { s with parent := parent, children := children.filterMap id }

namespace Tree

/-- The nodes that have not been kept yet, at their numbers, and those that have been, once
another one is.  No node can be kept twice. -/
def keep (new : Renumbering) :
    Array (Option LinkedNode) × Array LinkedNode → NodeId →
      Except Fault (Array (Option LinkedNode) × Array LinkedNode)
  | (left, kept), id =>
    match left[id.index]? with
    | none => throw (.outOfTable left.size id.index)
    | some none => throw (.keptBefore id)
    | some (some s) => do
      let s ← s.renumber new
      return (left.setIfInBounds id.index none, kept.push s)

/-- The tree with only the nodes that the root leads to, and their new numbers. -/
def compact (t : Tree) : Except Fault (Tree × Renumbering) := do
  let order := root :: (← t.descendants root)
  let new := Renumbering.ofOrder t.size order
  let (_, kept) ← order.foldlM (keep new) (t.nodes.map some, #[])
  return (⟨kept⟩, new)

end Tree
end PageBinding
