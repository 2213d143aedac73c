/-
# Copies

A document is planted in a tree as new nodes, numbered in document order from
the next free number on.  To copy what is below a node, of the same tree or of
another one, is to read it there and to plant it here.
-/

import PageBinding.Tree.Links
import PageBinding.Tree.Reading

namespace PageBinding
namespace Tree

open Html (Document)

mutual

/-- The tree with a document planted under a parent that does not list it yet,
and the number of its top node. -/
def plantUnder (t : Tree) (parent : Option NodeId) : Document → Tree × NodeId
  | .node content children =>
    let id : NodeId := ⟨t.size⟩
    let (t, ids) := plantAll ⟨t.nodes.push ⟨content, parent, []⟩⟩ (some id) children
    (⟨t.nodes.modify id.index fun s => { s with children := ids }⟩, id)

/-- The tree with documents planted one after the other, and the numbers of
their top nodes. -/
def plantAll (t : Tree) (parent : Option NodeId) : List Document → Tree × List NodeId
  | [] => (t, [])
  | d :: ds =>
    let (t, id) := plantUnder t parent d
    let (t, ids) := plantAll t parent ds
    (t, id :: ids)

end

/-- The tree with a document planted in it, detached, and the number of its top
node. -/
def plant (t : Tree) (d : Document) : Tree × NodeId := t.plantUnder none d

/-- The tree of a root with some documents below it. -/
def ofDocuments (ds : List Document) : Tree := (plant ⟨#[]⟩ (.node .fragment ds)).1

/-- The tree with a detached copy of what is at a node of another one. -/
def importFrom (t other : Tree) (id : NodeId) : Except Fault (Tree × NodeId) :=
  return t.plant (← other.read id)

/-- The tree with a detached copy of what is at one of its nodes. -/
def clone (t : Tree) (id : NodeId) : Except Fault (Tree × NodeId) := do
  let d ← t.read id
  return t.plant d

/-- The tree with detached copies of nodes of another one. -/
def importAll (t other : Tree) : List NodeId → Except Fault (Tree × List NodeId)
  | [] => return (t, [])
  | id :: ids => do
    let (t, new) ← t.importFrom other id
    let (t, news) ← t.importAll other ids
    return (t, new :: news)

/-- The tree with copies of the top nodes of another one put in among the
children of a node, and their numbers. -/
def insertTreeBefore (t : Tree) (parent : NodeId) (other : Tree) (before : Option NodeId) :
    Except Fault (Tree × List NodeId) := do
  let (t, new) ← t.importAll other (← other.children root)
  return (← t.insertAllBefore parent new before, new)

/-- The tree with the children of a node replaced by copies of the top nodes of
another one, and the numbers of these. -/
def replaceChildren (t : Tree) (parent : NodeId) (other : Tree) :
    Except Fault (Tree × List NodeId) := do
  let t ← t.detachAll (← t.children parent)
  t.insertTreeBefore parent other none

end Tree
end PageBinding
