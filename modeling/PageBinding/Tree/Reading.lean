/-
# The document at a node

What a tree shows at a node is the document made of the contents of that node
and of those below it, without their numbers.
-/

import PageBinding.Html.Printer
import PageBinding.Tree.Basic

namespace PageBinding
namespace Tree

open Html (Document)

/-- The document at a node of at most the given depth. -/
def readWithin (t : Tree) : Nat → NodeId → Except Fault Document
  | 0, id => throw (.cyclic id)
  | depth + 1, id => do
    let s ← t.node id
    return .node s.content (← s.children.mapM (t.readWithin depth))

/-- The document at a node. -/
def read (t : Tree) (id : NodeId) : Except Fault Document := t.readWithin (t.size + 1) id

/-- The text of the document at a node. -/
def htmlAt (t : Tree) (id : NodeId) : Except Fault String := return (← t.read id).render

/-- The text of the whole tree. -/
def html (t : Tree) : Except Fault String := t.htmlAt root

end Tree
end PageBinding
