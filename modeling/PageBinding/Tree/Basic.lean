/-
# Trees of linked nodes

The nodes of a tree are numbered in the order in which they were made, the root
being number 0.  Each has a content, a parent unless it is the root or detached,
and its children in order.  A detached node stays where it is, with everything
below it, and can be put in again.

The links are kept twice, as parents and as children.  `WellFormed` says that
the two agree and that no node is above itself; every operation that succeeds on
nodes of the tree is meant to keep it.  An operation fails with a `Fault` when
it is given a number that no node has, or nodes that may not be linked.
-/

import PageBinding.Html.Basic

namespace PageBinding

open Html (Node Element)

/-- The number of a node in its tree. -/
structure NodeId where
  index : Nat
  deriving DecidableEq, Repr, Inhabited

/-- The name of a node in messages. -/
def NodeId.name (id : NodeId) : String := "NodeId(" ++ toString id.index ++ ")"

/-- A node with its links. -/
structure LinkedNode where
  content : Node
  parent : Option NodeId
  children : List NodeId
  deriving DecidableEq, Inhabited

/-- A tree, its nodes by number. -/
structure Tree where
  nodes : Array LinkedNode
  deriving DecidableEq

/-- Why an operation on a tree fails. -/
inductive Fault
  /-- The tree has no such node. -/
  | foreign (id : NodeId)
  /-- The node to put in still has a parent. -/
  | attached (id : NodeId)
  /-- The node would be its own child. -/
  | intoItself (id : NodeId)
  /-- The node is above itself. -/
  | cyclic (id : NodeId)
  /-- No node is open. -/
  | nothingOpen
  /-- A node is to be kept, and has been kept before. -/
  | keptBefore (id : NodeId)
  /-- There is nothing at a position of a table. -/
  | outOfTable (size index : Nat)
  deriving DecidableEq, Repr

/-- The words for a fault. -/
def Fault.message : Fault → String
  | .foreign id => "NodeId " ++ id.name ++ " does not belong to this tree"
  | .attached id => "node " ++ id.name ++ " is still attached"
  | .intoItself id =>
    "assertion `left != right` failed: can't insert a node into itself\n  left: " ++ id.name ++
      "\n right: " ++ id.name
  | .cyclic id => "node " ++ id.name ++ " is above itself"
  | .nothingOpen => "root is never popped"
  | .keptBefore _ => "each live node is visited once"
  | .outOfTable size index =>
    "index out of bounds: the len is " ++ toString size ++ " but the index is " ++ toString index

namespace Tree

/-- The number of nodes ever made, detached ones included. -/
def size (t : Tree) : Nat := t.nodes.size

/-- The root of every tree. -/
def root : NodeId := ⟨0⟩

/-- A tree of an empty root. -/
def empty : Tree := ⟨#[⟨.fragment, none, []⟩]⟩

instance : Inhabited Tree := ⟨empty⟩

/-- The node of a number, if there is one. -/
def node? (t : Tree) (id : NodeId) : Option LinkedNode := t.nodes[id.index]?

def node (t : Tree) (id : NodeId) : Except Fault LinkedNode :=
  match t.node? id with
  | some s => .ok s
  | none => .error (.foreign id)

def content (t : Tree) (id : NodeId) : Except Fault Node := return (← t.node id).content

def element? (t : Tree) (id : NodeId) : Except Fault (Option Element) :=
  return (← t.node id).content.element?

def parent (t : Tree) (id : NodeId) : Except Fault (Option NodeId) := return (← t.node id).parent

def children (t : Tree) (id : NodeId) : Except Fault (List NodeId) := return (← t.node id).children

/-- The tree with one node changed. -/
def modify (t : Tree) (id : NodeId) (f : LinkedNode → LinkedNode) : Except Fault Tree :=
  if id.index < t.size then .ok ⟨t.nodes.modify id.index f⟩ else .error (.foreign id)

/-- The tree with the content of a node replaced. -/
def setContent (t : Tree) (id : NodeId) (n : Node) : Except Fault Tree :=
  t.modify id fun s => { s with content := n }

/-- The tree with a new, detached node, and the number of that. -/
def push (t : Tree) (n : Node) : Tree × NodeId := (⟨t.nodes.push ⟨n, none, []⟩⟩, ⟨t.size⟩)

/-- The tree with a new node as the last child of a node. -/
def appendNew (t : Tree) (parent : NodeId) (n : Node) : Tree × NodeId :=
  (⟨(t.nodes.push ⟨n, some parent, []⟩).modify parent.index fun s =>
      { s with children := s.children ++ [⟨t.size⟩] }⟩, ⟨t.size⟩)

/-- A node pushed into the arena makes it longer by one. -/
@[simp] theorem size_push (t : Tree) (n : Node) : (t.push n).1.size = t.size + 1 := by
  simp [push, size]

/-- A node appended as a new child makes the arena longer by one. -/
@[simp] theorem size_appendNew (t : Tree) (p : NodeId) (n : Node) :
    (t.appendNew p n).1.size = t.size + 1 := by
  simp [appendNew, size]

/-- The parent of a node; `none` also where there is no node. -/
def parentOf (t : Tree) (id : NodeId) : Option NodeId := (t.node? id).bind LinkedNode.parent

/-- The children of a node; none where there is no node. -/
def childrenOf (t : Tree) (id : NodeId) : List NodeId := ((t.node? id).map LinkedNode.children).getD []

/-- One node is above another one. -/
inductive Above (t : Tree) : NodeId → NodeId → Prop
  | parent {a b : NodeId} : t.parentOf b = some a → Above t a b
  | step {a b c : NodeId} : Above t a b → t.parentOf c = some b → Above t a c

/-- **The links agree:** a node is a child of another one exactly if that is its
parent, no node is twice a child of one node, and no node is above itself. -/
structure WellFormed (t : Tree) : Prop where
  bounded : ∀ p c, c ∈ t.childrenOf p → c.index < t.size
  linked : ∀ p c, c ∈ t.childrenOf p ↔ t.parentOf c = some p
  nodup : ∀ p, (t.childrenOf p).Nodup
  acyclic : ∀ a, ¬ t.Above a a

end Tree
end PageBinding
