/-
# Binding data into a tree

Data is bound into a node and what is below it, in place, by these rules.

1. An element with the `each` marker is replaced by one copy of itself per item
   of the list at its path, without its `each` and `if` markers; each copy is
   bound to its item.  If there is no list, the element is detached.
2. In a text and in attribute values the placeholders are replaced.  An element
   with the `if` marker then loses it, and is detached if what is at its path
   is untrue.
3. Otherwise the children are bound to the same data, those that were there when
   their turn began.

A comment stays as it is.  The copies are put where the element was, together
and after all of them are bound; a repeated element without a parent has no
place for them.

A node is bound only after its parent has been, or after one of its attributes
has been taken away, so the number of nodes and attributes bounds the depth of
the recursion (`Tree.weight`).
-/

import PageBinding.Json.Display
import PageBinding.Json.Path
import PageBinding.Notice
import PageBinding.Template.Markers
import PageBinding.Template.Placeholder
import PageBinding.Tree.Copy

namespace PageBinding

open Html (Node Element)
open Json (Value)

/-- The number of nodes and attributes of a tree. -/
def Tree.weight (t : Tree) : Nat :=
  t.nodes.foldl (fun n s => n + 1 + ((s.content.element?.map fun e => e.attributes.length).getD 0)) 1

namespace Template

/-- What a placeholder is replaced with. -/
def lookup (context : Value) (path : List Char) : List Char :=
  (Value.display? (context.resolve? (String.ofList path))).toList

/-- A text with its placeholders replaced. -/
def fillText (context : Value) (s : String) : String :=
  match substitute? s.toList (lookup context) with
  | some r => String.ofList r
  | none => s

/-- A content with the placeholders of its text or attribute values replaced. -/
def fillContent (context : Value) : Node → Node
  | .text s => .text (fillText context s)
  | .element e =>
    .element { e with attributes := e.attributes.map fun a => (a.1, fillText context a.2) }
  | n => n

/-- A content without its condition, and whether that holds. -/
def checkContent (m : Markers) (context : Value) : Node → Node × Bool
  | .element e =>
    match e.get? m.condition with
    | none => (.element e, true)
    | some path => (.element (e.remove m.condition), Json.truthy? (context.resolve? path))
  | n => (n, true)

/-- The path that an element is repeated over. -/
def repetition? (m : Markers) (n : Node) : Option String := n.element?.bind fun e => e.get? m.each

/-- The state of a render pass. -/
structure Pass where
  tree : Tree
  notices : Array Notice

namespace Pass

def report (p : Pass) (n : Notice) : Pass := { p with notices := p.notices.push n }

/-- The pass with its tree changed.  The pass is taken apart first, so that its
tree can be changed in place. -/
@[inline] def change (p : Pass) (f : Tree → Except Fault Tree) : Except Fault Pass :=
  match p with
  | ⟨tree, notices⟩ => do return ⟨← f tree, notices⟩

/-- The pass with a node copied, and the copy. -/
@[inline] def clone (p : Pass) (id : NodeId) : Except Fault (Pass × NodeId) :=
  match p with
  | ⟨tree, notices⟩ => do
    let (tree, copy) ← tree.clone id
    return (⟨tree, notices⟩, copy)

end Pass

/-- What a repetition has found where a list should be. -/
def noListAt (path : String) : Option Value → NoList
  | none => .undefined
  | some _ => if Json.isSelfPath path then .context else .otherValue

/-- The pass after copies of a node have been bound, one to each item, and the
copies. -/
def bindCopies (bind : Pass → NodeId → Value → Except Fault Pass) (model : NodeId) :
    Pass → List Value → Except Fault (Pass × List NodeId)
  | p, [] => return (p, [])
  | p, item :: items => do
    let (p, copy) ← p.clone model
    let p ← bind p copy item
    let (p, copies) ← bindCopies bind model p items
    return (p, copy :: copies)

/-- The pass with a node copied and stripped of what marks it as repeated, and
the copy. -/
def modelOf (m : Markers) (p : Pass) (id : NodeId) : Except Fault (Pass × NodeId) := do
  let (p, model) ← p.clone id
  match ← p.tree.element? model with
  | none => return (p, model)
  | some e =>
    let once := e.remove m.each
    let p ← p.change (·.setContent model (.element (once.remove m.condition)))
    match once.get? m.condition with
    | none => return (p, model)
    | some path => return (p.report (.ignoredCondition m.condition path m.each), model)

/-- The pass after an element has been repeated over the items of a list. -/
def repeatOver (m : Markers) (bind : Pass → NodeId → Value → Except Fault Pass) (p : Pass)
    (id : NodeId) (items : List Value) : Except Fault Pass := do
  let (p, model) ← modelOf m p id
  let parent? ← p.tree.parent id
  let next? ← p.tree.nextSibling id
  let p ← p.change (·.detach id)
  match parent? with
  | none => return p
  | some parent =>
    let (p, copies) ← bindCopies bind model p items
    p.change (·.insertAllBefore parent copies next?)

/-- The pass after data has been bound into a node, in a recursion of at most
the given depth. -/
def bindWithin (m : Markers) : Nat → Pass → NodeId → Value → Except Fault Pass
  | 0, _, id, _ => throw (.cyclic id)
  | depth + 1, p, id, context => do
    let content ← p.tree.content id
    match repetition? m content with
    | some path =>
      match context.resolve? path with
      | some (.array items) => repeatOver m (bindWithin m depth) p id items
      | found =>
        (p.report (.nothingToRepeat m.each path (noListAt path found))).change (·.detach id)
    | none =>
      let (content, holds) := checkContent m context (fillContent context content)
      let p ← p.change (·.setContent id content)
      if holds then
        (← p.tree.children id).foldlM (fun p child => bindWithin m depth p child context) p
      else p.change (·.detach id)

/-- The tree with data bound into a node, and what there is to report. -/
def bindAt (t : Tree) (id : NodeId) (context : Value) (m : Markers) :
    Except Fault (Tree × Array Notice) := do
  let p ← bindWithin m (t.weight + 1) ⟨t, #[]⟩ id context
  return (p.tree, p.notices)

/-- A template bound to data, and what there is to report.  The template is a
value and stays as it is. -/
def render (template : Tree) (context : Value) (m : Markers) : Except Fault (Tree × Array Notice) :=
  bindAt template Tree.root context m

end Template
end PageBinding
