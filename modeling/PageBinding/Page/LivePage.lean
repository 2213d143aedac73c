/-
# Pages that are filled

A live page is a page together with what has become of it: where the outputs of
its templates are, and which elements have data of their own.

An output that is meant for an element replaces what is in that.  Any other one
goes where the last output of its template is, and at first where the template
itself is.  So each template keeps its place, also when an output is empty: the
place then remembers what came after it.

What is replaced stays in the tree, detached, until the page is crowded with it.
Then the page is compacted, and the numbers kept here are replaced by the new
ones.
-/

import PageBinding.Keyed
import PageBinding.Page.Binding
import PageBinding.Page.Failure
import PageBinding.Tree.Compact
import PageBinding.Tree.Copy

namespace PageBinding
namespace Page

open Json (Value)

/-- Where the output of a template is. -/
structure Place where
  parent : NodeId
  nodes : List NodeId
  /-- What came after the nodes when they were put there. -/
  next : Option NodeId
  deriving DecidableEq, Repr

/-- The place with its nodes renumbered; `none` if its parent is gone. -/
def Place.renumber? (new : Renumbering) (p : Place) : Option Place :=
  (new.get? p.parent).map fun parent => ⟨parent, p.nodes.filterMap new.get?, p.next.bind new.get?⟩

/-- Data of an element, and the template that it fills. -/
structure OwnData where
  template : String
  data : Value

/-- A page, the places of its templates, and its elements with data. -/
structure LivePage where
  tree : Tree
  places : List (String × Place)
  ownData : List (NodeId × OwnData)

/-- How many detached nodes a page may have beyond twice its others. -/
def tolerance : Nat := 256

/-- What comes after the nodes of a place now. -/
def Place.after (tree : Tree) (p : Place) : Except Fault (Option NodeId) :=
  match p.nodes.getLast? with
  | none => return p.next
  | some last => tree.nextSibling last

/-- The tree with the nodes of a place replaced by copies of the top nodes of
another tree, and the place of those.  They are put in before the old ones are
detached, so that these mark where. -/
def Place.refill (tree : Tree) (p : Place) (content : Tree) : Except Fault (Tree × Place) := do
  let next ← p.after tree
  let (tree, nodes) ← tree.insertTreeBefore p.parent content (p.nodes.head?.or next)
  let tree ← tree.detachAll p.nodes
  let filled : Place := ⟨p.parent, nodes, next⟩
  return (tree, { filled with next := ← filled.after tree })

namespace LivePage

/-- A page to which nothing has happened yet. -/
def ofPage (page : Tree) : LivePage := ⟨page, [], []⟩

/-- The `template` element of a name: the first element of that name, if it is
one. -/
def templateElement? (p : LivePage) (name : String) : Except Fault (Option NodeId) := do
  let some id ← p.tree.findById? name | return none
  return if (← p.tree.element? id).any fun e => e.tag = Html.templateTag then some id else none

/-- The place of a template that has not been filled yet: the template itself. -/
def firstPlace (p : LivePage) (template : String) : Except Failure Place := do
  let some id ← p.templateElement? template | throw (.noPlace template)
  let some parent ← p.tree.parent id | throw (.notAttached template)
  return ⟨parent, [id], ← p.tree.nextSibling id⟩

/-- Where the output of a template goes. -/
def placeOf (p : LivePage) (template : String) : Except Failure Place :=
  match p.places.lookup template with
  | some place => return place
  | none => p.firstPlace template

/-- The page with an output put into the element of a selector, and its nodes. -/
def fillElement (p : LivePage) (selector : String) (content : Tree) :
    Except Failure (LivePage × List NodeId) := do
  let some id ← selected? p.tree selector | throw (.noTarget selector)
  let (tree, nodes) ← p.tree.replaceChildren id content
  return ({ p with tree := tree }, nodes)

/-- The page with an output put in the place of its template, and its nodes. -/
def fillPlace (p : LivePage) (template : String) (content : Tree) :
    Except Failure (LivePage × List NodeId) := do
  let place ← p.placeOf template
  let (tree, filled) ← place.refill p.tree content
  return ({ p with tree := tree, places := Keyed.set template filled p.places }, filled.nodes)

/-- The page with an output put where it belongs, and its nodes. -/
def fill (p : LivePage) (template : String) (target : Option String) (content : Tree) :
    Except Failure (LivePage × List NodeId) :=
  match target with
  | some selector => p.fillElement selector content
  | none => p.fillPlace template content

/-- The page compacted, and the new numbers of its nodes. -/
def compact (p : LivePage) : Except Fault (LivePage × Renumbering) := do
  let (tree, new) ← p.tree.compact
  return (
    { tree := tree
      places := p.places.filterMap fun (t, place) => (place.renumber? new).map (t, ·)
      ownData := p.ownData.filterMap fun (id, d) => (new.get? id).map (·, d) }, new)

/-- Whether detached nodes outweigh the others. -/
def isCrowded (p : LivePage) : Except Fault Bool :=
  return p.tree.size > 2 * (← p.tree.liveSize) + tolerance

/-- The page with an output put where it belongs, compacted if that crowds it,
and the nodes of the output. -/
def fillTidily (p : LivePage) (template : String) (target : Option String) (content : Tree) :
    Except Failure (LivePage × List NodeId) := do
  let (p, nodes) ← p.fill template target content
  if ← p.isCrowded then
    let (p, new) ← p.compact
    return (p, nodes.filterMap new.get?)
  else return (p, nodes)

/-- The page with data set on an element. -/
def setOwnData (p : LivePage) (id : NodeId) (d : OwnData) : LivePage :=
  { p with ownData := Keyed.set id d p.ownData }

end LivePage
end Page
end PageBinding
