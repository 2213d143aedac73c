/-
# The templates of a page

A page holds templates: the contents of its `template` elements with an `id`.
Only outermost `template` elements count; what is inside one is its content.  Of
templates of one name the first in document order is taken.

A template is a tree of its own, so filling it changes neither the page nor the
template.

| collecting | takes up a template |
| --- | --- |
| `ofPage` | when all of them are found |
| `ofPageOnStack` | when the walk comes to it; the nodes to be visited are on a stack |
-/

import PageBinding.Named
import PageBinding.Template.Rendering
import PageBinding.Tree.Walk

namespace PageBinding
namespace Template

open Json (Value)

/-- Templates by name, and the markers they are written with. -/
structure Collection where
  markers : Markers
  templates : List (String × Tree)

/-- Whether a node is a `template` element. -/
def isTemplate (page : Tree) (id : NodeId) : Except Fault Bool :=
  return (← page.element? id).any fun e => e.tag = Html.templateTag

/-- The outermost `template` elements among the listed nodes and those below
them, in document order, in at most the given number of steps. -/
def outermostTemplates (page : Tree) : Nat → List NodeId → Except Fault (List NodeId)
  | _, [] => return []
  | 0, id :: _ => throw (.cyclic id)
  | steps + 1, id :: pending => do
    if ← isTemplate page id then return id :: (← outermostTemplates page steps pending)
    else outermostTemplates page steps ((← page.children id) ++ pending)

/-- The content of an element as a tree of its own. -/
def contentOf (page : Tree) (id : NodeId) : Except Fault Tree := do
  return .ofDocuments (← (← page.children id).mapM page.read)

namespace Collection

/-- No templates. -/
def empty (m : Markers) : Collection := ⟨m, []⟩

/-- The template of a name. -/
def get? (c : Collection) (name : String) : Option Tree := c.templates.lookup name

def contains (c : Collection) (name : String) : Bool := (c.get? name).isSome

/-- The templates with the content of an element, which is named by its `id`, if
it has one that is not taken. -/
def add (page : Tree) (c : Collection) (id : NodeId) : Except Fault Collection := do
  match (← page.element? id).bind fun e => e.get? "id" with
  | none => return c
  | some name =>
    if c.contains name then return c
    else return { c with templates := c.templates ++ [(name, ← contentOf page id)] }

/-- The templates of a page. -/
def ofPage (page : Tree) (m : Markers) : Except Fault Collection := do
  let ids ← outermostTemplates page page.size (← page.children Tree.root)
  ids.foldlM (add page) (empty m)

/-- The templates with those taken up at the nodes on a stack, of which the last one is
the next, and below them, in at most the given number of steps. -/
def takeUp (page : Tree) : Nat → Array NodeId → Collection → Except Fault Collection
  | 0, stack, c =>
    match stack.back? with
    | none => return c
    | some id => throw (.cyclic id)
  | steps + 1, stack, c =>
    match stack.back? with
    | none => return c
    | some id => do
      if ← isTemplate page id then takeUp page steps stack.pop (← add page c id)
      else takeUp page steps (stack.pop ++ (← page.children id).reverse) c

/-- The templates of a page, taken up as the walk comes to them. -/
def ofPageOnStack (page : Tree) (m : Markers) : Except Fault Collection := do
  takeUp page page.size (← page.children Tree.root).reverse.toArray (empty m)

/-- The names of the templates, increasing. -/
def names (c : Collection) : List String := (Named.sorted c.templates).map Prod.fst

/-- The template of a name bound to data, and what there is to report; `none` if
there is no such template. -/
def render? (c : Collection) (name : String) (context : Value) :
    Except Fault (Option (Tree × Array Notice)) :=
  match c.get? name with
  | none => return none
  | some template => return some (← Template.render template context c.markers)

end Collection
end Template
end PageBinding
