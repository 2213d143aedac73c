/-
# A tree built in place

The nodes of a document can be made and linked as its tokens come in.  Next to the
tree stands the list of the nodes that are open, the innermost one first; the last
one is the root.  A new node becomes the last child of the innermost open one.

| token | tree | open nodes |
| --- | --- | --- |
| start tag | a new element | it is one, unless it is void or closes itself |
| end tag | as before | without the innermost element of its name and all that are inside it |
| text | joins the last child if that is a text, or makes a new node | as before |
| comment | a new node | as before |
| doctype, mistake | as before | as before |

What is reported is what `ofTokens` reports.  If no node is open a token cannot be
taken; the root is no element, so no end tag closes it.
-/

import PageBinding.Tree.Links
import PageBinding.Tree.OfTokens

namespace PageBinding
namespace Tree

open Html (Node Token)

/-- The tree with a new node as the last child of another one, and its number. -/
def newChild (t : Tree) (parent : NodeId) (n : Node) : Except Fault (Tree × NodeId) := do
  let (t, id) := t.push n
  return (← t.appendChild parent id, id)

/-- The last child of a node and its text, if it is a text. -/
def lastText? (t : Tree) (parent : NodeId) : Except Fault (Option (NodeId × String)) := do
  match (← t.children parent).getLast? with
  | none => return none
  | some last => return (← t.content last).text?.map fun s => (last, s)

/-- The tree with a text at the end of a node, joined with the text before it. -/
def pushText (t : Tree) (parent : NodeId) (s : String) : Except Fault Tree := do
  match ← t.lastText? parent with
  | some (last, before) => t.setContent last (.text (before ++ s))
  | none => return (← t.newChild parent (.text s)).1

/-- The nodes that stay open once the first listed element of a name is closed, with
those listed before it; `none` if there is no such element. -/
def outside? (t : Tree) (tag : String) : List NodeId → Except Fault (Option (List NodeId))
  | [] => return none
  | id :: outer => do
    if (← t.element? id).any (·.tag = tag) then return some outer else t.outside? tag outer

/-- A tree in the making. -/
structure Scaffold where
  tree : Tree
  /-- The open nodes, the innermost one first and the root last. -/
  opened : List NodeId
  notices : Array Notice

namespace Scaffold

/-- An empty root, which is open. -/
def start : Scaffold := ⟨empty, [root], #[]⟩

/-- The innermost open node. -/
def current (s : Scaffold) : Except Fault NodeId :=
  match s.opened with
  | [] => throw .nothingOpen
  | id :: _ => return id

def report (s : Scaffold) (n : Notice) : Scaffold := { s with notices := s.notices.push n }

/-- The tree with one token more. -/
def add (s : Scaffold) (k : Token) : Except Fault Scaffold := do
  let current ← s.current
  match k with
  | .startTag e selfClosing =>
    let (t, id) ← s.tree.newChild current (.element e)
    return { s with
      tree := t
      opened := if Html.isVoid e.tag || selfClosing then s.opened else id :: s.opened }
  | .endTag tag =>
    match ← s.tree.outside? tag s.opened with
    | some outer => return { s with opened := outer }
    | none => return if Html.isVoid tag then s else s.report (.unmatchedEndTag tag)
  | .text w => return { s with tree := ← s.tree.pushText current w }
  | .comment w => return { s with tree := (← s.tree.newChild current (.comment w)).1 }
  | .doctype => return s
  | .mistake words => return s.report (.malformed words)

/-- The tree of some tokens, with what is open after the last one. -/
def build (ks : List Token) : Except Fault Scaffold := ks.foldlM add start

end Scaffold
end Tree
end PageBinding
