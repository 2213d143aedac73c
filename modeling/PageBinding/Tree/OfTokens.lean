/-
# The tree of a text

Tokens are put into a document one after the other.  The elements that are open
form a list, the innermost one first; a new node becomes the last child of the
innermost one, or stands at the top.

| token | effect |
| --- | --- |
| start tag | a new element, which is open from then on unless it is void or closes itself |
| end tag | closes the innermost open element of its name and all that are inside it |
| text | is added to the text before it, or makes a new node |
| comment | a new node |
| doctype | nothing |
| mistake | is reported |

An end tag that closes nothing is reported, unless it names a void element.
What is open at the end is closed then.  The nodes of the tree are numbered in
document order, which is the order of the tokens that made them.
-/

import PageBinding.Html.Tokenizer
import PageBinding.Notice
import PageBinding.Tree.Copy

namespace PageBinding
namespace Tree

open Html (Document Element Token)

/-- An open element with what is in it so far, the last first. -/
structure OpenElement where
  element : Element
  inside : List Document

/-- The element once it is closed. -/
def OpenElement.closed (o : OpenElement) : Document := .node (.element o.element) o.inside.reverse

/-- Documents, the last first, with a text behind them. -/
def withText (s : String) : List Document → List Document
  | .node (.text before) below :: r => .node (.text (before ++ s)) below :: r
  | ds => .node (.text s) [] :: ds

/-- A document in the making. -/
structure Growing where
  /-- What stands at the top and is closed, the last first. -/
  top : List Document
  /-- The open elements, the innermost one first. -/
  openElements : List OpenElement
  notices : Array Notice

namespace Growing

/-- Nothing so far. -/
def start : Growing := ⟨[], [], #[]⟩

/-- The document with what is innermost changed. -/
def change (f : List Document → List Document) : Growing → Growing
  | ⟨top, [], notices⟩ => ⟨f top, [], notices⟩
  | ⟨top, ⟨e, inside⟩ :: outer, notices⟩ => ⟨top, ⟨e, f inside⟩ :: outer, notices⟩

/-- The document with another node at the end of what is innermost. -/
def append (g : Growing) (d : Document) : Growing := g.change (d :: ·)

/-- The document with so many elements closed, from the innermost one on. -/
def close : Nat → Growing → Growing
  | 0, g => g
  | _ + 1, ⟨top, [], notices⟩ => ⟨top, [], notices⟩
  | n + 1, ⟨top, o :: outer, notices⟩ => close n (append ⟨top, outer, notices⟩ o.closed)

/-- The document with one token more. -/
def add (g : Growing) : Token → Growing
  | .startTag e selfClosing =>
    if Html.isVoid e.tag || selfClosing then g.append (.node (.element e) [])
    else { g with openElements := ⟨e, []⟩ :: g.openElements }
  | .endTag tag =>
    match g.openElements.findIdx? (·.element.tag = tag) with
    | some inside => g.close (inside + 1)
    | none =>
      if Html.isVoid tag then g else { g with notices := g.notices.push (.unmatchedEndTag tag) }
  | .text s => g.change (withText s)
  | .comment s => g.append (.node (.comment s) [])
  | .doctype => g
  | .mistake words => { g with notices := g.notices.push (.malformed words) }

/-- What stands at the top once everything is closed. -/
def finish (g : Growing) : List Document := (g.close g.openElements.length).top.reverse

end Growing

/-- The documents of some tokens, and what there is to report. -/
def documentsOf (tokens : List Token) : List Document × Array Notice :=
  let g := tokens.foldl Growing.add .start
  (g.finish, g.notices)

/-- The tree of some tokens, and what there is to report. -/
def ofTokens (tokens : List Token) : Tree × Array Notice :=
  let (documents, notices) := documentsOf tokens
  (ofDocuments documents, notices)

/-- The tree of a text, and what there is to report. -/
def ofHtml (text : String) : Tree × Array Notice := ofTokens (Html.tokens text)

end Tree
end PageBinding
