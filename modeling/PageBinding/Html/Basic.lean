/-
# Elements and documents

The content of a node is an element with its attributes, a text or a comment;
a fragment holds other nodes and has no text of its own.  A document is a node
with the documents below it.

| operation on attributes | effect |
| --- | --- |
| `Element.get?` | the first attribute of the name |
| `Element.set` | a new value in the place of the first one, or a new attribute at the end |
| `Element.remove` | without the first attribute of the name |
-/

namespace PageBinding
namespace Html

/-- A name and its value. -/
abbrev Attribute := String × String

/-- An element: its tag name and its attributes in order. -/
structure Element where
  tag : String
  attributes : List Attribute
  deriving DecidableEq, Repr

namespace Element

/-- The value of the first attribute of the name. -/
def get? (e : Element) (name : String) : Option String :=
  (e.attributes.find? fun a => a.1 = name).map Prod.snd

/-- The attributes with the first one of the name given a value. -/
def setIn (name v : String) : List Attribute → List Attribute
  | [] => [(name, v)]
  | (k, w) :: r => if k = name then (k, v) :: r else (k, w) :: setIn name v r

/-- The element with an attribute given a value: in its place if it has one,
otherwise as the last one. -/
def set (e : Element) (name v : String) : Element := { e with attributes := setIn name v e.attributes }

/-- The element without its first attribute of the name. -/
def remove (e : Element) (name : String) : Element :=
  { e with attributes := e.attributes.eraseP fun a => a.1 = name }

end Element

/-- What a node holds. -/
inductive Node
  | fragment
  | element (e : Element)
  | text (s : String)
  | comment (s : String)
  deriving DecidableEq, Repr

namespace Node

instance : Inhabited Node := ⟨.fragment⟩

/-- The element, if the node is one. -/
def element? : Node → Option Element
  | .element e => some e
  | _ => none

/-- The text, if the node is one. -/
def text? : Node → Option String
  | .text s => some s
  | _ => none

end Node

/-- A node with everything below it. -/
inductive Document
  | node (content : Node) (children : List Document)

instance : Inhabited Document := ⟨.node .fragment []⟩

mutual

/-- Documents are compared node by node. -/
def Document.decEq : (d e : Document) → Decidable (d = e)
  | .node n ds, .node m es =>
    have := Document.decEqAll ds es
    decidable_of_iff (n = m ∧ ds = es) (by rw [Document.node.injEq])

/-- Lists of documents are compared one by one. -/
def Document.decEqAll : (ds es : List Document) → Decidable (ds = es)
  | [], [] => isTrue rfl
  | [], _ :: _ => isFalse nofun
  | _ :: _, [] => isFalse nofun
  | d :: ds, e :: es =>
    have := Document.decEq d e
    have := Document.decEqAll ds es
    decidable_of_iff (d = e ∧ ds = es) (by rw [List.cons.injEq])

end

instance : DecidableEq Document := Document.decEq

/-- The elements that take no content and are written without an end tag. -/
def voidElements : List String :=
  ["area", "base", "br", "col", "embed", "hr", "img", "input", "link", "meta", "source", "track",
    "wbr"]

def isVoid (tag : String) : Bool := voidElements.contains tag

/-- The element whose content is a template. -/
def templateTag : String := "template"

end Html
end PageBinding
