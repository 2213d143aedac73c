/-
# Writing documents

Texts and attribute values are written with five characters replaced by
references, so that nothing in them can be read as markup:

| character | reference |
| --- | --- |
| `&` | `&amp;` |
| `<` | `&lt;` |
| `>` | `&gt;` |
| `"` | `&quot;` |
| `'` | `&#39;` |

A comment is written as it is.  A void element is written without content and
without an end tag.
-/

import PageBinding.Html.Basic

namespace PageBinding
namespace Html

/-- A character as it is written in a text. -/
def escapeChar (c : Char) : List Char :=
  if c = '&' then ['&', 'a', 'm', 'p', ';']
  else if c = '<' then ['&', 'l', 't', ';']
  else if c = '>' then ['&', 'g', 't', ';']
  else if c = '\"' then ['&', 'q', 'u', 'o', 't', ';']
  else if c = '\'' then ['&', '#', '3', '9', ';']
  else [c]

/-- A text with the special characters replaced by references. -/
def escape (s : List Char) : List Char := s.flatMap escapeChar

/-- Escaping works character by character, so it distributes over concatenation. -/
theorem escape_append (a b : List Char) : escape (a ++ b) = escape a ++ escape b :=
  List.flatMap_append

/-- An attribute with the blank before it. -/
def printAttribute (a : Attribute) : List Char :=
  ' ' :: (a.1.toList ++ '=' :: '\"' :: (escape a.2.toList ++ ['\"']))

/-- The start tag of an element. -/
def printStartTag (e : Element) : List Char :=
  '<' :: (e.tag.toList ++ e.attributes.flatMap printAttribute ++ ['>'])

/-- The end tag of an element. -/
def printEndTag (e : Element) : List Char := '<' :: '/' :: (e.tag.toList ++ ['>'])

namespace Document

mutual

/-- The text of a document. -/
def print : Document → List Char
  | .node .fragment children => printAll children
  | .node (.element e) children =>
    if isVoid e.tag then printStartTag e
    else printStartTag e ++ (printAll children ++ printEndTag e)
  | .node (.text s) _ => escape s.toList
  | .node (.comment s) _ => '<' :: '!' :: '-' :: '-' :: (s.toList ++ ['-', '-', '>'])

/-- The texts of some documents, one after the other. -/
def printAll : List Document → List Char
  | [] => []
  | d :: ds => print d ++ printAll ds

end

mutual

/-- The text of a document in front of another text.  Every character is written
once, however deep it is. -/
def printOnto : Document → List Char → List Char
  | .node .fragment children, rest => printAllOnto children rest
  | .node (.element e) children, rest =>
    if isVoid e.tag then printStartTag e ++ rest
    else printStartTag e ++ printAllOnto children (printEndTag e ++ rest)
  | .node (.text s) _, rest => escape s.toList ++ rest
  | .node (.comment s) _, rest => '<' :: '!' :: '-' :: '-' :: (s.toList ++ '-' :: '-' :: '>' :: rest)

/-- The texts of some documents in front of another text. -/
def printAllOnto : List Document → List Char → List Char
  | [], rest => rest
  | d :: ds, rest => printOnto d (printAllOnto ds rest)

end

mutual

/-- Printing onto a text is printing followed by that text. -/
theorem printOnto_eq : ∀ (d : Document) (rest : List Char), d.printOnto rest = d.print ++ rest
  | .node .fragment children, rest => by
    rw [printOnto, print, printAllOnto_eq children]
  | .node (.element e) children, rest => by
    rw [printOnto, print, printAllOnto_eq children]
    split <;> simp
  | .node (.text s) _, rest => by rw [printOnto, print]
  | .node (.comment s) _, rest => by simp [printOnto, print]

/-- Printing several documents onto a text is printing each of them followed by that text. -/
theorem printAllOnto_eq : ∀ (ds : List Document) (rest : List Char),
    printAllOnto ds rest = printAll ds ++ rest
  | [], rest => by simp [printAllOnto, printAll]
  | d :: ds, rest => by
    rw [printAllOnto, printAll, printOnto_eq d, printAllOnto_eq ds, List.append_assoc]

end

/-- The text of a document. -/
def render (d : Document) : String := String.ofList (d.printOnto [])

/-- The rendered string has the printed characters. -/
theorem toList_render (d : Document) : d.render.toList = d.print := by
  simp [render, printOnto_eq]

end Document
end Html
end PageBinding
