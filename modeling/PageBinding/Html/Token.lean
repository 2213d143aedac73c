/-
# Tokens

A document's text is a sequence of tags, comments, doctypes and the stretches of
text between them.  Tag and attribute names are in lower case; the attributes of
a start tag are sorted by name, and of attributes of one name the first counts.
A reader of texts may also put in what it found to be wrong with the text.
-/

import PageBinding.Html.Basic
import PageBinding.Named

namespace PageBinding
namespace Html

/-- A part of a document's text. -/
inductive Token
  | startTag (e : Element) (selfClosing : Bool)
  | endTag (name : String)
  | text (s : String)
  | comment (s : String)
  | doctype
  | mistake (words : String)
  deriving DecidableEq, Repr

/-- The first attribute of each name, by increasing name. -/
def firstByName (attributes : List Attribute) : List Attribute :=
  Named.sorted attributes.reverse

end Html
end PageBinding
