/-
# Writing documents as bytes

A document is written piece by piece behind what has been written before.  A text is gone
through byte by byte; what has not been written of it begins at a mark.

| the byte is that of | is written | the mark is set |
| --- | --- | --- |
| a special character | what is before it from the mark on, then its reference | behind it |
| another character, or is a part of one | nothing | nowhere |

In the end what is left from the mark on is written.  Bytes are cut out of the text by two
positions, and there is no cutting where these are in the wrong order or behind its end
(`OutOfRange`).
-/

import PageBinding.Html.Printer

namespace PageBinding
namespace Html

/-- Two positions between which there are no bytes. -/
structure OutOfRange where
  start : Nat
  stop : Nat
  deriving DecidableEq, Repr

/-- The bytes between two positions. -/
def slice (bytes : ByteArray) (start stop : Nat) : Except OutOfRange ByteArray :=
  if start ≤ stop ∧ stop ≤ bytes.size then .ok (bytes.extract start stop)
  else .error ⟨start, stop⟩

/-- The reference for the special character of a byte. -/
def referenceFor? (b : UInt8) : Option String :=
  if b = 0x26 then some "&amp;"
  else if b = 0x3c then some "&lt;"
  else if b = 0x3e then some "&gt;"
  else if b = 0x22 then some "&quot;"
  else if b = 0x27 then some "&#39;"
  else none

/-- What has been written, and the mark from which on the text has not been. -/
structure Writing where
  out : ByteArray
  mark : Nat

namespace Writing

/-- The writing once a byte of the text, which stands at the given position, is gone through. -/
def pass (bytes : ByteArray) (w : Writing) : UInt8 × Nat → Except OutOfRange Writing
  | (b, position) =>
    match referenceFor? b with
    | none => return w
    | some reference => do
      let before ← slice bytes w.mark position
      return ⟨w.out ++ before ++ reference.toByteArray, position + 1⟩

/-- What has been written once the rest of the text is, too. -/
def finish (bytes : ByteArray) (w : Writing) : Except OutOfRange ByteArray :=
  return w.out ++ (← slice bytes w.mark bytes.size)

end Writing

/-- What is written once a text is written with references. -/
def writeEscaped (s : String) (out : ByteArray) : Except OutOfRange ByteArray := do
  let bytes := s.toByteArray
  let w ← bytes.data.toList.zipIdx.foldlM (Writing.pass bytes) ⟨out, 0⟩
  w.finish bytes

/-- What is written once an attribute is written, with the blank before it. -/
def writeAttribute (out : ByteArray) (a : Attribute) : Except OutOfRange ByteArray := do
  let out ← writeEscaped a.2 (out ++ " ".toByteArray ++ a.1.toByteArray ++ "=\"".toByteArray)
  return out ++ "\"".toByteArray

/-- What is written once a start tag is written. -/
def writeStartTag (e : Element) (out : ByteArray) : Except OutOfRange ByteArray := do
  let out ← e.attributes.foldlM writeAttribute (out ++ "<".toByteArray ++ e.tag.toByteArray)
  return out ++ ">".toByteArray

namespace Document

mutual

/-- What is written once a document is written. -/
def write : Document → ByteArray → Except OutOfRange ByteArray
  | .node .fragment children, out => writeAll children out
  | .node (.element e) children, out => do
    let out ← writeStartTag e out
    if isVoid e.tag then return out
    else
      let out ← writeAll children out
      return out ++ "</".toByteArray ++ e.tag.toByteArray ++ ">".toByteArray
  | .node (.text s) _, out => writeEscaped s out
  | .node (.comment s) _, out =>
    return out ++ "<!--".toByteArray ++ s.toByteArray ++ "-->".toByteArray

/-- What is written once some documents are written, one after the other. -/
def writeAll : List Document → ByteArray → Except OutOfRange ByteArray
  | [], out => return out
  | d :: ds, out => do
    let out ← write d out
    writeAll ds out

end

/-- The bytes of a document read as a text; `none` if they are none. -/
def renderBytes (d : Document) : Except OutOfRange (Option String) :=
  return String.fromUTF8? (← d.write .empty)

end Document
end Html
end PageBinding
