/-
# Where a text stops being data

A failed reading names the problem and the place: the line, counted from 1, and
how many bytes of that line had been taken.
-/

namespace PageBinding
namespace Json

/-- What is wrong with a text. -/
inductive Problem
  | endInValue
  | endInList
  | endInObject
  | endInString
  | expectedValue
  | expectedWord
  | expectedColon
  | expectedListEnd
  | expectedObjectEnd
  | trailingComma
  | trailingCharacters
  | keyNotString
  | invalidNumber
  | numberOutOfRange
  | invalidEscape
  | brokenSurrogatePair
  | loneSurrogate
  | controlCharacter
  | tooDeep
  deriving DecidableEq, Repr

/-- The words for a problem. -/
def Problem.text : Problem → String
  | .endInValue => "EOF while parsing a value"
  | .endInList => "EOF while parsing a list"
  | .endInObject => "EOF while parsing an object"
  | .endInString => "EOF while parsing a string"
  | .expectedValue => "expected value"
  | .expectedWord => "expected ident"
  | .expectedColon => "expected `:`"
  | .expectedListEnd => "expected `,` or `]`"
  | .expectedObjectEnd => "expected `,` or `\x7d`"
  | .trailingComma => "trailing comma"
  | .trailingCharacters => "trailing characters"
  | .keyNotString => "key must be a string"
  | .invalidNumber => "invalid number"
  | .numberOutOfRange => "number out of range"
  | .invalidEscape => "invalid escape"
  | .brokenSurrogatePair => "unexpected end of hex escape"
  | .loneSurrogate => "lone leading surrogate in hex escape"
  | .controlCharacter => "control character (\\u0000-\\u001F) found while parsing a string"
  | .tooDeep => "recursion limit exceeded"

/-- A failed reading. -/
structure ReadError where
  problem : Problem
  line : Nat
  column : Nat
  deriving DecidableEq, Repr

/-- The words for a failed reading. -/
def ReadError.message (e : ReadError) : String :=
  e.problem.text ++ " at line " ++ toString e.line ++ " column " ++ toString e.column

/-- How many bytes a text takes. -/
def byteCount (s : List Char) : Nat := s.foldl (fun n c => n + c.utf8Size) 0

/-- The line and the column after some bytes of a text, from a line and a
column.  A line feed ends its line; the bytes may end inside a character. -/
def advance : List Char → Nat → Nat × Nat → Nat × Nat
  | [], _, place => place
  | c :: r, bytes, (line, column) =>
    if bytes < c.utf8Size then (line, column + bytes)
    else advance r (bytes - c.utf8Size) (if c = '\n' then (line + 1, 0) else (line, column + c.utf8Size))

/-- The error for a problem found with `rest` left of a text, and `past` bytes
of the rest taken as well. -/
def ReadError.ofRest (text rest : List Char) (past : Nat) (problem : Problem) : ReadError :=
  let taken := byteCount text - byteCount rest + past
  let (line, column) := advance text taken (1, 0)
  ⟨problem, line, column⟩

end Json
end PageBinding
