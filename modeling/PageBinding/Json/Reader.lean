/-
# Reading data

A reader takes a value from the front of a text and leaves the rest.  Lists and
objects are read by one rule for bracketed sequences (`sequence`); at most 127
of them may be open at a time, so the reader of a nested value is defined by
recursion on how many more may be opened (`value`).  The members of an object
come out sorted by name, and of members of one name the last is kept.

The digits of a number make up a coefficient of 64 bits and a power of ten, and
these are put together in steps (`Binary64.ofParts?`).
-/

import PageBinding.Decimal.Stepwise
import PageBinding.Json.Problem
import PageBinding.Json.Value

namespace PageBinding
namespace Json

open Decimal (Binary64)

/-- A problem, what was left of the text, and how many bytes of that count as
taken. -/
structure Reader.Failure where
  problem : Problem
  rest : List Char
  past : Nat

/-- Takes something from the front of a text. -/
abbrev Reader (α : Type) := List Char → Except Reader.Failure (α × List Char)

namespace Reader

/-- A problem at the end of the text. -/
def atEnd {α : Type} (p : Problem) : Except Failure α := .error ⟨p, [], 0⟩

/-- A problem with what has been taken. -/
def before {α : Type} (p : Problem) (rest : List Char) : Except Failure α := .error ⟨p, rest, 0⟩

/-- A problem with the next byte. -/
def atNext {α : Type} (p : Problem) (rest : List Char) : Except Failure α := .error ⟨p, rest, 1⟩

/-- White space between the parts of a text. -/
def isSpace (c : Char) : Bool := c = ' ' || c = '\n' || c = '\t' || c = '\r'

def skipSpace (s : List Char) : List Char := s.dropWhile isSpace

/-- The rest of a word whose first letter has been taken. -/
def word {α : Type} (v : α) : List Char → Reader α
  | [], s => .ok (v, s)
  | _ :: _, [] => atEnd .endInValue
  | w :: ws, c :: s => if c = w then word v ws s else atNext .expectedWord (c :: s)

/-! ## Numbers -/

/-- The number written by some digits. -/
def ofDigits (ds : List Char) : Nat := ds.foldl (fun n c => 10 * n + (c.toNat - 48)) 0

/-- The largest coefficient. -/
def coefficientLimit : Nat := 0xffffffffffffffff

/-- A coefficient continued by digits while it stays within the limit, and the
digits from the first one on that would take it further. -/
def continued (n : Nat) : List Char → Nat × List Char
  | [] => (n, [])
  | c :: r =>
    let m := 10 * n + (c.toNat - 48)
    if m > coefficientLimit then (n, c :: r) else continued m r

/-- The largest exponent that is read to its end. -/
def exponentLimit : Nat := 2147483647

/-- What follows the first digit that takes a number over the limit. -/
def overLimit? (n : Nat) : List Char → Option (List Char)
  | [] => none
  | c :: r =>
    if c.isDigit then
      let n := 10 * n + (c.toNat - 48)
      if n > exponentLimit then some r else overLimit? n r
    else none

/-- The number of a coefficient and a power, once its last digit has been taken. -/
def finish (negative : Bool) (coefficient : Nat) (power : Int) : Reader Binary64 := fun s =>
  match Binary64.ofParts? negative coefficient power with
  | some x => .ok (x, s)
  | none => before .numberOutOfRange s

/-- The exponent of a number, if it has one. -/
def exponentPart (negative : Bool) (coefficient : Nat) (power : Int) : Reader Binary64
  | [] => finish negative coefficient power []
  | c :: r =>
    if c = 'e' || c = 'E' then
      let (down, r) := match r with
        | '+' :: r => (false, r)
        | '-' :: r => (true, r)
        | r => (false, r)
      match r with
      | [] => atEnd .endInValue
      | d :: _ =>
        if d.isDigit then
          let ds := r.takeWhile Char.isDigit
          let rest := r.dropWhile Char.isDigit
          match overLimit? 0 r with
          | some excess =>
            if coefficient ≠ 0 ∧ down = false then before .numberOutOfRange excess
            else .ok (.zero negative, rest)
          | none =>
            let e : Int := ofDigits ds
            finish negative coefficient (if down then power - e else power + e) rest
        else atNext .invalidNumber r
    else finish negative coefficient power (c :: r)

/-- The decimals of a number, if it has some, and its exponent.  Decimals beyond
the limit of the coefficient are left out. -/
def fractionPart (negative : Bool) (whole : Nat) (power : Int) : Reader Binary64
  | '.' :: r =>
    let ds := r.takeWhile Char.isDigit
    let rest := r.dropWhile Char.isDigit
    if ds = [] then
      match rest with
      | [] => atEnd .endInValue
      | _ :: _ => atNext .invalidNumber rest
    else
      let (coefficient, beyond) := continued whole ds
      exponentPart negative coefficient (power - (ds.length - beyond.length)) rest
  | s => exponentPart negative whole power s

/-- A number after its sign.  Only a zero may begin with `0`.  Digits beyond the
limit of the coefficient count as zeros. -/
def number (negative : Bool) : Reader Binary64
  | [] => atEnd .endInValue
  | '0' :: r =>
    match r with
    | [] => fractionPart negative 0 0 []
    | d :: _ => if d.isDigit then atNext .invalidNumber r else fractionPart negative 0 0 r
  | s@(c :: _) =>
    if c.isDigit then
      let (coefficient, beyond) := continued 0 (s.takeWhile Char.isDigit)
      fractionPart negative coefficient beyond.length (s.dropWhile Char.isDigit)
    else atNext .invalidNumber s

/-! ## Texts -/

/-- The value of a hexadecimal digit. -/
def hexValue? (c : Char) : Option Nat :=
  if c.isDigit then some (c.toNat - 48)
  else if 'a' ≤ c ∧ c ≤ 'f' then some (c.toNat - 87)
  else if 'A' ≤ c ∧ c ≤ 'F' then some (c.toNat - 55)
  else none

/-- The number of four hexadecimal digits. -/
def fourHex? (a b c d : Char) : Option Nat := do
  let a ← hexValue? a
  let b ← hexValue? b
  let c ← hexValue? c
  let d ← hexValue? d
  pure (((a * 16 + b) * 16 + c) * 16 + d)

/-- The four digits at the front of a text; what takes their place is four bytes. -/
def codeUnit (s : List Char) : Except Failure Nat :=
  let unit? := match s with
    | a :: b :: c :: d :: _ => fourHex? a b c d
    | _ => none
  match unit? with
  | some n => .ok n
  | none => if byteCount s < 4 then atEnd .endInString else .error ⟨.invalidEscape, s, 4⟩

def isLeading (n : Nat) : Bool := 0xD800 ≤ n && n ≤ 0xDBFF

def isTrailing (n : Nat) : Bool := 0xDC00 ≤ n && n ≤ 0xDFFF

/-- The character of an escape after its `u`, and how many characters it takes:
one code unit, or a leading and a trailing one. -/
def unicodeEscape (s : List Char) : Except Failure (Char × Nat) := do
  let n ← codeUnit s
  if isTrailing n then before .loneSurrogate (s.drop 4)
  else if isLeading n then
    match s.drop 4 with
    | [] => atEnd .endInString
    | '\\' :: [] => atEnd .endInString
    | '\\' :: 'u' :: r =>
      let m ← codeUnit r
      if isTrailing m then
        pure (Char.ofNat (0x10000 + (n - 0xD800) * 0x400 + (m - 0xDC00)), 10)
      else before .loneSurrogate (r.drop 4)
    | '\\' :: r => atNext .brokenSurrogatePair r
    | r => atNext .brokenSurrogatePair r
  else pure (Char.ofNat n, 4)

/-- The character of an escape of one letter. -/
def letterEscape? (c : Char) : Option Char :=
  if c = '\"' then some '\"'
  else if c = '\\' then some '\\'
  else if c = '/' then some '/'
  else if c = 'b' then some '\x08'
  else if c = 'f' then some '\x0c'
  else if c = 'n' then some '\n'
  else if c = 'r' then some '\r'
  else if c = 't' then some '\t'
  else none

/-- A text whose opening quote has been taken. -/
def characters : Reader (List Char)
  | [] => atEnd .endInString
  | '\"' :: r => .ok ([], r)
  | '\\' :: [] => atEnd .endInString
  | '\\' :: 'u' :: r =>
    match unicodeEscape r with
    | .error e => .error e
    | .ok (c, n) =>
      match characters (r.drop n) with
      | .error e => .error e
      | .ok (cs, rest) => .ok (c :: cs, rest)
  | '\\' :: e :: r =>
    match letterEscape? e with
    | none => atNext .invalidEscape (e :: r)
    | some c =>
      match characters r with
      | .error e => .error e
      | .ok (cs, rest) => .ok (c :: cs, rest)
  | c :: r =>
    if c.toNat < 32 then atNext .controlCharacter (c :: r)
    else match characters r with
      | .error e => .error e
      | .ok (cs, rest) => .ok (c :: cs, rest)
termination_by s => s.length
decreasing_by all_goals (simp only [List.length_cons, List.length_drop]; omega)

/-! ## Lists and objects -/

/-- What closes a sequence, and the problems of one that is not closed. -/
structure Brackets where
  close : Char
  unfinished : Problem
  unclosed : Problem

def listBrackets : Brackets := ⟨']', .endInList, .expectedListEnd⟩

def objectBrackets : Brackets := ⟨'\x7d', .endInObject, .expectedObjectEnd⟩

/-- Items with commas between them, up to the closing bracket.  An item takes at
least one character, so the length of the text is fuel enough. -/
def items {α : Type} (b : Brackets) (item : Reader α) : Nat → Reader (List α)
  | 0, s => atNext b.unclosed s
  | fuel + 1, s =>
    match item s with
    | .error e => .error e
    | .ok (v, s) =>
      match skipSpace s with
      | [] => atEnd b.unfinished
      | c :: r =>
        if c = b.close then .ok ([v], r)
        else if c = ',' then
          match skipSpace r with
          | [] => atEnd .endInValue
          | d :: r =>
            if d = b.close then atNext .trailingComma (d :: r)
            else match items b item fuel (d :: r) with
              | .error e => .error e
              | .ok (vs, rest) => .ok (v :: vs, rest)
        else atNext b.unclosed (c :: r)

/-- A bracketed sequence whose opening bracket has been taken. -/
def sequence {α : Type} (b : Brackets) (fuel : Nat) (item : Reader α) : Reader (List α) := fun s =>
  match skipSpace s with
  | [] => atEnd b.unfinished
  | c :: r => if c = b.close then .ok ([], r) else items b item fuel (c :: r)

/-- A member of an object: a quoted name, a colon and a value. -/
def member {α : Type} (value : Reader α) : Reader (String × α)
  | '\"' :: r =>
    match characters r with
    | .error e => .error e
    | .ok (key, s) =>
      match skipSpace s with
      | ':' :: r =>
        match value r with
        | .error e => .error e
        | .ok (v, rest) => .ok ((String.ofList key, v), rest)
      | [] => atEnd .endInObject
      | s => atNext .expectedColon s
  | s => atNext .keyNotString s

/-- A value, the values in lists and objects being read by `inside`, or not at
all. -/
def valueWith (fuel : Nat) (inside : Option (Reader Value)) : Reader Value := fun s =>
  match skipSpace s with
  | [] => atEnd .endInValue
  | 'n' :: r => word .null ['u', 'l', 'l'] r
  | 't' :: r => word (.bool true) ['r', 'u', 'e'] r
  | 'f' :: r => word (.bool false) ['a', 'l', 's', 'e'] r
  | '-' :: r => (number true r).map fun (n, rest) => (.number n, rest)
  | '\"' :: r => (characters r).map fun (cs, rest) => (.string (String.ofList cs), rest)
  | '[' :: r =>
    match inside with
    | none => atNext .tooDeep ('[' :: r)
    | some value =>
      (sequence listBrackets fuel value r).map fun (vs, rest) => (.array vs, rest)
  | '\x7b' :: r =>
    match inside with
    | none => atNext .tooDeep ('\x7b' :: r)
    | some value =>
      (sequence objectBrackets fuel (member value) r).map fun (ms, rest) =>
        (.object (Named.sorted ms), rest)
  | c :: r =>
    if c.isDigit then (number false (c :: r)).map fun (n, rest) => (.number n, rest)
    else atNext .expectedValue (c :: r)

/-- A value with at most the given number of lists and objects open at a time. -/
def value (fuel : Nat) : Nat → Reader Value
  | 0 => valueWith fuel none
  | depth + 1 => valueWith fuel (some (value fuel depth))

end Reader

/-- How many lists and objects may be open at a time. -/
def maxDepth : Nat := 127

/-- The value that a whole text stands for. -/
def parse (text : String) : Except ReadError Value :=
  let s := text.toList
  match Reader.value s.length maxDepth s with
  | .error e => .error (.ofRest s e.rest e.past e.problem)
  | .ok (v, r) =>
    match Reader.skipSpace r with
    | [] => .ok v
    | r => .error (.ofRest s r 1 .trailingCharacters)

end Json
end PageBinding
