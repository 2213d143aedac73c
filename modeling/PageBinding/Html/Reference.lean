/-
# Character references

An ampersand begins a reference if a number sign with digits or the name of a
character follows it; otherwise it stands for itself.

* A number is the number of a character.  Numbers that are none, zero among
  them, stand for U+FFFD, and `128 … 159` for the characters that the
  Windows-1252 code page has there.  The semicolon may be left out.
* Of the names that fit, the longest one is taken.  It may have two characters.
  The older names may stand without their semicolon, but in an attribute value
  not before an equals sign, a letter or a digit.

Such a reference contains none of the characters that end a text or an
attribute value, so those can be cut out first and decoded afterwards.
-/

import PageBinding.Html.NamedCharacter

namespace PageBinding
namespace Html

/-- The character that stands in for what cannot be kept. -/
def replacement : Char := '\ufffd'

/-- The characters of the numbers from 128 on that are not control characters. -/
def windowsTable : List (Nat × Nat) :=
  [(0x80, 0x20AC), (0x82, 0x201A), (0x83, 0x0192), (0x84, 0x201E), (0x85, 0x2026), (0x86, 0x2020),
    (0x87, 0x2021), (0x88, 0x02C6), (0x89, 0x2030), (0x8A, 0x0160), (0x8B, 0x2039), (0x8C, 0x0152),
    (0x8E, 0x017D), (0x91, 0x2018), (0x92, 0x2019), (0x93, 0x201C), (0x94, 0x201D), (0x95, 0x2022),
    (0x96, 0x2013), (0x97, 0x2014), (0x98, 0x02DC), (0x99, 0x2122), (0x9A, 0x0161), (0x9B, 0x203A),
    (0x9C, 0x0153), (0x9E, 0x017E), (0x9F, 0x0178)]

/-- The character that a number stands for. -/
def numbered (n : Nat) : Char :=
  if n = 0 ∨ n > 0x10FFFF ∨ (0xD800 ≤ n ∧ n ≤ 0xDFFF) then replacement
  else Char.ofNat ((windowsTable.lookup n).getD n)

/-- A name with its semicolon, and its characters. -/
def closedSpelling (e : String × List Nat) : List Char × List Char :=
  (e.1.toList ++ [';'], e.2.map Char.ofNat)

/-- A name without a semicolon, and its characters. -/
def looseSpelling (e : String × List Nat) : List Char × List Char :=
  (e.1.toList, e.2.map Char.ofNat)

/-- What can stand behind an ampersand for a named character. -/
def spellings : List (List Char × List Char) :=
  looseNames.flatMap (fun e => [closedSpelling e, looseSpelling e]) ++
    closedNames.map closedSpelling

/-- The longer of two spellings, the first one if they are as long. -/
def longer (best : Option (List Char × List Char)) (e : List Char × List Char) :
    Option (List Char × List Char) :=
  match best with
  | none => some e
  | some b => if b.1.length < e.1.length then some e else some b

/-- The name at the front of a text and its characters: of the spellings that fit, the
longest one. -/
def name? (s : List Char) : Option (List Char × List Char) :=
  (spellings.filter fun e => e.1.isPrefixOf s).foldl longer none

def isHexDigit (c : Char) : Bool :=
  c.isDigit || ('a' ≤ c && c ≤ 'f') || ('A' ≤ c && c ≤ 'F')

/-- The value of a digit, decimal or hexadecimal. -/
def digitValue (c : Char) : Nat :=
  if c.isDigit then c.toNat - 48 else if 'a' ≤ c then c.toNat - 87 else c.toNat - 55

/-- The number of some digits. -/
def ofDigits (base : Nat) (ds : List Char) : Nat := ds.foldl (fun n c => base * n + digitValue c) 0

/-- Digits and the semicolon behind them: the character and how many characters
of the text it takes, `skipped` of them before the digits. -/
def number? (base skipped : Nat) (isBaseDigit : Char → Bool) (s : List Char) :
    Option (List Char × Nat) :=
  let ds := s.takeWhile isBaseDigit
  if ds = [] then none
  else
    let closed := match s.drop ds.length with
      | ';' :: _ => 1
      | _ => 0
    some ([numbered (ofDigits base ds)], skipped + ds.length + closed)

/-- Whether a name without its semicolon counts before this rest of an attribute
value. -/
def endsName : List Char → Bool
  | [] => true
  | c :: _ => !(c = '=' || c.isAlphanum)

/-- The reference behind an ampersand: its characters and its length. -/
def reference? (inAttribute : Bool) : List Char → Option (List Char × Nat)
  | '#' :: 'x' :: r => number? 16 2 isHexDigit r
  | '#' :: 'X' :: r => number? 16 2 isHexDigit r
  | '#' :: r => number? 10 1 Char.isDigit r
  | s =>
    match name? s with
    | none => none
    | some (name, cs) =>
      if inAttribute && name.getLast? != some ';' && !endsName (s.drop name.length) then none
      else some (cs, name.length)

/-- A text with its references replaced by their characters. -/
def decode (inAttribute : Bool) : List Char → List Char
  | [] => []
  | '&' :: r =>
    match reference? inAttribute r with
    | some (cs, n) => cs ++ decode inAttribute (r.drop n)
    | none => '&' :: decode inAttribute r
  | c :: r => c :: decode inAttribute r
termination_by s => s.length
decreasing_by all_goals (simp only [List.length_cons, List.length_drop]; omega)

end Html
end PageBinding
