/-
# The text of a value for files

A value is written in its canonical form and without white space.  Inside a
text the quote, the backslash and the control characters are escaped, the five
common ones by a letter and the others by four hexadecimal digits.  A number
has its shortest digits and always a decimal point or an exponent; it is
positional from `10^-5` to below `10^16`.
-/

import PageBinding.Decimal.Layout
import PageBinding.Json.Value

namespace PageBinding
namespace Json

open Decimal

/-- Numbers for files: positional from `10^-5` to below `10^16`, a decimal point
also in an integral number, the sign of a zero kept, the even one of two
equally near decimals. -/
def fileNumbers : Layout :=
  { lowest := -5, highest := 15, point := true, signedZero := true, tie := .even }

/-- The lower-case hexadecimal digit of a number below 16. -/
def hexDigit (n : Nat) : Char := Char.ofNat (if n < 10 then 48 + n else 87 + n)

/-- A character as it is written inside a quoted text. -/
def escapeChar (c : Char) : List Char :=
  if c = '\"' then ['\\', '\"']
  else if c = '\\' then ['\\', '\\']
  else if c = '\n' then ['\\', 'n']
  else if c = '\r' then ['\\', 'r']
  else if c = '\t' then ['\\', 't']
  else if c = '\x08' then ['\\', 'b']
  else if c = '\x0c' then ['\\', 'f']
  else if c.toNat < 32 then ['\\', 'u', '0', '0', hexDigit (c.toNat / 16), hexDigit (c.toNat % 16)]
  else [c]

/-- A quoted text. -/
def quote (s : List Char) : List Char := '\"' :: (s.flatMap escapeChar ++ ['\"'])

namespace Value

mutual

/-- The text of a value as it stands. -/
def write : Value → List Char
  | .null => ['n', 'u', 'l', 'l']
  | .bool true => ['t', 'r', 'u', 'e']
  | .bool false => ['f', 'a', 'l', 's', 'e']
  | .number n => fileNumbers.ofBinary64 n
  | .string s => quote s.toList
  | .array items => '[' :: (writeItems items ++ [']'])
  | .object members => '{' :: (writeMembers members ++ ['}'])

/-- The items of a list with commas between them. -/
def writeItems : List Value → List Char
  | [] => []
  | [v] => write v
  | v :: r => write v ++ ',' :: writeItems r

/-- The members of an object with commas between them. -/
def writeMembers : List (String × Value) → List Char
  | [] => []
  | [(k, v)] => quote k.toList ++ ':' :: write v
  | (k, v) :: r => quote k.toList ++ ':' :: (write v ++ ',' :: writeMembers r)

end

/-- The text of a value for files. -/
def render (v : Value) : String := String.ofList v.canonical.write

end Value
end Json
end PageBinding
