/-
# Paths

A path is a text of names with slashes between them.  One that begins with a
slash starts at the root, any other one at the current directory.

| name | leads |
| --- | --- |
| empty, `.` | to where it is met, which is a directory |
| `..` | one level up |
| any other | to what the directory has under that name |
-/

import PageBinding.Text.Quoted
import PageBinding.Text.Split

namespace PageBinding
namespace Files

/-- The text of a path. -/
structure Path where
  text : String
  deriving DecidableEq, Repr

namespace Path

/-- Whether a path starts at the root. -/
def isAbsolute (p : Path) : Bool := p.text.toList.head? = some '/'

/-- The names of a path, from left to right. -/
def names (p : Path) : List String := (Text.splitAt '/' p.text.toList).map String.ofList

/-- A path continued by another one.  An absolute one takes its place. -/
def join (p q : Path) : Path :=
  if q.isAbsolute then q
  else if p.text = "" ∨ p.text.toList.getLast? = some '/' then ⟨p.text ++ q.text⟩
  else ⟨p.text ++ "/" ++ q.text⟩

/-- A path in messages. -/
def quoted (p : Path) : String := Text.quoted p.text

example : (Path.mk "/a//b/").names = ["", "a", "", "b", ""] := by decide +kernel

example : (Path.join ⟨"a"⟩ ⟨"b"⟩, Path.join ⟨""⟩ ⟨"b"⟩, Path.join ⟨"a/"⟩ ⟨"/b"⟩) =
    (⟨"a/b"⟩, ⟨"b"⟩, ⟨"/b"⟩) := by
  decide +kernel

end Path

/-- Whether a name stays where it is. -/
def isStay (name : String) : Bool := name = "" || name = "."

/-- What is left of the names of a path, last one first, without the last that
leads somewhere. -/
def above (names : List String) : List String :=
  ((names.dropWhile isStay).drop 1).dropWhile isStay

/-- The parent of a path has fewer names, which is why making directories upwards ends. -/
theorem length_above_lt {names : List String} (h : names ≠ []) :
    (above names).length < names.length := by
  have h1 := (List.dropWhile_suffix (l := names) isStay).length_le
  have h2 := (List.dropWhile_suffix (l := (names.dropWhile isStay).drop 1) isStay).length_le
  have h3 := List.length_pos_iff.2 h
  rw [List.length_drop] at h2
  unfold above
  omega

end Files
end PageBinding
