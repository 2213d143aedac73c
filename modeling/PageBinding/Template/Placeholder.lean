/-
# Placeholders

A placeholder is two opening braces, one or more characters other than a
closing brace, and two closing braces.  A text is read once from left to right:
from two opening braces the first closing brace decides.  If it does not close
a placeholder, no placeholder can begin before it, since each would meet the
same brace, and reading goes on behind it.

The parts of a text are its placeholders and the stretches between them;
`next?_eq` says that nothing of the text is lost.  A substitution puts a text
in the place of each placeholder and leaves the rest as it is.
-/

import PageBinding.Text.Blank

namespace PageBinding
namespace Template

/-- A stretch of text, or the inside of a placeholder. -/
inductive Part
  | literal (s : List Char)
  | placeholder (inner : List Char)
  deriving DecidableEq, Repr

def isClosing (c : Char) : Bool := c = '\x7d'

/-- The first placeholder of a text: what stands before it, its inside, and what
stands behind it. -/
def next? : List Char → Option (List Char × List Char × List Char)
  | [] => none
  | '\x7b' :: '\x7b' :: r =>
    let inner := r.takeWhile (!isClosing ·)
    match _h : r.dropWhile (!isClosing ·) with
    | [] => none
    | _ :: '\x7d' :: behind =>
      if inner = [] then
        (next? ('\x7d' :: behind)).map fun (before, i, a) =>
          ('\x7b' :: '\x7b' :: '\x7d' :: before, i, a)
      else some ([], inner, behind)
    | _ :: rest =>
      (next? rest).map fun (before, i, a) =>
        ('\x7b' :: '\x7b' :: (inner ++ '\x7d' :: before), i, a)
  | c :: r => (next? r).map fun (before, i, a) => (c :: before, i, a)
termination_by s => s.length
decreasing_by
  · have := (List.dropWhile_suffix (l := r) (!isClosing ·)).length_le
    simp_all; omega
  · have := (List.dropWhile_suffix (l := r) (!isClosing ·)).length_le
    simp_all; omega
  · simp

/-- What stands before the first closing brace and what follows it make up the text again. -/
theorem eq_of_dropWhile_isClosing {r rest : List Char} {c : Char}
    (h : r.dropWhile (!isClosing ·) = c :: rest) :
    r = r.takeWhile (!isClosing ·) ++ '\x7d' :: rest := by
  have hc : c = '\x7d' := by
    have := List.head?_dropWhile_not (!isClosing ·) r
    rw [h] at this
    simpa [isClosing] using this
  have := List.takeWhile_append_dropWhile (p := (!isClosing ·)) (l := r)
  rw [h, hc] at this
  exact this.symm

/-- **Nothing is lost:** a text is what stands before its first placeholder, the
placeholder, and what stands behind it. -/
theorem next?_eq {s before inner behind : List Char} (h : next? s = some (before, inner, behind)) :
    s = before ++ '\x7b' :: '\x7b' :: (inner ++ '\x7d' :: '\x7d' :: behind) := by
  fun_induction next? s generalizing before inner behind with
  | case1 => simp at h
  | case2 => simp at h
  | case3 r inside c rest hd hi =>
    rename_i ih
    obtain ⟨⟨b, i, a⟩, hn, he⟩ := Option.map_eq_some_iff.1 h
    simp only [Prod.mk.injEq] at he
    obtain ⟨rfl, rfl, rfl⟩ := he
    have hr := eq_of_dropWhile_isClosing hd
    rw [show r.takeWhile (!isClosing ·) = [] from hi, List.nil_append, ih hn] at hr
    rw [hr]; simp
  | case4 r inside c rest hd =>
    simp only [Option.some.injEq, Prod.mk.injEq] at h
    obtain ⟨rfl, rfl, rfl⟩ := h
    rw [List.nil_append, ← eq_of_dropWhile_isClosing hd]
  | case5 r inside c rest hne hd =>
    rename_i ih
    obtain ⟨⟨b, i, a⟩, hn, he⟩ := Option.map_eq_some_iff.1 h
    simp only [Prod.mk.injEq] at he
    obtain ⟨rfl, rfl, rfl⟩ := he
    have hr := eq_of_dropWhile_isClosing hd
    rw [ih hn] at hr
    rw [hr]; simp [inside]
  | case6 c r hne ih =>
    obtain ⟨⟨b, i, a⟩, hn, he⟩ := Option.map_eq_some_iff.1 h
    simp only [Prod.mk.injEq] at he
    obtain ⟨rfl, rfl, rfl⟩ := he
    rw [List.cons_append, ← ih hn]

/-- The parts of a text. -/
def parts (s : List Char) : List Part :=
  match h : next? s with
  | none => if s = [] then [] else [.literal s]
  | some (before, inner, behind) =>
    (if before = [] then [] else [.literal before]) ++ .placeholder inner :: parts behind
termination_by s.length
decreasing_by rw [next?_eq h]; simp; omega

/-- Whether two opening braces stand next to each other, as they do in every
text with a placeholder. -/
def mayHavePlaceholder : List Char → Bool
  | [] => false
  | '\x7b' :: '\x7b' :: _ => true
  | _ :: r => mayHavePlaceholder r

def Part.isPlaceholder : Part → Bool
  | .literal _ => false
  | .placeholder _ => true

/-- The text that a part leaves when placeholders are looked up by their inside
without white space at its ends. -/
def Part.fill (lookup : List Char → List Char) : Part → List Char
  | .literal s => s
  | .placeholder inner => lookup (Text.trim inner)

/-- The text with its placeholders looked up; `none` if it has none. -/
def substitute? (s : List Char) (lookup : List Char → List Char) : Option (List Char) :=
  if mayHavePlaceholder s then
    let ps := parts s
    if ps.any Part.isPlaceholder then some (ps.flatMap (Part.fill lookup)) else none
  else none

end Template
end PageBinding
