/-
# Reading a text by positions

A text is kept as bytes, and what is cut out of it is named by two positions in these.
A position may be inside a character, or behind the end of the text; there is no cutting
at such a one (`Miscut`).

The parts of a text are given out one by one.  A placeholder that has been found behind a
stretch of text waits until that is given out (`Pieces.pending`).

| what is left | what is given out |
| --- | --- |
| a placeholder that waits | the placeholder |
| nothing | nothing |
| a text that begins with a placeholder | the placeholder |
| another text with one | what stands before it; the placeholder waits |
| a text without one | the text |
-/

import PageBinding.Template.Placeholder

namespace PageBinding
namespace Template
namespace Scan

/-- Two positions between which a text cannot be cut. -/
structure Miscut where
  start : Nat
  stop : Nat
  deriving DecidableEq, Repr

/-- What is between two positions of a text. -/
def cut (s : String) (start stop : Nat) : Except Miscut String :=
  if h : start ≤ stop ∧ String.Pos.Raw.IsValid s ⟨start⟩ ∧ String.Pos.Raw.IsValid s ⟨stop⟩ then
    .ok (s.extract ⟨⟨start⟩, h.2.1⟩ ⟨⟨stop⟩, h.2.2⟩)
  else .error ⟨start, stop⟩

/-- Only a piece that starts no later than it ends can be cut. -/
theorem le_of_cut {s r : String} {start stop : Nat} (h : cut s start stop = .ok r) :
    start ≤ stop := by
  rw [cut] at h
  split at h
  · rename_i hv
    exact hv.1
  · cases h

/-- The position in a text where some characters begin first. -/
def position? (pattern : List Char) : List Char → Option Nat
  | [] => if pattern.isPrefixOf [] then some 0 else none
  | c :: r =>
    if pattern.isPrefixOf (c :: r) then some 0 else (position? pattern r).map (c.utf8Size + ·)

/-- Two opening braces. -/
def opening : List Char := ['\x7b', '\x7b']

/-- The first placeholder of a text from a position on: where it begins, and where it has
ended. -/
def find (s : String) (pos : Nat) : Except Miscut (Option (Nat × Nat)) :=
  match _h : cut s pos s.utf8ByteSize with
  | .error m => .error m
  | .ok ahead =>
    match position? opening ahead.toList with
    | none => .ok none
    | some off =>
      let inner := pos + off + 2
      match cut s inner s.utf8ByteSize with
      | .error m => .error m
      | .ok rest =>
        match position? ['\x7d'] rest.toList with
        | none => .ok none
        | some len =>
          let close := inner + len
          if inner < close ∧ s.toByteArray[close + 1]? = some 0x7d then
            .ok (some (pos + off, close + 2))
          -- No placeholder begins before this brace: it would meet it first.
          else find s (close + 1)
termination_by s.utf8ByteSize + 1 - pos
decreasing_by
  have := le_of_cut _h
  omega

/-- A placeholder that is found has an inside, and lies within the text. -/
theorem find_bounds {s : String} {pos start stop : Nat} (h : find s pos = .ok (some (start, stop))) :
    pos ≤ start ∧ start + 4 < stop ∧ stop ≤ s.utf8ByteSize := by
  fun_induction find s pos with
  | case1 | case2 | case3 | case4 => cases h
  | case5 pos ahead hahead off hoff inner rest hrest len hlen close hclose =>
    obtain ⟨rfl, rfl⟩ := Prod.mk.inj (Option.some.inj (Except.ok.inj h))
    obtain ⟨hlt, hbyte⟩ := hclose
    have := (getElem?_eq_some_iff.1 hbyte).1
    rw [String.size_toByteArray] at this
    omega
  | case6 pos ahead hahead off hoff inner rest hrest len hlen close hclose ih =>
    have := ih h
    omega

/-- Where the parts of a text are given out. -/
structure Pieces (s : String) where
  /-- The position up to which parts have been given out. -/
  pos : Nat
  /-- A placeholder that waits for what stands before it. -/
  pending : Option (Nat × Nat)
  /-- What waits ends farther on. -/
  ahead : ∀ found ∈ pending, pos < found.2 ∧ found.2 ≤ s.utf8ByteSize

namespace Pieces

variable {s : String}

/-- No part of the text is given out yet. -/
def start (s : String) : Pieces s := ⟨0, none, nofun⟩

/-- All is given out up to a position. -/
def upTo (s : String) (pos : Nat) : Pieces s := ⟨pos, none, nofun⟩

/-- The placeholder between two positions, and what is left behind it. -/
def placeholder (s : String) (start stop : Nat) : Except Miscut (Option (Part × Pieces s)) := do
  let inner ← cut s (start + 2) (stop - 2)
  return some (.placeholder inner.toList, upTo s stop)

/-- The next part, if there is one, and what is left then. -/
def next (p : Pieces s) : Except Miscut (Option (Part × Pieces s)) :=
  match p.pending with
  | some (start, stop) => placeholder s start stop
  | none =>
    if s.utf8ByteSize ≤ p.pos then .ok none
    else
      match h : find s p.pos with
      | .error m => .error m
      | .ok (some (start, stop)) =>
        if p.pos < start then do
          let before ← cut s p.pos start
          return some (.literal before.toList, ⟨p.pos, some (start, stop), fun found hf => by
            have := find_bounds h
            obtain rfl := Option.some.inj hf
            omega⟩)
        else placeholder s start stop
      | .ok none => do
        let rest ← cut s p.pos s.utf8ByteSize
        return some (.literal rest.toList, upTo s s.utf8ByteSize)

/-- A number that falls with each part: a placeholder that waits counts half a byte. -/
def left (p : Pieces s) : Nat :=
  2 * (s.utf8ByteSize - p.pos) + if p.pending.isSome then 0 else 1

/-- Whatever is cut out for a part, what is left behind it is as it was to be. -/
theorem left_of_cut {start stop : Nat} {part : Part} {give : String → Part} {p q : Pieces s}
    (h : (do return some (give (← cut s start stop), q)) = Except.ok (some (part, p))) : p = q := by
  cases hc : cut s start stop with
  | error m => rw [hc] at h; cases h
  | ok r =>
    rw [hc] at h
    exact (Prod.mk.inj (Option.some.inj (Except.ok.inj h))).2.symm

/-- Scanning goes on just behind a placeholder that was read. -/
theorem placeholder_upTo {start stop : Nat} {part : Part} {q : Pieces s}
    (h : placeholder s start stop = .ok (some (part, q))) : q = upTo s stop :=
  left_of_cut h

/-- Each step of the scan leaves less of the text, so the scan ends. -/
theorem next_left {p q : Pieces s} {part : Part} (h : p.next = .ok (some (part, q))) :
    q.left < p.left := by
  rw [next] at h
  split at h
  · rename_i start stop hp
    have := p.ahead _ hp
    rw [placeholder_upTo h, left, left, hp, upTo]
    simp only [Option.isSome_none, Option.isSome_some, Bool.false_eq_true, if_true, if_false]
    omega
  · rename_i hp
    rw [left, left, hp]
    split at h
    · cases h
    · split at h
      · cases h
      · rename_i start stop hf
        have := find_bounds hf
        split at h
        · rw [left_of_cut h]
          simp
        · rw [placeholder_upTo h, upTo]
          simp only [Option.isSome_none, Bool.false_eq_true, if_false]
          omega
      · rw [left_of_cut h, upTo]
        simp only [Option.isSome_none, Bool.false_eq_true, if_false]
        omega

/-- All the parts that are left. -/
def toList (p : Pieces s) : Except Miscut (List Part) :=
  match _h : p.next with
  | .error m => .error m
  | .ok none => .ok []
  | .ok (some (part, q)) => do return part :: (← q.toList)
termination_by p.left
decreasing_by exact next_left _h

end Pieces

/-- The parts of a text. -/
def pieces (s : String) : Except Miscut (List Part) := (Pieces.start s).toList

/-- The text so far with a part more, and whether a placeholder has been replaced in it. -/
def put (lookup : List Char → List Char) (done : List Char × Bool) : Part → List Char × Bool
  | .literal s => (done.1 ++ s, done.2)
  | .placeholder inner => (done.1 ++ lookup (Text.trim inner), true)

/-- The text with its placeholders looked up; `none` if it has none. -/
def substitute (s : String) (lookup : List Char → List Char) :
    Except Miscut (Option (List Char)) := do
  if (position? opening s.toList).isNone then return none
  let (out, replaced) := (← pieces s).foldl (put lookup) ([], false)
  return if replaced then some out else none

end Scan
end Template
end PageBinding
