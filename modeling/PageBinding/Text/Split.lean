/-
# Splitting a text at a separator

A text has one piece more than it has separators, empty pieces included
(`splitAt_append`).
-/

namespace PageBinding
namespace Text

/-- The pieces of a text between its separators. -/
def splitAt (sep : Char) : List Char → List (List Char)
  | [] => [[]]
  | c :: r =>
    if c = sep then [] :: splitAt sep r
    else match splitAt sep r with
      | [] => [[c]]
      | piece :: pieces => (c :: piece) :: pieces

/-- Splitting at a separator gives at least one part. -/
theorem splitAt_ne_nil (sep : Char) (s : List Char) : splitAt sep s ≠ [] := by
  cases s with
  | nil => simp [splitAt]
  | cons c r => unfold splitAt; split <;> (try split) <;> simp

/-- The pieces of two texts joined by a separator are those of the one and those
of the other. -/
theorem splitAt_append (sep : Char) (a b : List Char) :
    splitAt sep (a ++ sep :: b) = splitAt sep a ++ splitAt sep b := by
  induction a with
  | nil => simp [splitAt]
  | cons c r ih =>
    by_cases h : c = sep
    · simp [splitAt, h, ih]
    · cases hr : splitAt sep r with
      | nil => exact absurd hr (splitAt_ne_nil sep r)
      | cons p ps => simp [splitAt, h, ih, hr]

end Text
end PageBinding
