/-
# Which notation stands

The power that is read back from the scientific notation is that of the first digit, so the two ways
to find the text of a number agree (`write_eq`).  It is written with the digits of its shortest
decimal, from `10^-6` to below `10^21` positionally and otherwise with a power (`Written`).

| last digit | positionally |
| --- | --- |
| before the point | zeros up to the point, and no point |
| behind it, the first one before it | a point between the digits |
| all behind it | `0.`, zeros, then the digits |
-/

import PageBinding.Json.Notation
import PageBinding.Proofs.Decimal.Fewest
import PageBinding.Proofs.Json.Literal

namespace PageBinding
namespace Json

open Decimal (Binary64 Layout Numeral shortest)

/-- The digits of a decimal with all places from the point on. -/
inductive Positional (d : Numeral) : List Char → Prop
  | whole (zeros : Nat) : d.power = zeros → Positional d (d.digits ++ List.replicate zeros '0')
  | inside (front back : List Char) : d.digits = front ++ back → front ≠ [] → back ≠ [] →
    d.power = -back.length → Positional d (front ++ '.' :: back)
  | below (zeros : Nat) : d.power = -(zeros + d.digits.length) →
    Positional d ('0' :: '.' :: (List.replicate zeros '0' ++ d.digits))

/-- The digits of a decimal, a point behind the first one if there are more, and a signed power. -/
inductive Scientific (d : Numeral) : List Char → Prop
  | one (c : Char) : d.digits = [c] → Scientific d ([c] ++ 'e' :: Layout.signedPower d.exponent)
  | more (c : Char) (r : List Char) : d.digits = c :: r → r ≠ [] →
    Scientific d (c :: '.' :: r ++ 'e' :: Layout.signedPower d.exponent)

/-- The text of a positive number for people. -/
structure Written (d : Numeral) (text : List Char) : Prop where
  positional : -7 < d.exponent → d.exponent < 21 → Positional d text
  scientific : d.exponent ≤ -7 ∨ 21 ≤ d.exponent → Scientific d text

variable {d : Numeral} {x : Binary64} {n : Int} {s : List Char}

/-! ## Texts of decimals -/

/-- The positional layout has all places from the point on. -/
theorem positional_eq (hc : 0 < d.coefficient) :
    Positional d (Layout.positional false d.digits d.exponent) := by
  obtain ⟨hexp, hlen, -⟩ := Reader.exponent_eq hc
  rw [Layout.positional]
  rcases lt_or_ge d.exponent 0 with hneg | hpos
  · rw [if_pos hneg]
    exact .below _ (by omega)
  · rw [if_neg (not_lt.2 hpos)]
    dsimp only
    rcases lt_or_ge d.power 0 with hpower | hpower
    · rw [if_neg (by omega)]
      refine .inside _ _ (List.take_append_drop ..).symm ?_ ?_ ?_
      · exact List.ne_nil_of_length_pos (by rw [List.length_take]; omega)
      · exact List.ne_nil_of_length_pos (by rw [List.length_drop]; omega)
      · rw [List.length_drop]
        omega
    · rw [if_pos (by omega), if_neg Bool.false_ne_true, List.append_nil]
      exact .whole _ (by omega)

/-- The scientific layout has a point behind the first digit and a signed power. -/
theorem scientific_eq (hc : 0 < d.coefficient) :
    Scientific d (Layout.mantissa d.digits ++ 'e' :: Layout.signedPower d.exponent) := by
  obtain ⟨c, r, hr, -⟩ := Reader.digitsOf_eq_cons hc
  change d.digits = c :: r at hr
  cases r with
  | nil =>
    have htext := Scientific.one c hr
    rwa [hr]
  | cons e r =>
    have htext := Scientific.more c (e :: r) hr (List.cons_ne_nil e r)
    rwa [hr]

/-- A decimal is shown positionally if its exponent is above -7 and below 21, otherwise with a
power. -/
theorem ofNumeral_plain (d : Numeral) : plainNumbers.ofNumeral d =
    if -7 < d.exponent ∧ d.exponent < 21 then Layout.positional false d.digits d.exponent
    else Layout.mantissa d.digits ++ 'e' :: Layout.signedPower d.exponent := by
  refine if_congr ?_ rfl rfl
  change -6 ≤ d.exponent ∧ d.exponent ≤ 20 ↔ _
  omega

/-- **The text of a positive number** by its digits and the place of the first one. -/
theorem written_ofNumeral (hc : 0 < d.coefficient) : Written d (plainNumbers.ofNumeral d) := by
  rw [ofNumeral_plain]
  constructor
  · intro hlow hhigh
    rw [if_pos ⟨hlow, hhigh⟩]
    exact positional_eq hc
  · intro hout
    rw [if_neg (by omega)]
    exact scientific_eq hc

/-! ## Texts of numbers -/

/-- A finite number is shown by the layout of its shortest decimal, with a minus if it is
negative. -/
theorem displayNumber_eq (hf : x.isFinite = true) (hz : x.isZero = false) :
    displayNumber x = String.ofList
      ((if x.negative then ['-'] else []) ++ plainNumbers.ofNumeral (shortest x .up)) := by
  rw [displayNumber, hf, if_pos rfl, Layout.ofBinary64, hz, if_neg Bool.false_ne_true]
  rfl

/-- A zero is shown as one, without a sign. -/
theorem displayNumber_of_isZero (hz : x.isZero = true) : displayNumber x = "0" := by
  rw [Binary64.eq_zero_of_isZero hz]
  cases x.negative <;> decide +kernel

/-! ## The power that is read back -/

namespace Notation

/-- A text that begins with a digit has no sign. -/
theorem unsigned_digit {c : Char} (hc : c.isDigit = true) (r : List Char) :
    unsigned (c :: r) = (false, c :: r) := by
  rw [unsigned]
  · rintro s hs
    obtain ⟨rfl, -⟩ := List.cons.inj hs
    exact absurd hc (by decide)
  · rintro s hs
    obtain ⟨rfl, -⟩ := List.cons.inj hs
    exact absurd hc (by decide)

/-- Digits are read as the integer they say, with or without a minus, if that is within its
limits. -/
theorem readInteger?_digits {ds : List Char} (hd : ∀ c ∈ ds, c.isDigit = true) (hne : ds ≠ []) :
    readInteger? ds =
      (if Reader.ofDigits ds ≤ maxInteger then some (Reader.ofDigits ds : Int) else none) ∧
    readInteger? ('-' :: ds) =
      if Reader.ofDigits ds ≤ maxInteger + 1 then some (-(Reader.ofDigits ds : Int)) else none := by
  have hany : ¬(ds = [] ∨ ds.any (!Char.isDigit ·) = true) := by simpa [hne] using hd
  obtain ⟨c, r, rfl⟩ := List.exists_cons_of_ne_nil hne
  constructor
  · rw [readInteger?, unsigned_digit (hd c (List.mem_cons_self ..))]
    dsimp only
    rw [if_neg hany]
    rfl
  · rw [readInteger?, unsigned]
    dsimp only
    rw [if_neg hany]
    rfl

/-- An integer other than zero has digits. -/
theorem digitsOf_ne_nil (h : n ≠ 0) : Numeral.digitsOf n.natAbs ≠ [] := by
  obtain ⟨c, r, hr, -⟩ := Reader.digitsOf_eq_cons (Int.natAbs_pos.2 h)
  exact hr ▸ List.cons_ne_nil c r

/-- A negative integer is shown by a minus and its digits. -/
theorem integer_of_neg (h : n < 0) : integer n = '-' :: Numeral.digitsOf n.natAbs := by
  rw [integer, if_neg h.ne, signed, if_pos (decide_eq_true h)]

/-- A positive integer is shown by its digits. -/
theorem integer_of_pos (h : 0 < n) : integer n = Numeral.digitsOf n.natAbs := by
  rw [integer, if_neg h.ne', signed, if_neg (by simpa using h.le)]

/-- **An integer is read back** as long as it is within the limit. -/
theorem readInteger?_integer (h : n.natAbs ≤ maxInteger) : readInteger? (integer n) = some n := by
  rcases lt_trichotomy n 0 with hneg | rfl | hpos
  · obtain ⟨-, hminus⟩ := readInteger?_digits (Decimal.isDigit_of_mem_digitsOf n.natAbs)
      (digitsOf_ne_nil hneg.ne)
    rw [Reader.ofDigits_digitsOf, if_pos (by omega)] at hminus
    rw [integer_of_neg hneg, hminus]
    congr 1
    omega
  · decide +kernel
  · obtain ⟨hplain, -⟩ := readInteger?_digits (Decimal.isDigit_of_mem_digitsOf n.natAbs)
      (digitsOf_ne_nil hpos.ne')
    rw [Reader.ofDigits_digitsOf, if_pos h] at hplain
    rw [integer_of_pos hpos, hplain]
    congr 1
    omega

/-- A text is split at the first one of a character. -/
theorem splitOnce?_eq {c : Char} {front : List Char} (h : c ∉ front) (behind : List Char) :
    splitOnce? c (front ++ c :: behind) = some (front, behind) := by
  have hfront : ∀ a ∈ front, decide (a ≠ c) = true := fun a ha =>
    decide_eq_true fun heq => h (heq ▸ ha)
  rw [splitOnce?, List.dropWhile_append_of_pos hfront, List.takeWhile_append_of_pos hfront,
    List.dropWhile_cons_of_neg (by simp), List.takeWhile_cons_of_neg (by simp), List.append_nil]

/-- There is no `e` in a mantissa. -/
theorem mantissa_no_e (negative : Bool) {ds : List Char} (hd : ∀ c ∈ ds, c.isDigit = true) :
    'e' ∉ signed negative (Layout.mantissa ds) := by
  have hds : 'e' ∉ ds := fun he => absurd (hd 'e' he) (by decide)
  have hmantissa : 'e' ∉ Layout.mantissa ds := by
    rcases ds with _ | ⟨c, _ | ⟨c', r⟩⟩
    · exact hds
    · exact hds
    · change 'e' ∉ c :: '.' :: c' :: r
      simp_all
  cases negative with
  | true => exact List.not_mem_cons_of_ne_of_not_mem (by decide) hmantissa
  | false => exact hmantissa

/-- The sign is a minus in front, or nothing. -/
theorem signed_eq (negative : Bool) (s : List Char) :
    signed negative s = (if negative = true then ['-'] else []) ++ s := by
  cases negative <;> rfl

/-- The notation that stands is that of the place of the first digit. -/
theorem chosen_eq (x : Binary64) :
    (let e := (shortest x .up).exponent
    let mantissa := signed x.negative (Layout.mantissa (shortest x .up).digits)
    if -7 < e ∧ e < 21 then positional x
    else if e < 0 then mantissa ++ 'e' :: integer e
    else mantissa ++ 'e' :: '+' :: integer e) =
      (if x.negative = true then ['-'] else []) ++ plainNumbers.ofNumeral (shortest x .up) := by
  rw [ofNumeral_plain, positional, signed_eq, signed_eq]
  generalize (if x.negative = true then ['-'] else []) = sign
  generalize (shortest x .up).exponent = e
  by_cases hplaces : -7 < e ∧ e < 21
  · rw [if_pos hplaces, if_pos hplaces]
  · rw [if_neg hplaces, if_neg hplaces]
    by_cases hneg : e < 0
    · rw [if_pos hneg, integer_of_neg hneg, Layout.signedPower, if_pos hneg, List.append_assoc]
    · rw [if_neg hneg, integer_of_pos (by omega), Layout.signedPower, if_neg hneg,
        List.append_assoc]

/-- The scientific notation is split where its mantissa ends. -/
theorem splitOnce?_scientific (x : Binary64) : splitOnce? 'e' (scientific x) =
    some (signed x.negative (Layout.mantissa (shortest x .up).digits),
      integer (shortest x .up).exponent) := by
  have hscientific : scientific x = signed x.negative (Layout.mantissa (shortest x .up).digits) ++
      'e' :: integer (shortest x .up).exponent := by
    rw [scientific, signed_eq, signed_eq, List.append_assoc]
  rw [hscientific, splitOnce?_eq (mantissa_no_e x.negative (Reader.isDigit_digits _))]

/-- **Both ways to write a number lead to the same text.** -/
theorem write_eq (x : Binary64) : String.ofList (write x) = displayNumber x := by
  cases hf : x.isFinite with
  | false =>
    rw [write, displayNumber, hf]
    cases hn : x.isNaN with
    | true => rfl
    | false => cases x.negative <;> rfl
  | true =>
    have hn : x.isNaN = false := by
      rw [Binary64.isNaN, Bool.and_eq_false_iff, decide_eq_false_iff_not]
      have he : x.exponent.val < 2047 := by simpa [Binary64.isFinite] using hf
      exact .inl he.ne
    rw [write, hn, hf, if_neg Bool.false_ne_true, if_neg (by simp)]
    cases hz : x.isZero with
    | true =>
      rw [displayNumber_of_isZero hz, if_pos rfl]
    | false =>
      obtain ⟨-, -, hlimit⟩ := Reader.shortest_within_limits .up hf hz
      rw [displayNumber_eq hf hz, if_neg Bool.false_ne_true]
      dsimp only
      rw [splitOnce?_scientific, Option.getD_some]
      dsimp only
      rw [readInteger?_integer hlimit, Option.getD_some]
      exact congrArg String.ofList (chosen_eq x)

end Notation
end Json
end PageBinding
