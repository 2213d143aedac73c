/-
# Shown numbers

The text of a finite number for people has the digits of its shortest decimal, and the same number
is found in it again by a reader that rounds once; so no two numbers have the same text
(`shown_numbers`).

The reader of this library rounds in steps.  What it takes for the decimal of such a text (`taken`)
is that decimal with the zeros before the point as digits, as far as these fit in a coefficient.  It
finds the number if the steps end at the nearest number to that, and only then
(`parse_displayNumber_iff`).
-/

import PageBinding.Proofs.Json.Numerals
import PageBinding.Proofs.Json.Rereading

namespace PageBinding
namespace Json

open Decimal (Binary64 Layout Numeral IsShortest shortest)

namespace Reader

variable {negative : Bool} {n : Nat} {p : Int} {d : Numeral} {x y : Binary64} {rest : List Char}

/-! ## What is taken for the decimal -/

/-- The decimal that the text of a number is taken for.  Without a power, zeros before the point are
digits as long as the coefficient is within its limit. -/
def taken (d : Numeral) : Numeral :=
  if 0 ≤ d.power ∧ d.exponent < 21 then
    let (coefficient, beyond) := continued d.coefficient (List.replicate d.power.toNat '0')
    ⟨coefficient, beyond.length⟩
  else d

/-- The decimal of a text without a point. -/
theorem taken_whole (hp : 0 ≤ d.power) (he : d.exponent < 21) : taken d =
    ⟨(continued d.coefficient (List.replicate d.power.toNat '0')).1,
      (continued d.coefficient (List.replicate d.power.toNat '0')).2.length⟩ :=
  if_pos ⟨hp, he⟩

/-- **The decimal that is taken** has the same value. -/
theorem value_taken (d : Numeral) : (taken d).value = d.value := by
  by_cases hwhole : 0 ≤ d.power ∧ d.exponent < 21
  · obtain ⟨hp, he⟩ := hwhole
    obtain ⟨j, hj, hcontinued⟩ := continued_zeros d.coefficient d.power.toNat
    obtain ⟨k, hk⟩ : ∃ k, d.power.toNat = j + k := ⟨d.power.toNat - j, by omega⟩
    have hpower : d.power = (j + k : ℕ) := by omega
    rw [taken_whole hp he, hcontinued, hk, Nat.add_sub_cancel_left, Numeral.value, Numeral.value,
      List.length_replicate, hpower, zpow_natCast, zpow_natCast, pow_add]
    push_cast
    ring
  · rw [taken, if_neg hwhole]

/-- Digits with zeros up to the point are read as the decimal they are taken for. -/
theorem number_zeros (hc : 0 < d.coefficient) (hlimit : d.coefficient ≤ coefficientLimit)
    (hp : 0 ≤ d.power) (he : d.exponent < 21) (h : Ended rest) :
    number negative (Layout.positional false d.digits d.exponent ++ rest) =
      finish negative (taken d).coefficient (taken d).power rest := by
  obtain ⟨hexp, hlen, -⟩ := exponent_eq hc
  have hzeros : d.exponent.toNat + 1 - d.digits.length = d.power.toNat := by omega
  have htext : Layout.positional false d.digits d.exponent =
      d.digits ++ List.replicate d.power.toNat '0' := by
    rw [Layout.positional, if_neg (by omega)]
    dsimp only
    rw [if_pos (by omega), if_neg Bool.false_ne_true, List.append_nil, hzeros]
  have hdigits : 0 * 10 ^ d.digits.length + ofDigits d.digits = d.coefficient := by
    rw [zero_mul, zero_add, ofDigits_digits]
  have hcontinued : continued 0 (d.digits ++ List.replicate d.power.toNat '0') =
      continued d.coefficient (List.replicate d.power.toNat '0') := by
    rw [continued_append (by rwa [hdigits]), hdigits]
  obtain ⟨c, r, hr, -, hfirst⟩ := digitsOf_eq_cons hc
  rw [htext, number_whole (List.forall_mem_append.2 ⟨isDigit_digits d, isDigit_zeros _⟩)
    ⟨c, _, by rw [Numeral.digits, hr]; rfl, hfirst⟩ h.isDigit, hcontinued,
    fractionPart_no_point fun c hc => (h c hc).2.1, exponentPart_ended h, taken_whole hp he]

/-- **The digits of a shown number are read as the decimal that is taken.** -/
theorem number_shown (negative : Bool) (hc : 0 < d.coefficient)
    (hlimit : d.coefficient ≤ coefficientLimit) (he : d.exponent.natAbs ≤ exponentLimit)
    (h : Ended rest) :
    number negative (plainNumbers.ofNumeral d ++ rest) =
      finish negative (taken d).coefficient (taken d).power rest := by
  obtain ⟨hexp, hlen, -⟩ := exponent_eq hc
  rw [ofNumeral_plain]
  by_cases hplaces : -7 < d.exponent ∧ d.exponent < 21
  · rw [if_pos hplaces]
    rcases lt_or_ge d.power 0 with hp | hp
    · rw [taken, if_neg (by omega)]
      rcases lt_or_ge d.exponent 0 with hneg | hpos
      · exact number_fractional false hc hlimit hneg h
      · exact number_mixed false hc hlimit hp hpos h
    · exact number_zeros hc hlimit hp hplaces.2 h
  · rw [if_neg hplaces, taken, if_neg (by omega)]
    exact number_scientific hc hlimit (by omega) he h

/-! ## The number that is found -/

/-- The steps from the text of a number end at the nearest number. -/
def ShownExactly (x : Binary64) : Prop :=
  let d := taken (shortest x .up)
  Binary64.ofParts? x.negative d.coefficient d.power =
    Binary64.ofDecimal? x.negative d.coefficient d.power

instance : DecidablePred ShownExactly := fun _ => inferInstanceAs (Decidable (_ = _))

/-- **Short numbers are found again,** those of a coefficient below `2^53` and a power that is a
number itself. -/
theorem shownExactly_of_short (hc : (taken (shortest x .up)).coefficient < 2 ^ 53)
    (hlow : -22 ≤ (taken (shortest x .up)).power) (hhigh : (taken (shortest x .up)).power ≤ 22) :
    ShownExactly x :=
  Binary64.ofParts?_eq_ofDecimal? hc hlow hhigh

/-- The text `123456789012345680000` is read as the number below the one that it is the text of. -/
example : ¬ShownExactly (.ofBits 0x441ac53a7e04bcda) := by decide +kernel

/-- A number is shown exactly if what its text is taken for is scaled back to it. -/
theorem shownExactly_iff (hf : x.isFinite = true) (hz : x.isZero = false) : ShownExactly x ↔
    Binary64.ofParts? x.negative (taken (shortest x .up)).coefficient
      (taken (shortest x .up)).power = some x := by
  have hread : Binary64.ofDecimal? x.negative (taken (shortest x .up)).coefficient
      (taken (shortest x .up)).power = some x := by
    refine (Binary64.ofDecimal?_eq_some_iff hf hz).2 ?_
    have hcovers := Decimal.covers_shortest hz .up
    rw [← value_taken] at hcovers
    exact hcovers
  rw [ShownExactly, hread]

/-- A whole text that is a number. -/
theorem parse_digits {c : Char} {r : List Char} (hc : c.isDigit = true)
    (h : number negative (c :: r) = finish negative n p []) :
    parse (String.ofList ((if negative = true then ['-'] else []) ++ c :: r)) = .ok (.number x) ↔
      Binary64.ofParts? negative n p = some x := by
  obtain ⟨fuel, hfuel⟩ :
      ∃ fuel, fuel = ((if negative = true then ['-'] else []) ++ c :: r).length := ⟨_, rfl⟩
  have hvalue : value fuel maxDepth ((if negative = true then ['-'] else []) ++ c :: r) =
      (finish negative n p []).map fun found => (.number found.1, found.2) := by
    obtain ⟨inside, hinside⟩ := Value.value_eq fuel maxDepth
    rw [hinside]
    cases negative with
    | true =>
      rw [← h]
      rfl
    | false =>
      rw [← h]
      exact valueWith_digit fuel inside r hc
  rw [parse, String.toList_ofList, ← hfuel, hvalue, finish]
  cases hparts : Binary64.ofParts? negative n p with
  | none => simp [before, Except.map]
  | some y =>
    change Except.ok (Value.number y) = _ ↔ _
    simp

end Reader

variable {x : Binary64}

open Reader (ShownExactly)

/-- **The reader finds a shown number again** just if its steps end at the nearest number. -/
theorem parse_displayNumber_iff (hf : x.isFinite = true) (hz : x.isZero = false) :
    parse (displayNumber x) = .ok (.number x) ↔ ShownExactly x := by
  obtain ⟨hc, hlimit, he⟩ := Reader.shortest_within_limits .up hf hz
  have hended : Reader.Ended [] := nofun
  have hnumber := Reader.number_shown x.negative hc hlimit he hended
  obtain ⟨c, r, hr, hdigit⟩ := ((written_ofNumeral hc).tells hc).head
  rw [List.append_nil, hr] at hnumber
  rw [Reader.shownExactly_iff hf hz, displayNumber_eq hf hz, hr]
  exact Reader.parse_digits hdigit hnumber

/-- **The text of a number is that of its shortest decimal,** and it tells the number.  Both ways to
find the text agree; it is positional while the first digit is one from `10^-6` to below `10^21`,
and otherwise has a power.  A reader that rounds once finds the number again, and the reader of
this library does just if its steps round as well as that.  Numbers other than zero with the same
text are the same, and zero has its own text, whatever its sign. -/
theorem shown_numbers :
    (∀ x : Binary64, (Value.number x).display = String.ofList (Notation.write x)) ∧
    (∀ x : Binary64, x.isFinite = true → x.isZero = false → ∃ d text,
      (∀ e, IsShortest x e ↔ e = d) ∧ Written d text ∧
      (Value.number x).display = String.ofList ((if x.negative then ['-'] else []) ++ text) ∧
      nearestNumber? (Value.number x).display = some x ∧
      (parse (Value.number x).display = .ok (.number x) ↔ ShownExactly x)) ∧
    (∀ x y : Binary64, x.isFinite = true → x.isZero = false → y.isFinite = true → y.isZero = false →
      (Value.number x).display = (Value.number y).display → x = y) ∧
    ∀ x : Binary64, x.isFinite = true → ((Value.number x).display = "0" ↔ x.isZero = true) := by
  refine ⟨fun x => (Notation.write_eq x).symm, fun x hf hz => ?_, fun x y hx hx' hy hy' h => ?_,
    fun x hf => ⟨fun h => ?_, displayNumber_of_isZero⟩⟩
  · exact ⟨shortest x .up, plainNumbers.ofNumeral (shortest x .up),
      fun e => Decimal.isShortest_iff hf hz, written_ofNumeral (Decimal.shortest_pos hf hz .up),
      displayNumber_eq hf hz, nearestNumber?_display hf hz, parse_displayNumber_iff hf hz⟩
  · have hread := nearestNumber?_display hx hx'
    rw [show displayNumber x = displayNumber y from h, nearestNumber?_display hy hy'] at hread
    exact (Option.some.inj hread).symm
  · by_contra hz
    rw [Bool.not_eq_true] at hz
    have hread := nearestNumber?_display hf hz
    rw [show displayNumber x = "0" from h] at hread
    have hzero : nearestNumber? "0" = some (.zero false) := by decide +kernel
    rw [← Option.some.inj (hzero.symm.trans hread)] at hz
    cases hz

/-- The numbers on both sides of where the notation changes. -/
theorem shown_numbers_at_bounds :
    let shown := fun b : Nat => (Value.number (.ofBits b)).display
    (shown 0x3eb0c6f7a0b5ed8d, shown 0x3eb0c6f7a0b5ed8c) = ("0.000001", "9.999999999999997e-7") ∧
      nearestNumber? (shown 0x3eb0c6f7a0b5ed8c) = some (.ofBits 0x3eb0c6f7a0b5ed8c) ∧
      shown 0x3eb0c6f7a0b5ed8c ≠ shown 0xbeb0c6f7a0b5ed8c := by
  intro shown
  obtain ⟨hwrite, hshown, happart, -⟩ := shown_numbers
  refine ⟨by decide +kernel, ?_, fun h => ?_⟩
  · obtain ⟨d, text, -, -, -, hread, -⟩ :=
      hshown (.ofBits 0x3eb0c6f7a0b5ed8c) (by decide +kernel) (by decide +kernel)
    exact hread
  · have hsame := happart _ _ (by decide +kernel) (by decide +kernel) (by decide +kernel)
      (by decide +kernel) h
    exact absurd hsame (by decide +kernel)

end Json
end PageBinding
