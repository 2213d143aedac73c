/-
# Reading numbers back

A number that files keep is read to its end, and its digits say the shortest decimal of the
number, with the zeros that a decimal point takes (`number_ofNumeral`).  So the same number is
read if that decimal is rounded correctly (`valueWith_number`).

| the literal | coefficient | power |
| --- | --- | --- |
| `0.000ddd`, `dd.ddd`, `d.ddde±p` | the digits | that of the last digit |
| `ddd000.0` | the digits and the zeros | `-1` |

The steps that lead to the number may end at a neighbour of the nearest one.  They do not for
short literals (`correctlyRounded_of_short`).
-/

import PageBinding.Json.Printer
import PageBinding.Json.Reader
import PageBinding.Proofs.Decimal.Stepwise
import PageBinding.Proofs.Template.Unbraced

namespace PageBinding

open Decimal (Binary64 Layout Numeral shortest)

namespace Json
namespace Reader

variable {negative : Bool} {n whole : Nat} {p : Int} {ds t rest : List Char}

/-! ## Digits -/

/-- Digits read behind a number shift it to the left and are added. -/
theorem foldl_digits (n : Nat) (ds : List Char) :
    ds.foldl (fun n c => 10 * n + (c.toNat - 48)) n = n * 10 ^ ds.length + ofDigits ds := by
  induction ds generalizing n with
  | nil => simp [ofDigits]
  | cons c r ih =>
    have hzero : ofDigits (c :: r) = _ := ih (10 * 0 + (c.toNat - 48))
    rw [List.foldl_cons, ih, hzero, List.length_cons, pow_succ]
    ring

/-- The first digit counts for as many places as follow it. -/
theorem ofDigits_cons (c : Char) (r : List Char) :
    ofDigits (c :: r) = (c.toNat - 48) * 10 ^ r.length + ofDigits r := by
  rw [ofDigits, List.foldl_cons, foldl_digits]
  ring

/-- Digits in front count for as many places as follow them. -/
theorem ofDigits_append (a b : List Char) :
    ofDigits (a ++ b) = ofDigits a * 10 ^ b.length + ofDigits b := by
  rw [ofDigits, List.foldl_append, foldl_digits]
  rfl

/-- Zeros say zero. -/
theorem ofDigits_zeros (k : Nat) : ofDigits (List.replicate k '0') = 0 := by
  induction k with
  | zero => rfl
  | succ k ih =>
    rw [List.replicate_succ, ofDigits_cons, ih, show '0'.toNat - 48 = 0 from rfl, zero_mul]

/-- The digits of a number say that number. -/
theorem ofDigits_digitsOf (n : Nat) : ofDigits (Numeral.digitsOf n) = n := by
  fun_induction Numeral.digitsOf n with
  | case1 => rfl
  | case2 n _ ih =>
    have key : ∀ d < 10, (Char.ofNat (48 + d)).toNat - 48 = d := by decide
    rw [ofDigits_append, ih, ofDigits_cons, key _ (Nat.mod_lt _ (by decide))]
    simp only [List.length_cons, List.length_nil, ofDigits, List.foldl_nil]
    omega

/-- The first digit of a number is not zero. -/
theorem digitsOf_eq_cons (hn : 0 < n) :
    ∃ c r, Numeral.digitsOf n = c :: r ∧ c.isDigit = true ∧ c ≠ '0' := by
  fun_induction Numeral.digitsOf n with
  | case1 => exact absurd hn (lt_irrefl 0)
  | case2 n _ ih =>
    rcases Nat.eq_zero_or_pos (n / 10) with h | h
    · have key : ∀ d < 10, 0 < d →
          (Char.ofNat (48 + d)).isDigit = true ∧ Char.ofNat (48 + d) ≠ '0' := by
        decide
      rw [h, Numeral.digitsOf, if_pos rfl]
      exact ⟨_, [], rfl, key _ (Nat.mod_lt _ (by decide)) (by omega)⟩
    · obtain ⟨c, r, hr, hc⟩ := ih h
      exact ⟨c, _, by rw [hr]; rfl, hc⟩

/-- A number has as many digits as are counted. -/
theorem length_digitsOf (n : Nat) : (Numeral.digitsOf n).length = Binary64.digitCount n := by
  fun_induction Numeral.digitsOf n with
  | case1 => rw [Binary64.digitCount, dif_pos rfl]; rfl
  | case2 n h ih => rw [Binary64.digitCount, dif_neg h, List.length_append, ih]; rfl

/-- A coefficient takes digits as long as it is below the limit. -/
theorem continued_append (h : n * 10 ^ ds.length + ofDigits ds ≤ coefficientLimit) (t : List Char) :
    continued n (ds ++ t) = continued (n * 10 ^ ds.length + ofDigits ds) t := by
  induction ds generalizing n with
  | nil => simp [ofDigits]
  | cons c r ih =>
    have hsum : n * 10 ^ (c :: r).length + ofDigits (c :: r) =
        (10 * n + (c.toNat - 48)) * 10 ^ r.length + ofDigits r := by
      rw [ofDigits_cons, List.length_cons, pow_succ]
      ring
    rw [hsum] at h ⊢
    have hle : 10 * n + (c.toNat - 48) ≤ coefficientLimit :=
      (Nat.le_mul_of_pos_right _ (Nat.pow_pos (by decide))).trans ((Nat.le_add_right ..).trans h)
    simp only [List.cons_append, continued]
    rw [if_neg (by omega), ih h]

/-- **A coefficient below the limit takes all digits.** -/
theorem continued_eq (h : n * 10 ^ ds.length + ofDigits ds ≤ coefficientLimit) :
    continued n ds = (n * 10 ^ ds.length + ofDigits ds, []) := by
  have happend := continued_append h []
  rwa [List.append_nil] at happend

/-- Zeros that a coefficient does not take count as places. -/
theorem continued_zeros (n k : Nat) : ∃ j ≤ k,
    continued n (List.replicate k '0') = (n * 10 ^ j, List.replicate (k - j) '0') := by
  induction k generalizing n with
  | zero => exact ⟨0, Nat.le_refl 0, by simp [continued]⟩
  | succ k ih =>
    by_cases hlimit : 10 * n > coefficientLimit
    · refine ⟨0, Nat.zero_le _, ?_⟩
      rw [List.replicate_succ, continued, if_pos (show 10 * n + ('0'.toNat - 48) > _ from hlimit),
        pow_zero, mul_one, Nat.sub_zero, List.replicate_succ]
    · obtain ⟨j, hj, hcontinued⟩ := ih (10 * n)
      refine ⟨j + 1, Nat.succ_le_succ hj, ?_⟩
      rw [List.replicate_succ, continued, Nat.succ_sub_succ, pow_succ', ← mul_assoc, mul_comm n 10,
        ← hcontinued]
      exact if_neg hlimit

/-- An exponent within its limit is not refused. -/
theorem overLimit?_eq_none (hd : ∀ c ∈ ds, c.isDigit = true) (ht : ∀ c ∈ t.head?, c.isDigit = false)
    (h : n * 10 ^ ds.length + ofDigits ds ≤ exponentLimit) : overLimit? n (ds ++ t) = none := by
  induction ds generalizing n with
  | nil =>
    cases t with
    | nil => rfl
    | cons c r =>
      rw [List.nil_append, overLimit?, if_neg (by simp [ht c rfl])]
  | cons c r ih =>
    obtain ⟨hc, hr⟩ := List.forall_mem_cons.1 hd
    have hsum : n * 10 ^ (c :: r).length + ofDigits (c :: r) =
        (10 * n + (c.toNat - 48)) * 10 ^ r.length + ofDigits r := by
      rw [ofDigits_cons, List.length_cons, pow_succ]
      ring
    rw [hsum] at h
    have hle : 10 * n + (c.toNat - 48) ≤ exponentLimit :=
      (Nat.le_mul_of_pos_right _ (Nat.pow_pos (by decide))).trans ((Nat.le_add_right ..).trans h)
    rw [List.cons_append, overLimit?, if_pos hc]
    dsimp only
    rw [if_neg (by omega), ih hr h]

/-- Digits are taken up to what is no digit. -/
theorem takeWhile_digits (hd : ∀ c ∈ ds, c.isDigit = true) (ht : ∀ c ∈ t.head?, c.isDigit = false) :
    (ds ++ t).takeWhile Char.isDigit = ds ∧ (ds ++ t).dropWhile Char.isDigit = t := by
  rw [List.takeWhile_append_of_pos hd, List.dropWhile_append_of_pos hd]
  cases t with
  | nil => exact ⟨List.append_nil ds, rfl⟩
  | cons c r =>
    have hc : ¬ c.isDigit = true := by simp [ht c rfl]
    rw [List.takeWhile_cons_of_neg hc, List.dropWhile_cons_of_neg hc, List.append_nil]
    exact ⟨rfl, rfl⟩

/-! ## The parts of a literal -/

/-- What follows a number does not continue it. -/
def Ended (rest : List Char) : Prop :=
  ∀ c ∈ rest.head?, c.isDigit = false ∧ c ≠ '.' ∧ c ≠ 'e' ∧ c ≠ 'E'

/-- What ends a number begins with no digit. -/
theorem Ended.isDigit (h : Ended rest) : ∀ c ∈ rest.head?, c.isDigit = false := fun c hc => (h c hc).1

/-- Without an `e` there is no exponent. -/
theorem exponentPart_ended (h : Ended rest) :
    exponentPart negative n p rest = finish negative n p rest := by
  cases rest with
  | nil => rfl
  | cons c r =>
    obtain ⟨-, -, he, hE⟩ := h c rfl
    rw [exponentPart.eq_def]
    exact if_neg (by simp [he, hE])

/-- The digits of an exponent after its sign. -/
theorem exponentPart_digits (down : Bool) (hd : ∀ c ∈ ds, c.isDigit = true) (hne : ds ≠ [])
    (hlimit : ofDigits ds ≤ exponentLimit) (h : Ended rest) :
    exponentPart negative n p ('e' :: (if down then '-' else '+') :: (ds ++ rest)) =
      finish negative n (if down then p - ofDigits ds else p + ofDigits ds) rest := by
  have hover : overLimit? 0 (ds ++ rest) = none :=
    overLimit?_eq_none hd h.isDigit (by rwa [zero_mul, zero_add])
  obtain ⟨htake, hdrop⟩ := takeWhile_digits hd h.isDigit
  obtain ⟨c, r, rfl⟩ := List.exists_cons_of_ne_nil hne
  have hc := hd c (List.mem_cons_self ..)
  rw [List.cons_append] at hover htake hdrop ⊢
  rw [exponentPart.eq_def]
  cases down <;> simp [hc, hover, htake, hdrop]

/-- A signed power behind an `e` is added to the power. -/
theorem exponentPart_signedPower {e : Int} (he : e ≠ 0) (hlimit : e.natAbs ≤ exponentLimit)
    (h : Ended rest) :
    exponentPart negative n p ('e' :: (Layout.signedPower e ++ rest)) =
      finish negative n (p + e) rest := by
  obtain ⟨c, r, hr, -⟩ := digitsOf_eq_cons (Int.natAbs_pos.2 he)
  have hne : Numeral.digitsOf e.natAbs ≠ [] := hr ▸ List.cons_ne_nil c r
  have hd := Decimal.isDigit_of_mem_digitsOf e.natAbs
  rw [← ofDigits_digitsOf e.natAbs] at hlimit
  rw [Layout.signedPower, List.cons_append]
  split_ifs with hneg
  · refine (exponentPart_digits true hd hne hlimit h).trans ?_
    rw [if_pos rfl, ofDigits_digitsOf, Int.ofNat_natAbs_of_nonpos hneg.le, sub_neg_eq_add]
  · refine (exponentPart_digits false hd hne hlimit h).trans ?_
    rw [if_neg Bool.false_ne_true, ofDigits_digitsOf, Int.natAbs_of_nonneg (not_lt.1 hneg)]

/-- Digits behind a point are added to the coefficient, each one lowering the power. -/
theorem fractionPart_point (hd : ∀ c ∈ ds, c.isDigit = true) (hne : ds ≠ [])
    (ht : ∀ c ∈ t.head?, c.isDigit = false)
    (hlimit : whole * 10 ^ ds.length + ofDigits ds ≤ coefficientLimit) :
    fractionPart negative whole p ('.' :: ds ++ t) =
      exponentPart negative (whole * 10 ^ ds.length + ofDigits ds) (p - ds.length) t := by
  obtain ⟨htake, hdrop⟩ := takeWhile_digits hd ht
  rw [List.cons_append, fractionPart]
  simp only [htake, hdrop]
  rw [if_neg hne, continued_eq hlimit]
  simp

/-- Without a point there are no decimals. -/
theorem fractionPart_no_point (h : ∀ c ∈ t.head?, c ≠ '.') :
    fractionPart negative whole p t = exponentPart negative whole p t := by
  cases t with
  | nil => rfl
  | cons c r =>
    rw [fractionPart]
    rintro r' hr
    exact h c rfl (List.cons.inj hr).1

/-- The digits before the point; a zero has to stand alone. -/
theorem number_whole (hd : ∀ c ∈ ds, c.isDigit = true) (hfirst : ∃ c r, ds = c :: r ∧ c ≠ '0')
    (ht : ∀ c ∈ t.head?, c.isDigit = false) :
    number negative (ds ++ t) =
      fractionPart negative (continued 0 ds).1 (continued 0 ds).2.length t := by
  obtain ⟨c, r, rfl, hc⟩ := hfirst
  obtain ⟨htake, hdrop⟩ := takeWhile_digits hd ht
  rw [List.cons_append] at htake hdrop ⊢
  rw [number, if_pos (hd c (List.mem_cons_self ..)), htake, hdrop]
  exact hc

/-- Digits that do not begin with zero are read as the whole part of a number. -/
theorem number_digits (hd : ∀ c ∈ ds, c.isDigit = true) (hfirst : ∃ c r, ds = c :: r ∧ c ≠ '0')
    (ht : ∀ c ∈ t.head?, c.isDigit = false) (hlimit : ofDigits ds ≤ coefficientLimit) :
    number negative (ds ++ t) = fractionPart negative (ofDigits ds) 0 t := by
  have hcontinued : continued 0 ds = (0 * 10 ^ ds.length + ofDigits ds, []) :=
    continued_eq (by rwa [zero_mul, zero_add])
  rw [zero_mul, zero_add] at hcontinued
  rw [number_whole hd hfirst ht, hcontinued]
  rfl

/-! ## Literals -/

/-- The decimal that the literal of a number says: without an exponent it has a decimal, and zeros
before the point are digits. -/
def literal (d : Numeral) : Numeral :=
  if 0 ≤ d.power ∧ d.exponent ≤ fileNumbers.highest then
    ⟨d.coefficient * 10 ^ (d.power.toNat + 1), -1⟩
  else d

/-- The decimal that a literal says has the value of the decimal that was written. -/
theorem value_literal (d : Numeral) : (literal d).value = d.value := by
  rw [literal]
  split_ifs with h
  · obtain ⟨k, hk⟩ := Int.eq_ofNat_of_zero_le h.1
    rw [Numeral.value, Numeral.value, hk, Int.toNat_natCast, zpow_natCast, pow_succ]
    push_cast
    rw [zpow_neg_one]
    ring
  · rfl

variable {d : Numeral}

/-- The places of the first and of the last digit. -/
theorem exponent_eq (hc : 0 < d.coefficient) :
    d.exponent = d.power + d.digits.length - 1 ∧ 0 < d.digits.length ∧
      d.coefficient < 10 ^ d.digits.length := by
  obtain ⟨-, hlt, hpos⟩ := Decimal.digitCount_spec hc
  rw [← length_digitsOf] at hlt hpos
  exact ⟨rfl, hpos, hlt⟩

/-- The digits of a decimal are digits. -/
theorem isDigit_digits (d : Numeral) : ∀ c ∈ d.digits, c.isDigit = true :=
  Decimal.isDigit_of_mem_digitsOf _

/-- Zeros are digits. -/
theorem isDigit_zeros (k : Nat) : ∀ c ∈ List.replicate k '0', c.isDigit = true := fun _ hc =>
  List.eq_of_mem_replicate hc ▸ rfl

/-- The digits of a decimal say its coefficient. -/
theorem ofDigits_digits (d : Numeral) : ofDigits d.digits = d.coefficient := ofDigits_digitsOf _

/-- Digits behind a point and zeros are read as the decimal they show. -/
theorem number_fractional (point : Bool) (hc : 0 < d.coefficient)
    (hlimit : d.coefficient ≤ coefficientLimit) (he : d.exponent < 0) (h : Ended rest) :
    number negative (Layout.positional point d.digits d.exponent ++ rest) =
      finish negative d.coefficient d.power rest := by
  obtain ⟨hexp, hlen, -⟩ := exponent_eq hc
  rw [Layout.positional, if_pos he]
  have hd : ∀ c ∈ List.replicate (-d.exponent - 1).toNat '0' ++ d.digits, c.isDigit = true :=
    List.forall_mem_append.2 ⟨isDigit_zeros _, isDigit_digits d⟩
  have hvalue : ofDigits (List.replicate (-d.exponent - 1).toNat '0' ++ d.digits) = d.coefficient := by
    rw [ofDigits_append, ofDigits_zeros, ofDigits_digits, zero_mul, zero_add]
  have hne : List.replicate (-d.exponent - 1).toNat '0' ++ d.digits ≠ [] :=
    List.append_ne_nil_of_right_ne_nil _ (List.ne_nil_of_length_pos hlen)
  have hzero : ∀ r, number negative ('0' :: '.' :: r) = fractionPart negative 0 0 ('.' :: r) :=
    fun r => rfl
  rw [List.cons_append, List.cons_append, hzero, ← List.cons_append,
    fractionPart_point hd hne h.isDigit (by rw [hvalue]; omega), exponentPart_ended h, hvalue,
    List.length_append, List.length_replicate]
  congr 1
  · omega
  · omega

/-- Digits before a point are read as the decimal they show, with one decimal. -/
theorem number_integral (hc : 0 < d.coefficient) (hp : 0 ≤ d.power) (he : d.exponent ≤ 15)
    (h : Ended rest) :
    number negative (Layout.positional true d.digits d.exponent ++ rest) =
      finish negative (d.coefficient * 10 ^ (d.power.toNat + 1)) (-1) rest := by
  obtain ⟨hexp, hlen, hlt⟩ := exponent_eq hc
  have hzeros : d.exponent.toNat + 1 - d.digits.length = d.power.toNat := by omega
  rw [Layout.positional, if_neg (by omega)]
  dsimp only
  rw [if_pos (by omega), if_pos rfl, hzeros, List.append_assoc]
  have hd : ∀ c ∈ d.digits ++ List.replicate d.power.toNat '0', c.isDigit = true :=
    List.forall_mem_append.2 ⟨isDigit_digits d, isDigit_zeros _⟩
  have hvalue : ofDigits (d.digits ++ List.replicate d.power.toNat '0') =
      d.coefficient * 10 ^ d.power.toNat := by
    rw [ofDigits_append, ofDigits_zeros, ofDigits_digits, List.length_replicate, add_zero]
  have hlimit : d.coefficient * 10 ^ d.power.toNat * 10 ^ 1 ≤ coefficientLimit := by
    calc d.coefficient * 10 ^ d.power.toNat * 10 ^ 1
        ≤ 10 ^ d.digits.length * 10 ^ d.power.toNat * 10 ^ 1 :=
          Nat.mul_le_mul_right _ (Nat.mul_le_mul_right _ hlt.le)
      _ = 10 ^ (d.digits.length + d.power.toNat + 1) := by rw [← pow_add, ← pow_add]
      _ ≤ 10 ^ 17 := Nat.pow_le_pow_right (by decide) (by omega)
      _ ≤ coefficientLimit := by decide
  obtain ⟨c, r, hr, -, hfirst⟩ := digitsOf_eq_cons hc
  have hpoint : fractionPart negative (d.coefficient * 10 ^ d.power.toNat) 0
      ('.' :: ['0'] ++ rest) = _ :=
    fractionPart_point (List.forall_mem_singleton.2 rfl) (by decide) h.isDigit hlimit
  rw [number_digits hd ⟨c, _, by rw [Numeral.digits, hr]; rfl, hfirst⟩ (by simp) (by omega), hvalue]
  refine hpoint.trans ?_
  rw [exponentPart_ended h, pow_succ, ← mul_assoc]
  rfl

/-- Digits before and behind a point are read as the decimal they show. -/
theorem number_mixed (point : Bool) (hc : 0 < d.coefficient)
    (hlimit : d.coefficient ≤ coefficientLimit) (hp : d.power < 0) (he : 0 ≤ d.exponent)
    (h : Ended rest) :
    number negative (Layout.positional point d.digits d.exponent ++ rest) =
      finish negative d.coefficient d.power rest := by
  obtain ⟨hexp, hlen, -⟩ := exponent_eq hc
  rw [Layout.positional, if_neg (by omega)]
  dsimp only
  rw [if_neg (by omega)]
  obtain ⟨k, hk⟩ : ∃ k, k = d.exponent.toNat + 1 := ⟨_, rfl⟩
  rw [← hk, List.append_assoc]
  have hd := isDigit_digits d
  have hvalue : ofDigits (d.digits.take k) * 10 ^ (d.digits.drop k).length +
      ofDigits (d.digits.drop k) = d.coefficient := by
    rw [← ofDigits_append, List.take_append_drop, ofDigits_digits]
  have hwhole : ofDigits (d.digits.take k) ≤ coefficientLimit := by
    have := Nat.le_mul_of_pos_right (ofDigits (d.digits.take k))
      (Nat.pow_pos (n := (d.digits.drop k).length) (show 0 < 10 by decide))
    omega
  have hne : d.digits.drop k ≠ [] := by
    refine List.ne_nil_of_length_pos ?_
    rw [List.length_drop]
    omega
  obtain ⟨c, r, hr, -, hfirst⟩ := digitsOf_eq_cons hc
  have htake : ∃ c r, d.digits.take k = c :: r ∧ c ≠ '0' := by
    refine ⟨c, r.take (k - 1), ?_, hfirst⟩
    rw [Numeral.digits, hr, hk]
    rfl
  rw [number_digits (fun c hc => hd c (List.mem_of_mem_take hc)) htake (by simp) hwhole,
    fractionPart_point (fun c hc => hd c (List.mem_of_mem_drop hc)) hne h.isDigit
      (by rw [hvalue]; exact hlimit), hvalue, exponentPart_ended h, List.length_drop]
  congr 1
  omega

/-- A mantissa with a power is read as the decimal they show. -/
theorem number_scientific (hc : 0 < d.coefficient) (hlimit : d.coefficient ≤ coefficientLimit)
    (he : d.exponent ≠ 0) (helimit : d.exponent.natAbs ≤ exponentLimit) (h : Ended rest) :
    number negative (Layout.mantissa d.digits ++ 'e' :: Layout.signedPower d.exponent ++ rest) =
      finish negative d.coefficient d.power rest := by
  obtain ⟨hexp, hlen, -⟩ := exponent_eq hc
  obtain ⟨c, r, hr, -, hfirst⟩ := digitsOf_eq_cons hc
  change d.digits = c :: r at hr
  have hd := isDigit_digits d
  have hvalue : ofDigits [c] * 10 ^ r.length + ofDigits r = d.coefficient := by
    rw [← ofDigits_append, List.singleton_append, ← hr, ofDigits_digits]
  have hwhole : ofDigits [c] ≤ coefficientLimit := by
    have := Nat.le_mul_of_pos_right (ofDigits [c]) (Nat.pow_pos (n := r.length) (show 0 < 10 by decide))
    omega
  rw [hr] at hexp hd ⊢
  obtain ⟨hfirstDigit, hdr⟩ := List.forall_mem_cons.1 hd
  have hnumber : ∀ t : List Char, (∀ c ∈ t.head?, c.isDigit = false) →
      number negative ([c] ++ t) = fractionPart negative (ofDigits [c]) 0 t := fun t ht =>
    number_digits (List.forall_mem_singleton.2 hfirstDigit) ⟨c, [], rfl, hfirst⟩ ht hwhole
  cases r with
  | nil =>
    change number negative ([c] ++ 'e' :: (Layout.signedPower d.exponent ++ rest)) = _
    rw [hnumber _ (by simp), fractionPart_no_point (by simp),
      exponentPart_signedPower he helimit h]
    simp only [List.length_nil, pow_zero, mul_one, ofDigits, List.foldl_nil, add_zero] at hvalue
    simp only [List.length_cons, List.length_nil] at hexp
    congr 1
    omega
  | cons e r =>
    have hsplit : Layout.mantissa (c :: e :: r) ++ 'e' :: Layout.signedPower d.exponent ++ rest =
        [c] ++ ('.' :: (e :: r) ++ 'e' :: (Layout.signedPower d.exponent ++ rest)) := by
      simp [Layout.mantissa]
    rw [hsplit, hnumber _ (by simp), fractionPart_point hdr (List.cons_ne_nil e r) (by simp)
      (by rw [hvalue]; exact hlimit), exponentPart_signedPower he helimit h, hvalue]
    simp only [List.length_cons] at hexp ⊢
    congr 1
    push_cast at hexp ⊢
    omega

/-- **The digits of a literal are read as its decimal.** -/
theorem number_ofNumeral (hc : 0 < d.coefficient) (hlimit : d.coefficient ≤ coefficientLimit)
    (he : d.exponent.natAbs ≤ exponentLimit) (h : Ended rest) :
    number negative (fileNumbers.ofNumeral d ++ rest) =
      finish negative (literal d).coefficient (literal d).power rest := by
  obtain ⟨hexp, hlen, -⟩ := exponent_eq hc
  have hhigh : fileNumbers.highest = 15 := rfl
  have hlow : fileNumbers.lowest = -5 := rfl
  rw [Layout.ofNumeral, literal]
  split_ifs with hpositional hintegral hintegral
  · exact number_integral hc hintegral.1 hintegral.2 h
  · rcases lt_or_ge d.exponent 0 with hneg | hpos
    · exact number_fractional true hc hlimit hneg h
    · exact number_mixed true hc hlimit (by omega) hpos h
  · omega
  · exact number_scientific hc hlimit (by omega) he h

/-! ## Numbers in files -/

variable {x : Binary64}

/-- The limits of reading do not matter for shortest decimals. -/
theorem shortest_within_limits (tie : Decimal.Tie) (hf : x.isFinite = true) (hz : x.isZero = false) :
    0 < (shortest x tie).coefficient ∧ (shortest x tie).coefficient ≤ coefficientLimit ∧
      (shortest x tie).exponent.natAbs ≤ exponentLimit := by
  obtain ⟨hc, hlow, hhigh⟩ := Binary64.places_of_covers hf hz (Decimal.covers_shortest hz tie)
  refine ⟨hc, (Decimal.coefficient_shortest_le hz tie).trans (by decide), ?_⟩
  rw [(exponent_eq hc).1, Numeral.digits, length_digitsOf, exponentLimit]
  omega

/-- The decimal of the literal of a number is rounded correctly when it is read. -/
def CorrectlyRounded (x : Binary64) : Prop :=
  let d := literal (shortest x .even)
  Binary64.ofParts? x.negative d.coefficient d.power =
    Binary64.ofDecimal? x.negative d.coefficient d.power

instance : DecidablePred CorrectlyRounded := fun _ => inferInstanceAs (Decidable (_ = _))

/-- **Short literals are rounded correctly,** those of a coefficient below `2^53` and a power that
is a number itself. -/
theorem correctlyRounded_of_short (hc : (literal (shortest x .even)).coefficient < 2 ^ 53)
    (hlow : -22 ≤ (literal (shortest x .even)).power)
    (hhigh : (literal (shortest x .even)).power ≤ 22) : CorrectlyRounded x :=
  Binary64.ofParts?_eq_ofDecimal? hc hlow hhigh

/-- The literal of `2^53 - 1` is read as `2^53 - 2`, since its decimal point makes the coefficient
`90071992547409910`. -/
example : ¬ CorrectlyRounded (.ofBits 0x433fffffffffffff) := by decide +kernel

/-- The decimal of the literal of a number is nearest to that. -/
theorem ofDecimal?_literal (hf : x.isFinite = true) :
    Binary64.ofDecimal? x.negative (literal (shortest x .even)).coefficient
      (literal (shortest x .even)).power = some x := by
  cases hz : x.isZero with
  | true =>
    have hzero : ∀ b, Binary64.ofDecimal? (Binary64.zero b).negative
        (literal (shortest (.zero b) .even)).coefficient
          (literal (shortest (.zero b) .even)).power = some (.zero b) := by
      decide +kernel
    rw [Binary64.eq_zero_of_isZero hz]
    exact hzero x.negative
  | false =>
    have hcovers : (Decimal.Span.ofBinary64 x).Covers (literal (shortest x .even)).value :=
      (value_literal _).symm ▸ Decimal.covers_shortest hz .even
    exact Binary64.ofDecimal?_of_covers hf hz hcovers

/-- A number is rounded correctly if what its literal says is scaled back to it. -/
theorem correctlyRounded_iff (hf : x.isFinite = true) : CorrectlyRounded x ↔
    Binary64.ofParts? x.negative (literal (shortest x .even)).coefficient
      (literal (shortest x .even)).power = some x := by
  rw [CorrectlyRounded, ofDecimal?_literal hf]

/-- What the digits of the literal of a number are taken for. -/
def readLiteral (x : Binary64) : Reader Binary64 :=
  finish x.negative (literal (shortest x .even)).coefficient (literal (shortest x .even)).power

/-- The number of a literal that is rounded correctly. -/
theorem readLiteral_ok (hf : x.isFinite = true) (h : CorrectlyRounded x) (rest : List Char) :
    readLiteral x rest = .ok (x, rest) := by
  rw [readLiteral, finish, (correctlyRounded_iff hf).1 h]

/-- A literal is read to its end, and as its number only if it is rounded correctly. -/
theorem of_readLiteral {y : Binary64} {r : List Char} (hf : x.isFinite = true)
    (h : readLiteral x rest = .ok (y, r)) : r = rest ∧ (y = x → CorrectlyRounded x) := by
  rw [readLiteral, finish] at h
  split at h
  · rename_i z hz
    obtain ⟨rfl, rfl⟩ := Prod.mk.inj (Except.ok.inj h)
    exact ⟨rfl, fun he => (correctlyRounded_iff hf).2 (he ▸ hz)⟩
  · cases h

/-- A literal begins with a digit. -/
theorem ofNumeral_eq_cons (l : Layout) (hc : 0 < d.coefficient) :
    ∃ c r, l.ofNumeral d = c :: r ∧ c.isDigit = true := by
  obtain ⟨c, r, hr, hdigit, -⟩ := digitsOf_eq_cons hc
  change d.digits = c :: r at hr
  rw [Layout.ofNumeral, hr]
  split_ifs
  · rw [Layout.positional]
    by_cases he : d.exponent < 0
    · exact ⟨'0', _, if_pos he, rfl⟩
    · rw [if_neg he]
      by_cases hlen : (c :: r).length ≤ d.exponent.toNat + 1
      · exact ⟨c, _, if_pos hlen, hdigit⟩
      · exact ⟨c, _, if_neg hlen, hdigit⟩
  · cases r with
    | nil => exact ⟨c, _, rfl, hdigit⟩
    | cons e r => exact ⟨c, _, rfl, hdigit⟩

/-- A zero is written with its sign, a point and one decimal. -/
theorem ofBinary64_of_isZero (hz : x.isZero = true) :
    fileNumbers.ofBinary64 x = (if x.negative then ['-'] else []) ++ ['0', '.', '0'] := by
  rw [Layout.ofBinary64, if_pos hz]
  cases x.negative <;> rfl

/-- **A number in a file** is a literal, which is read by its digits. -/
theorem number_ofBinary64 (hf : x.isFinite = true) (hrest : Ended rest) :
    ∃ c r, fileNumbers.ofBinary64 x = (if x.negative then ['-'] else []) ++ c :: r ∧
      c.isDigit = true ∧ number x.negative (c :: r ++ rest) = readLiteral x rest := by
  cases hz : x.isZero with
  | true =>
    refine ⟨'0', ['.', '0'], ofBinary64_of_isZero hz, rfl, ?_⟩
    have hread : ∀ b, number b ('0' :: '.' :: ['0'] ++ rest) = .ok (.zero b, rest) := fun b => by
      have hpoint : fractionPart b 0 0 ('.' :: ['0'] ++ rest) = _ :=
        fractionPart_point (List.forall_mem_singleton.2 rfl) (by decide) hrest.isDigit (by decide)
      have hzero : ∀ b, Binary64.ofParts? b 0 (-1) = some (.zero b) := by decide +kernel
      refine hpoint.trans ((exponentPart_ended hrest).trans ?_)
      change finish b 0 (-1) rest = _
      rw [finish, hzero]
    have hround : ∀ b, CorrectlyRounded (.zero b) := by decide +kernel
    rw [Binary64.eq_zero_of_isZero hz, readLiteral_ok (Binary64.eq_zero_of_isZero hz ▸ hf) (hround _)]
    exact hread x.negative
  | false =>
    obtain ⟨hc, hlimit, he⟩ := shortest_within_limits .even hf hz
    obtain ⟨c, r, hr, hdigit⟩ := ofNumeral_eq_cons fileNumbers hc
    refine ⟨c, r, ?_, hdigit, ?_⟩
    · rw [Layout.ofBinary64, hz, if_neg Bool.false_ne_true, ← hr]
      rfl
    · rw [← hr, number_ofNumeral hc hlimit he hrest, readLiteral]

/-- A digit is no space. -/
theorem isSpace_digit {c : Char} (hc : c.isDigit = true) : isSpace c = false := by
  by_contra h
  simp only [isSpace, Bool.not_eq_false, Bool.or_eq_true, decide_eq_true_eq] at h
  rcases h with ((rfl | rfl) | rfl) | rfl <;> exact absurd hc (by decide)

/-- A value that begins with a digit is a number. -/
theorem valueWith_digit (fuel : Nat) (inside : Option (Reader Value)) {c : Char} (r : List Char)
    (hc : c.isDigit = true) :
    valueWith fuel inside (c :: r) =
      (number false (c :: r)).map fun (n, rest) => (.number n, rest) := by
  have hskip : skipSpace (c :: r) = c :: r := List.dropWhile_cons_of_neg (by simp [isSpace_digit hc])
  rw [valueWith, hskip]
  split
  · rename_i heq
    cases heq
  all_goals
    rename_i heq
    obtain ⟨rfl, rfl⟩ := List.cons.inj heq
  on_goal 8 => rw [if_pos hc]
  all_goals exact absurd hc (by decide)

/-- The literal of a finite number is read as what its digits are taken for. -/
theorem valueWith_ofBinary64 (fuel : Nat) (inside : Option (Reader Value)) (hf : x.isFinite = true)
    (hrest : Ended rest) :
    valueWith fuel inside (fileNumbers.ofBinary64 x ++ rest) =
      (readLiteral x rest).map fun (n, rest) => (.number n, rest) := by
  obtain ⟨c, r, hr, hc, hnumber⟩ := number_ofBinary64 hf hrest
  rw [hr, ← hnumber]
  cases hneg : x.negative with
  | true => rfl
  | false => exact valueWith_digit fuel inside (r ++ rest) hc

/-- **A number in a file is read as it was** if its literal is rounded correctly. -/
theorem valueWith_number (fuel : Nat) (inside : Option (Reader Value)) (hf : x.isFinite = true)
    (h : CorrectlyRounded x) (hrest : Ended rest) :
    valueWith fuel inside (fileNumbers.ofBinary64 x ++ rest) = .ok (.number x, rest) := by
  rw [valueWith_ofBinary64 fuel inside hf hrest, readLiteral_ok hf h]
  rfl

end Reader
end Json
end PageBinding
