/-
# The shortest decimal reads back

The shortest decimal of a number lies in the interval of the number (`covers_shortest`), so the
nearest number to it is that number (`ofDecimal?_shortest`).

The decimals that are tried are the two neighbours of the number on a grid.  On the grid of the
seventeenth digit one of them is within half a step of the number, and half a step is less than
what there is to either end of the interval (`isSome_hit?`).
-/

import PageBinding.Proofs.Decimal.Rounding

namespace PageBinding
namespace Decimal

open Binary64 (digitCount)

/-! ## Digits -/

/-- A positive number lies between the powers of ten its digit count gives. -/
theorem digitCount_spec {n : ℕ} (hn : 0 < n) :
    10 ^ (digitCount n - 1) ≤ n ∧ n < 10 ^ digitCount n ∧ 0 < digitCount n := by
  induction n using Nat.strong_induction_on with
  | _ n ih =>
    rw [digitCount, dif_neg hn.ne', Nat.add_sub_cancel]
    rcases Nat.eq_zero_or_pos (n / 10) with h | h
    · rw [h, digitCount, dif_pos rfl]
      omega
    · obtain ⟨hlow, hhigh, hpos⟩ := ih (n / 10) (by omega) h
      obtain ⟨k, hk⟩ : ∃ k, digitCount (n / 10) = k + 1 := ⟨_, (Nat.sub_add_cancel hpos).symm⟩
      rw [hk] at hlow hhigh ⊢
      rw [Nat.add_sub_cancel] at hlow
      rw [pow_succ] at hhigh ⊢
      rw [pow_succ]
      omega

namespace Numeral

/-- The number that a decimal stands for. -/
def value (d : Numeral) : ℚ := d.coefficient * 10 ^ d.power

/-- Zeros at the end do not count. -/
theorem value_trimmed (c : ℕ) (p : ℤ) : (trimmed c p).value = c * 10 ^ p := by
  fun_induction trimmed c p with
  | case1 c p h ih =>
    have hc : (c : ℚ) = 10 * (c / 10 : ℕ) := by
      have : c = 10 * (c / 10) := by omega
      exact_mod_cast this
    rw [ih, zpow_add_one₀ (by norm_num), hc]
    ring
  | case2 => rfl

end Numeral

namespace Span

variable {s : Span} {tie : Tie} {p : ℤ} {d : Numeral} {x : Binary64}

/-! ## Decimals on a grid -/

/-- A multiple of ten to the `p` lies in the grid's interval just if the span covers it. -/
theorem contains_onGrid (s : Span) (p : ℤ) (k : ℕ) :
    (s.onGrid p).1.contains (k * (s.onGrid p).2) = true ↔ s.Covers (k * 10 ^ p) := by
  have hf : (0 : ℚ) < 10 ^ (-p).toNat := by positivity
  have hk : (k * 10 ^ p * s.unit : ℚ) = (k * (s.unit * 10 ^ p.toNat) : ℕ) / (10 ^ (-p).toNat : ℕ) := by
    rw [zpow_eq_div (by norm_num)]
    push_cast
    ring
  rw [Covers, hk, le_div_iff₀ (by exact_mod_cast hf), div_le_iff₀ (by exact_mod_cast hf),
    lt_div_iff₀ (by exact_mod_cast hf), div_lt_iff₀ (by exact_mod_cast hf)]
  cases hc : s.closed <;>
    simp only [onGrid, contains, Nat.pow_eq, hc, Bool.false_eq_true, if_true, if_false,
      Bool.and_eq_true, decide_eq_true_eq] <;>
    norm_cast

/-- **A decimal that is found lies in the interval.** -/
theorem covers_of_hit? (h : s.hit? tie p = some d) : s.Covers d.value := by
  have hgrid := fun k => (contains_onGrid s p k).1
  rw [hit?] at h
  dsimp only at h
  split at h
  · rename_i hboth
    obtain rfl := Option.some.inj h
    rw [Numeral.value_trimmed]
    have hpick : ∀ b : Bool, s.Covers ((if b = true then (s.onGrid p).1.mid / (s.onGrid p).2 + 1
        else (s.onGrid p).1.mid / (s.onGrid p).2 : ℕ) * 10 ^ p) := fun b => by
      cases b with
      | false => exact hgrid _ hboth.1
      | true => exact hgrid _ hboth.2
    exact hpick _
  · split at h
    · rename_i hdown
      obtain rfl := Option.some.inj h
      rw [Numeral.value_trimmed]
      exact hgrid _ hdown
    · split at h
      · rename_i hup
        obtain rfl := Option.some.inj h
        rw [Numeral.value_trimmed]
        exact hgrid _ hup
      · cases h

/-- The number that an interval is around. -/
def center (s : Span) : ℚ := s.mid / s.unit

/-- The lower neighbour of a number on a grid, in steps of that. -/
def floor (s : Span) (p : ℤ) : ℕ := (s.onGrid p).1.mid / (s.onGrid p).2

/-- The neighbours on a grid that are tried are those of the number. -/
theorem center_bounds (hu : 0 < s.unit) (p : ℤ) : s.floor p * 10 ^ p ≤ s.center ∧
    s.center < (s.floor p + 1 : ℕ) * 10 ^ p := by
  have huq : (0 : ℚ) < s.unit := by exact_mod_cast hu
  have hf : (0 : ℚ) < 10 ^ (-p).toNat := by positivity
  have hstep : 0 < s.unit * 10 ^ p.toNat := Nat.mul_pos hu (Nat.pow_pos (by decide))
  obtain ⟨k, hk⟩ : ∃ k, k = s.floor p := ⟨_, rfl⟩
  have hk' : k = s.mid * 10 ^ (-p).toNat / (s.unit * 10 ^ p.toNat) := hk
  have hlow : k * (s.unit * 10 ^ p.toNat) ≤ s.mid * 10 ^ (-p).toNat := by
    rw [hk']
    exact Nat.div_mul_le_self ..
  have hhigh : s.mid * 10 ^ (-p).toNat < (k + 1) * (s.unit * 10 ^ p.toNat) := by
    rw [hk', ← Nat.div_lt_iff_lt_mul hstep]
    exact Nat.lt_succ_self _
  rw [← hk, center, zpow_eq_div (by norm_num), ← mul_div_assoc, ← mul_div_assoc,
    div_le_div_iff₀ hf huq, div_lt_div_iff₀ huq hf]
  constructor
  · rw [mul_assoc, mul_comm ((10 : ℚ) ^ p.toNat)]
    exact_mod_cast hlow
  · rw [mul_assoc, mul_comm ((10 : ℚ) ^ p.toNat)]
    exact_mod_cast hhigh

/-- No decimal is found just if neither of the neighbours lies in the interval. -/
theorem hit?_eq_none_iff : s.hit? tie p = none ↔
    ¬s.Covers (s.floor p * 10 ^ p) ∧ ¬s.Covers ((s.floor p + 1 : ℕ) * 10 ^ p) := by
  rw [← contains_onGrid, ← contains_onGrid, hit?, floor]
  dsimp only
  split_ifs <;> simp_all

/-- **A decimal is found** if all that is within half a step of the number lies in the
interval. -/
theorem isSome_hit? (hu : 0 < s.unit) (tie : Tie)
    (h : ∀ v, |v - s.center| ≤ 10 ^ p / 2 → s.Covers v) : (s.hit? tie p).isSome := by
  obtain ⟨hlow, hhigh⟩ := center_bounds hu p
  rw [Option.isSome_iff_ne_none, Ne, hit?_eq_none_iff]
  rintro ⟨hdown, hup⟩
  push_cast at hhigh hup
  rcases le_total (s.center - s.floor p * 10 ^ p) (10 ^ p / 2) with hnear | hnear
  · refine hdown (h _ (abs_le.2 ?_))
    constructor <;> linarith
  · refine hup (h _ (abs_le.2 ?_))
    constructor <;> linarith

/-! ## The first digit -/

/-- A number is at least the power of ten of its first digit. -/
theorem exponent_le (hu : 0 < s.unit) (hm : 0 < s.mid) : (10 : ℚ) ^ s.exponent ≤ s.center := by
  have huq : (0 : ℚ) < s.unit := by exact_mod_cast hu
  rw [center, le_div_iff₀ huq, exponent]
  split_ifs with h
  · have hdiv : 0 < s.mid / s.unit := Nat.div_pos h hu
    obtain ⟨hlow, -, hpos⟩ := digitCount_spec hdiv
    have hz : ((digitCount (s.mid / s.unit) : ℤ) - 1) = (digitCount (s.mid / s.unit) - 1 : ℕ) := by
      omega
    rw [hz, zpow_natCast]
    have hle : 10 ^ (digitCount (s.mid / s.unit) - 1) * s.unit ≤ s.mid :=
      le_trans (Nat.mul_le_mul_right _ hlow) (Nat.div_mul_le_self ..)
    exact_mod_cast hle
  · rw [zpow_neg, zpow_natCast, inv_mul_le_iff₀ (by positivity)]
    have hle : s.unit ≤ 10 ^ digitCount ((s.unit - 1) / s.mid) * s.mid := by
      have hlt : (s.unit - 1) / s.mid < 10 ^ digitCount ((s.unit - 1) / s.mid) := by
        rcases Nat.eq_zero_or_pos ((s.unit - 1) / s.mid) with h0 | h0
        · rw [h0]
          exact Nat.pow_pos (by decide)
        · exact (digitCount_spec h0).2.1
      have := (Nat.div_lt_iff_lt_mul hm).1 hlt
      omega
    exact_mod_cast hle

/-- A number is below the next power of ten. -/
theorem lt_exponent (hu : 0 < s.unit) (hm : 0 < s.mid) : s.center < (10 : ℚ) ^ (s.exponent + 1) := by
  have huq : (0 : ℚ) < s.unit := by exact_mod_cast hu
  rw [center, div_lt_iff₀ huq, exponent]
  split_ifs with h
  · obtain ⟨-, hhigh, -⟩ := digitCount_spec (Nat.div_pos h hu)
    rw [sub_add_cancel, zpow_natCast]
    exact_mod_cast (Nat.div_lt_iff_lt_mul hu).1 hhigh
  · have hdiv : 0 < (s.unit - 1) / s.mid := Nat.div_pos (by omega) hm
    obtain ⟨hlow, -, hpos⟩ := digitCount_spec hdiv
    have hz : (-(digitCount ((s.unit - 1) / s.mid) : ℤ) + 1) =
        -(digitCount ((s.unit - 1) / s.mid) - 1 : ℕ) := by omega
    rw [hz, zpow_neg, zpow_natCast, inv_mul_eq_div, lt_div_iff₀ (by positivity)]
    have hle := (Nat.le_div_iff_mul_le hm).1 hlow
    have hlt : s.mid * 10 ^ (digitCount ((s.unit - 1) / s.mid) - 1) < s.unit := by
      rw [mul_comm]
      omega
    exact_mod_cast hlt

/-! ## Seventeen digits -/

/-- Trimming zeros does not make a coefficient larger. -/
theorem coefficient_trimmed_le (c : ℕ) (p : ℤ) : (Numeral.trimmed c p).coefficient ≤ c := by
  fun_induction Numeral.trimmed c p with
  | case1 c p h ih => omega
  | case2 => exact Nat.le_refl _

/-- A decimal that is found is at most the upper neighbour of the number. -/
theorem coefficient_le_of_hit? (h : s.hit? tie p = some d) :
    d.coefficient ≤ s.floor p + 1 := by
  rw [floor]
  rw [hit?] at h
  dsimp only at h
  split at h
  · obtain rfl := Option.some.inj h
    refine (coefficient_trimmed_le ..).trans ?_
    split_ifs <;> omega
  · split at h
    · obtain rfl := Option.some.inj h
      exact (coefficient_trimmed_le ..).trans (Nat.le_succ _)
    · rw [Option.ite_none_right_eq_some, Option.some.injEq] at h
      obtain ⟨-, rfl⟩ := h
      exact coefficient_trimmed_le ..

/-- The neighbours of a number on the grid of a digit have no more digits than that. -/
theorem neighbour_lt (hu : 0 < s.unit) (hm : 0 < s.mid) (k : ℕ) :
    s.floor (s.exponent - k) < 10 ^ (k + 1) := by
  have hP : (0 : ℚ) < 10 ^ (s.exponent - k) := by positivity
  have hlt := lt_of_le_of_lt (center_bounds hu (s.exponent - k)).1 (lt_exponent hu hm)
  rw [show s.exponent + 1 = ((k + 1 : ℕ) : ℤ) + (s.exponent - k) by push_cast; ring,
    zpow_add₀ (by norm_num), zpow_natCast, mul_lt_mul_iff_left₀ hP] at hlt
  exact_mod_cast hlt

/-- The unit of a span is positive. -/
theorem unit_pos (x : Binary64) : 0 < (ofBinary64 x).unit := Nat.pow_pos (by decide)

/-- The middle of a nonzero double's span is positive. -/
theorem mid_pos (hz : x.isZero = false) : 0 < (ofBinary64 x).mid :=
  Nat.mul_pos (Nat.mul_pos (by decide) (Binary64.significand_pos hz)) (Nat.pow_pos (by decide))

/-- The center of a double's span is four times its significand, counted in quarters of its last
place. -/
theorem center_ofBinary64 (x : Binary64) :
    (ofBinary64 x).center = 4 * x.significand * 2 ^ (x.scale - 2) := by
  rw [center, zpow_eq_div two_ne_zero]
  simp only [ofBinary64, Nat.pow_eq]
  push_cast
  ring

/-- The interval of a number reaches as far as half a step of its seventeenth digit. -/
theorem covers_near (hz : x.isZero = false) {v : ℚ}
    (h : |v - (ofBinary64 x).center| ≤ 10 ^ ((ofBinary64 x).exponent - 16) / 2) :
    (ofBinary64 x).Covers v := by
  have hP : (0 : ℚ) < 2 ^ (x.scale - 2) := by positivity
  have hlt : (x.significand : ℚ) + 1 ≤ 0x20000000000000 := by
    exact_mod_cast Binary64.significand_lt x
  have hfirst := exponent_le (unit_pos x) (mid_pos hz)
  obtain ⟨w, rfl⟩ : ∃ w, v = w * 2 ^ (x.scale - 2) :=
    ⟨v / 2 ^ (x.scale - 2), by rw [div_mul_cancel₀ _ hP.ne']⟩
  -- Half a step is at most that part of the number, in quarters of its last place.
  have hnear : |w - 4 * x.significand| ≤ 2 * x.significand / 10 ^ 16 := by
    rw [center_ofBinary64, ← sub_mul, abs_mul, abs_of_pos hP] at h
    rw [center_ofBinary64] at hfirst
    rw [zpow_sub₀ (show (10 : ℚ) ≠ 0 by norm_num)] at h
    have hstep : |w - 4 * x.significand| * 2 ^ (x.scale - 2) ≤
        2 * x.significand / 10 ^ 16 * 2 ^ (x.scale - 2) := by
      refine le_trans h ?_
      rw [show (10 : ℚ) ^ (16 : ℤ) = 10 ^ 16 from by norm_cast]
      linarith
    exact le_of_mul_le_mul_right hstep hP
  rw [abs_le] at hnear
  have hstrict : lowQuarters x < w ∧ w < 4 * x.significand + 2 := by
    refine ⟨?_, by norm_num at hnear; linarith [hnear.2]⟩
    rw [lowQuarters]
    split_ifs with hpower
    · have hm : x.significand = 0x10000000000000 := by
        rw [Binary64.significand, if_neg (by omega), hpower.1]
      rw [hm] at hnear ⊢
      norm_num at hnear ⊢
      linarith [hnear.1]
    · norm_num at hnear
      linarith [hnear.1]
  rw [covers_iff hz]
  exact ⟨hstrict.1.le, hstrict.2.le, .inr hstrict⟩

end Span

variable {x : Binary64}

/-- The shortest decimal of a number is found with some digit as the last one, and none is found
with one before it. -/
theorem exists_hit?_shortest (hz : x.isZero = false) (tie : Tie) : ∃ k < 17,
    (Span.ofBinary64 x).hit? tie ((Span.ofBinary64 x).exponent - (k : ℕ)) = some (shortest x tie) ∧
      ∀ j < k, (Span.ofBinary64 x).hit? tie ((Span.ofBinary64 x).exponent - (j : ℕ)) = none := by
  have hlast : ((Span.ofBinary64 x).hit? tie ((Span.ofBinary64 x).exponent - (16 : ℕ))).isSome :=
    Span.isSome_hit? (Span.unit_pos x) tie fun v hv => Span.covers_near hz hv
  have hfound : ((List.range 17).findSome? fun k : ℕ =>
      (Span.ofBinary64 x).hit? tie ((Span.ofBinary64 x).exponent - k)).isSome :=
    List.findSome?_isSome_iff.2 ⟨16, List.mem_range.2 (by decide), hlast⟩
  obtain ⟨d, hd⟩ := Option.isSome_iff_exists.1 hfound
  obtain ⟨before, k, after, hrange, hit, hnone⟩ := List.findSome?_eq_some_iff.1 hd
  -- The digits tried before are those below the one found.
  have hbefore : before = List.range before.length ∧ k = before.length ∧ before.length < 17 := by
    have hlength := congrArg List.length hrange
    simp only [List.length_range, List.length_append, List.length_cons] at hlength
    have hlt : before.length < 17 := by omega
    refine ⟨?_, ?_, hlt⟩
    · have htake := congrArg (List.take before.length) hrange
      rw [List.take_left, List.take_range, Nat.min_eq_left hlt.le] at htake
      exact htake.symm
    · have hget := congrArg (·[before.length]?) hrange
      simp only [List.getElem?_append_right (Nat.le_refl _), Nat.sub_self, List.getElem?_cons_zero,
        List.getElem?_range hlt, Option.some.injEq] at hget
      exact hget.symm
  obtain ⟨hbefore, rfl, hlt⟩ := hbefore
  refine ⟨before.length, hlt, ?_, fun j hj => hnone j (hbefore ▸ List.mem_range.2 hj)⟩
  rw [shortest, hd, Option.getD_some]
  exact hit

/-- **The shortest decimal lies in the interval of its number.** -/
theorem covers_shortest (hz : x.isZero = false) (tie : Tie) :
    (Span.ofBinary64 x).Covers (shortest x tie).value := by
  obtain ⟨k, -, hk, -⟩ := exists_hit?_shortest hz tie
  exact Span.covers_of_hit? hk

/-- A shortest numeral has at most 17 digits. -/
theorem coefficient_shortest_le (hz : x.isZero = false) (tie : Tie) :
    (shortest x tie).coefficient ≤ 10 ^ 17 := by
  obtain ⟨k, hlt, hk, -⟩ := exists_hit?_shortest hz tie
  calc (shortest x tie).coefficient ≤ _ + 1 := Span.coefficient_le_of_hit? hk
    _ ≤ 10 ^ (k + 1) := Span.neighbour_lt (Span.unit_pos x) (Span.mid_pos hz) k
    _ ≤ 10 ^ 17 := Nat.pow_le_pow_right (by decide) (by omega)

namespace Binary64

/-- No finite double has a scale above 971. -/
theorem scale_le (hf : x.isFinite = true) : x.scale ≤ 971 := by
  have he : x.exponent.val < 2047 := by simpa [isFinite] using hf
  rw [scale]
  omega

/-- What lies in the interval of a finite number is neither huge nor tiny. -/
theorem bounds_of_covers (hf : x.isFinite = true) (hz : x.isZero = false) {v : ℚ}
    (h : (Span.ofBinary64 x).Covers v) : (10 : ℚ) ^ (-330 : ℤ) < v ∧ v < 10 ^ (310 : ℤ) := by
  have hP : (0 : ℚ) < 2 ^ (x.scale - 2) := by positivity
  obtain ⟨w, rfl⟩ : ∃ w, v = w * 2 ^ (x.scale - 2) :=
    ⟨v / 2 ^ (x.scale - 2), by rw [div_mul_cancel₀ _ hP.ne']⟩
  obtain ⟨hlow, hhigh, -⟩ := (Span.covers_iff hz).1 h
  have hends := Span.le_lowQuarters x
  have hm : (1 : ℚ) ≤ x.significand := by exact_mod_cast significand_pos hz
  have hlt : (x.significand : ℚ) + 1 ≤ 0x20000000000000 := by exact_mod_cast significand_lt x
  have htiny : (2 : ℚ) ^ 1076 < 2 * 10 ^ 330 := by
    exact_mod_cast show 2 ^ 1076 < 2 * 10 ^ 330 by decide +kernel
  have hhuge : (0x80000000000000 * 2 ^ 969 : ℚ) < 10 ^ 310 := by
    exact_mod_cast show 0x80000000000000 * 2 ^ 969 < 10 ^ 310 by decide +kernel
  constructor
  · calc (10 : ℚ) ^ (-330 : ℤ) < 2 * 2 ^ (-1076 : ℤ) := by
          rw [zpow_neg, zpow_neg, ← div_eq_mul_inv, inv_lt_iff_one_lt_mul₀ (by positivity),
            div_mul_eq_mul_div, one_lt_div (by positivity)]
          exact_mod_cast htiny
      _ ≤ w * 2 ^ (x.scale - 2) := by
          refine mul_le_mul (by linarith) ?_ (by positivity) (by linarith)
          exact zpow_le_zpow_right₀ one_le_two (by linarith [scale_ge x])
  · calc w * 2 ^ (x.scale - 2) ≤ 0x80000000000000 * 2 ^ (969 : ℤ) := by
          refine mul_le_mul (by linarith) ?_ hP.le (by norm_num)
          exact zpow_le_zpow_right₀ one_le_two (by linarith [scale_le hf])
      _ < 10 ^ (310 : ℤ) := by exact_mod_cast hhuge

/-- The first digit of a decimal in the interval of a finite number is not far from the point. -/
theorem places_of_covers (hf : x.isFinite = true) (hz : x.isZero = false) {c : ℕ} {p : ℤ}
    (h : (Span.ofBinary64 x).Covers (c * 10 ^ p)) :
    0 < c ∧ -330 < digitCount c + p ∧ digitCount c + p ≤ 310 := by
  have hten : (10 : ℚ) ≠ 0 := by norm_num
  have hten' : (1 : ℚ) < 10 := by norm_num
  obtain ⟨htiny, hhuge⟩ := bounds_of_covers hf hz h
  have hc : 0 < c := Nat.pos_of_ne_zero fun h0 => by
    have hpos : (0 : ℚ) < 10 ^ (-330 : ℤ) := by positivity
    rw [h0, Nat.cast_zero, zero_mul] at htiny
    exact lt_asymm hpos htiny
  obtain ⟨hlow, hhigh, hdigits⟩ := digitCount_spec hc
  have hfirst : (10 : ℚ) ^ (digitCount c + p - 1) ≤ c * 10 ^ p := by
    rw [show (digitCount c + p - 1 : ℤ) = (digitCount c - 1 : ℕ) + p by omega, zpow_add₀ hten,
      zpow_natCast]
    exact mul_le_mul_of_nonneg_right (by exact_mod_cast hlow) (by positivity)
  have hlast : (c * 10 ^ p : ℚ) < 10 ^ (digitCount c + p) := by
    rw [zpow_add₀ hten, zpow_natCast]
    exact mul_lt_mul_of_pos_right (by exact_mod_cast hhigh) (by positivity)
  have hplaces := (zpow_lt_zpow_iff_right₀ hten').1 (lt_of_le_of_lt hfirst hhuge)
  exact ⟨hc, (zpow_lt_zpow_iff_right₀ hten').1 (lt_trans htiny hlast), by omega⟩

/-- A decimal whose first digit is not far from the point is rounded as a quotient. -/
theorem ofDecimal?_eq (negative : Bool) {c : ℕ} {p : ℤ} (hc : 0 < c)
    (hlow : -330 ≤ (digitCount c + p : ℤ)) (hhigh : (digitCount c + p : ℤ) ≤ 310) :
    ∃ num den : ℕ, 0 < den ∧ (num / den : ℚ) = c * 10 ^ p ∧
      ofDecimal? negative c p = ofRatio? negative num den := by
  rw [ofDecimal?, if_neg hc.ne']
  dsimp only
  rw [if_neg (by omega), if_neg (by omega)]
  split_ifs with hp
  · refine ⟨c * Nat.pow 10 p.toNat, 1, Nat.one_pos, ?_, rfl⟩
    rw [Nat.cast_one, div_one, Nat.pow_eq, Nat.cast_mul, Nat.cast_pow, ← zpow_natCast,
      Int.toNat_of_nonneg hp]
    rfl
  · refine ⟨c, Nat.pow 10 (-p).toNat, Nat.pow_pos (by decide), ?_, rfl⟩
    rw [Nat.pow_eq, Nat.cast_pow, ← zpow_natCast, Int.toNat_of_nonneg (by omega), zpow_neg,
      div_inv_eq_mul]
    rfl

/-- **A decimal in the interval of a number is read as it.** -/
theorem ofDecimal?_of_covers (hf : x.isFinite = true) (hz : x.isZero = false) {c : ℕ} {p : ℤ}
    (h : (Span.ofBinary64 x).Covers (c * 10 ^ p)) : ofDecimal? x.negative c p = some x := by
  obtain ⟨hc, htiny, hhuge⟩ := places_of_covers hf hz h
  obtain ⟨num, den, hd, hvalue, hread⟩ := ofDecimal?_eq x.negative hc htiny.le hhuge
  rw [hread]
  exact ofRatio?_of_covers hf hz hd (hvalue ▸ h)

/-- **The shortest decimal of a number is read as it.** -/
theorem ofDecimal?_shortest (hf : x.isFinite = true) (hz : x.isZero = false) (tie : Tie) :
    ofDecimal? x.negative (shortest x tie).coefficient (shortest x tie).power = some x :=
  ofDecimal?_of_covers hf hz (covers_shortest hz tie)

end Binary64
end Decimal
end PageBinding
