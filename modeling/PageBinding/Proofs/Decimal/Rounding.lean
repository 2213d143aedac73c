/-
# Quotients that round to a number

A quotient rounds to a finite number if it lies in the interval of that number
(`Span.Covers`): up to the halfway points to its neighbours, and including these if its
significand is even (`ofRatio?_of_covers`).

In units of a quarter of the last place `2^q` of a number `m · 2^q` the interval goes from
`4 m - 2`, or `4 m - 1` below a power of two, to `4 m + 2` (`covers_iff`).  A quotient in it has
its own last place at `2^q` too, unless it is below that power of two; then its last place is
half of that, and it rounds up to `2 m` halves.
-/

import Mathlib.Algebra.Order.Field.Power
import Mathlib.Data.Rat.Floor
import Mathlib.Data.Rat.Lemmas
import Mathlib.Tactic.FieldSimp
import Mathlib.Tactic.Linarith
import Mathlib.Tactic.NormNum
import Mathlib.Tactic.Positivity
import Mathlib.Tactic.Ring
import PageBinding.Decimal.Shortest

namespace PageBinding
namespace Decimal

/-- A power as a quotient of powers with natural exponents, one of which is `0`. -/
theorem zpow_eq_div {b : ℚ} (hb : b ≠ 0) (z : ℤ) : b ^ z = b ^ z.toNat / b ^ (-z).toNat := by
  rw [← zpow_natCast, ← zpow_natCast, ← zpow_sub₀ hb]
  congr 1
  omega

namespace Binary64

variable {num den : ℕ}

/-! ## The binary logarithm -/

/-- The binary logarithm brackets a positive number between two powers of two. -/
theorem log2_spec {n : ℕ} (hn : 0 < n) :
    (2 : ℚ) ^ (n.log2 : ℤ) ≤ n ∧ (n : ℚ) < 2 ^ (n.log2 + 1 : ℤ) := by
  rw [zpow_natCast, ← Nat.cast_succ, zpow_natCast]
  exact ⟨by exact_mod_cast Nat.log2_self_le hn.ne', by exact_mod_cast Nat.lt_log2_self⟩

/-- A quotient is compared with a power of two without a division. -/
theorem div_lt_two_zpow_iff (hd : 0 < den) (e : ℤ) :
    (num / den : ℚ) < 2 ^ e ↔
      if e ≥ 0 then num < den * Nat.pow 2 e.toNat else num * Nat.pow 2 (-e).toNat < den := by
  have hden : (0 : ℚ) < den := Nat.cast_pos.2 hd
  rw [div_lt_iff₀ hden]
  split_ifs with he
  · have hz : (2 : ℚ) ^ e = 2 ^ e.toNat := by
      rw [← zpow_natCast, Int.toNat_of_nonneg he]
    rw [hz, mul_comm]
    exact_mod_cast Iff.rfl
  · have hz : (2 : ℚ) ^ e = (2 ^ (-e).toNat)⁻¹ := by
      rw [← zpow_natCast, ← zpow_neg, Int.toNat_of_nonneg (by omega), neg_neg]
    rw [hz, inv_mul_eq_div, lt_div_iff₀ (by positivity)]
    exact_mod_cast Iff.rfl

/-- **The floor of the binary logarithm.** -/
theorem floorLog2_spec (hn : 0 < num) (hd : 0 < den) :
    (2 : ℚ) ^ floorLog2 num den ≤ num / den ∧ (num / den : ℚ) < 2 ^ (floorLog2 num den + 1) := by
  have hden : (0 : ℚ) < den := Nat.cast_pos.2 hd
  obtain ⟨hn₁, hn₂⟩ := log2_spec hn
  obtain ⟨hd₁, hd₂⟩ := log2_spec hd
  have hlow : (2 : ℚ) ^ ((num.log2 : ℤ) - den.log2 - 1) ≤ num / den := by
    rw [le_div_iff₀ hden]
    calc (2 : ℚ) ^ ((num.log2 : ℤ) - den.log2 - 1) * den
        ≤ 2 ^ ((num.log2 : ℤ) - den.log2 - 1) * 2 ^ (den.log2 + 1 : ℤ) :=
          mul_le_mul_of_nonneg_left hd₂.le (by positivity)
      _ = 2 ^ (num.log2 : ℤ) := by rw [← zpow_add₀ two_ne_zero]; congr 1; ring
      _ ≤ num := hn₁
  have hhigh : (num / den : ℚ) < 2 ^ ((num.log2 : ℤ) - den.log2 + 1) := by
    rw [div_lt_iff₀ hden]
    calc (num : ℚ) < 2 ^ (num.log2 + 1 : ℤ) := hn₂
      _ = 2 ^ ((num.log2 : ℤ) - den.log2 + 1) * 2 ^ (den.log2 : ℤ) := by
          rw [← zpow_add₀ two_ne_zero]; congr 1; ring
      _ ≤ 2 ^ ((num.log2 : ℤ) - den.log2 + 1) * den :=
          mul_le_mul_of_nonneg_left hd₁ (by positivity)
  have hbelow : (num / den : ℚ) < 2 ^ ((num.log2 : ℤ) - den.log2) ↔ _ :=
    div_lt_two_zpow_iff hd _
  rw [floorLog2]
  split_ifs at hbelow ⊢ with he h h
  · exact ⟨hlow, by rw [sub_add_cancel]; exact hbelow.2 h⟩
  · exact ⟨not_lt.1 fun hlt => h (hbelow.1 hlt), hhigh⟩
  · exact ⟨hlow, by rw [sub_add_cancel]; exact hbelow.2 h⟩
  · exact ⟨not_lt.1 fun hlt => h (hbelow.1 hlt), hhigh⟩

/-- Only one power of two is at most a quotient and more than half of it. -/
theorem floorLog2_eq (hn : 0 < num) (hd : 0 < den) {e : ℤ} (hlow : (2 : ℚ) ^ e ≤ num / den)
    (hhigh : (num / den : ℚ) < 2 ^ (e + 1)) : floorLog2 num den = e := by
  obtain ⟨h₁, h₂⟩ := floorLog2_spec hn hd
  have hle := (zpow_lt_zpow_iff_right₀ (one_lt_two : (1 : ℚ) < 2)).1 (lt_of_le_of_lt hlow h₂)
  have hge := (zpow_lt_zpow_iff_right₀ (one_lt_two : (1 : ℚ) < 2)).1 (lt_of_le_of_lt h₁ hhigh)
  omega

/-! ## The nearest integer -/

/-- An integer is nearest to a quotient: it is at most half away, and even if it is just that. -/
def Nearest (m : ℕ) (v : ℚ) : Prop :=
  m - 1 / 2 ≤ v ∧ v ≤ m + 1 / 2 ∧ (m % 2 = 0 ∨ m - 1 / 2 < v ∧ v < m + 1 / 2)

/-- Every nonnegative number has a nearest double. -/
theorem exists_nearest {v : ℚ} (hv : 0 ≤ v) : ∃ m, Nearest m v := by
  have hlow := Nat.floor_le hv
  have hhigh := Nat.lt_floor_add_one v
  generalize ⌊v⌋₊ = q at hlow hhigh
  rcases lt_trichotomy v (q + 1 / 2) with h | h | h
  · exact ⟨q, by linarith, h.le, .inr ⟨by linarith, h⟩⟩
  · rcases Nat.mod_two_eq_zero_or_one q with hq | hq
    · exact ⟨q, by linarith, h.le, .inl hq⟩
    · exact ⟨q + 1, by push_cast; linarith, by push_cast; linarith, .inl (by omega)⟩
  · refine ⟨q + 1, by push_cast; linarith, by push_cast; linarith, .inr ?_⟩
    push_cast
    constructor <;> linarith

/-- **A quotient rounds to the nearest integer.** -/
theorem roundToEven_eq (hd : 0 < den) {m : ℕ} (h : Nearest m (num / den)) :
    roundToEven num den = m := by
  have hden : (0 : ℚ) < den := Nat.cast_pos.2 hd
  obtain ⟨hlow, hhigh, hties⟩ := h
  rw [le_div_iff₀ hden] at hlow
  rw [div_le_iff₀ hden] at hhigh
  rw [lt_div_iff₀ hden, div_lt_iff₀ hden] at hties
  have hlow' : 2 * m * den ≤ 2 * num + den := by
    have : (2 * m * den : ℚ) ≤ 2 * num + den := by linarith
    exact_mod_cast this
  have hhigh' : 2 * num ≤ 2 * m * den + den := by
    have : (2 * num : ℚ) ≤ 2 * m * den + den := by linarith
    exact_mod_cast this
  have hties' : m % 2 = 0 ∨ 2 * m * den < 2 * num + den ∧ 2 * num < 2 * m * den + den := by
    refine hties.imp_right fun ⟨h₁, h₂⟩ => ⟨?_, ?_⟩
    · have : (2 * m * den : ℚ) < 2 * num + den := by linarith
      exact_mod_cast this
    · have : (2 * num : ℚ) < 2 * m * den + den := by linarith
      exact_mod_cast this
  have hr := Nat.mod_lt num hd
  have hnum := Nat.div_add_mod num den
  -- The nearest integer is the floor of the quotient or the one after it.
  have hcases : m = num / den ∨ m = num / den + 1 := by
    have hcomm : 2 * m * den = 2 * (den * m) := by ring
    have hle : num / den ≤ m := by
      by_contra hlt
      have := Nat.mul_le_mul_left den (Nat.succ_le_of_lt (not_le.1 hlt))
      rw [Nat.mul_succ] at this
      omega
    have hge : m ≤ num / den + 1 := by
      by_contra hlt
      have := Nat.mul_le_mul_left den (Nat.succ_le_of_lt (not_le.1 hlt))
      rw [Nat.mul_succ, Nat.mul_succ] at this
      omega
    omega
  rw [roundToEven]
  rcases hcases with rfl | rfl
  · rw [if_neg]
    rw [show 2 * (num / den) * den = 2 * (den * (num / den)) by ring] at hhigh' hties'
    omega
  · rw [if_pos]
    rw [show 2 * (num / den + 1) * den = 2 * (den * (num / den)) + 2 * den by ring] at hlow' hties'
    omega

/-- **A quotient is rounded in units of its last place.** -/
theorem ofRatio?_eq (negative : Bool) (hn : 0 < num) (hd : 0 < den) {s : ℤ} {m : ℕ}
    (hs : max (floorLog2 num den - 52) (-1074) = s) (hm : Nearest m (num / den / 2 ^ s)) :
    ofRatio? negative num den =
      ofMagnitude? negative ((s + 1074).toNat * 0x10000000000000 + m) := by
  rw [ofRatio?, if_neg hn.ne']
  dsimp only
  rw [hs]
  congr 2
  split_ifs with hneg
  · refine roundToEven_eq hd ?_
    have hz : (2 : ℚ) ^ s = (2 ^ (-s).toNat)⁻¹ := by
      rw [← zpow_natCast, ← zpow_neg, Int.toNat_of_nonneg (by omega), neg_neg]
    rw [hz, div_inv_eq_mul, div_mul_eq_mul_div] at hm
    exact_mod_cast hm
  · refine roundToEven_eq (Nat.mul_pos hd (Nat.pow_pos (by decide))) ?_
    have hz : (2 : ℚ) ^ s = 2 ^ s.toNat := by
      rw [← zpow_natCast, Int.toNat_of_nonneg (by omega)]
    rw [hz, div_div] at hm
    exact_mod_cast hm

/-! ## Fields -/

variable {x : Binary64}

/-- The magnitude of a double joins its scale and its significand. -/
theorem magnitude_eq (x : Binary64) :
    x.magnitude = (x.scale + 1074).toNat * 0x10000000000000 + x.significand := by
  rw [magnitude, scale, significand]
  split_ifs with h
  · rw [h]; simp
  · have : ((max x.exponent.val 1 : ℕ) - 1075 + 1074 : ℤ).toNat = x.exponent.val - 1 := by omega
    rw [this]
    omega

/-- No double has a scale below that of the subnormals. -/
theorem scale_ge (x : Binary64) : -1074 ≤ x.scale := by
  rw [scale]
  omega

/-- The two zeros are the only doubles that count as zero. -/
theorem eq_zero_of_isZero (hz : x.isZero = true) : x = .zero x.negative := by
  obtain ⟨s, e, f⟩ := x
  simp only [isZero, Bool.and_eq_true, decide_eq_true_eq] at hz
  rw [zero, mk.injEq]
  exact ⟨rfl, Fin.ext hz.1, Fin.ext hz.2⟩

/-- A nonzero double has a positive significand. -/
theorem significand_pos (hz : x.isZero = false) : 0 < x.significand := by
  rw [significand]
  split_ifs with h
  · simp only [isZero, h, decide_true, Bool.true_and, decide_eq_false_iff_not] at hz
    omega
  · omega

/-- A number whose last place is not the lowest one has all of its bits. -/
theorem significand_ge (h : -1074 < x.scale) :
    0x10000000000000 ≤ x.significand ∧ 1 < x.exponent.val := by
  rw [scale] at h
  have hexp : 1 < x.exponent.val := by omega
  rw [significand, if_neg (by omega)]
  omega

end Binary64

/-! ## The interval of a number -/

namespace Span

/-- A number lies in an interval. -/
def Covers (s : Span) (v : ℚ) : Prop :=
  if s.closed = true then s.low ≤ v * s.unit ∧ v * s.unit ≤ s.high
  else s.low < v * s.unit ∧ v * s.unit < s.high

/-- The lower end of the interval of a number, in quarters of its last place. -/
def lowQuarters (x : Binary64) : ℚ :=
  4 * x.significand - if x.fraction.val = 0 ∧ x.exponent.val > 1 then 1 else 2

/-- **The interval of a number,** in quarters of its last place. -/
theorem covers_iff {x : Binary64} (hz : x.isZero = false) {w : ℚ} :
    (ofBinary64 x).Covers (w * 2 ^ (x.scale - 2)) ↔
      lowQuarters x ≤ w ∧ w ≤ 4 * x.significand + 2 ∧
        (x.significand % 2 = 0 ∨ lowQuarters x < w ∧ w < 4 * x.significand + 2) := by
  have hm := Binary64.significand_pos hz
  have hf : (0 : ℚ) < 2 ^ (x.scale - 2).toNat := by positivity
  have hu : (0 : ℚ) < 2 ^ (-(x.scale - 2)).toNat := by positivity
  have hw : w * 2 ^ (x.scale - 2) * (2 ^ (-(x.scale - 2)).toNat : ℕ) = w * 2 ^ (x.scale - 2).toNat := by
    rw [zpow_eq_div two_ne_zero]
    push_cast
    field_simp
  have hcovers : (ofBinary64 x).Covers (w * 2 ^ (x.scale - 2)) ↔
      if x.significand % 2 = 0 then lowQuarters x ≤ w ∧ w ≤ 4 * x.significand + 2
      else lowQuarters x < w ∧ w < 4 * x.significand + 2 := by
    simp only [Covers, ofBinary64, lowQuarters, Nat.pow_eq, decide_eq_true_eq, hw]
    split_ifs with hodd hpower hpower
    all_goals
      push_cast [show 1 ≤ 4 * x.significand by omega, show 2 ≤ 4 * x.significand by omega]
      simp only [mul_le_mul_iff_left₀ hf, mul_lt_mul_iff_left₀ hf]
  rw [hcovers]
  split_ifs with h
  · exact ⟨fun hc => ⟨hc.1, hc.2, .inl h⟩, fun hc => ⟨hc.1, hc.2.1⟩⟩
  · exact ⟨fun hc => ⟨hc.1.le, hc.2.le, .inr hc⟩, fun hc => hc.2.2.resolve_left h⟩

/-- The lower end of a double's span is at most half a unit of the last place below it. -/
theorem le_lowQuarters (x : Binary64) : 4 * x.significand - 2 ≤ lowQuarters x := by
  rw [lowQuarters]
  split_ifs <;> linarith

end Span

namespace Binary64

open Decimal.Span (covers_iff lowQuarters le_lowQuarters)

variable {x : Binary64} {num den : ℕ} {w : ℚ}

/-- A power of two in quarters of a last place. -/
theorem two_zpow_quarters (k : ℕ) (q : ℤ) : (2 : ℚ) ^ (k + q) = 2 ^ (k + 2) * 2 ^ (q - 2) := by
  rw [← zpow_natCast, ← zpow_add₀ two_ne_zero]
  congr 1
  push_cast
  ring

/-- The first place of a quotient that is given in quarters of a last place. -/
theorem floorLog2_quarters (hn : 0 < num) (hd : 0 < den) {k : ℕ} {q : ℤ}
    (hw : (num / den : ℚ) = w * 2 ^ (q - 2)) (hlow : 2 ^ (k + 2) ≤ w) (hhigh : w < 2 ^ (k + 3)) :
    floorLog2 num den = k + q := by
  have hq : (0 : ℚ) < 2 ^ (q - 2) := by positivity
  refine floorLog2_eq hn hd ?_ ?_
  · rw [hw, two_zpow_quarters]
    exact mul_le_mul_of_nonneg_right hlow hq.le
  · rw [hw, show (k + q + 1 : ℤ) = (k + 1 : ℕ) + q by push_cast; ring, two_zpow_quarters]
    exact mul_lt_mul_of_pos_right hhigh hq

/-- A quotient whose last place is that of the number. -/
theorem ofRatio?_same (hf : x.isFinite = true) (hn : 0 < num) (hd : 0 < den)
    (hv : (num / den : ℚ) = w * 2 ^ (x.scale - 2))
    (hs : max (floorLog2 num den - 52) (-1074) = x.scale)
    (hm : Nearest x.significand (w / 4)) : ofRatio? x.negative num den = some x := by
  rw [ofRatio?_eq x.negative hn hd hs, ← magnitude_eq, ofMagnitude?_magnitude hf]
  have hq : (w * 2 ^ (x.scale - 2) / 2 ^ x.scale : ℚ) = w / 4 := by
    rw [zpow_sub₀ two_ne_zero]
    field_simp
    norm_num
  rwa [hv, hq]

/-- A quotient below a power of two, whose last place is half of that of the power. -/
theorem ofRatio?_below (hf : x.isFinite = true) (hn : 0 < num) (hd : 0 < den)
    (hv : (num / den : ℚ) = w * 2 ^ (x.scale - 2)) (hx : x.significand = 0x10000000000000)
    (hscale : -1074 < x.scale) (hs : floorLog2 num den = 51 + x.scale)
    (hm : Nearest 0x20000000000000 (w / 2)) : ofRatio? x.negative num den = some x := by
  have hs' : max (floorLog2 num den - 52) (-1074) = x.scale - 1 := by omega
  have hq : (w * 2 ^ (x.scale - 2) / 2 ^ (x.scale - 1) : ℚ) = w / 2 := by
    rw [zpow_sub₀ two_ne_zero, zpow_sub₀ two_ne_zero]
    field_simp
  have hmag : (x.scale - 1 + 1074).toNat * 0x10000000000000 + 0x20000000000000 = x.magnitude := by
    rw [magnitude_eq, hx]
    omega
  rw [ofRatio?_eq x.negative hn hd hs' (by rwa [hv, hq]), hmag, ofMagnitude?_magnitude hf]

/-- **A quotient in the interval of a number rounds to it.** -/
theorem ofRatio?_of_covers (hf : x.isFinite = true) (hz : x.isZero = false) (hd : 0 < den)
    (h : (Span.ofBinary64 x).Covers (num / den)) : ofRatio? x.negative num den = some x := by
  have hP : (0 : ℚ) < 2 ^ (x.scale - 2) := by positivity
  obtain ⟨w, hw⟩ : ∃ w : ℚ, (num / den : ℚ) = w * 2 ^ (x.scale - 2) :=
    ⟨num / den / 2 ^ (x.scale - 2), by rw [div_mul_cancel₀ _ hP.ne']⟩
  rw [hw, covers_iff hz] at h
  obtain ⟨hlow, hhigh, hties⟩ := h
  have hends := le_lowQuarters x
  have hm : (1 : ℚ) ≤ x.significand := by exact_mod_cast significand_pos hz
  have hlt : (x.significand : ℚ) + 1 ≤ 0x20000000000000 := by exact_mod_cast significand_lt x
  have hn : 0 < num := by
    have hpos : (0 : ℚ) < num / den := by rw [hw]; exact mul_pos (by linarith) hP
    exact Nat.pos_of_ne_zero fun h0 => by simp [h0] at hpos
  have hnear : Nearest x.significand (w / 4) :=
    ⟨by linarith, by linarith, hties.imp_right fun ht => ⟨by linarith [ht.1], by linarith [ht.2]⟩⟩
  have hge := scale_ge x
  obtain ⟨hfloor₁, hfloor₂⟩ := floorLog2_spec hn hd
  rcases le_or_gt (0x40000000000000 : ℚ) w with hfull | hpart
  · -- The first place of the quotient is 52 places above the last one of the number.
    have hlog : floorLog2 num den = (52 : ℕ) + x.scale :=
      floorLog2_quarters hn hd hw (le_trans (by norm_num) hfull) (by norm_num; linarith)
    exact ofRatio?_same hf hn hd hw (by omega) hnear
  · have hlog : floorLog2 num den ≤ 51 + x.scale := by
      have hlt : (2 : ℚ) ^ floorLog2 num den < 2 ^ ((52 : ℕ) + x.scale) := by
        refine lt_of_le_of_lt hfloor₁ ?_
        rw [hw, two_zpow_quarters]
        exact mul_lt_mul_of_pos_right (lt_of_lt_of_le hpart (by norm_num)) hP
      have := (zpow_lt_zpow_iff_right₀ (one_lt_two : (1 : ℚ) < 2)).1 hlt
      push_cast at this
      omega
    rcases eq_or_lt_of_le hge with hlast | hlast
    · exact ofRatio?_same hf hn hd hw (by omega) hnear
    · -- Only a power of two has such quotients in its interval.
      obtain ⟨hbits, hexp⟩ := significand_ge hlast
      have hpower : x.significand = 0x10000000000000 := by
        have : (x.significand : ℚ) < 0x10000000000000 + 1 := by linarith
        have : x.significand < 0x10000000000000 + 1 := by exact_mod_cast this
        omega
      have hfraction : x.fraction.val = 0 := by
        rw [significand, if_neg (by omega)] at hpower
        omega
      rw [lowQuarters, if_pos ⟨hfraction, hexp⟩, hpower] at hlow
      push_cast at hlow
      have hhalf : Nearest 0x20000000000000 (w / 2) :=
        ⟨by push_cast; linarith, by push_cast; linarith, .inl (by norm_num)⟩
      have hlog : floorLog2 num den = (51 : ℕ) + x.scale :=
        floorLog2_quarters hn hd hw (le_trans (by norm_num) hlow)
          (lt_of_lt_of_le hpart (by norm_num))
      exact ofRatio?_below hf hn hd hw hpower hlast hlog hhalf

end Binary64
end Decimal
end PageBinding
