/-
# What rounds to a number

The quotients that round to a finite number are those in its interval and no others
(`ofRatio?_eq_some_iff`), so the decimals that are read as it are those in the interval
(`ofDecimal?_eq_some_iff`).

A quotient is rounded to `m` of its last place `2^s`.

| `m` | the number |
| --- | --- |
| below `2^52` | `m` of the lowest place |
| from `2^52` to below `2^53` | `m · 2^s` |
| `2^53` | a power of two, with `2^52` of the next place |
-/

import PageBinding.Proofs.Decimal.Shortest

namespace PageBinding
namespace Decimal
namespace Binary64

open Decimal.Span (covers_iff lowQuarters)

variable {x : Binary64} {negative : Bool} {num den c m w : ℕ} {p s : ℤ}

/-- A double made from a sign and a magnitude has just these, and it is finite. -/
theorem of_ofMagnitude? (h : ofMagnitude? negative w = some x) :
    x.negative = negative ∧ x.magnitude = w ∧ x.isFinite = true := by
  rw [ofMagnitude?] at h
  split_ifs at h with hw
  obtain rfl := Option.some.inj h
  refine ⟨rfl, ?_, ?_⟩
  · rw [magnitude]
    dsimp only
    omega
  · rw [isFinite, decide_eq_true_eq]
    dsimp only
    omega

/-- A number by its last place, if all places fit. -/
theorem fields_of_magnitude (h : x.magnitude = (s + 1074).toNat * 0x10000000000000 + m)
    (hs : -1074 ≤ s) (hm : m < 0x20000000000000) (hplace : s = -1074 ∨ 0x10000000000000 ≤ m) :
    x.significand = m ∧ x.scale = s := by
  have hfraction := x.fraction.isLt
  rw [magnitude] at h
  rw [significand, scale]
  split_ifs <;> omega

/-- A number whose places are one too many is a power of two. -/
theorem fields_of_carry (h : x.magnitude = (s + 1074).toNat * 0x10000000000000 + 0x20000000000000)
    (hs : -1074 ≤ s) :
    x.significand = 0x10000000000000 ∧ x.scale = s + 1 ∧ x.fraction.val = 0 ∧
      1 < x.exponent.val := by
  have hfraction := x.fraction.isLt
  rw [magnitude] at h
  rw [significand, scale]
  split_ifs <;> omega

/-- The places of a quotient. -/
theorem places_bounds (hn : 0 < num) (hd : 0 < den)
    (hs : max (floorLog2 num den - 52) (-1074) = s) :
    (num / den / 2 ^ s : ℚ) < 0x20000000000000 ∧
      (-1074 < s → (0x10000000000000 : ℚ) ≤ num / den / 2 ^ s) := by
  obtain ⟨hlow, hhigh⟩ := floorLog2_spec hn hd
  have hP : (0 : ℚ) < 2 ^ s := by positivity
  constructor
  · rw [div_lt_iff₀ hP]
    calc (num / den : ℚ) < 2 ^ (floorLog2 num den + 1) := hhigh
      _ ≤ 2 ^ ((53 : ℕ) + s) := zpow_le_zpow_right₀ one_le_two (by omega)
      _ = 0x20000000000000 * 2 ^ s := by rw [zpow_add₀ two_ne_zero, zpow_natCast]; norm_num
  · intro hlast
    rw [le_div_iff₀ hP]
    calc 0x10000000000000 * (2 : ℚ) ^ s = 2 ^ ((52 : ℕ) + s) := by
          rw [zpow_add₀ two_ne_zero, zpow_natCast]; norm_num
      _ ≤ 2 ^ floorLog2 num den := zpow_le_zpow_right₀ one_le_two (by omega)
      _ ≤ num / den := hlow

/-- **A quotient that rounds to a number lies in the interval of that.** -/
theorem covers_of_ofRatio? (hz : x.isZero = false) (hn : 0 < num) (hd : 0 < den)
    (h : ofRatio? negative num den = some x) :
    x.negative = negative ∧ x.isFinite = true ∧ (Span.ofBinary64 x).Covers (num / den) := by
  obtain ⟨s, hs⟩ : ∃ s, max (floorLog2 num den - 52) (-1074) = s := ⟨_, rfl⟩
  have hge : -1074 ≤ s := by omega
  have hP : (0 : ℚ) < 2 ^ s := by positivity
  obtain ⟨hbelow, habove⟩ := places_bounds hn hd hs
  obtain ⟨v, hv⟩ : ∃ v : ℚ, v = num / den / 2 ^ s := ⟨_, rfl⟩
  have hvalue : (num / den : ℚ) = v * 2 ^ s := by rw [hv, div_mul_cancel₀ _ hP.ne']
  rw [← hv] at hbelow habove
  obtain ⟨m, hm⟩ := exists_nearest (show (0 : ℚ) ≤ num / den / 2 ^ s by positivity)
  rw [ofRatio?_eq negative hn hd hs hm] at h
  rw [← hv] at hm
  obtain ⟨hlow, hhigh, hties⟩ := hm
  obtain ⟨hsign, hmagnitude, hfinite⟩ := of_ofMagnitude? h
  refine ⟨hsign, hfinite, ?_⟩
  have hle : m ≤ 0x20000000000000 := by
    have : (m : ℚ) < 0x20000000000000 + 1 := by linarith
    have : m < 0x20000000000000 + 1 := by exact_mod_cast this
    omega
  have hplace : s = -1074 ∨ 0x10000000000000 ≤ m := by
    refine (eq_or_lt_of_le hge).imp Eq.symm fun hlast => ?_
    have : (0x10000000000000 : ℚ) < m + 1 := by linarith [habove hlast]
    have : 0x10000000000000 < m + 1 := by exact_mod_cast this
    omega
  rcases Nat.lt_or_eq_of_le hle with hlt | rfl
  · obtain ⟨hsignificand, hscale⟩ := fields_of_magnitude hmagnitude hge hlt hplace
    have hquarters : v * 2 ^ s = 4 * v * 2 ^ (x.scale - 2) := by
      rw [hscale, zpow_sub₀ two_ne_zero]
      field_simp
      norm_num
    -- A quotient that rounds to a power of two is not below it, or else it had another last place.
    have hends : lowQuarters x = 4 * m - 2 ∨ lowQuarters x = 4 * m - 1 ∧ (m : ℚ) ≤ v := by
      rw [lowQuarters, hsignificand]
      split_ifs with hpower
      · refine .inr ⟨rfl, ?_⟩
        have hbits : x.significand = 0x10000000000000 := by
          rw [significand, if_neg (by omega), hpower.1]
        have hlast : -1074 < s := by
          rw [← hscale, scale]
          omega
        rw [← hsignificand, hbits]
        exact_mod_cast habove hlast
      · exact .inl rfl
    rw [hvalue, hquarters, covers_iff hz, hsignificand]
    rcases hends with hends | ⟨hends, hnot⟩
    · rw [hends]
      exact ⟨by linarith, by linarith,
        hties.imp_right fun ht => ⟨by linarith [ht.1], by linarith [ht.2]⟩⟩
    · rw [hends]
      exact ⟨by linarith, by linarith, hties.imp_right fun ht => ⟨by linarith, by linarith [ht.2]⟩⟩
  · obtain ⟨hsignificand, hscale, hfraction, hexponent⟩ := fields_of_carry hmagnitude hge
    have hquarters : v * 2 ^ s = 2 * v * 2 ^ (x.scale - 2) := by
      rw [hscale, show s + 1 - 2 = s - 1 by ring, zpow_sub₀ two_ne_zero]
      field_simp
    push_cast at hlow
    rw [hvalue, hquarters, covers_iff hz, lowQuarters, if_pos ⟨hfraction, hexponent⟩, hsignificand]
    push_cast
    exact ⟨by linarith, by linarith, .inl (by norm_num)⟩

/-- **What rounds to a finite number** is what lies in its interval. -/
theorem ofRatio?_eq_some_iff (hf : x.isFinite = true) (hz : x.isZero = false) (hd : 0 < den) :
    ofRatio? x.negative num den = some x ↔ (Span.ofBinary64 x).Covers (num / den) := by
  refine ⟨fun h => ?_, ofRatio?_of_covers hf hz hd⟩
  have hn : 0 < num := Nat.pos_of_ne_zero fun h0 => by
    rw [ofRatio?, if_pos h0] at h
    rw [← Option.some.inj h] at hz
    cases hz
  exact (covers_of_ofRatio? hz hn hd h).2.2

/-- **The decimals that are read as a finite number** are those in its interval. -/
theorem ofDecimal?_eq_some_iff (hf : x.isFinite = true) (hz : x.isZero = false) :
    ofDecimal? x.negative c p = some x ↔ (Span.ofBinary64 x).Covers (c * 10 ^ p) := by
  refine ⟨fun h => ?_, ofDecimal?_of_covers hf hz⟩
  have hzero : some (zero x.negative) ≠ some x := by
    intro hzero
    rw [← Option.some.inj hzero] at hz
    cases hz
  have hbounds := h
  rw [ofDecimal?] at hbounds
  by_cases hc : c = 0
  · rw [if_pos hc] at hbounds
    exact absurd hbounds hzero
  rw [if_neg hc] at hbounds
  dsimp only at hbounds
  by_cases hhuge : (digitCount c + p : ℤ) > 310
  · rw [if_pos hhuge] at hbounds
    cases hbounds
  rw [if_neg hhuge] at hbounds
  by_cases htiny : (digitCount c + p : ℤ) < -330
  · rw [if_pos htiny] at hbounds
    exact absurd hbounds hzero
  obtain ⟨num, den, hd, hvalue, hread⟩ :=
    ofDecimal?_eq x.negative (Nat.pos_of_ne_zero hc) (not_lt.1 htiny) (not_lt.1 hhuge)
  rw [← hvalue]
  exact (ofRatio?_eq_some_iff hf hz hd).1 (hread ▸ h)

end Binary64
end Decimal
end PageBinding
