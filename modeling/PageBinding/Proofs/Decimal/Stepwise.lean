/-
# Decimals that are read exactly

A coefficient below `2^53` is a number itself (`ofRatio?_whole`), and so is a power of ten up
to `10^22` (`powerOfTen_exact`).  Of the steps that lead to the number of such a coefficient and
such a power only the last one rounds, so what is read is the number nearest to the decimal
(`ofParts?_eq_ofDecimal?`).
-/

import PageBinding.Decimal.Stepwise
import PageBinding.Proofs.Decimal.Shortest

namespace PageBinding
namespace Decimal
namespace Binary64

variable {negative : Bool} {num den num' den' c : ℕ} {x y : Binary64}

/-! ## Rounding a quotient -/

/-- Only the quotient matters. -/
theorem ofRatio?_congr (hd : 0 < den) (hd' : 0 < den') (h : (num / den : ℚ) = num' / den') :
    ofRatio? negative num den = ofRatio? negative num' den' := by
  have hdq : (den : ℚ) ≠ 0 := Nat.cast_ne_zero.2 hd.ne'
  have hdq' : (den' : ℚ) ≠ 0 := Nat.cast_ne_zero.2 hd'.ne'
  rcases Nat.eq_zero_or_pos num' with rfl | hn'
  · rw [Nat.cast_zero, zero_div, div_eq_zero_iff, or_iff_left hdq, Nat.cast_eq_zero] at h
    rw [h, ofRatio?, ofRatio?, if_pos rfl, if_pos rfl]
  · have hn : 0 < num := Nat.pos_of_ne_zero fun h0 => by
      rw [h0, Nat.cast_zero, zero_div, eq_comm, div_eq_zero_iff, or_iff_left hdq',
        Nat.cast_eq_zero] at h
      exact hn'.ne' h
    obtain ⟨hlow, hhigh⟩ := floorLog2_spec hn' hd'
    have hlog : floorLog2 num den = floorLog2 num' den' :=
      floorLog2_eq hn hd (h ▸ hlow) (h ▸ hhigh)
    obtain ⟨m, hm⟩ := exists_nearest
      (show (0 : ℚ) ≤ num' / den' / 2 ^ max (floorLog2 num' den' - 52) (-1074) by positivity)
    rw [ofRatio?_eq negative hn' hd' rfl hm, ofRatio?_eq negative hn hd (by rw [hlog]) (h ▸ hm)]

/-! ## Numbers that are whole -/

/-- **A natural number below `2^53` is a number itself.** -/
theorem ofRatio?_whole (negative : Bool) (hlt : c < 2 ^ 53) :
    ∃ x, ofRatio? negative c 1 = some x ∧ x.negative = negative ∧ x.ratio.1 = c * x.ratio.2 := by
  rcases Nat.eq_zero_or_pos c with rfl | hc
  · exact ⟨zero negative, if_pos rfl, rfl, (Nat.zero_mul _).symm ▸ Nat.zero_mul _⟩
  obtain ⟨hlow, hhigh⟩ := log2_spec hc
  have hlog : c.log2 ≤ 52 := Nat.le_of_lt_succ ((Nat.log2_lt hc.ne').2 hlt)
  obtain ⟨k, hk⟩ : ∃ k, c.log2 + k = 52 := ⟨52 - c.log2, by omega⟩
  have hfloor : floorLog2 c 1 = c.log2 :=
    floorLog2_eq hc Nat.one_pos (by rwa [Nat.cast_one, div_one]) (by rwa [Nat.cast_one, div_one])
  -- All places of the coefficient are kept.
  have hm : Nearest (c * 2 ^ k) ((c : ℚ) / (1 : ℕ) / 2 ^ (-(k : ℤ))) := by
    rw [Nat.cast_one, div_one, zpow_neg, zpow_natCast, div_inv_eq_mul]
    refine ⟨?_, ?_, .inr ⟨?_, ?_⟩⟩ <;> push_cast <;> linarith
  have hbits : 0x10000000000000 ≤ c * 2 ^ k ∧ c * 2 ^ k < 0x20000000000000 := by
    have hpow : 2 ^ c.log2 * 2 ^ k = 0x10000000000000 := by rw [← pow_add, hk]; norm_num
    constructor
    · rw [← hpow]
      exact Nat.mul_le_mul_right _ (Nat.log2_self_le hc.ne')
    · calc c * 2 ^ k < 2 ^ (c.log2 + 1) * 2 ^ k :=
            Nat.mul_lt_mul_of_pos_right Nat.lt_log2_self (Nat.pow_pos (by decide))
        _ = 0x20000000000000 := by rw [← pow_add, show c.log2 + 1 + k = 53 by omega]; norm_num
  let x : Binary64 := ⟨negative, ⟨1075 - k, by omega⟩, ⟨c * 2 ^ k - 0x10000000000000, by omega⟩⟩
  have hexponent : x.exponent.val = 1075 - k := rfl
  have hfraction : x.fraction.val = c * 2 ^ k - 0x10000000000000 := rfl
  have hsignificand : x.significand = c * 2 ^ k := by
    rw [significand, if_neg (by omega), hfraction]
    omega
  have hscale : x.scale = -k := by
    rw [scale, hexponent]
    omega
  refine ⟨x, ?_, rfl, ?_⟩
  · have hfinite : x.isFinite = true := by
      rw [isFinite, decide_eq_true_eq, hexponent]
      omega
    rw [ofRatio?_eq negative hc Nat.one_pos (by rw [hfloor]; omega) hm, ← hsignificand, ← hscale,
      ← magnitude_eq]
    exact ofMagnitude?_magnitude hfinite
  · simp [ratio, hsignificand, hscale]

/-- The powers of ten up to `10^22` are numbers themselves. -/
theorem powerOfTen_exact : ∀ k < 23, (powerOfTen k).negative = false ∧
    (powerOfTen k).ratio.1 = 10 ^ k * (powerOfTen k).ratio.2 := by
  decide +kernel

/-! ## The last step -/

/-- A product of two exact numbers is rounded once. -/
theorem mul?_exact {k : ℕ} (hx : x.ratio.1 = c * x.ratio.2) (hk : k < 23) :
    x.mul? (powerOfTen k) = ofRatio? x.negative (c * 10 ^ k) 1 := by
  obtain ⟨hsign, hpower⟩ := powerOfTen_exact k hk
  have hxd := ratio_den_pos x
  have hyd := ratio_den_pos (powerOfTen k)
  rw [mul?, hsign, Bool.bne_false, hx, hpower]
  refine ofRatio?_congr (by positivity) Nat.one_pos ?_
  push_cast
  field_simp

/-- A quotient of two exact numbers is rounded once. -/
theorem div?_exact {k : ℕ} (hx : x.ratio.1 = c * x.ratio.2) (hk : k < 23) :
    x.div? (powerOfTen k) = ofRatio? x.negative c (10 ^ k) := by
  obtain ⟨hsign, hpower⟩ := powerOfTen_exact k hk
  have hxd := ratio_den_pos x
  have hyd := ratio_den_pos (powerOfTen k)
  rw [div?, hsign, Bool.bne_false, hx, hpower]
  refine ofRatio?_congr (by positivity) (by positivity) ?_
  push_cast
  field_simp

/-- **A short decimal is read as the nearest number.** -/
theorem ofParts?_eq_ofDecimal? (hlt : c < 2 ^ 53) {p : ℤ} (hlow : -22 ≤ p) (hhigh : p ≤ 22) :
    ofParts? negative c p = ofDecimal? negative c p := by
  obtain ⟨x, hx, rfl, hratio⟩ := ofRatio?_whole negative hlt
  have hparts : ofParts? x.negative c p =
      if p ≥ 0 then ofRatio? x.negative (c * 10 ^ p.toNat) 1
      else ofRatio? x.negative c (10 ^ (-p).toNat) := by
    rw [ofParts?, hx]
    change (if p ≥ 0 then x.raise? p.toNat else x.lower? (-p).toNat) = _
    have hmax : 23 ≤ maxPowerOfTen := by decide
    split_ifs with hp
    · rw [raise?, if_pos (by omega), mul?_exact hratio (by omega)]
    · rw [lower?, if_pos (by omega), div?_exact hratio (by omega)]
  rw [hparts, ofDecimal?]
  rcases Nat.eq_zero_or_pos c with rfl | hc
  · rw [if_pos rfl, zero_mul, ofRatio?, if_pos rfl, ofRatio?, if_pos rfl, ite_self]
  · have hplaces : digitCount c ≤ 16 := by
      obtain ⟨hdigits, -, -⟩ := digitCount_spec hc
      have hpow : 10 ^ (digitCount c - 1) < 10 ^ 16 := lt_of_le_of_lt hdigits (by omega)
      have := (Nat.pow_lt_pow_iff_right (by decide)).1 hpow
      omega
    rw [if_neg hc.ne']
    dsimp only
    rw [if_neg (show ¬ (digitCount c + p : ℤ) > 310 by omega),
      if_neg (show ¬ (digitCount c + p : ℤ) < -330 by omega)]
    rfl

end Binary64
end Decimal
end PageBinding
