/-
# The shortest decimal has the fewest digits

Of the decimals that are read as a number, the shortest one has the fewest digits; of those with as
many it is the nearest to the number, and the larger one of two that are equally near
(`IsShortest`).  There is just one such decimal (`isShortest_iff`).

The decimals with at most `k + 1` digits are those with last place `10^(e - k)`, where `10^e` is the
place of the first digit, and coarser ones.  So each of them is at the lower neighbour of the
number on that grid or below it, or at the upper one or above it (`beside`).  As the interval of
the number has no gaps, one of the neighbours is in it as soon as any such decimal is, and the
nearer one of them is at least as near as any.
-/

import PageBinding.Proofs.Decimal.Interval

namespace PageBinding
namespace Decimal

open Binary64 (digitCount ofDecimal?)

/-- A finite number without its sign. -/
def Binary64.size (x : Binary64) : ℚ := x.significand * 2 ^ x.scale

/-- A decimal is the shortest one of a number. -/
structure IsShortest (x : Binary64) (d : Numeral) : Prop where
  read : ofDecimal? x.negative d.coefficient d.power = some x
  last : d.coefficient % 10 ≠ 0
  fewest : ∀ c p, ofDecimal? x.negative c p = some x → digitCount d.coefficient ≤ digitCount c
  nearest : ∀ c p, ofDecimal? x.negative c p = some x → digitCount c = digitCount d.coefficient →
    |d.value - x.size| ≤ |c * 10 ^ p - x.size|
  larger : ∀ c p, ofDecimal? x.negative c p = some x → digitCount c = digitCount d.coefficient →
    |c * 10 ^ p - x.size| = |d.value - x.size| → c * 10 ^ p ≤ d.value

/-! ## Decimals -/

/-- A number below ten to the `k` has at most `k` digits. -/
theorem digitCount_le {n k : ℕ} (h : n < 10 ^ k) : digitCount n ≤ k := by
  rcases Nat.eq_zero_or_pos n with rfl | hn
  · rw [digitCount, dif_pos rfl]
    exact Nat.zero_le k
  · obtain ⟨hlow, -, hpos⟩ := digitCount_spec hn
    have := (Nat.pow_lt_pow_iff_right (by decide)).1 (lt_of_le_of_lt hlow h)
    omega

namespace Numeral

/-- A positive numeral that was trimmed does not end in a zero. -/
theorem trimmed_last {c : ℕ} (hc : 0 < c) (p : ℤ) : (trimmed c p).coefficient % 10 ≠ 0 := by
  fun_induction trimmed c p with
  | case1 c p h ih => exact ih (by omega)
  | case2 c p h => exact fun h0 => h ⟨hc.ne', h0⟩

/-- A coefficient that does not end in zero is told by the number. -/
theorem le_power_of_value {d e : Numeral} (hd : d.coefficient % 10 ≠ 0) (h : d.value = e.value) :
    e.power ≤ d.power := by
  by_contra hlt
  obtain ⟨k, hk⟩ : ∃ k : ℕ, e.power = (k + 1 : ℕ) + d.power :=
    ⟨(e.power - d.power - 1).toNat, by omega⟩
  have hP : (10 : ℚ) ^ d.power ≠ 0 := by positivity
  rw [value, value, hk, zpow_add₀ (by norm_num), zpow_natCast, ← mul_assoc, mul_left_inj' hP] at h
  have hc : d.coefficient = e.coefficient * 10 ^ (k + 1) := by exact_mod_cast h
  exact hd (by rw [hc, pow_succ, ← mul_assoc, Nat.mul_mod_left])

/-- Two numerals of one value that end in no zero are the same numeral. -/
theorem eq_of_value {d e : Numeral} (hd : d.coefficient % 10 ≠ 0) (he : e.coefficient % 10 ≠ 0)
    (h : d.value = e.value) : d = e := by
  have hpower := le_antisymm (le_power_of_value he h.symm) (le_power_of_value hd h)
  have hP : (10 : ℚ) ^ e.power ≠ 0 := by positivity
  rw [value, value, hpower, mul_left_inj' hP, Nat.cast_inj] at h
  obtain ⟨c, p⟩ := d
  obtain ⟨c', p'⟩ := e
  exact congrArg₂ mk h hpower

end Numeral

/-- **Decimals with few digits are beside a number or further from it,** seen from its neighbours
on the grid of the last of so many digits. -/
theorem beside {v : ℚ} {e p : ℤ} {k b c : ℕ} (hfirst : (10 : ℚ) ^ e ≤ v)
    (hv : v < (b + 1 : ℕ) * 10 ^ (e - k)) (hc : digitCount c ≤ k + 1) :
    (c * 10 ^ p : ℚ) ≤ b * 10 ^ (e - k) ∨ ((b + 1 : ℕ) * 10 ^ (e - k) : ℚ) ≤ c * 10 ^ p := by
  have hten : (10 : ℚ) ≠ 0 := by norm_num
  have hQ : (0 : ℚ) < 10 ^ (e - k) := by positivity
  rcases le_or_gt (e - k) p with hp | hp
  · -- A decimal on a coarser grid is on this one.
    obtain ⟨j, rfl⟩ : ∃ j : ℕ, p = j + (e - k) := ⟨(p - (e - k)).toNat, by omega⟩
    rw [zpow_add₀ hten, zpow_natCast, ← mul_assoc, mul_le_mul_iff_left₀ hQ, mul_le_mul_iff_left₀ hQ]
    rcases Nat.lt_or_ge b (c * 10 ^ j) with hlt | hle
    · exact .inr (by exact_mod_cast hlt)
    · exact .inl (by exact_mod_cast hle)
  · -- One with last places below those has its first digit below that of the number.
    have hfirst' : (10 : ℚ) ^ e = (10 ^ k : ℕ) * 10 ^ (e - k) := by
      rw [Nat.cast_pow, ← zpow_natCast]
      push_cast
      rw [← zpow_add₀ hten]
      congr 1
      omega
    have hk : 10 ^ k ≤ b := by
      have hlt : ((10 ^ k : ℕ) : ℚ) * 10 ^ (e - k) < (b + 1 : ℕ) * 10 ^ (e - k) :=
        hfirst' ▸ lt_of_le_of_lt hfirst hv
      have := (mul_lt_mul_iff_left₀ hQ).1 hlt
      exact Nat.le_of_lt_succ (by exact_mod_cast this)
    have hlt : c ≤ 10 ^ (k + 1) := by
      rcases Nat.eq_zero_or_pos c with rfl | hpos
      · exact Nat.zero_le _
      · exact ((digitCount_spec hpos).2.1.trans_le (Nat.pow_le_pow_right (by decide) hc)).le
    refine .inl ?_
    calc (c * 10 ^ p : ℚ) ≤ (10 ^ (k + 1) : ℕ) * 10 ^ p :=
          mul_le_mul_of_nonneg_right (by exact_mod_cast hlt) (by positivity)
      _ = 10 ^ ((k + 1 : ℕ) + p) := by rw [zpow_add₀ hten, zpow_natCast, Nat.cast_pow]; rfl
      _ ≤ 10 ^ e := zpow_le_zpow_right₀ (by norm_num) (by omega)
      _ = (10 ^ k : ℕ) * 10 ^ (e - k) := hfirst'
      _ ≤ b * 10 ^ (e - k) := mul_le_mul_of_nonneg_right (by exact_mod_cast hk) hQ.le

namespace Span

variable {s : Span} {tie : Tie} {p : ℤ} {d : Numeral} {x : Binary64} {u v w : ℚ} {k : ℕ}

/-! ## The interval of a number -/

/-- An interval has no gaps. -/
theorem covers_between (hu : s.Covers u) (hw : s.Covers w) (huv : u ≤ v) (hvw : v ≤ w) :
    s.Covers v := by
  have hunit : (0 : ℚ) ≤ s.unit := Nat.cast_nonneg _
  have huv' := mul_le_mul_of_nonneg_right huv hunit
  have hvw' := mul_le_mul_of_nonneg_right hvw hunit
  rw [Covers] at *
  split_ifs at * with hclosed
  · exact ⟨hu.1.trans huv', hvw'.trans hw.2⟩
  · exact ⟨hu.1.trans_le huv', hvw'.trans_lt hw.2⟩

/-- The center of a double's span is its size. -/
theorem center_eq_size (x : Binary64) : (ofBinary64 x).center = x.size := by
  rw [center_ofBinary64, Binary64.size, zpow_sub₀ two_ne_zero]
  field_simp
  ring

/-- The span of a nonzero double contains the double itself. -/
theorem covers_center (hz : x.isZero = false) : (ofBinary64 x).Covers (ofBinary64 x).center := by
  refine covers_near hz ?_
  rw [sub_self, abs_zero]
  positivity

/-! ## The neighbours on a grid -/

/-- If some number of at most `k + 1` digits lies in the span, the search at `k` digits behind the
first hits. -/
theorem isSome_hit?_of_covers (hu : 0 < s.unit) (hcenter : s.Covers s.center)
    (hfirst : (10 : ℚ) ^ s.exponent ≤ s.center) {c : ℕ} (hc : digitCount c ≤ k + 1)
    (h : s.Covers (c * 10 ^ p)) : s.hit? tie (s.exponent - k) ≠ none := by
  obtain ⟨hlow, hhigh⟩ := center_bounds hu (s.exponent - k)
  rw [Ne, hit?_eq_none_iff]
  rintro ⟨hdown, hup⟩
  rcases beside (p := p) hfirst hhigh hc with hle | hge
  · exact hdown (covers_between h hcenter hle hlow)
  · exact hup (covers_between hcenter h hhigh.le hge)

/-- A grid has the number and its steps at one scale. -/
theorem onGrid_scale (hu : 0 < s.unit) (p : ℤ) : ∃ f : ℚ, 0 < f ∧
    ((s.onGrid p).1.mid : ℚ) = s.center * f ∧ ((s.onGrid p).2 : ℚ) = 10 ^ p * f := by
  have huq : (0 : ℚ) < s.unit := by exact_mod_cast hu
  refine ⟨s.unit * 10 ^ (-p).toNat, by positivity, ?_, ?_⟩
  · simp only [onGrid, center, Nat.pow_eq]
    push_cast
    field_simp
  · rw [zpow_eq_div (by norm_num)]
    simp only [onGrid, Nat.pow_eq]
    push_cast
    field_simp

/-- The upper neighbour is at least as near as the lower one. -/
theorem nearer_iff (hu : 0 < s.unit) (p : ℤ) :
    (s.floor p + 1) * (s.onGrid p).2 - (s.onGrid p).1.mid ≤
        (s.onGrid p).1.mid - s.floor p * (s.onGrid p).2 ↔
      (s.floor p + 1 : ℕ) * 10 ^ p - s.center ≤ s.center - s.floor p * 10 ^ p := by
  obtain ⟨hlow, hhigh⟩ := center_bounds hu p
  obtain ⟨f, hf, hmid, hstep⟩ := onGrid_scale hu p
  have hlow' : s.floor p * (s.onGrid p).2 ≤ (s.onGrid p).1.mid := by
    have : (s.floor p * (s.onGrid p).2 : ℚ) ≤ (s.onGrid p).1.mid := by
      rw [hmid, hstep, ← mul_assoc]
      exact mul_le_mul_of_nonneg_right hlow hf.le
    exact_mod_cast this
  have hhigh' : (s.onGrid p).1.mid ≤ (s.floor p + 1) * (s.onGrid p).2 := by
    have : ((s.onGrid p).1.mid : ℚ) ≤ (s.floor p + 1 : ℕ) * (s.onGrid p).2 := by
      rw [hmid, hstep, ← mul_assoc]
      exact mul_le_mul_of_nonneg_right hhigh.le hf.le
    exact_mod_cast this
  rw [← Nat.cast_le (α := ℚ), Nat.cast_sub hlow', Nat.cast_sub hhigh', Nat.cast_mul, Nat.cast_mul,
    hmid, hstep, ← mul_assoc, ← mul_assoc, ← sub_mul, ← sub_mul, mul_le_mul_iff_left₀ hf]

/-- **The decimal that is found** is the nearer one of the neighbours in the interval, the upper one
if they are equally near. -/
theorem of_hit? (hu : 0 < s.unit) (h : s.hit? .up p = some d) :
    d = .trimmed (s.floor p) p ∧ (s.Covers ((s.floor p + 1 : ℕ) * 10 ^ p) →
      s.center - s.floor p * 10 ^ p < (s.floor p + 1 : ℕ) * 10 ^ p - s.center) ∨
    d = .trimmed (s.floor p + 1) p ∧ (s.Covers (s.floor p * 10 ^ p) →
      (s.floor p + 1 : ℕ) * 10 ^ p - s.center ≤ s.center - s.floor p * 10 ^ p) := by
  have hgrid := contains_onGrid s p
  rw [hit?] at h
  dsimp only at h
  rw [← floor] at h
  have hnearer := nearer_iff hu p
  split at h
  · rename_i hboth
    obtain rfl := Option.some.inj h
    generalize (s.onGrid p).1.mid - s.floor p * (s.onGrid p).2 = a at hnearer ⊢
    generalize (s.floor p + 1) * (s.onGrid p).2 - (s.onGrid p).1.mid = b at hnearer ⊢
    rcases le_or_gt b a with hle | hlt
    · refine .inr ⟨congrArg (Numeral.trimmed · p) (if_pos ?_), fun _ => hnearer.1 hle⟩
      split_ifs with heq
      · rfl
      · exact decide_eq_true (lt_of_le_of_ne hle (Ne.symm heq))
    · refine .inl ⟨congrArg (Numeral.trimmed · p) (if_neg ?_), fun _ =>
        not_le.1 fun hle => hlt.not_ge (hnearer.2 hle)⟩
      rw [if_neg hlt.ne]
      simpa using hlt.le
  · rename_i hboth
    split at h
    · rename_i hdown
      refine .inl ⟨(Option.some.inj h).symm, fun hup => absurd ⟨hdown, ?_⟩ hboth⟩
      exact (hgrid (s.floor p + 1)).2 hup
    · rename_i hdown
      rw [Option.ite_none_right_eq_some, Option.some.injEq] at h
      exact .inr ⟨h.2.symm, fun h' => absurd ((hgrid (s.floor p)).2 h') hdown⟩

/-- **No decimal with as few digits is nearer** than the one that is found, and none that is as near
is larger. -/
theorem nearest_of_hit? (hu : 0 < s.unit) (hcenter : s.Covers s.center)
    (hfirst : (10 : ℚ) ^ s.exponent ≤ s.center) (h : s.hit? .up (s.exponent - k) = some d) {c : ℕ}
    (hc : digitCount c ≤ k + 1) (hcovers : s.Covers (c * 10 ^ p)) :
    |d.value - s.center| ≤ |c * 10 ^ p - s.center| ∧
      (|c * 10 ^ p - s.center| = |d.value - s.center| → c * 10 ^ p ≤ d.value) := by
  obtain ⟨hlow, hhigh⟩ := center_bounds hu (s.exponent - k)
  have hbeside := beside (p := p) hfirst hhigh hc
  generalize hq : s.exponent - k = q at *
  have hfound := of_hit? hu h
  have hdown : d = .trimmed (s.floor q) q → d.value = s.floor q * 10 ^ q :=
    fun hd => hd ▸ Numeral.value_trimmed _ _
  have hup : d = .trimmed (s.floor q + 1) q → d.value = (s.floor q + 1 : ℕ) * 10 ^ q :=
    fun hd => hd ▸ Numeral.value_trimmed _ _
  generalize (s.floor q : ℚ) * 10 ^ q = down at *
  generalize ((s.floor q + 1 : ℕ) : ℚ) * 10 ^ q = up at *
  generalize (c : ℚ) * 10 ^ p = u at *
  rcases hbeside with hle | hge
  · have hcovered : s.Covers down := covers_between hcovers hcenter hle hlow
    rw [abs_of_nonpos (show u - s.center ≤ 0 by linarith)]
    rcases hfound with ⟨hd, -⟩ | ⟨hd, hnear⟩
    · rw [hdown hd, abs_of_nonpos (by linarith)]
      exact ⟨by linarith, fun _ => hle⟩
    · have hnear := hnear hcovered
      rw [hup hd, abs_of_nonneg (by linarith)]
      exact ⟨by linarith, fun _ => by linarith⟩
  · have hcovered : s.Covers up := covers_between hcenter hcovers hhigh.le hge
    rw [abs_of_nonneg (show 0 ≤ u - s.center by linarith)]
    rcases hfound with ⟨hd, hnear⟩ | ⟨hd, -⟩
    · have hnear := hnear hcovered
      rw [hdown hd, abs_of_nonpos (by linarith)]
      exact ⟨by linarith, fun heq => by linarith⟩
    · rw [hup hd, abs_of_nonneg (by linarith)]
      exact ⟨by linarith, fun heq => by linarith⟩

end Span

/-! ## The shortest decimal -/

variable {x : Binary64} {d : Numeral}

/-- The shortest numeral of a nonzero double has a positive coefficient. -/
theorem shortest_pos (hf : x.isFinite = true) (hz : x.isZero = false) (tie : Tie) :
    0 < (shortest x tie).coefficient :=
  (Binary64.places_of_covers hf hz (covers_shortest hz tie)).1

/-- The shortest numeral of a nonzero double does not end in a zero. -/
theorem last_shortest (hf : x.isFinite = true) (hz : x.isZero = false) :
    (shortest x .up).coefficient % 10 ≠ 0 := by
  obtain ⟨k, -, hk, -⟩ := exists_hit?_shortest hz .up
  obtain ⟨c, hc⟩ : ∃ c, shortest x .up = .trimmed c ((Span.ofBinary64 x).exponent - k) :=
    (Span.of_hit? (Span.unit_pos x) hk).elim (fun h => ⟨_, h.1⟩) fun h => ⟨_, h.1⟩
  have hpos := shortest_pos hf hz .up
  rw [hc] at hpos ⊢
  exact Numeral.trimmed_last (hpos.trans_le (Span.coefficient_trimmed_le ..)) _

/-- The shortest decimal has no more digits than were tried. -/
theorem digitCount_of_hit? {s : Span} {tie : Tie} {k : ℕ} (hu : 0 < s.unit) (hm : 0 < s.mid)
    (hd : d.coefficient % 10 ≠ 0) (h : s.hit? tie (s.exponent - k) = some d) :
    digitCount d.coefficient ≤ k + 1 := by
  have hle : d.coefficient ≤ 10 ^ (k + 1) :=
    (Span.coefficient_le_of_hit? h).trans (Span.neighbour_lt hu hm k)
  refine digitCount_le (lt_of_le_of_ne hle fun heq => hd ?_)
  rw [heq, pow_succ, Nat.mul_mod_left]

/-- **The shortest decimal is shortest.** -/
theorem isShortest_shortest (hf : x.isFinite = true) (hz : x.isZero = false) :
    IsShortest x (shortest x .up) := by
  have hu := Span.unit_pos x
  have hfirst := Span.exponent_le hu (Span.mid_pos hz)
  have hcenter := Span.covers_center hz
  have hlast := last_shortest hf hz
  have hread : ∀ {c p}, ofDecimal? x.negative c p = some x →
      (Span.ofBinary64 x).Covers (c * 10 ^ p) :=
    (Binary64.ofDecimal?_eq_some_iff hf hz).1
  obtain ⟨k, -, hk, hnone⟩ := exists_hit?_shortest hz .up
  have hdigits := digitCount_of_hit? hu (Span.mid_pos hz) hlast hk
  have hnearest := fun c p (h : ofDecimal? x.negative c p = some x)
    (hc : digitCount c = digitCount (shortest x .up).coefficient) =>
      Span.nearest_of_hit? hu hcenter hfirst hk (hc.trans_le hdigits) (hread h)
  rw [Span.center_eq_size] at hnearest
  refine ⟨Binary64.ofDecimal?_shortest hf hz .up, hlast, fun c p h => ?_,
    fun c p h hc => (hnearest c p h hc).1, fun c p h hc => (hnearest c p h hc).2⟩
  -- A decimal with fewer digits would have been found before.
  by_contra hlt
  obtain ⟨-, -, hpos⟩ := digitCount_spec (Binary64.places_of_covers hf hz (hread h)).1
  exact Span.isSome_hit?_of_covers (k := digitCount c - 1) hu hcenter hfirst (by omega) (hread h)
    (hnone _ (by omega))

/-- There is just one shortest decimal. -/
theorem IsShortest.unique {e : Numeral} (hd : IsShortest x d) (he : IsShortest x e) : d = e := by
  have hdigits := le_antisymm (hd.fewest _ _ he.read) (he.fewest _ _ hd.read)
  have hnear := le_antisymm (hd.nearest _ _ he.read hdigits.symm) (he.nearest _ _ hd.read hdigits)
  exact Numeral.eq_of_value hd.last he.last (le_antisymm
    (he.larger _ _ hd.read hdigits hnear) (hd.larger _ _ he.read hdigits.symm hnear.symm))

/-- **The shortest decimal of a number** is the only one that is shortest. -/
theorem isShortest_iff (hf : x.isFinite = true) (hz : x.isZero = false) :
    IsShortest x d ↔ d = shortest x .up :=
  ⟨fun h => h.unique (isShortest_shortest hf hz), fun h => h ▸ isShortest_shortest hf hz⟩

end Decimal
end PageBinding
