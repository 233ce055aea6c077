import Mathlib.Algebra.Order.Field.Basic
import Mathlib.Data.Int.Log
import Mathlib.Data.Rat.Floor
import Mathlib.Tactic.Ring
import StreamGrammar.Binary64.Basic

/-!
# Rounding depends on the value

A ratio is not reduced, so one rational number has many ratios, and which of them
a double is rounded from must not matter: a numeral with zeros at its end, or a
double written out in full, has another numerator and denominator than the double
itself. Each operation on ratios is therefore related to their value, the
exponent of the greatest power of two being `Int.log 2`; and the value of a finite
double is rounded to that double (`ofRatio_of_value`).
-/

namespace StreamGrammar

namespace Ratio

/-- **The rational number** that a ratio is. -/
def value (r : Ratio) : ℚ := r.num / r.den

variable {r s : Ratio}

theorem value_ofNat (n : Nat) : (ofNat n).value = n := by
  simp [value, ofNat]

theorem value_pos (h : 0 < r.num) : 0 < r.value :=
  div_pos (Nat.cast_pos.mpr h) (Nat.cast_pos.mpr r.den_pos)

theorem value_eq_zero_iff : r.value = 0 ↔ r.num = 0 := by
  rw [value, div_eq_zero_iff, Nat.cast_eq_zero, Nat.cast_eq_zero, or_iff_left r.den_pos.ne']

theorem value_scale (r : Ratio) (base : Base) (e : Int) :
    (r.scale base e).value = r.value * (base.val : ℚ) ^ e := by
  cases e with
  | ofNat k =>
    simp only [scale, value, Nat.pow_eq, Nat.cast_mul, Nat.cast_pow, Int.ofNat_eq_natCast,
      zpow_natCast]
    ring
  | negSucc k =>
    simp only [scale, value, Nat.pow_eq, Nat.cast_mul, Nat.cast_pow, zpow_negSucc]
    rw [div_mul_eq_div_div, div_eq_mul_inv _ ((base.val : ℚ) ^ (k + 1))]

theorem isAtLeast_iff (r : Ratio) (base : Base) (e : Int) :
    r.isAtLeast base e = true ↔ (base.val : ℚ) ^ e ≤ r.value := by
  have hpow : (0 : ℚ) < (base.val : ℚ) ^ e := zpow_pos (Nat.cast_pos.mpr base.val_pos) e
  have hden : (0 : ℚ) < (r.scale base (-e)).den := Nat.cast_pos.mpr (den_pos _)
  have hscale : (r.scale base (-e)).value = r.value / (base.val : ℚ) ^ e := by
    rw [value_scale, zpow_neg, div_eq_mul_inv]
  rw [isAtLeast, decide_eq_true_iff, ← Nat.cast_le (α := ℚ), ← one_le_div hden, ← value, hscale,
    one_le_div hpow]

/-- The lengths of numerator and denominator tell the logarithm up to one. -/
theorem floorLog2_eq_log (h : 0 < r.num) : r.floorLog2 = Int.log 2 r.value := by
  have hpos := value_pos h
  have hden : (0 : ℚ) < r.den := Nat.cast_pos.mpr r.den_pos
  have hsplit : ∀ (e : ℤ) (k : ℕ), (2 : ℚ) ^ (e - k) * 2 ^ k = 2 ^ e := fun e k => by
    rw [← zpow_natCast, ← zpow_add₀ two_ne_zero, Int.sub_add_cancel]
  have hnonneg : ∀ e : ℤ, (0 : ℚ) ≤ 2 ^ e := zpow_nonneg zero_le_two
  have habove : Int.log 2 r.value < (r.num.log2 + 1 : ℕ) - (r.den.log2 : ℤ) := by
    rw [← Int.lt_zpow_iff_log_lt one_lt_two hpos, value, div_lt_iff₀ hden]
    calc (r.num : ℚ) < 2 ^ (r.num.log2 + 1) := by exact_mod_cast Nat.lt_log2_self
      _ = 2 ^ ((r.num.log2 + 1 : ℕ) - (r.den.log2 : ℤ)) * 2 ^ r.den.log2 := by
        rw [hsplit, zpow_natCast]
      _ ≤ 2 ^ ((r.num.log2 + 1 : ℕ) - (r.den.log2 : ℤ)) * r.den :=
        mul_le_mul_of_nonneg_left (by exact_mod_cast Nat.log2_self_le r.den_pos.ne') (hnonneg _)
  have hbelow : (r.num.log2 : ℤ) - (r.den.log2 + 1 : ℕ) ≤ Int.log 2 r.value := by
    rw [← Int.zpow_le_iff_le_log one_lt_two hpos, value, le_div_iff₀ hden]
    calc (2 : ℚ) ^ ((r.num.log2 : ℤ) - (r.den.log2 + 1 : ℕ)) * r.den
        ≤ 2 ^ ((r.num.log2 : ℤ) - (r.den.log2 + 1 : ℕ)) * 2 ^ (r.den.log2 + 1) :=
          mul_le_mul_of_nonneg_left (by exact_mod_cast Nat.lt_log2_self.le) (hnonneg _)
      _ = 2 ^ r.num.log2 := by rw [hsplit, zpow_natCast]
      _ ≤ r.num := by exact_mod_cast Nat.log2_self_le h.ne'
  -- between these two bounds one comparison decides
  have hestimate := (isAtLeast_iff r .two ((r.num.log2 : ℤ) - r.den.log2)).trans
    (Int.zpow_le_iff_le_log one_lt_two hpos)
  rw [floorLog2]
  split
  · have hle := hestimate.mp ‹_›
    omega
  · have hlt := hestimate.not.mp ‹_›
    omega

/-! ## Rounding to an integer -/

/-- A ratio is rounded alike when numerator and denominator have a common
factor. -/
theorem round_mul (r : Ratio) {c : Nat} (hc : 0 < c) :
    round { num := r.num * c, den := r.den * c, den_pos := Nat.mul_pos r.den_pos hc } =
      r.round := by
  have hmod : r.num * c % (r.den * c) = r.num % r.den * c := Nat.mul_mod_mul_right c r.num r.den
  have hdiv : r.num * c / (r.den * c) = r.num / r.den := Nat.mul_div_mul_right r.num r.den hc
  simp only [round, floor, hmod, hdiv, ← Nat.mul_assoc, Nat.mul_lt_mul_right hc]

/-- **Ratios with one value are rounded alike.** -/
theorem round_congr (h : r.value = s.value) : r.round = s.round := by
  have hcross : r.num * s.den = s.num * r.den := by
    have hr : (r.den : ℚ) ≠ 0 := Nat.cast_ne_zero.mpr r.den_pos.ne'
    have hs : (s.den : ℚ) ≠ 0 := Nat.cast_ne_zero.mpr s.den_pos.ne'
    exact_mod_cast (div_eq_div_iff hr hs).mp h
  rw [← round_mul r s.den_pos, ← round_mul s r.den_pos]
  simp only [hcross, Nat.mul_comm r.den]

theorem round_ofNat (n : Nat) : (ofNat n).round = n := by
  simp [round, ofNat, floor, Nat.mod_one]

end Ratio

namespace Binary64

variable {x : Binary64} {r s : Ratio}

/-- **Ratios with one value are rounded to one double.** -/
theorem ofRatio_congr (negative : Bool) (h : r.value = s.value) :
    ofRatio negative r = ofRatio negative s := by
  have hiff : r.num = 0 ↔ s.num = 0 := by
    rw [← Ratio.value_eq_zero_iff, ← Ratio.value_eq_zero_iff, h]
  by_cases hzero : r.num = 0
  · rw [ofRatio, ofRatio, if_pos hzero, if_pos (hiff.mp hzero)]
  · have hzero' : s.num ≠ 0 := hiff.not.mp hzero
    have hlog : r.floorLog2 = s.floorLog2 := by
      rw [Ratio.floorLog2_eq_log (Nat.pos_of_ne_zero hzero),
        Ratio.floorLog2_eq_log (Nat.pos_of_ne_zero hzero'), h]
    have hround : ∀ e, (r.scale .two e).round = (s.scale .two e).round := fun e =>
      Ratio.round_congr (by rw [Ratio.value_scale, Ratio.value_scale, h])
    simp only [ofRatio, if_neg hzero, if_neg hzero', hlog, hround]

/-! ## Finite doubles -/

theorem significand_lt (x : Binary64) : x.significand < 0x20000000000000 := by
  have hlt := x.fraction_lt
  unfold significand
  split <;> omega

/-- The significand has 53 bits, unless the power is the least there is. -/
theorem significand_power (x : Binary64) :
    (x.significand < 0x10000000000000 ∧ x.power = -1074) ∨
      (0x10000000000000 ≤ x.significand ∧ -1074 ≤ x.power) := by
  have hlt := x.fraction_lt
  unfold significand power
  split
  · exact .inl ⟨hlt, rfl⟩
  · exact .inr ⟨by omega, by omega⟩

theorem num_ratio_eq_zero (x : Binary64) : x.ratio.num = 0 ↔ x.significand = 0 :=
  Ratio.num_scale_eq_zero _

theorem value_ratio (x : Binary64) : x.ratio.value = x.significand * 2 ^ x.power := by
  rw [ratio, Ratio.value_scale, Ratio.value_ofNat]
  rfl

/-- The bounds on the significand are bounds on the logarithm. -/
theorem log_value_lt {k : ℕ} (h : x.significand ≠ 0) (hk : x.significand < 2 ^ k) :
    Int.log 2 x.ratio.value < x.power + k := by
  have hpos := Ratio.value_pos (Nat.pos_of_ne_zero (x.num_ratio_eq_zero.not.mpr h))
  rw [← Int.lt_zpow_iff_log_lt one_lt_two hpos, value_ratio, Nat.cast_ofNat,
    zpow_add₀ two_ne_zero, zpow_natCast, mul_comm]
  exact mul_lt_mul_of_pos_left (by exact_mod_cast hk) (zpow_pos two_pos _)

theorem le_log_value {k : ℕ} (h : x.significand ≠ 0) (hk : 2 ^ k ≤ x.significand) :
    x.power + k ≤ Int.log 2 x.ratio.value := by
  have hpos := Ratio.value_pos (Nat.pos_of_ne_zero (x.num_ratio_eq_zero.not.mpr h))
  rw [← Int.zpow_le_iff_le_log one_lt_two hpos, value_ratio, Nat.cast_ofNat,
    zpow_add₀ two_ne_zero, zpow_natCast, mul_comm (x.significand : ℚ)]
  exact mul_le_mul_of_nonneg_left (by exact_mod_cast hk) (zpow_nonneg zero_le_two _)

/-- The power of a double is the one that its value is rounded at. -/
theorem power_eq (h : x.significand ≠ 0) : max (-1074) (x.ratio.floorLog2 - 52) = x.power := by
  rw [Ratio.floorLog2_eq_log (Nat.pos_of_ne_zero (x.num_ratio_eq_zero.not.mpr h))]
  rcases x.significand_power with ⟨hlt, hleast⟩ | ⟨hle, hleast⟩
  · have hlog : Int.log 2 x.ratio.value < x.power + (52 : ℕ) := log_value_lt h hlt
    omega
  · have hlog : Int.log 2 x.ratio.value < x.power + (53 : ℕ) := log_value_lt h x.significand_lt
    have hlog' : x.power + (52 : ℕ) ≤ Int.log 2 x.ratio.value := le_log_value h hle
    omega

/-- A double without a significand is zero. -/
theorem eq_zero_of_significand (h : x.significand = 0) (negative : Bool) :
    { x with negative } = zero negative := by
  obtain ⟨sign, exponent, fraction, hexponent, hfraction⟩ := x
  simp only [significand] at h
  split at h
  · subst h
    rename_i hzero
    subst hzero
    rfl
  · omega

/-- **A finite double is what its value is rounded to**, whatever ratio the value
is given by, and with whatever sign. -/
theorem ofRatio_of_value (h : x.isFinite = true) (negative : Bool)
    (hvalue : r.value = x.ratio.value) : ofRatio negative r = { x with negative } := by
  rw [ofRatio_congr negative hvalue, ofRatio]
  by_cases hzero : x.significand = 0
  · rw [if_pos (x.num_ratio_eq_zero.mpr hzero), eq_zero_of_significand hzero]
  · rw [if_neg (x.num_ratio_eq_zero.not.mpr hzero)]
    simp only [power_eq hzero]
    -- at its own power the value is the significand, an integer
    have hround : (x.ratio.scale .two (-x.power)).round = x.significand := by
      refine (Ratio.round_congr ?_).trans (Ratio.round_ofNat _)
      rw [Ratio.value_scale, value_ratio, Ratio.value_ofNat, Ratio.Base.val, Nat.cast_ofNat,
        mul_assoc, ← zpow_add₀ two_ne_zero, add_neg_cancel, zpow_zero, mul_one]
    rw [hround, if_neg x.significand_lt.ne]
    exact assemble_significand_power (x := { x with negative }) h

end Binary64

end StreamGrammar
