import StreamGrammar.Binary64.Decimal
import StreamGrammar.Proofs.Binary64.Rounding

/-!
# The decimal number chosen for a double reads back

The decimal number that `shortest` chooses is read as the double again. What the
search finds was tested by reading it; and were nothing found, the double written
out in full has the value of the double, to which it is then rounded. Writing it
with zeros at its end, as a numeral with the point further right does, gives a
decimal number with the same value.
-/

namespace StreamGrammar.Binary64

variable {x : Binary64} {d : Decimal}

/-! ## The value of a decimal number -/

theorem Decimal.value_ratio (d : Decimal) : d.ratio.value = d.digits * 10 ^ d.exponent := by
  rw [Decimal.ratio, Ratio.value_scale, Ratio.value_ofNat]
  rfl

/-- A decimal number with an exponent that decides nothing is rounded. -/
theorem ofDecimal_of_range (negative : Bool) (h : d.digits ≠ 0) (hle : d.exponent ≤ 400)
    (hge : -401 - (d.digits.log2 : Int) ≤ d.exponent) :
    ofDecimal negative d = ofRatio negative d.ratio := by
  rw [ofDecimal, if_neg h, if_neg (by omega), if_neg (by omega)]

/-- The sign has no part in reading but to be there. -/
theorem ofDecimal_sign (negative : Bool) (d : Decimal) :
    ofDecimal negative d = { ofDecimal false d with negative } := by
  have hassemble : ∀ (significand : Nat) (power : Int),
      assemble negative significand power =
        { assemble false significand power with negative } := fun significand power => by
    unfold assemble
    split
    · rfl
    split <;> rfl
  unfold ofDecimal
  split
  · rfl
  split
  · rfl
  split
  · rfl
  unfold ofRatio
  split
  · rfl
  dsimp only
  split <;> exact hassemble _ _

/-- **Zeros at the end do not matter**: a decimal number is read alike with its
point that much further left. -/
theorem ofDecimal_zeros (negative : Bool) (digits : Nat) {zeros : Nat} (h : zeros ≤ 400) :
    ofDecimal negative { digits := digits * 10 ^ (zeros + 1), exponent := -1 } =
      ofDecimal negative { digits, exponent := zeros } := by
  by_cases hzero : digits = 0
  · subst hzero
    rw [ofDecimal, ofDecimal, if_pos (Nat.zero_mul _), if_pos rfl]
  · have hpow : digits * 10 ^ (zeros + 1) ≠ 0 :=
      Nat.mul_ne_zero hzero (Nat.pow_pos (by decide)).ne'
    rw [ofDecimal_of_range negative hpow (by dsimp only; omega) (by dsimp only; omega),
      ofDecimal_of_range negative hzero (by dsimp only; omega) (by dsimp only; omega)]
    refine ofRatio_congr negative ?_
    rw [Decimal.value_ratio, Decimal.value_ratio]
    simp only [Nat.cast_mul, Nat.cast_pow, Nat.cast_ofNat]
    rw [pow_succ, zpow_neg_one, zpow_natCast, ← mul_assoc,
      mul_inv_cancel_right₀ (by norm_num : (10 : ℚ) ≠ 0)]

/-! ## The choice -/

/-- A double written out in full has the value of the double. -/
theorem value_exact (x : Binary64) : x.exact.ratio.value = x.ratio.value := by
  rw [Decimal.value_ratio, value_ratio, exact]
  cases x.power with
  | ofNat k => simp
  | negSucc k =>
    have hfive : (5 : ℚ) ^ (k + 1) ≠ 0 := pow_ne_zero _ (by norm_num)
    simp only [Nat.cast_mul, Nat.pow_eq, Nat.cast_pow, Nat.cast_ofNat, zpow_negSucc]
    rw [show (10 : ℚ) = 5 * 2 by norm_num, mul_pow, mul_inv, mul_assoc,
      mul_inv_cancel_left₀ hfive]

/-- The digits of a double written out in full make up for its exponent. -/
theorem range_exact (hzero : x.significand ≠ 0) :
    x.exact.digits ≠ 0 ∧ x.exact.exponent ≤ 400 ∧
      -401 - (x.exact.digits.log2 : Int) ≤ x.exact.exponent := by
  rw [exact]
  cases x.power with
  | ofNat k =>
    exact ⟨Nat.mul_ne_zero hzero (Nat.pow_pos two_pos).ne', by dsimp only; omega,
      by dsimp only; omega⟩
  | negSucc k =>
    have hdigits : x.significand * Nat.pow 5 (k + 1) ≠ 0 :=
      Nat.mul_ne_zero hzero (Nat.pow_pos (by decide)).ne'
    -- each place after the point brings a factor of five, which is worth more than a bit
    have hlog : k + 1 ≤ (x.significand * Nat.pow 5 (k + 1)).log2 := by
      rw [Nat.le_log2 hdigits]
      calc 2 ^ (k + 1) ≤ 5 ^ (k + 1) := Nat.pow_le_pow_left (by decide) _
        _ ≤ x.significand * 5 ^ (k + 1) := Nat.le_mul_of_pos_left _ (Nat.pos_of_ne_zero hzero)
    exact ⟨hdigits, by dsimp only; omega, by dsimp only; omega⟩

theorem ofDecimal_exact (h : x.isFinite = true) (hzero : x.significand ≠ 0) (negative : Bool) :
    ofDecimal negative x.exact = { x with negative } := by
  obtain ⟨hdigits, hle, hge⟩ := range_exact hzero
  rw [ofDecimal_of_range negative hdigits hle hge]
  exact ofRatio_of_value h negative (value_exact x)

/-- What the search finds was tested by reading it. -/
theorem readsBack_of_shortest? {coarsest : Int} (h : x.shortest? coarsest = some d) :
    ofDecimal false d = { x with negative := false } := by
  obtain ⟨k, _, hk⟩ := List.exists_of_findSome?_eq_some h
  have hreads : x.readsBack d = true := List.find?_some hk
  exact of_decide_eq_true hreads

/-- **The decimal number that is chosen for a finite double is read as the
double.** -/
theorem ofDecimal_shortest (h : x.isFinite = true) : ofDecimal x.negative x.shortest = x := by
  rw [shortest]
  by_cases hzero : x.significand = 0
  · rw [if_pos hzero]
    exact (eq_zero_of_significand hzero x.negative).symm
  · rw [if_neg hzero]
    -- the search tests what it finds, and is not asked to find anything
    cases hfound : x.shortest? x.ratio.floorLog10 with
    | none => exact ofDecimal_exact h hzero x.negative
    | some d =>
      rw [Option.getD_some, ofDecimal_sign, readsBack_of_shortest? hfound]

/-- Only a zero is given the digit zero. -/
theorem digits_shortest_ne_zero (h : x.isFinite = true) (hzero : x.significand ≠ 0) :
    x.shortest.digits ≠ 0 := by
  intro hdigits
  have hread := ofDecimal_shortest h
  rw [ofDecimal, if_pos hdigits] at hread
  rw [← hread] at hzero
  exact hzero rfl

end StreamGrammar.Binary64
