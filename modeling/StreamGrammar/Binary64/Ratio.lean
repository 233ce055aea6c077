/-!
# Ratios of natural numbers

Reading a double from a decimal number, and choosing a decimal number for a
double, is arithmetic with rational numbers: they are multiplied by powers of
two or ten, compared with such powers, and rounded to an integer. A `Ratio` is
not reduced, so that each step is one multiplication, nothing is lost on the
way, and rounding happens once.
-/

namespace StreamGrammar

/-- **A rational number** that is not below zero, as a quotient. -/
structure Ratio where
  /-- The numerator. -/
  num : Nat
  /-- The denominator. -/
  den : Nat
  /-- The denominator is not zero. -/
  den_pos : 0 < den

namespace Ratio

/-- The bases of the powers that ratios are multiplied by: that of doubles and that
of numerals. -/
inductive Base where
  /-- Two. -/
  | two
  /-- Ten. -/
  | ten

/-- The number that a base is. -/
def Base.val : Base → Nat
  | .two => 2
  | .ten => 10

theorem Base.val_pos (base : Base) : 0 < base.val := by
  cases base <;> decide

/-- A natural number as a ratio. -/
def ofNat (n : Nat) : Ratio := { num := n, den := 1, den_pos := Nat.one_pos }

/-- A ratio multiplied by a power of a base. -/
def scale (r : Ratio) (base : Base) : Int → Ratio
  | .ofNat k => { r with num := r.num * Nat.pow base.val k }
  | .negSucc k =>
    { r with
      den := r.den * Nat.pow base.val (k + 1)
      den_pos := Nat.mul_pos r.den_pos (Nat.pow_pos base.val_pos) }

/-- Whether a ratio is at least a power of a base. -/
def isAtLeast (r : Ratio) (base : Base) (exponent : Int) : Bool :=
  let scaled := r.scale base (-exponent)
  scaled.den ≤ scaled.num

/-- The greatest integer that is not above a ratio. -/
def floor (r : Ratio) : Nat := r.num / r.den

/-- **The nearest integer** to a ratio, and the even one of two that are
equally near. -/
def round (r : Ratio) : Nat :=
  let rest := r.num % r.den
  if 2 * rest < r.den then r.floor
  else if r.den < 2 * rest then r.floor + 1
  else r.floor + r.floor % 2

/-- The exponent of the greatest power of two that is not above a positive
ratio. The lengths of numerator and denominator tell it up to one. -/
def floorLog2 (r : Ratio) : Int :=
  let estimate : Int := (r.num.log2 : Int) - r.den.log2
  if r.isAtLeast .two estimate then estimate else estimate - 1

/-- The exponent of the greatest power of ten that is not above a positive
ratio. Its distance from the estimate, which takes `log₁₀ 2` for 0.30103, is at
most two. -/
def floorLog10 (r : Ratio) : Int :=
  let estimate := (r.floorLog2 * 30103).fdiv 100000
  match [estimate + 2, estimate + 1, estimate, estimate - 1].find? (r.isAtLeast .ten) with
  | some exponent => exponent
  | none => estimate - 2

/-! ## Scaling and zero -/

theorem num_scale_eq_zero {r : Ratio} {base : Base} (e : Int) :
    (r.scale base e).num = 0 ↔ r.num = 0 := by
  match e with
  | .ofNat k =>
    have hpow : Nat.pow base.val k ≠ 0 := Nat.ne_of_gt (Nat.pow_pos base.val_pos)
    simp only [scale, Nat.mul_eq_zero, hpow, or_false]
  | .negSucc k => rfl

end Ratio

end StreamGrammar
