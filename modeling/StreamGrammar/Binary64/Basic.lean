import StreamGrammar.Binary64.Ratio

/-!
# Binary floating-point numbers

A `Binary64` is an IEEE 754 double by its three fields, so two of them are
equal exactly when their words are: the two zeros differ, and a NaN equals
itself. Arithmetic on them is not needed here. What is needed is the number
nearest to a ratio, `Binary64.ofRatio`, and it is computed in natural
numbers: scale the ratio until its integer part has 53 bits, round once.

The powers of two of the format are written in hexadecimal: thirteen digits
after the leading one for the 52 bits of the fraction.
-/

namespace StreamGrammar

/-- **A double**, by the fields of its word. -/
structure Binary64 where
  /-- The sign bit. -/
  negative : Bool
  /-- The biased exponent; all ones for the infinities and NaNs. -/
  exponent : Nat
  /-- The fraction, without the leading bit of a normal number. -/
  fraction : Nat
  /-- The exponent has eleven bits. -/
  exponent_lt : exponent < 0x800
  /-- The fraction has fifty-two bits. -/
  fraction_lt : fraction < 0x10000000000000
deriving DecidableEq

namespace Binary64

/-- The zero of a sign. -/
def zero (negative : Bool) : Binary64 :=
  { negative, exponent := 0, fraction := 0, exponent_lt := by decide, fraction_lt := by decide }

/-- The infinity of a sign. -/
def infinity (negative : Bool) : Binary64 :=
  { negative, exponent := 0x7FF, fraction := 0, exponent_lt := by decide,
    fraction_lt := by decide }

/-- Neither infinite nor a NaN. -/
def isFinite (x : Binary64) : Bool := x.exponent != 0x7FF

/-- Infinite, of either sign. -/
def isInfinite (x : Binary64) : Bool := x.exponent == 0x7FF && x.fraction == 0

/-! ## Words -/

/-- The word of a double. -/
def toBits (x : Binary64) : Nat :=
  (if x.negative then 0x8000000000000000 else 0) + x.exponent * 0x10000000000000 + x.fraction

/-- The double of a word; bits above the sign do not count. -/
def ofBits (word : Nat) : Binary64 :=
  { negative := (word / 0x8000000000000000) % 2 == 1
    exponent := (word / 0x10000000000000) % 0x800
    fraction := word % 0x10000000000000
    exponent_lt := Nat.mod_lt _ (by decide)
    fraction_lt := Nat.mod_lt _ (by decide) }

/-- **A double is told by its word**, and so two are equal when their words are. -/
theorem ofBits_toBits (x : Binary64) : ofBits x.toBits = x := by
  obtain ⟨s, e, f, he, hf⟩ := x
  cases s <;> simp only [ofBits, toBits] <;> simp <;> omega

/-! ## Significand and power -/

/-- The significand of a finite double: its value is this times two to the
`power`. -/
def significand (x : Binary64) : Nat :=
  if x.exponent = 0 then x.fraction else 0x10000000000000 + x.fraction

/-- The power of two that the significand is multiplied by. -/
def power (x : Binary64) : Int :=
  (if x.exponent = 0 then 1 else (x.exponent : Int)) - 1075

/-- The absolute value of a finite double. -/
def ratio (x : Binary64) : Ratio := (Ratio.ofNat x.significand).scale .two x.power

/-- The double with a significand of at most 53 bits and a power of at least
`-1074`, where the significand has fewer bits only at that least power. A
power too large for the format gives infinity. -/
def assemble (negative : Bool) (significand : Nat) (power : Int) : Binary64 :=
  if significand < 0x10000000000000 then
    { negative, exponent := 0, fraction := significand % 0x10000000000000,
      exponent_lt := by decide, fraction_lt := Nat.mod_lt _ (by decide) }
  else if h : (power + 1075).toNat < 0x7FF then
    { negative, exponent := (power + 1075).toNat, fraction := significand % 0x10000000000000,
      exponent_lt := by omega, fraction_lt := Nat.mod_lt _ (by decide) }
  else infinity negative

/-- **Taking a finite double apart and putting it together gives it back.** -/
theorem assemble_significand_power {x : Binary64} (h : x.isFinite = true) :
    assemble x.negative x.significand x.power = x := by
  obtain ⟨s, e, f, he, hf⟩ := x
  simp only [isFinite, bne_iff_ne, ne_eq] at h
  by_cases h0 : e = 0
  · subst h0
    have hfrac : f % 0x10000000000000 = f := Nat.mod_eq_of_lt hf
    simp only [assemble, significand, if_true, if_pos hf, hfrac]
  · have h1 : ((e : Int) - 1075 + 1075).toNat = e := by omega
    have h2 : e < 0x7FF := by omega
    have h3 : (0x10000000000000 + f) % 0x10000000000000 = f := by omega
    have h4 : ¬(0x10000000000000 + f < 0x10000000000000) := by omega
    simp only [assemble, significand, power, h0, if_false, h4, h1, h2, dif_pos, h3]

/-! ## Rounding -/

/-- **The double nearest to a ratio**, and the even one of two that are
equally near. A significand that is rounded up to 54 bits is a power of two,
and one power higher it fits. -/
def ofRatio (negative : Bool) (r : Ratio) : Binary64 :=
  if r.num = 0 then zero negative
  else
    let power := max (-1074) (r.floorLog2 - 52)
    let significand := (r.scale .two (-power)).round
    if significand = 0x20000000000000 then assemble negative 0x10000000000000 (power + 1)
    else assemble negative significand power

end Binary64

end StreamGrammar
