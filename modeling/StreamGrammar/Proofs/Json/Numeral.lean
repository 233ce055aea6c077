import Mathlib.Data.List.Induction
import StreamGrammar.Proofs.Binary64.Shortest
import StreamGrammar.Proofs.Json.Syntax

/-!
# Numerals are numbers as they are written

The numeral of an integer is its decimal digits, none of them superfluous, so it
is a number without fraction or exponent; and it has as many digits as a reader
admits if the integer is writable. The numeral of a finite double always has a
fraction or an exponent. Where the point is put depends on the size of the double,
but for one place the digits around it are those of the decimal number chosen for
the double: zeros are filled in before a point that is further right.
-/

namespace StreamGrammar.Json

/-! ## Digits -/

section Digits

variable {n : Nat} {ds : List Nat}

theorem digits_ne_nil (n : Nat) : Numeral.digits n ≠ [] := by
  by_cases h : n < 10
  · rw [Numeral.digits_of_lt h]
    exact List.cons_ne_nil _ _
  · rw [Numeral.digits_of_le (by omega)]
    exact List.append_ne_nil_of_right_ne_nil _ (List.cons_ne_nil _ _)

theorem areDigits_digits (n : Nat) : AreDigits (Numeral.digits n) :=
  ⟨digits_ne_nil n, fun _ hd => Numeral.digits_lt hd⟩

/-- Only zero is written with a leading zero. -/
theorem head_digits (h : (Numeral.digits n).head? = some 0) : n = 0 := by
  induction n using Nat.strongRecOn with
  | _ n ih =>
    by_cases hn : n < 10
    · rw [Numeral.digits_of_lt hn] at h
      exact Option.some.inj h
    · rw [Numeral.digits_of_le (by omega), List.head?_append_of_ne_nil _ (digits_ne_nil _)] at h
      have := ih (n / 10) (by omega) h
      omega

theorem leading_digits (h : (Numeral.digits n).head? = some 0) : Numeral.digits n = [0] := by
  rw [head_digits h, Numeral.digits_of_lt (by decide)]

/-- Zeros before or after digits are digits too. -/
theorem AreDigits.append_zeros (h : AreDigits ds) (k : Nat) :
    AreDigits (ds ++ List.replicate k 0) := by
  refine ⟨List.append_ne_nil_of_left_ne_nil h.1 _, List.forall_mem_append.mpr ⟨h.2, ?_⟩⟩
  intro d hd
  rw [List.eq_of_mem_replicate hd]
  decide

theorem AreDigits.zeros_append (h : AreDigits ds) (k : Nat) :
    AreDigits (List.replicate k 0 ++ ds) := by
  refine ⟨List.append_ne_nil_of_right_ne_nil _ h.1, List.forall_mem_append.mpr ⟨?_, h.2⟩⟩
  intro d hd
  rw [List.eq_of_mem_replicate hd]
  decide

/-- A number has as many digits as it takes for a power of ten to be greater. -/
theorem length_digits_le {k : Nat} (hk : 0 < k) (h : n < 10 ^ k) :
    (Numeral.digits n).length ≤ k := by
  induction k generalizing n with
  | zero => omega
  | succ k ih =>
    by_cases hn : n < 10
    · rw [Numeral.digits_of_lt hn, List.length_singleton]
      omega
    · rw [Numeral.digits_of_le (by omega), List.length_append, List.length_singleton]
      have hpow : n / 10 < 10 ^ k := by
        rw [Nat.div_lt_iff_lt_mul (by decide), ← Nat.pow_succ]
        exact h
      have hpos : 0 < k := by
        refine Nat.pos_of_ne_zero fun hzero => ?_
        rw [hzero, Nat.pow_zero] at hpow
        omega
      exact Nat.succ_le_succ (ih hpos hpow)

/-- A numeral that may be written may be read. -/
theorem length_digits_of_isWritable (h : Numeral.isWritable n = true) :
    (Numeral.digits n).length ≤ Numeral.maxDigits := by
  have hpos : 0 < Numeral.maxDigits := by decide
  rw [Numeral.isWritable, decide_eq_true_iff] at h
  -- the power is not to be computed
  generalize Numeral.maxDigits = k at h hpos ⊢
  exact length_digits_le hpos h

/-- A number of so many digits is less than the power of ten. -/
theorem ofDigits_lt (h : ∀ d ∈ ds, d < 10) : Numeral.ofDigits ds < 10 ^ ds.length := by
  induction ds using List.reverseRecOn with
  | nil => exact Nat.one_pos
  | append_singleton ds d ih =>
    obtain ⟨hds, hd⟩ := List.forall_mem_append.mp h
    have hlt := ih hds
    have := List.forall_mem_singleton.mp hd
    rw [Numeral.ofDigits_append, List.length_append, List.length_singleton, Nat.pow_succ]
    omega

/-- A numeral that may be read may be written. -/
theorem isWritable_ofDigits (h : ∀ d ∈ ds, d < 10) (hlen : ds.length ≤ Numeral.maxDigits) :
    Numeral.isWritable (Numeral.ofDigits ds) = true := by
  rw [Numeral.isWritable, decide_eq_true_iff]
  -- the power is not to be computed
  generalize Numeral.maxDigits = k at hlen ⊢
  exact lt_of_lt_of_le (ofDigits_lt h) (Nat.pow_le_pow_right (by decide) hlen)

theorem ofDigits_append_zeros (ds : List Nat) (k : Nat) :
    Numeral.ofDigits (ds ++ List.replicate k 0) = Numeral.ofDigits ds * 10 ^ k := by
  induction k with
  | zero => rw [List.replicate_zero, List.append_nil, Nat.pow_zero, Nat.mul_one]
  | succ k ih =>
    rw [List.replicate_succ', ← List.append_assoc, Numeral.ofDigits_append, ih, Nat.pow_succ,
      Nat.add_zero, Nat.mul_comm 10, Nat.mul_assoc]

theorem ofDigits_zeros_append (k : Nat) (ds : List Nat) :
    Numeral.ofDigits (List.replicate k 0 ++ ds) = Numeral.ofDigits ds := by
  induction k with
  | zero => rfl
  | succ k ih =>
    rw [← ih, List.replicate_succ]
    rfl

end Digits

/-! ## Integers -/

/-- An integer, as it is written. -/
def integerForm (minus : Bool) (n : Nat) : NumberForm :=
  { minus, whole := Numeral.digits n, fraction := none, exponent := none }

theorem wellFormed_integerForm (minus : Bool) (n : Nat) : (integerForm minus n).WellFormed where
  whole := areDigits_digits n
  leading := leading_digits
  fraction _ h := nomatch h
  exponent _ h := nomatch h

theorem text_integerForm (minus : Bool) (n : Nat) :
    (integerForm minus n).text =
      (if minus then [CodePoint.ofChar '-'] else []) ++ Numeral.decimal n := by
  simp only [integerForm, NumberForm.text, NumberForm.fractionText, NumberForm.exponentText,
    List.append_nil]
  rfl

theorem value?_integerForm (minus : Bool) {n : Nat} (h : Numeral.isWritable n = true) :
    (integerForm minus n).value? = some (if minus then .signed (-(n : Int)) else .unsigned n) := by
  have hlength : (integerForm minus n).whole.length ≤ Numeral.maxDigits :=
    length_digits_of_isWritable h
  rw [NumberForm.value?_of_integer ⟨rfl, rfl⟩, if_pos hlength]
  simp only [integerForm, Numeral.ofDigits_digits]

/-! ## Doubles -/

/-- Digits with the point after so many of them, as they are written. -/
def positionalForm (minus : Bool) (ds : List Nat) (whole : Int) : NumberForm :=
  match whole with
  | .ofNat 0 => { minus, whole := [0], fraction := some ds, exponent := none }
  | .negSucc k =>
    { minus, whole := [0], fraction := some (List.replicate (k + 1) 0 ++ ds), exponent := none }
  | .ofNat k =>
    if ds.length ≤ k then
      { minus, whole := ds ++ List.replicate (k - ds.length) 0, fraction := some [0],
        exponent := none }
    else { minus, whole := ds.take k, fraction := some (ds.drop k), exponent := none }

/-- Digits with the point after the first, and an exponent, as they are written. -/
def scientificForm (minus : Bool) (ds : List Nat) (exponent : Int) : NumberForm :=
  let size := Numeral.digits exponent.natAbs
  { minus, whole := ds.take 1
    fraction := if ds.drop 1 = [] then none else some (ds.drop 1)
    exponent := some
      { capital := false, minus := some (exponent < 0)
        digits := if size.length < 2 then 0 :: size else size } }

/-- The numeral of a double, as it is written. -/
def doubleForm (x : Binary64) : NumberForm :=
  let ds := Numeral.digits x.shortest.digits
  let leading : Int := x.shortest.exponent + ds.length - 1
  if -4 ≤ leading ∧ leading < 16 then positionalForm x.negative ds (leading + 1)
  else scientificForm x.negative ds leading

section Digits

variable {minus : Bool} {ds : List Nat} {whole exponent : Int}

theorem minus_positionalForm (minus : Bool) (ds : List Nat) (whole : Int) :
    (positionalForm minus ds whole).minus = minus := by
  unfold positionalForm
  split
  · rfl
  · rfl
  · split <;> rfl

theorem fraction_positionalForm (minus : Bool) (ds : List Nat) (whole : Int) :
    (positionalForm minus ds whole).fraction ≠ none := by
  unfold positionalForm
  split
  · exact Option.some_ne_none _
  · exact Option.some_ne_none _
  · split <;> exact Option.some_ne_none _

theorem positionalForm_succ (minus : Bool) (ds : List Nat) (k : Nat) :
    positionalForm minus ds (.ofNat (k + 1)) =
      if ds.length ≤ k + 1 then
        { minus, whole := ds ++ List.replicate (k + 1 - ds.length) 0, fraction := some [0],
          exponent := none }
      else { minus, whole := ds.take (k + 1), fraction := some (ds.drop (k + 1)),
             exponent := none } :=
  rfl

theorem digitsText_append (ds es : List Nat) :
    digitsText (ds ++ es) = digitsText ds ++ digitsText es :=
  List.map_append

theorem digitsText_zeros (k : Nat) :
    digitsText (List.replicate k 0) = List.replicate k (Numeral.digit 0) :=
  List.map_replicate

theorem text_positionalForm :
    (positionalForm minus ds whole).text =
      (if minus then [CodePoint.ofChar '-'] else []) ++
        Binary64.positional (digitsText ds) whole := by
  have hzero : (Text.ofString "0.") = digitsText [0] ++ [CodePoint.ofChar '.'] := rfl
  have hend : Text.ofString ".0" = CodePoint.ofChar '.' :: digitsText [0] := rfl
  have hpoint : Text.ofString "." = [CodePoint.ofChar '.'] := rfl
  match whole with
  | .ofNat 0 =>
    simp only [positionalForm, Binary64.positional, NumberForm.text, NumberForm.fractionText,
      NumberForm.exponentText, Text.concat, List.flatten_cons, List.flatten_nil, hzero,
      List.append_nil, List.append_assoc, List.singleton_append]
  | .negSucc k =>
    simp only [positionalForm, Binary64.positional, NumberForm.text, NumberForm.fractionText,
      NumberForm.exponentText, Text.concat, List.flatten_cons, List.flatten_nil, hzero,
      List.append_nil, List.append_assoc, List.singleton_append, digitsText_append,
      digitsText_zeros]
    rfl
  | .ofNat (k + 1) =>
    have hlength : (digitsText ds).length = ds.length := List.length_map _
    simp only [positionalForm, Binary64.positional, hlength]
    split
    · simp only [NumberForm.text, NumberForm.fractionText, NumberForm.exponentText, Text.concat,
        List.flatten_cons, List.flatten_nil, hend, List.append_nil, List.append_assoc,
        digitsText_append, digitsText_zeros]
    · simp only [NumberForm.text, NumberForm.fractionText, NumberForm.exponentText, Text.concat,
        List.flatten_cons, List.flatten_nil, hpoint, List.append_nil, List.singleton_append,
        digitsText, List.map_take, List.map_drop]

theorem text_scientificForm :
    (scientificForm minus ds exponent).text =
      (if minus then [CodePoint.ofChar '-'] else []) ++
        Binary64.scientific (digitsText ds) exponent := by
  have hfraction : NumberForm.fractionText (if ds.drop 1 = [] then none else some (ds.drop 1)) =
      if (List.drop 1 (digitsText ds)).isEmpty then []
      else Text.ofString "." ++ List.drop 1 (digitsText ds) := by
    rw [digitsText, ← List.map_drop, List.isEmpty_map]
    by_cases h : ds.drop 1 = []
    · rw [if_pos h, h]
      rfl
    · rw [if_neg h, if_neg (by rwa [List.isEmpty_iff])]
      rfl
  have hexponent : ∀ size : List Nat,
      ExponentForm.text
          { capital := false, minus := some (decide (exponent < 0)), digits := size } =
        (if exponent < 0 then Text.ofString "e-" else Text.ofString "e+") ++ digitsText size := by
    intro size
    by_cases h : exponent < 0
    · simp only [ExponentForm.text, ExponentForm.signText, h, decide_true, if_true]
      rfl
    · simp only [ExponentForm.text, ExponentForm.signText, h, decide_false, if_false]
      rfl
  have hsize : digitsText (if (Numeral.digits exponent.natAbs).length < 2 then
        0 :: Numeral.digits exponent.natAbs else Numeral.digits exponent.natAbs) =
      if (Numeral.decimal exponent.natAbs).length < 2 then
        Numeral.digit 0 :: Numeral.decimal exponent.natAbs
      else Numeral.decimal exponent.natAbs := by
    rw [Numeral.decimal, List.length_map]
    split <;> rfl
  rw [scientificForm, Binary64.scientific]
  simp only [NumberForm.text, NumberForm.exponentText, Text.concat, List.flatten_cons,
    List.flatten_nil, List.append_nil, hfraction, hexponent, hsize, ← List.append_assoc]
  rw [digitsText, List.map_take]
  rfl

/-- Digits make a number with the point put anywhere, if they begin with a zero
only where the point comes right after it. -/
theorem wellFormed_positionalForm (h : AreDigits ds)
    (hzero : ds.head? = some 0 → ds = [0] ∧ whole = 1) :
    (positionalForm minus ds whole).WellFormed := by
  have hone : AreDigits [0] := ⟨List.cons_ne_nil _ _, by simp⟩
  match whole with
  | .ofNat 0 =>
    exact ⟨hone, fun _ => rfl, fun _ hf => Option.some.inj hf ▸ h, fun _ he => nomatch he⟩
  | .negSucc k =>
    exact ⟨hone, fun _ => rfl, fun _ hf => Option.some.inj hf ▸ h.zeros_append (k + 1),
      fun _ he => nomatch he⟩
  | .ofNat (k + 1) =>
    rw [positionalForm_succ]
    split
    · refine ⟨h.append_zeros _, fun hhead => ?_, fun _ hf => Option.some.inj hf ▸ hone,
        fun _ he => nomatch he⟩
      rw [List.head?_append_of_ne_nil _ h.1] at hhead
      obtain ⟨rfl, hk⟩ := hzero hhead
      obtain rfl : k = 0 := by simpa using hk
      rfl
    · rename_i hlength
      refine ⟨⟨?_, fun d hd => h.2 d (List.mem_of_mem_take hd)⟩, fun hhead => ?_, ?_,
        fun _ he => nomatch he⟩
      · simpa using h.1
      · rw [List.head?_take, if_neg (by omega)] at hhead
        obtain ⟨rfl, _⟩ := hzero hhead
        simp at hlength
      · intro _ hf
        cases hf
        exact ⟨by simpa using hlength, fun d hd => h.2 d (List.mem_of_mem_drop hd)⟩

theorem wellFormed_scientificForm (h : AreDigits ds) :
    (scientificForm minus ds exponent).WellFormed := by
  have hsize := areDigits_digits exponent.natAbs
  obtain ⟨d, ds, rfl⟩ := List.exists_cons_of_ne_nil h.1
  refine ⟨⟨List.cons_ne_nil _ _, fun e he => h.2 e (List.mem_of_mem_take he)⟩, ?_, ?_, ?_⟩
  · intro hhead
    obtain rfl : d = 0 := Option.some.inj hhead
    rfl
  · intro es hes
    simp only [scientificForm] at hes
    split at hes
    · cases hes
    · cases hes
      exact ⟨‹_›, fun e he => h.2 e (List.mem_of_mem_drop he)⟩
  · intro e he
    cases he
    dsimp only
    split
    · exact hsize.zeros_append 1
    · exact hsize

/-- **Wherever the point is put**, the number is the digits at their place. -/
theorem ofDecimal_positionalForm (hwhole : whole - ds.length ≤ 400) (negative : Bool) :
    Binary64.ofDecimal negative (positionalForm minus ds whole).decimal =
      Binary64.ofDecimal negative
        { digits := Numeral.ofDigits ds, exponent := whole - ds.length } := by
  match whole with
  | .ofNat 0 =>
    have hdigits : Numeral.ofDigits ([0] ++ ds) = Numeral.ofDigits ds := ofDigits_zeros_append 1 ds
    simp only [positionalForm, NumberForm.decimal, Option.getD_some, hdigits]
    rfl
  | .negSucc k =>
    have hdigits : Numeral.ofDigits ([0] ++ (List.replicate (k + 1) 0 ++ ds)) =
        Numeral.ofDigits ds :=
      (ofDigits_zeros_append 1 _).trans (ofDigits_zeros_append (k + 1) ds)
    simp only [positionalForm, NumberForm.decimal, Option.getD_some, hdigits]
    congr 2
    simp
    omega
  | .ofNat (k + 1) =>
    rw [positionalForm_succ]
    split
    -- the point is right of the digits: zeros are filled in, and one more follows it
    · rename_i hlength
      have hdigits : Numeral.ofDigits (ds ++ List.replicate (k + 1 - ds.length) 0 ++ [0]) =
          Numeral.ofDigits ds * 10 ^ (k + 1 - ds.length + 1) := by
        rw [List.append_assoc, ← List.replicate_succ', ofDigits_append_zeros]
      have hplaces : k + 1 - ds.length ≤ 400 := by
        simp at hwhole
        omega
      have hzeros := Binary64.ofDecimal_zeros negative (Numeral.ofDigits ds) hplaces
      simp only [NumberForm.decimal, Option.getD_some, hdigits]
      refine Eq.trans ?_ (hzeros.trans ?_)
      · rfl
      · congr 2
        simp
        omega
    · rename_i hlength
      simp only [NumberForm.decimal, Option.getD_some, List.take_append_drop, List.length_drop]
      congr 2
      simp
      omega

/-- The number is the digits at their place where an exponent says it, too. -/
theorem decimal_scientificForm (h : ds ≠ []) :
    (scientificForm minus ds exponent).decimal =
      { digits := Numeral.ofDigits ds, exponent := exponent - (ds.length - 1) } := by
  have hdrop : (if ds.drop 1 = [] then none else some (ds.drop 1)).getD [] = ds.drop 1 := by
    split <;> simp_all
  have hvalue : ExponentForm.value
      { capital := false, minus := some (decide (exponent < 0))
        digits := if (Numeral.digits exponent.natAbs).length < 2 then
            0 :: Numeral.digits exponent.natAbs
          else Numeral.digits exponent.natAbs } = exponent := by
    have hdigits : Numeral.ofDigits (if (Numeral.digits exponent.natAbs).length < 2 then
          0 :: Numeral.digits exponent.natAbs
        else Numeral.digits exponent.natAbs) = exponent.natAbs := by
      split
      · exact (ofDigits_zeros_append 1 _).trans (Numeral.ofDigits_digits _)
      · exact Numeral.ofDigits_digits _
    simp only [ExponentForm.value, hdigits, Option.some.injEq, decide_eq_true_eq]
    split <;> omega
  simp only [scientificForm, NumberForm.decimal, hdrop, List.take_append_drop, Option.map_some,
    Option.getD_some, hvalue, List.length_drop]
  congr 1
  have := List.length_pos_iff.mpr h
  omega

end Digits

section Doubles

variable {x : Binary64}

theorem text_doubleForm (h : x.isFinite = true) : (doubleForm x).text = x.numeral := by
  have hlength : (Numeral.decimal x.shortest.digits).length =
      (Numeral.digits x.shortest.digits).length := List.length_map _
  have hsign : ∀ t : Text, (if x.negative then [CodePoint.ofChar '-'] else []) ++ t =
      if x.negative then CodePoint.ofChar '-' :: t else t := fun t => by
    split <;> rfl
  simp only [doubleForm, Binary64.numeral, h, if_true, hlength]
  split
  · rw [text_positionalForm, hsign]
    rfl
  · rw [text_scientificForm, hsign]
    rfl

/-- The digits of a double begin with a zero only for the zeros, which have their
point right after it. -/
theorem leading_shortest (h : x.isFinite = true)
    (hzero : (Numeral.digits x.shortest.digits).head? = some 0) :
    Numeral.digits x.shortest.digits = [0] ∧ x.shortest.exponent = 0 := by
  refine ⟨leading_digits hzero, ?_⟩
  by_cases hsignificand : x.significand = 0
  · rw [Binary64.shortest, if_pos hsignificand]
  · exact absurd (head_digits hzero) (Binary64.digits_shortest_ne_zero h hsignificand)

theorem wellFormed_doubleForm (h : x.isFinite = true) : (doubleForm x).WellFormed := by
  have hdigits := areDigits_digits x.shortest.digits
  simp only [doubleForm]
  split
  · refine wellFormed_positionalForm hdigits fun hhead => ?_
    obtain ⟨hone, hexponent⟩ := leading_shortest h hhead
    exact ⟨hone, by rw [hone, hexponent]; rfl⟩
  · exact wellFormed_scientificForm hdigits

/-- The decimal number that is written has the digits of the one that is chosen. -/
theorem ofDecimal_doubleForm (x : Binary64) :
    Binary64.ofDecimal (doubleForm x).minus (doubleForm x).decimal =
      Binary64.ofDecimal x.negative x.shortest := by
  have hplace : ∀ exponent, exponent = x.shortest.exponent →
      Binary64.ofDecimal x.negative { digits := x.shortest.digits, exponent } =
        Binary64.ofDecimal x.negative x.shortest := fun _ hexponent => by
    rw [hexponent]
  simp only [doubleForm]
  split
  · rw [minus_positionalForm, ofDecimal_positionalForm (by omega), Numeral.ofDigits_digits]
    exact hplace _ (by omega)
  · rw [decimal_scientificForm (digits_ne_nil _), Numeral.ofDigits_digits]
    exact hplace _ (by omega)

/-- **The numeral of a finite double denotes the double.** -/
theorem value?_doubleForm (h : x.isFinite = true) : (doubleForm x).value? = some (.float x) := by
  have hparts : ¬((doubleForm x).fraction = none ∧ (doubleForm x).exponent = none) := by
    simp only [doubleForm]
    split
    · exact fun hnone => fraction_positionalForm _ _ _ hnone.1
    · exact fun hnone => nomatch hnone.2
  rw [NumberForm.value?_of_float hparts, ofDecimal_doubleForm, Binary64.ofDecimal_shortest h,
    if_pos h]

end Doubles

end StreamGrammar.Json
