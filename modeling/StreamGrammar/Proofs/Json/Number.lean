import StreamGrammar.Proofs.Grammar.Matched
import StreamGrammar.Proofs.Json.Syntax
import StreamGrammar.Proofs.Text.Numeral
import StreamGrammar.Proofs.Text.Spelling

/-!
# Numbers are read as they are written

The grammar of numbers recognises exactly the texts of number forms, and gives
each the value that the form denotes. A number ends where it cannot go on: with
what may follow a number left out of what continues one, the form is known by
what is read. So each part has an equivalence or a pair of lemmas, one for
either direction, over both alphabets.
-/

namespace StreamGrammar.Json

open Grammar

variable {ε : Type} [Element ε] [Spelling ε]

/-! ## Digits -/

/-- Whether an element is a decimal digit. -/
def isDigitElement (e : ε) : Bool := Charset.isDigit (Element.code e)

/-- The digits that elements are. -/
def digitsOf (s : List ε) : List Nat := s.map fun e => Element.code e - 48

theorem digitsText_lt {ds : List Nat} (h : ∀ d ∈ ds, d < 10) :
    ∀ c ∈ digitsText ds, c.val < 0x80 := by
  intro c hc
  obtain ⟨d, hd, rfl⟩ := List.mem_map.mp hc
  have := h d hd
  rw [Numeral.val_digit this]
  omega

/-- The elements that spell digits are digits. -/
theorem isDigitElement_spell {ds : List Nat} (h : ∀ d ∈ ds, d < 10) :
    ∀ e ∈ (spell (digitsText ds) : List ε), isDigitElement e = true := by
  intro e he
  have hmem : Element.code e ∈ (spell (digitsText ds) : List ε).map Element.code :=
    List.mem_map_of_mem he
  rw [map_code_spell (digitsText_lt h)] at hmem
  obtain ⟨c, hc, hcode⟩ := List.mem_map.mp hmem
  obtain ⟨d, hd, rfl⟩ := List.mem_map.mp hc
  have hlt := h d hd
  rw [Numeral.val_digit hlt] at hcode
  simp only [isDigitElement, Charset.isDigit, ← hcode, Bool.and_eq_true, decide_eq_true_eq]
  omega

/-- The number that spelled digits denote is that of the digits. -/
theorem digitsOf_spell {ds : List Nat} (h : ∀ d ∈ ds, d < 10) :
    digitsOf (spell (digitsText ds) : List ε) = ds := by
  have hmap : digitsOf (spell (digitsText ds) : List ε) =
      ((spell (digitsText ds) : List ε).map Element.code).map (· - 48) := by
    rw [List.map_map]
    rfl
  rw [hmap, map_code_spell (digitsText_lt h), digitsText, List.map_map, List.map_map]
  refine (List.map_congr_left fun d hd => ?_).trans (List.map_id ds)
  simp only [Function.comp_apply, Numeral.val_digit (h d hd), id]
  omega

omit [Spelling ε] in
theorem decimalNumber_eq (s : List ε) : decimalNumber s = Numeral.ofDigits (digitsOf s) := rfl

/-- **Digit elements spell the digits that they are.** -/
theorem spell_digitsOf {s : List ε} (h : ∀ e ∈ s, isDigitElement e = true) :
    spell (digitsText (digitsOf s)) = s ∧ ∀ d ∈ digitsOf s, d < 10 := by
  have hbounds : ∀ e ∈ s, 48 ≤ Element.code e ∧ Element.code e ≤ 57 := fun e he => by
    simpa [isDigitElement, Charset.isDigit] using h e he
  constructor
  · have hmap : digitsText (digitsOf s) = s.map fun e => CodePoint.ofNat (Element.code e) := by
      rw [digitsText, digitsOf, List.map_map]
      refine List.map_congr_left fun e he => ?_
      have := hbounds e he
      simp only [Function.comp_apply, Numeral.digit]
      rw [show 48 + (Element.code e - 48) = Element.code e by omega]
    rw [hmap]
    exact spell_map_code fun e he => by
      have := hbounds e he
      omega
  · intro d hd
    obtain ⟨e, he, rfl⟩ := List.mem_map.mp hd
    have := hbounds e he
    omega

/-- **A run of digits**, wherever it is read. -/
theorem matched_digits {final : Bool} {s run rest : List ε} :
    (digits : Grammar ε _).verdict final s = .matched run rest ↔
      ∃ ds, AreDigits ds ∧ run = spell (digitsText ds) ∧ s = spell (digitsText ds) ++ rest ∧
        Halts isDigitElement final rest := by
  rw [digits, matched_takeSomeWhile]
  constructor
  · rintro ⟨hne, rfl, hrun, hrest⟩
    obtain ⟨hspell, hlt⟩ := spell_digitsOf hrun
    exact ⟨digitsOf run, ⟨by simpa [digitsOf] using hne, hlt⟩, hspell.symm, by rw [hspell],
      hrest⟩
  · rintro ⟨ds, ⟨hne, hlt⟩, rfl, rfl, hrest⟩
    refine ⟨fun hnil => hne ?_, rfl, isDigitElement_spell hlt, hrest⟩
    rw [← digitsOf_spell (ε := ε) hlt, hnil]
    rfl

/-! ## The parts of a number -/

/-- The parts that the grammar finds in an exponent. -/
def ExponentForm.parts (e : ExponentForm) : Exponent ε :=
  (e.minus.map fun minus => Element.ofAscii (if minus then '-' else '+'),
    spell (digitsText e.digits))

/-- The parts that the grammar finds in a number. -/
def NumberForm.parts (n : NumberForm) : NumberParts ε :=
  (if n.minus then some (Element.ofAscii '-') else none, spell (digitsText n.whole),
    n.fraction.map fun ds => spell (digitsText ds), n.exponent.map ExponentForm.parts)

theorem length_spell_digits {ds : List Nat} (h : ∀ d ∈ ds, d < 10) :
    (spell (digitsText ds) : List ε).length = ds.length := by
  have hlen := congrArg List.length (digitsOf_spell (ε := ε) h)
  simpa [digitsOf] using hlen

theorem exponentValue_parts {e : ExponentForm} (h : AreDigits e.digits) :
    exponentValue (e.parts : Exponent ε) = e.value := by
  have hapart : (Element.ofAscii '+' : ε) ≠ Element.ofAscii '-' := fun heq =>
    absurd (Element.ofAscii_injective (by decide) (by decide) heq) (by decide)
  rw [exponentValue, ExponentForm.value, ExponentForm.parts, decimalNumber_eq,
    digitsOf_spell h.2]
  rcases e.minus with _ | _ | _ <;> simp [hapart]

/-- Parts without a fraction and an exponent are an integer. -/
theorem numberValue_parts_of_integer {n : NumberForm} (h : n.WellFormed)
    (hint : n.fraction = none ∧ n.exponent = none) (v : Json) :
    numberValue (n.parts : NumberParts ε) = .ok v ↔ n.value? = some v := by
  rw [NumberForm.value?_of_integer hint]
  simp only [numberValue, NumberForm.parts, hint.1, hint.2, Option.map_none, Option.isNone_none,
    Bool.and_self, if_true, length_spell_digits h.whole.2, decimalNumber_eq,
    digitsOf_spell h.whole.2]
  by_cases hlen : n.whole.length ≤ Numeral.maxDigits
  · rw [if_neg (Nat.not_lt.mpr hlen), if_pos hlen]
    cases n.minus <;> simp
  · rw [if_pos (Nat.lt_of_not_le hlen), if_neg hlen]
    simp

/-- All others are a decimal number, rounded. -/
theorem numberValue_parts_of_float {n : NumberForm} (h : n.WellFormed)
    (hint : ¬(n.fraction = none ∧ n.exponent = none)) (v : Json) :
    numberValue (n.parts : NumberParts ε) = .ok v ↔ n.value? = some v := by
  have hplaces : ∀ d ∈ n.fraction.getD [], d < 10 := fun d hd => by
    cases hf : n.fraction with
    | none => rw [hf] at hd; cases hd
    | some ds => rw [hf] at hd; exact (h.fraction ds hf).2 d hd
  have hdigits : ∀ d ∈ n.whole ++ n.fraction.getD [], d < 10 := fun d hd =>
    (List.mem_append.mp hd).elim (h.whole.2 d) (hplaces d)
  have hparts : ((n.fraction.map fun ds => (spell (digitsText ds) : List ε)).isNone &&
      (n.exponent.map (ExponentForm.parts (ε := ε))).isNone) = false := by
    cases hf : n.fraction with
    | some ds => rfl
    | none => cases he : n.exponent with
      | some e => rfl
      | none => exact absurd ⟨hf, he⟩ hint
  have hsign : (if n.minus = true then some (Element.ofAscii '-' : ε) else none).isSome =
      n.minus := by
    cases n.minus <;> rfl
  have hgetD : (n.fraction.map fun ds => (spell (digitsText ds) : List ε)).getD [] =
      spell (digitsText (n.fraction.getD [])) := by
    cases n.fraction <;> rfl
  have hexp : (n.exponent.map ExponentForm.parts).map (exponentValue (ε := ε)) =
      n.exponent.map ExponentForm.value := by
    cases he : n.exponent with
    | none => rfl
    | some e => exact congrArg some (exponentValue_parts (h.exponent e he))
  -- the digits on both sides of the point are read as one number
  have hall : decimalNumber ((spell (digitsText n.whole) : List ε) ++
      spell (digitsText (n.fraction.getD []))) =
        Numeral.ofDigits (n.whole ++ n.fraction.getD []) := by
    rw [← spell_append, digitsText, digitsText, ← List.map_append, ← digitsText,
      decimalNumber_eq, digitsOf_spell hdigits]
  rw [NumberForm.value?_of_float hint]
  simp only [numberValue, NumberForm.parts, hparts, hgetD, hexp, hall, hsign,
    length_spell_digits hplaces, Bool.false_eq_true, if_false]
  rw [← NumberForm.decimal]
  split <;> simp

/-- **The parts are given the value that is denoted.** -/
theorem numberValue_parts {n : NumberForm} (h : n.WellFormed) (v : Json) :
    numberValue (n.parts : NumberParts ε) = .ok v ↔ n.value? = some v := by
  by_cases hint : n.fraction = none ∧ n.exponent = none
  · exact numberValue_parts_of_integer h hint v
  · exact numberValue_parts_of_float h hint v

omit [Spelling ε] in
/-- A digit is none of some characters that are no digits. -/
theorem isOneOf_of_isDigit {chars : List Char}
    (h : (chars.all fun c => !Charset.isDigit c.toNat) = true) {e : ε}
    (he : isDigitElement e = true) : Charset.isOneOf chars (Element.code e) = false := by
  simp only [Charset.isOneOf, List.any_eq_false, beq_iff_eq]
  intro c hc hcode
  have hnot := List.all_eq_true.mp h c hc
  rw [hcode, ← isDigitElement, he] at hnot
  cases hnot

/-- Spelled digits begin with a digit. -/
theorem spell_digits_head {ds : List Nat} (h : AreDigits ds) (rest : List ε) :
    ∃ e tail, spell (digitsText ds) ++ rest = e :: tail ∧ isDigitElement e = true := by
  have hlen := length_spell_digits (ε := ε) h.2
  have hdigit := isDigitElement_spell (ε := ε) h.2
  cases hs : (spell (digitsText ds) : List ε) with
  | nil =>
    rw [hs] at hlen
    exact absurd (List.length_eq_zero_iff.mp hlen.symm) h.1
  | cons e tail =>
    rw [hs] at hdigit
    exact ⟨e, tail ++ rest, rfl, hdigit e List.mem_cons_self⟩

/-! ## Reading the parts -/

/-- Whether an element can continue a number. -/
def continuesNumber (e : ε) : Bool :=
  isDigitElement e || Charset.isOneOf ['.', 'e', 'E'] (Element.code e)

/-- The first digit of a spelled run, and the others. -/
theorem spell_digits_cons {d : Nat} (h : d < 10) :
    ∃ e : ε, Element.code e = 48 + d ∧
      ∀ ds, spell (digitsText (d :: ds)) = e :: spell (digitsText ds) := by
  obtain ⟨e, he, hcode⟩ := Spelling.spellOne_of_lt (ε := ε) (Numeral.digit d)
    (by rw [Numeral.val_digit h]; omega)
  refine ⟨e, hcode.trans (Numeral.val_digit h), fun ds => ?_⟩
  rw [digitsText, List.map_cons, spell_cons, he]
  rfl

/-- The digits that an integer part of more than one digit can begin with. -/
theorem mem_piece_nonzero {e : ε} :
    e ∈ (Element.piece ['1', '2', '3', '4', '5', '6', '7', '8', '9'] : List ε) ↔
      49 ≤ Element.code e ∧ Element.code e ≤ 57 := by
  rw [Element.mem_piece_iff (by decide)]
  simp only [Charset.isOneOf, List.any_cons, List.any_nil, Bool.or_eq_true, beq_iff_eq,
    Char.reduceToNat, Bool.false_eq_true, or_false]
  omega

/-- The integer part is read as it is written. -/
theorem integer_of_digits {ds : List Nat} (h : AreDigits ds)
    (hlead : ds.head? = some 0 → ds = [0]) {final : Bool} {rest : List ε}
    (hrest : Halts isDigitElement final rest) :
    integer.verdict final (spell (digitsText ds) ++ rest) =
      .matched (spell (digitsText ds)) rest := by
  obtain ⟨hne, hlt⟩ := h
  cases ds with
  | nil => exact absurd rfl hne
  | cons d ds =>
    obtain ⟨e, hcode, hspell⟩ := spell_digits_cons (ε := ε) (hlt d List.mem_cons_self)
    rw [hspell, List.cons_append]
    by_cases hd : d = 0
    · subst hd
      cases hlead rfl
      have he : e = Element.ofAscii '0' := (Element.eq_ofAscii_iff (by decide)).mpr hcode
      refine either_of_matched _ (matched_map.mpr ⟨e, matched_ascii.mpr ⟨he, ?_⟩, rfl⟩)
      rw [he]
      rfl
    · have hmem : e ∈ (Element.piece ['1', '2', '3', '4', '5', '6', '7', '8', '9'] : List ε) := by
        have hlt := hlt d List.mem_cons_self
        exact mem_piece_nonzero.mpr (by omega)
      have hzero : (ascii '0').verdict final (e :: (spell (digitsText ds) ++ rest)) = .rejected :=
        rejected_ascii_cons (by decide) (by rw [hcode]; show 48 + d ≠ 48; omega)
      rw [integer, either_of_rejected _ (map_of_rejected _ hzero)]
      refine matched_map.mpr ⟨(e, spell (digitsText ds)), ?_, rfl⟩
      refine matched_bind.mpr ⟨e, _, matched_asciiOf.mpr ⟨hmem, rfl⟩, ?_⟩
      refine matched_map.mpr ⟨_, matched_takeWhile.mpr ⟨rfl, ?_, hrest⟩, rfl⟩
      exact isDigitElement_spell fun d hd => hlt d (List.mem_cons_of_mem _ hd)

theorem digits_of_integer {final : Bool} {s run rest : List ε}
    (h : integer.verdict final s = .matched run rest) :
    ∃ ds, AreDigits ds ∧ (ds.head? = some 0 → ds = [0]) ∧ run = spell (digitsText ds) ∧
      s = spell (digitsText ds) ++ rest := by
  rcases matched_of_either h with h | h
  · obtain ⟨e, hzero, rfl⟩ := matched_map.mp h
    obtain ⟨rfl, rfl⟩ := matched_ascii.mp hzero
    have hspell : (spell (digitsText [0]) : List ε) = [Element.ofAscii '0'] :=
      spell_ofChar (c := '0') (by decide) []
    exact ⟨[0], ⟨by simp, by simp⟩, fun _ => rfl, hspell.symm, by rw [hspell]; rfl⟩
  · obtain ⟨⟨first, others⟩, hserial, rfl⟩ := matched_map.mp h
    obtain ⟨e, middle, hfirst, hmore⟩ := matched_bind.mp hserial
    obtain ⟨ds, htail, hpair⟩ := matched_map.mp hmore
    cases hpair
    obtain ⟨hmem, rfl⟩ := matched_asciiOf.mp hfirst
    obtain ⟨rfl, hrun, _⟩ := matched_takeWhile.mp htail
    have hcode := mem_piece_nonzero.mp hmem
    have hall : ∀ e ∈ first :: others, isDigitElement e = true := fun e he => by
      rcases List.mem_cons.mp he with rfl | he
      · simp only [isDigitElement, Charset.isDigit, Bool.and_eq_true, decide_eq_true_eq]
        omega
      · exact hrun e he
    obtain ⟨hspell, hlt⟩ := spell_digitsOf hall
    refine ⟨digitsOf (first :: others), ⟨by simp [digitsOf], hlt⟩, fun hzero => ?_, hspell.symm,
      by rw [hspell]; rfl⟩
    simp only [digitsOf, List.map_cons, List.head?_cons, Option.some.injEq] at hzero
    omega

/-- The sign of a number is read as it is written. -/
theorem matched_sign {final : Bool} {s rest : List ε} {sign : Option ε} :
    (optional (ascii '-')).verdict final s = .matched sign rest ↔
      ∃ minus : Bool, sign = (if minus then some (Element.ofAscii '-') else none) ∧
        s = spell (if minus then [CodePoint.ofChar '-'] else []) ++ rest ∧
        (minus = false → (ascii '-' : Grammar ε ε).verdict final rest = .rejected) := by
  rw [matched_optional]
  constructor
  · rintro (⟨hreject, rfl, rfl⟩ | ⟨mark, hmark, rfl⟩)
    · exact ⟨false, rfl, rfl, fun _ => hreject⟩
    · obtain ⟨rfl, rfl⟩ := matched_ascii.mp hmark
      exact ⟨true, rfl, (spell_ofChar_append (by decide) [] _).symm, fun h => by cases h⟩
  · rintro ⟨minus, rfl, rfl, hnone⟩
    cases minus with
    | false => exact .inl ⟨hnone rfl, rfl, rfl⟩
    | true =>
      refine .inr ⟨Element.ofAscii '-', matched_ascii.mpr ⟨rfl, ?_⟩, rfl⟩
      rw [if_pos rfl, spell_ofChar_append (by decide)]
      rfl

/-- What does not go on with an exponent, nor with what comes after it, ends
before it. -/
theorem halts_exponent {test : ε → Bool} {final : Bool} {rest : List ε}
    (exponent : Option ExponentForm) (hrest : Halts test final rest)
    (hsmall : test (Element.ofAscii 'e') = false) (hcapital : test (Element.ofAscii 'E') = false) :
    Halts test final (spell (NumberForm.exponentText exponent) ++ rest) := by
  cases exponent with
  | none => exact hrest
  | some e =>
    rw [NumberForm.exponentText, ExponentForm.text,
      spell_ofChar_append (by cases e.capital <;> decide)]
    refine halts_cons ?_
    cases e.capital
    · exact hsmall
    · exact hcapital

theorem halts_fraction {test : ε → Bool} {final : Bool} {rest : List ε}
    (fraction : Option (List Nat)) (hrest : Halts test final rest)
    (hpoint : test (Element.ofAscii '.') = false) :
    Halts test final (spell (NumberForm.fractionText fraction) ++ rest) := by
  cases fraction with
  | none => exact hrest
  | some ds =>
    rw [NumberForm.fractionText, spell_ofChar_append (by decide)]
    exact halts_cons hpoint

/-- The fraction is read as it is written. -/
theorem matched_fraction {final : Bool} {s rest : List ε} {places : Option (List ε)} :
    (optional (preceded (ascii '.') digits)).verdict final s = .matched places rest ↔
      ∃ fraction, (∀ ds ∈ fraction, AreDigits ds) ∧
        places = fraction.map (fun ds => spell (digitsText ds)) ∧
        s = spell (NumberForm.fractionText fraction) ++ rest ∧
        (fraction = none →
          (preceded (ascii '.') digits : Grammar ε _).verdict final rest = .rejected) ∧
        (fraction ≠ none → Halts isDigitElement final rest) := by
  rw [matched_optional]
  constructor
  · rintro (⟨hreject, rfl, rfl⟩ | ⟨run, hmatch, rfl⟩)
    · exact ⟨none, by simp, rfl, rfl, fun _ => hreject, fun h => absurd rfl h⟩
    · obtain ⟨point, middle, hpoint, hdigits⟩ := matched_bind.mp hmatch
      obtain ⟨rfl, rfl⟩ := matched_ascii.mp hpoint
      obtain ⟨ds, hds, rfl, rfl, hrest⟩ := matched_digits.mp hdigits
      refine ⟨some ds, by simpa using hds, rfl, ?_, by simp, fun _ => hrest⟩
      rw [NumberForm.fractionText, spell_ofChar_append (by decide)]
  · rintro ⟨fraction, hvalid, rfl, rfl, hnone, hsome⟩
    cases fraction with
    | none => exact .inl ⟨hnone rfl, rfl, rfl⟩
    | some ds =>
      refine .inr ⟨_, matched_bind.mpr
        ⟨Element.ofAscii '.', spell (digitsText ds) ++ rest, ?_, ?_⟩, rfl⟩
      · rw [NumberForm.fractionText, spell_ofChar_append (by decide)]
        exact matched_ascii.mpr ⟨rfl, rfl⟩
      · exact matched_digits.mpr ⟨ds, hvalid ds rfl, rfl, rfl, hsome (by simp)⟩

/-- The grammar of an exponent. -/
def exponent : Grammar ε (Exponent ε) :=
  (serial3 (asciiOf ['e', 'E']) (optional (asciiOf ['+', '-'])) digits).map fun v => v.2

/-- An exponent by its letter, its sign and its digits. -/
theorem spell_exponent (e : ExponentForm) (rest : List ε) :
    spell e.text ++ rest =
      Element.ofAscii (if e.capital then 'E' else 'e') ::
        (spell (ExponentForm.signText e.minus) ++ (spell (digitsText e.digits) ++ rest)) := by
  rw [ExponentForm.text, spell_ofChar_append (by cases e.capital <;> decide), spell_append,
    List.append_assoc]

theorem exponent_of_text {e : ExponentForm} (h : AreDigits e.digits) {final : Bool}
    {rest : List ε} (hrest : Halts isDigitElement final rest) :
    exponent.verdict final (spell e.text ++ rest) = .matched e.parts rest := by
  rw [spell_exponent]
  refine matched_map.mpr ⟨(_, e.parts), matched_bind.mpr ⟨_, _, matched_asciiOf.mpr ⟨?_, rfl⟩,
    matched_bind.mpr ⟨_, spell (digitsText e.digits) ++ rest, ?_, matched_map.mpr
      ⟨_, matched_digits.mpr ⟨e.digits, h, rfl, rfl, hrest⟩, rfl⟩⟩⟩, rfl⟩
  · cases e.capital <;> simp [Element.piece]
  · rw [matched_optional]
    rcases e.minus with _ | minus
    · -- without a sign the digits come next, and no digit is a sign
      obtain ⟨first, tail, hhead, hdigit⟩ := spell_digits_head h rest
      rw [ExponentForm.signText, spell_nil, List.nil_append, hhead]
      refine .inl ⟨rejected_asciiOf (by decide) (fun hnil => absurd hnil (List.cons_ne_nil _ _))
        fun e he => ?_, rfl, rfl⟩
      cases he
      exact isOneOf_of_isDigit (by decide) hdigit
    · refine .inr ⟨Element.ofAscii (if minus then '-' else '+'), matched_asciiOf.mpr ⟨?_, ?_⟩, rfl⟩
      · cases minus <;> simp [Element.piece]
      · rw [ExponentForm.signText, spell_ofChar_append (by cases minus <;> decide)]
        rfl

theorem text_of_exponent {final : Bool} {s rest : List ε} {parts : Exponent ε}
    (h : exponent.verdict final s = .matched parts rest) :
    ∃ e : ExponentForm, AreDigits e.digits ∧ parts = e.parts ∧ s = spell e.text ++ rest := by
  obtain ⟨⟨letter, sign, run⟩, hserial, rfl⟩ := matched_map.mp h
  obtain ⟨_, signed, hletter, hmore⟩ := matched_bind.mp hserial
  obtain ⟨hmem, rfl⟩ := matched_asciiOf.mp hletter
  obtain ⟨_, unsigned, hsign, hmore⟩ := matched_bind.mp hmore
  obtain ⟨_, hdigits, htriple⟩ := matched_map.mp hmore
  obtain ⟨ds, hds, rfl, rfl, _⟩ := matched_digits.mp hdigits
  cases htriple
  -- the letter is a capital or not, and the sign one of three
  obtain ⟨capital, rfl⟩ : ∃ capital : Bool,
      letter = Element.ofAscii (if capital then 'E' else 'e') := by
    have hmem : letter = Element.ofAscii 'e' ∨ letter = Element.ofAscii 'E' := by
      simpa [Element.piece] using hmem
    exact hmem.elim (fun h => ⟨false, h⟩) (fun h => ⟨true, h⟩)
  obtain ⟨minus, rfl, rfl⟩ : ∃ minus : Option Bool,
      sign = minus.map (fun minus => Element.ofAscii (if minus then '-' else '+')) ∧
      signed = spell (ExponentForm.signText minus) ++ (spell (digitsText ds) ++ rest) := by
    rcases matched_optional.mp hsign with ⟨_, rfl, rfl⟩ | ⟨mark, hmark, rfl⟩
    · exact ⟨none, rfl, rfl⟩
    · obtain ⟨hmem, rfl⟩ := matched_asciiOf.mp hmark
      have hmem : mark = Element.ofAscii '+' ∨ mark = Element.ofAscii '-' := by
        simpa [Element.piece] using hmem
      rcases hmem with rfl | rfl
      · exact ⟨some false, rfl, (spell_ofChar_append (by decide) [] _).symm⟩
      · exact ⟨some true, rfl, (spell_ofChar_append (by decide) [] _).symm⟩
  refine ⟨{ capital, minus, digits := ds }, hds, rfl, ?_⟩
  rw [spell_exponent]

/-! ## Numbers -/

theorem not_digit {c : Char} (hc : c.toNat < 0x80) (h : Charset.isDigit c.toNat = false) :
    isDigitElement (Element.ofAscii c : ε) = false := by
  rw [isDigitElement, LawfulElement.code_ofAscii c hc, h]

/-- A number goes on with nothing that continues one. -/
theorem numberParts_of_text {n : NumberForm} (h : n.WellFormed) {final : Bool} {rest : List ε}
    (hrest : Halts continuesNumber final rest) :
    numberParts.verdict final (spell n.text ++ rest) = .matched n.parts rest := by
  have hdigit : Halts isDigitElement final rest :=
    hrest.mono fun e he => by simp [continuesNumber, he]
  have hafterFraction : Halts isDigitElement final
      (spell (NumberForm.exponentText n.exponent) ++ rest) :=
    halts_exponent _ hdigit (not_digit (by decide) (by decide)) (not_digit (by decide) (by decide))
  have hafterWhole : Halts isDigitElement final (spell (NumberForm.fractionText n.fraction) ++
      (spell (NumberForm.exponentText n.exponent) ++ rest)) :=
    halts_fraction _ hafterFraction (not_digit (by decide) (by decide))
  rw [NumberForm.text, spell_append, spell_append, spell_append, List.append_assoc,
    List.append_assoc, List.append_assoc]
  refine matched_bind.mpr ⟨_, _, ?_, matched_bind.mpr ⟨_, _,
    integer_of_digits h.whole h.leading hafterWhole, matched_bind.mpr ⟨_, _,
      matched_fraction.mpr ⟨n.fraction, h.fraction, rfl, rfl, fun _ => ?_, fun _ => hafterFraction⟩,
      matched_map.mpr ⟨n.exponent.map ExponentForm.parts, ?_, rfl⟩⟩⟩⟩
  · -- the sign: without one a digit comes next
    refine matched_sign.mpr ⟨n.minus, rfl, rfl, fun _ => ?_⟩
    obtain ⟨first, tail, hhead, hfirst⟩ := spell_digits_head h.whole
      (spell (NumberForm.fractionText n.fraction) ++
        (spell (NumberForm.exponentText n.exponent) ++ rest) : List ε)
    rw [hhead]
    refine rejected_ascii_cons (by decide) fun hcode => ?_
    rw [isDigitElement, hcode] at hfirst
    cases hfirst
  · -- the fraction: without one neither an exponent nor what follows begins with a point
    have hpoint : Halts (fun e => Charset.isOneOf ['.'] (Element.code e)) final
        (spell (NumberForm.exponentText n.exponent) ++ rest : List ε) := by
      refine halts_exponent _ (hrest.mono fun e he => ?_) ?_ ?_
      · simp only [Charset.isOneOf, List.any_cons, List.any_nil, Bool.or_false] at he
        simp only [continuesNumber, Charset.isOneOf, List.any_cons, he, Bool.true_or, Bool.or_true]
      · rw [LawfulElement.code_ofAscii _ (by decide)]
        decide
      · rw [LawfulElement.code_ofAscii _ (by decide)]
        decide
    refine bind_of_rejected _ (rejected_ascii (by decide) hpoint.1 fun e he hcode => ?_)
    have hnot := hpoint.2 e he
    simp [Charset.isOneOf, hcode] at hnot
  · -- the exponent: without one what follows does not begin with its letter
    rw [matched_optional]
    cases he : n.exponent with
    | none =>
      refine .inl ⟨map_of_rejected _ (bind_of_rejected _ (rejected_asciiOf (by decide) hrest.1
        fun e he => ?_)), rfl, rfl⟩
      have hnot := hrest.2 e he
      simp only [continuesNumber, Charset.isOneOf, List.any_cons, Bool.or_eq_false_iff] at hnot ⊢
      exact hnot.2.2
    | some e => exact .inr ⟨_, exponent_of_text (h.exponent e he) hdigit, rfl⟩

theorem text_of_numberParts {final : Bool} {s rest : List ε} {parts : NumberParts ε}
    (h : numberParts.verdict final s = .matched parts rest) :
    ∃ n : NumberForm, n.WellFormed ∧ parts = n.parts ∧ s = spell n.text ++ rest := by
  obtain ⟨sign, unsigned, hsign, hmore⟩ := matched_bind.mp h
  obtain ⟨run, afterWhole, hwhole, hmore⟩ := matched_bind.mp hmore
  obtain ⟨places, afterFraction, hfraction, hmore⟩ := matched_bind.mp hmore
  obtain ⟨exponentParts, hexponent, hparts⟩ := matched_map.mp hmore
  cases hparts
  obtain ⟨minus, rfl, rfl, _⟩ := matched_sign.mp hsign
  obtain ⟨whole, hwholeDigits, hlead, rfl, rfl⟩ := digits_of_integer hwhole
  obtain ⟨fraction, hfractionDigits, rfl, rfl, _⟩ := matched_fraction.mp hfraction
  obtain ⟨exponent, hexponentDigits, rfl, rfl⟩ : ∃ exponent : Option ExponentForm,
      (∀ e ∈ exponent, AreDigits e.digits) ∧ exponentParts = exponent.map ExponentForm.parts ∧
        afterFraction = spell (NumberForm.exponentText exponent) ++ rest := by
    rcases matched_optional.mp hexponent with ⟨_, rfl, rfl⟩ | ⟨parts, hmatch, rfl⟩
    · exact ⟨none, by simp, rfl, rfl⟩
    · obtain ⟨e, hdigits, rfl, rfl⟩ := text_of_exponent hmatch
      exact ⟨some e, by simpa using hdigits, rfl, rfl⟩
  refine ⟨{ minus, whole, fraction, exponent }, ?_, rfl, ?_⟩
  · exact ⟨hwholeDigits, hlead, hfractionDigits, hexponentDigits⟩
  · simp only [NumberForm.text, spell_append, List.append_assoc]

/-- **A number is read as the value that it denotes**, if what comes next does not
continue it. -/
theorem number_of_text {n : NumberForm} (h : n.WellFormed) {v : Json} (hv : n.value? = some v)
    {final : Bool} {rest : List ε} (hrest : Halts continuesNumber final rest) :
    number.verdict final (spell n.text ++ rest) = .matched v rest :=
  matched_convertOrHalt.mpr ⟨n.parts, numberParts_of_text h hrest, (numberValue_parts h v).mpr hv⟩

/-- **What is read as a number is one**, and denotes the value that it is read
as. -/
theorem text_of_number {final : Bool} {s rest : List ε} {v : Json}
    (h : number.verdict final s = .matched v rest) :
    ∃ n : NumberForm, n.WellFormed ∧ n.value? = some v ∧ s = spell n.text ++ rest := by
  obtain ⟨parts, hparts, hvalue⟩ := matched_convertOrHalt.mp h
  obtain ⟨n, hn, rfl, rfl⟩ := text_of_numberParts hparts
  exact ⟨n, hn, (numberValue_parts hn v).mp hvalue, rfl⟩

end StreamGrammar.Json
