import StreamGrammar.Json.Grammar
import StreamGrammar.Proofs.Grammar.Guarded
import StreamGrammar.Proofs.Text.Spelling
import StreamGrammar.Proofs.Uri.Final

/-!
# Conversions without a guard

Most conversions that can fail are judged: their failures are refusals, and the
grammar says what becomes of those. Some are not. The digits of an octet are read as
a number, the letter of an escape is looked up, digits become a code point, and a
place in the source becomes a span, each by a function that is undefined at most of
what its type admits, and with nobody to catch it.

The grammars have total functions in these places, which say nothing of the matter.
So here the grammars are written a second time with the partial ones, and their runs
are shown to be the same at every cursor. What makes them so is what the part before
the conversion can yield (`Grammar.Yields`): digits, a letter out of eight, a number
of four hexadecimal digits. Partial results are included, as they are converted too.
-/

namespace StreamGrammar

variable {ε α β γ : Type} [Element ε]

namespace Grammar

theorem Yields.serial {p : Grammar ε α} {q : Grammar ε β} {P : α → Prop} {Q : β → Prop}
    (hp : p.Yields P) (hq : q.Yields Q) : (serial p q).Yields fun v => P v.1 ∧ Q v.2 :=
  hp.bind fun _ ha => hq.map fun _ hb => ⟨ha, hb⟩

theorem Yields.serial3 {p : Grammar ε α} {q : Grammar ε β} {r : Grammar ε γ} {P : α → Prop}
    {Q : β → Prop} {R : γ → Prop} (hp : p.Yields P) (hq : q.Yields Q) (hr : r.Yields R) :
    (serial3 p q r).Yields fun v => P v.1 ∧ Q v.2.1 ∧ R v.2.2 :=
  hp.bind fun _ ha => hq.bind fun _ hb => hr.map fun _ hc => ⟨ha, hb, hc⟩

/-! ### Grammars whose parts run alike -/

theorem run_map_congr [Vacancy β] {p q : Grammar ε α} (h : p.run = q.run) (f : α → β) :
    (Grammar.map f p).run = (Grammar.map f q).run := by
  funext c
  simp only [run, h]

theorem run_judge_congr {p q : Grammar ε α} (h : p.run = q.run) (refusal : Refusal)
    (accept : α → Except (Nat → Reason) β) :
    (Grammar.judge refusal accept p).run = (Grammar.judge refusal accept q).run := by
  funext c
  simp only [run, h]

theorem run_optional_congr {p q : Grammar ε α} (h : p.run = q.run) :
    (Grammar.optional p).run = (Grammar.optional q).run := by
  funext c
  simp only [run, h]

theorem run_bind_congr (p : Grammar ε α) {next next' : α → Grammar ε β}
    (h : ∀ a, (next a).run = (next' a).run) :
    (Grammar.bind p next).run = (Grammar.bind p next').run := by
  funext c
  simp only [run, h]

/-- What follows a grammar matters only at values that it yields. -/
theorem Yields.run_bind {p : Grammar ε α} {P : α → Prop} (hp : p.Yields P)
    {next next' : α → Grammar ε β} (h : ∀ a, P a → (next a).run = (next' a).run) :
    (Grammar.bind p next).run = (Grammar.bind p next').run := by
  funext c
  have hc := hp c
  simp only [run]
  cases hrun : p.run c with
  | matched value middle =>
    rw [hrun] at hc
    simp only [h value hc]
  | _ => rfl

/-- A choice of two grammars is the choice of their parsers. -/
theorem run_either [Vacancy α] (p q : Grammar ε α) :
    (either p q).run = Choice.either p.run q.run := rfl

end Grammar

open Grammar

/-! ## The octets of an address -/

namespace Uri

/-- **The number that decimal digits denote.** No other text denotes one, and a numeral
can be too long. -/
def readDecimal (digits : Text) : Except Fault Nat :=
  if digits.isEmpty || !(digits.all fun c => Charset.isDigit c.val) then
    .error (.stated "invalid literal for int()")
  else if Numeral.maxDigits < digits.length then .error (.tooManyDigits digits.length)
  else .ok (digitsValue digits)

theorem readDecimal_eq {digits : Text} (hne : digits ≠ [])
    (hlen : digits.length ≤ Numeral.maxDigits)
    (h : ∀ c ∈ digits, Charset.isDigit c.val = true) :
    readDecimal digits = .ok (digitsValue digits) := by
  have hempty : digits.isEmpty = false := by simpa using hne
  have hall : (digits.all fun c => Charset.isDigit c.val) = true := List.all_eq_true.mpr h
  rw [readDecimal, hempty, hall, if_neg (by simp), if_neg (by omega)]

/-- An octet whose digits are read with `readDecimal`. -/
def decOctetRead : TextGrammar Nat :=
  either
    ((serial3 (ascii '2') (ascii '5') (asciiOf ['0', '1', '2', '3', '4', '5'])).mapRaising
      fun v => readDecimal [v.1, v.2.1, v.2.2])
    (either
      ((serial3 (ascii '2') (asciiOf ['0', '1', '2', '3', '4']) digit).mapRaising
        fun v => readDecimal [v.1, v.2.1, v.2.2])
      (either
        ((serial3 (ascii '1') digit digit).mapRaising fun v => readDecimal [v.1, v.2.1, v.2.2])
        (either
          ((serial (asciiOf ['1', '2', '3', '4', '5', '6', '7', '8', '9']) digit).mapRaising
            fun v => readDecimal [v.1, v.2])
          (digit.mapRaising fun c => readDecimal [c]))))

/-- A digit. -/
abbrev IsDigit (c : CodePoint) : Prop := Charset.isDigit c.val = true

theorem yields_digit : digit.Yields IsDigit := yields_satisfy _ _

theorem yields_ascii_digit {a : Char} (h : Charset.isDigit a.toNat = true) :
    (ascii a : TextGrammar CodePoint).Yields IsDigit :=
  (yields_ascii a).mono fun c hc => by rwa [hc]

theorem yields_asciiOf_digits {chars : List Char} (hascii : Element.areAscii chars = true)
    (hdigits : chars.all (fun c => Charset.isDigit c.toNat) = true) :
    (asciiOf chars : TextGrammar CodePoint).Yields IsDigit :=
  (yields_asciiOf chars).mono fun _ hc =>
    isDigit_of_contains hascii hdigits (List.contains_iff_mem.mpr hc)

/-- Three digits denote a number. -/
theorem run_threeDigits {p q r : TextGrammar CodePoint} (hp : p.Yields IsDigit)
    (hq : q.Yields IsDigit) (hr : r.Yields IsDigit) :
    ((serial3 p q r).mapRaising fun v => readDecimal [v.1, v.2.1, v.2.2]).run =
      ((serial3 p q r).map fun v => digitsValue [v.1, v.2.1, v.2.2]).run :=
  (hp.serial3 hq hr).run_mapRaising fun v hv =>
    readDecimal_eq (List.cons_ne_nil _ _) (show 3 ≤ 4300 by decide) (by simpa using hv)

/-- **The digits of an octet denote a number.** -/
theorem run_decOctetRead : decOctetRead.run = decOctet.run := by
  have hascii {a : Char} (h : Charset.isDigit a.toNat = true) := yields_ascii_digit h
  have hupToFive :
      (asciiOf ['0', '1', '2', '3', '4', '5'] : TextGrammar CodePoint).Yields IsDigit :=
    yields_asciiOf_digits (by decide) (by decide)
  have hupToFour : (asciiOf ['0', '1', '2', '3', '4'] : TextGrammar CodePoint).Yields IsDigit :=
    yields_asciiOf_digits (by decide) (by decide)
  have hnotZero : (asciiOf ['1', '2', '3', '4', '5', '6', '7', '8', '9'] :
      TextGrammar CodePoint).Yields IsDigit := yields_asciiOf_digits (by decide) (by decide)
  have h25 := run_threeDigits (hascii (a := '2') (by decide)) (hascii (a := '5') (by decide))
    hupToFive
  have h2 := run_threeDigits (hascii (a := '2') (by decide)) hupToFour yields_digit
  have h1 := run_threeDigits (hascii (a := '1') (by decide)) yields_digit yields_digit
  have htwo := (hnotZero.serial yields_digit).run_mapRaising
    (f := fun v => readDecimal [v.1, v.2]) (g := fun v => digitsValue [v.1, v.2])
    fun v hv => readDecimal_eq (List.cons_ne_nil _ _) (show 2 ≤ 4300 by decide)
      (by simpa using hv)
  have hone := yields_digit.run_mapRaising (f := fun c => readDecimal [c])
    (g := fun c => digitsValue [c]) fun c hc =>
      readDecimal_eq (List.cons_ne_nil _ _) (show 1 ≤ 4300 by decide) (by simpa using hc)
  unfold decOctetRead decOctet
  simp only [run_either, h25, h2, h1, htwo, hone]

end Uri

/-! ## Escapes and exponents -/

namespace Json

/-- The letters of simple escapes and what they stand for. -/
def simpleEscapes : List (Text × Text) :=
  [("\"", "\""), ("\\", "\\"), ("/", "/"), ("b", [CodePoint.ofNat 8]), ("f", [CodePoint.ofNat 12]),
    ("n", "\n"), ("r", "\r"), ("t", "\t")]

/-- **What a letter stands for**, looked up as text. -/
def readSimpleEscape (e : ε) : Except Fault Text :=
  match Element.decode [e] with
  | .error fault => .error fault
  | .ok letter =>
    match simpleEscapes.lookup letter with
    | some meant => .ok meant
    | none => .error (.stated "no such escape")

/-- A simple escape whose letter is looked up. -/
def simpleEscapeRead : Grammar ε Text :=
  (asciiOf ['"', '\\', '/', 'b', 'f', 'n', 'r', 't']).mapRaising readSimpleEscape

/-- **The exponent in text**, which the grammar keeps in its parts. -/
def readExponent (v : ε × Option ε × List ε) : Except Fault (Exponent ε) :=
  match Element.decode v.2.1.toList with
  | .error fault => .error fault
  | .ok _ =>
    match Element.decode v.2.2 with
    | .error fault => .error fault
    | .ok _ => .ok v.2

/-- The parts of a number, the exponent read as text. -/
def numberPartsRead : Grammar ε (NumberParts ε) :=
  serial4 (optional (ascii '-')) integer (optional (preceded (ascii '.') digits))
    (optional
      ((serial3 (asciiOf ['e', 'E']) (optional (asciiOf ['+', '-'])) digits).mapRaising
        readExponent))

/-- **The code point of a number** of the code space. -/
def chr (n : Nat) : Except Fault CodePoint :=
  if h : n < 0x110000 then .ok ⟨n, h⟩ else .error (.stated "chr() arg not in range(0x110000)")

theorem chr_eq {n : Nat} (h : n < 0x110000) : chr n = .ok (CodePoint.ofNat n) := by
  rw [chr, CodePoint.ofNat, dif_pos h, dif_pos h]

/-- What two halves of a pair stand for, with the code point from `chr`. -/
def readPair (high : Nat) (low : Option Nat) : Except Fault (Except Text Text) :=
  match low with
  | some low =>
    if isLowSurrogate low then (chr (pairValue high low)).map fun c => .ok [c]
    else .ok (joinSurrogates high low)
  | none => .ok (joinSurrogates high none)

/-- What an escape on its own stands for, with the code point from `chr`. -/
def readLone (code : Nat) : Except Fault (Except Text Text) :=
  if isLowSurrogate code then .ok (loneEscape code) else (chr code).map fun c => .ok [c]

/-- An escape by number, with the code point from `chr`. -/
def unicodeEscapeRead : Grammar ε Text :=
  demand <| hex4.bind fun code =>
    if isHighSurrogate code then
      (optional (preceded (token ['\\', 'u']) hex4)).mapRaising (readPair code)
    else (succeed code).mapRaising readLone

section Defined

variable [Spelling ε]

/-- Elements that are ASCII are text. -/
theorem decode_of_ascii {s : List ε} (h : ∀ e ∈ s, Element.code e < 0x80) :
    Element.decode s = .ok (s.map fun e => CodePoint.ofNat (Element.code e)) := by
  have hspell := spell_map_code h
  have hdecode := Spelling.decode_flatMap (ε := ε)
    (s.map fun e => CodePoint.ofNat (Element.code e)) fun c hc => by
      obtain ⟨e, he, rfl⟩ := List.mem_map.mp hc
      have hlt := h e he
      exact Spelling.readable_of_lt _ (by rw [CodePoint.val_ofNat (by omega)]; exact hlt)
  rwa [show (s.map fun e => CodePoint.ofNat (Element.code e)).flatMap Spelling.spellOne = s from
    hspell] at hdecode

/-- **The letter of a simple escape is in the table.** -/
theorem run_simpleEscapeRead : (simpleEscapeRead : Grammar ε Text).run = simpleEscape.run := by
  refine (yields_asciiOf _).run_mapRaising fun e he => ?_
  obtain ⟨a, ha, rfl⟩ := List.mem_map.mp he
  have hlt : a.toNat < 0x80 := Element.lt_of_areAscii (by decide) a ha
  have hcode : Element.code (Element.ofAscii a : ε) = a.toNat :=
    LawfulElement.code_ofAscii a hlt
  have hdecode : Element.decode [(Element.ofAscii a : ε)] = .ok [CodePoint.ofNat a.toNat] := by
    rw [decode_of_ascii (by simpa [hcode] using hlt), List.map_singleton, hcode]
  have htable : ∀ a ∈ ['"', '\\', '/', 'b', 'f', 'n', 'r', 't'],
      simpleEscapes.lookup [CodePoint.ofNat a.toNat] = some [simpleEscapeValue a.toNat] :=
    forall_mem_of_all (by decide)
  rw [readSimpleEscape, hdecode, hcode]
  dsimp only
  rw [htable a ha]

omit [Spelling ε] in
theorem lt_of_digit {n : Nat} (h : Charset.isDigit n = true) : n < 0x80 := by
  simp only [Charset.isDigit, Bool.and_eq_true, decide_eq_true_eq] at h
  omega

/-- **The exponent of a number is text.** -/
theorem run_numberPartsRead :
    (numberPartsRead : Grammar ε (NumberParts ε)).run = numberParts.run := by
  have hsign : (optional (asciiOf ['+', '-']) : Grammar ε (Option ε)).Yields
      fun v => ∀ e ∈ v, Element.code e < 0x80 := by
    refine Yields.optional ((yields_asciiOf _).mono fun e he => ?_)
    obtain ⟨a, ha, rfl⟩ := List.mem_map.mp he
    have hlt : a.toNat < 0x80 := Element.lt_of_areAscii (by decide) a ha
    rwa [LawfulElement.code_ofAscii a hlt]
  have hdigits : (digits : Grammar ε (List ε)).Yields fun s => ∀ e ∈ s, Element.code e < 0x80 :=
    (yields_takeSomeWhile _).mono fun s hs e he => lt_of_digit (hs e he)
  have hexponent := ((yields_asciiOf (ε := ε) ['e', 'E']).serial3 hsign hdigits).run_mapRaising
    (f := readExponent) (g := fun v => v.2) fun v hv => by
      rw [readExponent, decode_of_ascii fun e he => hv.2.1 e (Option.mem_toList.mp he)]
      dsimp only
      rw [decode_of_ascii hv.2.2]
  unfold numberPartsRead numberParts serial4
  refine run_bind_congr _ fun sign => run_bind_congr _ fun whole => run_bind_congr _ fun part => ?_
  exact run_map_congr (run_optional_congr hexponent) _

end Defined

/-- Hexadecimal digits denote a number below a power of sixteen. -/
theorem hexNumber_lt {s : List ε} (h : ∀ e ∈ s, Charset.isHexDigit (Element.code e) = true) :
    hexNumber s < Nat.pow 16 s.length := by
  -- the digits read so far are the leading ones, so they are generalised over
  have hfrom (n : Nat) : s.foldl (fun n e => 16 * n + Charset.hexValue (Element.code e)) n <
      (n + 1) * Nat.pow 16 s.length := by
    induction s generalizing n with
    | nil => simp
    | cons e s ih =>
      obtain ⟨he, hs⟩ := List.forall_mem_cons.mp h
      have hdigit : Charset.hexValue (Element.code e) < 16 := by
        simp only [Charset.isHexDigit, Charset.isDigit, Bool.or_eq_true, Bool.and_eq_true,
          decide_eq_true_eq] at he
        unfold Charset.hexValue
        split
        · omega
        · split <;> omega
      calc _ < (16 * n + Charset.hexValue (Element.code e) + 1) * Nat.pow 16 s.length := ih hs _
        _ ≤ (16 * (n + 1)) * Nat.pow 16 s.length := Nat.mul_le_mul_right _ (by omega)
        _ = (n + 1) * (Nat.pow 16 s.length * 16) := by
          rw [Nat.mul_comm 16, Nat.mul_assoc, Nat.mul_comm 16]
  simpa [hexNumber] using hfrom 0

theorem yields_hex4 : (hex4 : Grammar ε Nat).Yields (· < 0x10000) := by
  refine (yields_take 4).judge .fatal fun digits code hlen hcode => ?_
  have hconv := mapError_eq_ok.mp hcode
  simp only [hexConversion] at hconv
  split at hconv
  · cases hconv
  · split at hconv
    · rename_i hall
      cases hconv
      have hlt := hexNumber_lt (List.all_eq_true.mp hall)
      have hpow : Nat.pow 16 digits.length ≤ 0x10000 := Nat.pow_le_pow_right (by decide) hlen
      omega
    · cases hconv

/-- **An escape by number stands for a code point**, or for none because it is half a
pair. -/
theorem run_unicodeEscapeRead :
    (unicodeEscapeRead : Grammar ε Text).run = unicodeEscape.run := by
  have hpair (high : Nat) (hhigh : isHighSurrogate high = true) (low : Option Nat) :
      readPair high low = .ok (joinSurrogates high low) := by
    cases low with
    | none => rfl
    | some low =>
      rw [readPair, joinSurrogates]
      cases hlow : isLowSurrogate low with
      | false => rfl
      | true =>
        simp only [isHighSurrogate, isLowSurrogate, Bool.and_eq_true, decide_eq_true_eq] at *
        rw [chr_eq (by unfold pairValue; omega)]
        rfl
  have hlone (code : Nat) (hcode : code < 0x10000) : readLone code = .ok (loneEscape code) := by
    rw [readLone, chr_eq (by omega), loneEscape]
    split <;> rfl
  refine run_judge_congr (yields_hex4.run_bind fun code hcode => ?_) _ _
  cases hhigh : isHighSurrogate code with
  | true =>
    have hyields : (optional (preceded (token ['\\', 'u']) hex4) :
        Grammar ε (Option Nat)).Yields fun _ => True := fun c => by
      cases (optional (preceded (token ['\\', 'u']) hex4)).run c with
      | truncated best rest => cases best <;> trivial
      | _ => trivial
    exact hyields.run_mapRaising fun low _ => hpair code hhigh low
  | false =>
    funext c
    simp [run, hlone code hcode]

/-- **The conversions of JSON that nothing guards are defined** wherever they are run. -/
structure ConversionsDefined (ε : Type) [Element ε] : Prop where
  /-- The letter of a simple escape is in the table. -/
  simpleEscape : (simpleEscapeRead : Grammar ε Text).run = Json.simpleEscape.run
  /-- The exponent of a number is text. -/
  exponent : (numberPartsRead : Grammar ε (NumberParts ε)).run = numberParts.run
  /-- An escape by number is one of a code point. -/
  unicodeEscape : (unicodeEscapeRead : Grammar ε Text).run = Json.unicodeEscape.run

theorem conversionsDefined [Spelling ε] : ConversionsDefined ε :=
  ⟨run_simpleEscapeRead, run_numberPartsRead, run_unicodeEscapeRead⟩

end Json

/-! ## Places in the source -/

/-- The span of a place, made from its numbers as they are counted. -/
def Cursor.countSpan (c : Cursor ε) : Except InvalidArgument Span :=
  let place := { c with pos := min c.pos c.source.size }
  Span.check place.pos place.pos (place.newlinesBefore + 1)
    ((place.pos : Int) - place.lineStart + 1)

/-- **The numbers of a place make a span**: a line starts no later than a place in it, so
that columns count from one. -/
theorem Cursor.countSpan_eq (c : Cursor ε) : c.countSpan = .ok c.toSpan := by
  let place : Cursor ε := { c with pos := min c.pos c.source.size }
  have hstart : place.lineStart ≤ place.pos := by
    have hlen : place.before.length ≤ place.pos := by
      rw [before, Array.length_toList, Array.size_extract]
      omega
    exact Nat.le_trans (Nat.sub_le _ _) hlen
  have hvalid : c.toSpan.Valid := ⟨Nat.le_refl _, Nat.succ_pos _, Nat.succ_pos _⟩
  have hcolumn : ((place.pos : Int) - place.lineStart + 1) = (c.toSpan.column : Int) := by
    show _ = ((place.pos - place.lineStart + 1 : Nat) : Int)
    omega
  show Span.check place.pos place.pos (place.newlinesBefore + 1)
    ((place.pos : Int) - place.lineStart + 1) = _
  rw [hcolumn]
  exact Span.check_of_valid hvalid

end StreamGrammar
