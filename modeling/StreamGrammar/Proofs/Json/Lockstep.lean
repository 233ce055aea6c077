import StreamGrammar.Proofs.Grammar.Lockstep
import StreamGrammar.Proofs.Json.Phrase
import StreamGrammar.Proofs.Json.Reading
import StreamGrammar.Proofs.Stream.Phase

/-!
# The JSON grammar over two alphabets

The grammar is run over a text and over what spells it, and the runs keep step: leaf
by leaf here, and through the combinators by the lemmas on runs that are alike. The
reasons that the two give differ, and must, as they show input in the alphabet that
they read. What they have in common is whether they tell depth (`TellsDepth`), which
a reason does by its wording.

Of the leaves two are of interest. A `\u` takes the next four elements whatever
they are, so that over bytes it may stop within a character; but then there is no
escape, which is fatal in both alphabets. And the parts of a number are quoted at any
length, but none of their characters could occur in the phrase that tells depth.
-/

namespace StreamGrammar.Json

open Grammar

variable {ε : Type} [Element ε] [Spelling ε]

/-! ## Strings -/

/-- Whether a reason tells depth, by its wording. -/
def TellsDepth (reason : Reason) : Prop := depthPhrase <:+: reason.text

theorem agrees_blanks :
    Agrees TellsDepth (fun _ _ => True) (blanks : Grammar ε (List ε)) blanks := by
  have htest : ∀ {ι : Type} [Element ι] [LawfulElement ι],
      (fun e : ι => Element.isIn Charset.jsonWhitespace e) =
        fun e => Charset.isOneOf Charset.jsonWhitespace (Element.code e) := by
    intro ι _ _
    funext e
    rw [Bool.eq_iff_iff, ← Element.mem_piece_iff (by decide)]
    exact isBlankElement_iff
  show Agrees TellsDepth _ (takeWhile fun e : ε => Element.isIn Charset.jsonWhitespace e)
    (takeWhile fun e : CodePoint => Element.isIn Charset.jsonWhitespace e)
  rw [htest, htest]
  exact (Agrees.takeWhile fun n hn => Element.isOneOf_of_le (by decide) hn).mono
    fun _ _ _ => trivial

/-- A run of plain characters at the beginning, as long as it gets. -/
theorem exists_plain_run (t : Text) : ∃ run rest, t = run ++ rest ∧ (∀ c ∈ run, IsPlain c) ∧
    ∀ c ∈ rest.head?, ¬IsPlain c := by
  induction t with
  | nil => exact ⟨[], [], rfl, by simp, by simp⟩
  | cons c t ih =>
    by_cases hc : IsPlain c
    · obtain ⟨run, rest, rfl, hrun, hrest⟩ := ih
      exact ⟨c :: run, rest, rfl, List.forall_mem_cons.mpr ⟨hc, hrun⟩, hrest⟩
    · exact ⟨[], c :: t, rfl, by simp, by simpa using hc⟩

/-- What such a run is read as, in either alphabet. -/
theorem verdict_raw {run rest : Text}
    (hrun : ∀ c ∈ run, IsPlain c ∧ Spelling.Readable ε c) (hrest : ∀ c ∈ rest.head?, ¬IsPlain c) :
    raw.verdict true (spell (run ++ rest) : List ε) =
      if run = [] then .rejected else .matched run (spell rest) := by
  -- the run ends at a delimiter, if not at the end of the text
  have hmark : ∀ c ∈ rest.head?, ∃ e s, (spell rest : List ε) = e :: s ∧
      e ∈ (Element.piece delimiters : List ε) := by
    intro c hc
    obtain ⟨tail, rfl⟩ := List.head?_eq_some_iff.mp hc
    have hplain := mt (spellOne_delimiters (ε := ε) c).mp (hrest c hc)
    push Not at hplain
    obtain ⟨e, he, hmem⟩ := hplain
    obtain ⟨e', he', _⟩ := Spelling.spellOne_of_lt (ε := ε) c (by
      have := hrest c hc
      unfold IsPlain at this
      omega)
    obtain rfl := List.mem_singleton.mp (he' ▸ he)
    exact ⟨e, spell tail, by rw [spell_cons, he', List.singleton_append], hmem⟩
  split
  · rename_i hnil
    subst hnil
    rw [List.nil_append]
    cases rest with
    | nil =>
      rw [raw, convertOrHalt, verdict_judge, verdict_otherThan]
      rfl
    | cons c rest =>
      obtain ⟨e, s, hes, hmem⟩ := hmark c rfl
      rw [hes]
      exact raw_of_delimiter hmem true s
  · rename_i hne
    rw [spell_append]
    refine matched_raw.mpr ⟨hne, hrun, rfl, fun _ => rfl, fun e he => ?_⟩
    cases rest with
    | nil => cases he
    | cons c rest =>
      obtain ⟨e', s, hes, hmem⟩ := hmark c rfl
      rw [hes] at he
      cases he
      simpa using hmem

theorem agrees_raw : Agrees TellsDepth (fun _ _ => True) (raw : Grammar ε Text) raw := by
  refine agrees_of_verdicts fun t ht => ?_
  obtain ⟨run, rest, rfl, hrun, hrest⟩ := exists_plain_run t
  have hleft := verdict_raw (ε := ε)
    (fun c hc => ⟨hrun c hc, ht c (List.mem_append_left _ hc)⟩) hrest
  have hright := verdict_raw (ε := CodePoint) (fun c hc => ⟨hrun c hc, trivial⟩) hrest
  rw [spell_codePoint, spell_codePoint] at hright
  by_cases hnil : run = []
  · rw [if_pos hnil] at hleft hright
    exact .inl ⟨hleft, hright⟩
  · rw [if_neg hnil] at hleft hright
    exact .inr ⟨run, run, rest, hleft, hright, trivial⟩

/-! ### Escapes -/

/-- Where there is no backslash there is no escape. -/
theorem escape_of_not_backslash {s : List ε}
    (h : ∀ e ∈ s.head?, Element.code e ≠ '\\'.toNat) :
    (escape : Grammar ε Text).verdict true s = .rejected :=
  bind_of_rejected _ (rejected_ascii (by decide) (fun _ => rfl) h)

omit [Spelling ε] in
theorem guarded_unicodeEscape : (unicodeEscape : Grammar ε Text).Guarded False := by
  have hhex : (hex4 : Grammar ε Nat).Guarded False := trivial
  refine ⟨hhex, fun code => ?_⟩
  dsimp only
  split
  · exact ⟨trivial, fun _ => hhex⟩
  · trivial

omit [Spelling ε] in
/-- **After a backslash there is an escape, or the text is no JSON.** -/
theorem escape_of_backslash (s : List ε) :
    (∃ t rest, (escape : Grammar ε Text).verdict true (Element.ofAscii '\\' :: s) =
        .matched t rest) ∨
      (escape : Grammar ε Text).verdict true (Element.ofAscii '\\' :: s) = .fatal := by
  have hbody : (either simpleEscape (preceded (ascii 'u') unicodeEscape) :
      Grammar ε Text).Guarded False := ⟨trivial, trivial, fun _ => guarded_unicodeEscape⟩
  have hrest := hbody.concludes.matched_or_fatal_of_halt "escape sequence" s
  have hmark : (ascii '\\' : Grammar ε ε).verdict true (Element.ofAscii '\\' :: s) =
      .matched (Element.ofAscii '\\') s := matched_ascii.mpr ⟨rfl, rfl⟩
  rcases hrest with ⟨t, rest, h⟩ | h
  · exact .inl ⟨t, rest, matched_bind.mpr ⟨_, s, hmark, h⟩⟩
  · refine .inr ?_
    rw [escape, preceded, verdict_bind, hmark, Verdict.andThen, h]

theorem avoids_unpaired {first : Text} (h : first.Avoids initial) (code : Nat) :
    Text.Avoids (Text.concat [first, Numeral.hex true 4 code]) initial :=
  avoids_concat_cons.mpr ⟨h, avoids_concat_cons.mpr ⟨avoids_hex _ _ _, avoids_concat_nil⟩⟩

/-- The letter is not among other ASCII characters. -/
theorem avoids_piece {chars : List Char} (h : Element.areApart chars initial = true) :
    ∀ e ∈ (Element.piece chars : List ε), Charset.isOneOf initial (Element.code e) = false := by
  intro e he
  have hnot := mt (Element.mem_piece_iff (by decide)).mpr (Element.not_mem_piece h he)
  simpa using hnot

/-- **The reasons of an escape that is none quote four elements at most.** -/
theorem tamely_escape (hε : ShowsPlainly ε) :
    (escape : Grammar ε Text).Tamely fun _ => True := by
  have hmark : ∀ c : Char, Element.areApart [c] initial = true →
      (ascii c : Grammar ε ε).Tamely fun _ => True := fun c hc =>
    .satisfy hε _ (hε.avoids_display (avoids_piece hc))
  have hhex : (hex4 : Grammar ε Nat).Tamely fun _ => True := by
    refine (Tamely.take 4).convertOrHalt fun digits fault hlen hconv pos => ?_
    have hlabel : Text.Avoids "unicode escape" initial := by decide
    refine hε.tame_invalid hlabel (by omega) pos ?_
    unfold hexConversion at hconv
    dsimp only at hconv
    split at hconv
    · cases hconv
      exact hε.fault digits fault ‹_›
    · split at hconv
      · cases hconv
      · cases hconv
        decide
  have hmore : (optional (preceded (token ['\\', 'u']) hex4) : Grammar ε (Option Nat)).Tamely
      fun _ => True :=
    have hlen : (Element.piece ['\\', 'u'] : List ε).length < 8 := by simp [Element.piece]
    ((Tamely.literal hε hlen (avoids_piece (by decide))).bind fun _ _ => hhex).optional
  have hunicode : (unicodeEscape : Grammar ε Text).Tamely fun _ => True := by
    refine .demand (hhex.bind fun code _ => ?_)
    split
    · refine hmore.map fun low _ what hwhat => ?_
      unfold joinSurrogates at hwhat
      split at hwhat
      · split at hwhat
        · cases hwhat
        · cases hwhat
          exact avoids_unpaired (by decide) code
      · cases hwhat
        exact avoids_unpaired (by decide) code
    · refine .succeed fun what hwhat => ?_
      unfold loneEscape at hwhat
      split at hwhat
      · cases hwhat
        exact avoids_unpaired (by decide) code
      · cases hwhat
  have hletter : (simpleEscape : Grammar ε Text).Tamely fun _ => True := by
    have hwhat :
        (Expectation.oneOf (Element.datum (Element.piece escapeLetters : List ε))).text.Avoids
          initial :=
      avoids_concat_cons.mpr ⟨by decide, avoids_concat_cons.mpr
        ⟨hε.avoids_display (avoids_piece (by decide)), avoids_concat_nil⟩⟩
    exact (Tamely.satisfy hε _ hwhat).map fun _ _ => trivial
  exact (hmark '\\' (by decide)).bind fun _ _ =>
    (hletter.either ((hmark 'u' (by decide)).bind fun _ _ => hunicode)).halt (by decide)

/-- **Behind a backslash both alphabets read the same escape**, or neither reads any. -/
theorem alike_of_backslash (hε : ShowsPlainly ε) {c : Cursor ε} {d : Cursor CodePoint}
    (hcd : Abreast c d) {t : Text} (hd : d.rest = CodePoint.ofChar '\\' :: t) :
    Alike TellsDepth (fun _ _ => True) ((escape : Grammar ε Text).run c) (escape.run d) := by
  have hspell : (spell d.rest : List ε) = Element.ofAscii '\\' :: spell t := by
    rw [hd, spell_ofChar (by decide)]
  rcases escape_of_backslash t with ⟨v, rest, hm⟩ | hfatal
  · obtain ⟨p, x, hp, hescape, hx, rfl, hs⟩ := piece_of_escape hm
    rw [spell_codePoint] at hs
    have hrest : d.rest = p.text ++ rest := hd.trans hs
    have hleft : escape.verdict true (spell d.rest : List ε) = .matched [x] (spell rest) := by
      rw [hrest, spell_append]
      exact escape_of_piece hp hescape hx true (spell rest)
    exact alike_of_matched hcd hleft (hd ▸ hm) trivial
  · rcases escape_of_backslash (spell t : List ε) with ⟨v, rest, hm⟩ | hfatal'
    · -- an escape is ASCII, so that the text begins with it too
      obtain ⟨p, x, hp, hescape, hx, rfl, hs⟩ := piece_of_escape hm
      obtain ⟨t', ht', _⟩ := prefix_of_spell (hspell.trans hs)
      have hmatched := escape_of_piece (ε := CodePoint) hp hescape hx true t'
      rw [spell_codePoint, ← ht', hd] at hmatched
      cases hmatched.symm.trans hfatal
    · refine alike_of_fatal hcd (hspell ▸ hfatal') (hd ▸ hfatal) (fun reason hrun => ?_)
        fun reason hrun => ?_
      · have htame := tamely_escape hε c
        rw [hrun] at htame
        exact htame.lacks_phrase
      · have htame := tamely_escape showsPlainly_codePoint d
        rw [hrun] at htame
        exact htame.lacks_phrase

theorem agrees_escape (hε : ShowsPlainly ε) :
    Agrees TellsDepth (fun _ _ => True) (escape : Grammar ε Text) escape := by
  intro c d hcd
  cases hd : d.rest with
  | nil =>
    refine alike_of_rejected hcd (escape_of_not_backslash ?_) (escape_of_not_backslash ?_)
    all_goals
      rw [hd]
      simp
  | cons ch t =>
    by_cases hch : ch = CodePoint.ofChar '\\'
    · exact alike_of_backslash hε hcd (hch ▸ hd)
    · obtain ⟨e, s, hes, htest, _⟩ := spell_cons_test (ε := ε) (f := fun n => n == '\\'.toNat)
        (fun n hn => beq_false_of_ne fun h => by subst h; exact absurd hn (by decide)) ch t
      have hne : ch.val ≠ '\\'.toNat := fun h => hch (CodePoint.ext h)
      refine alike_of_rejected hcd (escape_of_not_backslash ?_) (escape_of_not_backslash ?_)
      · rw [hd, hes]
        rintro _ ⟨⟩
        rw [beq_false_of_ne hne] at htest
        exact ne_of_beq_false htest
      · rw [hd]
        rintro _ ⟨⟩
        exact hne

theorem agrees_stringText (hε : ShowsPlainly ε) :
    Agrees TellsDepth (fun _ _ => True) (stringText : Grammar ε Text) stringText := by
  have hmark : Agrees TellsDepth (fun _ _ => True) (ascii '"' : Grammar ε ε) (ascii '"') :=
    (Agrees.ascii (by decide)).mono fun _ _ _ => trivial
  have hstretch : Agrees TellsDepth (fun _ _ => True) (eitherOf [raw, escape] : Grammar ε Text)
      (eitherOf [raw, escape]) :=
    agrees_raw.alt ((agrees_escape hε).alt .noAlternative)
  exact (hmark.between hstretch.repeatAny hmark).map fun _ _ _ => trivial

/-! ## Numbers -/

/-- Whether a number is that of a digit or of a sign, or lower still than the
letters. -/
def isNumeric (n : Nat) : Bool := n < 0x40

/-- The same exponent in both alphabets. -/
def SameExponent (e : Exponent ε) (e' : Exponent CodePoint) : Prop :=
  Option.Rel (Same isNumeric) e.1 e'.1 ∧ List.Forall₂ (Same isNumeric) e.2 e'.2

/-- **The same parts of a number in both alphabets.** -/
structure SameParts (v : NumberParts ε) (w : NumberParts CodePoint) : Prop where
  /-- The same sign. -/
  sign : Option.Rel (Same isNumeric) v.1 w.1
  /-- The same integer part. -/
  integer : List.Forall₂ (Same isNumeric) v.2.1 w.2.1
  /-- The same fraction. -/
  fraction : Option.Rel (List.Forall₂ (Same isNumeric)) v.2.2.1 w.2.2.1
  /-- The same exponent. -/
  exponent : Option.Rel SameExponent v.2.2.2 w.2.2.2

theorem isNumeric_of_isDigit {n : Nat} (h : Charset.isDigit n = true) : isNumeric n = true := by
  simp only [Charset.isDigit, Bool.and_eq_true, decide_eq_true_eq] at h
  simp only [isNumeric, decide_eq_true_eq]
  omega

theorem agrees_digits : Agrees TellsDepth (List.Forall₂ (Same isNumeric))
    (digits : Grammar ε (List ε)) digits := by
  refine (Agrees.takeSomeWhile fun n hn => ?_).mono fun _ _ h =>
    h.imp fun _ _ => Same.mono fun _ => isNumeric_of_isDigit
  simp only [Charset.isDigit, Bool.and_eq_false_iff, decide_eq_false_iff_not]
  omega

theorem agrees_numeric {chars : List Char} (hascii : Element.areAscii chars = true)
    (h : chars.all (fun c => isNumeric c.toNat) = true) :
    Agrees TellsDepth (Same isNumeric) (asciiOf chars : Grammar ε ε) (asciiOf chars) :=
  (Agrees.asciiOf hascii).mono fun _ _ => Same.mono fun n hn => by
    obtain ⟨c, hc, heq⟩ := List.any_eq_true.mp hn
    rw [← eq_of_beq heq]
    exact List.all_eq_true.mp h c hc

theorem agrees_mark {c : Char} (hascii : c.toNat < 0x80) (h : isNumeric c.toNat = true) :
    Agrees TellsDepth (Same isNumeric) (ascii c : Grammar ε ε) (ascii c) :=
  (Agrees.ascii hascii).mono fun _ _ => Same.mono fun n hn => by
    rw [eq_of_beq hn]
    exact h

theorem agrees_integer : Agrees TellsDepth (List.Forall₂ (Same isNumeric))
    (integer : Grammar ε (List ε)) integer := by
  have hmore : Agrees TellsDepth (List.Forall₂ (Same isNumeric))
      (takeWhile fun e : ε => Charset.isDigit (Element.code e))
      (takeWhile fun c : CodePoint => Charset.isDigit (Element.code c)) := by
    refine (Agrees.takeWhile fun n hn => ?_).mono fun _ _ h =>
      h.imp fun _ _ => Same.mono fun _ => isNumeric_of_isDigit
    simp only [Charset.isDigit, Bool.and_eq_false_iff, decide_eq_false_iff_not]
    omega
  have hserial : Agrees TellsDepth
      (fun v w => Same isNumeric v.1 w.1 ∧ List.Forall₂ (Same isNumeric) v.2 w.2)
      (serial (asciiOf ['1', '2', '3', '4', '5', '6', '7', '8', '9'])
        (takeWhile fun e : ε => Charset.isDigit (Element.code e)))
      (serial (asciiOf ['1', '2', '3', '4', '5', '6', '7', '8', '9'])
        (takeWhile fun c : CodePoint => Charset.isDigit (Element.code c))) :=
    (agrees_numeric (by decide) (by decide)).bind fun _ _ hfirst =>
      hmore.map fun _ _ h => ⟨hfirst, h⟩
  exact ((agrees_mark (by decide) (by decide)).map fun _ _ h => .cons h .nil).either
    (hserial.map fun _ _ h => .cons h.1 h.2)

theorem agrees_numberParts :
    Agrees TellsDepth SameParts (numberParts : Grammar ε (NumberParts ε)) numberParts := by
  have hfraction : Agrees TellsDepth (Option.Rel (List.Forall₂ (Same isNumeric)))
      (optional (preceded (ascii '.') digits) : Grammar ε (Option (List ε)))
      (optional (preceded (ascii '.') digits)) :=
    ((agrees_mark (by decide) (by decide)).bind fun _ _ _ => agrees_digits).optional
  have hexponent : Agrees TellsDepth (Option.Rel SameExponent)
      (optional ((serial3 (asciiOf ['e', 'E']) (optional (asciiOf ['+', '-'])) digits).map
        fun v => v.2) : Grammar ε (Option (Exponent ε)))
      (optional ((serial3 (asciiOf ['e', 'E']) (optional (asciiOf ['+', '-'])) digits).map
        fun v => v.2)) := by
    refine (((Agrees.asciiOf (by decide)).bind (S := fun v w => SameExponent v.2 w.2)
      fun _ _ _ => ?_).map fun _ _ h => h).optional
    exact (agrees_numeric (by decide) (by decide)).optional.bind fun _ _ hsign =>
      agrees_digits.map fun _ _ h => ⟨hsign, h⟩
  exact (agrees_mark (by decide) (by decide)).optional.bind fun _ _ hsign =>
    agrees_integer.bind fun _ _ hinteger => hfraction.bind fun _ _ hplaces =>
      hexponent.map fun _ _ h => ⟨hsign, hinteger, hplaces, h⟩

omit [Spelling ε] in
theorem map_code_of_same {f : Nat → Bool} {v : List ε} {w : Text}
    (h : List.Forall₂ (Same f) v w) : v.map Element.code = w.map CodePoint.val := by
  induction h with
  | nil => rfl
  | cons hsame _ ih => rw [List.map_cons, List.map_cons, hsame.1, ih]

omit [Spelling ε] in
theorem decimalNumber_of_same {f : Nat → Bool} {v : List ε} {w : Text}
    (h : List.Forall₂ (Same f) v w) : decimalNumber v = decimalNumber w := by
  have hmap : ∀ {ι : Type} [Element ι] (s : List ι),
      decimalNumber s = Numeral.ofDigits ((s.map Element.code).map fun n => n - 48) := by
    intro ι _ s
    rw [decimalNumber, List.map_map]
    rfl
  rw [hmap, hmap, map_code_of_same h]
  rfl

theorem exponentValue_of_same {e : Exponent ε} {e' : Exponent CodePoint}
    (h : SameExponent e e') : exponentValue e = exponentValue e' := by
  obtain ⟨sign, ds⟩ := e
  obtain ⟨sign', ds'⟩ := e'
  obtain ⟨hsign, hdigits⟩ := h
  have hminus : sign = some (Element.ofAscii '-') ↔ sign' = some (Element.ofAscii '-') := by
    cases hsign with
    | none => simp
    | some hsame =>
      rw [Option.some_inj, Option.some_inj, Element.eq_ofAscii_iff (by decide),
        Element.eq_ofAscii_iff (by decide), hsame.1]
      rfl
  simp only [exponentValue, hminus, decimalNumber_of_same hdigits]

/-- **A number has the same value in both alphabets**, if it has any. -/
theorem numberValue_of_same {v : NumberParts ε} {w : NumberParts CodePoint}
    (h : SameParts v w) : numberValue v = numberValue w := by
  obtain ⟨sign, whole, places, exponent⟩ := v
  obtain ⟨sign', whole', places', exponent'⟩ := w
  obtain ⟨hsign, hwhole, hplaces, hexponent⟩ := h
  dsimp only at hsign hwhole hplaces hexponent
  have hminus : sign.isSome = sign'.isSome := by cases hsign <;> rfl
  have hno : places.isNone = places'.isNone := by cases hplaces <;> rfl
  have hno' : exponent.isNone = exponent'.isNone := by cases hexponent <;> rfl
  have hdigits : List.Forall₂ (Same isNumeric) (places.getD []) (places'.getD []) := by
    cases hplaces with
    | none => exact .nil
    | some hsame => exact hsame
  have hpower : (exponent.map exponentValue).getD 0 = (exponent'.map exponentValue).getD 0 := by
    cases hexponent with
    | none => rfl
    | some hsame => exact exponentValue_of_same hsame
  have hall := List.rel_append hwhole hdigits
  simp only [numberValue, hminus, hno, hno', hwhole.length_eq, decimalNumber_of_same hwhole,
    hdigits.length_eq, hpower, decimalNumber_of_same hall]

omit [Spelling ε] in
/-- What is said of a number that has no value does not use the letter. -/
theorem avoids_numberValue {v : NumberParts ε} {fault : Fault} (h : numberValue v = .error fault) :
    fault.message.Avoids initial := by
  unfold numberValue at h
  dsimp only at h
  split at h
  · split at h
    · cases h
      simp only [Fault.message, avoids_concat_cons]
      exact ⟨by decide, avoids_decimal _, by decide, avoids_decimal _, by decide, avoids_concat_nil⟩
    · split at h <;> cases h
  · split at h
    · cases h
    · cases h
      decide

/-- The parts of a number, all of whose elements are digits or signs. -/
structure NumericParts (v : NumberParts ε) : Prop where
  /-- The sign is one. -/
  sign : ∀ e ∈ v.1, isNumeric (Element.code e) = true
  /-- The integer part is made of digits. -/
  integer : ∀ e ∈ v.2.1, isNumeric (Element.code e) = true
  /-- So is the fraction. -/
  fraction : ∀ ds ∈ v.2.2.1, ∀ e ∈ ds, isNumeric (Element.code e) = true
  /-- So is the exponent, after its sign. -/
  exponent : ∀ x ∈ v.2.2.2, ∀ e ∈ x.1.toList ++ x.2, isNumeric (Element.code e) = true

omit [Spelling ε] in
theorem avoids_of_isNumeric {n : Nat} (h : isNumeric n = true) :
    Charset.isOneOf initial n = false := by
  simp only [isNumeric, decide_eq_true_eq] at h
  simp [initial, Charset.isOneOf]
  omega

omit [Spelling ε] in
theorem avoids_displayOption {α : Type} {f : α → Datum} {o : Option α}
    (h : ∀ a ∈ o, (f a).display.Avoids initial) : (Datum.option f o).display.Avoids initial := by
  cases o with
  | none => exact show Text.Avoids (Datum.display .null) initial by decide
  | some a => exact h a rfl

omit [Spelling ε] in
/-- **A number is shown without the letter.** -/
theorem avoids_describeNumber (hε : ShowsPlainly ε) {v : NumberParts ε} (h : NumericParts v) :
    (describeNumber v).display.Avoids initial := by
  have hpiece : ∀ s : List ε, (∀ e ∈ s, isNumeric (Element.code e) = true) →
      (Element.datum s).display.Avoids initial := fun s hs =>
    hε.avoids_display fun e he => avoids_of_isNumeric (hs e he)
  have hsign : (Datum.option (fun e => Element.datum [e]) v.1).display.Avoids initial :=
    avoids_displayOption fun e he => hpiece [e] (by simpa using h.sign e he)
  have hplaces : (Datum.option Element.datum v.2.2.1).display.Avoids initial :=
    avoids_displayOption fun ds hds => hpiece ds (h.fraction ds hds)
  have hexponent : (Datum.option (fun e : Exponent ε =>
      .text (CodePoint.ofChar 'e' :: asciiText (e.1.toList ++ e.2))) v.2.2.2).display.Avoids
        initial := by
    refine avoids_displayOption fun x hx => showsPlainly_codePoint.avoids_display fun c hc => ?_
    rcases List.mem_cons.mp hc with rfl | hc
    · decide
    · obtain ⟨e, he, rfl⟩ := List.mem_map.mp hc
      have hnumeric := h.exponent x hx e he
      have hlt : Element.code e < 0x40 := of_decide_eq_true hnumeric
      rw [show Element.code (CodePoint.ofNat (Element.code e)) = Element.code e from
        CodePoint.val_ofNat (by omega)]
      exact avoids_of_isNumeric hnumeric
  show Text.Avoids (Text.concat ["(", Datum.displayItems [_, _, _, _], ")"]) initial
  simp only [Datum.displayItems, avoids_concat_cons]
  exact ⟨by decide, ⟨hsign, by decide, ⟨hpiece _ h.integer, by decide, ⟨hplaces, by decide,
    hexponent, avoids_concat_nil⟩, avoids_concat_nil⟩, avoids_concat_nil⟩, by decide,
    avoids_concat_nil⟩

omit [Spelling ε] in
theorem all_of_same {f : Nat → Bool} {v : List ε} {w : Text} (h : List.Forall₂ (Same f) v w) :
    (∀ e ∈ v, f (Element.code e) = true) ∧ ∀ c ∈ w, f c.val = true := by
  induction h with
  | nil => simp
  | cons hsame _ ih =>
    exact ⟨List.forall_mem_cons.mpr ⟨hsame.1 ▸ hsame.2, ih.1⟩,
      List.forall_mem_cons.mpr ⟨hsame.2, ih.2⟩⟩

omit [Spelling ε] in
theorem toList_of_same {f : Nat → Bool} {a : Option ε} {b : Option CodePoint}
    (h : Option.Rel (Same f) a b) : List.Forall₂ (Same f) a.toList b.toList := by
  cases h with
  | none => exact .nil
  | some hsame => exact .cons hsame .nil

omit [Spelling ε] in
/-- The same parts in both alphabets are parts of numbers in both. -/
theorem SameParts.numeric {v : NumberParts ε} {w : NumberParts CodePoint} (h : SameParts v w) :
    NumericParts v ∧ NumericParts w := by
  obtain ⟨sign, whole, places, exponent⟩ := v
  obtain ⟨sign', whole', places', exponent'⟩ := w
  obtain ⟨hsign, hwhole, hplaces, hexponent⟩ := h
  dsimp only at hsign hwhole hplaces hexponent
  have hsign' := all_of_same (toList_of_same hsign)
  have hwhole' := all_of_same hwhole
  have hplaces' : (∀ ds ∈ places, ∀ e ∈ ds, isNumeric (Element.code e) = true) ∧
      ∀ ds ∈ places', ∀ c ∈ ds, isNumeric c.val = true := by
    cases hplaces with
    | none => simp
    | some hsame => simpa using all_of_same hsame
  have hexponent' :
      (∀ x ∈ exponent, ∀ e ∈ x.1.toList ++ x.2, isNumeric (Element.code e) = true) ∧
        ∀ x ∈ exponent', ∀ c ∈ x.1.toList ++ x.2, isNumeric c.val = true := by
    cases hexponent with
    | none => simp
    | some hsame =>
      have hall := all_of_same (List.rel_append (toList_of_same hsame.1) hsame.2)
      exact ⟨fun _ hx => by cases hx; exact hall.1, fun _ hx => by cases hx; exact hall.2⟩
  exact ⟨⟨fun e he => hsign'.1 e (by simpa using he), hwhole'.1, hplaces'.1, hexponent'.1⟩,
    ⟨fun c hc => hsign'.2 c (by simpa using hc), hwhole'.2, hplaces'.2, hexponent'.2⟩⟩

theorem agrees_number (hε : ShowsPlainly ε) :
    Agrees TellsDepth (fun _ _ => True) (number : Grammar ε Json) number := by
  refine agrees_numberParts.judge .fatal fun v w h => ?_
  have hvalue := numberValue_of_same h
  have hconv : ∀ {ι : Type} [Element ι] (parts : NumberParts ι),
      numberConversion.verdict parts = (numberValue parts).mapError fun fault pos =>
        .invalid "number" (describeNumber parts) pos fault := fun _ => rfl
  rw [hconv, hconv]
  cases hv : numberValue v with
  | ok value =>
    rw [hv] at hvalue
    rw [← hvalue]
    exact .inl ⟨value, value, rfl, rfl, trivial⟩
  | error fault =>
    have hfault := avoids_numberValue hv
    have hlabel : Text.Avoids "number" initial := by decide
    obtain ⟨hleft, hright⟩ := h.numeric
    rw [hv] at hvalue
    rw [← hvalue]
    refine .inr ⟨_, _, rfl, rfl, fun pos pos' => iff_of_false ?_ ?_⟩
    · exact (tame_invalid_of_avoids hlabel (avoids_describeNumber hε hleft) pos hfault).lacks_phrase
    · exact (tame_invalid_of_avoids hlabel (avoids_describeNumber showsPlainly_codePoint hright)
        pos' hfault).lacks_phrase

/-! ## Containers -/

theorem agrees_spaced {α β : Type} [Vacancy α] [Vacancy β] {R : α → β → Prop}
    {p : Grammar ε α} {p' : Grammar CodePoint β} (h : Agrees TellsDepth R p p') :
    Agrees TellsDepth R (spaced p) (spaced p') :=
  agrees_blanks.between h agrees_blanks

/-- What is said of too deep a nesting. -/
def refusal (limit : Nat) : Text := Text.concat [depthPhrase, " of ", Numeral.decimal limit]

theorem tellsDepth_refusal (limit pos : Nat) : TellsDepth (.refused (refusal limit) pos) :=
  List.IsPrefix.isInfix ⟨_, (List.append_assoc _ _ _).symm⟩

/-- **Too deep a nesting is told as such in both alphabets.** -/
theorem agrees_tooDeep (limit : Nat) :
    Agrees TellsDepth (fun _ _ => True) (tooDeep limit : Grammar ε Json) (tooDeep limit) := by
  have hbracket : Agrees TellsDepth
      (fun v w : Except Text Json => v = .error (refusal limit) ∧ w = .error (refusal limit))
      (map (fun _ => .error (refusal limit)) (asciiOf ['[', '\x7b'] : Grammar ε ε))
      (map (fun _ => .error (refusal limit)) (asciiOf ['[', '\x7b'])) :=
    (Agrees.asciiOf (by decide)).map fun _ _ _ => ⟨rfl, rfl⟩
  refine hbracket.judge .fatal ?_
  rintro _ _ ⟨rfl, rfl⟩
  exact .inr ⟨_, _, rfl, rfl, fun pos pos' =>
    iff_of_true (tellsDepth_refusal limit pos) (tellsDepth_refusal limit pos')⟩

theorem agrees_valueWith (hε : ShowsPlainly ε) {inner : Grammar ε Json}
    {inner' : Grammar CodePoint Json} (h : Agrees TellsDepth (fun _ _ => True) inner inner') :
    Agrees TellsDepth (fun _ _ => True) (valueWith inner) (valueWith inner') := by
  have hword : ∀ {chars : List Char} (v : Json), Element.areAscii chars = true →
      Agrees TellsDepth (fun _ _ => True) (map (fun _ => v) (token chars) : Grammar ε Json)
        (map (fun _ => v) (token chars)) := fun v hascii =>
    (Agrees.token hascii).map fun _ _ _ => trivial
  exact ((agrees_stringText hε).map fun _ _ _ => trivial).alt <| (agrees_number hε).alt <|
    h.alt <| (hword _ (by decide)).alt <| (hword _ (by decide)).alt <|
      (hword _ (by decide)).alt .noAlternative

/-- **Containers agree**, by induction on the levels that are left. -/
theorem agrees_container (hε : ShowsPlainly ε) (limit levels : Nat) :
    Agrees TellsDepth (fun _ _ => True) (container limit levels : Grammar ε Json)
      (container limit levels) := by
  induction levels with
  | zero => exact agrees_tooDeep limit
  | succ levels ih =>
    have hmark : ∀ c : Char, c.toNat < 0x80 →
        Agrees TellsDepth (fun _ _ => True) (ascii c : Grammar ε ε) (ascii c) := fun c hc =>
      (Agrees.ascii hc).mono fun _ _ _ => trivial
    have hclose : ∀ c : Char, c.toNat < 0x80 → Agrees TellsDepth (fun _ _ => True)
        (preceded blanks (ascii c) : Grammar ε ε) (preceded blanks (ascii c)) := fun c hc =>
      agrees_blanks.bind fun _ _ _ => hmark c hc
    have hitem := agrees_spaced (agrees_valueWith hε ih)
    have hmember : Agrees TellsDepth (fun _ _ => True)
        (member (spaced (valueWith (container limit levels))) : Grammar ε (Text × Json))
        (member (spaced (valueWith (container limit levels)))) :=
      (agrees_spaced (agrees_stringText hε)).bind fun _ _ _ =>
        (hmark ':' (by decide)).bind fun _ _ _ => hitem.map fun _ _ _ => trivial
    have hcomma := hmark ',' (by decide)
    have hobject : Agrees TellsDepth (fun _ _ => True)
        (objectOf (spaced (valueWith (container limit levels))) : Grammar ε Json)
        (objectOf (spaced (valueWith (container limit levels)))) :=
      ((hmark _ (by decide)).between (hcomma.separatedItems hmember) (hclose _ (by decide))).map
        fun _ _ _ => trivial
    have harray : Agrees TellsDepth (fun _ _ => True)
        (arrayOf (spaced (valueWith (container limit levels))) : Grammar ε Json)
        (arrayOf (spaced (valueWith (container limit levels)))) :=
      ((hmark _ (by decide)).between (hcomma.separatedItems hitem) (hclose _ (by decide))).map
        fun _ _ _ => trivial
    exact hobject.alt (harray.alt .noAlternative)

end StreamGrammar.Json
