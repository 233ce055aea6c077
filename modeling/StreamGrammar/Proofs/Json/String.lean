import StreamGrammar.Proofs.Grammar.Final
import StreamGrammar.Proofs.Grammar.Matched
import StreamGrammar.Proofs.Json.Syntax
import StreamGrammar.Proofs.Text.Spelling

/-!
# Strings are read as they are written

The grammar of strings takes the characters that stand for themselves in runs as
long as they get, so what it goes through are not the pieces of a string but
runs and escapes. A run is many pieces at once (`Rounds` of the loop against
`piecesText`), and it ends where it must: the next piece is an escape, or there
is none and the closing mark comes.
-/

namespace StreamGrammar.Json

open Grammar

variable {ε : Type} [Element ε] [Spelling ε]

/-! ## Escapes -/

/-- The number of hexadecimal digits depends on their numbers alone. -/
theorem hexNumber_spell {digits : Text} (h : ∀ c ∈ digits, c.val < 0x80) :
    hexNumber (spell digits : List ε) = hexNumber digits := by
  have hmap : ∀ {ι : Type} [Element ι] (s : List ι), hexNumber s =
      (s.map Element.code).foldl (fun n code => 16 * n + Charset.hexValue code) 0 := by
    intro ι _ s
    rw [hexNumber, List.foldl_map]
  rw [hmap, hmap, map_code_spell h]
  rfl

theorem IsHex4.lt {digits : Text} (h : IsHex4 digits) : ∀ c ∈ digits, c.val < 0x80 := by
  intro c hc
  have hhex := h.2 c hc
  simp only [Charset.isHexDigit, Charset.isDigit, Bool.or_eq_true, Bool.and_eq_true,
    decide_eq_true_eq] at hhex
  omega

/-- **Four hexadecimal digits**, wherever they are read. -/
theorem matched_hex4 {final : Bool} {s rest : List ε} {code : Nat} :
    hex4.verdict final s = .matched code rest ↔
      ∃ digits, IsHex4 digits ∧ code = hexNumber digits ∧ s = spell digits ++ rest := by
  rw [hex4, matched_convertOrHalt]
  constructor
  · rintro ⟨run, hrun, hconv⟩
    obtain ⟨rfl, hlen⟩ := matched_take.mp hrun
    simp only [hexConversion] at hconv
    split at hconv
    · cases hconv
    · split at hconv
      · rename_i hall
        cases hconv
        -- hexadecimal digits are ASCII, so the elements spell the code points of their numbers
        have hhex : ∀ e ∈ run, Charset.isHexDigit (Element.code e) = true :=
          List.all_eq_true.mp hall
        have hlt : ∀ e ∈ run, Element.code e < 0x80 := fun e he => by
          have := hhex e he
          simp only [Charset.isHexDigit, Charset.isDigit, Bool.or_eq_true, Bool.and_eq_true,
            decide_eq_true_eq] at this
          omega
        have hspell := spell_map_code hlt
        have hdigits : IsHex4 (run.map fun e => CodePoint.ofNat (Element.code e)) := by
          refine ⟨by simpa using hlen, fun d hd => ?_⟩
          obtain ⟨e, he, rfl⟩ := List.mem_map.mp hd
          have := hlt e he
          rw [CodePoint.val_ofNat (by omega)]
          exact hhex e he
        refine ⟨_, hdigits, ?_, by rw [hspell]⟩
        rw [← hexNumber_spell (ε := ε) hdigits.lt, hspell]
      · cases hconv
  · rintro ⟨digits, hdigits, rfl, rfl⟩
    have hcodes := map_code_spell (ε := ε) hdigits.lt
    refine ⟨spell digits, matched_take.mpr ⟨rfl, ?_⟩, ?_⟩
    · have hlen := congrArg List.length hcodes
      simpa [hdigits.1] using hlen
    · have hdecode : Element.decode (spell digits : List ε) = .ok digits :=
        Spelling.decode_flatMap digits fun c hc => Spelling.readable_of_lt c (hdigits.lt c hc)
      have hall : ((spell digits : List ε).all fun e => Charset.isHexDigit (Element.code e)) =
          true := by
        have hmap : ((spell digits : List ε).all fun e => Charset.isHexDigit (Element.code e)) =
            ((spell digits : List ε).map Element.code).all Charset.isHexDigit := by
          rw [List.all_map]
          rfl
        rw [hmap, hcodes, List.all_map]
        exact List.all_eq_true.mpr hdigits.2
      simp only [hexConversion, hdecode, hall, if_true]
      rw [hexNumber_spell hdigits.lt]

/-- An escape by a letter. -/
theorem matched_simpleEscape {final : Bool} {s rest : List ε} {t : Text} :
    simpleEscape.verdict final s = .matched t rest ↔
      ∃ c ∈ escapeLetters, t = [Piece.letterValue c] ∧ s = Element.ofAscii c :: rest := by
  have hvalue : ∀ c ∈ escapeLetters, c.toNat < 0x80 ∧
      simpleEscapeValue c.toNat = Piece.letterValue c :=
    forall_mem_of_all (by decide)
  rw [simpleEscape, matched_map]
  constructor
  · rintro ⟨e, he, rfl⟩
    obtain ⟨hmem, rfl⟩ := matched_asciiOf.mp he
    obtain ⟨c, hc, rfl⟩ := List.mem_map.mp hmem
    refine ⟨c, hc, ?_, rfl⟩
    rw [LawfulElement.code_ofAscii c (hvalue c hc).1, (hvalue c hc).2]
  · rintro ⟨c, hc, rfl, rfl⟩
    refine ⟨Element.ofAscii c, matched_asciiOf.mpr ⟨List.mem_map_of_mem hc, rfl⟩, ?_⟩
    rw [LawfulElement.code_ofAscii c (hvalue c hc).1, (hvalue c hc).2]

theorem areAscii_escape {c : Char} (h : c ∈ escapeLetters) :
    Element.areAscii ['\\', c] = true :=
  forall_mem_of_all (p := fun c => Element.areAscii ['\\', c] = true) (by decide) c h

/-- The introduction of an escape by number. -/
theorem spell_numbered (digits : Text) (rest : List ε) :
    spell (Text.ofChars ['\\', 'u'] ++ digits) ++ rest =
      Element.ofAscii '\\' :: Element.ofAscii 'u' :: (spell digits ++ rest) := by
  rw [spell_append, spell_ofChars (by decide)]
  rfl

/-- **One escape by number is read as the code point of its digits**, unless they
are half of a surrogate pair. -/
theorem unicodeEscape_of_unit {digits : Text} (h : IsHex4 digits) {c : CodePoint}
    (hc : (Piece.unit digits).value? = some c) {final : Bool} {rest : List ε} :
    unicodeEscape.verdict final (spell digits ++ rest) = .matched [c] rest := by
  simp only [Piece.value?] at hc
  split at hc
  · cases hc
  · rename_i hsurrogate
    cases hc
    simp only [Bool.or_eq_true, not_or, Bool.not_eq_true] at hsurrogate
    refine matched_demand.mpr (matched_bind.mpr
      ⟨hexNumber digits, rest, matched_hex4.mpr ⟨digits, h, rfl, rfl⟩, ?_⟩)
    -- no other half is looked for, and none is missed
    simp [hsurrogate, loneEscape]

/-- **Two escapes that make a pair are read as its code point.** -/
theorem unicodeEscape_of_pair {high low : Text} (h : (Piece.pair high low).WellFormed)
    {final : Bool} {rest : List ε} :
    unicodeEscape.verdict final (spell high ++ (spell (Text.ofChars ['\\', 'u'] ++ low) ++ rest)) =
      .matched [CodePoint.ofNat (pairValue (hexNumber high) (hexNumber low))] rest := by
  obtain ⟨hhex, hhex', hhigh, hlow⟩ := h
  refine matched_demand.mpr (matched_bind.mpr
    ⟨hexNumber high, _, matched_hex4.mpr ⟨high, hhex, rfl, rfl⟩, ?_⟩)
  rw [if_pos hhigh]
  refine matched_map.mpr ⟨some (hexNumber low), matched_optional.mpr (.inr ⟨_, ?_, rfl⟩), ?_⟩
  · refine matched_bind.mpr ⟨Element.piece ['\\', 'u'], spell low ++ rest,
      matched_literal.mpr ⟨rfl, ?_⟩, matched_hex4.mpr ⟨low, hhex', rfl, rfl⟩⟩
    rw [spell_numbered]
    rfl
  · rw [joinSurrogates, if_pos hlow]

/-- Whether a piece is an escape. -/
def Piece.IsEscape : Piece → Prop
  | plain _ => False
  | _ => True

theorem Piece.IsEscape.text {p : Piece} (h : p.IsEscape) :
    ∃ tail, p.text = CodePoint.ofChar '\\' :: tail := by
  cases p with
  | plain c => exact h.elim
  | _ => exact ⟨_, rfl⟩

theorem piece_of_unicodeEscape {final : Bool} {s rest : List ε} {t : Text}
    (h : unicodeEscape.verdict final s = .matched t rest) :
    ∃ (p : Piece) (c : CodePoint), p.WellFormed ∧ p.IsEscape ∧ p.value? = some c ∧ t = [c] ∧
      Element.ofAscii '\\' :: Element.ofAscii 'u' :: s = spell p.text ++ rest := by
  obtain ⟨code, middle, hfirst, hnext⟩ := matched_bind.mp (matched_demand.mp h)
  obtain ⟨digits, hdigits, rfl, rfl⟩ := matched_hex4.mp hfirst
  split at hnext
  · rename_i hhigh
    obtain ⟨low, hlow, hjoin⟩ := matched_map.mp hnext
    rcases matched_optional.mp hlow with ⟨_, rfl, _⟩ | ⟨code, hpair, rfl⟩
    -- the first half of a pair is refused without the second
    · cases hjoin
    · obtain ⟨_, past, hmark, hsecond⟩ := matched_bind.mp hpair
      obtain ⟨rfl, rfl⟩ := matched_literal.mp hmark
      obtain ⟨digits', hdigits', rfl, rfl⟩ := matched_hex4.mp hsecond
      simp only [joinSurrogates] at hjoin
      split at hjoin
      · rename_i hislow
        cases hjoin
        refine ⟨.pair digits digits', _, ⟨hdigits, hdigits', hhigh, hislow⟩, trivial, rfl, rfl, ?_⟩
        rw [Piece.text, spell_append, List.append_assoc, spell_numbered, spell_numbered]
        rfl
      · cases hjoin
  · rename_i hhigh
    rw [verdict_succeed] at hnext
    simp only [Verdict.matched.injEq, loneEscape] at hnext
    obtain ⟨hlone, rfl⟩ := hnext
    split at hlone
    · cases hlone
    · rename_i hlow
      cases hlone
      refine ⟨.unit digits, _, hdigits, trivial, ?_, rfl, by rw [Piece.text, spell_numbered]⟩
      simp only [Bool.not_eq_true] at hhigh hlow
      simp [Piece.value?, hhigh, hlow]

/-- **An escape is read as the code point that it denotes.** -/
theorem escape_of_piece {p : Piece} (h : p.WellFormed) (hescape : p.IsEscape) {c : CodePoint}
    (hc : p.value? = some c) (final : Bool) (rest : List ε) :
    escape.verdict final (spell p.text ++ rest) = .matched [c] rest := by
  have hnotLetter : ∀ s : List ε,
      simpleEscape.verdict final (Element.ofAscii 'u' :: s) = .rejected := fun s => by
    refine map_of_rejected _ (rejected_asciiOf (by decide) (fun hnil => nomatch hnil) ?_)
    intro e he
    cases he
    rw [LawfulElement.code_ofAscii 'u' (by decide)]
    decide
  -- after the backslash, an escape by number is what the second alternative reads
  have hnumbered : ∀ {s : List ε}, unicodeEscape.verdict final s = .matched [c] rest →
      escape.verdict final (Element.ofAscii '\\' :: Element.ofAscii 'u' :: s) =
        .matched [c] rest := by
    intro s hs
    refine matched_bind.mpr ⟨_, _, matched_ascii.mpr ⟨rfl, rfl⟩, matched_halt.mpr ?_⟩
    rw [either_of_rejected _ (hnotLetter s)]
    exact matched_bind.mpr ⟨_, s, matched_ascii.mpr ⟨rfl, rfl⟩, hs⟩
  cases p with
  | plain c => exact hescape.elim
  | letter l =>
    obtain rfl : Piece.letterValue l = c := Option.some.inj hc
    rw [Piece.text, spell_ofChars (areAscii_escape h)]
    refine matched_bind.mpr ⟨Element.ofAscii '\\', Element.ofAscii l :: rest,
      matched_ascii.mpr ⟨rfl, rfl⟩, matched_halt.mpr (either_of_matched _ ?_)⟩
    exact matched_simpleEscape.mpr ⟨l, h, rfl, rfl⟩
  | unit digits =>
    rw [Piece.text, spell_numbered]
    exact hnumbered (unicodeEscape_of_unit h hc)
  | pair high low =>
    obtain rfl : CodePoint.ofNat (pairValue (hexNumber high) (hexNumber low)) = c :=
      Option.some.inj hc
    rw [Piece.text, spell_append, List.append_assoc, spell_numbered]
    exact hnumbered (unicodeEscape_of_pair h)

theorem piece_of_escape {final : Bool} {s rest : List ε} {t : Text}
    (h : escape.verdict final s = .matched t rest) :
    ∃ (p : Piece) (c : CodePoint), p.WellFormed ∧ p.IsEscape ∧ p.value? = some c ∧ t = [c] ∧
      s = spell p.text ++ rest := by
  obtain ⟨_, past, hmark, hrest⟩ := matched_bind.mp h
  obtain ⟨rfl, rfl⟩ := matched_ascii.mp hmark
  rcases matched_of_either (matched_halt.mp hrest) with hletter | hnumber
  · obtain ⟨c, hc, rfl, rfl⟩ := matched_simpleEscape.mp hletter
    refine ⟨.letter c, _, hc, trivial, rfl, rfl, ?_⟩
    rw [Piece.text, spell_ofChars (areAscii_escape hc)]
    rfl
  · obtain ⟨_, s, hu, hescape⟩ := matched_bind.mp hnumber
    obtain ⟨rfl, rfl⟩ := matched_ascii.mp hu
    exact piece_of_unicodeEscape hescape

/-! ## Runs of plain characters -/

/-- The characters at which a run of plain characters ends. -/
def delimiters : List Char := '"' :: '\\' :: Charset.control

theorem areAscii_delimiters : Element.areAscii delimiters = true := by decide

theorem isOneOf_delimiters {n : Nat} :
    Charset.isOneOf delimiters n = true ↔ n = 0x22 ∨ n = 0x5C ∨ n < 0x20 := by
  -- the control characters are listed as characters, so their numbers are read back once
  have hcontrol : ∀ i < 0x20, (Char.ofNat i).toNat = i := by decide
  simp only [Charset.isOneOf, delimiters, Charset.control, List.any_cons, Bool.or_eq_true,
    beq_iff_eq, List.any_map, List.any_eq_true, List.mem_range, Function.comp_apply]
  refine or_congr eq_comm (or_congr eq_comm ⟨?_, fun h => ⟨n, h, hcontrol n h⟩⟩)
  rintro ⟨i, hi, rfl⟩
  rwa [hcontrol i hi]

/-- The elements of a plain character are no delimiters, and those of any other
are. -/
theorem spellOne_delimiters (c : CodePoint) :
    (∀ e ∈ (Spelling.spellOne c : List ε), e ∉ (Element.piece delimiters : List ε)) ↔
      IsPlain c := by
  have hmem : ∀ e : ε, e ∉ (Element.piece delimiters : List ε) ↔
      ¬(Element.code e = 0x22 ∨ Element.code e = 0x5C ∨ Element.code e < 0x20) := fun e => by
    rw [Element.mem_piece_iff areAscii_delimiters, isOneOf_delimiters]
  simp only [hmem, IsPlain]
  -- ASCII is spelled by one element with its own number, all else by elements past ASCII
  by_cases hc : c.val < 0x80
  · obtain ⟨e, he, hcode⟩ := Spelling.spellOne_of_lt (ε := ε) c hc
    simp only [he, List.mem_singleton, forall_eq, hcode]
    omega
  · constructor
    · intro _
      omega
    · intro _ e he
      have := Spelling.le_code_of_mem c e (by omega) he
      omega

theorem spell_delimiters (t : Text) :
    (∀ e ∈ (spell t : List ε), e ∉ (Element.piece delimiters : List ε)) ↔ ∀ c ∈ t, IsPlain c := by
  simp only [← spellOne_delimiters (ε := ε), spell, List.mem_flatMap]
  exact ⟨fun h c hc e he => h e ⟨c, hc, he⟩, fun h e ⟨c, hc, he⟩ => h c hc e he⟩

/-- **The longest run of plain characters**, wherever it is read. -/
theorem matched_raw {final : Bool} {s rest : List ε} {t : Text} :
    raw.verdict final s = .matched t rest ↔
      t ≠ [] ∧ (∀ c ∈ t, IsPlain c ∧ Spelling.Readable ε c) ∧ s = spell t ++ rest ∧
        Halts (fun e => !(Element.piece delimiters).contains e) final rest := by
  rw [raw, matched_convertOrHalt]
  simp only [matched_otherThan]
  constructor
  · rintro ⟨run, ⟨hne, rfl, hrun, hrest⟩, hconv⟩
    obtain ⟨rfl, hreadable⟩ := Spelling.of_decode run t hconv
    have hplain := (spell_delimiters t).mp hrun
    exact ⟨fun hnil => hne (by rw [hnil]; rfl), fun c hc => ⟨hplain c hc, hreadable c hc⟩, rfl,
      hrest⟩
  · rintro ⟨hne, ht, rfl, hrest⟩
    refine ⟨spell t, ⟨fun hnil => ?_, rfl, (spell_delimiters t).mpr fun c hc => (ht c hc).1,
      hrest⟩, Spelling.decode_flatMap t fun c hc => (ht c hc).2⟩
    cases t with
    | nil => exact hne rfl
    | cons c t =>
      rw [spell_cons] at hnil
      exact Spelling.spellOne_ne_nil c (List.append_eq_nil_iff.mp hnil).1

/-! ## Pieces -/

theorem textOf?_cons (p : Piece) (ps : List Piece) :
    textOf? (p :: ps) = p.value?.bind fun c => (textOf? ps).map (c :: ·) := by
  simp only [textOf?, List.mapM_cons]
  cases p.value? with
  | none => rfl
  | some c => cases List.mapM Piece.value? ps <;> rfl

theorem textOf?_append (ps qs : List Piece) :
    textOf? (ps ++ qs) = (textOf? ps).bind fun t => (textOf? qs).map (t ++ ·) := by
  induction ps with
  | nil =>
    show textOf? qs = (textOf? qs).map _
    cases textOf? qs <;> rfl
  | cons p ps ih =>
    rw [List.cons_append, textOf?_cons, textOf?_cons, ih]
    cases p.value? with
    | none => rfl
    | some c =>
      cases textOf? ps with
      | none => rfl
      | some t => cases textOf? qs <;> rfl

/-- Plain characters as pieces. -/
def plains (t : Text) : List Piece := t.map .plain

theorem piecesText_plains (t : Text) : piecesText (plains t) = t := by
  rw [piecesText, plains, List.flatMap_map]
  exact List.flatMap_singleton' t

theorem textOf?_plains (t : Text) : textOf? (plains t) = some t := by
  induction t with
  | nil => rfl
  | cons c t ih =>
    have hcons : textOf? (plains (c :: t)) = (textOf? (plains t)).map (c :: ·) :=
      textOf?_cons (.plain c) (plains t)
    rw [hcons, ih]
    rfl

theorem piecesText_append (ps qs : List Piece) :
    piecesText (ps ++ qs) = piecesText ps ++ piecesText qs :=
  List.flatMap_append

/-! ## The body of a string -/

/-- A run of plain characters or an escape. -/
def stretch : Grammar ε Text := eitherOf [raw, escape]

omit [Spelling ε] in
theorem consumes_stretch : (stretch : Grammar ε Text).Consumes := by
  intro final s rest t h
  have hraw : (raw : Grammar ε Text).Consumes := (Consumes.otherThan _).judge _ _
  have hescape : (escape : Grammar ε Text).Consumes := (Consumes.satisfy _ _).bind _
  rcases matched_of_alt h with h | h
  · exact hraw h
  · rcases matched_of_alt h with h | h
    · exact hescape h
    · cases h

/-- Every stretch is made of pieces. -/
theorem pieces_of_stretch {final : Bool} {s rest : List ε} {t : Text}
    (h : stretch.verdict final s = .matched t rest) :
    ∃ ps : List Piece, (∀ p ∈ ps, p.WellFormed) ∧ textOf? ps = some t ∧
      s = spell (piecesText ps) ++ rest := by
  rcases matched_of_alt h with h | h
  · obtain ⟨_, ht, rfl, _⟩ := matched_raw.mp h
    refine ⟨plains t, fun p hp => ?_, textOf?_plains t, by rw [piecesText_plains]⟩
    obtain ⟨c, hc, rfl⟩ := List.mem_map.mp hp
    exact (ht c hc).1
  · rcases matched_of_alt h with h | h
    · obtain ⟨p, c, hp, _, hc, rfl, rfl⟩ := piece_of_escape h
      refine ⟨[p], by simpa using hp, ?_, by simp [piecesText]⟩
      rw [textOf?_cons, hc]
      rfl
    · cases h

/-- So are any number of them, one after the other. -/
theorem pieces_of_rounds {final : Bool} {s rest : List ε} {ts : List Text}
    (h : Verdict.Rounds (stretch.verdict final) s ts rest) :
    ∃ ps : List Piece, (∀ p ∈ ps, p.WellFormed) ∧ textOf? ps = some (Text.concat ts) ∧
      s = spell (piecesText ps) ++ rest := by
  induction h with
  | none s => exact ⟨[], by simp, rfl, rfl⟩
  | more hround _ ih =>
    obtain ⟨ps, hps, htext, rfl⟩ := ih
    obtain ⟨qs, hqs, htext', rfl⟩ := pieces_of_stretch hround
    refine ⟨qs ++ ps, fun p hp => (List.mem_append.mp hp).elim (hqs p) (hps p), ?_, ?_⟩
    · rw [textOf?_append, htext, htext']
      rfl
    · rw [piecesText_append, spell_append, List.append_assoc]

/-- **What is read as a string is one**, and denotes the text that it is read
as. -/
theorem pieces_of_stringText {final : Bool} {s rest : List ε} {t : Text}
    (h : stringText.verdict final s = .matched t rest) :
    ∃ (ps : List Piece) (written : Text), SpellsString ps written ∧ textOf? ps = some t ∧
      s = spell written ++ rest := by
  obtain ⟨ts, hbetween, rfl⟩ := matched_map.mp h
  obtain ⟨_, inside, hopen, hmore⟩ := matched_bind.mp hbetween
  obtain ⟨rfl, rfl⟩ := matched_ascii.mp hopen
  obtain ⟨_, outside, hbody, hclose⟩ := matched_bind.mp hmore
  obtain ⟨_, hmark, rfl⟩ := matched_map.mp hclose
  obtain ⟨rfl, rfl⟩ := matched_ascii.mp hmark
  rw [verdict_repeatAny] at hbody
  obtain ⟨ps, hps, htext, rfl⟩ := pieces_of_rounds (Verdict.rounds_of_many hbody)
  refine ⟨ps, _, ⟨hps, rfl⟩, htext, ?_⟩
  rw [spell_ofChar_append (by decide), spell_append, List.append_assoc,
    spell_ofChar_append (by decide)]
  rfl

/-! ### From pieces to stretches -/

omit [Spelling ε] in
/-- No run of plain characters begins at a delimiter. -/
theorem raw_of_delimiter {e : ε} (he : e ∈ (Element.piece delimiters : List ε)) (final : Bool)
    (s : List ε) : raw.verdict final (e :: s) = .rejected :=
  ((BeginsWith.otherThan _).judge _ _).cons final e s fun hnot => hnot he

/-- Plain characters up to a delimiter are a stretch, if there are any. -/
theorem rounds_of_plain {t : Text} (ht : ∀ c ∈ t, IsPlain c ∧ Spelling.Readable ε c) {e : ε}
    (he : e ∈ (Element.piece delimiters : List ε)) (final : Bool) (s : List ε) :
    ∃ ts, Verdict.Rounds (stretch.verdict final) (spell t ++ e :: s) ts (e :: s) ∧
      Text.concat ts = t := by
  by_cases hne : t = []
  · subst hne
    exact ⟨[], .none _, rfl⟩
  · have hhalts : Halts (fun e => !(Element.piece delimiters).contains e) final (e :: s) :=
      halts_cons (by simpa using he)
    exact ⟨[t], .more (alt_of_matched _ (matched_raw.mpr ⟨hne, ht, rfl, hhalts⟩)) (.none _),
      by simp [Text.concat]⟩

/-- An escape after plain characters is one more stretch: the run of the plain
ones ends at its backslash. -/
theorem rounds_of_escape {before : Text}
    (hbefore : ∀ c ∈ before, IsPlain c ∧ Spelling.Readable ε c) {p : Piece} (hp : p.WellFormed)
    (hescape : p.IsEscape) {c : CodePoint} (hc : p.value? = some c) (final : Bool) (s : List ε) :
    ∃ ts, Verdict.Rounds (stretch.verdict final) (spell before ++ (spell p.text ++ s)) ts s ∧
      Text.concat ts = before ++ [c] := by
  have hbackslash : Element.ofAscii '\\' ∈ (Element.piece delimiters : List ε) := by
    simp [Element.piece, delimiters]
  obtain ⟨tail, htail⟩ := hescape.text
  have hspell : (spell p.text ++ s : List ε) = Element.ofAscii '\\' :: (spell tail ++ s) := by
    rw [htail, spell_ofChar_append (by decide)]
  obtain ⟨ts, hrounds, hconcat⟩ := rounds_of_plain hbefore hbackslash final (spell tail ++ s)
  have hraw := raw_of_delimiter hbackslash final (spell tail ++ s)
  rw [← hspell] at hrounds hraw
  have hround : stretch.verdict final (spell p.text ++ s) = .matched [c] s :=
    (alt_of_rejected _ hraw).trans (alt_of_matched _ (escape_of_piece hp hescape hc final s))
  refine ⟨ts ++ [[c]], hrounds.trans (.more hround (.none s)), ?_⟩
  rw [Text.concat, List.flatten_append, ← Text.concat, hconcat]
  rfl

/-- **The loop goes through the pieces up to the closing mark**, whatever plain
characters it has before it besides. The induction is on the pieces: a plain one
makes the run before it longer, and an escape ends the run. -/
theorem rounds_of_pieces {ps : List Piece} (hps : ∀ p ∈ ps, p.WellFormed)
    (hread : ∀ c ∈ piecesText ps, Spelling.Readable ε c) {t : Text} (htext : textOf? ps = some t)
    (before : Text) (hbefore : ∀ c ∈ before, IsPlain c ∧ Spelling.Readable ε c) (final : Bool)
    (rest : List ε) :
    ∃ ts, Verdict.Rounds (stretch.verdict final)
        (spell before ++ (spell (piecesText ps) ++ Element.ofAscii '"' :: rest)) ts
        (Element.ofAscii '"' :: rest) ∧
      Text.concat ts = before ++ t := by
  induction ps generalizing before t with
  | nil =>
    obtain rfl : [] = t := Option.some.inj htext
    obtain ⟨ts, hrounds, hconcat⟩ := rounds_of_plain hbefore
      (e := Element.ofAscii '"') (by simp [Element.piece, delimiters]) final rest
    exact ⟨ts, hrounds, by rw [hconcat, List.append_nil]⟩
  | cons p ps ih =>
    have hp := hps p List.mem_cons_self
    have hps' : ∀ p ∈ ps, p.WellFormed := fun q hq => hps q (List.mem_cons_of_mem _ hq)
    have hsplit : piecesText (p :: ps) = p.text ++ piecesText ps := List.flatMap_cons
    rw [hsplit] at hread ⊢
    have hread' : ∀ c ∈ piecesText ps, Spelling.Readable ε c := fun c hc =>
      hread c (List.mem_append_right _ hc)
    rw [textOf?_cons] at htext
    obtain ⟨c, hc, hmore⟩ := Option.bind_eq_some_iff.mp htext
    obtain ⟨t, hothers, rfl⟩ := Option.map_eq_some_iff.mp hmore
    rw [spell_append, List.append_assoc]
    by_cases hescape : p.IsEscape
    · -- the run before the escape is over, so the rest has none before it
      obtain ⟨ts, hrounds, hconcat⟩ := rounds_of_escape hbefore hp hescape hc final
        (spell (piecesText ps) ++ Element.ofAscii '"' :: rest)
      obtain ⟨ts', hrounds', hconcat'⟩ := ih hps' hread' hothers [] (by simp)
      refine ⟨ts ++ ts', hrounds.trans hrounds', ?_⟩
      rw [Text.concat, List.flatten_append, ← Text.concat, ← Text.concat, hconcat, hconcat',
        List.append_assoc]
      rfl
    · cases p with
      | plain d =>
        -- no stretch ends between two plain characters
        obtain rfl : d = c := Option.some.inj hc
        obtain ⟨ts, hrounds, hconcat⟩ := ih hps' hread' hothers (before ++ [d])
          fun c' hc' => by
            rcases List.mem_append.mp hc' with hc' | hc'
            · exact hbefore c' hc'
            · obtain rfl := List.mem_singleton.mp hc'
              exact ⟨hp, hread c' List.mem_cons_self⟩
        rw [spell_append, List.append_assoc] at hrounds
        exact ⟨ts, hrounds, by rw [hconcat, List.append_assoc]; rfl⟩
      | _ => exact absurd trivial hescape

/-- **A string is read as the text that it denotes.** -/
theorem stringText_of_pieces {ps : List Piece} {written : Text} (h : SpellsString ps written)
    (hread : ∀ c ∈ written, Spelling.Readable ε c) {t : Text} (htext : textOf? ps = some t)
    (final : Bool) (rest : List ε) :
    stringText.verdict final (spell written ++ rest) = .matched t rest := by
  obtain ⟨hps, rfl⟩ := h
  obtain ⟨ts, hrounds, rfl⟩ := rounds_of_pieces hps
    (fun c hc => hread c (List.mem_cons_of_mem _ (List.mem_append_left _ hc))) htext
    [] (by simp) final rest
  have hend : stretch.verdict final (Element.ofAscii '"' :: rest) = .rejected := by
    have hraw := raw_of_delimiter (ε := ε) (e := Element.ofAscii '"')
      (by simp [Element.piece, delimiters]) final rest
    have hescape : escape.verdict final (Element.ofAscii '"' :: rest) = .rejected :=
      bind_of_rejected _ (rejected_ascii_cons (by decide)
        (by rw [LawfulElement.code_ofAscii _ (by decide)]; decide))
    exact (alt_of_rejected _ hraw).trans (alt_of_rejected _ hescape)
  rw [spell_ofChar_append (by decide), spell_append, List.append_assoc,
    spell_ofChar_append (by decide)]
  refine matched_map.mpr ⟨ts, matched_bind.mpr ⟨_, _, matched_ascii.mpr ⟨rfl, rfl⟩,
    matched_bind.mpr ⟨ts, Element.ofAscii '"' :: rest, ?_,
      matched_map.mpr ⟨_, matched_ascii.mpr ⟨rfl, rfl⟩, rfl⟩⟩⟩, rfl⟩
  rw [verdict_repeatAny]
  exact Verdict.many_of_rounds (fun h => consumes_stretch h) hrounds hend

end StreamGrammar.Json
