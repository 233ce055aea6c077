import Mathlib.Data.List.DropRight
import StreamGrammar.Proofs.Grammar.Matched
import StreamGrammar.Proofs.Text.Utf8
import StreamGrammar.Text.Lowercase

/-!
# ASCII text

ASCII text is its own UTF-8, one byte for each character, and the two ways to
take it to lower case are one: neither the letters outside ASCII nor the end of
a word matter. A word is cut off at the first of some characters, and as these
are ASCII the bytes show the cut as well as the text does.
-/

namespace StreamGrammar

/-- All characters of a text are ASCII. -/
def Text.IsAscii (t : Text) : Prop := ∀ c ∈ t, c.val < 0x80

/-- **None of some characters occurs in a text.** -/
def Text.Avoids (t : Text) (chars : List Char) : Prop :=
  ∀ c ∈ t, Charset.isOneOf chars c.val = false

instance (t : Text) : Decidable t.IsAscii := inferInstanceAs (Decidable (∀ c ∈ t, c.val < 0x80))

instance (t : Text) (chars : List Char) : Decidable (t.Avoids chars) :=
  inferInstanceAs (Decidable (∀ c ∈ t, Charset.isOneOf chars c.val = false))

variable {chars : List Char} {t : Text}

/-- The elements of a text show whether an ASCII character occurs in it. -/
theorem spell_avoids {ε : Type} [Element ε] [Spelling ε] (h : Element.areAscii chars = true) :
    (∀ e ∈ (spell t : List ε), e ∉ (Element.piece chars : List ε)) ↔ t.Avoids chars := by
  have hone : ∀ c : CodePoint, (∀ e ∈ (Spelling.spellOne c : List ε),
      Charset.isOneOf chars (Element.code e) = false) ↔ Charset.isOneOf chars c.val = false := by
    intro c
    by_cases hc : c.val < 0x80
    · obtain ⟨e, he, hcode⟩ := Spelling.spellOne_of_lt (ε := ε) c hc
      simp only [he, List.mem_singleton, forall_eq, hcode]
    · -- past ASCII neither the character nor any of its elements is one of them
      have hpast : ∀ n, 0x80 ≤ n → Charset.isOneOf chars n = false := fun n hn =>
        Element.isOneOf_of_le h hn
      exact ⟨fun _ => hpast _ (by omega),
        fun _ e he => hpast _ (Spelling.le_code_of_mem c e (by omega) he)⟩
  simp only [Element.mem_piece_iff h, Bool.not_eq_true, Text.Avoids, ← hone, spell,
    List.mem_flatMap]
  exact ⟨fun ht c hc e he => ht e ⟨c, hc, he⟩, fun ht e ⟨c, hc, he⟩ => ht c hc e he⟩

/-- A text that is not empty takes some bytes. -/
theorem Utf8.encode_eq_nil_iff : Utf8.encode t = [] ↔ t = [] := spell_eq_nil_iff (ε := UInt8)

/-! ## Reading ASCII -/

namespace Ascii

theorem decodeFrom_eq_ok_iff {bytes : Bytes} {position : Nat} {read : List CodePoint} :
    decodeFrom position read bytes = .ok t ↔
      ∃ u : Text, t = read.reverse ++ u ∧ bytes = Utf8.encode u ∧ u.IsAscii := by
  induction bytes generalizing position read with
  | nil =>
    rw [decodeFrom, Except.ok.injEq]
    constructor
    · rintro rfl
      exact ⟨[], by simp, rfl, nofun⟩
    · rintro ⟨u, rfl, hbytes, _⟩
      rw [Utf8.encode_eq_nil_iff.mp hbytes.symm, List.append_nil]
  | cons b rest ih =>
    have hcons : ∀ (c : CodePoint) (u : Text), c.val < 0x80 →
        Utf8.encode (c :: u) = UInt8.ofNat c.val :: Utf8.encode u := fun c u hc => by
      rw [Utf8.encode, List.flatMap_cons, Utf8.encodeOne_one hc]
      rfl
    rw [decodeFrom]
    split
    · rename_i hb
      have hval : (CodePoint.ofNat b.toNat).val = b.toNat := CodePoint.val_ofNat (by omega)
      have hbyte : UInt8.ofNat b.toNat = b := by simp
      rw [ih]
      constructor
      · rintro ⟨u, rfl, rfl, hu⟩
        refine ⟨CodePoint.ofNat b.toNat :: u, by simp, ?_, ?_⟩
        · rw [hcons _ u (by omega), hval, hbyte]
        · exact List.forall_mem_cons.mpr ⟨by omega, hu⟩
      · rintro ⟨u, rfl, hbytes, hu⟩
        cases u with
        | nil => cases hbytes
        | cons c u =>
          obtain ⟨hc, hu⟩ := List.forall_mem_cons.mp hu
          rw [hcons c u hc] at hbytes
          obtain ⟨rfl, rfl⟩ := List.cons.inj hbytes
          refine ⟨u, ?_, rfl, hu⟩
          rw [Utf8.toNat_ofNat_of_lt (by omega), CodePoint.ofNat_val]
          simp
    · rename_i hb
      refine ⟨nofun, ?_⟩
      rintro ⟨u, rfl, hbytes, hu⟩
      cases u with
      | nil => cases hbytes
      | cons c u =>
        have hc := hu c List.mem_cons_self
        rw [hcons c u hc] at hbytes
        obtain ⟨rfl, rfl⟩ := List.cons.inj hbytes
        rw [Utf8.toNat_ofNat_of_lt (by omega)] at hb
        exact absurd hc hb

/-- **Bytes are read as an ASCII text exactly if they are its encoding.** -/
theorem decode_eq_ok_iff {bytes : Bytes} :
    decode bytes = .ok t ↔ bytes = Utf8.encode t ∧ t.IsAscii := by
  rw [decode, decodeFrom_eq_ok_iff]
  simp

end Ascii

/-! ## Lower case -/

namespace Text

/-- Of the letters that have a lower case, A to Z are the only ones in ASCII. -/
theorem lowerNat_of_lt {n : Nat} (hn : n < 0x80) :
    LetterCase.lowerNat n = if 0x41 ≤ n ∧ n ≤ 0x5A then n + 32 else n := by
  have hruns : LetterCase.lowerRuns = ⟨0x41, 0x5A, 1, 32⟩ :: LetterCase.lowerRuns.tail := rfl
  have hothers : ∀ r ∈ LetterCase.lowerRuns.tail, 0x80 ≤ r.first :=
    forall_mem_of_all (by decide)
  have hnone : LetterCase.lowerRuns.tail.find? (·.covers n) = none := by
    refine List.find?_eq_none.mpr fun r hr hcovers => ?_
    have := hothers r hr
    simp only [LetterCase.Run.covers, Bool.and_eq_true, decide_eq_true_eq] at hcovers
    omega
  rw [LetterCase.lowerNat, hruns, List.find?_cons, hnone]
  simp only [LetterCase.Run.covers, Nat.mod_one, beq_self_eq_true, Bool.and_true]
  by_cases hletter : 0x41 ≤ n ∧ n ≤ 0x5A
  · simp only [hletter, decide_true, Bool.and_self, and_self, if_true]
    omega
  · have hfalse : (decide (0x41 ≤ n) && decide (n ≤ 0x5A)) = false := by simpa using hletter
    rw [hfalse, if_neg hletter]

/-- The lower case of one ASCII character. -/
theorem lowerOne_of_lt {c : CodePoint} (hc : c.val < 0x80) :
    LetterCase.lowerOne c = [asciiLowerOne c] := by
  simp only [LetterCase.lowerOne, asciiLowerOne, Bool.and_eq_true, decide_eq_true_eq]
  split
  · rw [if_neg (by omega)]
  · rw [if_neg (by omega), lowerNat_of_lt hc]
    split
    · rfl
    · rw [CodePoint.ofNat_val]

/-- **ASCII text has one lower case only.** -/
theorem lower_of_isAscii (h : t.IsAscii) : t.lower = t.asciiLower := by
  have hfrom : ∀ (before done : Text), lowerFrom before done t = done.reverse ++ t.asciiLower := by
    induction t with
    | nil => intro before done; simp [lowerFrom, asciiLower]
    | cons c t ih =>
      intro before done
      obtain ⟨hc, ht⟩ := List.forall_mem_cons.mp h
      have hsigma : (decide (c.val = 0x3A3)) = false := by simp; omega
      rw [lowerFrom, hsigma]
      simp only [Bool.false_and, Bool.false_eq_true, if_false]
      rw [ih ht, lowerOne_of_lt hc]
      simp [asciiLower]
  exact hfrom [] []

/-- A letter case of ASCII text is ASCII text. -/
theorem isAscii_of_asciiLower (h : t.asciiLower.IsAscii) : t.IsAscii := by
  intro c hc
  have := h _ (List.mem_map_of_mem hc)
  rw [asciiLowerOne] at this
  split at this
  · rename_i hcase
    simp only [Bool.and_eq_true, decide_eq_true_eq] at hcase
    omega
  · exact this

theorem IsAscii.asciiLower (h : t.IsAscii) : t.asciiLower.IsAscii := by
  intro d hd
  obtain ⟨c, hc, rfl⟩ := List.mem_map.mp hd
  have := h c hc
  rw [asciiLowerOne]
  split
  · rename_i hcase
    simp only [Bool.and_eq_true, decide_eq_true_eq] at hcase
    rw [CodePoint.val_ofNat (by omega)]
    omega
  · exact this

/-! ## Blanks at the ends -/

/-- A space or a tab. -/
def IsBlank (c : CodePoint) : Prop := c.val = 0x20 ∨ c.val = 0x09

/-- **A trimmed text has lost blanks, and only at its ends.** -/
theorem trimBlanks_spec (t : Text) :
    ∃ before after : Text, t = before ++ (t.trimBlanks ++ after) ∧
      (∀ c ∈ before, IsBlank c) ∧ (∀ c ∈ after, IsBlank c) ∧
      (∀ c ∈ t.trimBlanks.head?, ¬IsBlank c) ∧ ∀ c ∈ t.trimBlanks.getLast?, ¬IsBlank c := by
  let isBlank : CodePoint → Bool := fun c => c.val == 32 || c.val == 9
  have hblank : ∀ c : CodePoint, isBlank c = true ↔ IsBlank c := by simp [isBlank, IsBlank]
  -- what is left after the first pass, and of that after the second
  obtain ⟨hs, hbefore, hhead⟩ := (Grammar.longest_run_iff isBlank t _ _).mp ⟨rfl, rfl⟩
  have htrim : t.trimBlanks = (t.dropWhile isBlank).rdropWhile isBlank := rfl
  have hsplit : (t.dropWhile isBlank).rdropWhile isBlank ++
      (t.dropWhile isBlank).rtakeWhile isBlank = t.dropWhile isBlank :=
    List.rdropWhile_append_rtakeWhile
  rw [htrim]
  refine ⟨t.takeWhile isBlank, (t.dropWhile isBlank).rtakeWhile isBlank, ?_, ?_, ?_, ?_, ?_⟩
  · rw [hsplit, ← hs]
  · exact fun c hc => (hblank c).mp (hbefore c hc)
  · exact fun c hc => (hblank c).mp (List.mem_rtakeWhile_imp hc)
  · intro c hc hb
    have hfirst : c ∈ (t.dropWhile isBlank).head? := by
      rw [← hsplit, List.head?_append, Option.mem_def.mp hc]
      rfl
    exact Bool.eq_false_iff.mp (hhead c hfirst) ((hblank c).mpr hb)
  · intro c hc hb
    obtain ⟨hne, rfl⟩ := List.mem_getLast?_eq_getLast hc
    exact List.rdropWhile_last_not _ _ hne ((hblank _).mpr hb)

end Text

end StreamGrammar
