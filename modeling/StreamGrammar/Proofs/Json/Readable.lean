import StreamGrammar.Proofs.Grammar.Readable
import StreamGrammar.Proofs.Json.Acceptance

/-!
# What is parsed as JSON is text

Nothing of the grammar decodes its input as a whole. Strings decode the stretches
between their escapes, and all else is made of ASCII characters. Since each part of
the grammar matches spelled text only, what is parsed is the spelling of one text,
and that text itself is parsed as the same value (`exists_text_of_parse`).
-/

namespace StreamGrammar.Json

open Grammar

variable {ε : Type} [Element ε] [Spelling ε]

theorem readable_of_blank {t : Text} (ht : IsBlank t) : ∀ c ∈ t, Spelling.Readable ε c := by
  intro c hc
  obtain ⟨b, hb, rfl⟩ := ht c hc
  exact Spelling.readable_of_lt _ (Element.lt_of_areAscii
    (show Element.areAscii Charset.jsonWhitespace = true by decide) b hb)

theorem readsText_blanks : (blanks : Grammar ε (List ε)).ReadsText := by
  refine .takeWhile fun e he => ?_
  obtain ⟨c, hc, rfl⟩ := List.mem_map.mp (isBlankElement_iff.mp he)
  have hlt := Element.lt_of_areAscii (show Element.areAscii Charset.jsonWhitespace = true by decide)
    c hc
  rwa [LawfulElement.code_ofAscii c hlt]

theorem readsText_spaced {α : Type} [Vacancy α] {p : Grammar ε α} (hp : p.ReadsText) :
    (spaced p).ReadsText :=
  readsText_blanks.between hp readsText_blanks

theorem readsText_hex4 : (hex4 : Grammar ε Nat).ReadsText := by
  intro final s rest code h
  obtain ⟨digits, hdigits, _, rfl⟩ := matched_hex4.mp h
  exact ⟨digits, fun c hc => Spelling.readable_of_lt c (hdigits.lt c hc), rfl⟩

theorem readsText_escape : (escape : Grammar ε Text).ReadsText := by
  have hunicode : (unicodeEscape : Grammar ε Text).ReadsText := by
    refine (readsText_hex4.bind fun code => ?_).judge _ _
    split
    · exact (((ReadsText.token (by decide)).bind fun _ => readsText_hex4).optional).map _
    · exact .succeed _
  have hletter : (simpleEscape : Grammar ε Text).ReadsText := (ReadsText.asciiOf (by decide)).map _
  exact (ReadsText.ascii (by decide)).bind fun _ =>
    (hletter.either ((ReadsText.ascii (by decide)).bind fun _ => hunicode)).halt _

theorem readsText_raw : (raw : Grammar ε Text).ReadsText := by
  intro final s rest t h
  obtain ⟨_, ht, rfl, _⟩ := matched_raw.mp h
  exact ⟨t, fun c hc => (ht c hc).2, rfl⟩

theorem readsText_stringText : (stringText : Grammar ε Text).ReadsText :=
  have hstretch : (eitherOf [raw, escape] : Grammar ε Text).ReadsText :=
    readsText_raw.alt (readsText_escape.alt .noAlternative)
  ((ReadsText.ascii (by decide)).between hstretch.repeatAny (.ascii (by decide))).map _

omit [Spelling ε] in
theorem lt_of_isDigit {e : ε} (h : Charset.isDigit (Element.code e) = true) :
    Element.code e < 0x80 := by
  simp only [Charset.isDigit, Bool.and_eq_true, decide_eq_true_eq] at h
  omega

theorem readsText_number : (number : Grammar ε Json).ReadsText := by
  have hdigits : (digits : Grammar ε (List ε)).ReadsText := .takeSomeWhile fun _ => lt_of_isDigit
  have hinteger : (integer : Grammar ε (List ε)).ReadsText :=
    ((ReadsText.ascii (by decide)).map _).either
      (((ReadsText.asciiOf (by decide)).bind fun _ =>
        (ReadsText.takeWhile fun _ => lt_of_isDigit).map _).map _)
  have hfraction : (optional (preceded (ascii '.') digits) : Grammar ε _).ReadsText :=
    ((ReadsText.ascii (by decide)).bind fun _ => hdigits).optional
  have hexponent : (optional ((serial3 (asciiOf ['e', 'E']) (optional (asciiOf ['+', '-']))
      digits).map fun v => v.2) : Grammar ε _).ReadsText :=
    (((ReadsText.asciiOf (by decide)).bind fun _ =>
      (ReadsText.asciiOf (by decide)).optional.bind fun _ => hdigits.map _).map _).optional
  exact ((ReadsText.ascii (by decide)).optional.bind fun _ => hinteger.bind fun _ =>
    hfraction.bind fun _ => hexponent.map _).judge _ _

theorem readsText_valueWith {inner : Grammar ε Json} (h : inner.ReadsText) :
    (valueWith inner).ReadsText :=
  (readsText_stringText.map _).alt <| readsText_number.alt <| h.alt <|
    ((ReadsText.token (by decide)).map _).alt <| ((ReadsText.token (by decide)).map _).alt <|
      ((ReadsText.token (by decide)).map _).alt .noAlternative

theorem readsText_container (limit levels : Nat) :
    (container limit levels : Grammar ε Json).ReadsText := by
  induction levels with
  | zero => exact ((ReadsText.asciiOf (by decide)).map _).judge _ _
  | succ levels ih =>
    have hitem := readsText_spaced (readsText_valueWith ih)
    have hclose : ∀ c : Char, c.toNat < 0x80 →
        (preceded blanks (ascii c) : Grammar ε ε).ReadsText := fun c hc =>
      readsText_blanks.bind fun _ => .ascii hc
    have hcomma : (ascii ',' : Grammar ε ε).ReadsText := .ascii (by decide)
    have hmember : (member (spaced (valueWith (container limit levels))) :
        Grammar ε (Text × Json)).ReadsText :=
      (readsText_spaced readsText_stringText).bind fun _ =>
        (ReadsText.ascii (by decide)).bind fun _ => hitem.map _
    have hobject : (objectOf (spaced (valueWith (container limit levels))) :
        Grammar ε Json).ReadsText :=
      ((ReadsText.ascii (by decide)).between (hcomma.separatedItems hmember)
        (hclose _ (by decide))).map _
    have harray : (arrayOf (spaced (valueWith (container limit levels))) :
        Grammar ε Json).ReadsText :=
      ((ReadsText.ascii (by decide)).between (hcomma.separatedItems hitem)
        (hclose _ (by decide))).map _
    exact hobject.alt (harray.alt .noAlternative)

/-- What is matched whole is spelled by characters that can be read back. -/
theorem readable_of_matched {limit : Nat} {written : Text} {v : Json}
    (h : (text limit : Grammar ε Json).verdict true (spell written) = .matched v []) :
    ∀ c ∈ written, Spelling.Readable ε c := by
  obtain ⟨t, ht, hs⟩ := readsText_spaced (readsText_valueWith (readsText_container _ _)) h
  rw [List.append_nil] at hs
  exact spell_injective hs ▸ ht

/-- **What is parsed is the spelling of a text** that can be read back. -/
theorem exists_text_of_parse {s : List ε} {maxDepth : Int} (h : 1 ≤ maxDepth) {v : Json}
    (hparse : parse s (some maxDepth) (some 0) = .ok v) :
    ∃ t : Text, (∀ c ∈ t, Spelling.Readable ε c) ∧ s = spell t ∧
      parse t (some maxDepth) (some 0) = .ok v := by
  obtain ⟨f, written, hf, hlevels, hvalue, rfl⟩ := form_of_parse h hparse
  rw [parse, resolveLimit_of_pos h] at hparse
  simp only [settings, parseAll_eq_ok_iff] at hparse
  have htext := parse_of_form (ε := CodePoint) h hf (fun _ _ => trivial) hlevels hvalue
  rw [spell_codePoint] at htext
  exact ⟨written, readable_of_matched hparse, rfl, htext⟩

end StreamGrammar.Json
