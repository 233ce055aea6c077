import StreamGrammar.Proofs.Json.Lockstep
import StreamGrammar.Proofs.Json.Readable

/-!
# JSON in bytes and in text

JSON comes as text or as bytes that encode one, and it is the same JSON: bytes are
parsed if they encode a text that is parsed, as the same value, and where they encode
a text that is not parsed the failures are of the same kind. What is parsed need not
be looked at again, as it is the spelling of a text. What is not parsed is followed
through the grammar in both alphabets at once (`parse_alike`), and the conclusion that
a failed run is given depends on whether it was fatal, on whether anything was left to
read, and on whether its reason tells depth.
-/

namespace StreamGrammar.Json

open Grammar

variable {ε : Type} [Element ε] [Spelling ε]

section Rejections

variable {α β : Type} {p q : Grammar ε α} {c : Cursor ε} {reason : Reason}

omit [Spelling ε] in
/-- A choice rejects for the reason of its last alternative. -/
theorem rejected_of_alt (h : (alt p q).run c = .rejected reason) :
    q.run c = .rejected reason := by
  simp only [run, Choice.alt] at h
  cases hp : p.run c with
  | rejected first =>
    rw [hp] at h
    exact h
  | truncated best past =>
    rw [hp] at h
    cases hq : q.run c <;> (rw [hq] at h; cases h)
  | _ =>
    rw [hp] at h
    cases h

omit [Spelling ε] in
theorem rejected_of_bind {next : α → Grammar ε β} (h : (bind p next).run c = .rejected reason) :
    p.run c = .rejected reason ∨
      ∃ v past, p.run c = .matched v past ∧ (next v).run past = .rejected reason := by
  simp only [run] at h
  cases hp : p.run c with
  | matched v past =>
    rw [hp] at h
    dsimp only at h
    split at h
    · cases h
    · exact .inr ⟨v, past, rfl, h⟩
  | rejected first =>
    rw [hp] at h
    cases h
    exact .inl rfl
  | _ =>
    rw [hp] at h
    cases h

omit [Spelling ε] in
theorem blanks_ne_rejected : (blanks : Grammar ε (List ε)).run c ≠ .rejected reason := by
  simp only [blanks, run, runTakeWhile]
  split <;> (intro h; cases h)

omit [Spelling ε] in
/-- **A text that is no JSON is not told to nest too deep** unless it does: where no
kind of value begins, that is the reason. -/
theorem not_tellsDepth_of_rejected {limit : Nat}
    (h : (text limit : Grammar ε Json).run c = .rejected reason) : ¬TellsDepth reason := by
  rcases rejected_of_bind h with h | ⟨_, past, _, h⟩
  · exact absurd h blanks_ne_rejected
  rcases rejected_of_bind h with h | ⟨v, stop, _, h⟩
  · have hlast := rejected_of_alt (rejected_of_alt (rejected_of_alt (rejected_of_alt
      (rejected_of_alt (rejected_of_alt h)))))
    cases hlast
    refine (tame_of_avoids (avoids_concat_cons.mpr ⟨by decide, avoids_concat_cons.mpr
      ⟨avoids_decimal _, avoids_concat_nil⟩⟩)).lacks_phrase
  · simp only [run] at h
    cases hblanks : (blanks : Grammar ε (List ε)).run stop with
    | rejected first => exact absurd hblanks blanks_ne_rejected
    | truncated best past => rw [hblanks] at h; cases best <;> cases h
    | _ => rw [hblanks] at h; cases h

end Rejections

/-- The outline of a text that cannot be parsed. -/
def refused (code : DiagnosticCode) (fatal : Bool) : Failure.Outline :=
  { kind := .parse, code := some code, fatal := some fatal }

section Conclusions

variable {maxDepth : Int} {s : List ε} {reason : Reason}

omit [Spelling ε] in
theorem parse_of_matched (h : 1 ≤ maxDepth) {v : Json} {past : Cursor ε}
    (hrun : (text (min maxDepth 47).toNat).run (.complete s) = .matched v past) :
    parse s (some maxDepth) (some 0) =
      if past.atEnd then .ok v
      else .error (.parse (.diagnosed (.trailingInput past.toSpan))
        (Diagnostic.trailingInput past.toSpan).message false) := by
  rw [parse, resolveLimit_of_pos h]
  simp only [parseAll, settings, Limits.resolve, Limits.checkSourceSize, hrun]
  cases past.atEnd <;> rfl

omit [Spelling ε] in
/-- A run that gives a reason, fatal or not, is a failed parse. -/
theorem parse_of_reason (h : 1 ≤ maxDepth) (fatal : Bool)
    (hrun : (text (min maxDepth 47).toNat : Grammar ε Json).run (.complete s) =
      if fatal then .fatal reason else .rejected reason) :
    ∃ failure, parse s (some maxDepth) (some 0) = .error failure ∧ failure.outline =
      refused (template (min maxDepth 47).toNat reason.text none).code fatal := by
  refine ⟨.parse (.diagnosed (template (min maxDepth 47).toNat reason.text none)) reason.text fatal,
    ?_, rfl⟩
  rw [parse, resolveLimit_of_pos h]
  simp only [parseAll, settings, Limits.resolve, Limits.checkSourceSize, hrun]
  cases fatal <;> rfl

instance (reason : Reason) : Decidable (TellsDepth reason) :=
  inferInstanceAs (Decidable (depthPhrase <:+: reason.text))

/-- The code of a failure depends on whether its reason tells depth, and on nothing
else. -/
theorem code_template (limit : Nat) (reason : Reason) :
    (template limit reason.text none).code =
      if TellsDepth reason then .jsonDepthExceeded else .jsonInvalid := by
  by_cases h : TellsDepth reason
  · rw [template, if_pos (Text.isInfix_iff.mpr h), if_pos h]
    rfl
  · rw [template, if_neg (mt Text.isInfix_iff.mp h), if_neg h]
    rfl

end Conclusions

/-- **The same text is parsed in both alphabets or fails in both**, and the failures
have the same code and are both fatal or both not. -/
theorem parse_alike (hε : ShowsPlainly ε) {t : Text} (ht : ∀ c ∈ t, Spelling.Readable ε c)
    {maxDepth : Int} (h : 1 ≤ maxDepth) :
    (∃ v w, parse (spell t : List ε) (some maxDepth) (some 0) = .ok v ∧
        parse t (some maxDepth) (some 0) = .ok w) ∨
      ∃ failure failure' code fatal,
        parse (spell t : List ε) (some maxDepth) (some 0) = .error failure ∧
          parse t (some maxDepth) (some 0) = .error failure' ∧
            failure.outline = refused code fatal ∧ failure'.outline = refused code fatal := by
  have halike : Alike TellsDepth (fun _ _ => True)
      ((text (min maxDepth 47).toNat).run (.complete (spell t : List ε)))
      ((text (min maxDepth 47).toNat).run (.complete t)) :=
    agrees_spaced (agrees_valueWith hε (agrees_container hε _ _)) (abreast_complete ht)
  generalize hrun : (text (min maxDepth 47).toNat).run (.complete (spell t : List ε)) = o at halike
  generalize hrun' : (text (min maxDepth 47).toNat).run (.complete t) = o' at halike
  cases halike with
  | @matched v w past past' _ hplace =>
    rw [parse_of_matched h hrun, parse_of_matched h hrun', hplace.atEnd_eq]
    cases past'.atEnd with
    | true => exact .inl ⟨v, w, rfl, rfl⟩
    | false => exact .inr ⟨_, _, .trailingInput, false, rfl, rfl, rfl, rfl⟩
  | rejected reason reason' =>
    obtain ⟨failure, hfail, houtline⟩ := parse_of_reason h false hrun
    obtain ⟨failure', hfail', houtline'⟩ := parse_of_reason h false hrun'
    rw [code_template, if_neg (not_tellsDepth_of_rejected hrun)] at houtline
    rw [code_template, if_neg (not_tellsDepth_of_rejected hrun')] at houtline'
    exact .inr ⟨failure, failure', _, _, hfail, hfail', houtline, houtline'⟩
  | @fatal reason reason' hspecial =>
    obtain ⟨failure, hfail, houtline⟩ := parse_of_reason h true hrun
    obtain ⟨failure', hfail', houtline'⟩ := parse_of_reason h true hrun'
    rw [code_template] at houtline houtline'
    simp only [← hspecial] at houtline'
    exact .inr ⟨failure, failure', _, _, hfail, hfail', houtline, houtline'⟩

/-- **Bytes are parsed exactly as the text that they encode**: as the same value if
that text is parsed, and they are not parsed if they encode none. If the text is not
parsed, neither are the bytes, and both failures have the same code and are both
fatal or both not. -/
theorem parse_bytes_iff_text (b : Bytes) (maxDepth : Int) (h : 1 ≤ maxDepth) :
    (∀ v, parse b (some maxDepth) (some 0) = .ok v ↔
        ∃ t, Utf8.decode b = .ok t ∧ parse t (some maxDepth) (some 0) = .ok v) ∧
      ∀ t, Utf8.decode b = .ok t →
        ((∃ failure, parse b (some maxDepth) (some 0) = .error failure) ∨
          ∃ failure, parse t (some maxDepth) (some 0) = .error failure) →
        ∃ failure failure' code fatal,
          parse b (some maxDepth) (some 0) = .error failure ∧
            parse t (some maxDepth) (some 0) = .error failure' ∧
              failure.outline = refused code fatal ∧ failure'.outline = refused code fatal := by
  refine ⟨fun v => ⟨fun hparse => ?_, ?_⟩, fun t hdecode hfails => ?_⟩
  · obtain ⟨t, ht, rfl, htext⟩ := exists_text_of_parse h hparse
    exact ⟨t, Utf8.decode_eq_ok_iff.mpr ⟨rfl, ht⟩, htext⟩
  · rintro ⟨t, hdecode, htext⟩
    obtain ⟨rfl, ht⟩ := Utf8.decode_eq_ok_iff.mp hdecode
    obtain ⟨f, written, hf, hlevels, hvalue, hs⟩ := form_of_parse h htext
    rw [spell_codePoint] at hs
    exact parse_of_form (ε := UInt8) h (hs ▸ hf) ht hlevels hvalue
  · obtain ⟨rfl, ht⟩ := Utf8.decode_eq_ok_iff.mp hdecode
    rcases parse_alike (ε := UInt8) showsPlainly_uint8 ht h with ⟨v, w, hv, hw⟩ | hboth
    · rw [spell_uint8] at hv
      rcases hfails with ⟨failure, hfail⟩ | ⟨failure, hfail⟩
      · rw [hfail] at hv
        cases hv
      · rw [hfail] at hw
        cases hw
    · exact hboth

/-- An escape with three digits and a letter of two bytes, the first of which is the
fourth element after the escape in bytes. -/
theorem parse_bytes_iff_text_cut_letter :
    let t := Text.ofChars ['"', '\\', 'u', '1', '2', '3', 'é', '"']
    (1 ≤ (1 : Int) ∧ Utf8.decode (Utf8.encode t) = .ok t ∧
        ∃ failure, parse t (some 1) (some 0) = .error failure) ∧
      ∃ failure failure' code fatal,
        parse (Utf8.encode t) (some 1) (some 0) = .error failure ∧
          parse t (some 1) (some 0) = .error failure' ∧
            failure.outline = refused code fatal ∧ failure'.outline = refused code fatal := by
  intro t
  have hread : ∀ c ∈ t, c.isSurrogate = false := by decide
  have hdecode : Utf8.decode (Utf8.encode t) = .ok t := Utf8.decode_eq_ok_iff.mpr ⟨rfl, hread⟩
  have hfails : ∃ failure, parse t (some 1) (some 0) = .error failure := by
    have hnone : (parse t (some 1) (some 0)).toOption = none := by decide +kernel
    cases hparse : parse t (some 1) (some 0) with
    | error failure => exact ⟨failure, rfl⟩
    | ok v => rw [hparse] at hnone; cases hnone
  exact ⟨⟨by decide, hdecode, hfails⟩,
    (parse_bytes_iff_text (Utf8.encode t) 1 (by decide)).2 t hdecode (.inr hfails)⟩

end StreamGrammar.Json
