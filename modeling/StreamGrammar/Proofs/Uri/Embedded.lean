import StreamGrammar.Proofs.Uri.Parts
import StreamGrammar.Proofs.Uri.WellEscaped

/-!
# Request targets in the midst of a line

In the first line of a request the target is followed by a blank and the version, and
nobody has told where it ends. It is read there as it is on its own. No URI holds a
character that ends one, so every part of the grammar stops at such a character as it
does at the end of the text: a test does not let it through, a run of escapes does not go
on with it, and where an end is looked for it is one (`handsOn_stopsAt`). What comes after
it is not looked at, since decisions of the grammar are final: the target is settled as
soon as that character is seen, whether or not there will be more.
-/

namespace StreamGrammar.Uri

open Grammar

variable {mark : CodePoint}

/-- A character that ends a URI is no character of one. -/
theorem isUriChar_of_mark (hmark : Charset.isUriEnd mark.val = true) :
    isUriChar mark.val = false := by
  refine Bool.eq_false_iff.mpr fun huri => ?_
  rw [(isUriChar_spec huri).1] at hmark
  cases hmark

/-- **An escape is read in front of the mark** as it is at the end, and there is none where
no percent sign comes. -/
theorem escapedByte_stopsAt (hmark : mark.val ≠ 0x25) : escapedByte.StopsAt mark where
  guarded := ⟨trivial, fun _ => trivial⟩
  matched h := by
    obtain ⟨upper, upper', rfl⟩ := matched_escapedByte.mp h
    exact matched_escapedByte.mpr ⟨upper, upper', List.append_assoc ..⟩
  rejected {s} h := by
    refine bind_of_rejected _ (rejected_ascii (by decide) (by simp) ?_)
    cases s with
    | nil =>
      rintro _ ⟨⟩
      exact hmark
    | cons c s =>
      rintro _ ⟨⟩
      exact head_of_escapedByte_rejected h c rfl

/-- **To the grammars of URIs a mark that ends a URI is as good as the end.** -/
theorem handsOn_stopsAt (hmark : Charset.isUriEnd mark.val = true) :
    HandedOn fun _ p => p.StopsAt mark := by
  have hnot {test : CodePoint → Bool} (htest : ∀ c, test c = true → isUriChar c.val = true) :
      test mark = false := by
    refine Bool.eq_false_iff.mpr fun h => ?_
    have huri := htest mark h
    rw [isUriChar_of_mark hmark] at huri
    cases huri
  have hpercent : mark.val ≠ 0x25 := fun hval => by
    rw [hval] at hmark
    exact absurd hmark (by decide)
  exact
    { escapes := (escapedByte_stopsAt hpercent).repeatSome.judge _ _
      satisfy := fun what htest => .satisfy what (hnot htest)
      literal := fun hexpected => .literal fun hmem => by
        have huri := hexpected mark hmem
        rw [isUriChar_of_mark hmark] at huri
        cases huri
      takeWhile := fun htest => .takeWhile (hnot htest)
      takeSomeWhile := fun htest => .takeSomeWhile (hnot htest)
      ends := fun what hend => .ends what (hend mark hmark)
      noAlternative := .noAlternative
      map := fun f hp => hp.map f
      judge := fun refusal accept hp => hp.judge refusal accept
      bind := fun hp hn => hp.bind hn
      optional := fun hp => hp.optional
      alt := fun hp hq => hp.alt hq
      either := fun hp hq => hp.either hq
      repeatAny := fun hp => hp.repeatAny
      repeatSome := fun hp => hp.repeatSome
      separatedItems := fun hsep hp => hsep.separatedItems hp
      label := fun name hp => hp.label name }

/-- **A target in the midst of a line is read as it is on its own.** In front of a
character that is illegal in a URI and of whatever else, a text that is a request target
is matched as that target, and the remainder stands at the character. There may be more
to come or not. -/
theorem requestTarget_in_line {text : Text} {target : RequestTarget} {illegal : CodePoint}
    (h : parseRequestTarget text (some 0) = .ok target)
    (hillegal : Charset.isUriEnd illegal.val = true) (more : Text) :
    requestTarget.run (.streaming (text ++ illegal :: more)) =
        .matched target ((Cursor.streaming (text ++ illegal :: more)).advance text.length) ∧
      requestTarget.run (.complete (text ++ illegal :: more)) =
        .matched target ((Cursor.complete (text ++ illegal :: more)).advance text.length) := by
  have hstops : requestTarget.StopsAt illegal := (handsOn_stopsAt hillegal).requestTarget
  have hwhole : requestTarget.verdict true text = .matched target [] := parseAll_eq_ok_iff.mp h
  exact ⟨hstops.run_append final_requestTarget hwhole false more,
    hstops.run_append final_requestTarget hwhole true more⟩

/-- A path with a query, and behind it a blank and the version of the protocol. -/
theorem requestTarget_in_line_with_version :
    ∃ target, parseRequestTarget "/a?b=%C3%A9" (some 0) = .ok target ∧
      Charset.isUriEnd (CodePoint.ofChar ' ').val = true ∧
      requestTarget.run (.streaming "/a?b=%C3%A9 HTTP/1.1") =
        .matched target ((Cursor.streaming "/a?b=%C3%A9 HTTP/1.1").advance 11) ∧
      requestTarget.run (.complete "/a?b=%C3%A9 HTTP/1.1") =
        .matched target ((Cursor.complete "/a?b=%C3%A9 HTTP/1.1").advance 11) := by
  have hread : ∃ target, parseRequestTarget "/a?b=%C3%A9" (some 0) = .ok target :=
    ⟨_, by with_unfolding_all rfl⟩
  have hblank : Charset.isUriEnd (CodePoint.ofChar ' ').val = true := by decide
  obtain ⟨target, hread⟩ := hread
  exact ⟨target, hread, hblank, requestTarget_in_line hread hblank "HTTP/1.1"⟩

end StreamGrammar.Uri
