import StreamGrammar.Proofs.Answers
import StreamGrammar.Proofs.Grammar.Rejected
import StreamGrammar.Proofs.Uri.WellEscaped

/-!
# Decoding a component

The grammar of any component has three alternatives under a loop, and at every place in a
text exactly one of them is in charge: a percent sign commits to a run of escapes, a plus
sign is one, and every other character begins a run of characters that are neither. So
the loop is never left before the end of the text. Either it gets there, and then the
text was cut up into runs that tile it, or a run of escapes is malformed and the parse is
over. There is no text that is decoded in part, and none that is rejected.

That the loop cuts the text up as `Decoded` does is not quite so, since it takes characters
that stand for themselves as many at a time as it gets. One more of them in front makes
the first run longer, or is one by itself (`rounds_cons`).
-/

namespace StreamGrammar.Uri

open Grammar

/-- A part of any text: escapes, a plus sign, or characters as they are. -/
abbrev anyPart : TextGrammar Text :=
  eitherOf [percentEncoded, plusSign, otherThan (Element.piece ['%', '+'])]

variable {s rest part t : Text} {c : CodePoint}

theorem not_mem_marks_iff :
    c ∉ (Element.piece ['%', '+'] : Text) ↔ c.val ≠ 0x25 ∧ c.val ≠ 0x2B := by
  rw [Element.mem_piece_iff (by decide), Charset.isOneOf]
  simp only [List.any_cons, List.any_nil, Bool.or_false, Bool.or_eq_true, beq_iff_eq, not_or]
  exact and_congr ne_comm ne_comm

/-! ## One part -/

theorem consumes_anyPart : anyPart.Consumes :=
  consumes_alt consumes_percentEncoded (consumes_alt ((Consumes.satisfy _ _).map _)
    (consumes_alt (Consumes.otherThan _) consumes_noAlternative))

/-- A plus sign is read as a blank. -/
theorem anyPart_plus (hc : c.val = 0x2B) (s : Text) :
    anyPart.verdict true (c :: s) = .matched [CodePoint.ofChar ' '] s :=
  (alt_of_rejected _ (percentEncoded_of_ne (by omega) true s)).trans (alt_of_matched _
    (matched_map.mpr ⟨c, matched_ascii_cons (by decide) hc true s, rfl⟩))

/-- At a character that stands for itself a run of such characters is read. -/
theorem anyPart_plain (hc : c ∉ Element.piece ['%', '+']) (s : Text) :
    anyPart.verdict true (c :: s) =
      (alt (otherThan (Element.piece ['%', '+'])) noAlternative).verdict true (c :: s) := by
  obtain ⟨hpercent, hplus⟩ := not_mem_marks_iff.mp hc
  exact (alt_of_rejected _ (percentEncoded_of_ne hpercent true s)).trans
    (alt_of_rejected _ (plusSign_of_head (by rintro _ ⟨⟩; exact hplus)))

/-- Characters that stand for themselves can be put in front of what is decoded. -/
theorem Decoded.append_plain {run : Text} (hrun : ∀ c ∈ run, c ∉ Element.piece ['%', '+'])
    (h : Decoded rest t) : Decoded (run ++ rest) (run ++ t) := by
  induction run with
  | nil => exact h
  | cons c run ih =>
    obtain ⟨hc, hrun⟩ := List.forall_mem_cons.mp hrun
    obtain ⟨hpercent, hplus⟩ := not_mem_marks_iff.mp hc
    have hself : unescaped c = c := if_neg hplus
    have hdecoded := Decoded.plain hpercent (ih hrun)
    rwa [hself] at hdecoded

/-- **What is read is decoded**, in front of what is. -/
theorem decoded_of_anyPart (h : anyPart.verdict true s = .matched part rest)
    (hrest : Decoded rest t) : Decoded s (part ++ t) := by
  rcases matched_of_alt h with h | h
  · obtain ⟨bytes, e, rfl, he, hne, hchars, hhead⟩ := matched_percentEncoded.mp h
    exact .run he hne hchars hhead hrest
  rcases matched_of_alt h with h | h
  · obtain ⟨c, hc, rfl⟩ := matched_map.mp h
    obtain ⟨rfl, rfl⟩ := matched_ascii.mp hc
    exact .plain (by decide) hrest
  rcases matched_of_alt h with h | h
  · obtain ⟨-, rfl, hrun, -⟩ := matched_otherThan.mp h
    exact .append_plain hrun hrest
  · cases h

/-- **There is a part at every place but the end.** -/
theorem eq_nil_of_anyPart_rejected (h : anyPart.verdict true s = .rejected) : s = [] := by
  cases s with
  | nil => rfl
  | cons c s =>
    obtain ⟨hescapes, h⟩ := rejected_alt.mp h
    obtain ⟨hplus, h⟩ := rejected_alt.mp h
    obtain ⟨hothers, -⟩ := rejected_alt.mp h
    have hc : c ∉ Element.piece ['%', '+'] := by
      refine not_mem_marks_iff.mpr ⟨?_, fun hval => ?_⟩
      · rcases rejected_judge.mp hescapes with hescapes | ⟨hrefusal, -⟩
        · exact head_of_escapedByte_rejected (consumes_escapedByte.rejected_of_repeatSome hescapes) c rfl
        · cases hrefusal
      · have hmatched := matched_ascii_cons (a := '+') (by decide) hval true s
        rw [rejected_map.mp hplus] at hmatched
        cases hmatched
    rw [verdict_otherThan] at hothers
    simp [hc] at hothers

/-! ## All parts -/

theorem decoded_of_rounds {parts : List Text}
    (h : Verdict.Rounds (anyPart.verdict true) s parts []) : Decoded s (Text.concat parts) := by
  generalize hrest : ([] : Text) = rest at h
  induction h with
  | none s =>
    subst hrest
    exact .nil
  | more hround _ ih => exact decoded_of_anyPart hround (ih hrest)

/-- **One more character that stands for itself** makes the run in front longer, if there
is one, and else is a run. -/
theorem rounds_cons (hc : c ∉ Element.piece ['%', '+']) {parts : List Text}
    (h : Verdict.Rounds (anyPart.verdict true) s parts []) :
    ∃ parts', Verdict.Rounds (anyPart.verdict true) (c :: s) parts' [] ∧
      Text.concat parts' = c :: Text.concat parts := by
  by_cases hs : ∀ d ∈ s.head?, d ∈ Element.piece ['%', '+']
  · refine ⟨[c] :: parts, .more ?_ h, rfl⟩
    rw [anyPart_plain hc]
    refine alt_of_matched _ (matched_otherThan.mpr ⟨List.cons_ne_nil _ _, rfl,
      List.forall_mem_singleton.mpr hc, fun _ => rfl, fun d hd => ?_⟩)
    simpa using hs d hd
  · simp only [not_forall] at hs
    obtain ⟨d, hd, hplain⟩ := hs
    obtain ⟨s, rfl⟩ := List.head?_eq_some_iff.mp hd
    cases h with
    | @more _ middle _ part parts hround hmore =>
      rw [anyPart_plain hplain] at hround
      rcases matched_of_alt hround with hround | hnone
      · obtain ⟨-, heq, hrun, hhalts⟩ := matched_otherThan.mp hround
        refine ⟨(c :: part) :: parts, .more ?_ hmore, rfl⟩
        rw [anyPart_plain hc, heq]
        exact alt_of_matched _ (matched_otherThan.mpr ⟨List.cons_ne_nil _ _, rfl,
          List.forall_mem_cons.mpr ⟨hc, hrun⟩, hhalts⟩)
      · cases hnone

theorem rounds_of_decoded (h : Decoded s t) :
    ∃ parts, Verdict.Rounds (anyPart.verdict true) s parts [] ∧ Text.concat parts = t := by
  induction h with
  | nil => exact ⟨[], .none _, rfl⟩
  | @plain c s t hc _ ih =>
    obtain ⟨parts, hrounds, rfl⟩ := ih
    by_cases hplus : c.val = 0x2B
    · refine ⟨[CodePoint.ofChar ' '] :: parts, .more (anyPart_plus hplus s) hrounds, ?_⟩
      rw [unescaped, if_pos hplus]
      rfl
    · rw [unescaped, if_neg hplus]
      exact rounds_cons (not_mem_marks_iff.mpr ⟨hc, hplus⟩) hrounds
  | run he hne hchars hs _ ih =>
    obtain ⟨parts, hrounds, rfl⟩ := ih
    exact ⟨_ :: parts, .more (alt_of_matched _ (matched_percentEncoded.mpr
      ⟨_, _, rfl, he, hne, hchars, hs⟩)) hrounds, rfl⟩

theorem anyPart_nil : anyPart.verdict true [] = .rejected :=
  rejected_alt.mpr ⟨percentEncoded_of_head (by simp), rejected_alt.mpr
    ⟨plusSign_of_head (by simp), rejected_alt.mpr ⟨by rw [verdict_otherThan]; simp, rfl⟩⟩⟩

/-- **What any component matches is all of the text**, as it is decoded. -/
theorem matched_anyComponent :
    anyComponent.verdict true s = .matched t rest ↔ rest = [] ∧ Decoded s t := by
  rw [anyComponent, matched_map]
  simp only [verdict_repeatAny]
  constructor
  · rintro ⟨parts, hmany, rfl⟩
    obtain rfl := eq_nil_of_anyPart_rejected
      (Verdict.rejected_of_many (fun h => consumes_anyPart h) hmany)
    exact ⟨rfl, decoded_of_rounds (Verdict.rounds_of_many hmany)⟩
  · rintro ⟨rfl, h⟩
    obtain ⟨parts, hrounds, hconcat⟩ := rounds_of_decoded h
    exact ⟨parts, Verdict.many_of_rounds (fun h => consumes_anyPart h) hrounds anyPart_nil, hconcat⟩

/-- **Any component is decoded or fails for good.** -/
theorem anyComponent_of_not_decoded (h : ∀ t, ¬Decoded s t) :
    anyComponent.verdict true s = .fatal := by
  rcases guarded_anyComponent.concludes.cases s with ⟨t, rest, hv⟩ | hv | hv
  · exact absurd (matched_anyComponent.mp hv).2 (h t)
  · exact absurd (rejected_map.mp hv) repeatAny_ne_rejected
  · exact hv

/-! ## What was written is decoded -/

/-- **The escapes of a character in front** are one run with those that follow. -/
theorem Decoded.append_escaped (hc : c.isSurrogate = false) {e : Text}
    (he : Escapes (Utf8.encodeOne c) e) (h : Decoded s t) : Decoded (e ++ s) (c :: t) := by
  have hone : Utf8.decode (Utf8.encodeOne c) = .ok [c] :=
    Utf8.decode_eq_ok_iff.mpr ⟨(List.append_nil _).symm, List.forall_mem_singleton.mpr hc⟩
  cases h with
  | nil => exact .run he (Utf8.encodeOne_ne_nil c) hone nofun .nil
  | plain hd h =>
    exact .run he (Utf8.encodeOne_ne_nil c) hone (by rintro _ ⟨⟩; exact hd) (.plain hd h)
  | run he' hne hchars hs h =>
    obtain ⟨rfl, hencodable⟩ := Utf8.decode_eq_ok_iff.mp hchars
    rw [← List.append_assoc]
    refine .run (he.append he') (List.append_ne_nil_of_left_ne_nil (Utf8.encodeOne_ne_nil c) _)
      (Utf8.decode_eq_ok_iff.mpr ⟨?_, List.forall_mem_cons.mpr ⟨hc, hencodable⟩⟩) hs h
    rfl

/-- **What was written for a text decodes to it**, whichever characters stand for
themselves, if percent signs and plus signs do not. -/
theorem Decoded.of_written {itself : Nat → Bool} (hpercent : itself 0x25 = false)
    (hplus : itself 0x2B = false) (h : Written itself t s) : Decoded s t := by
  induction h with
  | nil => exact .nil
  | @plain c t s hc _ ih =>
    have hapart {n : Nat} (hn : itself n = false) : c.val ≠ n := fun hval => by
      rw [hval, hn] at hc
      cases hc
    have hself : unescaped c = c := if_neg (hapart hplus)
    have hdecoded := Decoded.plain (hapart hpercent) ih
    rwa [hself] at hdecoded
  | escaped hc he _ ih => exact ih.append_escaped hc he

/-! ## Decoding -/

theorem decodeComponent_eq_ok_iff : decodeComponent s (some 0) = .ok t ↔ Decoded s t := by
  refine parseAll_eq_ok_iff.trans ?_
  rw [matched_anyComponent]
  exact and_iff_right rfl

/-- **Decoding a component is percent-decoding.** It gives a value exactly if the escapes of
the text are in order, and the value is what the text decodes to; everything else is a
fatal failure of decoding. In particular it inverts whatever was written for a text, with
percent signs and plus signs escaped. -/
theorem decodeComponent_decodes (text : Text) :
    ((∃ value, decodeComponent text (some 0) = .ok value) ↔ WellEscaped text) ∧
      (∀ value, decodeComponent text (some 0) = .ok value ↔ Decoded text value) ∧
      (∀ failure, decodeComponent text (some 0) = .error failure →
        ∃ reason, failure = .parse (.diagnosed (.percentDecodingFailed reason)) reason true) ∧
      ∀ (itself : Nat → Bool) (written : Text), itself 0x25 = false → itself 0x2B = false →
        Written itself text written → decodeComponent written (some 0) = .ok text := by
  refine ⟨?_, fun value => decodeComponent_eq_ok_iff, fun failure h => ?_,
    fun itself written hpercent hplus h =>
      decodeComponent_eq_ok_iff.mpr (.of_written hpercent hplus h)⟩
  · rw [wellEscaped_iff]
    exact exists_congr fun value => decodeComponent_eq_ok_iff
  · have hnot (t : Text) : ¬Decoded text t := fun hdecoded => by
      rw [decodeComponent_eq_ok_iff.mpr hdecoded] at h
      cases h
    obtain ⟨reason, hfatal⟩ := parseAll_of_fatal
      (fun reason _ => Diagnostic.percentDecodingFailed reason) (anyComponent_of_not_decoded hnot)
    exact ⟨reason, Except.error.inj (h.symm.trans hfatal)⟩

/-- A character of two bytes and a blank, as they are written in upper case, and a text in
which an escape is cut off. -/
theorem decodeComponent_decodes_two_bytes :
    (write true "é x" = "%C3%A9%20x" ∧ decodeComponent "%C3%A9%20x" (some 0) = .ok "é x" ∧
        WellEscaped "%C3%A9%20x" ∧ Decoded "%C3%A9%20x" "é x") ∧
      ∃ reason, decodeComponent "%C3x%A" (some 0) =
        .error (.parse (.diagnosed (.percentDecodingFailed reason)) reason true) := by
  have hwrite : write true "é x" = "%C3%A9%20x" := by decide +kernel
  have hwritten : Written isPlain "é x" "%C3%A9%20x" := hwrite ▸ written_write true (by decide)
  have hread : decodeComponent "%C3%A9%20x" (some 0) = .ok "é x" :=
    (decodeComponent_decodes "é x").2.2.2 isPlain _ rfl rfl hwritten
  have hfails : ∃ failure, decodeComponent "%C3x%A" (some 0) = .error failure :=
    ⟨_, by with_unfolding_all rfl⟩
  refine ⟨⟨hwrite, hread, (decodeComponent_decodes _).1.mp ⟨_, hread⟩,
    ((decodeComponent_decodes _).2.1 _).mp hread⟩, ?_⟩
  obtain ⟨failure, hfailure⟩ := hfails
  obtain ⟨reason, rfl⟩ := (decodeComponent_decodes "%C3x%A").2.2.1 failure hfailure
  exact ⟨reason, hfailure⟩

end StreamGrammar.Uri
