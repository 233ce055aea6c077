import StreamGrammar.Proofs.Grammar.Persistence

/-!
# When the decision of a choice is final

A reader stops at the first refusal, since bytes that are appended cannot mend
one. Of choices this is not true. Where an alternative was cut short, another
one decides with less than the whole before it, and what it decides need not
last: `either` lets the second alternative refuse, and `eitherOf` lets a later
one match, though more input might have been a match of the one that was cut
short.

That is all that can go wrong. A decision made after every alternative tried
before has rejected is as final as the decisions of the alternatives. So a match
of `either` is always final, since the rule demotes any other, and so is a
rejection of `eitherOf`, which remembers what was cut short. And a rejection of
`either` that does not last gives way to nothing but its first alternative.

The parsers here are any at all. What they make of two places, one in a source
and one in a longer source, is all that a choice between them depends on.
-/

namespace StreamGrammar

variable {ε α β : Type}

namespace Choice

variable {now later : Cursor ε}

/-! ## Two parsers -/

section Either

variable [Vacancy α] {p q : Parser ε α}

/-- **Unless the first parser was cut short without a partial result**, what
`either` decides persists where the decisions of both parsers do. -/
theorem either_persists (hp : (p now).Persists (p later)) (hq : (q now).Persists (q later))
    (h : ∀ rest, p now ≠ .truncated none rest) :
    (either p q now).Persists (either p q later) := by
  unfold either
  cases hnow : p now with
  | matched value rest =>
    obtain ⟨rest', hlater, hpos⟩ := hp.of_matched hnow
    rw [hlater]
    exact ⟨rest', rfl, hpos⟩
  | rejected reason =>
    obtain ⟨reason', hlater⟩ := hp.of_rejected hnow
    rw [hlater]
    exact hq
  | fatal reason =>
    obtain ⟨reason', hlater⟩ := hp.of_fatal hnow
    rw [hlater]
    exact ⟨reason', rfl⟩
  | truncated best rest =>
    cases best with
    | none => exact absurd hnow (h rest)
    | some best => trivial
  | raised fault => exact absurd hnow (hp.ne_raised fault)

/-- A match of `either` is no match after a parser that was cut short without a
partial result. -/
theorem not_truncated_of_either_matched {value : α} {rest : Cursor ε}
    (h : either p q now = .matched value rest) (stop : Cursor ε) :
    p now ≠ .truncated none stop := by
  intro hnow
  unfold either at h
  rw [hnow] at h
  dsimp only at h
  split at h
  · cases h
  · rename_i hne
    exact hne value rest h

/-- **What becomes of a rejection by `either`**: if it turns into a match, the
first parser was cut short and is what matches. -/
theorem matched_of_either_rejected (hp : (p now).Persists (p later))
    (hq : (q now).Persists (q later)) {reason : Reason} {value : α} {rest : Cursor ε}
    (hnow : either p q now = .rejected reason) (hlater : either p q later = .matched value rest) :
    (∃ stop, p now = .truncated none stop) ∧ p later = .matched value rest := by
  have hcut : ∃ stop, p now = .truncated none stop := by
    refine Classical.byContradiction fun hno => ?_
    -- otherwise the rejection would persist
    have h := either_persists hp hq fun stop hstop => hno ⟨stop, hstop⟩
    obtain ⟨_, hrejected⟩ := h.of_rejected hnow
    rw [hlater] at hrejected
    cases hrejected
  obtain ⟨stop, hstop⟩ := hcut
  refine ⟨⟨stop, hstop⟩, ?_⟩
  -- the second parser rejected, and goes on rejecting
  have hsecond : ∃ reason', q later = .rejected reason' := by
    unfold either at hnow
    rw [hstop] at hnow
    dsimp only at hnow
    split at hnow
    · cases hnow
    · exact hq.of_rejected hnow
  obtain ⟨reason', hsecond⟩ := hsecond
  unfold either at hlater
  cases hfirst : p later with
  | matched value' rest' =>
    rw [hfirst] at hlater
    exact hlater
  | rejected reason =>
    rw [hfirst, hsecond] at hlater
    cases hlater
  | truncated best rest' =>
    rw [hfirst] at hlater
    cases best with
    | none =>
      rw [hsecond] at hlater
      cases hlater
    | some best => cases hlater
  | _ =>
    rw [hfirst] at hlater
    cases hlater

end Either

/-! ## Any number of parsers -/

/-- **No parser was passed over undecided**: those tried before the first that
matches or fails for good have rejected. -/
def NonePassedOver (c : Cursor ε) : List (Parser ε α) → Prop
  | [] => True
  | p :: choices =>
    match p c with
    | .rejected _ => NonePassedOver c choices
    | .truncated _ _ => False
    | _ => True

theorem eitherOf_cons (p : Parser ε α) (choices : List (Parser ε α)) :
    eitherOf (p :: choices) = alt p (eitherOf choices) := rfl

/-- **Unless a parser was passed over undecided**, what `eitherOf` decides
persists where the decisions of its parsers do. -/
theorem eitherOf_persists {choices : List (Parser ε α)}
    (hall : ∀ p ∈ choices, (p now).Persists (p later)) (h : NonePassedOver now choices) :
    (eitherOf choices now).Persists (eitherOf choices later) := by
  induction choices with
  | nil => exact ⟨_, rfl⟩
  | cons p choices ih =>
    have hp := hall p List.mem_cons_self
    rw [eitherOf_cons]
    unfold alt
    unfold NonePassedOver at h
    cases hnow : p now with
    | matched value rest =>
      obtain ⟨rest', hlater, hpos⟩ := hp.of_matched hnow
      rw [hlater]
      exact ⟨rest', rfl, hpos⟩
    | rejected reason =>
      obtain ⟨reason', hlater⟩ := hp.of_rejected hnow
      rw [hnow] at h
      rw [hlater]
      exact ih (fun q hq => hall q (List.mem_cons_of_mem p hq)) h
    | fatal reason =>
      obtain ⟨reason', hlater⟩ := hp.of_fatal hnow
      rw [hlater]
      exact ⟨reason', rfl⟩
    | truncated best rest =>
      rw [hnow] at h
      exact h.elim
    | raised fault => exact absurd hnow (hp.ne_raised fault)

/-- Where `eitherOf` rejects, every parser has rejected. -/
theorem nonePassedOver_of_rejected {choices : List (Parser ε α)} {reason : Reason}
    (h : eitherOf choices now = .rejected reason) : NonePassedOver now choices := by
  induction choices with
  | nil => trivial
  | cons p choices ih =>
    rw [eitherOf_cons] at h
    unfold alt at h
    unfold NonePassedOver
    cases hnow : p now with
    | rejected reason' =>
      rw [hnow] at h
      exact ih h
    | truncated best rest =>
      rw [hnow] at h
      dsimp only at h
      split at h
      · cases h
      · rename_i hne
        exact hne reason h
    | _ => trivial

/-! ## Both -/

/-- **A choice is as final as its parsers, unless one was passed over
undecided.** For `either` that is a first parser cut short without a partial
result, so that a match always persists, and a rejection turns into no match but
one of that parser. For `eitherOf` it is any parser cut short before the one
that matches or fails for good, so that a rejection always persists. -/
theorem choices_persist [Vacancy α] {final : Bool} {p q : Parser ε α} (hp : p.Holds final)
    (hq : q.Holds final) {choices : List (Parser ε β)} (hall : ∀ r ∈ choices, r.Holds final)
    (source more : List ε) {pos : Nat} (hpos : pos ≤ source.length) :
    let now : Cursor ε := { source := source.toArray, pos, final := false }
    let later : Cursor ε := { source := (source ++ more).toArray, pos, final }
    ((∀ stop, p now ≠ .truncated none stop) →
        (either p q now).Persists (either p q later)) ∧
      (∀ value rest, either p q now = .matched value rest →
        (either p q now).Persists (either p q later)) ∧
      (∀ reason value rest, either p q now = .rejected reason →
        either p q later = .matched value rest →
        (∃ stop, p now = .truncated none stop) ∧ p later = .matched value rest) ∧
      (NonePassedOver now choices →
        (eitherOf choices now).Persists (eitherOf choices later)) ∧
      (∀ reason, eitherOf choices now = .rejected reason →
        (eitherOf choices now).Persists (eitherOf choices later)) := by
  intro now later
  have hfirst : (p now).Persists (p later) := hp source more pos hpos
  have hsecond : (q now).Persists (q later) := hq source more pos hpos
  have hchoices : ∀ r ∈ choices, (r now).Persists (r later) := fun r hr =>
    hall r hr source more pos hpos
  refine ⟨either_persists hfirst hsecond, fun value rest hmatched => ?_,
    fun reason value rest => matched_of_either_rejected hfirst hsecond,
    eitherOf_persists hchoices, fun reason hrejected => ?_⟩
  · exact either_persists hfirst hsecond (not_truncated_of_either_matched hmatched)
  · exact eitherOf_persists hchoices (nonePassedOver_of_rejected hrejected)

section Literals

open Grammar

/-- The parser of some ASCII characters in a text. -/
def asciiLiteral (chars : List Char) : Parser CodePoint Text := (token chars).run

theorem holds_asciiLiteral (final : Bool) (chars : List Char) :
    (asciiLiteral chars).Holds final :=
  (Final.literal _).holds final

/-- Two choices between `ab` and `c`, of which the first rejects `c` at once. -/
theorem choices_persist_literals :
    let now : Cursor CodePoint := .streaming (Element.piece ['c'])
    let later : Cursor CodePoint := .complete (Element.piece ['c'] ++ Element.piece ['d'])
    (asciiLiteral ['a', 'b']).Holds true ∧ (asciiLiteral ['c']).Holds true ∧
      (either (asciiLiteral ['a', 'b']) (asciiLiteral ['c']) now).Persists
        (either (asciiLiteral ['a', 'b']) (asciiLiteral ['c']) later) ∧
      (eitherOf [asciiLiteral ['a', 'b'], asciiLiteral ['c']] now).Persists
        (eitherOf [asciiLiteral ['a', 'b'], asciiLiteral ['c']] later) := by
  intro now later
  have hab := holds_asciiLiteral true ['a', 'b']
  have hc := holds_asciiLiteral true ['c']
  have hall : ∀ r ∈ [asciiLiteral ['a', 'b'], asciiLiteral ['c']], r.Holds true := by
    intro r hr
    simp only [List.mem_cons, List.not_mem_nil, or_false] at hr
    rcases hr with rfl | rfl
    · exact hab
    · exact hc
  obtain ⟨heither, _, _, heitherOf, _⟩ := choices_persist hab hc hall (Element.piece ['c'])
    (Element.piece ['d']) (Nat.zero_le _)
  exact ⟨hab, hc, heither nofun, heitherOf trivial⟩

/-- **Choices decide too early.** Between `ab` and `xy`, `either` rejects `a` and
matches `ab`. Between `ab` and `a`, `eitherOf` matches `a` in `a`, and `ab` in
`ab`. -/
theorem not_choices_hold :
    (¬∀ p q : Parser CodePoint Text, p.Holds false → q.Holds false →
        (either p q).Holds false) ∧
      ¬∀ choices : List (Parser CodePoint Text), (∀ p ∈ choices, p.Holds false) →
        (eitherOf choices).Holds false := by
  have hab := holds_asciiLiteral false ['a', 'b']
  constructor
  · intro h
    have hpers := h _ _ hab (holds_asciiLiteral false ['x', 'y']) (Element.piece ['a'])
      (Element.piece ['b']) 0 (Nat.zero_le _)
    obtain ⟨reason, hlater⟩ := hpers
    cases hlater
  · intro h
    have hall : ∀ p ∈ [asciiLiteral ['a', 'b'], asciiLiteral ['a']], p.Holds false := by
      intro p hp
      simp only [List.mem_cons, List.not_mem_nil, or_false] at hp
      rcases hp with rfl | rfl
      · exact hab
      · exact holds_asciiLiteral false ['a']
    have hpers := h _ hall (Element.piece ['a']) (Element.piece ['b']) 0 (Nat.zero_le _)
    obtain ⟨rest, hlater, hpos⟩ := hpers
    cases hlater

end Literals

end Choice

end StreamGrammar
