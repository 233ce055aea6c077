import StreamGrammar.Proofs.Grammar.Matched

/-!
# What a rejection consists of

A rejection is an answer like a match: the grammar has looked at the input and its kind of
thing is not there. It can be taken apart like one. A sequence rejects where its first
part does, or where that matches and the next rejects; a choice where no alternative is
there; and what may be absent, or come any number of times, does not reject at all.
-/

namespace StreamGrammar

variable {ε α β σ : Type}

namespace Verdict

theorem map_eq_rejected [Vacancy β] {f : α → β} {v : Verdict ε α} :
    v.map f = .rejected ↔ v = .rejected := by
  cases v <;> simp [map]

/-- A loop is never rejected: it may have no round. -/
theorem many_ne_rejected (step : List ε → Verdict ε α) (s : List ε) :
    many step s ≠ .rejected := by
  fun_induction many step s with
  | case1 s value middle hstep hlt ih => exact fun h => ih (map_eq_rejected.mp h)
  | _ => simp

/-- Items with separators are never rejected: there may be none. -/
theorem separated_ne_rejected {separator : List ε → Verdict ε σ}
    {item : List ε → Verdict ε α} (s after : List ε) :
    separated separator item s after ≠ .rejected := by
  fun_induction separated separator item s after with
  | case1 s after value middle _ mark past _ _ ih => exact fun h => ih (map_eq_rejected.mp h)
  | _ => simp

end Verdict

namespace Grammar

variable [Element ε] {p q : Grammar ε α} {final : Bool} {s : List ε}

theorem rejected_takeSomeWhile {test : ε → Bool} :
    (takeSomeWhile test).verdict final s = .rejected ↔ Halts test final s := by
  rw [verdict_takeSomeWhile]
  cases s with
  | nil => cases final <;> simp [Verdict.exhausted, Halts]
  | cons e s =>
    by_cases h : test e = true
    · simp only [if_pos h, verdict_takeWhile, Halts, List.head?_cons]
      constructor
      · intro hrejected
        split at hrejected <;> cases hrejected
      · exact fun hhalts => absurd h (Bool.eq_false_iff.mp (hhalts.2 e rfl))
    · simp only [if_neg h, true_iff]
      exact halts_cons (Bool.eq_false_iff.mpr h)

theorem rejected_map [Vacancy β] {f : α → β} :
    (map f p).verdict final s = .rejected ↔ p.verdict final s = .rejected := by
  rw [verdict_map, Verdict.map_eq_rejected]
  cases p.verdict final s with
  | truncated best rest => cases best <;> simp [Verdict.reanchor]
  | _ => simp [Verdict.reanchor]

/-- A grammar whose values are judged rejects where it is not there, or its value is not
accepted. -/
theorem rejected_judge {refusal : Refusal} {accept : α → Except (Nat → Reason) β} :
    (judge refusal accept p).verdict final s = .rejected ↔
      p.verdict final s = .rejected ∨ (refusal = .rejected ∧ ∃ value rest reason,
        p.verdict final s = .matched value rest ∧ accept value = .error reason) := by
  rw [verdict_judge]
  cases p.verdict final s with
  | matched value rest =>
    simp only [Verdict.judge]
    cases hvalue : accept value with
    | ok accepted => simp [hvalue]
    | error reason => cases refusal <;> simp [Verdict.ofRefusal, hvalue]
  | _ => simp [Verdict.judge]

theorem rejected_bind {next : α → Grammar ε β} :
    (bind p next).verdict final s = .rejected ↔
      p.verdict final s = .rejected ∨ ∃ value middle,
        p.verdict final s = .matched value middle ∧
          (next value).verdict final middle = .rejected := by
  rw [verdict_bind]
  cases p.verdict final s with
  | matched value middle =>
    simp only [Verdict.andThen, Verdict.matched.injEq, reduceCtorEq, false_or]
    constructor
    · intro h
      refine ⟨value, middle, ⟨rfl, rfl⟩, ?_⟩
      split at h
      · cases h
      · exact h
    · rintro ⟨_, _, ⟨rfl, rfl⟩, h⟩
      rw [h]
  | _ => simp [Verdict.andThen]

theorem rejected_alt :
    (alt p q).verdict final s = .rejected ↔
      p.verdict final s = .rejected ∧ q.verdict final s = .rejected := by
  rw [verdict_alt]
  cases p.verdict final s with
  | truncated best rest => cases q.verdict final s <;> simp [Verdict.alt]
  | _ => simp [Verdict.alt]

theorem optional_ne_rejected : (optional p).verdict final s ≠ .rejected := by
  rw [verdict_optional]
  cases p.verdict final s <;> simp [Verdict.optional]

theorem repeatAny_ne_rejected : (repeatAny p).verdict final s ≠ .rejected := by
  rw [verdict_repeatAny]
  exact Verdict.many_ne_rejected _ s

theorem separatedItems_ne_rejected {sep : Grammar ε σ} :
    (separatedItems sep p).verdict final s ≠ .rejected := by
  rw [verdict_separatedItems]
  exact Verdict.separated_ne_rejected s s

/-- A loop with at least one round rejects where the loop has none. -/
theorem rejected_repeatSome :
    (repeatSome p).verdict final s = .rejected ↔
      ∃ rest, (repeatAny p).verdict final s = .matched [] rest := by
  rw [verdict_repeatSome]
  cases h : (repeatAny p).verdict final s with
  | matched values rest => cases values <;> simp [Verdict.atLeastOne]
  | rejected => exact absurd h repeatAny_ne_rejected
  | _ => simp [Verdict.atLeastOne]

/-- Where a loop of rounds that consume has none, no round is there. -/
theorem Consumes.rejected_of_repeatSome (hp : p.Consumes)
    (h : (Grammar.repeatSome p).verdict final s = .rejected) : p.verdict final s = .rejected := by
  obtain ⟨rest, hmany⟩ := rejected_repeatSome.mp h
  rw [verdict_repeatAny] at hmany
  have hend := Verdict.rejected_of_many (fun hround => hp hround) hmany
  cases Verdict.rounds_of_many hmany
  exact hend

end Grammar

end StreamGrammar
