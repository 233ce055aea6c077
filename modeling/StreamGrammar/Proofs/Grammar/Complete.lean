import StreamGrammar.Grammar.Complete
import StreamGrammar.Proofs.Grammar.Guarded
import StreamGrammar.Proofs.Grammar.Matched

/-!
# Parsing a complete source comes to a verdict

A complete parse succeeds on a match that leaves nothing over. Of complete input
nothing is missing, and a grammar that commits to nothing therefore matches it
or rejects it (`MatchesOrRejects`); repeated, it always matches. Where a grammar is
committed to what follows, the third end there is is a fatal one (`Concludes`), and
that a guarded grammar knows no fourth is one case of what `Guarded` is for.
-/

namespace StreamGrammar.Grammar

variable {ε α β : Type} [Element ε]

/-- A verdict on complete input that is a match comes from a match there. -/
theorem matched_complete {g : Grammar ε α} {source rest : List ε} {value : α} :
    g.verdict true source = .matched value rest ↔
      ∃ remainder, g.run (.complete source) = .matched value remainder ∧
        remainder.rest = rest := by
  show (g.run (.complete source)).verdict = _ ↔ _
  cases g.run (.complete source) with
  | matched found remainder =>
    simp only [Outcome.verdict, Verdict.matched.injEq, Outcome.matched.injEq]
    constructor
    · rintro ⟨rfl, hrest⟩
      exact ⟨remainder, ⟨rfl, rfl⟩, hrest⟩
    · rintro ⟨_, ⟨rfl, rfl⟩, hrest⟩
      exact ⟨rfl, hrest⟩
  | _ => simp [Outcome.verdict]

/-- **Without a limit on the size of the source**, a parse gives the value that the
grammar matches all of the source as. -/
theorem parseAll_eq_ok_iff {g : Grammar ε α} {source : List ε} {template : Option Template}
    {value : α} :
    g.parseAll source { maxSourceSize := some 0, template } = .ok value ↔
      g.verdict true source = .matched value [] := by
  have hlimit : Limits.resolve (some 0) Limits.maxSourceSize = .ok 0 := rfl
  have hsize : Limits.checkSourceSize source.length 0 = .ok () := rfl
  have hverdict : g.verdict true source = (g.run (.complete source)).verdict := rfl
  rw [parseAll, hverdict]
  simp only [hlimit, hsize]
  cases g.run (.complete source) with
  | matched found remainder =>
    cases hend : remainder.atEnd with
    | true =>
      have hrest := (Cursor.atEnd_iff remainder).mp hend
      simp [Outcome.verdict, hend, hrest]
    | false =>
      have hrest : remainder.rest ≠ [] := fun hnil => by
        rw [(Cursor.atEnd_iff remainder).mpr hnil] at hend
        cases hend
      simp [Outcome.verdict, hend, hrest]
  | _ => simp [Outcome.verdict]

/-- A source that is malformed is reported as such, in the wording that is asked for. -/
theorem parseAll_of_fatal {g : Grammar ε α} {source : List ε} (template : Template)
    (h : g.verdict true source = .fatal) :
    ∃ reason, g.parseAll source { maxSourceSize := some 0, template := some template } =
      .error (.parse (.diagnosed (template reason none)) reason true) := by
  have hlimit : Limits.resolve (some 0) Limits.maxSourceSize = .ok 0 := rfl
  have hsize : Limits.checkSourceSize source.length 0 = .ok () := rfl
  have hverdict : (g.run (.complete source)).verdict = .fatal := h
  rw [parseAll]
  simp only [hlimit, hsize]
  cases hrun : g.run (.complete source) with
  | fatal reason => exact ⟨reason.text, rfl⟩
  | _ => rw [hrun] at hverdict; cases hverdict

/-- **A limit on the size of the source only adds a failure**: a source that it admits
is parsed as if there were none. -/
theorem parseAll_unlimited (g : Grammar ε α) (source : List ε) (settings : ParseSettings) :
    g.parseAll source settings = g.parseAll source { settings with maxSourceSize := some 0 } ∨
      ∃ failure, g.parseAll source settings = .error failure ∧
        (Limits.resolve settings.maxSourceSize Limits.maxSourceSize = .error failure ∨
          ∃ limit, Limits.checkSourceSize source.length limit = .error failure) := by
  rw [parseAll]
  cases hlimit : Limits.resolve settings.maxSourceSize Limits.maxSourceSize with
  | error failure => exact .inr ⟨failure, rfl, .inl rfl⟩
  | ok limit =>
    dsimp only
    cases hsize : Limits.checkSourceSize source.length limit with
    | error failure => exact .inr ⟨failure, rfl, .inr ⟨limit, hsize⟩⟩
    | ok admitted => exact .inl rfl

/-- What is parsed under a limit on its size is matched as a whole. -/
theorem matched_of_parseAll {g : Grammar ε α} {source : List ε} {maxSourceSize : Option Int}
    {template : Option Template} {value : α}
    (h : g.parseAll source { maxSourceSize, template } = .ok value) :
    g.verdict true source = .matched value [] := by
  rcases parseAll_unlimited g source { maxSourceSize, template } with heq | ⟨_, herror, -⟩
  · rw [heq] at h
    exact parseAll_eq_ok_iff.mp h
  · rw [h] at herror
    cases herror

/-! ## Grammars that commit to nothing -/

/-- **A grammar that matches complete input or rejects it**, and knows no other
end. -/
def MatchesOrRejects (g : Grammar ε α) : Prop :=
  ∀ s : List ε, g.verdict true s = .rejected ∨
    ∃ value rest, g.verdict true s = .matched value rest

namespace MatchesOrRejects

variable {p : Grammar ε α}

theorem satisfy (test : ε → Bool) (what : Expectation) :
    (satisfy test what : Grammar ε ε).MatchesOrRejects := by
  intro s
  rw [verdict_satisfy]
  cases s with
  | nil => exact .inl rfl
  | cons e s =>
    dsimp only
    split
    · exact .inr ⟨_, _, rfl⟩
    · exact .inl rfl

theorem literal (expected : List ε) : (literal expected).MatchesOrRejects := by
  intro s
  rw [verdict_literal]
  split
  · exact .inr ⟨_, _, rfl⟩
  · rw [if_neg (by simp)]
    exact .inl rfl

theorem takeWhile (test : ε → Bool) :
    (takeWhile test : Grammar ε (List ε)).MatchesOrRejects := by
  intro s
  rw [verdict_takeWhile, if_neg (by simp)]
  exact .inr ⟨_, _, rfl⟩

theorem takeSomeWhile (test : ε → Bool) :
    (takeSomeWhile test : Grammar ε (List ε)).MatchesOrRejects := by
  intro s
  rw [verdict_takeSomeWhile]
  cases s with
  | nil => exact .inl rfl
  | cons e s =>
    dsimp only
    split
    · exact MatchesOrRejects.takeWhile test (e :: s)
    · exact .inl rfl

theorem otherThan (elements : List ε) : (otherThan elements).MatchesOrRejects := by
  intro s
  rw [verdict_otherThan]
  dsimp only
  rw [if_neg (by simp)]
  split
  · exact .inl rfl
  · exact .inr ⟨_, _, rfl⟩

theorem map [Vacancy β] (hp : p.MatchesOrRejects) (f : α → β) : (map f p).MatchesOrRejects := by
  intro s
  rcases hp s with h | ⟨value, rest, h⟩
  · exact .inl (map_of_rejected f h)
  · exact .inr ⟨f value, rest, matched_map.mpr ⟨value, h, rfl⟩⟩

theorem convert (hp : p.MatchesOrRejects) (c : Conversion α β) :
    (convert c p).MatchesOrRejects := by
  intro s
  rw [Grammar.convert, verdict_judge]
  rcases hp s with h | ⟨value, rest, h⟩
  · rw [h]
    exact .inl rfl
  · rw [h, Verdict.judge]
    split
    · exact .inr ⟨_, _, rfl⟩
    · exact .inl rfl

theorem bind (hp : p.MatchesOrRejects) {next : α → Grammar ε β}
    (hn : ∀ a, (next a).MatchesOrRejects) : (bind p next).MatchesOrRejects := by
  intro s
  rcases hp s with h | ⟨value, middle, h⟩
  · exact .inl (bind_of_rejected next h)
  · rcases hn value middle with h' | ⟨result, rest, h'⟩
    · refine .inl ?_
      rw [verdict_bind, h, Verdict.andThen, h']
    · exact .inr ⟨result, rest, matched_bind.mpr ⟨value, middle, h, h'⟩⟩

theorem either [Vacancy α] (hp : p.MatchesOrRejects) {q : Grammar ε α}
    (hq : q.MatchesOrRejects) : (either p q).MatchesOrRejects := by
  intro s
  rcases hp s with h | ⟨value, rest, h⟩
  · rw [either_of_rejected q h]
    exact hq s
  · exact .inr ⟨value, rest, either_of_matched q h⟩

theorem optional (hp : p.MatchesOrRejects) : (optional p).MatchesOrRejects := by
  intro s
  refine .inr ?_
  rcases hp s with h | ⟨value, rest, h⟩
  · exact ⟨none, s, matched_optional.mpr (.inl ⟨h, rfl, rfl⟩)⟩
  · exact ⟨some value, rest, matched_optional.mpr (.inr ⟨value, h, rfl⟩)⟩

/-- **Repetition goes on to the first rejection.** -/
theorem many (hp : p.MatchesOrRejects) (s : List ε) :
    ∃ values rest, Verdict.many (p.verdict true) s = .matched values rest := by
  fun_induction Verdict.many (p.verdict true) s with
  | case1 s value rest hround hlt ih =>
    obtain ⟨values, stop, hmany⟩ := ih
    exact ⟨value :: values, stop, Verdict.map_eq_matched.mpr ⟨values, hmany, rfl⟩⟩
  | case2 | case3 => exact ⟨_, _, rfl⟩
  | case4 s hround | case5 s best rest hround | case6 s fault hround =>
    rcases hp s with h | ⟨_, _, h⟩ <;> rw [h] at hround <;> cases hround

end MatchesOrRejects

/-! ## Grammars that can fail for good -/

/-- A verdict on the input that no input is missing for. -/
def Conclusive : Verdict ε α → Prop
  | .matched _ _ => True
  | .rejected => True
  | .fatal => True
  | _ => False

/-- **A grammar that comes to a verdict on all complete input.** -/
def Concludes (g : Grammar ε α) : Prop := ∀ s, Conclusive (g.verdict true s)

/-- A guarded grammar that waits for nothing comes to a verdict. -/
theorem Guarded.concludes {g : Grammar ε α} (h : g.Guarded False) : g.Concludes := fun s => by
  have hends : (g.verdict true s).Ends False := h.ends (by decide) s
  cases hv : g.verdict true s <;> rw [hv] at hends <;> exact hends

/-- There are three verdicts to come to. -/
theorem Concludes.cases {g : Grammar ε α} (h : g.Concludes) (s : List ε) :
    (∃ value rest, g.verdict true s = .matched value rest) ∨ g.verdict true s = .rejected ∨
      g.verdict true s = .fatal := by
  have hs := h s
  cases hv : g.verdict true s with
  | matched value rest => exact .inl ⟨value, rest, rfl⟩
  | rejected => exact .inr (.inl rfl)
  | fatal => exact .inr (.inr rfl)
  | _ => rw [hv] at hs; exact hs.elim

/-- **A grammar to which the parse is committed matches or fails for good.** -/
theorem Concludes.matched_or_fatal_of_halt {p : Grammar ε α} (hp : p.Concludes) (name : Text)
    (s : List ε) :
    (∃ value rest, (halt name p).verdict true s = .matched value rest) ∨
      (halt name p).verdict true s = .fatal := by
  rw [verdict_halt]
  rcases hp.cases s with ⟨value, rest, h⟩ | h | h <;> rw [h]
  · exact .inl ⟨value, rest, rfl⟩
  · exact .inr rfl
  · exact .inr rfl

end StreamGrammar.Grammar
