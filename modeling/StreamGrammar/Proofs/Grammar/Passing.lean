import StreamGrammar.Proofs.Grammar.Matched

/-!
# What stands in front of what remains

A property of a whole input is not one of a match, as a match speaks of a beginning of
the input and hands on the rest. But many such properties can be told from behind: they
hold of no input, and they hold of an input that is made of a match and a rest for which
they hold. Then it is enough that each part of a grammar puts what it matches in front
of inputs of the kind (`Passes`), and how the parts are put together – which alternative
was taken, how often a loop went round, what was tried and given up – does not matter at
all.
-/

namespace StreamGrammar.Grammar

variable {ε α β σ : Type}

/-- **A kind of inputs that holds of no input at all and that some elements can
be put in front of.** -/
structure Extends (P : List ε → Prop) (allowed : ε → Prop) : Prop where
  /-- No input is of the kind. -/
  nil : P []
  /-- An allowed element in front keeps the kind. -/
  cons : ∀ e s, allowed e → P s → P (e :: s)

namespace Extends

variable {P : List ε → Prop} {allowed narrower : ε → Prop}

theorem mono (h : Extends P allowed) (himp : ∀ e, narrower e → allowed e) : Extends P narrower :=
  ⟨h.nil, fun e s he => h.cons e s (himp e he)⟩

theorem append (h : Extends P allowed) {run rest : List ε} (hrun : ∀ e ∈ run, allowed e)
    (hrest : P rest) : P (run ++ rest) := by
  induction run with
  | nil => exact hrest
  | cons e run ih =>
    exact h.cons e _ (hrun e List.mem_cons_self)
      (ih fun e' he' => hrun e' (List.mem_cons_of_mem e he'))

theorem of_forall (h : Extends P allowed) {s : List ε} (hs : ∀ e ∈ s, allowed e) : P s := by
  simpa using h.append hs h.nil

/-- The inputs of allowed elements alone are the least such kind. -/
theorem forall_mem (allowed : ε → Prop) : Extends (fun s => ∀ e ∈ s, allowed e) allowed :=
  ⟨fun _ he => (nomatch he), fun _ _ he hs => List.forall_mem_cons.mpr ⟨he, hs⟩⟩

end Extends

variable [Element ε]

/-- **A grammar whose matches can be put in front of inputs of a kind.** -/
def Passes (final : Bool) (P : List ε → Prop) (g : Grammar ε α) : Prop :=
  ∀ ⦃s rest : List ε⦄ ⦃value : α⦄, g.verdict final s = .matched value rest → P rest → P s

namespace Passes

variable {final : Bool} {P : List ε → Prop} {allowed : ε → Prop} {p q : Grammar ε α}

/-! ## Matchers -/

theorem satisfy (h : Extends P allowed) {test : ε → Bool} (what : Expectation)
    (htest : ∀ e, test e = true → allowed e) : (satisfy test what).Passes final P := by
  intro s rest e hs hrest
  obtain ⟨rfl, he⟩ := matched_satisfy.mp hs
  exact h.cons e rest (htest e he) hrest

theorem literal (h : Extends P allowed) {expected : List ε}
    (hexpected : ∀ e ∈ expected, allowed e) : (literal expected).Passes final P := by
  intro s rest run hs hrest
  obtain ⟨rfl, rfl⟩ := matched_literal.mp hs
  exact h.append hexpected hrest

theorem takeWhile (h : Extends P allowed) {test : ε → Bool}
    (htest : ∀ e, test e = true → allowed e) :
    (takeWhile test : Grammar ε (List ε)).Passes final P := by
  intro s rest run hs hrest
  obtain ⟨rfl, hrun, -⟩ := matched_takeWhile.mp hs
  exact h.append (fun e he => htest e (hrun e he)) hrest

theorem takeSomeWhile (h : Extends P allowed) {test : ε → Bool}
    (htest : ∀ e, test e = true → allowed e) :
    (takeSomeWhile test : Grammar ε (List ε)).Passes final P := by
  intro s rest run hs hrest
  obtain ⟨-, rfl, hrun, -⟩ := matched_takeSomeWhile.mp hs
  exact h.append (fun e he => htest e (hrun e he)) hrest

theorem endOfInput : (endOfInput : Grammar ε Unit).Passes final P := by
  intro s rest value hs hrest
  rw [verdict_endOfInput] at hs
  cases s with
  | nil =>
    cases final <;> cases hs
    exact hrest
  | cons e s => cases hs

theorem noAlternative : (noAlternative : Grammar ε α).Passes final P := fun _ _ _ hs => nomatch hs

/-! ## What is made of parts -/

theorem map [Vacancy β] (hp : p.Passes final P) (f : α → β) : (map f p).Passes final P := by
  intro s rest value hs hrest
  obtain ⟨_, hv, -⟩ := matched_map.mp hs
  exact hp hv hrest

theorem judge (hp : p.Passes final P) (refusal : Refusal)
    (accept : α → Except (Nat → Reason) β) : (judge refusal accept p).Passes final P := by
  intro s rest value hs hrest
  obtain ⟨_, hv, -⟩ := matched_judge.mp hs
  exact hp hv hrest

theorem bind {next : α → Grammar ε β} (hp : p.Passes final P)
    (hn : ∀ a, (next a).Passes final P) : (bind p next).Passes final P := by
  intro s rest value hs hrest
  obtain ⟨a, middle, hv, hv'⟩ := matched_bind.mp hs
  exact hp hv (hn a hv' hrest)

theorem optional (hp : p.Passes final P) : (optional p).Passes final P := by
  intro s rest value hs hrest
  rcases matched_optional.mp hs with ⟨-, -, rfl⟩ | ⟨_, hv, -⟩
  · exact hrest
  · exact hp hv hrest

/-- Of what is only looked at nothing is passed. -/
theorem peek (p : Grammar ε α) : (peek p).Passes final P := by
  intro s rest value hs hrest
  rw [verdict_peek] at hs
  cases hv : p.verdict final s with
  | matched value' rest' =>
    rw [hv] at hs
    cases hs
    exact hrest
  | _ => rw [hv] at hs; cases hs

theorem alt (hp : p.Passes final P) (hq : q.Passes final P) : (alt p q).Passes final P :=
  fun _ _ _ hs hrest => (matched_of_alt hs).elim (fun h => hp h hrest) fun h => hq h hrest

theorem either [Vacancy α] (hp : p.Passes final P) (hq : q.Passes final P) :
    (either p q).Passes final P :=
  fun _ _ _ hs hrest => (matched_of_either hs).elim (fun h => hp h hrest) fun h => hq h hrest

theorem label (hp : p.Passes final P) (name : Text) : (label p name).Passes final P := by
  intro s rest value hs hrest
  rw [verdict_label] at hs
  exact hp hs hrest

/-! ## Loops -/

omit [Element ε] in
/-- What rounds match can be put in front of what remains. -/
theorem rounds {step : List ε → Verdict ε α}
    (hpassed : ∀ {s value rest}, step s = .matched value rest → P rest → P s)
    {s rest : List ε} {values : List α} (h : Verdict.Rounds step s values rest)
    (hrest : P rest) : P s := by
  induction h with
  | none s => exact hrest
  | more hround _ ih => exact hpassed hround (ih hrest)

theorem repeatAny (hp : p.Passes final P) : (repeatAny p).Passes final P := by
  intro s rest values hs hrest
  rw [verdict_repeatAny] at hs
  exact rounds (fun h => hp h) (Verdict.rounds_of_many hs) hrest

theorem repeatSome (hp : p.Passes final P) : (repeatSome p).Passes final P :=
  fun _ _ _ hs => hp.repeatAny (matched_repeatSome.mp hs).2

theorem separatedItems {sep : Grammar ε σ} (hsep : sep.Passes final P) (hp : p.Passes final P) :
    (separatedItems sep p).Passes final P := by
  intro s rest values hs hrest
  rw [verdict_separatedItems] at hs
  rcases Verdict.rounds_of_separated hs with ⟨-, rfl⟩ | ⟨value, middle, others, hitem, -, hmore⟩
  · exact hrest
  · refine hp hitem (rounds (fun hround hafter => ?_) hmore hrest)
    obtain ⟨mark, past, hmark, hnext⟩ := Verdict.round_eq_matched.mp hround
    exact hsep hmark (hp hnext hafter)

end Passes

end StreamGrammar.Grammar
