import StreamGrammar.Proofs.Grammar.Verdict

/-!
# Runs that end with a verdict

Two things keep a run from a verdict on its input. A function that reads values may
be undefined at one of them, and then the run is over. And input may be missing. A
grammar can be asked never to let the first happen, by having no partial function in
it but those whose failures are refusals; that says nothing of the second, which is
up to the matchers. But matchers miss nothing in complete input. The only construct
that is undecided there is `undecided` itself.

So one invariant does for both questions, with the answer to the second as its
parameter: whether a run may wait for more (`Verdict.Ends`). On input that can grow
it may, and nothing is left to show but that no function fails. On complete input it
may not, which is the stronger statement and what the inner grammar of a pipe is
asked for.

A function need not be defined everywhere to be safe, only at what it is given. The
last section is about that: what a grammar yields, be it as a value or as a partial
result, and a partial function that is defined at all of it is as good as a total one
(`Yields.run_mapRaising`).
-/

namespace StreamGrammar

variable {ε α β σ : Type}

namespace Verdict

/-- **A verdict on the input**, which leaves it undecided only if the run may wait for
more. -/
def Ends (mayWait : Prop) : Verdict ε α → Prop
  | raised _ => False
  | truncated _ _ => mayWait
  | _ => True

variable {mayWait : Prop} {v : Verdict ε α} {start : List ε}

theorem Ends.ne_raised (h : v.Ends mayWait) (fault : Fault) : v ≠ .raised fault := by
  rintro rfl
  exact h

theorem ends_exhausted {final : Bool} (hwait : final = false → mayWait) :
    (exhausted final : Verdict ε α).Ends mayWait := by
  cases final with
  | false => exact hwait rfl
  | true => trivial

theorem Ends.map [Vacancy β] (h : v.Ends mayWait) (f : α → β) : (v.map f).Ends mayWait := by
  cases v <;> exact h

theorem Ends.reanchor (h : v.Ends mayWait) : (v.reanchor start).Ends mayWait := by
  cases v with
  | truncated best rest => cases best <;> exact h
  | _ => exact h

/-- A function that may fail but does not keeps no run from its verdict. -/
theorem Ends.mapRaising [Vacancy β] (h : v.Ends mayWait) {f : α → Except Fault β}
    (hf : ∀ a, ∃ b, f a = .ok b) : (v.mapRaising f start).Ends mayWait := by
  cases v with
  | matched value rest =>
    obtain ⟨b, hb⟩ := hf value
    simp only [Verdict.mapRaising, hb]
    trivial
  | truncated best rest =>
    cases best with
    | none => exact h
    | some best =>
      obtain ⟨b, hb⟩ := hf best
      simp only [Verdict.mapRaising, hb]
      exact h
  | _ => exact h

theorem Ends.judge {ρ : Type} (h : v.Ends mayWait) (refusal : Refusal)
    (accept : α → Except ρ β) : (v.judge refusal accept start).Ends mayWait := by
  cases v with
  | matched value rest =>
    simp only [Verdict.judge]
    cases accept value with
    | ok accepted => trivial
    | error reason => cases refusal <;> trivial
  | _ => exact h

theorem Ends.andThen (h : v.Ends mayWait) {next : α → List ε → Verdict ε β}
    (hnext : ∀ value rest, (next value rest).Ends mayWait) :
    (v.andThen start next).Ends mayWait := by
  cases v with
  | matched value rest =>
    have h' := hnext value rest
    simp only [Verdict.andThen]
    cases hn : next value rest <;> rw [hn] at h' <;> exact h'
  | _ => exact h

theorem Ends.optional (h : v.Ends mayWait) : (v.optional start).Ends mayWait := by
  cases v <;> exact h

theorem Ends.either [Vacancy α] (h : v.Ends mayWait) {w : Verdict ε α} (hw : w.Ends mayWait) :
    (v.either w).Ends mayWait := by
  cases v with
  | rejected => exact hw
  | truncated best rest =>
    cases best with
    | none => cases w <;> first | exact h | exact hw
    | some best => exact h
  | _ => exact h

theorem Ends.alt (h : v.Ends mayWait) {w : Verdict ε α} (hw : w.Ends mayWait) :
    (v.alt w).Ends mayWait := by
  cases v with
  | rejected => exact hw
  | truncated best rest => cases w <;> first | exact h | exact hw
  | _ => exact h

theorem Ends.peek (h : v.Ends mayWait) : (v.peek start).Ends mayWait := by
  cases v <;> exact h

theorem Ends.pipe {outer : Verdict ε (List ε)} (h : outer.Ends mayWait)
    {inner : List ε → Verdict ε α} (hinner : ∀ piece, (inner piece).Ends mayWait) :
    (outer.pipe start inner).Ends mayWait := by
  cases outer with
  | matched piece rest =>
    have h' := hinner piece
    simp only [Verdict.pipe]
    cases hi : inner piece with
    | truncated best stop => trivial
    | _ => rw [hi] at h'; exact h'
  | _ => exact h

theorem Ends.halt (h : v.Ends mayWait) : v.halt.Ends mayWait := by
  cases v <;> exact h

theorem Ends.acceptLimit (h : v.Ends mayWait) : v.acceptLimit.Ends mayWait := by
  cases v with
  | truncated best rest => cases best <;> trivial
  | _ => exact h

theorem Ends.atLeastOne {v : Verdict ε (List α)} (h : v.Ends mayWait) :
    v.atLeastOne.Ends mayWait := by
  cases v with
  | matched values rest => cases values <;> trivial
  | _ => exact h

/-- **A loop ends with a verdict if all its rounds do.** -/
theorem ends_many {step : List ε → Verdict ε α} (hstep : ∀ s, (step s).Ends mayWait)
    (s : List ε) : (many step s).Ends mayWait := by
  fun_induction many step s with
  | case1 s value rest hround hlt ih => exact ih.map _
  | case5 s best rest hround | case6 s fault hround =>
    have h := hstep s
    rw [hround] at h
    exact h
  | _ => trivial

theorem ends_separated {separator : List ε → Verdict ε σ} {item : List ε → Verdict ε α}
    (hsep : ∀ s, (separator s).Ends mayWait) (hitem : ∀ s, (item s).Ends mayWait)
    (s after : List ε) : (separated separator item s after).Ends mayWait := by
  fun_induction separated separator item s after with
  | case1 s after value rest hround mark past hmark hlt ih => exact ih.map _
  | case5 s after value rest hround best stop hmark | case6 s after value rest hround fault hmark =>
    have h := hsep rest
    rw [hmark] at h
    exact h
  | case9 s after best rest hround | case10 s after fault hround =>
    have h := hitem s
    rw [hround] at h
    exact h
  | _ => trivial

end Verdict

namespace Grammar

/-- **A grammar in which no function fails** but those whose failures are refusals, and
which leaves no complete input undecided unless it may wait. -/
def Guarded (mayWait : Prop) : {α : Type} → Grammar ε α → Prop
  | _, satisfy _ _ => True
  | _, literal _ => True
  | _, take _ => True
  | _, takeWhile _ => True
  | _, takeSomeWhile _ => True
  | _, otherThan _ => True
  | _, endOfInput => True
  | _, succeed _ => True
  | _, undecided _ _ => mayWait
  | _, map _ p => Guarded mayWait p
  | _, mapRaising f p => (∀ a, ∃ b, f a = .ok b) ∧ Guarded mayWait p
  | _, recast _ p => Guarded mayWait p
  | _, judge _ _ p => Guarded mayWait p
  | _, bind p next => Guarded mayWait p ∧ ∀ a, Guarded mayWait (next a)
  | _, optional p => Guarded mayWait p
  | _, either first second => Guarded mayWait first ∧ Guarded mayWait second
  | _, alt first second => Guarded mayWait first ∧ Guarded mayWait second
  | _, noAlternative => True
  | _, peek p => Guarded mayWait p
  | _, pipe outer inner => Guarded mayWait outer ∧ Guarded mayWait inner
  | _, repeatAny p => Guarded mayWait p
  | _, repeatSome p => Guarded mayWait p
  | _, separatedItems separator item => Guarded mayWait separator ∧ Guarded mayWait item
  | _, label p _ => Guarded mayWait p
  | _, halt _ p => Guarded mayWait p
  | _, acceptLimit p => Guarded mayWait p

variable [Element ε] {mayWait : Prop} {g : Grammar ε α}

theorem ends_takeWhile (test : ε → Bool) {final : Bool} (hwait : final = false → mayWait)
    (s : List ε) : ((takeWhile test).verdict final s).Ends mayWait := by
  rw [verdict_takeWhile]
  split
  · rename_i h
    exact hwait h.2
  · trivial

/-- **Every run of a guarded grammar ends with a verdict**, and one on complete input
waits for nothing unless the grammar may. -/
theorem Guarded.ends (h : g.Guarded mayWait) {final : Bool} (hwait : final = false → mayWait)
    (s : List ε) : (g.verdict final s).Ends mayWait := by
  induction g generalizing final s with
  | satisfy test what =>
    rw [verdict_satisfy]
    cases s with
    | nil => exact Verdict.ends_exhausted hwait
    | cons e s => dsimp only; split <;> trivial
  | literal expected =>
    rw [verdict_literal]
    split
    · trivial
    · split
      · rename_i h
        exact hwait h.1
      · trivial
  | take count =>
    rw [verdict_take]
    cases final with
    | false => split <;> first | trivial | exact hwait rfl
    | true => split <;> trivial
  | takeWhile test => exact ends_takeWhile test hwait s
  | takeSomeWhile test =>
    rw [verdict_takeSomeWhile]
    cases s with
    | nil => exact Verdict.ends_exhausted hwait
    | cons e s =>
      dsimp only
      split
      · exact ends_takeWhile test hwait (e :: s)
      · trivial
  | otherThan elements =>
    rw [verdict_otherThan]
    dsimp only
    split
    · rename_i h
      exact hwait h.2
    · split <;> trivial
  | endOfInput =>
    rw [verdict_endOfInput]
    cases s with
    | nil =>
      cases final with
      | false => exact hwait rfl
      | true => trivial
    | cons e s => trivial
  | succeed value =>
    rw [verdict_succeed]
    trivial
  | undecided best count =>
    rw [verdict_undecided]
    exact h
  | map f p ih =>
    rw [verdict_map]
    exact (ih h hwait s).reanchor.map f
  | mapRaising f p ih =>
    rw [verdict_mapRaising]
    exact (ih h.2 hwait s).mapRaising h.1
  | recast f p ih =>
    rw [verdict_recast]
    exact (ih h hwait s).map f
  | judge refusal accept p ih =>
    rw [verdict_judge]
    exact (ih h hwait s).judge refusal accept
  | bind p next ih ihNext =>
    rw [verdict_bind]
    exact (ih h.1 hwait s).andThen fun a rest => ihNext a (h.2 a) hwait rest
  | optional p ih =>
    rw [verdict_optional]
    exact (ih h hwait s).optional
  | either p q ih ih' =>
    rw [verdict_either]
    exact (ih h.1 hwait s).either (ih' h.2 hwait s)
  | alt p q ih ih' =>
    rw [verdict_alt]
    exact (ih h.1 hwait s).alt (ih' h.2 hwait s)
  | noAlternative => trivial
  | peek p ih =>
    rw [verdict_peek]
    exact (ih h hwait s).peek
  | pipe outer inner ih ih' =>
    rw [verdict_pipe]
    exact (ih h.1 hwait s).pipe (ih' h.2 nofun)
  | repeatAny p ih =>
    rw [verdict_repeatAny]
    exact Verdict.ends_many (ih h hwait) s
  | repeatSome p ih =>
    rw [verdict_repeatSome, verdict_repeatAny]
    exact (Verdict.ends_many (ih h hwait) s).atLeastOne
  | separatedItems separator item ih ih' =>
    rw [verdict_separatedItems]
    exact Verdict.ends_separated (ih h.1 hwait) (ih' h.2 hwait) s s
  | label p name ih =>
    rw [verdict_label]
    exact ih h hwait s
  | halt name p ih =>
    rw [verdict_halt]
    exact (ih h hwait s).halt
  | acceptLimit p ih =>
    have hv : (acceptLimit p).verdict final s = (p.verdict final s).acceptLimit :=
      verdict_run_acceptLimit p (.start final s)
    rw [hv]
    exact (ih h hwait s).acceptLimit

/-! ## Functions that are defined at what they are given -/

end Grammar

/-- Every value that an outcome carries has a property, a partial result too. -/
def Outcome.Yields (P : α → Prop) : Outcome ε α → Prop
  | matched value _ => P value
  | truncated (some best) _ => P best
  | _ => True

namespace Grammar

variable [Element ε] {p : Grammar ε α} {P : α → Prop} {Q : β → Prop}

/-- **All that a grammar yields has a property**, wherever it is run. -/
def Yields (P : α → Prop) (p : Grammar ε α) : Prop := ∀ c, (p.run c).Yields P

theorem Yields.mono (h : p.Yields P) {P' : α → Prop} (hP : ∀ a, P a → P' a) : p.Yields P' := by
  intro c
  have hc := h c
  cases hrun : p.run c with
  | matched value remainder =>
    rw [hrun] at hc
    exact hP value hc
  | truncated best remainder =>
    rw [hrun] at hc
    cases best with
    | none => trivial
    | some best => exact hP best hc
  | _ => trivial

theorem yields_satisfy (test : ε → Bool) (what : Expectation) :
    (satisfy test what).Yields fun e => test e = true := by
  intro c
  simp only [run, runSatisfy]
  split
  · unfold exhausted
    split <;> trivial
  · split
    · assumption
    · trivial

theorem yields_ascii (c : Char) : (ascii c : Grammar ε ε).Yields (· = Element.ofAscii c) :=
  (yields_satisfy _ _).mono fun _ h => by simpa using h

theorem yields_asciiOf (chars : List Char) :
    (asciiOf chars : Grammar ε ε).Yields (· ∈ Element.piece chars) :=
  (yields_satisfy _ _).mono fun _ h => List.contains_iff_mem.mp h

/-- A piece of so many elements has as many, and a beginning of it has fewer. -/
theorem yields_take (count : Nat) :
    (take count : Grammar ε (List ε)).Yields fun piece => piece.length ≤ count := by
  intro c
  have hle : (c.sliceAhead count).length ≤ count := by
    rw [Cursor.sliceAhead_eq]
    exact List.length_take_le _ _
  simp only [run, runTake]
  split
  · exact hle
  · split
    · trivial
    · exact hle

/-- The elements of a run pass its test, however far it has come. -/
theorem yields_takeWhile (test : ε → Bool) :
    (takeWhile test).Yields fun piece => ∀ e ∈ piece, test e = true := by
  intro c
  have hall : ∀ e ∈ c.sliceTo (c.scan test), test e = true := by
    rw [(scan_split test c).1]
    exact List.all_eq_true.mp List.all_takeWhile
  simp only [run, runTakeWhile]
  split <;> exact hall

theorem yields_takeSomeWhile (test : ε → Bool) :
    (takeSomeWhile test).Yields fun piece => ∀ e ∈ piece, test e = true := by
  intro c
  have h := yields_takeWhile test c
  simp only [run] at h
  simp only [run, runTakeSomeWhile]
  split
  · unfold exhausted
    split <;> trivial
  · split
    · exact h
    · trivial

theorem Yields.map [Vacancy β] (h : p.Yields P) {f : α → β} (hf : ∀ a, P a → Q (f a)) :
    (map f p).Yields Q := by
  intro c
  have hc := h c
  simp only [run]
  cases hrun : p.run c with
  | matched value remainder =>
    rw [hrun] at hc
    exact hf value hc
  | truncated best remainder =>
    rw [hrun] at hc
    cases best with
    | none => trivial
    | some best =>
      dsimp only
      obtain hvacant | hpartial := Vacancy.toPartial_eq (f best)
      · rw [hvacant]
        trivial
      · rw [hpartial]
        exact hf best hc
  | _ => trivial

theorem Yields.judge (h : p.Yields P) (refusal : Refusal) {accept : α → Except (Nat → Reason) β}
    (haccept : ∀ a b, P a → accept a = .ok b → Q b) : (judge refusal accept p).Yields Q := by
  intro c
  have hc := h c
  simp only [run]
  cases hrun : p.run c with
  | matched value remainder =>
    rw [hrun] at hc
    dsimp only
    cases hv : accept value with
    | ok accepted => exact haccept value accepted hc hv
    | error reason => cases refusal <;> trivial
  | _ => trivial

theorem Yields.bind (h : p.Yields P) {next : α → Grammar ε β}
    (hnext : ∀ a, P a → (next a).Yields Q) : (bind p next).Yields Q := by
  intro c
  have hc := h c
  simp only [run]
  cases hrun : p.run c with
  | matched value middle =>
    rw [hrun] at hc
    have hn := hnext value hc middle
    dsimp only
    cases hrun' : (next value).run middle with
    | truncated best remainder => trivial
    | _ => rw [hrun'] at hn; exact hn
  | _ => trivial

theorem Yields.optional (h : p.Yields P) : (optional p).Yields fun v => ∀ a ∈ v, P a := by
  intro c
  have hc := h c
  simp only [run]
  cases hrun : p.run c with
  | matched value remainder =>
    rw [hrun] at hc
    simpa [Outcome.Yields] using hc
  | rejected reason =>
    intro a ha
    cases ha
  | truncated best remainder =>
    rw [hrun] at hc
    cases best with
    | none => trivial
    | some best => simpa [Outcome.Yields] using hc
  | _ => trivial

/-- **A partial function that is defined at all that a grammar yields** reads its values
like a total one. -/
theorem Yields.run_mapRaising [Vacancy β] (h : p.Yields P) {f : α → Except Fault β} {g : α → β}
    (hf : ∀ a, P a → f a = .ok (g a)) : (mapRaising f p).run = (Grammar.map g p).run := by
  funext c
  have hc := h c
  simp only [run]
  cases hrun : p.run c with
  | matched value remainder =>
    rw [hrun] at hc
    simp only [hf value hc]
  | truncated best remainder =>
    rw [hrun] at hc
    cases best with
    | none => rfl
    | some best => simp only [hf best hc]
  | _ => rfl

end Grammar

end StreamGrammar
