import StreamGrammar.Proofs.Answers
import StreamGrammar.Proofs.Uri.Final

/-!
# Complete input is decided

On complete input a matcher has nothing to wait for, and a combinator waits only for
its parts. That settles the question only if the parts run on complete input as well,
and no combinator says so: a sequence runs its second part at a remainder, a loop at one
remainder after another, a lookahead at the place it goes back to, and each of these
cursors is one that some part before it has returned. That a part returns none that
waits for more is therefore half of the statement. `Outcome.Settled` has both halves,
the outcome is not truncated and its remainder is complete, and is what the induction
carries.

The inner grammar of a pipe runs on a source of its own, which is complete whatever the
cursor of the pipe was. So a pipe does not find it incomplete in either mode of input.

Of the functions in a grammar nothing is asked. One that fails ends the run, and a run
that has ended waits for nothing.
-/

namespace StreamGrammar

variable {ε α σ : Type}

/-- **An outcome that leaves nothing open**: it is not truncated, and what is parsed
after it is parsed in complete input. -/
def Outcome.Settled : Outcome ε α → Prop
  | matched _ remainder => remainder.final = true
  | truncated _ _ => False
  | _ => True

namespace Outcome.Settled

theorem ne_truncated {o : Outcome ε α} (h : o.Settled) (best : Option α)
    (remainder : Cursor ε) : o ≠ .truncated best remainder := by
  rintro rfl
  exact h

theorem refusal (refusal : Refusal) (reason : Reason) :
    (refusal.outcome reason : Outcome ε α).Settled := by
  cases refusal <;> trivial

/-- A choice leaves nothing open if its alternatives do not. The rules for a first one
that is cut short never apply. -/
theorem either [Vacancy α] {first second : Parser ε α} {c : Cursor ε}
    (hfirst : (first c).Settled) (hsecond : (second c).Settled) :
    (Choice.either first second c).Settled := by
  simp only [Choice.either]
  generalize first c = o at hfirst ⊢
  cases o with
  | rejected reason => exact hsecond
  | truncated best remainder => exact hfirst.elim
  | _ => exact hfirst

theorem alt {first second : Parser ε α} {c : Cursor ε} (hfirst : (first c).Settled)
    (hsecond : (second c).Settled) : (Choice.alt first second c).Settled := by
  simp only [Choice.alt]
  generalize first c = o at hfirst ⊢
  cases o with
  | rejected reason => exact hsecond
  | truncated best remainder => exact hfirst.elim
  | _ => exact hfirst

/-- **A repetition leaves nothing open** if its rounds do not: each starts where the one
before it ended. -/
theorem collect {step : Parser ε α} (hstep : ∀ c, c.final = true → (step c).Settled)
    (values : List α) (c : Cursor ε) (hc : c.final = true) :
    (Repetition.collect step values c).Settled := by
  fun_induction Repetition.collect step values c with
  | case1 values c value remainder hround _ ih =>
    have h := hstep c hc
    rw [hround] at h
    exact ih h
  | case2 => exact hc
  | case3 => exact hc
  | case4 | case6 => trivial
  | case5 values c best remainder hround =>
    have h := hstep c hc
    rw [hround] at h
    exact h

/-- The same of items and separators. The place after the last item is one more that is
returned to. -/
theorem collectSeparated {separator : Parser ε σ} {item : Parser ε α}
    (hseparator : ∀ c, c.final = true → (separator c).Settled)
    (hitem : ∀ c, c.final = true → (item c).Settled) (items : List α)
    (c afterItem : Cursor ε) (hc : c.final = true) (hafter : afterItem.final = true) :
    (Repetition.collectSeparated separator item items c afterItem).Settled := by
  fun_induction Repetition.collectSeparated separator item items c afterItem with
  | case1 items c afterItem value remainder hround mark past hmark _ ih =>
    have h := hitem c hc
    rw [hround] at h
    have h' := hseparator remainder h
    rw [hmark] at h'
    exact ih h' h
  | case2 items c afterItem value remainder hround
  | case3 items c afterItem value remainder hround =>
    have h := hitem c hc
    rw [hround] at h
    exact h
  | case5 items c afterItem value remainder hround best stop hmark =>
    have h := hitem c hc
    rw [hround] at h
    have h' := hseparator remainder h
    rw [hmark] at h'
    exact h'.elim
  | case7 => exact hafter
  | case9 items c afterItem best remainder hround =>
    have h := hitem c hc
    rw [hround] at h
    exact h
  | case4 | case6 | case8 | case10 => trivial

end Outcome.Settled

namespace Grammar

/-- **A grammar in which nothing is left undecided of its own accord**: one that is
built from the matchers that look at the input, from values and from combinators. -/
def Resolute : {α : Type} → Grammar ε α → Prop
  | _, satisfy _ _ => True
  | _, literal _ => True
  | _, take _ => True
  | _, takeWhile _ => True
  | _, takeSomeWhile _ => True
  | _, otherThan _ => True
  | _, endOfInput => True
  | _, succeed _ => True
  | _, undecided _ _ => False
  | _, map _ p => Resolute p
  | _, mapRaising _ p => Resolute p
  | _, recast _ p => Resolute p
  | _, judge _ _ p => Resolute p
  | _, bind p next => Resolute p ∧ ∀ a, Resolute (next a)
  | _, optional p => Resolute p
  | _, either first second => Resolute first ∧ Resolute second
  | _, alt first second => Resolute first ∧ Resolute second
  | _, noAlternative => True
  | _, peek p => Resolute p
  | _, pipe outer inner => Resolute outer ∧ Resolute inner
  | _, repeatAny p => Resolute p
  | _, repeatSome p => Resolute p
  | _, separatedItems separator item => Resolute separator ∧ Resolute item
  | _, label p _ => Resolute p
  | _, halt _ p => Resolute p
  | _, acceptLimit p => Resolute p

variable {g : Grammar ε α} {c : Cursor ε}

/-- A grammar that may not wait has nothing in it that does. -/
theorem Guarded.resolute (h : g.Guarded False) : g.Resolute := by
  induction g with
  | map _ _ ih | recast _ _ ih | judge _ _ _ ih | optional _ ih | peek _ ih | repeatAny _ ih
  | repeatSome _ ih | label _ _ ih | halt _ _ ih | acceptLimit _ ih => exact ih h
  | mapRaising _ _ ih => exact ih h.2
  | bind _ _ ih ihNext => exact ⟨ih h.1, fun a => ihNext a (h.2 a)⟩
  | either _ _ ih ih' | alt _ _ ih ih' | pipe _ _ ih ih' | separatedItems _ _ ih ih' =>
    exact ⟨ih h.1, ih' h.2⟩
  | _ => exact h

/-! ## Grammars leave nothing open -/

theorem settled_exhausted (hc : c.final = true) (what : Expectation) :
    (exhausted c what : Outcome ε α).Settled := by
  rw [exhausted, if_pos hc]
  trivial

theorem settled_runTakeWhile (hc : c.final = true) (test : ε → Bool) :
    (runTakeWhile test c).Settled := by
  simp only [runTakeWhile, hc, Bool.not_true, Bool.and_false]
  exact hc

variable [Element ε]

/-- **On complete input a resolute grammar decides, and goes on in complete input.** -/
theorem Resolute.settled (h : g.Resolute) (hc : c.final = true) : (g.run c).Settled := by
  induction g generalizing c with
  | satisfy test what =>
    simp only [run, runSatisfy]
    split
    · exact settled_exhausted hc what
    · split
      · exact hc
      · trivial
  | literal expected =>
    simp only [run, runLiteral, hc, Bool.not_true, Bool.and_false, Bool.false_and]
    split
    · exact hc
    · trivial
  | take count =>
    simp only [run, runTake, hc]
    split
    · exact hc
    · trivial
  | takeWhile test => exact settled_runTakeWhile hc test
  | takeSomeWhile test =>
    simp only [run, runTakeSomeWhile]
    split
    · exact settled_exhausted hc .matching
    · split
      · exact settled_runTakeWhile hc test
      · trivial
  | otherThan elements =>
    simp only [run, runOtherThan, hc, Bool.not_true, Bool.and_false]
    split
    · trivial
    · split
      · trivial
      · exact hc
  | endOfInput =>
    simp only [run, runEndOfInput, hc]
    split
    · trivial
    · exact hc
  | succeed value => exact hc
  | undecided best count => exact h.elim
  | map f p ih =>
    have hp := ih h hc
    simp only [run]
    generalize p.run c = o at hp ⊢
    cases o with
    | truncated best remainder => exact hp.elim
    | _ => exact hp
  | mapRaising f p ih =>
    have hp := ih h hc
    simp only [run]
    generalize p.run c = o at hp ⊢
    cases o with
    | matched value remainder =>
      dsimp only
      split
      · exact hp
      · trivial
    | truncated best remainder => exact hp.elim
    | _ => exact hp
  | recast f p ih =>
    have hp := ih h hc
    simp only [run]
    generalize p.run c = o at hp ⊢
    cases o <;> exact hp
  | judge refusal verdict p ih =>
    have hp := ih h hc
    simp only [run]
    generalize p.run c = o at hp ⊢
    cases o with
    | matched value remainder =>
      dsimp only
      split
      · exact hp
      · exact .refusal refusal _
    | truncated best remainder => exact hp.elim
    | _ => exact hp
  | bind p next ih ihNext =>
    have hp := ih h.1 hc
    simp only [run]
    generalize p.run c = o at hp ⊢
    cases o with
    | matched value middle =>
      have hnext := ihNext value (h.2 value) hp
      dsimp only
      generalize (next value).run middle = o at hnext ⊢
      cases o with
      | truncated best remainder => exact hnext.elim
      | _ => exact hnext
    | truncated best remainder => exact hp.elim
    | _ => exact hp
  | optional p ih =>
    have hp := ih h hc
    simp only [run]
    generalize p.run c = o at hp ⊢
    cases o with
    | rejected reason => exact hc
    | _ => exact hp
  | either p q ihp ihq => exact .either (ihp h.1 hc) (ihq h.2 hc)
  | alt p q ihp ihq => exact .alt (ihp h.1 hc) (ihq h.2 hc)
  | noAlternative => trivial
  | peek p ih =>
    have hp := ih h hc
    simp only [run]
    generalize p.run c = o at hp ⊢
    cases o with
    | matched value remainder => exact hc
    | _ => exact hp
  | pipe outer inner ihOuter ihInner =>
    have houter := ihOuter h.1 hc
    simp only [run]
    generalize outer.run c = o at houter ⊢
    cases o with
    | matched piece remainder =>
      dsimp only
      generalize inner.run (.complete piece) = o
      cases o with
      | matched value stop => exact houter
      | _ => trivial
    | truncated best remainder => exact houter.elim
    | _ => exact houter
  | repeatAny p ih => exact .collect (fun c hc => ih h hc) [] c hc
  | repeatSome p ih =>
    have hmany := Outcome.Settled.collect (fun c hc => ih h hc) [] c hc
    simp only [run]
    generalize Repetition.collect p.run [] c = o at hmany ⊢
    split
    · trivial
    · exact hmany
  | separatedItems separator item ihSeparator ihItem =>
    exact .collectSeparated (fun c hc => ihSeparator h.1 hc) (fun c hc => ihItem h.2 hc) []
      c c hc hc
  | label p name ih =>
    have hp := ih h hc
    simp only [run]
    generalize p.run c = o at hp ⊢
    cases o <;> exact hp
  | halt name p ih =>
    have hp := ih h hc
    simp only [run]
    generalize p.run c = o at hp ⊢
    cases o <;> exact hp
  | acceptLimit p ih =>
    have hp := ih h hc
    simp only [run]
    generalize p.run c = o at hp ⊢
    cases o with
    | truncated best remainder => exact hp.elim
    | _ => exact hp

/-! ## Nothing is reported missing -/

/-- **A grammar that decides complete input**: it is never truncated there, as the inner
grammar of a pipe it is not found to be incomplete, and a parse of a complete source
does not report that input is missing. -/
structure DecidesComplete (g : Grammar ε α) : Prop where
  /-- No run on complete input is truncated, wherever it starts. -/
  run : ∀ c : Cursor ε, c.final = true → ∀ best remainder, g.run c ≠ .truncated best remainder
  /-- A pipe into the grammar adds no fatal outcome of its own, on input of either
  kind: each is that of the outer grammar or that of this one. -/
  pipe : ∀ (outer : Grammar ε (List ε)) (c : Cursor ε) (reason : Reason),
    (outer.pipe g).run c = .fatal reason → outer.run c = .fatal reason ∨
      ∃ piece remainder, outer.run c = .matched piece remainder ∧
        g.run (.complete piece) = .fatal reason
  /-- No parse of a complete source reports that input is missing. -/
  parseAll : ∀ (source : List ε) (settings : ParseSettings) notice reason fatal,
    g.parseAll source settings ≠ .error (.incomplete notice reason fatal)

theorem fatal_of_run_pipe {outer : Grammar ε (List ε)} {reason : Reason}
    (h : ∀ piece best remainder, g.run (.complete piece) ≠ .truncated best remainder)
    (hrun : (outer.pipe g).run c = .fatal reason) :
    outer.run c = .fatal reason ∨ ∃ piece remainder, outer.run c = .matched piece remainder ∧
      g.run (.complete piece) = .fatal reason := by
  simp only [Grammar.run] at hrun
  cases houter : outer.run c with
  | matched piece remainder =>
    refine .inr ⟨piece, remainder, rfl, ?_⟩
    rw [houter] at hrun
    dsimp only at hrun
    cases hinner : g.run (.complete piece) with
    | truncated best stop => exact absurd hinner (h piece best stop)
    | fatal found =>
      rw [hinner] at hrun
      cases hrun
      rfl
    | _ => rw [hinner] at hrun; cases hrun
  | fatal found =>
    rw [houter] at hrun
    cases hrun
    exact .inl rfl
  | _ => rw [houter] at hrun; cases hrun

theorem parseAll_ne_incomplete {source : List ε}
    (h : ∀ best remainder, g.run (.complete source) ≠ .truncated best remainder)
    (settings : ParseSettings) (notice : Notice) (reason : Text) (fatal : Bool) :
    g.parseAll source settings ≠ .error (.incomplete notice reason fatal) := by
  rw [Grammar.parseAll]
  cases hlimit : Limits.resolve settings.maxSourceSize Limits.maxSourceSize with
  | error failure =>
    obtain ⟨why, rfl⟩ := Limits.invalidArgument_of_resolve hlimit
    simp
  | ok limit =>
    dsimp only
    cases hsize : Limits.checkSourceSize source.length limit with
    | error failure =>
      unfold Limits.checkSourceSize at hsize
      split at hsize <;> cases hsize
      simp
    | ok admitted =>
      dsimp only
      cases hrun : g.run (.complete source) with
      | matched value remainder => dsimp only; split <;> simp
      | truncated best remainder => exact absurd hrun (h best remainder)
      | _ => simp

theorem Resolute.decidesComplete (h : g.Resolute) : g.DecidesComplete where
  run _ hc := (h.settled hc).ne_truncated
  pipe _ _ _ :=
    fatal_of_run_pipe fun piece => (h.settled (c := .complete piece) rfl).ne_truncated
  parseAll source := parseAll_ne_incomplete (h.settled (c := .complete source) rfl).ne_truncated

theorem Guarded.decidesComplete (h : g.Guarded False) : g.DecidesComplete :=
  h.resolute.decidesComplete

end Grammar

/-! ## The grammars of request heads, of JSON and of URIs -/

open Grammar

theorem Http.resolute_headerLine : Http.headerLine.Resolute :=
  ⟨trivial, fun _ => ⟨trivial, fun _ => ⟨trivial, fun _ => trivial⟩⟩⟩

theorem Http.resolute_requestLine : Http.requestLine.Resolute := by
  have hmethod : (terminated Http.method Http.blank).Resolute := ⟨trivial, fun _ => trivial⟩
  have htarget : (terminated Http.target Http.blank).Resolute := ⟨trivial, fun _ => trivial⟩
  have hversion : (terminated Http.version Http.lineEnd).Resolute :=
    ⟨⟨trivial, fun _ => trivial⟩, fun _ => trivial⟩
  exact ⟨hmethod, fun _ => ⟨htarget, fun _ => hversion⟩⟩

theorem Http.resolute_requestHead : Http.requestHead.Resolute :=
  ⟨Http.resolute_requestLine, fun _ => ⟨Http.resolute_headerLine, fun _ => trivial⟩⟩

/-- **Complete input is decided** by everything that is built from matchers and
combinators. The grammars of request heads, of JSON over any alphabet and at any limit
on nesting, with its escapes for the halves of a surrogate pair, and of URIs are. -/
theorem complete_input_is_decided :
    (∀ {ε α : Type} [Element ε] (g : Grammar ε α), g.Resolute → g.DecidesComplete) ∧
    (Http.requestLine.DecidesComplete ∧ Http.headerLine.DecidesComplete ∧
      Http.headerEntry.DecidesComplete ∧ Http.divider.DecidesComplete ∧
      Http.requestHead.DecidesComplete) ∧
    (∀ {ε : Type} [Element ε], (Json.unicodeEscape : Grammar ε Text).DecidesComplete ∧
      ∀ limit : Nat, (Json.value limit : Grammar ε Json).DecidesComplete ∧
        (Json.document limit : Grammar ε Json).DecidesComplete ∧
        (Json.text limit : Grammar ε Json).DecidesComplete) ∧
    (Uri.scheme.DecidesComplete ∧ Uri.decOctet.DecidesComplete ∧
      Uri.ipv4Address.DecidesComplete ∧ Uri.regName.DecidesComplete ∧
      Uri.host.DecidesComplete ∧ Uri.port.DecidesComplete ∧ Uri.userinfo.DecidesComplete ∧
      Uri.authority.DecidesComplete ∧ Uri.segment.DecidesComplete ∧
      Uri.relativePath.DecidesComplete ∧ Uri.absolutePath.DecidesComplete ∧
      Uri.query.DecidesComplete ∧ Uri.fragment.DecidesComplete ∧
      Uri.absoluteUri.DecidesComplete ∧ Uri.requestTarget.DecidesComplete ∧
      Uri.percentEncoded.DecidesComplete ∧ Uri.anyComponent.DecidesComplete) := by
  refine ⟨fun g hg => hg.decidesComplete, ⟨?_, ?_, ?_, ?_, ?_⟩, ⟨?_, fun limit => ⟨?_, ?_, ?_⟩⟩,
    ?_, ?_, ?_, ?_, ?_, ?_, ?_, ?_, ?_, ?_, ?_, ?_, ?_, ?_, ?_, ?_, ?_⟩
  · exact Http.resolute_requestLine.decidesComplete
  · exact Http.resolute_headerLine.decidesComplete
  · exact Resolute.decidesComplete ⟨trivial, Http.resolute_headerLine⟩
  · exact Resolute.decidesComplete trivial
  · exact Http.resolute_requestHead.decidesComplete
  · exact Json.guarded_unicodeEscape.decidesComplete
  · exact (Json.guarded_valueWith (Json.guarded_container limit limit)).decidesComplete
  · exact Guarded.decidesComplete ⟨trivial, fun _ => Json.guarded_container limit limit⟩
  · exact (Json.guarded_text limit).decidesComplete
  · exact Resolute.decidesComplete ⟨trivial, fun _ => trivial⟩
  · exact Uri.guarded_decOctet.decidesComplete
  · exact Uri.guarded_ipv4Address.decidesComplete
  · exact Guarded.decidesComplete ⟨Uri.guarded_percentEncoded, trivial, trivial⟩
  · exact Guarded.decidesComplete ⟨⟨Uri.guarded_ipv4Address, fun _ => ⟨trivial, trivial, trivial⟩⟩,
      Uri.guarded_percentEncoded, trivial, trivial⟩
  · exact Resolute.decidesComplete ⟨trivial, fun _ => trivial⟩
  · exact Guarded.decidesComplete ⟨⟨Uri.guarded_percentEncoded, trivial, trivial⟩, fun _ => trivial⟩
  · exact Uri.guarded_authority.decidesComplete
  · exact (Uri.guarded_component _).decidesComplete
  · exact Uri.guarded_relativePath.decidesComplete
  · exact Uri.guarded_absolutePath.decidesComplete
  · exact Uri.guarded_query.decidesComplete
  · exact Guarded.decidesComplete ⟨trivial, fun _ => Uri.guarded_component _⟩
  · exact Uri.guarded_absoluteUri.decidesComplete
  · exact Uri.guarded_requestTarget.decidesComplete
  · exact Uri.guarded_percentEncoded.decidesComplete
  · exact Uri.guarded_anyComponent.decidesComplete

/-- Pairs of digits between commas, where the last is one digit short and the cursor is
before it. -/
theorem pairs_of_digits_are_decided :
    (separatedItems (ascii ',') (Json.digits.pipe (take 2)) :
        Grammar CodePoint (List Text)).Resolute ∧
      ∀ best remainder,
        (separatedItems (ascii ',') (Json.digits.pipe (take 2)) :
          Grammar CodePoint (List Text)).run
          { source := (Text.ofString "12,3").toArray, pos := 3, final := true } ≠
            .truncated best remainder := by
  have hresolute : (separatedItems (ascii ',') (Json.digits.pipe (take 2)) :
      Grammar CodePoint (List Text)).Resolute := ⟨trivial, trivial, trivial⟩
  exact ⟨hresolute, (complete_input_is_decided.1 _ hresolute).run _ rfl⟩

end StreamGrammar
