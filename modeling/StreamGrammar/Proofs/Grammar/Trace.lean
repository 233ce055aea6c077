import StreamGrammar.Grammar.Run

/-!
# A fatal outcome ends the evaluation

That every combinator passes a fatal outcome on is seen from `Grammar.run` one
combinator at a time. It does not follow that no fatal outcome is lost: the outcome of
the whole does not show what was run on the way, and an alternative that was tried after
the failure, and matched, would leave no mark. So this is a statement on evaluations,
and `Grammar.traced` is the evaluation that keeps a record. It runs a part by
`Traced.call` and in no other way, which writes down that the part is entered and that it
is left, and it makes its outcome only from what the parts come to. That outcome is the
one of `run` (`traced_outcome`), so nothing that `run` depends on goes unrecorded.

The invariant of a record is that its failures are its last steps
(`Traced.FailsLast`): a part that fails is left, then the part around it, and so on
outwards, and all of them fail for the one reason. On the way out a reason is only ever
wrapped by labels. A record therefore keeps, with each step by which a part is left, the
names of the labels around the part, so that the steps out of a failure stand for the
same reason.
-/

namespace StreamGrammar

variable {ε α β σ : Type}

/-- **A step of an evaluation.** -/
inductive Step (ε : Type) : Type 1 where
  /-- A part is run. -/
  | enters {α : Type} (part : Grammar ε α) (place : Cursor ε)
  /-- The run of a part ends. The labels are those around the part, from the outermost
  to the innermost. -/
  | leaves {α : Type} (labels : List Text) (part : Grammar ε α) (place : Cursor ε)

namespace Step

/-- Whether a part begins to run. -/
def isEntry : Step ε → Bool
  | enters _ _ => true
  | leaves _ _ _ => false

/-- The step within one more label. -/
def under (name : Text) : Step ε → Step ε
  | enters part place => enters part place
  | leaves labels part place => leaves (name :: labels) part place

/-- The reason for which a step ends the evaluation, if it does: that of the part that
is left, within the labels around it. -/
def fatal? [Element ε] : Step ε → Option Reason
  | enters _ _ => none
  | leaves labels part place =>
    match part.run place with
    | .fatal reason => some (labels.foldr .labelledFatal reason)
    | _ => none

theorem isEntry_of_fatal? [Element ε] {step : Step ε} {reason : Reason}
    (h : step.fatal? = some reason) : step.isEntry = false := by
  cases step with
  | enters part place => cases h
  | leaves labels part place => rfl

theorem fatal?_under [Element ε] (name : Text) (step : Step ε) :
    (step.under name).fatal? = step.fatal?.map (.labelledFatal name) := by
  cases step with
  | enters part place => rfl
  | leaves labels part place =>
    simp only [under, fatal?]
    cases part.run place <;> rfl

end Step

/-- **An outcome with the record of how it came about**: the parts that were run, in the
order of time. -/
structure Traced (ε α : Type) : Type 1 where
  /-- The steps of the evaluation. -/
  steps : List (Step ε)
  /-- What it comes to. -/
  outcome : Outcome ε α

namespace Traced

/-- An outcome that is come to without running a part. -/
def done (outcome : Outcome ε α) : Traced ε α := ⟨[], outcome⟩

/-- An evaluation that goes on with what the first one comes to. -/
def andThen (t : Traced ε α) (next : Outcome ε α → Traced ε β) : Traced ε β :=
  ⟨t.steps ++ (next t.outcome).steps, (next t.outcome).outcome⟩

/-- An evaluation that is the run of a part. -/
def call (t : Traced ε α) (part : Grammar ε α) (place : Cursor ε) : Traced ε α :=
  ⟨.enters part place :: t.steps ++ [.leaves [] part place], t.outcome⟩

/-- An evaluation within a label, which puts its name before the reason of a failure. -/
def under (name : Text) (t : Traced ε α) : Traced ε α where
  steps := t.steps.map (Step.under name)
  outcome :=
    match t.outcome with
    | .fatal reason => .fatal (.labelledFatal name reason)
    | outcome => outcome

@[simp] theorem outcome_done (outcome : Outcome ε α) : (done outcome).outcome = outcome := rfl

@[simp] theorem outcome_andThen (t : Traced ε α) (next : Outcome ε α → Traced ε β) :
    (t.andThen next).outcome = (next t.outcome).outcome := rfl

@[simp] theorem outcome_call (t : Traced ε α) (part : Grammar ε α) (place : Cursor ε) :
    (t.call part place).outcome = t.outcome := rfl

/-! ## Repetition -/

/-- `Repetition.collect`, recorded. -/
def collect (step : Cursor ε → Traced ε α) (values : List α) (c : Cursor ε) :
    Traced ε (List α) :=
  (step c).andThen fun
    | .matched value remainder =>
      if remainder.distance < c.distance then collect step (value :: values) remainder
      else done (.matched values.reverse c)
    | .rejected _ => done (.matched values.reverse c)
    | .fatal reason => done (.fatal reason)
    | .truncated best remainder =>
      done (.truncated (some (best.toList ++ values).reverse) remainder)
    | .raised fault => done (.raised fault)
termination_by c.distance

/-- `Repetition.collectSeparated`, recorded. -/
def collectSeparated (separator : Cursor ε → Traced ε σ) (item : Cursor ε → Traced ε α)
    (items : List α) (c afterItem : Cursor ε) : Traced ε (List α) :=
  (item c).andThen fun
    | .matched value remainder =>
      (separator remainder).andThen fun
        | .matched _ past =>
          if past.distance < remainder.distance ∧ past.distance < c.distance then
            collectSeparated separator item (value :: items) past remainder
          else done (.matched (value :: items).reverse remainder)
        | .rejected _ => done (.matched (value :: items).reverse remainder)
        | .fatal reason => done (.fatal reason)
        | .truncated _ _ => done (.truncated (some (value :: items).reverse) remainder)
        | .raised fault => done (.raised fault)
    | .rejected _ => done (.matched items.reverse afterItem)
    | .fatal reason => done (.fatal reason)
    | .truncated best remainder =>
      done (.truncated (some (best.toList ++ items).reverse) remainder)
    | .raised fault => done (.raised fault)
termination_by c.distance
decreasing_by omega

end Traced

namespace Grammar

variable [Element ε]

/-- **The evaluation of a grammar at a cursor**, with the record of the parts that it
runs. -/
def traced : {α : Type} → Grammar ε α → Cursor ε → Traced ε α
  | _, satisfy test what, c => .done (runSatisfy test what c)
  | _, literal expected, c => .done (runLiteral expected c)
  | _, take count, c => .done (runTake count c)
  | _, takeWhile test, c => .done (runTakeWhile test c)
  | _, takeSomeWhile test, c => .done (runTakeSomeWhile test c)
  | _, otherThan elements, c => .done (runOtherThan elements c)
  | _, endOfInput, c => .done (runEndOfInput c)
  | _, succeed value, c => .done (.matched value c)
  | _, undecided best count, c =>
    .done (.truncated (best.bind Vacancy.toPartial) (c.advance count))
  | _, map f p, c =>
    ((traced p c).call p c).andThen fun
      | .matched value remainder => .done (.matched (f value) remainder)
      | .rejected reason => .done (.rejected reason)
      | .fatal reason => .done (.fatal reason)
      | .truncated none _ => .done (.truncated none c)
      | .truncated (some best) remainder =>
        .done (.truncated (Vacancy.toPartial (f best)) remainder)
      | .raised fault => .done (.raised fault)
  | _, mapRaising f p, c =>
    ((traced p c).call p c).andThen fun
      | .matched value remainder =>
        match f value with
        | .ok converted => .done (.matched converted remainder)
        | .error fault => .done (.raised fault)
      | .rejected reason => .done (.rejected reason)
      | .fatal reason => .done (.fatal reason)
      | .truncated none _ => .done (.truncated none c)
      | .truncated (some best) remainder =>
        match f best with
        | .ok converted => .done (.truncated (Vacancy.toPartial converted) remainder)
        | .error fault => .done (.raised fault)
      | .raised fault => .done (.raised fault)
  | _, recast f p, c => ((traced p c).call p c).andThen fun outcome => .done (outcome.map f)
  | _, judge refusal verdict p, c =>
    ((traced p c).call p c).andThen fun
      | .matched value remainder =>
        match verdict value with
        | .ok accepted => .done (.matched accepted remainder)
        | .error reason => .done (refusal.outcome (reason c.pos))
      | .rejected reason => .done (.rejected reason)
      | .fatal reason => .done (.fatal reason)
      | .truncated _ _ => .done (.truncated none c)
      | .raised fault => .done (.raised fault)
  | _, bind p next, c =>
    ((traced p c).call p c).andThen fun
      | .matched value middle =>
        ((traced (next value) middle).call (next value) middle).andThen fun
          | .truncated _ _ => .done (.truncated none c)
          | decided => .done decided
      | .rejected reason => .done (.rejected reason)
      | .fatal reason => .done (.fatal reason)
      | .truncated _ _ => .done (.truncated none c)
      | .raised fault => .done (.raised fault)
  | _, optional p, c =>
    ((traced p c).call p c).andThen fun
      | .matched value remainder => .done (.matched (some value) remainder)
      | .rejected _ => .done (.matched none c)
      | .fatal reason => .done (.fatal reason)
      | .truncated best remainder => .done (.truncated (best.map some) remainder)
      | .raised fault => .done (.raised fault)
  | _, either first second, c =>
    ((traced first c).call first c).andThen fun
      | .rejected _ => (traced second c).call second c
      | .truncated none _ =>
        ((traced second c).call second c).andThen fun
          | .matched value remainder =>
            .done (.truncated (Vacancy.toPartial value) remainder)
          | other => .done other
      | outcome => .done outcome
  | _, alt first second, c =>
    ((traced first c).call first c).andThen fun
      | .rejected _ => (traced second c).call second c
      | .truncated best remainder =>
        ((traced second c).call second c).andThen fun
          | .rejected _ => .done (.truncated best remainder)
          | other => .done other
      | outcome => .done outcome
  | _, noAlternative, c => .done (Choice.noAlternative c)
  | _, peek p, c =>
    ((traced p c).call p c).andThen fun
      | .matched value _ => .done (.matched value c)
      | outcome => .done outcome
  | _, pipe outer inner, c =>
    ((traced outer c).call outer c).andThen fun
      | .matched piece remainder =>
        ((traced inner (.complete piece)).call inner (.complete piece)).andThen fun
          | .matched value _ => .done (.matched value remainder)
          | .rejected reason => .done (.rejected reason)
          | .fatal reason => .done (.fatal reason)
          | .truncated _ _ => .done (.fatal (.incomplete (Element.datum piece) c.pos))
          | .raised fault => .done (.raised fault)
      | .rejected reason => .done (.rejected reason)
      | .fatal reason => .done (.fatal reason)
      | .truncated _ _ => .done (.truncated none c)
      | .raised fault => .done (.raised fault)
  | _, repeatAny p, c => Traced.collect (fun c => (traced p c).call p c) [] c
  | _, repeatSome p, c =>
    ((Traced.collect (fun c => (traced p c).call p c) [] c).call (repeatAny p) c).andThen fun
      | .matched [] _ => .done (.rejected (.expected .repetition c.pos .unsaid))
      | outcome => .done outcome
  | _, separatedItems separator item, c =>
    Traced.collectSeparated (fun c => (traced separator c).call separator c)
      (fun c => (traced item c).call item c) [] c c
  | _, label p name, c =>
    (((traced p c).call p c).under name).andThen fun
      | .rejected reason => .done (.rejected (.labelled name reason))
      | outcome => .done outcome
  | _, halt name p, c =>
    ((traced p c).call p c).andThen fun
      | .rejected reason => .done (.fatal (.halted name c.pos reason))
      | outcome => .done outcome
  | _, acceptLimit p, c =>
    ((traced p c).call p c).andThen fun
      | .truncated none _ => .done (.rejected (.ended c.pos))
      | .truncated (some best) remainder => .done (.matched best remainder)
      | outcome => .done outcome

/-! ## The recorded evaluation is the evaluation -/

end Grammar

namespace Traced

theorem outcome_collect {step : Cursor ε → Traced ε α} {run : Parser ε α}
    (h : ∀ c, (step c).outcome = run c) (values : List α) (c : Cursor ε) :
    (collect step values c).outcome = Repetition.collect run values c := by
  fun_induction Repetition.collect run values c with
  | case1 values c value remainder hround hlt ih =>
    rw [collect, outcome_andThen, h, hround]
    simp only [if_pos hlt, ih]
  | case2 values c value remainder hround hlt =>
    rw [collect, outcome_andThen, h, hround]
    simp only [if_neg hlt, outcome_done]
  | case3 values c _ hround | case4 values c _ hround | case5 values c _ _ hround
  | case6 values c _ hround =>
    rw [collect, outcome_andThen, h, hround]
    rfl

theorem outcome_collectSeparated {separator : Cursor ε → Traced ε σ}
    {item : Cursor ε → Traced ε α} {runSeparator : Parser ε σ} {runItem : Parser ε α}
    (hseparator : ∀ c, (separator c).outcome = runSeparator c)
    (hitem : ∀ c, (item c).outcome = runItem c) (items : List α) (c afterItem : Cursor ε) :
    (collectSeparated separator item items c afterItem).outcome =
      Repetition.collectSeparated runSeparator runItem items c afterItem := by
  fun_induction Repetition.collectSeparated runSeparator runItem items c afterItem with
  | case1 items c afterItem value remainder hround mark past hmark hlt ih =>
    rw [collectSeparated, outcome_andThen, hitem, hround]
    simp only [outcome_andThen, hseparator, hmark, if_pos hlt, ih]
  | case2 items c afterItem value remainder hround mark past hmark hlt =>
    rw [collectSeparated, outcome_andThen, hitem, hround]
    simp only [outcome_andThen, hseparator, hmark, if_neg hlt, outcome_done]
  | case3 items c _ _ _ hround _ hmark | case4 items c _ _ _ hround _ hmark
  | case5 items c _ _ _ hround _ _ hmark | case6 items c _ _ _ hround _ hmark =>
    rw [collectSeparated, outcome_andThen, hitem, hround]
    simp only [outcome_andThen, hseparator, hmark, outcome_done]
  | case7 items c _ _ hround | case8 items c _ _ hround | case9 items c _ _ _ hround
  | case10 items c _ _ hround =>
    rw [collectSeparated, outcome_andThen, hitem, hround]
    rfl

end Traced

namespace Grammar

variable [Element ε]

/-- **The recorded evaluation is the evaluation.** -/
theorem traced_outcome (g : Grammar ε α) (c : Cursor ε) : (g.traced c).outcome = g.run c := by
  induction g generalizing c with
  | map f p ih =>
    simp only [traced, run, Traced.outcome_andThen, Traced.outcome_call, ih]
    cases p.run c with
    | truncated best remainder => cases best <;> rfl
    | _ => rfl
  | mapRaising f p ih =>
    simp only [traced, run, Traced.outcome_andThen, Traced.outcome_call, ih]
    cases p.run c with
    | matched value remainder => dsimp only; cases f value <;> rfl
    | truncated best remainder =>
      cases best with
      | none => rfl
      | some best => dsimp only; cases f best <;> rfl
    | _ => rfl
  | judge refusal verdict p ih =>
    simp only [traced, run, Traced.outcome_andThen, Traced.outcome_call, ih]
    cases p.run c with
    | matched value remainder => dsimp only; cases verdict value <;> rfl
    | _ => rfl
  | bind p next ih ihNext =>
    simp only [traced, run, Traced.outcome_andThen, Traced.outcome_call, ih]
    cases p.run c with
    | matched value middle =>
      simp only [Traced.outcome_andThen, Traced.outcome_call, ihNext]
      cases (next value).run middle <;> rfl
    | _ => rfl
  | either p q ih ih' =>
    simp only [traced, run, Choice.either, Traced.outcome_andThen, Traced.outcome_call, ih]
    cases p.run c with
    | rejected reason => exact ih' c
    | truncated best remainder =>
      cases best with
      | none =>
        simp only [Traced.outcome_andThen, Traced.outcome_call, ih']
        cases q.run c <;> rfl
      | some best => rfl
    | _ => rfl
  | alt p q ih ih' =>
    simp only [traced, run, Choice.alt, Traced.outcome_andThen, Traced.outcome_call, ih]
    cases p.run c with
    | rejected reason => exact ih' c
    | truncated best remainder =>
      simp only [Traced.outcome_andThen, Traced.outcome_call, ih']
      cases q.run c <;> rfl
    | _ => rfl
  | pipe outer inner ih ih' =>
    simp only [traced, run, Traced.outcome_andThen, Traced.outcome_call, ih]
    cases outer.run c with
    | matched piece remainder =>
      simp only [Traced.outcome_andThen, Traced.outcome_call, ih']
      cases inner.run (.complete piece) <;> rfl
    | _ => rfl
  | repeatAny p ih =>
    have hcall (c : Cursor ε) : ((p.traced c).call p c).outcome = p.run c := ih c
    exact Traced.outcome_collect hcall [] c
  | repeatSome p ih =>
    have hcall (c : Cursor ε) : ((p.traced c).call p c).outcome = p.run c := ih c
    simp only [traced, run, Traced.outcome_andThen, Traced.outcome_call,
      Traced.outcome_collect hcall]
    cases Repetition.collect p.run [] c with
    | matched values remainder => cases values <;> rfl
    | _ => rfl
  | separatedItems separator item ih ih' =>
    have hseparator (c : Cursor ε) : ((separator.traced c).call separator c).outcome =
      separator.run c := ih c
    have hitem (c : Cursor ε) : ((item.traced c).call item c).outcome = item.run c := ih' c
    exact Traced.outcome_collectSeparated hseparator hitem [] c c
  | label p name ih =>
    simp only [traced, run, Traced.outcome_andThen, Traced.under, Traced.outcome_call, ih]
    cases p.run c <;> rfl
  | acceptLimit p ih =>
    simp only [traced, run, Traced.outcome_andThen, Traced.outcome_call, ih]
    cases p.run c with
    | truncated best remainder => cases best <;> rfl
    | _ => rfl
  | recast f p ih | optional p ih | peek p ih | halt name p ih =>
    simp only [traced, run, Traced.outcome_andThen, Traced.outcome_call, ih]
    cases p.run c <;> rfl
  | _ => rfl

end Grammar

/-! ## Failures come last -/

namespace Traced

variable [Element ε]

/-- **The failures of an evaluation are its last steps**, and it fails for the reason of
each. -/
def FailsLast (t : Traced ε α) : Prop :=
  ∃ calm failing, t.steps = calm ++ failing ∧ (∀ step ∈ calm, step.fatal? = none) ∧
    ∀ step ∈ failing, ∃ reason, step.fatal? = some reason ∧ t.outcome = .fatal reason

namespace FailsLast

theorem done (outcome : Outcome ε α) : (Traced.done outcome).FailsLast :=
  ⟨[], [], rfl, nofun, nofun⟩

/-- An evaluation that does not fail has no failure in it. -/
theorem calm {t : Traced ε α} (h : t.FailsLast) (hne : ∀ reason, t.outcome ≠ .fatal reason) :
    ∀ step ∈ t.steps, step.fatal? = none := by
  obtain ⟨calm, failing, hsteps, hcalm, hfailing⟩ := h
  cases failing with
  | nil =>
    rw [hsteps, List.append_nil]
    exact hcalm
  | cons step failing =>
    obtain ⟨reason, _, houtcome⟩ := hfailing step List.mem_cons_self
    exact absurd houtcome (hne reason)

/-- **Going on after what does not fail**, and not at all after what does. -/
theorem andThen {t : Traced ε α} {next : Outcome ε α → Traced ε β} (h : t.FailsLast)
    (hfatal : ∀ reason, next (.fatal reason) = .done (.fatal reason))
    (hnext : (next t.outcome).FailsLast) : (t.andThen next).FailsLast := by
  by_cases hstop : ∃ reason, t.outcome = .fatal reason
  · obtain ⟨reason, houtcome⟩ := hstop
    obtain ⟨calm, failing, hsteps, hcalm, hfailing⟩ := h
    have hnone : next t.outcome = .done (.fatal reason) := by rw [houtcome, hfatal]
    refine ⟨calm, failing, ?_, hcalm, fun step hstep => ?_⟩
    · simp only [Traced.andThen, hnone, Traced.done, List.append_nil, hsteps]
    · obtain ⟨found, hfound, hsame⟩ := hfailing step hstep
      rw [houtcome] at hsame
      cases hsame
      exact ⟨reason, hfound, by rw [outcome_andThen, hnone]; rfl⟩
  · obtain ⟨calm, failing, hsteps, hcalm, hfailing⟩ := hnext
    refine ⟨t.steps ++ calm, failing, ?_, fun step hstep => ?_, hfailing⟩
    · simp only [Traced.andThen, hsteps, List.append_assoc]
    · rcases List.mem_append.mp hstep with hstep | hstep
      · exact h.calm (fun reason houtcome => hstop ⟨reason, houtcome⟩) step hstep
      · exact hcalm step hstep

/-- A part is left in failure if its run fails, and then that is the last step. -/
theorem call {t : Traced ε α} {part : Grammar ε α} {place : Cursor ε} (h : t.FailsLast)
    (houtcome : t.outcome = part.run place) : (t.call part place).FailsLast := by
  by_cases hstop : ∃ reason, part.run place = .fatal reason
  · obtain ⟨reason, hfatal⟩ := hstop
    obtain ⟨calm, failing, hsteps, hcalm, hfailing⟩ := h
    refine ⟨.enters part place :: calm, failing ++ [.leaves [] part place], ?_, ?_, ?_⟩
    · simp only [Traced.call, hsteps, List.cons_append, List.append_assoc]
    · exact List.forall_mem_cons.mpr ⟨rfl, hcalm⟩
    · intro step hstep
      rcases List.mem_append.mp hstep with hstep | hstep
      · exact hfailing step hstep
      · cases List.mem_singleton.mp hstep
        exact ⟨reason, by simp only [Step.fatal?, hfatal, List.foldr_nil], houtcome.trans hfatal⟩
  · have hne (reason : Reason) : part.run place ≠ .fatal reason := fun h => hstop ⟨reason, h⟩
    refine ⟨(t.call part place).steps, [], (List.append_nil _).symm, ?_, nofun⟩
    intro step hstep
    simp only [Traced.call, List.mem_append, List.mem_cons, List.not_mem_nil, or_false] at hstep
    obtain (rfl | hstep) | rfl := hstep
    · rfl
    · exact h.calm (houtcome ▸ hne) step hstep
    · cases hrun : part.run place with
      | fatal reason => exact absurd hrun (hne reason)
      | _ => simp only [Step.fatal?, hrun]

/-- A label wraps the reason of the failure and of every step out of it alike. -/
theorem under {t : Traced ε α} (h : t.FailsLast) (name : Text) : (t.under name).FailsLast := by
  obtain ⟨calm, failing, hsteps, hcalm, hfailing⟩ := h
  refine ⟨calm.map (Step.under name), failing.map (Step.under name), ?_, ?_, ?_⟩
  · simp only [Traced.under, hsteps, List.map_append]
  · rw [List.forall_mem_map]
    intro step hstep
    rw [Step.fatal?_under, hcalm step hstep]
    rfl
  · rw [List.forall_mem_map]
    intro step hstep
    obtain ⟨reason, hfound, houtcome⟩ := hfailing step hstep
    refine ⟨.labelledFatal name reason, ?_, ?_⟩
    · rw [Step.fatal?_under, hfound]
      rfl
    · simp only [Traced.under, houtcome]

theorem collect {step : Cursor ε → Traced ε α} (hstep : ∀ c, (step c).FailsLast)
    (values : List α) (c : Cursor ε) : (Traced.collect step values c).FailsLast := by
  fun_induction Traced.collect step values c with
  | case1 values c ih =>
    refine (hstep c).andThen (fun _ => rfl) ?_
    cases (step c).outcome with
    | matched value remainder =>
      dsimp only
      split
      · rename_i hlt
        exact ih value remainder hlt
      · exact .done _
    | _ => exact .done _

theorem collectSeparated {separator : Cursor ε → Traced ε σ} {item : Cursor ε → Traced ε α}
    (hseparator : ∀ c, (separator c).FailsLast) (hitem : ∀ c, (item c).FailsLast)
    (items : List α) (c afterItem : Cursor ε) :
    (Traced.collectSeparated separator item items c afterItem).FailsLast := by
  fun_induction Traced.collectSeparated separator item items c afterItem with
  | case1 items c afterItem ih =>
    refine (hitem c).andThen (fun _ => rfl) ?_
    cases (item c).outcome with
    | matched value remainder =>
      refine (hseparator remainder).andThen (fun _ => rfl) ?_
      cases (separator remainder).outcome with
      | matched mark past =>
        dsimp only
        split
        · rename_i hlt
          exact ih value remainder past hlt
        · exact .done _
      | _ => exact .done _
    | _ => exact .done _

end FailsLast

end Traced

namespace Grammar

variable [Element ε]

/-- **Every grammar passes failures on at once.** Each combinator goes on with a fatal
outcome of a part by making it its own. -/
theorem failsLast_traced (g : Grammar ε α) (c : Cursor ε) : (g.traced c).FailsLast := by
  have hcall {β : Type} {p : Grammar ε β} (ih : ∀ c, (p.traced c).FailsLast) (c : Cursor ε) :
      ((p.traced c).call p c).FailsLast := (ih c).call (traced_outcome p c)
  induction g generalizing c with
  | map f p ih | optional p ih | peek p ih | halt name p ih | acceptLimit p ih =>
    refine (hcall ih c).andThen (fun _ => rfl) ?_
    split <;> exact .done _
  | recast f p ih => exact (hcall ih c).andThen (fun _ => rfl) (.done _)
  | mapRaising f p ih =>
    refine (hcall ih c).andThen (fun _ => rfl) ?_
    split
    · split <;> exact .done _
    · exact .done _
    · exact .done _
    · exact .done _
    · split <;> exact .done _
    · exact .done _
  | judge refusal verdict p ih =>
    refine (hcall ih c).andThen (fun _ => rfl) ?_
    split
    · split <;> exact .done _
    all_goals exact .done _
  | bind p next ih ihNext =>
    unfold traced
    refine (hcall ih c).andThen (fun _ => rfl) ?_
    split
    · rename_i value middle _
      refine (hcall (ihNext value) middle).andThen (fun _ => rfl) ?_
      split <;> exact .done _
    all_goals exact .done _
  | either p q ih ih' =>
    refine (hcall ih c).andThen (fun _ => rfl) ?_
    split
    · exact hcall ih' c
    · refine (hcall ih' c).andThen (fun _ => rfl) ?_
      split <;> exact .done _
    · exact .done _
  | alt p q ih ih' =>
    refine (hcall ih c).andThen (fun _ => rfl) ?_
    split
    · exact hcall ih' c
    · refine (hcall ih' c).andThen (fun _ => rfl) ?_
      split <;> exact .done _
    · exact .done _
  | pipe outer inner ih ih' =>
    refine (hcall ih c).andThen (fun _ => rfl) ?_
    split
    · rename_i piece remainder _
      refine (hcall ih' (.complete piece)).andThen (fun _ => rfl) ?_
      split <;> exact .done _
    all_goals exact .done _
  | repeatAny p ih => exact .collect (hcall ih) [] c
  | repeatSome p ih =>
    have hmany : ((repeatAny p).traced c).FailsLast := .collect (hcall ih) [] c
    refine (hmany.call (traced_outcome (repeatAny p) c)).andThen (fun _ => rfl) ?_
    split <;> exact .done _
  | separatedItems separator item ih ih' =>
    exact .collectSeparated (hcall ih) (hcall ih') [] c c
  | label p name ih =>
    refine ((hcall ih c).under name).andThen (fun _ => rfl) ?_
    split <;> exact .done _
  | _ => exact .done _

/-- The wording of a reason on its way out through labels. -/
theorem text_labelledFatal (labels : List Text) (reason : Reason) :
    (labels.foldr .labelledFatal reason).text =
      Text.concat (labels.map fun name => Text.concat ["Halted at parsing ", name, ": "]) ++
        reason.text := by
  induction labels with
  | nil => rfl
  | cons name labels ih =>
    simp only [List.foldr_cons, Reason.text, ih, Text.concat, List.map_cons, List.flatten_cons,
      List.flatten_nil, List.append_nil, List.append_assoc]

/-- **A fatal outcome ends the evaluation.** If a part fails that is run in the course of
it, in either mode of input, then the evaluation fails, and for the same reason with
nothing before it but the words of the labels around that part. No part is run after it,
and those that are left after it fail likewise. -/
theorem fatal_ends_evaluation (g : Grammar ε α) (c : Cursor ε) {before after : List (Step ε)}
    {labels : List Text} {part : Grammar ε β} {place : Cursor ε} {reason : Reason}
    (hsteps : (g.traced c).steps = before ++ .leaves labels part place :: after)
    (hfatal : part.run place = .fatal reason) :
    (g.traced c).outcome = g.run c ∧
      g.run c = .fatal (labels.foldr .labelledFatal reason) ∧
      (labels.foldr Reason.labelledFatal reason).text =
        Text.concat (labels.map fun name => Text.concat ["Halted at parsing ", name, ": "]) ++
          reason.text ∧
      ∀ step ∈ after, step.isEntry = false ∧
        step.fatal? = some (labels.foldr .labelledFatal reason) := by
  have hfails : (Step.leaves labels part place).fatal? =
      some (labels.foldr .labelledFatal reason) := by
    simp only [Step.fatal?, hfatal]
  obtain ⟨calm, failing, hsplit, hcalm, hfailing⟩ := failsLast_traced g c
  -- The failing step is none of the calm ones, so the rest of the record are failures.
  obtain ⟨out, rfl⟩ : ∃ out, failing = out ++ .leaves labels part place :: after := by
    rw [hsteps, List.append_eq_append_iff] at hsplit
    obtain ⟨late, hlate, hfailing⟩ | ⟨out, -, hout⟩ := hsplit
    · cases late with
      | nil => exact ⟨[], hfailing.symm⟩
      | cons step late =>
        rw [List.cons_append, List.cons.injEq] at hfailing
        have hmem : Step.leaves labels part place ∈ calm := by
          rw [hlate, hfailing.1]
          exact List.mem_append_right _ List.mem_cons_self
        cases hfails.symm.trans (hcalm _ hmem)
    · exact ⟨out, hout⟩
  obtain ⟨found, hfound, houtcome⟩ := hfailing _ (List.mem_append_right _ List.mem_cons_self)
  cases hfails.symm.trans hfound
  have hrun := (traced_outcome g c).symm.trans houtcome
  refine ⟨traced_outcome g c, hrun, text_labelledFatal labels reason, fun step hstep => ?_⟩
  obtain ⟨same, hsame, houtcome'⟩ :=
    hfailing step (List.mem_append_right _ (List.mem_cons_of_mem _ hstep))
  cases houtcome.symm.trans houtcome'
  exact ⟨Step.isEntry_of_fatal? hsame, hsame⟩

/-- A letter where a digit is demanded, within an option and a label. The option does not
take it for the lack of a number. -/
theorem demanded_digit_ends_evaluation :
    let digit : Grammar CodePoint CodePoint := ascii '1'
    let demanded := halt "digit" digit
    let c : Cursor CodePoint := .streaming (Text.ofString "x")
    (((optional demanded).label "number").traced c).steps =
        [.enters (optional demanded) c, .enters demanded c, .enters digit c,
          .leaves ["number"] digit c] ++
        .leaves ["number"] demanded c :: [.leaves ["number"] (optional demanded) c] ∧
      ∃ reason, demanded.run c = .fatal reason ∧
        ((optional demanded).label "number").run c = .fatal (.labelledFatal "number" reason) := by
  intro digit demanded c
  have hsteps : (((optional demanded).label "number").traced c).steps =
      [.enters (optional demanded) c, .enters demanded c, .enters digit c,
        .leaves ["number"] digit c] ++
      .leaves ["number"] demanded c :: [.leaves ["number"] (optional demanded) c] := rfl
  have hfatal : demanded.run c = .fatal _ := rfl
  exact ⟨hsteps, _, hfatal, (fatal_ends_evaluation _ c hsteps hfatal).2.1⟩

end Grammar

end StreamGrammar
