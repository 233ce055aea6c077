import StreamGrammar.Proofs.Grammar.Remainder

/-!
# Verdicts

What a grammar makes of its input depends on the elements that are left and on
whether they are all there will ever be, and on nothing else. So an outcome has
a reading in which no cursor occurs, `Outcome.verdict`: its kind, its value and
the list of elements that remain. Reasons are left out, since they quote
positions.

`Grammar.verdict` is that reading of a run from the start of a list, and
`verdict_run` says that it is the reading of *any* run whose cursor has this
list left. Together they give every grammar an equation over lists
(`verdict_bind`, `verdict_alt`, …), and everything said later about what a
grammar recognises is said with these equations.
-/

namespace StreamGrammar

/-- **An outcome without positions.** -/
inductive Verdict (ε α : Type) where
  /-- Recognised, with the elements after it. -/
  | matched (value : α) (rest : List ε)
  /-- Does not match here. -/
  | rejected
  /-- Malformed. -/
  | fatal
  /-- Not decided, with what could be a partial result. -/
  | truncated (best : Option α) (rest : List ε)
  /-- An unguarded conversion failed. -/
  | raised (fault : Fault)

variable {ε α β σ : Type}

/-- The reading of an outcome in which no position occurs. -/
def Outcome.verdict : Outcome ε α → Verdict ε α
  | .matched value remainder => .matched value remainder.rest
  | .rejected _ => .rejected
  | .fatal _ => .fatal
  | .truncated best remainder => .truncated best remainder.rest
  | .raised fault => .raised fault

namespace Verdict

/-! ## How verdicts combine

Each of these is the rule of one combinator. `start` is what was left where
the run of the combinator began. -/

/-- Where no element is left and one is needed. -/
def exhausted (final : Bool) : Verdict ε α := if final then .rejected else .truncated none []

/-- The value read through a function, and a partial result likewise. -/
def map [Vacancy β] (f : α → β) : Verdict ε α → Verdict ε β
  | matched value rest => .matched (f value) rest
  | rejected => .rejected
  | fatal => .fatal
  | truncated best rest => .truncated (best.bind fun a => Vacancy.toPartial (f a)) rest
  | raised fault => .raised fault

/-- Undecided without a partial result goes back to the start. -/
def reanchor (start : List ε) : Verdict ε α → Verdict ε α
  | truncated none _ => .truncated none start
  | other => other

/-- The value read through a function whose failure ends the run. -/
def mapRaising [Vacancy β] (f : α → Except Fault β) (start : List ε) : Verdict ε α → Verdict ε β
  | matched value rest =>
    match f value with
    | .ok converted => .matched converted rest
    | .error fault => .raised fault
  | rejected => .rejected
  | fatal => .fatal
  | truncated none _ => .truncated none start
  | truncated (some best) rest =>
    match f best with
    | .ok converted => .truncated (Vacancy.toPartial converted) rest
    | .error fault => .raised fault
  | raised fault => .raised fault

/-- How a refusal reads. -/
def ofRefusal : Refusal → Verdict ε α
  | .rejected => .rejected
  | .fatal => .fatal

/-- A match accepted as a value or refused. -/
def judge {ρ : Type} (refusal : Refusal) (accept : α → Except ρ β) (start : List ε) :
    Verdict ε α → Verdict ε β
  | matched value rest =>
    match accept value with
    | .ok accepted => .matched accepted rest
    | .error _ => ofRefusal refusal
  | rejected => .rejected
  | fatal => .fatal
  | truncated _ _ => .truncated none start
  | raised fault => .raised fault

/-- After a match, what the value selects; whatever is cut short goes back to
the start. -/
def andThen (start : List ε) (next : α → List ε → Verdict ε β) : Verdict ε α → Verdict ε β
  | matched value rest =>
    match next value rest with
    | truncated _ _ => .truncated none start
    | decided => decided
  | rejected => .rejected
  | fatal => .fatal
  | truncated _ _ => .truncated none start
  | raised fault => .raised fault

/-- A rejection as the lack of a value. -/
def optional (start : List ε) : Verdict ε α → Verdict ε (Option α)
  | rejected => .matched none start
  | matched value rest => .matched (some value) rest
  | fatal => .fatal
  | truncated best rest => .truncated (best.map some) rest
  | raised fault => .raised fault

/-- The second after a rejection of the first, and tentatively where the first
cannot say yet. -/
def either [Vacancy α] (first second : Verdict ε α) : Verdict ε α :=
  match first with
  | rejected => second
  | truncated none _ =>
    match second with
    | matched value rest => .truncated (Vacancy.toPartial value) rest
    | other => other
  | decided => decided

/-- The second where the first does not match yet. -/
def alt (first second : Verdict ε α) : Verdict ε α :=
  match first with
  | rejected => second
  | truncated best rest =>
    match second with
    | rejected => .truncated best rest
    | other => other
  | decided => decided

/-- A match that consumes nothing. -/
def peek (start : List ε) : Verdict ε α → Verdict ε α
  | matched value _ => .matched value start
  | other => other

/-- The inner verdict on the piece that was matched. -/
def pipe (start : List ε) (inner : List ε → Verdict ε α) :
    Verdict ε (List ε) → Verdict ε α
  | matched piece rest =>
    match inner piece with
    | matched value _ => .matched value rest
    | truncated _ _ => .fatal
    | other => other
  | rejected => .rejected
  | fatal => .fatal
  | truncated _ _ => .truncated none start
  | raised fault => .raised fault

/-- A rejection that is fatal. -/
def halt : Verdict ε α → Verdict ε α
  | rejected => .fatal
  | other => other

/-- A partial result accepted, and the lack of one rejected. -/
def acceptLimit : Verdict ε α → Verdict ε α
  | truncated none _ => .rejected
  | truncated (some best) rest => .matched best rest
  | other => other

/-- No value at all rejected. -/
def atLeastOne : Verdict ε (List α) → Verdict ε (List α)
  | matched [] _ => .rejected
  | other => other

/-- **A verdict over and over**, for as long as it is a match that consumes. -/
def many (step : List ε → Verdict ε α) (s : List ε) : Verdict ε (List α) :=
  match step s with
  | matched value rest =>
    if rest.length < s.length then (many step rest).map (value :: ·) else .matched [] s
  | rejected => .matched [] s
  | fatal => .fatal
  | truncated best rest => .truncated (some best.toList) rest
  | raised fault => .raised fault
termination_by s.length

/-- **Two verdicts by turns**, an item and a separator. `after` is what was
left after the last item, where a separator without an item is given back. -/
def separated (separator : List ε → Verdict ε σ) (item : List ε → Verdict ε α)
    (s after : List ε) : Verdict ε (List α) :=
  match item s with
  | matched value rest =>
    match separator rest with
    | matched _ past =>
      if past.length < rest.length ∧ past.length < s.length then
        (separated separator item past rest).map (value :: ·)
      else .matched [value] rest
    | rejected => .matched [value] rest
    | fatal => .fatal
    | truncated _ _ => .truncated (some [value]) rest
    | raised fault => .raised fault
  | rejected => .matched [] after
  | fatal => .fatal
  | truncated best rest => .truncated (some best.toList) rest
  | raised fault => .raised fault
termination_by s.length
decreasing_by omega

/-- Lists read through one function and then through another. -/
@[simp] theorem map_map {γ : Type} (f : α → List β) (g : List β → List γ) (v : Verdict ε α) :
    (v.map f).map g = v.map (g ∘ f) := by
  cases v with
  | truncated best rest => cases best <;> simp [map]
  | _ => rfl

theorem map_id' (v : Verdict ε (List α)) : v.map (fun a => a) = v := by
  cases v <;> simp [map]

theorem many_eq (step : List ε → Verdict ε α) (s : List ε) :
    many step s =
      match step s with
      | matched value rest =>
        if rest.length < s.length then (many step rest).map (value :: ·) else .matched [] s
      | rejected => .matched [] s
      | fatal => .fatal
      | truncated best rest => .truncated (some best.toList) rest
      | raised fault => .raised fault :=
  many.eq_1 step s

end Verdict

/-! ## Runs and their verdicts -/

namespace Cursor

/-- The start of a list of elements. -/
def start (final : Bool) (s : List ε) : Cursor ε := { source := s.toArray, pos := 0, final }

@[simp] theorem rest_start (final : Bool) (s : List ε) : (start final s).rest = s := by
  simp [rest_eq, start]

@[simp] theorem final_start (final : Bool) (s : List ε) : (start final s).final = final := rfl

theorem within_start (final : Bool) (s : List ε) : (start final s).Within := Nat.zero_le _

end Cursor

namespace Repetition

/-- **A loop of runs reads as the loop of their verdicts.** -/
theorem verdict_collect {step : Cursor ε → Outcome ε α} {shown : List ε → Verdict ε α}
    {final : Bool} (hrem : ∀ c, c.Within → (step c).Remains c)
    (hstep : ∀ c, c.Within → c.final = final → (step c).verdict = shown c.rest)
    (values : List α) {c : Cursor ε} (hc : c.Within) (hf : c.final = final) :
    (collect step values c).verdict =
      (Verdict.many shown c.rest).map (values.reverse ++ ·) := by
  have hread : ∀ {c : Cursor ε} {o : Outcome ε α}, c.Within → c.final = final → step c = o →
      shown c.rest = o.verdict := fun hc hf hrun => by rw [← hstep _ hc hf, hrun]
  fun_induction collect step values c with
  | case1 values c value remainder hrun hlt ih =>
    have hr : c.Reaches remainder := (hrem c hc).reaches hrun
    -- that a round consumes is told by positions here and by lengths there
    rw [hc.distance_eq, hr.within.distance_eq] at hlt
    rw [ih hr.within (hr.final_eq.trans hf), Verdict.many_eq shown c.rest, hread hc hf hrun]
    simp [Outcome.verdict, hlt, Function.comp_def]
  | case2 values c value remainder hrun hlt =>
    have hr : c.Reaches remainder := (hrem c hc).reaches hrun
    rw [hc.distance_eq, hr.within.distance_eq] at hlt
    rw [Verdict.many_eq, hread hc hf hrun]
    simp [Outcome.verdict, hlt, Verdict.map]
  | case3 values c reason hrun =>
    rw [Verdict.many_eq, hread hc hf hrun]
    simp [Outcome.verdict, Verdict.map]
  | case4 values c reason hrun =>
    rw [Verdict.many_eq, hread hc hf hrun]
    simp [Outcome.verdict, Verdict.map]
  | case5 values c best remainder hrun =>
    rw [Verdict.many_eq, hread hc hf hrun]
    cases best <;> simp [Outcome.verdict, Verdict.map]
  | case6 values c fault hrun =>
    rw [Verdict.many_eq, hread hc hf hrun]
    simp [Outcome.verdict, Verdict.map]

/-- **Two runs by turns read as their verdicts by turns.** -/
theorem verdict_collectSeparated {separator : Cursor ε → Outcome ε σ}
    {item : Cursor ε → Outcome ε α} {shownSep : List ε → Verdict ε σ}
    {shownItem : List ε → Verdict ε α} {final : Bool}
    (hremSep : ∀ c, c.Within → (separator c).Remains c)
    (hremItem : ∀ c, c.Within → (item c).Remains c)
    (hsep : ∀ c, c.Within → c.final = final → (separator c).verdict = shownSep c.rest)
    (hitem : ∀ c, c.Within → c.final = final → (item c).verdict = shownItem c.rest)
    (items : List α) {c afterItem : Cursor ε} (hc : c.Within) (hf : c.final = final) :
    (collectSeparated separator item items c afterItem).verdict =
      (Verdict.separated shownSep shownItem c.rest afterItem.rest).map
        (items.reverse ++ ·) := by
  have hreadSep : ∀ {c : Cursor ε} {o : Outcome ε σ}, c.Within → c.final = final →
      separator c = o → shownSep c.rest = o.verdict := fun hc hf hrun => by
    rw [← hsep _ hc hf, hrun]
  have hreadItem : ∀ {c : Cursor ε} {o : Outcome ε α}, c.Within → c.final = final →
      item c = o → shownItem c.rest = o.verdict := fun hc hf hrun => by
    rw [← hitem _ hc hf, hrun]
  fun_induction collectSeparated separator item items c afterItem with
  | case1 items c afterItem value remainder hrun _ past hsepRun hlt ih =>
    have hr : c.Reaches remainder := (hremItem c hc).reaches hrun
    have hp : remainder.Reaches past := (hremSep remainder hr.within).reaches hsepRun
    have hrf : remainder.final = final := hr.final_eq.trans hf
    have h := hreadSep hr.within hrf hsepRun
    -- the loop asks of both the separator and the whole round that they consume
    rw [hp.within.distance_eq, hr.within.distance_eq, hc.distance_eq] at hlt
    rw [ih hp.within (hp.final_eq.trans hrf), Verdict.separated.eq_1 _ _ c.rest,
      hreadItem hc hf hrun]
    simp only [Outcome.verdict, h, if_pos hlt]
    simp [Function.comp_def]
  | case2 items c afterItem value remainder hrun _ past hsepRun hlt =>
    have hr : c.Reaches remainder := (hremItem c hc).reaches hrun
    have hp : remainder.Reaches past := (hremSep remainder hr.within).reaches hsepRun
    have h := hreadSep hr.within (hr.final_eq.trans hf) hsepRun
    rw [hp.within.distance_eq, hr.within.distance_eq, hc.distance_eq] at hlt
    rw [Verdict.separated, hreadItem hc hf hrun]
    simp only [Outcome.verdict, h, if_neg hlt]
    simp [Verdict.map]
  | case3 items c afterItem value remainder hrun reason hsepRun =>
    have hr : c.Reaches remainder := (hremItem c hc).reaches hrun
    have h := hreadSep hr.within (hr.final_eq.trans hf) hsepRun
    rw [Verdict.separated, hreadItem hc hf hrun]
    simp [Outcome.verdict, h, Verdict.map]
  | case4 items c afterItem value remainder hrun reason hsepRun =>
    have hr : c.Reaches remainder := (hremItem c hc).reaches hrun
    have h := hreadSep hr.within (hr.final_eq.trans hf) hsepRun
    rw [Verdict.separated, hreadItem hc hf hrun]
    simp [Outcome.verdict, h, Verdict.map]
  | case5 items c afterItem value remainder hrun best stop hsepRun =>
    have hr : c.Reaches remainder := (hremItem c hc).reaches hrun
    have h := hreadSep hr.within (hr.final_eq.trans hf) hsepRun
    rw [Verdict.separated, hreadItem hc hf hrun]
    simp [Outcome.verdict, h, Verdict.map]
  | case6 items c afterItem value remainder hrun fault hsepRun =>
    have hr : c.Reaches remainder := (hremItem c hc).reaches hrun
    have h := hreadSep hr.within (hr.final_eq.trans hf) hsepRun
    rw [Verdict.separated, hreadItem hc hf hrun]
    simp [Outcome.verdict, h, Verdict.map]
  | case7 items c afterItem reason hrun =>
    rw [Verdict.separated, hreadItem hc hf hrun]
    simp [Outcome.verdict, Verdict.map]
  | case8 items c afterItem reason hrun =>
    rw [Verdict.separated, hreadItem hc hf hrun]
    simp [Outcome.verdict, Verdict.map]
  | case9 items c afterItem best remainder hrun =>
    rw [Verdict.separated, hreadItem hc hf hrun]
    cases best <;> simp [Outcome.verdict, Verdict.map]
  | case10 items c afterItem fault hrun =>
    rw [Verdict.separated, hreadItem hc hf hrun]
    simp [Outcome.verdict, Verdict.map]

end Repetition

/-- **What a parser makes of a list of elements**: the verdict of its run from the
start of the list. -/
def Parser.verdict (p : Parser ε α) (final : Bool) (s : List ε) : Verdict ε α :=
  (p (.start final s)).verdict

namespace Grammar

variable [Element ε]

/-- **What a grammar makes of a list of elements**: the verdict of its run
from the start of the list. -/
def verdict (g : Grammar ε α) (final : Bool) (s : List ε) : Verdict ε α :=
  (g.run (.start final s)).verdict

/-! ### Matchers -/

omit [Element ε] in
theorem verdict_exhausted {c : Cursor ε} (h : c.rest = []) (what : Expectation) :
    (exhausted c what : Outcome ε α).verdict = Verdict.exhausted c.final := by
  unfold exhausted Verdict.exhausted
  split <;> simp [Outcome.verdict, h]

theorem verdict_runSatisfy (test : ε → Bool) (what : Expectation) (c : Cursor ε) :
    (runSatisfy test what c).verdict =
      match c.rest with
      | [] => Verdict.exhausted c.final
      | e :: rest => if test e then .matched e rest else .rejected := by
  unfold runSatisfy
  rw [Cursor.current?_eq]
  cases h : c.rest with
  | nil => exact verdict_exhausted h what
  | cons e rest =>
    simp only [List.head?_cons]
    split <;> simp [Outcome.verdict, h]

theorem verdict_runLiteral (expected : List ε) (c : Cursor ε) :
    (runLiteral expected c).verdict =
      if expected <+: c.rest then .matched expected (c.rest.drop expected.length)
      else if c.final = false ∧ c.rest <+: expected then .truncated none c.rest
      else .rejected := by
  unfold runLiteral
  dsimp only
  rw [Cursor.sliceAhead_eq]
  have hpre : c.rest.take expected.length = expected ↔ expected <+: c.rest :=
    ⟨fun h => h ▸ List.take_prefix _ _, fun h => List.prefix_iff_eq_take.mp h |>.symm⟩
  by_cases h : expected <+: c.rest
  · rw [if_pos (hpre.mpr h), if_pos h]
    simp [Outcome.verdict]
  · rw [if_neg (mt hpre.mp h), if_neg h]
    have hcut : ((c.rest.take expected.length).length < expected.length ∧ c.final = false) ∧
        c.rest.take expected.length <+: expected ↔ c.final = false ∧ c.rest <+: expected := by
      constructor
      · rintro ⟨⟨hlt, hf⟩, hp⟩
        rw [List.length_take] at hlt
        rw [List.take_of_length_le (by omega)] at hp
        exact ⟨hf, hp⟩
      · rintro ⟨hf, hp⟩
        have hle := hp.length_le
        rw [List.take_of_length_le hle]
        refine ⟨⟨?_, hf⟩, hp⟩
        refine Nat.lt_of_le_of_ne hle (fun hlen => h ?_)
        exact ⟨[], by rw [List.append_nil, hp.eq_of_length hlen]⟩
    by_cases h' : c.final = false ∧ c.rest <+: expected
    · rw [if_pos h', if_pos]
      · rfl
      · simpa using hcut.mpr h'
    · rw [if_neg h', if_neg]
      · rfl
      · simpa using mt hcut.mp h'

omit [Element ε] in
theorem verdict_runTake (count : Nat) (c : Cursor ε) :
    (runTake count c).verdict =
      if count ≤ c.rest.length then .matched (c.rest.take count) (c.rest.drop count)
      else if c.final then .rejected
      else .truncated (some c.rest) [] := by
  unfold runTake
  dsimp only
  rw [Cursor.sliceAhead_eq, List.length_take]
  by_cases h : count ≤ c.rest.length
  · rw [if_pos (by omega), if_pos h]
    simp [Outcome.verdict]
  · rw [if_neg (by omega), if_neg h, List.take_of_length_le (by omega)]
    split
    · rfl
    · simp only [Outcome.verdict, Cursor.rest_advance]
      rw [List.drop_eq_nil_of_le (by omega)]

omit [Element ε] in
/-- What a scan from the cursor has passed, and what it leaves. -/
theorem scan_split (test : ε → Bool) (c : Cursor ε) :
    c.sliceTo (c.scan test) = c.rest.takeWhile test ∧
      (c.advance (c.scan test - c.pos)).rest = c.rest.dropWhile test := by
  have hsplit := List.takeWhile_append_dropWhile (p := test) (l := c.rest)
  rw [Cursor.sliceTo_eq, Cursor.rest_advance, Cursor.scan_eq, Nat.add_sub_cancel_left]
  constructor
  · exact (List.prefix_iff_eq_take.mp (List.takeWhile_prefix test)).symm
  · exact (congrArg (List.drop _) hsplit).symm.trans List.drop_left

omit [Element ε] in
theorem verdict_runTakeWhile (test : ε → Bool) (c : Cursor ε) :
    (runTakeWhile test c).verdict =
      if c.rest.dropWhile test = [] ∧ c.final = false then .truncated (some c.rest) []
      else .matched (c.rest.takeWhile test) (c.rest.dropWhile test) := by
  obtain ⟨hs, hr⟩ := scan_split test c
  unfold runTakeWhile
  dsimp only
  by_cases h : c.rest.dropWhile test = [] ∧ c.final = false
  · have hall : c.rest.takeWhile test = c.rest := by
      have := List.takeWhile_append_dropWhile (p := test) (l := c.rest)
      rwa [h.1, List.append_nil] at this
    rw [if_pos h, if_pos]
    · simp only [Outcome.verdict, hs, hr, h.1, hall]
    · simp [Cursor.atEnd_iff, hr, h]
  · rw [if_neg h, if_neg]
    · simp only [Outcome.verdict, hs, hr]
    · simpa [Cursor.atEnd_iff, hr] using h

theorem verdict_runTakeSomeWhile (test : ε → Bool) (c : Cursor ε) :
    (runTakeSomeWhile test c).verdict =
      match c.rest with
      | [] => Verdict.exhausted c.final
      | e :: _ => if test e then (runTakeWhile test c).verdict else .rejected := by
  unfold runTakeSomeWhile
  rw [Cursor.current?_eq]
  cases h : c.rest with
  | nil => exact verdict_exhausted h _
  | cons e rest =>
    simp only [List.head?_cons]
    split <;> rfl

theorem verdict_runOtherThan (elements : List ε) (c : Cursor ε) :
    (runOtherThan elements c).verdict =
      let run := c.rest.takeWhile fun e => !elements.contains e
      let rest := c.rest.dropWhile fun e => !elements.contains e
      if rest = [] ∧ c.final = false then
        .truncated (if run = [] then none else some run) []
      else if run = [] then .rejected
      else .matched run rest := by
  obtain ⟨hs, hr⟩ := scan_split (fun e => !elements.contains e) c
  unfold runOtherThan
  dsimp only
  rw [hs]
  by_cases h : (c.rest.dropWhile fun e => !elements.contains e) = [] ∧ c.final = false
  · rw [if_pos h, if_pos]
    · simp only [Outcome.verdict, hr, h.1, List.isEmpty_iff]
    · simp only [Bool.and_eq_true, Cursor.atEnd_iff, hr, Bool.not_eq_true', h.1, h.2,
        and_self]
  · rw [if_neg h, if_neg]
    · simp only [List.isEmpty_iff]
      split
      · rfl
      · simp only [Outcome.verdict, hr]
    · simpa only [Bool.and_eq_true, Cursor.atEnd_iff, hr, Bool.not_eq_true'] using h

theorem verdict_runEndOfInput (c : Cursor ε) :
    (runEndOfInput c).verdict =
      match c.rest with
      | [] => if c.final then .matched () [] else .truncated none []
      | _ :: _ => .rejected := by
  unfold runEndOfInput
  rw [Cursor.current?_eq]
  cases h : c.rest with
  | nil =>
    simp only [List.head?_nil]
    split <;> simp [Outcome.verdict, h]
  | cons e rest => rfl

/-! ### Combinators

Each lemma reads one run of a combinator by the verdicts of its parts at the
same cursor. A sequence needs to know besides that what it goes on with reads
the same wherever it starts. -/

theorem verdict_run_map [Vacancy β] (f : α → β) (p : Grammar ε α) (c : Cursor ε) :
    ((map f p).run c).verdict = ((p.run c).verdict.reanchor c.rest).map f := by
  simp only [run]
  cases p.run c with
  | truncated best remainder =>
    cases best <;> simp [Outcome.verdict, Verdict.reanchor, Verdict.map]
  | _ => rfl

theorem verdict_run_mapRaising [Vacancy β] (f : α → Except Fault β) (p : Grammar ε α)
    (c : Cursor ε) :
    ((mapRaising f p).run c).verdict = (p.run c).verdict.mapRaising f c.rest := by
  simp only [run]
  cases p.run c with
  | matched value remainder =>
    simp only [Outcome.verdict, Verdict.mapRaising]
    cases f value <;> rfl
  | truncated best remainder =>
    cases best with
    | none => rfl
    | some best =>
      simp only [Outcome.verdict, Verdict.mapRaising]
      cases f best <;> rfl
  | _ => rfl

theorem verdict_run_recast [Vacancy β] (f : α → β) (p : Grammar ε α) (c : Cursor ε) :
    ((recast f p).run c).verdict = (p.run c).verdict.map f := by
  simp only [run]
  cases p.run c <;> rfl

theorem verdict_run_judge (refusal : Refusal) (accept : α → Except (Nat → Reason) β)
    (p : Grammar ε α) (c : Cursor ε) :
    ((judge refusal accept p).run c).verdict =
      (p.run c).verdict.judge refusal accept c.rest := by
  simp only [run]
  cases p.run c with
  | matched value remainder =>
    simp only [Outcome.verdict, Verdict.judge]
    cases accept value with
    | ok accepted => rfl
    | error reason => cases refusal <;> rfl
  | _ => rfl

theorem verdict_run_bind {p : Grammar ε α} {next : α → Grammar ε β}
    (hnext : ∀ (a : α) (m : Cursor ε), m.Within →
      ((next a).run m).verdict = (next a).verdict m.final m.rest)
    {c : Cursor ε} (hc : c.Within) :
    ((bind p next).run c).verdict =
      (p.run c).verdict.andThen c.rest fun a rest => (next a).verdict c.final rest := by
  have h := remains_run p hc
  simp only [run]
  cases hp : p.run c with
  | matched value middle =>
    rw [hp] at h
    -- the middle lies over the same source, so it is as sure that this is all
    have hm : c.Reaches middle := h
    have h' := hnext value middle hm.within
    simp only [Outcome.verdict, Verdict.andThen]
    rw [hm.final_eq] at h'
    rw [← h']
    cases (next value).run middle <;> rfl
  | _ => rfl

theorem verdict_run_optional (p : Grammar ε α) (c : Cursor ε) :
    ((optional p).run c).verdict = (p.run c).verdict.optional c.rest := by
  simp only [run]
  cases p.run c <;> rfl

theorem verdict_run_either [Vacancy α] (p q : Grammar ε α) (c : Cursor ε) :
    ((either p q).run c).verdict = (p.run c).verdict.either (q.run c).verdict := by
  simp only [run, Choice.either]
  cases p.run c with
  | rejected reason => rfl
  | truncated best remainder =>
    cases best with
    | none => simp only [Outcome.verdict, Verdict.either]; cases q.run c <;> rfl
    | some best => rfl
  | _ => rfl

theorem verdict_run_alt (p q : Grammar ε α) (c : Cursor ε) :
    ((alt p q).run c).verdict = (p.run c).verdict.alt (q.run c).verdict := by
  simp only [run, Choice.alt]
  cases p.run c with
  | truncated best remainder =>
    simp only [Outcome.verdict, Verdict.alt]
    cases q.run c <;> rfl
  | _ => rfl

theorem verdict_run_peek (p : Grammar ε α) (c : Cursor ε) :
    ((peek p).run c).verdict = (p.run c).verdict.peek c.rest := by
  simp only [run]
  cases p.run c <;> rfl

theorem verdict_run_pipe (p : Grammar ε (List ε)) (q : Grammar ε α) (c : Cursor ε) :
    ((pipe p q).run c).verdict = (p.run c).verdict.pipe c.rest (q.verdict true) := by
  simp only [run]
  cases p.run c with
  | matched piece remainder =>
    -- the piece is all that the inner grammar will ever see
    have h : q.run (.complete piece) = q.run (.start true piece) := rfl
    simp only [Outcome.verdict, Verdict.pipe, verdict, h]
    cases q.run (.start true piece) <;> rfl
  | _ => rfl

theorem verdict_run_repeatAny {p : Grammar ε α}
    (hp : ∀ m : Cursor ε, m.Within → (p.run m).verdict = p.verdict m.final m.rest)
    {c : Cursor ε} (hc : c.Within) :
    ((repeatAny p).run c).verdict = Verdict.many (p.verdict c.final) c.rest := by
  simp only [run]
  rw [Repetition.verdict_collect (fun _ h => remains_run p h)
    (fun m hm hf => hf ▸ hp m hm) [] hc rfl]
  simp only [List.reverse_nil, List.nil_append]
  exact Verdict.map_id' _

theorem verdict_run_repeatSome (p : Grammar ε α) (c : Cursor ε) :
    ((repeatSome p).run c).verdict = ((repeatAny p).run c).verdict.atLeastOne := by
  simp only [run]
  cases Repetition.collect p.run [] c with
  | matched values remainder => cases values <;> rfl
  | _ => rfl

theorem verdict_run_separatedItems {sep : Grammar ε σ} {p : Grammar ε α}
    (hsep : ∀ m : Cursor ε, m.Within → (sep.run m).verdict = sep.verdict m.final m.rest)
    (hp : ∀ m : Cursor ε, m.Within → (p.run m).verdict = p.verdict m.final m.rest)
    {c : Cursor ε} (hc : c.Within) :
    ((separatedItems sep p).run c).verdict =
      Verdict.separated (sep.verdict c.final) (p.verdict c.final) c.rest c.rest := by
  simp only [run]
  rw [Repetition.verdict_collectSeparated (fun _ h => remains_run sep h)
    (fun _ h => remains_run p h) (fun m hm hf => hf ▸ hsep m hm)
    (fun m hm hf => hf ▸ hp m hm) [] hc rfl]
  simp only [List.reverse_nil, List.nil_append]
  exact Verdict.map_id' _

theorem verdict_run_label (p : Grammar ε α) (name : Text) (c : Cursor ε) :
    ((label p name).run c).verdict = (p.run c).verdict := by
  simp only [run]
  cases p.run c <;> rfl

theorem verdict_run_halt (name : Text) (p : Grammar ε α) (c : Cursor ε) :
    ((halt name p).run c).verdict = (p.run c).verdict.halt := by
  simp only [run]
  cases p.run c <;> rfl

theorem verdict_run_acceptLimit (p : Grammar ε α) (c : Cursor ε) :
    ((acceptLimit p).run c).verdict = (p.run c).verdict.acceptLimit := by
  simp only [run]
  cases p.run c with
  | truncated best remainder => cases best <;> rfl
  | _ => rfl

/-- **A verdict depends on what is left alone**: two runs with the same elements
left, and equally sure that these are all, come to the same. -/
theorem verdict_run_congr (g : Grammar ε α) {c d : Cursor ε} (hc : c.Within) (hd : d.Within)
    (hf : c.final = d.final) (hr : c.rest = d.rest) : (g.run c).verdict = (g.run d).verdict := by
  induction g generalizing c d with
  | satisfy test what => simp only [run, verdict_runSatisfy, hf, hr]
  | literal expected => simp only [run, verdict_runLiteral, hf, hr]
  | take count => simp only [run, verdict_runTake, hf, hr]
  | takeWhile test => simp only [run, verdict_runTakeWhile, hf, hr]
  | takeSomeWhile test =>
    simp only [run, verdict_runTakeSomeWhile, verdict_runTakeWhile, hf, hr]
  | otherThan elements => simp only [run, verdict_runOtherThan, hf, hr]
  | endOfInput => simp only [run, verdict_runEndOfInput, hf, hr]
  | succeed value => simp only [run, Outcome.verdict, hr]
  | undecided best count => simp only [run, Outcome.verdict, Cursor.rest_advance, hr]
  | map f p ih => rw [verdict_run_map, verdict_run_map, ih hc hd hf hr, hr]
  | mapRaising f p ih =>
    rw [verdict_run_mapRaising, verdict_run_mapRaising, ih hc hd hf hr, hr]
  | recast f p ih => rw [verdict_run_recast, verdict_run_recast, ih hc hd hf hr]
  | judge refusal accept p ih =>
    rw [verdict_run_judge, verdict_run_judge, ih hc hd hf hr, hr]
  | bind p next ih ihNext =>
    -- what comes next may start anywhere, so it is compared with a start of its own
    have hnext (a : _) (m : Cursor ε) (hm : m.Within) :
        ((next a).run m).verdict = (next a).verdict m.final m.rest :=
      ihNext a hm (Cursor.within_start _ _) rfl (Cursor.rest_start _ _).symm
    rw [verdict_run_bind hnext hc, verdict_run_bind hnext hd, ih hc hd hf hr, hf, hr]
  | optional p ih => rw [verdict_run_optional, verdict_run_optional, ih hc hd hf hr, hr]
  | either p q ih ih' =>
    rw [verdict_run_either, verdict_run_either, ih hc hd hf hr, ih' hc hd hf hr]
  | alt p q ih ih' => rw [verdict_run_alt, verdict_run_alt, ih hc hd hf hr, ih' hc hd hf hr]
  | noAlternative => rfl
  | peek p ih => rw [verdict_run_peek, verdict_run_peek, ih hc hd hf hr, hr]
  | pipe p q ih => rw [verdict_run_pipe, verdict_run_pipe, ih hc hd hf hr, hr]
  | repeatAny p ih =>
    have hp (m : Cursor ε) (hm : m.Within) :
        (p.run m).verdict = p.verdict m.final m.rest :=
      ih hm (Cursor.within_start _ _) rfl (Cursor.rest_start _ _).symm
    rw [verdict_run_repeatAny hp hc, verdict_run_repeatAny hp hd, hf, hr]
  | repeatSome p ih =>
    have hp (m : Cursor ε) (hm : m.Within) :
        (p.run m).verdict = p.verdict m.final m.rest :=
      ih hm (Cursor.within_start _ _) rfl (Cursor.rest_start _ _).symm
    rw [verdict_run_repeatSome, verdict_run_repeatSome, verdict_run_repeatAny hp hc,
      verdict_run_repeatAny hp hd, hf, hr]
  | separatedItems sep p ih ih' =>
    have hsep (m : Cursor ε) (hm : m.Within) :
        (sep.run m).verdict = sep.verdict m.final m.rest :=
      ih hm (Cursor.within_start _ _) rfl (Cursor.rest_start _ _).symm
    have hp (m : Cursor ε) (hm : m.Within) :
        (p.run m).verdict = p.verdict m.final m.rest :=
      ih' hm (Cursor.within_start _ _) rfl (Cursor.rest_start _ _).symm
    rw [verdict_run_separatedItems hsep hp hc, verdict_run_separatedItems hsep hp hd, hf, hr]
  | label p name ih => rw [verdict_run_label, verdict_run_label, ih hc hd hf hr]
  | halt name p ih => rw [verdict_run_halt, verdict_run_halt, ih hc hd hf hr]
  | acceptLimit p ih =>
    rw [verdict_run_acceptLimit, verdict_run_acceptLimit, ih hc hd hf hr]

/-- The verdict of a run is that of the grammar on what is left. -/
theorem verdict_run (g : Grammar ε α) {c : Cursor ε} (hc : c.Within) :
    (g.run c).verdict = g.verdict c.final c.rest :=
  verdict_run_congr g hc (Cursor.within_start _ _) rfl (Cursor.rest_start _ _).symm

/-! ## The equations of a grammar

What each construct makes of a list, from what its parts make of lists. -/

variable (final : Bool) (s : List ε)

theorem verdict_satisfy (test : ε → Bool) (what : Expectation) :
    (satisfy test what).verdict final s =
      match s with
      | [] => Verdict.exhausted final
      | e :: rest => if test e then .matched e rest else .rejected := by
  simpa [verdict, run] using verdict_runSatisfy test what (.start final s)

theorem verdict_literal (expected : List ε) :
    (literal expected).verdict final s =
      if expected <+: s then .matched expected (s.drop expected.length)
      else if final = false ∧ s <+: expected then .truncated none s
      else .rejected := by
  simpa [verdict, run] using verdict_runLiteral expected (.start final s)

theorem verdict_take (count : Nat) :
    (take count).verdict final s =
      if count ≤ s.length then .matched (s.take count) (s.drop count)
      else if final then .rejected
      else .truncated (some s) [] := by
  simpa [verdict, run] using verdict_runTake count (.start final s)

theorem verdict_takeWhile (test : ε → Bool) :
    (takeWhile test).verdict final s =
      if s.dropWhile test = [] ∧ final = false then .truncated (some s) []
      else .matched (s.takeWhile test) (s.dropWhile test) := by
  simpa [verdict, run] using verdict_runTakeWhile test (.start final s)

theorem verdict_takeSomeWhile (test : ε → Bool) :
    (takeSomeWhile test).verdict final s =
      match s with
      | [] => Verdict.exhausted final
      | e :: _ => if test e then (takeWhile test).verdict final s else .rejected := by
  rw [verdict_takeWhile]
  simpa [verdict, run, verdict_runTakeWhile] using verdict_runTakeSomeWhile test (.start final s)

theorem verdict_otherThan (elements : List ε) :
    (otherThan elements).verdict final s =
      let run := s.takeWhile fun e => !elements.contains e
      let rest := s.dropWhile fun e => !elements.contains e
      if rest = [] ∧ final = false then .truncated (if run = [] then none else some run) []
      else if run = [] then .rejected
      else .matched run rest := by
  simpa [verdict, run] using verdict_runOtherThan elements (.start final s)

theorem verdict_endOfInput :
    (endOfInput : Grammar ε Unit).verdict final s =
      match s with
      | [] => if final then .matched () [] else .truncated none []
      | _ :: _ => .rejected := by
  rw [verdict, run, verdict_runEndOfInput, Cursor.rest_start, Cursor.final_start]

@[simp] theorem verdict_succeed (value : α) :
    (succeed value : Grammar ε α).verdict final s = .matched value s := by
  simp [verdict, run, Outcome.verdict]

theorem verdict_undecided [Vacancy α] (best : Option α) (count : Nat) :
    (undecided best count : Grammar ε α).verdict final s =
      .truncated (best.bind Vacancy.toPartial) (s.drop count) := by
  simp [verdict, run, Outcome.verdict]

theorem verdict_map [Vacancy β] (f : α → β) (p : Grammar ε α) :
    (map f p).verdict final s = ((p.verdict final s).reanchor s).map f := by
  simpa [verdict] using verdict_run_map f p (.start final s)

theorem verdict_mapRaising [Vacancy β] (f : α → Except Fault β) (p : Grammar ε α) :
    (mapRaising f p).verdict final s = (p.verdict final s).mapRaising f s := by
  simpa [verdict] using verdict_run_mapRaising f p (.start final s)

theorem verdict_recast [Vacancy β] (f : α → β) (p : Grammar ε α) :
    (recast f p).verdict final s = (p.verdict final s).map f :=
  verdict_run_recast f p (.start final s)

theorem verdict_judge (refusal : Refusal) (accept : α → Except (Nat → Reason) β)
    (p : Grammar ε α) :
    (judge refusal accept p).verdict final s = (p.verdict final s).judge refusal accept s := by
  simpa [verdict] using verdict_run_judge refusal accept p (.start final s)

theorem verdict_bind (p : Grammar ε α) (next : α → Grammar ε β) :
    (bind p next).verdict final s =
      (p.verdict final s).andThen s fun a rest => (next a).verdict final rest := by
  simpa [verdict] using verdict_run_bind (p := p) (fun a m hm => verdict_run (next a) hm)
    (Cursor.within_start final s)

theorem verdict_optional (p : Grammar ε α) :
    (optional p).verdict final s = (p.verdict final s).optional s := by
  simpa [verdict] using verdict_run_optional p (.start final s)

theorem verdict_either [Vacancy α] (p q : Grammar ε α) :
    (either p q).verdict final s = (p.verdict final s).either (q.verdict final s) :=
  verdict_run_either p q (.start final s)

theorem verdict_alt (p q : Grammar ε α) :
    (alt p q).verdict final s = (p.verdict final s).alt (q.verdict final s) :=
  verdict_run_alt p q (.start final s)

theorem verdict_peek (p : Grammar ε α) :
    (peek p).verdict final s = (p.verdict final s).peek s := by
  simpa [verdict] using verdict_run_peek p (.start final s)

theorem verdict_pipe (p : Grammar ε (List ε)) (q : Grammar ε α) :
    (pipe p q).verdict final s = (p.verdict final s).pipe s (q.verdict true) := by
  simpa [verdict] using verdict_run_pipe p q (.start final s)

theorem verdict_repeatAny (p : Grammar ε α) :
    (repeatAny p).verdict final s = Verdict.many (p.verdict final) s := by
  simpa [verdict] using verdict_run_repeatAny (fun m hm => verdict_run p hm)
    (Cursor.within_start final s)

theorem verdict_repeatSome (p : Grammar ε α) :
    (repeatSome p).verdict final s = ((repeatAny p).verdict final s).atLeastOne :=
  verdict_run_repeatSome p (.start final s)

theorem verdict_separatedItems (sep : Grammar ε σ) (p : Grammar ε α) :
    (separatedItems sep p).verdict final s =
      Verdict.separated (sep.verdict final) (p.verdict final) s s := by
  simpa [verdict] using verdict_run_separatedItems (fun m hm => verdict_run sep hm)
    (fun m hm => verdict_run p hm) (Cursor.within_start final s)

theorem verdict_label (p : Grammar ε α) (name : Text) :
    (label p name).verdict final s = p.verdict final s :=
  verdict_run_label p name (.start final s)

theorem verdict_halt (name : Text) (p : Grammar ε α) :
    (halt name p).verdict final s = (p.verdict final s).halt :=
  verdict_run_halt name p (.start final s)

end Grammar

end StreamGrammar
