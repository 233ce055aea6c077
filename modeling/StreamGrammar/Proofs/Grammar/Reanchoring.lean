import StreamGrammar.Grammar.Run
import StreamGrammar.Uri.Grammar

/-!
# Starting again in a suffix

A reader that has parsed a part of its input copies what is left over and parses on
from the start of the copy. A run over the copy should be the run over the whole
input from where the part ended, and as verdicts do not depend on positions it is
clear that it comes to the same. But a verdict knows neither where a remainder lies
nor what a reason says, and the next phase takes both from the run.

So two runs are followed side by side, one from a place in a source and one from the
same place in a suffix of it (`Cursor.Anchored`). Every look ahead is a function of
what is left, which is the same for both; every move takes both to the same place
again. Reasons quote positions, and these do differ. Nothing else does, as long as
the conversions of the grammar put a position into their reasons only where one is
quoted (`Grammar.QuotesPlaces`), as `convert`, `convertOrHalt` and `demand` do.
-/

namespace StreamGrammar

variable {ε α σ : Type}

/-! ## The same place in a suffix -/

namespace Cursor

/-- **A place in a source and the same place in the suffix** that leaves out the first
`k` elements. -/
structure Anchored (k : Nat) (c d : Cursor ε) : Prop where
  /-- The second source is the suffix of the first. -/
  source_eq : d.source = (c.source.toList.drop k).toArray
  /-- The first source has the elements that are left out. -/
  le_size : k ≤ c.source.size
  /-- The positions differ by as many. -/
  pos_eq : c.pos = d.pos + k
  /-- Both sources are complete, or both may grow. -/
  final_eq : c.final = d.final

variable {k : Nat} {c d : Cursor ε}

theorem Anchored.size_eq (h : c.Anchored k d) : d.source.size = c.source.size - k := by
  rw [h.source_eq]
  simp

/-- The same is left from both places. -/
theorem Anchored.rest_eq (h : c.Anchored k d) : c.rest = d.rest := by
  rw [Cursor.rest_eq, Cursor.rest_eq, h.source_eq, h.pos_eq, List.drop_drop, Nat.add_comm]

/-- **As many elements further on** the places are still the same. -/
theorem Anchored.advance (h : c.Anchored k d) (n : Nat) :
    (c.advance n).Anchored k (d.advance n) where
  source_eq := h.source_eq
  le_size := h.le_size
  pos_eq := by
    have hsize := h.size_eq
    have hle := h.le_size
    have hpos := h.pos_eq
    show min (c.pos + n) c.source.size = min (d.pos + n) d.source.size + k
    omega
  final_eq := h.final_eq

/-- The end is as far from both places. -/
theorem Anchored.distance_eq (h : c.Anchored k d) : c.distance = d.distance := by
  have hsize := h.size_eq
  have hle := h.le_size
  have hpos := h.pos_eq
  unfold distance
  omega

theorem Anchored.current?_eq (h : c.Anchored k d) : c.current? = d.current? := by
  rw [Cursor.current?_eq, Cursor.current?_eq, h.rest_eq]

theorem Anchored.sliceAhead_eq (h : c.Anchored k d) (n : Nat) :
    c.sliceAhead n = d.sliceAhead n := by
  rw [Cursor.sliceAhead_eq, Cursor.sliceAhead_eq, h.rest_eq]

theorem Anchored.atEnd_eq (h : c.Anchored k d) : c.atEnd = d.atEnd := by
  rw [Bool.eq_iff_iff, atEnd_iff, atEnd_iff, h.rest_eq]

/-- A scan passes as many elements from both places. -/
theorem Anchored.scan_sub_eq (h : c.Anchored k d) (test : ε → Bool) :
    c.scan test - c.pos = d.scan test - d.pos := by
  rw [scan_eq, scan_eq, h.rest_eq]
  omega

/-- A scan passes the same elements from both places. -/
theorem Anchored.sliceTo_scan_eq (h : c.Anchored k d) (test : ε → Bool) :
    c.sliceTo (c.scan test) = d.sliceTo (d.scan test) := by
  rw [sliceTo_eq, sliceTo_eq, h.scan_sub_eq, h.rest_eq]

end Cursor

/-! ## Reasons without places -/

/-- A reason in which no position is quoted any more. -/
def Reason.unplaced : Reason → Reason
  | expected what _ found => .expected what 0 found
  | invalid label value _ fault => .invalid label value 0 fault
  | refused what _ => .refused what 0
  | noAlternative _ => .noAlternative 0
  | incomplete piece _ => .incomplete piece 0
  | ended _ => .ended 0
  | labelled name inner => .labelled name inner.unplaced
  | labelledFatal name inner => .labelledFatal name inner.unplaced
  | halted name _ inner => .halted name 0 inner.unplaced

namespace Outcome

/-- **Outcomes in a source and in its suffix**: of the same kind, with the same value or
partial result and with remainders at the same place. The reasons are the same up to
positions if nothing but positions can tell them apart (`quotes`). -/
inductive Moved (k : Nat) (quotes : Prop) : Outcome ε α → Outcome ε α → Prop
  /-- Both match. -/
  | matched (value : α) {c d : Cursor ε} (h : c.Anchored k d) :
      Moved k quotes (.matched value c) (.matched value d)
  /-- Both reject. -/
  | rejected {reason reason' : Reason} (h : quotes → reason.unplaced = reason'.unplaced) :
      Moved k quotes (.rejected reason) (.rejected reason')
  /-- Both fail for good. -/
  | fatal {reason reason' : Reason} (h : quotes → reason.unplaced = reason'.unplaced) :
      Moved k quotes (.fatal reason) (.fatal reason')
  /-- Both are cut short. -/
  | truncated (best : Option α) {c d : Cursor ε} (h : c.Anchored k d) :
      Moved k quotes (.truncated best c) (.truncated best d)
  /-- The same conversion fails in both. -/
  | raised (fault : Fault) : Moved k quotes (.raised fault) (.raised fault)

variable {k : Nat} {quotes : Prop}

theorem moved_refusal (refusal : Refusal) {reason reason' : Reason}
    (h : quotes → reason.unplaced = reason'.unplaced) :
    Moved k quotes (refusal.outcome reason : Outcome ε α) (refusal.outcome reason') := by
  cases refusal with
  | rejected => exact .rejected h
  | fatal => exact .fatal h

end Outcome

open Outcome (Moved)

variable {k : Nat} {quotes : Prop} {c d : Cursor ε}

namespace Repetition

/-- **A loop goes round as often** in the suffix, and collects the same. -/
theorem moved_collect {step : Parser ε α}
    (hstep : ∀ c d, c.Anchored k d → Moved k quotes (step c) (step d)) (values : List α)
    (h : c.Anchored k d) :
    Moved k quotes (collect step values c) (collect step values d) := by
  induction hn : c.distance using Nat.strongRecOn generalizing values c d with
  | _ n ih =>
    have hround := hstep c d h
    rw [collect.eq_1 step values c, collect.eq_1 step values d]
    generalize step c = round at hround ⊢
    generalize step d = round' at hround ⊢
    cases hround with
    | @matched value past past' hpast =>
      dsimp only
      rw [← h.distance_eq, ← hpast.distance_eq]
      split
      · exact ih past.distance (by omega) (value :: values) hpast rfl
      · exact .matched _ h
    | rejected hreason => exact .matched _ h
    | fatal hreason => exact .fatal hreason
    | truncated best hstop => exact .truncated _ hstop
    | raised fault => exact .raised fault

/-- The same for items with separators between them. -/
theorem moved_collectSeparated {separator : Parser ε σ} {item : Parser ε α}
    (hsep : ∀ c d, c.Anchored k d → Moved k quotes (separator c) (separator d))
    (hitem : ∀ c d, c.Anchored k d → Moved k quotes (item c) (item d)) (items : List α)
    {after after' : Cursor ε} (h : c.Anchored k d) (hafter : after.Anchored k after') :
    Moved k quotes (collectSeparated separator item items c after)
      (collectSeparated separator item items d after') := by
  induction hn : c.distance using Nat.strongRecOn generalizing items c d after after' with
  | _ n ih =>
    have hround := hitem c d h
    rw [collectSeparated.eq_1 separator item items c,
      collectSeparated.eq_1 separator item items d]
    generalize item c = round at hround ⊢
    generalize item d = round' at hround ⊢
    cases hround with
    | @matched value stop stop' hstop =>
      have hmark := hsep stop stop' hstop
      dsimp only
      generalize separator stop = mark at hmark ⊢
      generalize separator stop' = mark' at hmark ⊢
      cases hmark with
      | @matched _ past past' hpast =>
        dsimp only
        rw [← h.distance_eq, ← hstop.distance_eq, ← hpast.distance_eq]
        split
        · exact ih past.distance (by omega) (value :: items) hpast hstop rfl
        · exact .matched _ hstop
      | rejected hreason => exact .matched _ hstop
      | fatal hreason => exact .fatal hreason
      | truncated best hcut => exact .truncated _ hstop
      | raised fault => exact .raised fault
    | rejected hreason => exact .matched _ hafter
    | fatal hreason => exact .fatal hreason
    | truncated best hcut => exact .truncated _ hcut
    | raised fault => exact .raised fault

end Repetition

namespace Grammar

variable {β : Type}

/-! ## Grammars that quote places -/

/-- **A position is only quoted**: whatever a conversion of the grammar refuses, it
refuses at all places for reasons that differ in positions alone. -/
def QuotesPlaces : {α : Type} → Grammar ε α → Prop
  | _, satisfy _ _ => True
  | _, literal _ => True
  | _, take _ => True
  | _, takeWhile _ => True
  | _, takeSomeWhile _ => True
  | _, otherThan _ => True
  | _, endOfInput => True
  | _, succeed _ => True
  | _, undecided _ _ => True
  | _, map _ p => QuotesPlaces p
  | _, mapRaising _ p => QuotesPlaces p
  | _, recast _ p => QuotesPlaces p
  | _, judge _ verdict p =>
    (∀ value reason, verdict value = .error reason →
      ∀ pos pos', (reason pos).unplaced = (reason pos').unplaced) ∧ QuotesPlaces p
  | _, bind p next => QuotesPlaces p ∧ ∀ value, QuotesPlaces (next value)
  | _, optional p => QuotesPlaces p
  | _, either first second => QuotesPlaces first ∧ QuotesPlaces second
  | _, alt first second => QuotesPlaces first ∧ QuotesPlaces second
  | _, noAlternative => True
  | _, peek p => QuotesPlaces p
  | _, pipe outer inner => QuotesPlaces outer ∧ QuotesPlaces inner
  | _, repeatAny p => QuotesPlaces p
  | _, repeatSome p => QuotesPlaces p
  | _, separatedItems separator item => QuotesPlaces separator ∧ QuotesPlaces item
  | _, label p _ => QuotesPlaces p
  | _, halt _ p => QuotesPlaces p
  | _, acceptLimit p => QuotesPlaces p

/-- A conversion quotes the place where it was refused. -/
theorem unplaced_of_verdict {conversion : Conversion α β} {value : α} {reason : Nat → Reason}
    (h : conversion.verdict value = .error reason) (pos pos' : Nat) :
    (reason pos).unplaced = (reason pos').unplaced := by
  unfold Conversion.verdict at h
  cases hvalue : conversion.convert value with
  | ok converted =>
    rw [hvalue] at h
    cases h
  | error fault =>
    rw [hvalue] at h
    cases h
    rfl

@[simp] theorem quotesPlaces_convert {conversion : Conversion α β} {p : Grammar ε α} :
    (convert conversion p).QuotesPlaces ↔ p.QuotesPlaces :=
  and_iff_right fun _ _ h => unplaced_of_verdict h

@[simp] theorem quotesPlaces_convertOrHalt {conversion : Conversion α β} {p : Grammar ε α} :
    (convertOrHalt conversion p).QuotesPlaces ↔ p.QuotesPlaces :=
  and_iff_right fun _ _ h => unplaced_of_verdict h

@[simp] theorem quotesPlaces_demand {p : Grammar ε (Except Text α)} :
    (demand p).QuotesPlaces ↔ p.QuotesPlaces := by
  refine and_iff_right ?_
  rintro (what | value) reason h pos pos'
  · cases h
    rfl
  · cases h

/-! ## Runs -/

variable [Element ε]

omit [Element ε] in
theorem moved_exhausted (what : Expectation) (h : c.Anchored k d) :
    Moved k quotes (exhausted c what : Outcome ε α) (exhausted d what) := by
  unfold exhausted
  rw [h.final_eq]
  split
  · exact .rejected fun _ => rfl
  · exact .truncated none h

omit [Element ε] in
theorem moved_runTakeWhile (test : ε → Bool) (h : c.Anchored k d) :
    Moved k quotes (runTakeWhile test c) (runTakeWhile test d) := by
  have hstop := h.advance (c.scan test - c.pos)
  unfold runTakeWhile
  dsimp only
  rw [hstop.atEnd_eq, h.final_eq, h.sliceTo_scan_eq]
  rw [h.scan_sub_eq] at hstop ⊢
  split
  · exact .truncated _ hstop
  · exact .matched _ hstop

theorem moved_runOtherThan (elements : List ε) (h : c.Anchored k d) :
    Moved k quotes (runOtherThan elements c) (runOtherThan elements d) := by
  have hstop := h.advance ((c.scan fun e => !elements.contains e) - c.pos)
  unfold runOtherThan
  dsimp only
  rw [hstop.atEnd_eq, h.final_eq, h.sliceTo_scan_eq]
  rw [h.scan_sub_eq] at hstop ⊢
  split
  · exact .truncated _ hstop
  · split
    · exact .rejected fun _ => rfl
    · exact .matched _ hstop

/-- **A run over a suffix is the run over the whole** from the same place. -/
theorem moved_run (g : Grammar ε α) (hg : quotes → g.QuotesPlaces) (h : c.Anchored k d) :
    Moved k quotes (g.run c) (g.run d) := by
  induction g generalizing c d with
  | satisfy test what =>
    simp only [run, runSatisfy, h.current?_eq]
    split
    · exact moved_exhausted what h
    · split
      · exact .matched _ (h.advance 1)
      · exact .rejected fun _ => rfl
  | literal expected =>
    simp only [run, runLiteral, h.sliceAhead_eq, h.final_eq]
    split
    · exact .matched _ (h.advance _)
    · split
      · exact .truncated _ h
      · exact .rejected fun _ => rfl
  | take count =>
    simp only [run, runTake, h.sliceAhead_eq, h.final_eq]
    split
    · exact .matched _ (h.advance _)
    · split
      · exact .rejected fun _ => rfl
      · exact .truncated _ (h.advance _)
  | takeWhile test => exact moved_runTakeWhile test h
  | takeSomeWhile test =>
    simp only [run, runTakeSomeWhile, h.current?_eq]
    split
    · exact moved_exhausted _ h
    · split
      · exact moved_runTakeWhile test h
      · exact .rejected fun _ => rfl
  | otherThan elements => exact moved_runOtherThan elements h
  | endOfInput =>
    simp only [run, runEndOfInput, h.current?_eq, h.final_eq]
    split
    · exact .rejected fun _ => rfl
    · split
      · exact .matched _ h
      · exact .truncated _ h
  | succeed value => exact .matched value h
  | undecided best count => exact .truncated _ (h.advance count)
  | map f p ih =>
    have hrun := ih hg h
    simp only [run]
    generalize p.run c = o at hrun ⊢
    generalize p.run d = o' at hrun ⊢
    cases hrun with
    | truncated best hstop =>
      cases best with
      | none => exact .truncated _ h
      | some best => exact .truncated _ hstop
    | _ => constructor <;> assumption
  | mapRaising f p ih =>
    have hrun := ih hg h
    simp only [run]
    generalize p.run c = o at hrun ⊢
    generalize p.run d = o' at hrun ⊢
    cases hrun with
    | matched value hpast =>
      dsimp only
      cases f value with
      | ok converted => exact .matched _ hpast
      | error fault => exact .raised fault
    | truncated best hstop =>
      cases best with
      | none => exact .truncated _ h
      | some best =>
        dsimp only
        cases f best with
        | ok converted => exact .truncated _ hstop
        | error fault => exact .raised fault
    | _ => constructor <;> assumption
  | recast f p ih =>
    have hrun := ih hg h
    simp only [run]
    generalize p.run c = o at hrun ⊢
    generalize p.run d = o' at hrun ⊢
    cases hrun <;> constructor <;> assumption
  | judge refusal verdict p ih =>
    have hrun := ih (fun hq => (hg hq).2) h
    simp only [run]
    generalize p.run c = o at hrun ⊢
    generalize p.run d = o' at hrun ⊢
    cases hrun with
    | matched value hpast =>
      dsimp only
      cases hvalue : verdict value with
      | ok accepted => exact .matched _ hpast
      | error reason =>
        -- the one place where a reason is made up from a position by the grammar
        exact Outcome.moved_refusal refusal fun hq => (hg hq).1 value reason hvalue _ _
    | truncated best hstop => exact .truncated _ h
    | _ => constructor <;> assumption
  | bind p next ih ihNext =>
    have hrun := ih (fun hq => (hg hq).1) h
    simp only [run]
    generalize p.run c = o at hrun ⊢
    generalize p.run d = o' at hrun ⊢
    cases hrun with
    | @matched value middle middle' hmiddle =>
      have hnext := ihNext value (fun hq => (hg hq).2 value) hmiddle
      dsimp only
      generalize (next value).run middle = o at hnext ⊢
      generalize (next value).run middle' = o' at hnext ⊢
      cases hnext with
      | truncated best hstop => exact .truncated _ h
      | _ => constructor <;> assumption
    | truncated best hstop => exact .truncated _ h
    | _ => constructor <;> assumption
  | optional p ih =>
    have hrun := ih hg h
    simp only [run]
    generalize p.run c = o at hrun ⊢
    generalize p.run d = o' at hrun ⊢
    cases hrun with
    | rejected hreason => exact .matched _ h
    | _ => constructor <;> assumption
  | either first second ih ih' =>
    have hrun := ih (fun hq => (hg hq).1) h
    have hrun' := ih' (fun hq => (hg hq).2) h
    simp only [run, Choice.either]
    generalize first.run c = o at hrun ⊢
    generalize first.run d = o' at hrun ⊢
    cases hrun with
    | rejected hreason => exact hrun'
    | truncated best hstop =>
      cases best with
      | none =>
        dsimp only
        generalize second.run c = o at hrun' ⊢
        generalize second.run d = o' at hrun' ⊢
        cases hrun' with
        | matched value hpast => exact .truncated _ hpast
        | _ => constructor <;> assumption
      | some best => exact .truncated _ hstop
    | _ => constructor <;> assumption
  | alt first second ih ih' =>
    have hrun := ih (fun hq => (hg hq).1) h
    have hrun' := ih' (fun hq => (hg hq).2) h
    simp only [run, Choice.alt]
    generalize first.run c = o at hrun ⊢
    generalize first.run d = o' at hrun ⊢
    cases hrun with
    | rejected hreason => exact hrun'
    | truncated best hstop =>
      dsimp only
      generalize second.run c = o at hrun' ⊢
      generalize second.run d = o' at hrun' ⊢
      cases hrun' with
      | rejected hreason => exact .truncated _ hstop
      | _ => constructor <;> assumption
    | _ => constructor <;> assumption
  | noAlternative => exact .rejected fun _ => rfl
  | peek p ih =>
    have hrun := ih hg h
    simp only [run]
    generalize p.run c = o at hrun ⊢
    generalize p.run d = o' at hrun ⊢
    cases hrun with
    | matched value hpast => exact .matched _ h
    | _ => constructor <;> assumption
  | pipe outer inner ih =>
    have hrun := ih (fun hq => (hg hq).1) h
    simp only [run]
    generalize outer.run c = o at hrun ⊢
    generalize outer.run d = o' at hrun ⊢
    cases hrun with
    | matched piece hpast =>
      -- both run the inner grammar over the piece itself, so there is nothing to move
      dsimp only
      cases inner.run (.complete piece) with
      | matched value stop => exact .matched _ hpast
      | rejected reason => exact .rejected fun _ => rfl
      | fatal reason => exact .fatal fun _ => rfl
      | truncated best stop => exact .fatal fun _ => rfl
      | raised fault => exact .raised fault
    | truncated best hstop => exact .truncated _ h
    | _ => constructor <;> assumption
  | repeatAny p ih => exact Repetition.moved_collect (fun _ _ => ih hg) [] h
  | repeatSome p ih =>
    have hrun := Repetition.moved_collect (fun _ _ => ih hg) [] h
    simp only [run]
    generalize Repetition.collect p.run [] c = o at hrun ⊢
    generalize Repetition.collect p.run [] d = o' at hrun ⊢
    cases hrun with
    | matched values hpast =>
      cases values with
      | nil => exact .rejected fun _ => rfl
      | cons value values => exact .matched _ hpast
    | _ => constructor <;> assumption
  | separatedItems separator item ih ih' =>
    exact Repetition.moved_collectSeparated (fun _ _ => ih fun hq => (hg hq).1)
      (fun _ _ => ih' fun hq => (hg hq).2) [] h h
  | label p name ih =>
    have hrun := ih hg h
    simp only [run]
    generalize p.run c = o at hrun ⊢
    generalize p.run d = o' at hrun ⊢
    cases hrun with
    | rejected hreason => exact .rejected fun hq => congrArg (Reason.labelled name) (hreason hq)
    | fatal hreason => exact .fatal fun hq => congrArg (Reason.labelledFatal name) (hreason hq)
    | _ => constructor <;> assumption
  | halt name p ih =>
    have hrun := ih hg h
    simp only [run]
    generalize p.run c = o at hrun ⊢
    generalize p.run d = o' at hrun ⊢
    cases hrun with
    | rejected hreason => exact .fatal fun hq => congrArg (Reason.halted name 0) (hreason hq)
    | _ => constructor <;> assumption
  | acceptLimit p ih =>
    have hrun := ih hg h
    simp only [run]
    generalize p.run c = o at hrun ⊢
    generalize p.run d = o' at hrun ⊢
    cases hrun with
    | truncated best hstop =>
      cases best with
      | none => exact .rejected fun _ => rfl
      | some best => exact .matched _ hstop
    | _ => constructor <;> assumption

/-- **What is left can be parsed as a source of its own.** A run at the `k`-th place of
a source and a run at the start of what the source has from there end alike, and their
remainders lie `k` elements apart. -/
theorem run_reanchored (g : Grammar ε α) (s : List ε) (final : Bool) {k : Nat}
    (hk : k ≤ s.length) :
    Moved k g.QuotesPlaces (g.run { source := s.toArray, pos := k, final })
      (g.run { source := (s.drop k).toArray, pos := 0, final }) :=
  moved_run g id
    { source_eq := rfl
      le_size := hk
      pos_eq := (Nat.zero_add k).symm
      final_eq := rfl }

/-- In `http://a:70000` from the host on, where the port is refused and the reason says
at which place. -/
theorem run_reanchored_authority :
    7 ≤ (Element.piece "http://a:70000".toList : Text).length ∧
      Uri.authority.QuotesPlaces ∧
      Moved 7 Uri.authority.QuotesPlaces
        (Uri.authority.run
          { source := (Element.piece "http://a:70000".toList).toArray, pos := 7, final := true })
        (Uri.authority.run
          { source := ((Element.piece "http://a:70000".toList).drop 7).toArray, pos := 0,
            final := true }) := by
  refine ⟨by decide, ?_, run_reanchored Uri.authority _ true (by decide)⟩
  simp [Uri.authority, Uri.userinfo, Uri.host, Uri.port, Uri.ipv4Address, Uri.decOctet,
    Uri.digit, Uri.regName, Uri.hostEnd, Uri.percentEncoded, Uri.escapedByte, serial, serial3,
    serial4, terminated, preceded, eitherOf, ascii, asciiOf, char, charOf, QuotesPlaces]

end Grammar

end StreamGrammar
