import StreamGrammar.Grammar.Run

/-!
# Remainders

A run stops somewhere in the source that it was given, never before the place
where it started, and it leaves the knowledge whether the source is complete
as it was. Every matcher sees to that with `Cursor.advance`, and combinators
only hand on the cursors of what they combine, so the whole is an induction
over the grammar with one small induction for each kind of loop.

What it buys is that a remainder is known by the elements it has left
(`Cursor.Reaches.pos_eq`): positions may be forgotten and found again.
-/

namespace StreamGrammar

namespace Cursor

variable {ε : Type}

/-- The cursor lies within its source, its end included. -/
def Within (c : Cursor ε) : Prop := c.pos ≤ c.source.size

/-- **A place further on**: over the same source, not before the cursor and
not past the end. -/
structure Reaches (c r : Cursor ε) : Prop where
  /-- The source is the same. -/
  source_eq : r.source = c.source
  /-- So is the knowledge whether it is complete. -/
  final_eq : r.final = c.final
  /-- The place is not before the cursor. -/
  le_pos : c.pos ≤ r.pos
  /-- The place lies within the source. -/
  within : r.Within

theorem Within.reaches {c : Cursor ε} (h : c.Within) : c.Reaches c :=
  ⟨rfl, rfl, Nat.le_refl _, h⟩

theorem Reaches.trans {c d r : Cursor ε} (h : c.Reaches d) (h' : d.Reaches r) :
    c.Reaches r :=
  ⟨h'.source_eq.trans h.source_eq, h'.final_eq.trans h.final_eq,
    Nat.le_trans h.le_pos h'.le_pos, h'.within⟩

theorem Within.reaches_advance {c : Cursor ε} (h : c.Within) (n : Nat) :
    c.Reaches (c.advance n) := by
  have h' : c.pos ≤ c.source.size := h
  refine ⟨rfl, rfl, ?_, ?_⟩
  · show c.pos ≤ min (c.pos + n) c.source.size
    omega
  · exact Nat.min_le_right _ _

theorem within_streaming (s : List ε) : (streaming s).Within := Nat.zero_le _

theorem within_complete (s : List ε) : (complete s).Within := Nat.zero_le _

/-- Within the source, the elements left and the position make up its size. -/
theorem Within.pos_add_length_rest {c : Cursor ε} (h : c.Within) :
    c.pos + c.rest.length = c.source.size := by
  have h' : c.pos ≤ c.source.size := h
  rw [rest_eq, List.length_drop, Array.length_toList]
  omega

/-- Within the source, how far the end is is how many elements are left. -/
theorem Within.distance_eq {c : Cursor ε} (h : c.Within) : c.distance = c.rest.length := by
  have h' : c.pos ≤ c.source.size := h
  have := h.pos_add_length_rest
  unfold distance
  omega

/-- **A remainder is known by the elements it has left.** -/
theorem Reaches.pos_eq {c r : Cursor ε} (h : c.Reaches r) :
    r.pos = c.source.size - r.rest.length := by
  have h' := h.within.pos_add_length_rest
  rw [h.source_eq] at h'
  omega

/-- **A remainder is where the cursor gets** by what is read of its elements. -/
theorem Reaches.eq_advance {c r : Cursor ε} (h : c.Reaches r) {read : List ε}
    (hread : c.rest = read ++ r.rest) : r = c.advance read.length := by
  have hle := h.le_pos
  have hpos := h.within.pos_add_length_rest
  rw [h.source_eq] at hpos
  have hc : c.Within := by
    show c.pos ≤ c.source.size
    omega
  have hrest := hc.pos_add_length_rest
  rw [hread, List.length_append] at hrest
  obtain ⟨source, pos, final⟩ := r
  obtain ⟨rfl, rfl⟩ : source = c.source ∧ final = c.final := ⟨h.source_eq, h.final_eq⟩
  rw [advance, Cursor.mk.injEq]
  refine ⟨rfl, ?_, rfl⟩
  dsimp only at hpos hrest
  omega

end Cursor

namespace Outcome

variable {ε α β : Type}

/-- The cursor that an outcome carries, if it carries one, is a place further
on from where the run started. -/
def Remains (c : Cursor ε) : Outcome ε α → Prop
  | matched _ remainder => c.Reaches remainder
  | truncated _ remainder => c.Reaches remainder
  | _ => True

/-- A match stops at a place further on. -/
theorem Remains.reaches {c remainder : Cursor ε} {o : Outcome ε α} (h : o.Remains c) {value : α}
    (ho : o = .matched value remainder) : c.Reaches remainder := by
  rw [ho] at h
  exact h

theorem Remains.of_reaches {c d : Cursor ε} (h : c.Reaches d) {o : Outcome ε α}
    (ho : o.Remains d) : o.Remains c := by
  cases o with
  | matched _ _ => exact h.trans ho
  | truncated _ _ => exact h.trans ho
  | _ => trivial

theorem Remains.map [Vacancy β] {c : Cursor ε} {o : Outcome ε α} (ho : o.Remains c) (f : α → β) :
    (o.map f).Remains c := by
  cases o <;> exact ho

theorem remains_refusal (c : Cursor ε) (refusal : Refusal) (reason : Reason) :
    (refusal.outcome reason : Outcome ε α).Remains c := by
  cases refusal <;> trivial

end Outcome

namespace Repetition

variable {ε α σ : Type}

theorem remains_collect {step : Cursor ε → Outcome ε α}
    (hstep : ∀ c, c.Within → (step c).Remains c) (values : List α) {c : Cursor ε}
    (hc : c.Within) : (collect step values c).Remains c := by
  fun_induction collect step values c with
  -- only a round that consumes goes on; the others stop where it began
  | case1 values c value remainder hrun _ ih =>
    have hr : c.Reaches remainder := (hstep c hc).reaches hrun
    exact (ih hr.within).of_reaches hr
  | case2 => exact hc.reaches
  | case3 => exact hc.reaches
  | case4 => trivial
  | case5 values c best remainder hrun =>
    simpa [hrun, Outcome.Remains] using hstep c hc
  | case6 => trivial

/-- The items of a separated repetition end at the cursor or, where a
separator was left alone, at the place after the last item. -/
theorem remains_collectSeparated {separator : Cursor ε → Outcome ε σ}
    {item : Cursor ε → Outcome ε α} (hsep : ∀ c, c.Within → (separator c).Remains c)
    (hitem : ∀ c, c.Within → (item c).Remains c) (items : List α) {c afterItem start : Cursor ε}
    (hc : start.Reaches c) (ha : start.Reaches afterItem) :
    (collectSeparated separator item items c afterItem).Remains start := by
  fun_induction collectSeparated separator item items c afterItem with
  | case1 items c _ value remainder hrun _ past hsepRun _ ih =>
    have hr : start.Reaches remainder := hc.trans ((hitem c hc.within).reaches hrun)
    have hp : start.Reaches past := hr.trans ((hsep remainder hr.within).reaches hsepRun)
    exact ih hp hr
  | case2 items c _ value remainder hrun =>
    exact hc.trans ((hitem c hc.within).reaches hrun)
  | case3 items c _ value remainder hrun =>
    exact hc.trans ((hitem c hc.within).reaches hrun)
  | case4 => trivial
  | case5 items c _ value remainder hrun =>
    exact hc.trans ((hitem c hc.within).reaches hrun)
  | case6 => trivial
  | case7 => exact ha
  | case8 => trivial
  | case9 items c _ best remainder hrun =>
    exact hc.trans (by simpa [hrun, Outcome.Remains] using hitem c hc.within)
  | case10 => trivial

end Repetition

namespace Grammar

variable {ε α : Type} [Element ε]

/-! ## Matchers -/

omit [Element ε] in
theorem remains_exhausted {c : Cursor ε} (hc : c.Within) (what : Expectation) :
    (exhausted c what : Outcome ε α).Remains c := by
  unfold exhausted
  split
  · trivial
  · exact hc.reaches

omit [Element ε] in
theorem remains_runTakeWhile (test : ε → Bool) {c : Cursor ε} (hc : c.Within) :
    (runTakeWhile test c).Remains c := by
  unfold runTakeWhile
  dsimp only
  split <;> exact hc.reaches_advance _

theorem remains_runOtherThan (elements : List ε) {c : Cursor ε} (hc : c.Within) :
    (runOtherThan elements c).Remains c := by
  unfold runOtherThan
  dsimp only
  split
  · exact hc.reaches_advance _
  · split
    · trivial
    · exact hc.reaches_advance _

/-! ## All grammars -/

/-- **A run stops within its source**, and not before the place where it
started. -/
theorem remains_run (g : Grammar ε α) {c : Cursor ε} (hc : c.Within) :
    (g.run c).Remains c := by
  induction g generalizing c with
  | satisfy test what =>
    simp only [run, runSatisfy]
    split
    · exact remains_exhausted hc _
    · split
      · exact hc.reaches_advance _
      · trivial
  | literal expected =>
    simp only [run, runLiteral]
    split
    · exact hc.reaches_advance _
    · split
      · exact hc.reaches
      · trivial
  | take count =>
    simp only [run, runTake]
    split
    · exact hc.reaches_advance _
    · split
      · trivial
      · exact hc.reaches_advance _
  | takeWhile test => exact remains_runTakeWhile test hc
  | takeSomeWhile test =>
    simp only [run, runTakeSomeWhile]
    split
    · exact remains_exhausted hc _
    · split
      · exact remains_runTakeWhile test hc
      · trivial
  | otherThan elements => exact remains_runOtherThan elements hc
  | endOfInput =>
    simp only [run, runEndOfInput]
    split
    · trivial
    · split <;> exact hc.reaches
  | succeed value => exact hc.reaches
  | undecided best count => exact hc.reaches_advance count
  | map f p ih =>
    have h := ih hc
    simp only [run]
    cases hrun : p.run c with
    | truncated best remainder =>
      rw [hrun] at h
      cases best with
      | none => exact hc.reaches
      | some best => exact h
    | _ => rw [hrun] at h; exact h
  | mapRaising f p ih =>
    have h := ih hc
    simp only [run]
    cases hrun : p.run c with
    | matched value remainder =>
      rw [hrun] at h
      dsimp only
      split
      · exact h
      · trivial
    | truncated best remainder =>
      rw [hrun] at h
      cases best with
      | none => exact hc.reaches
      | some best =>
        dsimp only
        split
        · exact h
        · trivial
    | _ => trivial
  | recast f p ih => exact (ih hc).map f
  | judge refusal verdict p ih =>
    have h := ih hc
    simp only [run]
    cases hrun : p.run c with
    | matched value remainder =>
      rw [hrun] at h
      dsimp only
      split
      · exact h
      · exact Outcome.remains_refusal ..
    | truncated best remainder => exact hc.reaches
    | _ => trivial
  | bind p next ih ihNext =>
    have h := ih hc
    simp only [run]
    split
    · rename_i value middle hrun
      -- what comes next starts where the first part stopped
      have hm : c.Reaches middle := h.reaches hrun
      have h' := (ihNext value hm.within).of_reaches hm
      split
      · exact hc.reaches
      · exact h'
    · trivial
    · trivial
    · exact hc.reaches
    · trivial
  | optional p ih =>
    have h := ih hc
    simp only [run]
    cases hrun : p.run c with
    | rejected reason => exact hc.reaches
    | _ => rw [hrun] at h; exact h
  | either first second ih ih' =>
    have h := ih hc
    have h' := ih' hc
    simp only [run, Choice.either]
    split
    · exact h'
    · -- the second one's match is only tentative, and stops where it did
      cases hrun : second.run c <;> (rw [hrun] at h'; exact h')
    · exact h
  | alt first second ih ih' =>
    have h := ih hc
    have h' := ih' hc
    simp only [run, Choice.alt]
    split
    · exact h'
    · rename_i best remainder hrun
      rw [hrun] at h
      cases hrun' : second.run c with
      | rejected reason => exact h
      | _ => rw [hrun'] at h'; exact h'
    · exact h
  | noAlternative => trivial
  | peek p ih =>
    have h := ih hc
    simp only [run]
    split
    · exact hc.reaches
    · exact h
  | pipe outer inner ih =>
    have h := ih hc
    simp only [run]
    cases hrun : outer.run c with
    | matched piece remainder =>
      rw [hrun] at h
      dsimp only
      -- the inner grammar stops within the piece, which is of no account
      split
      · exact h
      all_goals trivial
    | truncated best remainder => exact hc.reaches
    | _ => trivial
  | repeatAny p ih => exact Repetition.remains_collect (fun _ h => ih h) [] hc
  | repeatSome p ih =>
    have h := Repetition.remains_collect (fun _ h => ih h) [] hc
    simp only [run]
    split
    · trivial
    · exact h
  | separatedItems separator item ih ih' =>
    exact Repetition.remains_collectSeparated (fun _ h => ih h) (fun _ h => ih' h) []
      hc.reaches hc.reaches
  | label p name ih =>
    have h := ih hc
    simp only [run]
    split
    · trivial
    · trivial
    · exact h
  | halt name p ih =>
    have h := ih hc
    simp only [run]
    split
    · trivial
    · exact h
  | acceptLimit p ih =>
    have h := ih hc
    simp only [run]
    cases hrun : p.run c with
    | truncated best remainder =>
      rw [hrun] at h
      cases best with
      | none => trivial
      | some best => exact h
    | _ => rw [hrun] at h; exact h

end Grammar

end StreamGrammar
