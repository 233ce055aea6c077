import StreamGrammar.Charset
import StreamGrammar.Proofs.Grammar.Remainder

/-!
# Loops end

A loop runs its part again wherever the last run stopped, and gives up only where
a run stopped at the very place it began. That is a test for equality, and a part
that went back now and then would pass it for ever. The loops of `Repetition` say
nothing of this, since they compare distances to the end of the source and end
whatever their parts do.

So the loops are written here as they run, with the test for equality and with the
number of runs that the part may take (`collectWithin`, `collectSeparatedWithin`).
One run more than there are elements left is enough, because no grammar ever goes
back (`Grammar.remains_run`): a round that does not stop where it began has consumed
something. Between items it is the separator that has, as an item may be empty.

The invariant holds at every place where a grammar runs one of its parts, so the
loops inside it end as well, however deep they lie: that is `Grammar.LoopsEnd`.
-/

namespace StreamGrammar

variable {ε α σ : Type}

namespace Cursor

/-- **To stop elsewhere is to stop further on**, with less remaining. -/
theorem Reaches.remaining_lt {c r : Cursor ε} (h : c.Reaches r) (hne : r.pos ≠ c.pos) :
    r.remaining < c.remaining := by
  have hle := h.le_pos
  have hwithin : r.pos ≤ r.source.size := h.within
  rw [h.source_eq] at hwithin
  unfold remaining
  rw [h.source_eq]
  omega

/-- The end is nearer from a place further on, unless that is the same place. -/
theorem Reaches.distance_lt_iff {c r : Cursor ε} (hc : c.Within) (h : c.Reaches r) :
    r.distance < c.distance ↔ r.pos ≠ c.pos := by
  have hle := h.le_pos
  have hsize := hc.pos_add_length_rest
  have hsize' := h.within.pos_add_length_rest
  rw [h.source_eq] at hsize'
  rw [hc.distance_eq, h.within.distance_eq]
  omega

end Cursor

namespace Repetition

/-! ## Loops as they run -/

/-- **The loop of a repetition within so many runs of its part**, after the values
already collected (the latest first); nothing if it takes more. It ends at a round
that stops where it began. -/
def collectWithin (step : Parser ε α) :
    (runs : Nat) → List α → Cursor ε → Option (Outcome ε (List α))
  | 0, _, _ => none
  | runs + 1, values, c =>
    match step c with
    | .matched value remainder =>
      if remainder.pos = c.pos then some (.matched values.reverse c)
      else collectWithin step runs (value :: values) remainder
    | .rejected _ => some (.matched values.reverse c)
    | .fatal reason => some (.fatal reason)
    | .truncated best remainder =>
      some (.truncated (some (best.toList ++ values).reverse) remainder)
    | .raised fault => some (.raised fault)

/-- **The loop of items and separators within so many runs of the item**. It ends at
a separator that stops where it began, whatever the items do. -/
def collectSeparatedWithin (separator : Parser ε σ) (item : Parser ε α) :
    (runs : Nat) → List α → (c afterItem : Cursor ε) → Option (Outcome ε (List α))
  | 0, _, _, _ => none
  | runs + 1, items, c, afterItem =>
    match item c with
    | .matched value remainder =>
      match separator remainder with
      | .matched _ past =>
        if past.pos = remainder.pos then some (.matched (value :: items).reverse remainder)
        else collectSeparatedWithin separator item runs (value :: items) past remainder
      | .rejected _ => some (.matched (value :: items).reverse remainder)
      | .fatal reason => some (.fatal reason)
      | .truncated _ _ => some (.truncated (some (value :: items).reverse) remainder)
      | .raised fault => some (.raised fault)
    | .rejected _ => some (.matched items.reverse afterItem)
    | .fatal reason => some (.fatal reason)
    | .truncated best remainder =>
      some (.truncated (some (best.toList ++ items).reverse) remainder)
    | .raised fault => some (.raised fault)

/-- **A repetition ends**, with the outcome of `collect`, if it may take more runs than
there are elements left. -/
theorem collectWithin_eq {step : Parser ε α} (hstep : ∀ c, c.Within → (step c).Remains c)
    {runs : Nat} (values : List α) {c : Cursor ε} (hc : c.Within) (hruns : c.remaining < runs) :
    collectWithin step runs values c = some (collect step values c) := by
  induction runs generalizing values c with
  | zero => omega
  | succ runs ih =>
    rw [collectWithin, collect]
    cases hrun : step c with
    | matched value remainder =>
      have hr : c.Reaches remainder := (hstep c hc).reaches hrun
      dsimp only
      by_cases hpos : remainder.pos = c.pos
      · rw [if_pos hpos, if_neg (fun hlt => (hr.distance_lt_iff hc).mp hlt hpos)]
      · -- the round consumed, so there is one run less to come and less to run on
        have hlt := hr.remaining_lt hpos
        rw [if_neg hpos, if_pos ((hr.distance_lt_iff hc).mpr hpos)]
        exact ih (value :: values) hr.within (by omega)
    | _ => rfl

/-- **Items and separators end**, with the outcome of `collectSeparated`, if the item
may be run more often than there are elements left. -/
theorem collectSeparatedWithin_eq {separator : Parser ε σ} {item : Parser ε α}
    (hsep : ∀ c, c.Within → (separator c).Remains c) (hitem : ∀ c, c.Within → (item c).Remains c)
    {runs : Nat} (items : List α) {c : Cursor ε} (afterItem : Cursor ε) (hc : c.Within)
    (hruns : c.remaining < runs) :
    collectSeparatedWithin separator item runs items c afterItem =
      some (collectSeparated separator item items c afterItem) := by
  induction runs generalizing items c afterItem with
  | zero => omega
  | succ runs ih =>
    rw [collectSeparatedWithin, collectSeparated]
    cases hrun : item c with
    | matched value remainder =>
      have hr : c.Reaches remainder := (hitem c hc).reaches hrun
      dsimp only
      cases hsepRun : separator remainder with
      | matched mark past =>
        have hp : remainder.Reaches past := (hsep remainder hr.within).reaches hsepRun
        dsimp only
        by_cases hpos : past.pos = remainder.pos
        · rw [if_pos hpos, if_neg (fun hlt => (hp.distance_lt_iff hr.within).mp hlt.1 hpos)]
        · -- the item may have been empty, but then the separator was not
          have hne : past.pos ≠ c.pos := by
            have := hr.le_pos
            have := hp.le_pos
            omega
          have hlt := (hr.trans hp).remaining_lt hne
          rw [if_neg hpos, if_pos ⟨(hp.distance_lt_iff hr.within).mpr hpos,
            ((hr.trans hp).distance_lt_iff hc).mpr hne⟩]
          exact ih (value :: items) remainder hp.within (by omega)
      | _ => rfl
    | _ => rfl

end Repetition

namespace Grammar

variable [Element ε]

/-! ## All loops of a grammar -/

/-- **Every loop of a run ends**: the loop at the top, which takes at most one run more
of its part than there are elements left, and the loops of all parts, wherever in the
source the run can get to. -/
def LoopsEnd : {α : Type} → Grammar ε α → Cursor ε → Prop
  | _, satisfy _ _, _ => True
  | _, literal _, _ => True
  | _, take _, _ => True
  | _, takeWhile _, _ => True
  | _, takeSomeWhile _, _ => True
  | _, otherThan _, _ => True
  | _, endOfInput, _ => True
  | _, succeed _, _ => True
  | _, undecided _ _, _ => True
  | _, map _ p, c => LoopsEnd p c
  | _, mapRaising _ p, c => LoopsEnd p c
  | _, recast _ p, c => LoopsEnd p c
  | _, judge _ _ p, c => LoopsEnd p c
  | _, bind p next, c => LoopsEnd p c ∧ ∀ value m, c.Reaches m → LoopsEnd (next value) m
  | _, optional p, c => LoopsEnd p c
  | _, either first second, c => LoopsEnd first c ∧ LoopsEnd second c
  | _, alt first second, c => LoopsEnd first c ∧ LoopsEnd second c
  | _, noAlternative, _ => True
  | _, peek p, c => LoopsEnd p c
  | _, pipe outer inner, c => LoopsEnd outer c ∧ ∀ piece, LoopsEnd inner (.complete piece)
  | _, repeatAny p, c =>
    Repetition.collectWithin p.run (c.remaining + 1) [] c = some ((repeatAny p).run c) ∧
      ∀ m, c.Reaches m → LoopsEnd p m
  | _, repeatSome p, c =>
    Repetition.collectWithin p.run (c.remaining + 1) [] c = some ((repeatAny p).run c) ∧
      ∀ m, c.Reaches m → LoopsEnd p m
  | _, separatedItems separator item, c =>
    Repetition.collectSeparatedWithin separator.run item.run (c.remaining + 1) [] c c =
        some ((separatedItems separator item).run c) ∧
      ∀ m, c.Reaches m → LoopsEnd separator m ∧ LoopsEnd item m
  | _, label p _, c => LoopsEnd p c
  | _, halt _ p, c => LoopsEnd p c
  | _, acceptLimit p, c => LoopsEnd p c

/-- The loop of a grammar ends, as the grammar never goes back. -/
theorem collectWithin_run (p : Grammar ε α) {c : Cursor ε} (hc : c.Within) :
    Repetition.collectWithin p.run (c.remaining + 1) [] c = some ((repeatAny p).run c) :=
  Repetition.collectWithin_eq (fun _ h => remains_run p h) [] hc (Nat.lt_succ_self _)

theorem loopsEnd_run (g : Grammar ε α) {c : Cursor ε} (hc : c.Within) : g.LoopsEnd c := by
  induction g generalizing c with
  | satisfy test what => trivial
  | literal expected => trivial
  | take count => trivial
  | takeWhile test => trivial
  | takeSomeWhile test => trivial
  | otherThan elements => trivial
  | endOfInput => trivial
  | succeed value => trivial
  | undecided best count => trivial
  | map f p ih => exact ih hc
  | mapRaising f p ih => exact ih hc
  | recast f p ih => exact ih hc
  | judge refusal verdict p ih => exact ih hc
  | bind p next ih ihNext => exact ⟨ih hc, fun value m hm => ihNext value hm.within⟩
  | optional p ih => exact ih hc
  | either first second ih ih' => exact ⟨ih hc, ih' hc⟩
  | alt first second ih ih' => exact ⟨ih hc, ih' hc⟩
  | noAlternative => trivial
  | peek p ih => exact ih hc
  | pipe outer inner ih ih' => exact ⟨ih hc, fun piece => ih' (Cursor.within_complete piece)⟩
  | repeatAny p ih => exact ⟨collectWithin_run p hc, fun m hm => ih hm.within⟩
  | repeatSome p ih => exact ⟨collectWithin_run p hc, fun m hm => ih hm.within⟩
  | separatedItems separator item ih ih' =>
    refine ⟨?_, fun m hm => ⟨ih hm.within, ih' hm.within⟩⟩
    exact Repetition.collectSeparatedWithin_eq (fun _ h => remains_run separator h)
      (fun _ h => remains_run item h) [] c hc (Nat.lt_succ_self _)
  | label p name ih => exact ih hc
  | halt name p ih => exact ih hc
  | acceptLimit p ih => exact ih hc

/-- **A run stops further on in its source, and its loops end.** -/
theorem remains_and_loopsEnd (g : Grammar ε α) (c : Cursor ε) (hc : c.Within) :
    (g.run c).Remains c ∧ g.LoopsEnd c :=
  ⟨remains_run g hc, loopsEnd_run g hc⟩

/-- Words with commas between them, each of which may be empty, over and over: the
inner loop takes empty items, and the outer one a part that may consume nothing. -/
def wordLists : Grammar CodePoint (List (List (Option (List CodePoint)))) :=
  repeatAny (separatedItems (ascii ',')
    (optional (takeSomeWhile fun c => Charset.isAlpha c.val)))

/-- At the second place of `;a,,b;`, where the inner loop runs its item three times and
the outer loop a second time in vain. -/
theorem remains_and_loopsEnd_wordLists :
    (⟨(Element.piece ";a,,b;".toList).toArray, 1, true⟩ : Cursor CodePoint).Within ∧
      (wordLists.run ⟨(Element.piece ";a,,b;".toList).toArray, 1, true⟩).Remains
        ⟨(Element.piece ";a,,b;".toList).toArray, 1, true⟩ ∧
      wordLists.LoopsEnd ⟨(Element.piece ";a,,b;".toList).toArray, 1, true⟩ := by
  have hwithin : (⟨(Element.piece ";a,,b;".toList).toArray, 1, true⟩ :
      Cursor CodePoint).Within := by
    show 1 ≤ (Element.piece ";a,,b;".toList : List CodePoint).toArray.size
    decide
  exact ⟨hwithin, remains_and_loopsEnd wordLists _ hwithin⟩

end Grammar

end StreamGrammar
