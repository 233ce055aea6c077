import Mathlib.Data.List.Induction
import Mathlib.Data.Prod.Lex
import StreamGrammar.Grammar.Complete
import StreamGrammar.Proofs.Grammar.Remainder

/-!
# Lines and columns

A line and a column are found by looking back: the line by counting line feeds, the column
by searching the last of them. That the two together tell places apart does not follow from
either count. It follows from a description that looks ahead, `lineOffset`: the offset at
which a line starts, found by reading the source from its beginning. Where the last line feed
was found is the offset of the line that was counted (`Cursor.lineStart_eq`), whichever of
the elements around the place are line feeds and also if none is. A line and a column then
lead back to the place, and places on one line are in the order of their columns.

The span that is made of a place is therefore one that `Span.check` lets pass and that leads
back to the place (`Span.PointsAt`). The failures of a complete parse carry such spans: input
that is left over begins at the offset, and what is missing is missing at the end.
-/

namespace StreamGrammar

variable {ε : Type} [Element ε]

/-- **Where a line starts**: the offset behind so many line feeds, or the end of the source
if there are fewer. -/
def lineOffset : List ε → Nat → Nat
  | _, 0 => 0
  | [], _ + 1 => 0
  | e :: source, n + 1 =>
    (if e = Element.newline then lineOffset source n else lineOffset source (n + 1)) + 1

/-- A line starts right behind the line feed that ends the one before. -/
theorem lineOffset_newline (s rest : List ε) :
    lineOffset (s ++ Element.newline :: rest) (s.count Element.newline + 1) = s.length + 1 := by
  induction s with
  | nil =>
    rw [List.nil_append, List.count_nil, lineOffset, if_pos rfl, lineOffset]
    rfl
  | cons e s ih =>
    rw [List.cons_append, lineOffset, List.count_cons]
    by_cases he : e = Element.newline
    · rw [if_pos he, if_pos (beq_iff_eq.mpr he), ih, List.length_cons]
    · rw [if_neg he, if_neg (mt beq_iff_eq.mp he), Nat.add_zero, ih, List.length_cons]

/-- **Looking back for a line feed finds where the line starts.** -/
theorem lineOffset_count (s rest : List ε) :
    lineOffset (s ++ rest) (s.count Element.newline) =
      s.length - (s.reverse.takeWhile fun e => e != Element.newline).length := by
  induction s using List.reverseRecOn generalizing rest with
  | nil => exact lineOffset.eq_1 _
  | append_singleton s e ih =>
    rw [List.append_assoc, List.singleton_append, List.count_append, List.count_singleton,
      List.reverse_append, List.reverse_singleton, List.singleton_append, List.length_append,
      List.length_singleton]
    by_cases he : e = Element.newline
    · rw [if_pos (beq_iff_eq.mpr he), he, lineOffset_newline, List.takeWhile_cons_of_neg (by simp)]
      rfl
    · -- the element belongs to the line, which starts where it did
      rw [if_neg (mt beq_iff_eq.mp he), Nat.add_zero, ih (e :: rest),
        List.takeWhile_cons_of_pos (by simpa using he), List.length_cons]
      omega

namespace Cursor

omit [Element ε] in
theorem before_eq (c : Cursor ε) : c.before = c.source.toList.take c.pos := by
  simp [before, Array.toList_extract, List.extract_eq_take_drop]

/-- The line feed that is searched is the last of those that are counted. -/
theorem lineStart_eq (c : Cursor ε) :
    c.lineStart = lineOffset c.source.toList c.newlinesBefore := by
  have h := lineOffset_count c.before (c.source.toList.drop c.pos)
  rw [before_eq, List.take_append_drop, ← before_eq] at h
  rw [lineStart, newlinesBefore, h]

theorem lineStart_le (c : Cursor ε) : c.lineStart ≤ c.pos := by
  unfold lineStart
  have h : c.before.length ≤ c.pos := by
    rw [before_eq, List.length_take]
    exact Nat.min_le_left _ _
  omega

/-- **A line and a column lead back to the place.** -/
theorem lineOffset_add_column (c : Cursor ε) :
    lineOffset c.source.toList (c.lineColumn.1 - 1) + c.lineColumn.2 = c.pos + 1 := by
  have hle := c.lineStart_le
  have heq := c.lineStart_eq
  show lineOffset c.source.toList c.newlinesBefore + (c.pos - c.lineStart + 1) = c.pos + 1
  omega

variable {c d : Cursor ε}

/-- Lines do not go back. -/
theorem newlinesBefore_mono (hsource : d.source = c.source) (hle : c.pos ≤ d.pos) :
    c.newlinesBefore ≤ d.newlinesBefore := by
  unfold newlinesBefore
  rw [before_eq, before_eq, hsource]
  exact (List.take_prefix_take_left hle).sublist.count_le Element.newline

/-- **Places are in the order of their lines and columns.** -/
theorem lineColumn_lt (hsource : d.source = c.source) (hlt : c.pos < d.pos) :
    toLex c.lineColumn < toLex d.lineColumn := by
  have hline := newlinesBefore_mono hsource (Nat.le_of_lt hlt)
  have hc := c.lineOffset_add_column
  have hd := d.lineOffset_add_column
  rw [Prod.Lex.toLex_lt_toLex]
  rcases Nat.lt_or_eq_of_le hline with hless | hsame
  · exact .inl (Nat.succ_lt_succ hless)
  · have heq : c.lineColumn.1 = d.lineColumn.1 := congrArg (· + 1) hsame
    refine .inr ⟨heq, ?_⟩
    -- on one line both columns are counted from the same offset
    rw [← heq, hsource] at hd
    omega

end Cursor

/-! ## Spans -/

/-- **A span that points at an offset**: an empty one there, with the line that the line
feeds before it make and the column that leads back to it. -/
structure Span.PointsAt (source : List ε) (pos : Nat) (s : Span) : Prop where
  /-- It starts at the offset. -/
  start_eq : s.start = pos
  /-- It ends there, too. -/
  stop_eq : s.stop = pos
  /-- Its line is one more than there are line feeds before the offset. -/
  line_eq : s.line = (source.take pos).count Element.newline + 1
  /-- Its column is counted from where the line starts. -/
  column_eq : lineOffset source (s.line - 1) + s.column = pos + 1
  /-- It passes the check. -/
  checked : Span.check s.start s.stop s.line s.column = .ok s

/-- **The place of a cursor points at it**, and past the end at the end. -/
theorem Cursor.toSpan_pointsAt (c : Cursor ε) :
    c.toSpan.PointsAt c.source.toList (min c.pos c.source.size) where
  start_eq := rfl
  stop_eq := rfl
  line_eq := by
    rw [← before_eq { c with pos := min c.pos c.source.size }]
    rfl
  column_eq := lineOffset_add_column { c with pos := min c.pos c.source.size }
  checked := Span.check_of_valid ⟨Nat.le_refl _, Nat.le_add_left 1 _, Nat.le_add_left 1 _⟩

/-! ## Failures of a complete parse -/

namespace Grammar

variable {α : Type} {g : Grammar ε α} {source : List ε} {settings : ParseSettings}

/-- **A parse that fails is refused for its size or fails with its run.** -/
theorem parseAll_eq_error {failure : Failure} (h : g.parseAll source settings = .error failure) :
    (∃ why, failure = .invalidArgument why) ∨
    (∃ notice limit, failure = .limitExceeded notice limit) ∨
    match g.run (.complete source) with
    | .matched _ remainder => remainder.atEnd = false ∧
      failure = .parse (.diagnosed (.trailingInput remainder.toSpan))
        (Diagnostic.trailingInput remainder.toSpan).message false
    | .rejected reason => ∃ diagnostic, failure = .parse (.diagnosed diagnostic) reason.text false
    | .fatal reason => ∃ diagnostic, failure = .parse (.diagnosed diagnostic) reason.text true
    | .truncated _ _ =>
      failure = .incomplete (.diagnosed (.incompleteInput source.length
        (some { Cursor.complete source with pos := source.length }.toSpan))) "incomplete input"
        false
    | .raised fault => failure = .unguarded fault := by
  rw [parseAll] at h
  cases hlimit : Limits.resolve settings.maxSourceSize Limits.maxSourceSize with
  | error refused =>
    rw [hlimit] at h
    cases h
    exact .inl (Limits.invalidArgument_of_resolve hlimit)
  | ok limit =>
    rw [hlimit] at h
    dsimp only at h
    cases hsize : Limits.checkSourceSize source.length limit with
    | error refused =>
      rw [hsize] at h
      cases h
      unfold Limits.checkSourceSize at hsize
      split at hsize
      · cases hsize
        exact .inr (.inl ⟨_, _, rfl⟩)
      · cases hsize
    | ok admitted =>
      rw [hsize] at h
      dsimp only at h
      refine .inr (.inr ?_)
      generalize g.run (.complete source) = o at h ⊢
      cases o with
      | matched value remainder =>
        dsimp only at h
        split at h
        · rename_i hover
          cases h
          simp only [Bool.and_eq_true, Bool.not_eq_true'] at hover
          exact ⟨hover.2, rfl⟩
        · cases h
      | rejected reason | fatal reason =>
        cases h
        exact ⟨_, rfl⟩
      | truncated best remainder | raised fault =>
        cases h
        rfl

/-- **A line and a column tell every place from every other, and failures point at
theirs.** Places in a source are in the order of their lines and columns. The line is one more
than there are line feeds before the place, and the column, counted from where that line
starts, leads back to the place. The span made of any cursor passes the check and points at
the cursor, or at the end if it lies behind that. So do the spans that a complete parse
attaches to its failures: where a match leaves input over, the span points at the first
element that was not consumed, and where input is missing, at the end. -/
theorem places_are_told_apart :
    (∀ c d : Cursor ε, d.source = c.source → c.pos < d.pos → d.Within →
      toLex c.lineColumn < toLex d.lineColumn) ∧
    (∀ c : Cursor ε, c.Within →
      c.lineColumn.1 = 1 + (c.source.toList.take c.pos).count Element.newline ∧
      lineOffset c.source.toList (c.lineColumn.1 - 1) + c.lineColumn.2 - 1 = c.pos) ∧
    (∀ c : Cursor ε, c.toSpan.PointsAt c.source.toList (min c.pos c.source.size)) ∧
    ∀ {α : Type} (g : Grammar ε α) (source : List ε) (settings : ParseSettings) notice reason fatal,
      (∀ value remainder, g.run (.complete source) = .matched value remainder →
        g.parseAll source settings = .error (.parse notice reason fatal) →
          ∃ span, notice = .diagnosed (.trailingInput span) ∧ span.PointsAt source remainder.pos ∧
            remainder.rest ≠ [] ∧ source.drop span.start = remainder.rest) ∧
      (g.parseAll source settings = .error (.incomplete notice reason fatal) →
        ∃ span, notice = .diagnosed (.incompleteInput source.length (some span)) ∧
          span.PointsAt source source.length) := by
  refine ⟨fun c d hsource hlt _ => Cursor.lineColumn_lt hsource hlt, fun c _ => ⟨?_, ?_⟩,
    Cursor.toSpan_pointsAt, fun g source settings notice reason fatal => ⟨?_, fun h => ?_⟩⟩
  · rw [← Cursor.before_eq, Nat.add_comm]
    rfl
  · rw [Cursor.lineOffset_add_column, Nat.add_sub_cancel]
  · intro value remainder hrun h
    have hr : (Cursor.complete source).Reaches remainder :=
      (remains_run g (Cursor.within_complete source)).reaches hrun
    rcases parseAll_eq_error h with ⟨_, hother⟩ | ⟨_, _, hother⟩ | hfailure
    · cases hother
    · cases hother
    · rw [hrun] at hfailure
      obtain ⟨hover, hfailure⟩ := hfailure
      cases hfailure
      have hsource : remainder.source.toList = source := congrArg Array.toList hr.source_eq
      have hpos : min remainder.pos remainder.source.size = remainder.pos :=
        Nat.min_eq_left hr.within
      have hpoints := remainder.toSpan_pointsAt
      rw [hsource, hpos] at hpoints
      refine ⟨_, rfl, hpoints, fun hnil => ?_, ?_⟩
      · rw [(Cursor.atEnd_iff remainder).mpr hnil] at hover
        cases hover
      · rw [hpoints.start_eq, Cursor.rest_eq, hsource]
  · rcases parseAll_eq_error h with ⟨_, hother⟩ | ⟨_, _, hother⟩ | hfailure
    · cases hother
    · cases hother
    · have hend := { Cursor.complete source with pos := source.length }.toSpan_pointsAt
      have hpos : min source.length source.toArray.size = source.length :=
        Nat.min_eq_left (Nat.le_refl _)
      generalize g.run (.complete source) = o at hfailure
      cases o with
      | truncated best remainder =>
        cases hfailure
        refine ⟨_, rfl, ?_⟩
        simpa [Cursor.complete] using hend
      | matched value remainder => cases hfailure.2
      | rejected why | fatal why =>
        obtain ⟨_, hother⟩ := hfailure
        cases hother
      | raised fault => cases hfailure

/-- Places at an empty line, a match that stops there, and input that is missing behind the
line after it. -/
theorem places_are_told_apart_at_an_empty_line :
    let source := Text.ofChars ['a', '\n', '\n', 'b']
    let c : Cursor CodePoint := { Cursor.complete source with pos := 2 }
    let d : Cursor CodePoint := { Cursor.complete source with pos := 3 }
    let g : Grammar CodePoint Text := token ['a', '\n']
    let waiting : Grammar CodePoint Text := undecided none 1
    (d.source = c.source ∧ c.pos < d.pos ∧ d.Within) ∧
      toLex c.lineColumn < toLex d.lineColumn ∧
      lineOffset source (c.lineColumn.1 - 1) + c.lineColumn.2 - 1 = 2 ∧
      (∃ value, g.run (.complete source) = .matched value c) ∧
      (∃ span reason, span.PointsAt source 2 ∧ g.parseAll source {} =
        .error (.parse (.diagnosed (.trailingInput span)) reason false)) ∧
      ∃ span, span.PointsAt source 4 ∧ waiting.parseAll source {} =
        .error (.incomplete (.diagnosed (.incompleteInput 4 (some span))) "incomplete input"
          false) := by
  intro source c d g waiting
  obtain ⟨horder, hback, -, hspans⟩ := places_are_told_apart (ε := CodePoint)
  have hparse : g.parseAll source {} = .error (.parse (.diagnosed (.trailingInput c.toSpan))
    (Diagnostic.trailingInput c.toSpan).message false) := rfl
  have hwaiting : waiting.parseAll source {} = .error (.incomplete (.diagnosed
    (.incompleteInput 4 (some { Cursor.complete source with pos := 4 }.toSpan)))
    "incomplete input" false) := rfl
  have hc : c.Within := show 2 ≤ 4 by decide
  have hd : d.Within := show 3 ≤ 4 by decide
  obtain ⟨span, hspan, hpoints, -⟩ := (hspans g source {} _ _ _).1 _ c rfl hparse
  obtain ⟨last, hlast, hpoints'⟩ := (hspans waiting source {} _ _ _).2 hwaiting
  refine ⟨⟨rfl, by decide, hd⟩, horder c d rfl (by decide) hd, (hback c hc).2, ⟨_, rfl⟩,
    ⟨span, (Diagnostic.trailingInput c.toSpan).message, hpoints, ?_⟩, last, hpoints', ?_⟩
  · rw [hparse, hspan]
  · rw [hwaiting, hlast]
    rfl

end Grammar

end StreamGrammar
