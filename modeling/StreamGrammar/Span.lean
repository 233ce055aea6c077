import StreamGrammar.InvalidArgument

/-!
# Places in the input

A span names a stretch of input twice: by offsets, which count elements from
zero, and by the line and column of its start, which a person counts from
one. `Span.check` is the rule that any four integers have to meet.
-/

namespace StreamGrammar

/-- **A stretch of input.** -/
structure Span where
  /-- The offset of its first element. -/
  start : Nat
  /-- The offset after its last element. -/
  stop : Nat
  /-- The line of its start, from one. -/
  line : Nat
  /-- The column of its start, from one. -/
  column : Nat
deriving DecidableEq

namespace Span

/-- What the numbers of a span have to satisfy. -/
def Valid (s : Span) : Prop := s.start ≤ s.stop ∧ 1 ≤ s.line ∧ 1 ≤ s.column

instance (s : Span) : Decidable s.Valid := by unfold Valid; infer_instance

/-- **Checks four integers**: start, end, line and column, in this order. -/
def check (start stop line column : Int) : Except InvalidArgument Span :=
  if start < 0 then .error (.spanStart start)
  else if stop < start then .error (.spanStop start stop)
  else if line < 1 then .error (.spanLine line)
  else if column < 1 then .error (.spanColumn column)
  else .ok { start := start.toNat, stop := stop.toNat, line := line.toNat,
             column := column.toNat }

theorem check_of_valid {s : Span} (h : s.Valid) :
    check s.start s.stop s.line s.column = .ok s := by
  obtain ⟨h1, h2, h3⟩ := h
  simp only [check]
  rw [if_neg (by omega), if_neg (by omega), if_neg (by omega), if_neg (by omega)]
  rfl

end Span

end StreamGrammar
