import StreamGrammar.Proofs.Grammar.Persistence

/-!
# Parsers that only look ahead

A parser is a function of a cursor, so it might look back, at what was parsed
before, or at how far into the source it is. A reader counts on it to do
neither: what one phase leaves over is the start of a new buffer for the next,
and the place that was somewhere inside a source is now its beginning.

`Parser.LooksAhead` is what that needs, for input that may still grow. What a run
comes to – its kind and, for a match, its value and how much it consumed – is a
function of the elements from the cursor on, and a match stops at a place
further on in the same source. Then a run in the middle of a source reads as a
run from the start of what is left (`Parser.LooksAhead.readsAs`), and a parser
whose decisions hold at every place is steady. Every grammar only looks ahead.
-/

namespace StreamGrammar

variable {ε α : Type}

namespace Cursor

/-- **A place in input that may still grow.** -/
structure Growing (c : Cursor ε) : Prop where
  /-- The place lies within the source. -/
  within : c.Within
  /-- More may come. -/
  final_eq : c.final = false

theorem growing_streaming (s : List ε) : (streaming s).Growing := ⟨within_streaming s, rfl⟩

variable {c r : Cursor ε}

theorem Growing.of_reaches (hc : c.Growing) (h : c.Reaches r) : r.Growing :=
  ⟨h.within, h.final_eq.trans hc.final_eq⟩

/-- What is left further on is what is left, less what lies between. -/
theorem Reaches.rest_eq (h : c.Reaches r) : r.rest = c.rest.drop (r.pos - c.pos) := by
  rw [Cursor.rest_eq, Cursor.rest_eq, h.source_eq, List.drop_drop,
    Nat.add_sub_cancel' h.le_pos]

/-- How much lies between two places is how much less is left. -/
theorem Reaches.sub_pos (h : c.Reaches r) : r.pos - c.pos = c.rest.length - r.rest.length := by
  have hlen := h.within.pos_add_length_rest
  rw [h.source_eq] at hlen
  rw [Cursor.rest_eq c, List.length_drop, Array.length_toList]
  omega

end Cursor

namespace Outcome

/-- The value of a match and how much was consumed for it, by a run from this
cursor. -/
def consumed? (c : Cursor ε) : Outcome ε α → Option (α × Nat)
  | matched value remainder => some (value, remainder.pos - c.pos)
  | _ => none

theorem kind?_of_verdict_eq {o o' : Outcome ε α} (h : o.verdict = o'.verdict) :
    o.kind? = o'.kind? := by
  cases o <;> cases o' <;> simp_all [verdict, kind?]

/-- **A verdict that says what the outcome does.** Of what is undecided it need
not say how far it got, nor why a conversion failed. -/
inductive ReadsAs : Outcome ε α → Verdict ε α → Prop
  /-- The same value, with the same elements after it. -/
  | matched (value : α) (remainder : Cursor ε) :
      ReadsAs (.matched value remainder) (.matched value remainder.rest)
  /-- Both reject. -/
  | rejected (reason : Reason) : ReadsAs (.rejected reason) .rejected
  /-- Both fail for good. -/
  | fatal (reason : Reason) : ReadsAs (.fatal reason) .fatal
  /-- Both are undecided. -/
  | truncated (best best' : Option α) (remainder : Cursor ε) (rest : List ε) :
      ReadsAs (.truncated best remainder) (.truncated best' rest)
  /-- Both end the run. -/
  | raised (fault fault' : Fault) : ReadsAs (.raised fault) (.raised fault')

end Outcome

/-- **A parser that only looks ahead**, in input that may still grow. -/
structure Parser.LooksAhead (p : Parser ε α) : Prop where
  /-- A match stops at a place further on. -/
  reaches : ∀ {c remainder : Cursor ε} {value : α}, c.Growing →
    p c = .matched value remainder → c.Reaches remainder
  /-- The same is left, so the kind is the same. -/
  kind_eq : ∀ {c d : Cursor ε}, c.Growing → d.Growing → c.rest = d.rest →
    (p c).kind? = (p d).kind?
  /-- The same is left, so the value is the same and as much is consumed. -/
  consumed_eq : ∀ {c d : Cursor ε}, c.Growing → d.Growing → c.rest = d.rest →
    (p c).consumed? c = (p d).consumed? d

namespace Parser.LooksAhead

variable {p : Parser ε α} {c : Cursor ε}

/-- **A run in the middle of a source reads as one from the start of what is
left.** -/
theorem readsAs (h : p.LooksAhead) (hc : c.Growing) :
    (p c).ReadsAs (p.verdict false c.rest) := by
  have hs := Cursor.growing_streaming c.rest
  have hrest : c.rest = (Cursor.streaming c.rest).rest := (Cursor.rest_streaming _).symm
  have hkind := h.kind_eq hc hs hrest
  have hconsumed := h.consumed_eq hc hs hrest
  show (p c).ReadsAs (p (.streaming c.rest)).verdict
  cases hrun : p c with
  | matched value remainder =>
    cases hrun' : p (.streaming c.rest) with
    | matched value' remainder' =>
      rw [hrun, hrun'] at hconsumed
      simp only [Outcome.consumed?, Option.some.injEq, Prod.mk.injEq] at hconsumed
      obtain ⟨rfl, hpos⟩ := hconsumed
      -- as much is consumed of the same elements, so the same remain
      have hleft : remainder'.rest = remainder.rest := by
        rw [(h.reaches hs hrun').rest_eq, (h.reaches hc hrun).rest_eq, ← hrest, hpos]
      rw [Outcome.verdict, hleft]
      exact .matched value remainder
    | _ => simp [hrun, hrun', Outcome.kind?] at hkind
  | rejected reason =>
    cases hrun' : p (.streaming c.rest) with
    | rejected reason' => exact .rejected reason
    | _ => simp [hrun, hrun', Outcome.kind?] at hkind
  | fatal reason =>
    cases hrun' : p (.streaming c.rest) with
    | fatal reason' => exact .fatal reason
    | _ => simp [hrun, hrun', Outcome.kind?] at hkind
  | truncated best remainder =>
    cases hrun' : p (.streaming c.rest) with
    | truncated best' remainder' => exact .truncated best best' remainder remainder'.rest
    | _ => simp [hrun, hrun', Outcome.kind?] at hkind
  | raised fault =>
    cases hrun' : p (.streaming c.rest) with
    | raised fault' => exact .raised fault fault'
    | _ => simp [hrun, hrun', Outcome.kind?] at hkind

/-- **Decisions that hold at a place settle what remains**, since a match of a
longer source stops at the same place. -/
theorem steady (h : p.LooksAhead) (hp : p.Holds false) : p.Steady := by
  intro s more
  have hpers : (p (.streaming s)).Persists (p (.streaming (s ++ more))) :=
    hp s more 0 (Nat.zero_le _)
  show (p (.streaming s)).verdict.Settles more (p (.streaming (s ++ more))).verdict
  cases hnow : p (.streaming s) with
  | matched value remainder =>
    obtain ⟨remainder', hlater, hpos⟩ := hpers.of_matched hnow
    have hr := h.reaches (Cursor.growing_streaming s) hnow
    have hr' := h.reaches (Cursor.growing_streaming (s ++ more)) hlater
    have hle : remainder.pos ≤ s.length := by
      have hwithin : remainder.pos ≤ remainder.source.size := hr.within
      rwa [hr.source_eq] at hwithin
    have hleft : remainder'.rest = remainder.rest ++ more := by
      rw [hr'.rest_eq, hr.rest_eq, Cursor.rest_streaming, Cursor.rest_streaming, hpos]
      exact List.drop_append_of_le_length hle
    rw [hlater]
    show Verdict.matched value remainder'.rest = .matched value (remainder.rest ++ more)
    rw [hleft]
  | rejected reason =>
    obtain ⟨reason', hlater⟩ := hpers.of_rejected hnow
    rw [hlater]
    rfl
  | fatal reason =>
    obtain ⟨reason', hlater⟩ := hpers.of_fatal hnow
    rw [hlater]
    rfl
  | truncated best remainder => trivial
  | raised fault => exact absurd hnow (hpers.ne_raised fault)

end Parser.LooksAhead

/-- **Every grammar only looks ahead.** -/
theorem Grammar.looksAhead [Element ε] (g : Grammar ε α) : Parser.LooksAhead g.run where
  reaches hc hrun := (remains_run g hc.within).reaches hrun
  kind_eq {c d} hc hd hrest := by
    have hv := verdict_run_congr g hc.within hd.within (hc.final_eq.trans hd.final_eq.symm) hrest
    exact Outcome.kind?_of_verdict_eq hv
  consumed_eq {c d} hc hd hrest := by
    have hv := verdict_run_congr g hc.within hd.within (hc.final_eq.trans hd.final_eq.symm) hrest
    have hrem := remains_run g hc.within
    have hrem' := remains_run g hd.within
    cases hrun : g.run c with
    | matched value remainder =>
      cases hrun' : g.run d with
      | matched value' remainder' =>
        rw [hrun, hrun'] at hv
        simp only [Outcome.verdict, Verdict.matched.injEq] at hv
        -- both places are told by how much they leave
        have hpos := (hrem.reaches hrun).sub_pos
        rw [hv.2, hrest, ← (hrem'.reaches hrun').sub_pos] at hpos
        simp only [Outcome.consumed?, hv.1, hpos]
      | _ =>
        rw [hrun, hrun'] at hv
        cases hv
    | _ =>
      cases hrun' : g.run d with
      | matched value' remainder' =>
        rw [hrun, hrun'] at hv
        cases hv
      | _ => rfl

end StreamGrammar
