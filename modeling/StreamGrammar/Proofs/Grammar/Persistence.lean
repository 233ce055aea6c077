import StreamGrammar.Proofs.Grammar.Final

/-!
# What is decided stays decided

The statements about cursors that finality comes to. A grammar that has decided
at a place of a source that may still grow decides the same at that place of
every longer source, and stops at the same position. So nothing is decided
before all of it is there: no strict beginning of what is accepted as a whole is
refused or taken for the whole.
-/

namespace StreamGrammar

variable {ε α : Type}

/-- **What an outcome on a source that may grow promises** of the outcome at the
same place of a longer source: the same kind and, for a match, the same value
and position. Reasons may differ, and a conversion never fails unguarded. -/
def Outcome.Persists (now later : Outcome ε α) : Prop :=
  match now with
  | .matched value remainder =>
    ∃ remainder', later = .matched value remainder' ∧ remainder'.pos = remainder.pos
  | .rejected _ => ∃ reason, later = .rejected reason
  | .fatal _ => ∃ reason, later = .fatal reason
  | .truncated _ _ => True
  | .raised _ => False

namespace Outcome.Persists

variable {now later : Outcome ε α}

theorem of_matched (h : now.Persists later) {value : α} {remainder : Cursor ε}
    (hnow : now = .matched value remainder) :
    ∃ remainder', later = .matched value remainder' ∧ remainder'.pos = remainder.pos := by
  rw [hnow] at h
  exact h

theorem of_rejected (h : now.Persists later) {reason : Reason} (hnow : now = .rejected reason) :
    ∃ reason', later = .rejected reason' := by
  rw [hnow] at h
  exact h

theorem of_fatal (h : now.Persists later) {reason : Reason} (hnow : now = .fatal reason) :
    ∃ reason', later = .fatal reason' := by
  rw [hnow] at h
  exact h

theorem ne_raised (h : now.Persists later) (fault : Fault) : now ≠ .raised fault := by
  intro hnow
  rw [hnow] at h
  exact h

end Outcome.Persists

/-- **A parser whose decisions hold** at the same place of every longer source –
of one that is complete, if `final` says so, and else of one that may grow
further. -/
def Parser.Holds (final : Bool) (p : Parser ε α) : Prop :=
  ∀ (source more : List ε) (pos : Nat), pos ≤ source.length →
    (p { source := source.toArray, pos, final := false }).Persists
      (p { source := (source ++ more).toArray, pos, final })

namespace Grammar

variable [Element ε]

/-- **A grammar whose decisions persist**, at every place of every source. -/
structure DecidesForGood (g : Grammar ε α) : Prop where
  /-- What is decided on a source that may grow is decided on every longer one,
  whether that may grow or not. -/
  persists : ∀ (source more : List ε) (pos : Nat) (final : Bool), pos ≤ source.length →
    (g.run { source := source.toArray, pos, final := false }).Persists
      (g.run { source := (source ++ more).toArray, pos, final })
  /-- No strict beginning of what is accepted as a whole is decided. -/
  undecided : ∀ (source : List ε) (value : α) (remainder : Cursor ε),
    g.run (.complete source) = .matched value remainder → remainder.rest = [] →
    ∀ beginning : List ε, beginning <+: source → beginning ≠ source →
      (g.run (.streaming beginning)).isDecided = false

omit [Element ε] in
/-- Where more is appended to a source, it is appended to what is left. -/
theorem rest_append (source more : List ε) {pos : Nat} (final : Bool) (h : pos ≤ source.length) :
    (Cursor.mk (source ++ more).toArray pos final).rest =
      (Cursor.mk source.toArray pos false).rest ++ more := by
  simp [Cursor.rest_eq, List.drop_append_of_le_length h]

/-- **Finality over lists is persistence over cursors**: a remainder is known by
what it leaves. -/
theorem Final.persists {g : Grammar ε α} (h : g.Final) (source more : List ε) (pos : Nat)
    (final : Bool) (hpos : pos ≤ source.length) :
    (g.run { source := source.toArray, pos, final := false }).Persists
      (g.run { source := (source ++ more).toArray, pos, final }) := by
  have hc : (Cursor.mk source.toArray pos false).Within := by simpa [Cursor.Within] using hpos
  have hd : (Cursor.mk (source ++ more).toArray pos final).Within := by
    simp only [Cursor.Within, List.size_toArray, List.length_append]
    omega
  have hv := verdict_run g hc
  have hv' := verdict_run g hd
  rw [rest_append source more final hpos] at hv'
  have hrem := remains_run g hc
  have hrem' := remains_run g hd
  have hset := h final (Cursor.mk source.toArray pos false).rest more
  rw [← hv, ← hv'] at hset
  generalize g.run ⟨source.toArray, pos, false⟩ = now at hrem hset ⊢
  generalize g.run ⟨(source ++ more).toArray, pos, final⟩ = later at hrem' hset ⊢
  cases now with
  | matched value remainder =>
    cases later with
    | matched value' remainder' =>
      have hr : (Cursor.mk source.toArray pos false).Reaches remainder := hrem
      have hr' : (Cursor.mk (source ++ more).toArray pos final).Reaches remainder' := hrem'
      simp only [Outcome.verdict, Verdict.Settles, Verdict.matched.injEq] at hset
      refine ⟨remainder', by rw [hset.1], ?_⟩
      -- both positions are what their remainders leave of sources that differ by `more`
      have h₁ := hr.within.pos_add_length_rest
      have h₂ := hr'.within.pos_add_length_rest
      rw [hr.source_eq] at h₁
      rw [hr'.source_eq, hset.2] at h₂
      simp only [List.size_toArray, List.length_append] at h₁ h₂
      omega
    | _ => cases hset
  | rejected reason =>
    cases later with
    | rejected reason' => exact ⟨reason', rfl⟩
    | _ => cases hset
  | fatal reason =>
    cases later with
    | fatal reason' => exact ⟨reason', rfl⟩
    | _ => cases hset
  | truncated best remainder => trivial
  | raised fault => exact hset

theorem Final.holds {g : Grammar ε α} (h : g.Final) (final : Bool) : Parser.Holds final g.run :=
  fun source more pos hpos => h.persists source more pos final hpos

/-- **Nothing is decided before all of it is there**: a decision on a beginning
would be the decision on the whole, which ends elsewhere. -/
theorem Final.undecided {g : Grammar ε α} (h : g.Final) {source : List ε} {value : α}
    {remainder : Cursor ε} (hrun : g.run (.complete source) = .matched value remainder)
    (hrest : remainder.rest = []) {beginning : List ε} (hpre : beginning <+: source)
    (hne : beginning ≠ source) : (g.run (.streaming beginning)).isDecided = false := by
  obtain ⟨more, rfl⟩ := hpre
  have hmore : more ≠ [] := by simpa using hne
  have hpers := h.persists beginning more 0 true (Nat.zero_le _)
  have hrun' : g.run ⟨(beginning ++ more).toArray, 0, true⟩ = .matched value remainder := hrun
  rw [hrun'] at hpers
  show (g.run ⟨beginning.toArray, 0, false⟩).isDecided = false
  have hrem := remains_run g (Cursor.within_streaming beginning)
  have hrem' := remains_run g (Cursor.within_complete (beginning ++ more))
  rw [hrun] at hrem'
  cases hnow : g.run ⟨beginning.toArray, 0, false⟩ with
  | matched value' stop =>
    rw [hnow] at hpers
    obtain ⟨_, heq, hpos⟩ := hpers
    cases heq
    -- a match would stop within the beginning, but the whole is matched to its end
    have hr : (Cursor.streaming beginning).Reaches stop := by
      rw [show g.run (.streaming beginning) = _ from hnow] at hrem
      exact hrem
    have hr' : (Cursor.complete (beginning ++ more)).Reaches remainder := hrem'
    have h₁ := hr.within.pos_add_length_rest
    have h₂ := hr'.pos_eq
    rw [hr.source_eq] at h₁
    rw [hrest] at h₂
    have hlen := List.length_pos_iff.mpr hmore
    simp only [Cursor.streaming, Cursor.complete, List.size_toArray, List.length_append,
      List.length_nil] at h₁ h₂
    omega
  | rejected reason =>
    rw [hnow] at hpers
    obtain ⟨_, heq⟩ := hpers
    cases heq
  | fatal reason =>
    rw [hnow] at hpers
    obtain ⟨_, heq⟩ := hpers
    cases heq
  | truncated best stop => rfl
  | raised fault =>
    rw [hnow] at hpers
    exact hpers.elim

theorem Final.decidesForGood {g : Grammar ε α} (h : g.Final) : g.DecidesForGood :=
  ⟨fun source more pos final hpos => h.persists source more pos final hpos,
    fun _ _ _ hrun hrest _ hpre hne => h.undecided hrun hrest hpre hne⟩

end Grammar

end StreamGrammar
