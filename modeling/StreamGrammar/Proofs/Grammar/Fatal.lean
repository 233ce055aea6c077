import StreamGrammar.Proofs.Grammar.Complete
import StreamGrammar.Proofs.Grammar.Lockstep

/-!
# What a run fails for good on

A fatal outcome has one origin: a part of the grammar that refuses what it matched, or
that was committed to something it did not find. The combinators around that part hand
the reason on as it is. So the inputs on which a grammar fails for good, for a reason
of some kind, can be told from those of its parts (`FailsOn`), and the kind is all that
has to be known of a reason, since it survives unaltered.

A sequence fails where its first part does, or where the second does after a match of
the first. A choice has to be watched: an alternative that fails does so only on inputs
that the alternatives before it do not take. And a loop over items fails where an item
does, which is after items that a separator follows each (`Verdict.Leads`): not the
rounds that a loop with a match goes through, in which the separator comes first.
-/

namespace StreamGrammar

variable {ε α β σ : Type}

/-- **Some items, each with a separator after it.** -/
inductive Verdict.Leads (item : List ε → Verdict ε α) (separator : List ε → Verdict ε σ) :
    List ε → List ε → Prop
  /-- No item. -/
  | none (s : List ε) : Leads item separator s s
  /-- One item and its separator, and then some more. -/
  | more {s middle past rest : List ε} {value : α} {mark : σ}
      (hitem : item s = .matched value middle) (hsep : separator middle = .matched mark past)
      (hmore : Leads item separator past rest) : Leads item separator s rest

namespace Grammar

variable [Element ε]

section Runs

variable {p : Grammar ε α} {c : Cursor ε}

/-- A match of what is left is a match where it is left. -/
theorem matched_run (hc : c.Within) (hf : c.final = true) {value : α} {rest : List ε} :
    p.verdict true c.rest = .matched value rest ↔
      ∃ past, p.run c = .matched value past ∧ past.rest = rest := by
  rw [← hf, ← verdict_run p hc]
  constructor
  · exact Outcome.of_verdict_matched
  · rintro ⟨past, hrun, rfl⟩
    rw [hrun]
    rfl

/-- A sequence fails for good as its first part does, or as the second does. -/
theorem fatal_bind {next : α → Grammar ε β} {reason : Reason} :
    (bind p next).run c = .fatal reason ↔
      p.run c = .fatal reason ∨
        ∃ value past, p.run c = .matched value past ∧ (next value).run past = .fatal reason := by
  simp only [run]
  cases hrun : p.run c with
  | matched value past =>
    have hpast : (∃ v r, Outcome.matched value past = .matched v r ∧
        (next v).run r = .fatal reason) ↔ (next value).run past = .fatal reason := by
      refine ⟨?_, fun h => ⟨_, _, rfl, h⟩⟩
      rintro ⟨_, _, heq, h⟩
      cases heq
      exact h
    rw [hpast]
    cases hnext : (next value).run past <;> simp [hnext]
  | _ => simp

end Runs

/-! ## The inputs that a grammar fails on -/

/-- **A grammar that fails for good on these inputs alone**, among complete ones, as far
as reasons of some kind are concerned. -/
def FailsOn (kind : Reason → Prop) (g : Grammar ε α) (on : List ε → Prop) : Prop :=
  ∀ ⦃c : Cursor ε⦄, c.Within → c.final = true →
    ((∃ reason, g.run c = .fatal reason ∧ kind reason) ↔ on c.rest)

/-- A grammar that fails for good for no reason of some kind. -/
def Spares (kind : Reason → Prop) (g : Grammar ε α) : Prop := FailsOn kind g fun _ => False

variable {kind : Reason → Prop} {p : Grammar ε α} {on : List ε → Prop}

theorem FailsOn.congr {on' : List ε → Prop} (hp : FailsOn kind p on) (h : ∀ s, on s ↔ on' s) :
    FailsOn kind p on' := fun _ hc hf => (hp hc hf).trans (h _)

theorem spares_iff : Spares kind p ↔ ∀ ⦃c : Cursor ε⦄, c.Within → c.final = true →
    ∀ reason, p.run c = .fatal reason → ¬kind reason :=
  forall₃_congr fun _ _ _ => by simp

/-- Where nothing is fatal, nothing is fatal for a reason of the kind. -/
theorem MatchesOrRejects.spares (hp : p.MatchesOrRejects) : Spares kind p := by
  refine spares_iff.mpr fun c hc hf reason hrun => ?_
  have hverdict := verdict_run p hc
  rw [hf, hrun] at hverdict
  rcases hp c.rest with h | ⟨_, _, h⟩
  · rw [h] at hverdict
    cases hverdict
  · rw [h] at hverdict
    cases hverdict

namespace FailsOn

theorem map [Vacancy β] (hp : FailsOn kind p on) (f : α → β) : FailsOn kind (map f p) on := by
  intro c hc hf
  rw [← hp hc hf]
  simp only [run]
  cases p.run c with
  | truncated best past => cases best <;> simp
  | _ => simp

theorem bind (hp : FailsOn kind p on) {next : α → Grammar ε β} {after : α → List ε → Prop}
    (hn : ∀ a, FailsOn kind (next a) (after a)) :
    FailsOn kind (bind p next) fun s =>
      on s ∨ ∃ a rest, p.verdict true s = .matched a rest ∧ after a rest := by
  intro c hc hf
  constructor
  · rintro ⟨reason, hrun, hkind⟩
    rcases fatal_bind.mp hrun with hrun | ⟨a, past, hfirst, hrun⟩
    · exact .inl ((hp hc hf).mp ⟨reason, hrun, hkind⟩)
    · have hreach := (remains_run p hc).reaches hfirst
      exact .inr ⟨a, past.rest, (matched_run hc hf).mpr ⟨past, hfirst, rfl⟩,
        (hn a hreach.within (hreach.final_eq.trans hf)).mp ⟨reason, hrun, hkind⟩⟩
  · rintro (hon | ⟨a, rest, hmatched, hafter⟩)
    · obtain ⟨reason, hrun, hkind⟩ := (hp hc hf).mpr hon
      exact ⟨reason, fatal_bind.mpr (.inl hrun), hkind⟩
    · obtain ⟨past, hfirst, rfl⟩ := (matched_run hc hf).mp hmatched
      have hreach := (remains_run p hc).reaches hfirst
      obtain ⟨reason, hrun, hkind⟩ := (hn a hreach.within (hreach.final_eq.trans hf)).mpr hafter
      exact ⟨reason, fatal_bind.mpr (.inr ⟨a, past, hfirst, hrun⟩), hkind⟩

/-- **A choice**, whose second alternative fails only where the first rejects. -/
theorem alt {q : Grammar ε α} {on' : List ε → Prop} (hp : FailsOn kind p on)
    (hq : FailsOn kind q on') (hreject : ∀ s, on' s → p.verdict true s = .rejected) :
    FailsOn kind (alt p q) fun s => on s ∨ on' s := by
  intro c hc hf
  simp only [run, Choice.alt]
  constructor
  · rintro ⟨reason, hrun, hkind⟩
    cases hfirst : p.run c with
    | matched value past => rw [hfirst] at hrun; cases hrun
    | rejected first =>
      rw [hfirst] at hrun
      exact .inr ((hq hc hf).mp ⟨reason, hrun, hkind⟩)
    | fatal first =>
      rw [hfirst] at hrun
      exact .inl ((hp hc hf).mp ⟨reason, hfirst.trans hrun, hkind⟩)
    | truncated best past =>
      rw [hfirst] at hrun
      cases hsecond : q.run c with
      | fatal second =>
        rw [hsecond] at hrun
        exact .inr ((hq hc hf).mp ⟨reason, hsecond.trans hrun, hkind⟩)
      | _ => rw [hsecond] at hrun; cases hrun
    | raised fault => rw [hfirst] at hrun; cases hrun
  · rintro (h | h)
    · obtain ⟨reason, hrun, hkind⟩ := (hp hc hf).mpr h
      exact ⟨reason, by rw [hrun], hkind⟩
    · have hverdict := verdict_run p hc
      rw [hf, hreject _ h] at hverdict
      obtain ⟨first, hfirst⟩ := Outcome.of_verdict_rejected hverdict
      obtain ⟨reason, hrun, hkind⟩ := (hq hc hf).mpr h
      exact ⟨reason, by rw [hfirst]; exact hrun, hkind⟩

/-- **A refusal of what was matched**, for reasons that are of the kind wherever they
are given or nowhere. -/
theorem judge (hp : FailsOn kind p on) {accept : α → Except (Nat → Reason) β}
    (hplace : ∀ {s rest : List ε} {v : α} {reason : Nat → Reason},
      p.verdict true s = .matched v rest → accept v = .error reason →
        ∀ pos pos', kind (reason pos) → kind (reason pos')) :
    FailsOn kind (judge .fatal accept p) fun s => on s ∨ ∃ v rest reason,
      p.verdict true s = .matched v rest ∧ accept v = .error reason ∧ ∀ pos, kind (reason pos) := by
  intro c hc hf
  simp only [run]
  constructor
  · rintro ⟨found, hrun, hkind⟩
    cases hp' : p.run c with
    | matched v past =>
      rw [hp'] at hrun
      have hv := (matched_run hc hf).mpr ⟨past, hp', rfl⟩
      cases haccept : accept v with
      | ok b => simp [haccept] at hrun
      | error reason =>
        simp only [haccept, Refusal.outcome] at hrun
        cases hrun
        exact .inr ⟨v, past.rest, reason, hv, haccept, fun pos => hplace hv haccept _ pos hkind⟩
    | fatal first =>
      rw [hp'] at hrun
      cases hrun
      exact .inl ((hp hc hf).mp ⟨found, hp', hkind⟩)
    | _ => rw [hp'] at hrun; cases hrun
  · rintro (hon | ⟨v, rest, reason, hv, haccept, hkind⟩)
    · obtain ⟨found, hrun, hkind⟩ := (hp hc hf).mpr hon
      exact ⟨found, by rw [hrun], hkind⟩
    · obtain ⟨past, hrun, rfl⟩ := (matched_run hc hf).mp hv
      refine ⟨reason c.pos, ?_, hkind c.pos⟩
      rw [hrun]
      simp only [haccept, Refusal.outcome]

section Loops

variable {separator : Grammar ε σ}

/-- A loop over items that fails for good has gone through items with a separator after
each, and failed on the next. -/
theorem leads_of_collectSeparated (hp : FailsOn kind p on) (hsep : Spares kind separator)
    {items : List α} {c after : Cursor ε} (hc : c.Within) (hf : c.final = true) {reason : Reason}
    (hrun : Repetition.collectSeparated separator.run p.run items c after = .fatal reason)
    (hkind : kind reason) :
    ∃ rest, Verdict.Leads (p.verdict true) (separator.verdict true) c.rest rest ∧ on rest := by
  fun_induction Repetition.collectSeparated separator.run p.run items c after with
  | case1 items c after value stop hitem _ past hmark hlt ih =>
    have hstop := (remains_run p hc).reaches hitem
    have hpast := (remains_run separator hstop.within).reaches hmark
    have hf' := hstop.final_eq.trans hf
    obtain ⟨rest, hleads, hon⟩ := ih hpast.within (hpast.final_eq.trans hf') hrun
    exact ⟨rest, .more ((matched_run hc hf).mpr ⟨stop, hitem, rfl⟩)
      ((matched_run hstop.within hf').mpr ⟨past, hmark, rfl⟩) hleads, hon⟩
  | case4 items c after value stop hitem found hmark =>
    have hstop := (remains_run p hc).reaches hitem
    cases hrun
    exact absurd hkind (spares_iff.mp hsep hstop.within (hstop.final_eq.trans hf) _ hmark)
  | case8 items c after found hitem =>
    cases hrun
    exact ⟨c.rest, .none _, (hp hc hf).mp ⟨reason, hitem, hkind⟩⟩
  | _ => cases hrun

/-- After such items the loop comes to the one that fails, if the separator is never
empty. -/
theorem collectSeparated_of_leads (hp : FailsOn kind p on) (hconsumes : separator.Consumes)
    {s rest : List ε} (h : Verdict.Leads (p.verdict true) (separator.verdict true) s rest)
    (hon : on rest) (items : List α) {c : Cursor ε} (after : Cursor ε) (hc : c.Within)
    (hf : c.final = true) (hs : c.rest = s) :
    ∃ reason, Repetition.collectSeparated separator.run p.run items c after = .fatal reason ∧
      kind reason := by
  induction h generalizing items c after with
  | none s =>
    obtain ⟨reason, hrun, hkind⟩ := (hp hc hf).mpr (hs ▸ hon)
    exact ⟨reason, by rw [Repetition.collectSeparated, hrun], hkind⟩
  | @more _ _ _ rest value mark hitem hmark _ ih =>
    subst hs
    obtain ⟨stop, hrun, rfl⟩ := (matched_run hc hf).mp hitem
    have hstop := (remains_run p hc).reaches hrun
    have hf' := hstop.final_eq.trans hf
    obtain ⟨past, hrun', rfl⟩ := (matched_run hstop.within hf').mp hmark
    have hpast := (remains_run separator hstop.within).reaches hrun'
    obtain ⟨reason, hmore, hkind⟩ :=
      ih hon (value :: items) stop hpast.within (hpast.final_eq.trans hf') rfl
    have hlt : past.distance < stop.distance ∧ past.distance < c.distance := by
      rw [hpast.within.distance_eq, hstop.within.distance_eq, hc.distance_eq]
      have := hconsumes hmark
      have := hstop.rest_suffix.length_le
      omega
    refine ⟨reason, ?_, hkind⟩
    rw [Repetition.collectSeparated, hrun]
    simp only [hrun', if_pos hlt, hmore]

/-- **Items with separators** fail where an item does, after items that a separator
follows each. -/
theorem separatedItems (hp : FailsOn kind p on) (hsep : Spares kind separator)
    (hconsumes : separator.Consumes) :
    FailsOn kind (separatedItems separator p) fun s =>
      ∃ rest, Verdict.Leads (p.verdict true) (separator.verdict true) s rest ∧ on rest :=
  fun _ hc hf => ⟨fun ⟨_, hrun, hkind⟩ => leads_of_collectSeparated hp hsep hc hf hrun hkind,
    fun ⟨_, hleads, hon⟩ => collectSeparated_of_leads hp hconsumes hleads hon [] _ hc hf rfl⟩

end Loops

end FailsOn

namespace Spares

theorem bind (hp : Spares kind p) {next : α → Grammar ε β} (hn : ∀ a, Spares kind (next a)) :
    Spares kind (bind p next) :=
  (FailsOn.bind hp hn).congr fun _ => by simp

theorem between [Vacancy α] (hp : Spares kind p) {before : Grammar ε β}
    {last : Grammar ε σ} (hb : Spares kind before) (hl : Spares kind last) :
    Spares kind (between before p last) :=
  hb.bind fun _ => hp.bind fun _ => hl.map _

theorem alt (hp : Spares kind p) {q : Grammar ε α} (hq : Spares kind q) :
    Spares kind (alt p q) :=
  (FailsOn.alt hp hq fun _ h => h.elim).congr fun _ => by simp

theorem noAlternative : Spares kind (noAlternative : Grammar ε α) :=
  spares_iff.mpr fun _ _ _ _ h => nomatch h

theorem repeatAny (hp : Spares kind p) : Spares kind (repeatAny p) := by
  refine spares_iff.mpr fun c hc hf reason hrun => ?_
  simp only [run] at hrun
  generalize [] = values at hrun
  fun_induction Repetition.collect p.run values c with
  | case1 values c value past hround hlt ih =>
    have hreach := (remains_run p hc).reaches hround
    exact ih hreach.within (hreach.final_eq.trans hf) hrun
  | case4 values c found hround =>
    cases hrun
    exact spares_iff.mp hp hc hf _ hround
  | _ => cases hrun

/-- A refusal of what was matched, for reasons that are not of the kind. -/
theorem judge (hp : Spares kind p) {accept : α → Except (Nat → Reason) β}
    (h : ∀ {s rest : List ε} {v : α} {reason : Nat → Reason},
      p.verdict true s = .matched v rest → accept v = .error reason → ∀ pos, ¬kind (reason pos)) :
    Spares kind (judge .fatal accept p) := by
  refine (FailsOn.judge hp fun hv hreason pos _ hkind => absurd hkind (h hv hreason pos)).congr
    fun s => ⟨?_, False.elim⟩
  rintro (hno | ⟨v, rest, reason, hv, hreason, hkind⟩)
  · exact hno
  · exact h hv hreason 0 (hkind 0)

theorem convertOrHalt (hp : Spares kind p) {conv : Conversion α β}
    (h : ∀ {s rest : List ε} {v : α} {fault : Fault}, p.verdict true s = .matched v rest →
      conv.convert v = .error fault →
        ∀ pos, ¬kind (.invalid conv.label (conv.describe v) pos fault)) :
    Spares kind (convertOrHalt conv p) := by
  refine hp.judge fun {s rest v reason} hv hreason pos => ?_
  unfold Conversion.verdict at hreason
  cases hconv : conv.convert v with
  | ok b => rw [hconv] at hreason; cases hreason
  | error fault =>
    rw [hconv] at hreason
    cases hreason
    exact h hv hconv pos

end Spares

end Grammar

end StreamGrammar
