import Mathlib.Data.List.TakeWhile
import StreamGrammar.Proofs.Grammar.Final
import StreamGrammar.Proofs.Grammar.Passing

/-!
# Where a grammar waits

A choice between alternatives that begin alike can still be final: it is enough
that the second is undecided wherever the first is cut short. To show that, one
has to know on which inputs the first *can* be cut short, which is a question
about all its parts at once, since any of them may be where the input ends.

`PausesIn P` answers it part by part. Read backwards, from where the input ends:
a part that is cut short does so on an input in `P`, and a part that matches puts
what it matched in front of an input in `P`, which has to be in `P` again. So if
`P` holds of no input and can be extended by every element that the matchers
accept, it holds of each input that a composed grammar is cut short on.
-/

namespace StreamGrammar.Grammar

variable {ε α β σ : Type} [Element ε]

/-! ## Being cut short -/

namespace CutShort

variable {p q : Grammar ε α} {s : List ε}

/-- Within elements that pass the test a run is cut short. -/
theorem takeSomeWhile {test : ε → Bool} (hs : ∀ e ∈ s, test e = true) :
    (takeSomeWhile test : Grammar ε (List ε)).CutShort s := by
  unfold CutShort
  rw [verdict_takeSomeWhile]
  cases s with
  | nil => exact ⟨none, [], rfl⟩
  | cons e s =>
    have hall := List.dropWhile_eq_nil_iff.mpr hs
    dsimp only
    rw [if_pos (hs e List.mem_cons_self), verdict_takeWhile, if_pos ⟨hall, rfl⟩]
    exact ⟨_, _, rfl⟩

theorem map [Vacancy β] (h : p.CutShort s) (f : α → β) : (map f p).CutShort s := by
  obtain ⟨best, rest, h⟩ := h
  unfold CutShort
  rw [verdict_map, h]
  cases best <;> exact ⟨_, _, rfl⟩

/-- A sequence is cut short with what comes after its first part. -/
theorem bind_of_matched {next : α → Grammar ε β} {value : α} {middle : List ε}
    (hp : p.verdict false s = .matched value middle) (h : (next value).CutShort middle) :
    (Grammar.bind p next).CutShort s := by
  obtain ⟨best, rest, h⟩ := h
  refine ⟨none, s, ?_⟩
  rw [verdict_bind, hp, Verdict.andThen, h]

theorem optional (h : p.CutShort s) : (optional p).CutShort s := by
  obtain ⟨best, rest, h⟩ := h
  exact ⟨_, _, by rw [verdict_optional, h]; rfl⟩

/-- A choice is cut short with its first alternative if the second does not
decide. -/
theorem alt_left (h : p.CutShort s) (hq : q.verdict false s = .rejected ∨ q.CutShort s) :
    (alt p q).CutShort s := by
  obtain ⟨best, rest, h⟩ := h
  unfold CutShort
  rw [verdict_alt, h]
  rcases hq with hq | ⟨best', rest', hq⟩ <;> rw [hq] <;> exact ⟨_, _, rfl⟩

/-- A choice is cut short with its second alternative if the first does not
decide. -/
theorem alt_right (hp : p.verdict false s = .rejected ∨ p.CutShort s) (h : q.CutShort s) :
    (alt p q).CutShort s := by
  rcases hp with hp | hp
  · unfold CutShort
    rw [alt_of_rejected q hp]
    exact h
  · exact alt_left hp (.inr h)

theorem repeatAny (h : p.CutShort s) : (repeatAny p).CutShort s := by
  obtain ⟨best, rest, h⟩ := h
  exact ⟨_, _, by rw [verdict_repeatAny, Verdict.many_eq, h]⟩

/-- A loop is cut short in what a round leaves of the input. -/
theorem repeatAny_of_round {value : α} {middle : List ε}
    (hp : p.verdict false s = .matched value middle) (hlt : middle.length < s.length)
    (h : (Grammar.repeatAny p).CutShort middle) : (Grammar.repeatAny p).CutShort s := by
  obtain ⟨best, rest, h⟩ := h
  rw [verdict_repeatAny] at h
  unfold CutShort
  rw [verdict_repeatAny, Verdict.many_eq, hp]
  dsimp only
  rw [if_pos hlt, h]
  exact ⟨_, _, rfl⟩

theorem repeatSome (h : (Grammar.repeatAny p).CutShort s) : (repeatSome p).CutShort s := by
  obtain ⟨best, rest, h⟩ := h
  exact ⟨best, rest, by rw [verdict_repeatSome, h]; rfl⟩

end CutShort

/-! ## Never refusing for good -/

/-- **A grammar that is never fatal.** -/
def Mild (g : Grammar ε α) : Prop := ∀ s : List ε, g.verdict false s ≠ .fatal

namespace Mild

variable {p : Grammar ε α}

theorem satisfy (test : ε → Bool) (what : Expectation) :
    (satisfy test what : Grammar ε ε).Mild := by
  intro s h
  rw [verdict_satisfy] at h
  cases s with
  | nil => cases h
  | cons e s =>
    dsimp only at h
    split at h <;> cases h

theorem map [Vacancy β] (hp : p.Mild) (f : α → β) : (map f p).Mild := by
  intro s h
  rw [verdict_map] at h
  cases hv : p.verdict false s with
  | fatal => exact hp s hv
  | truncated best rest => rw [hv] at h; cases best <;> cases h
  | _ => rw [hv] at h; cases h

theorem bind {next : α → Grammar ε β} (hp : p.Mild) (hn : ∀ a, (next a).Mild) :
    (bind p next).Mild := by
  intro s h
  rw [verdict_bind] at h
  cases hv : p.verdict false s with
  | fatal => exact hp s hv
  | matched value middle =>
    rw [hv, Verdict.andThen] at h
    cases hn' : (next value).verdict false middle with
    | fatal => exact hn value middle hn'
    | _ => rw [hn'] at h; cases h
  | _ => rw [hv] at h; cases h

end Mild

/-- **A choice admits what its second alternative admits**, if the first is never
fatal. -/
theorem Admits.either [Vacancy α] {p q : Grammar ε α} {s : List ε} (hp : p.Final)
    (hmild : p.Mild) (hq : q.Admits s) : (either p q).Admits s := by
  unfold Admits CutShort
  rw [verdict_either]
  cases h : p.verdict false s with
  | matched value rest => exact .inl ⟨value, rest, rfl⟩
  | rejected => exact hq
  | fatal => exact absurd h (hmild s)
  | truncated best rest =>
    cases best with
    | some best => exact .inr ⟨some best, rest, rfl⟩
    | none =>
      rcases hq with ⟨value, rest', h'⟩ | ⟨best', rest', h'⟩
      · exact .inr ⟨_, _, by rw [h']; rfl⟩
      · exact .inr ⟨_, _, by rw [h']; rfl⟩
  | raised fault => exact absurd h (hp.ne_raised fault)

/-! ## Where a grammar pauses -/

/-- **A grammar that pauses only in inputs of a kind**, and what it matches can
be put in front of inputs of that kind. -/
structure PausesIn (P : List ε → Prop) (g : Grammar ε α) : Prop where
  /-- Where it is cut short the input is of the kind. -/
  cut : ∀ s, g.CutShort s → P s
  /-- Where it matches, the input is of the kind if what remains is. -/
  passed : ∀ (s rest : List ε) (value : α),
    g.verdict false s = .matched value rest → P rest → P s

namespace PausesIn

variable {P : List ε → Prop} {allowed : ε → Prop} {p q : Grammar ε α}

theorem passes (h : p.PausesIn P) : p.Passes false P := fun s rest value => h.passed s rest value

theorem satisfy (h : Extends P allowed) {test : ε → Bool} (what : Expectation)
    (htest : ∀ e, test e = true → allowed e) : (satisfy test what).PausesIn P := by
  constructor
  · rintro s ⟨best, rest, hs⟩
    obtain rfl := DecidesAtOnce.satisfy test what s best rest hs
    exact h.nil
  · exact fun _ _ _ hs => Passes.satisfy h what htest hs

theorem literal (h : Extends P allowed) {expected : List ε}
    (hexpected : ∀ e ∈ expected, allowed e) : (literal expected).PausesIn P := by
  constructor
  · rintro s ⟨best, rest, hs⟩
    rw [verdict_literal] at hs
    split at hs
    · cases hs
    · split at hs
      · rename_i hpre
        exact h.of_forall fun e he => hexpected e (hpre.2.subset he)
      · cases hs
  · exact fun _ _ _ hs => Passes.literal h hexpected hs

theorem takeWhile (h : Extends P allowed) {test : ε → Bool}
    (htest : ∀ e, test e = true → allowed e) :
    (takeWhile test : Grammar ε (List ε)).PausesIn P := by
  constructor
  · rintro s ⟨best, rest, hs⟩
    rw [verdict_takeWhile] at hs
    split at hs
    · rename_i hall
      refine h.of_forall fun e he => htest e ?_
      exact List.dropWhile_eq_nil_iff.mp hall.1 e he
    · cases hs
  · exact fun _ _ _ hs => Passes.takeWhile h htest hs

theorem takeSomeWhile (h : Extends P allowed) {test : ε → Bool}
    (htest : ∀ e, test e = true → allowed e) :
    (takeSomeWhile test : Grammar ε (List ε)).PausesIn P := by
  constructor
  · rintro s ⟨best, rest, hs⟩
    rw [verdict_takeSomeWhile] at hs
    cases s with
    | nil => exact h.nil
    | cons e s =>
      dsimp only at hs
      split at hs
      · exact (takeWhile h htest).cut _ ⟨best, rest, hs⟩
      · cases hs
  · exact fun _ _ _ hs => Passes.takeSomeWhile h htest hs

theorem endOfInput (hnil : P []) : (endOfInput : Grammar ε Unit).PausesIn P := by
  constructor
  · rintro s ⟨best, rest, hs⟩
    rw [verdict_endOfInput] at hs
    cases s with
    | nil => exact hnil
    | cons e s => cases hs
  · exact fun _ _ _ hs => Passes.endOfInput hs

theorem noAlternative : (noAlternative : Grammar ε α).PausesIn P := by
  constructor
  · rintro s ⟨best, rest, hs⟩
    cases hs
  · exact fun _ _ _ hs => Passes.noAlternative hs

/-- **A combinator of one part pauses where the part does** if it is cut short
only with the part and leaves only what the part leaves or what there was. -/
theorem of_rule (hp : p.PausesIn P) {g : Grammar ε β} (rule : List ε → Verdict ε α → Verdict ε β)
    (hg : ∀ s, g.verdict false s = rule s (p.verdict false s))
    (hcut : ∀ {s v best rest}, rule s v = .truncated best rest →
      ∃ best' rest', v = .truncated best' rest')
    (hmatched : ∀ {s v value rest}, rule s v = .matched value rest →
      rest = s ∨ ∃ value', v = .matched value' rest) : g.PausesIn P := by
  constructor
  · rintro s ⟨best, rest, hs⟩
    rw [hg] at hs
    exact hp.cut s (hcut hs)
  · intro s rest value hs hrest
    rw [hg] at hs
    rcases hmatched hs with rfl | ⟨value', hv⟩
    · exact hrest
    · exact hp.passed s rest value' hv hrest

theorem map [Vacancy β] (hp : p.PausesIn P) (f : α → β) : (map f p).PausesIn P := by
  refine hp.of_rule (fun s v => (v.reanchor s).map f) (fun s => verdict_map false s f p) ?_ ?_
  · intro s v best rest h
    cases v with
    | truncated best' rest' => exact ⟨best', rest', rfl⟩
    | _ => cases h
  · intro s v value rest h
    obtain ⟨value', hv, -⟩ := Verdict.map_eq_matched.mp h
    exact .inr ⟨value', Verdict.reanchor_eq_matched.mp hv⟩

theorem judge (hp : p.PausesIn P) (refusal : Refusal) (accept : α → Except (Nat → Reason) β) :
    (judge refusal accept p).PausesIn P := by
  constructor
  · rintro s ⟨best, rest, hs⟩
    rw [verdict_judge] at hs
    cases hv : p.verdict false s with
    | truncated best' rest' => exact hp.cut s ⟨best', rest', hv⟩
    | matched value rest' =>
      rw [hv, Verdict.judge] at hs
      split at hs
      · cases hs
      · cases refusal <;> cases hs
    | _ => rw [hv] at hs; cases hs
  · exact fun _ _ _ hs => hp.passes.judge refusal accept hs

theorem bind {next : α → Grammar ε β} (hp : p.PausesIn P) (hn : ∀ a, (next a).PausesIn P) :
    (bind p next).PausesIn P := by
  constructor
  · rintro s ⟨best, rest, hs⟩
    rw [verdict_bind] at hs
    cases hv : p.verdict false s with
    | truncated best' rest' => exact hp.cut s ⟨best', rest', hv⟩
    | matched value middle =>
      -- the input ends in what comes next, and what was matched stands before it
      refine hp.passed s middle value hv ((hn value).cut middle ?_)
      rw [hv, Verdict.andThen] at hs
      cases hn' : (next value).verdict false middle with
      | truncated best' rest' => exact ⟨best', rest', hn'⟩
      | _ => rw [hn'] at hs; cases hs
    | _ => rw [hv] at hs; cases hs
  · exact fun _ _ _ hs => hp.passes.bind (fun a => (hn a).passes) hs

theorem optional (hp : p.PausesIn P) : (optional p).PausesIn P := by
  refine hp.of_rule (fun s v => v.optional s) (fun s => verdict_optional false s p) ?_ ?_
  · intro s v best rest h
    cases v with
    | truncated best' rest' => exact ⟨best', rest', rfl⟩
    | _ => cases h
  · intro s v value rest h
    cases v with
    | matched value' rest' =>
      cases h
      exact .inr ⟨value', rfl⟩
    | rejected =>
      cases h
      exact .inl rfl
    | _ => cases h

/-- Of what is only looked at nothing is passed. -/
theorem peek (hcut : ∀ s, p.CutShort s → P s) : (peek p).PausesIn P := by
  constructor
  · rintro s ⟨best, rest, hs⟩
    rw [verdict_peek] at hs
    cases hv : p.verdict false s with
    | truncated best' rest' => exact hcut s ⟨best', rest', hv⟩
    | _ => rw [hv] at hs; cases hs
  · exact fun _ _ _ hs => Passes.peek p hs

/-- A choice is cut short only if one of its alternatives is. -/
theorem alt (hp : p.PausesIn P) (hq : q.PausesIn P) : (alt p q).PausesIn P := by
  constructor
  · rintro s ⟨best, rest, hs⟩
    rw [verdict_alt] at hs
    cases hv : p.verdict false s with
    | truncated best' rest' => exact hp.cut s ⟨best', rest', hv⟩
    | rejected =>
      rw [hv] at hs
      exact hq.cut s ⟨best, rest, hs⟩
    | _ => rw [hv] at hs; cases hs
  · exact fun _ _ _ hs => hp.passes.alt hq.passes hs

theorem either [Vacancy α] (hp : p.PausesIn P) (hq : q.PausesIn P) : (either p q).PausesIn P := by
  constructor
  · rintro s ⟨best, rest, hs⟩
    rw [verdict_either] at hs
    cases hv : p.verdict false s with
    | truncated best' rest' => exact hp.cut s ⟨best', rest', hv⟩
    | rejected =>
      rw [hv] at hs
      exact hq.cut s ⟨best, rest, hs⟩
    | _ => rw [hv] at hs; cases hs
  · exact fun _ _ _ hs => hp.passes.either hq.passes hs

omit [Element ε] in
/-- A loop is cut short only in one of its rounds. -/
theorem cut_many {step : List ε → Verdict ε α}
    (hcut : ∀ {s best rest}, step s = .truncated best rest → P s)
    (hpassed : ∀ {s value rest}, step s = .matched value rest → P rest → P s)
    {s rest : List ε} {best : Option (List α)}
    (h : Verdict.many step s = .truncated best rest) : P s := by
  fun_induction Verdict.many step s generalizing best with
  | case1 s value middle hstep hlt ih =>
    cases hmany : Verdict.many step middle with
    | truncated best' rest' =>
      rw [hmany] at h
      cases h
      exact hpassed hstep (ih hmany)
    | _ => rw [hmany] at h; cases h
  | case5 s best' rest' hstep => exact hcut hstep
  | _ => cases h

theorem repeatAny (hp : p.PausesIn P) : (repeatAny p).PausesIn P := by
  have hpassed {s rest value} := hp.passed s rest value
  constructor
  · rintro s ⟨best, rest, hs⟩
    rw [verdict_repeatAny] at hs
    exact cut_many (fun h => hp.cut _ ⟨_, _, h⟩) hpassed hs
  · exact fun _ _ _ hs => hp.passes.repeatAny hs

theorem repeatSome (hp : p.PausesIn P) : (repeatSome p).PausesIn P := by
  refine hp.repeatAny.of_rule (fun _ v => v.atLeastOne) (fun s => verdict_repeatSome false s p)
    ?_ ?_
  · intro s v best rest h
    cases v with
    | truncated best' rest' => exact ⟨best', rest', rfl⟩
    | matched values rest' => cases values <;> cases h
    | _ => cases h
  · intro s v value rest h
    cases v with
    | matched values rest' =>
      cases values with
      | nil => cases h
      | cons a values =>
        cases h
        exact .inr ⟨a :: values, rfl⟩
    | _ => cases h

omit [Element ε] in
theorem cut_separated {separator : List ε → Verdict ε σ} {item : List ε → Verdict ε α}
    (hcut : ∀ {s best rest}, item s = .truncated best rest → P s)
    (hpassed : ∀ {s value rest}, item s = .matched value rest → P rest → P s)
    (hcutSep : ∀ {s best rest}, separator s = .truncated best rest → P s)
    (hpassedSep : ∀ {s value rest}, separator s = .matched value rest → P rest → P s)
    {s after rest : List ε} {best : Option (List α)}
    (h : Verdict.separated separator item s after = .truncated best rest) : P s := by
  fun_induction Verdict.separated separator item s after generalizing best with
  | case1 s after value middle hitem mark past hsep hlt ih =>
    cases hmore : Verdict.separated separator item past middle with
    | truncated best' rest' =>
      rw [hmore] at h
      cases h
      exact hpassed hitem (hpassedSep hsep (ih hmore))
    | _ => rw [hmore] at h; cases h
  | case5 s after value middle hitem best' rest' hsep => exact hpassed hitem (hcutSep hsep)
  | case9 s after best' rest' hitem => exact hcut hitem
  | _ => cases h

theorem separatedItems {sep : Grammar ε σ} (hsep : sep.PausesIn P) (hp : p.PausesIn P) :
    (separatedItems sep p).PausesIn P := by
  have hpassed {s rest value} := hp.passed s rest value
  have hpassedSep {s rest value} := hsep.passed s rest value
  constructor
  · rintro s ⟨best, rest, hs⟩
    rw [verdict_separatedItems] at hs
    exact cut_separated (fun h => hp.cut _ ⟨_, _, h⟩) hpassed (fun h => hsep.cut _ ⟨_, _, h⟩)
      hpassedSep hs
  · exact fun _ _ _ hs => hsep.passes.separatedItems hp.passes hs

end PausesIn

end StreamGrammar.Grammar
