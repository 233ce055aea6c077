import StreamGrammar.Proofs.Grammar.Verdict

/-!
# Final decisions

A reader parses what it has, and parses again when more has come. It can stop
at the first answer other than *truncated* only if that answer would stay the
same whatever comes. A grammar with this property is `Final` here: a match on
input that may still grow is a match of the same value on any continuation,
with the continuation added to what remains, and a refusal stays that refusal.

Nearly every combinator hands the property on from its parts. The choices do
not. Where the first alternative is cut short, the second may decide – on its
own, and then perhaps too early. A choice is final if the second does not decide
there either (`Final.alt_of_waiting`, `Final.either_of_admits`). Mostly that is so
because its alternatives are told apart by one element: `BeginsWith` says which
elements a grammar can begin with, and a choice between grammars without a common
first element is final again (`Final.alt`). The other choice, `either`, is final
where its first alternative is decided as soon as there is an element to look at
(`DecidesAtOnce`) and its second waits for one too (`AwaitsElement`).
-/

namespace StreamGrammar

variable {ε α β σ : Type}

/-- **What a verdict on input that may grow promises** of the verdict on the
input with more appended. -/
def Verdict.Settles (now : Verdict ε α) (more : List ε) (later : Verdict ε α) : Prop :=
  match now with
  | .matched value rest => later = .matched value (rest ++ more)
  | .rejected => later = .rejected
  | .fatal => later = .fatal
  | .truncated _ _ => True
  | .raised _ => False

theorem Verdict.Settles.map [Vacancy β] {v later : Verdict ε α} {more : List ε}
    (h : v.Settles more later) (f : α → β) : (v.map f).Settles more (later.map f) := by
  cases v with
  | truncated best rest => trivial
  | raised fault => exact h.elim
  | _ => cases h; rfl

namespace Verdict.Settles

variable {now later : Verdict ε α} {more : List ε}

theorem of_matched (h : now.Settles more later) {value : α} {rest : List ε}
    (hnow : now = .matched value rest) : later = .matched value (rest ++ more) := by
  rw [hnow] at h
  exact h

theorem of_rejected (h : now.Settles more later) (hnow : now = .rejected) :
    later = .rejected := by
  rw [hnow] at h
  exact h

theorem of_fatal (h : now.Settles more later) (hnow : now = .fatal) : later = .fatal := by
  rw [hnow] at h
  exact h

theorem ne_raised (h : now.Settles more later) (fault : Fault) : now ≠ .raised fault := by
  intro hnow
  rw [hnow] at h
  exact h

end Verdict.Settles

/-- **A parser that stays with its decisions** while input that may grow does
grow. -/
def Parser.Steady (p : Parser ε α) : Prop :=
  ∀ s more : List ε, (p.verdict false s).Settles more (p.verdict false (s ++ more))

namespace Grammar

variable [Element ε]

/-- **A grammar whose decisions are final**: what it decides on input that may
grow it decides on every continuation, whether that is complete or not. -/
def Final (g : Grammar ε α) : Prop :=
  ∀ (final : Bool) (s more : List ε),
    (g.verdict false s).Settles more (g.verdict final (s ++ more))

namespace Final

variable {g p : Grammar ε α} {final : Bool} {s more rest : List ε}

theorem of_matched (h : g.Final) {value : α} (hv : g.verdict false s = .matched value rest) :
    g.verdict final (s ++ more) = .matched value (rest ++ more) :=
  (h final s more).of_matched hv

theorem of_rejected (h : g.Final) (hv : g.verdict false s = .rejected) :
    g.verdict final (s ++ more) = .rejected :=
  (h final s more).of_rejected hv

theorem of_fatal (h : g.Final) (hv : g.verdict false s = .fatal) :
    g.verdict final (s ++ more) = .fatal :=
  (h final s more).of_fatal hv

theorem ne_raised (h : g.Final) (fault : Fault) : g.verdict false s ≠ .raised fault :=
  (h false s []).ne_raised fault

/-- A grammar whose decisions are final stays with them. -/
theorem steady (h : g.Final) : Parser.Steady g.run := fun s more => h false s more

/-! ## Matchers -/

theorem satisfy (test : ε → Bool) (what : Expectation) :
    (satisfy test what : Grammar ε ε).Final := by
  intro final s more
  rw [verdict_satisfy, verdict_satisfy]
  cases s with
  | nil => trivial
  | cons e s =>
    simp only [List.cons_append]
    split <;> rfl

theorem literal (expected : List ε) : (literal expected).Final := by
  intro final s more
  rw [verdict_literal, verdict_literal]
  by_cases h : expected <+: s
  · rw [if_pos h, if_pos (h.trans (List.prefix_append s more)),
      List.drop_append_of_le_length h.length_le]
    rfl
  · by_cases h' : s <+: expected
    · rw [if_neg h, if_pos ⟨rfl, h'⟩]
      trivial
    · -- two beginnings of one list are comparable, and these two are not
      have hnot : ¬expected <+: s ++ more := fun hp =>
        (List.prefix_or_prefix_of_prefix hp (List.prefix_append s more)).elim h h'
      rw [if_neg h, if_neg (fun hc => h' hc.2), if_neg hnot,
        if_neg (fun hc => h' ((List.prefix_append s more).trans hc.2))]
      rfl

theorem take (count : Nat) : (take count : Grammar ε (List ε)).Final := by
  intro final s more
  rw [verdict_take, verdict_take]
  by_cases h : count ≤ s.length
  · rw [if_pos h, if_pos (by rw [List.length_append]; omega),
      List.take_append_of_le_length h, List.drop_append_of_le_length h]
    rfl
  · rw [if_neg h, if_neg Bool.false_ne_true]
    trivial

omit [Element ε] in
/-- A run that ends within a list ends there in every longer one. -/
theorem runs_append {test : ε → Bool} (h : s.dropWhile test ≠ []) (more : List ε) :
    (s ++ more).takeWhile test = s.takeWhile test ∧
      (s ++ more).dropWhile test = s.dropWhile test ++ more := by
  have hlen : (s.takeWhile test).length ≠ s.length := by
    have hsum := congrArg List.length (List.takeWhile_append_dropWhile (p := test) (l := s))
    have hpos := List.length_pos_iff.mpr h
    rw [List.length_append] at hsum
    omega
  rw [List.takeWhile_append, if_neg hlen, List.dropWhile_append, if_neg]
  · exact ⟨rfl, rfl⟩
  · simpa using h

theorem takeWhile (test : ε → Bool) : (takeWhile test : Grammar ε (List ε)).Final := by
  intro final s more
  rw [verdict_takeWhile, verdict_takeWhile]
  by_cases h : s.dropWhile test = []
  · rw [if_pos ⟨h, rfl⟩]
    trivial
  · obtain ⟨ht, hd⟩ := runs_append h more
    rw [if_neg (fun hc => h hc.1), ht, hd, if_neg (by simp [h])]
    rfl

theorem takeSomeWhile (test : ε → Bool) :
    (takeSomeWhile test : Grammar ε (List ε)).Final := by
  intro final s more
  rw [verdict_takeSomeWhile, verdict_takeSomeWhile]
  cases s with
  | nil => trivial
  | cons e s =>
    simp only [List.cons_append]
    split
    · exact takeWhile test final (e :: s) more
    · rfl

theorem otherThan (elements : List ε) : (otherThan elements).Final := by
  intro final s more
  rw [verdict_otherThan, verdict_otherThan]
  dsimp only
  by_cases h : (s.dropWhile fun e => !elements.contains e) = []
  · rw [if_pos ⟨h, rfl⟩]
    trivial
  · obtain ⟨ht, hd⟩ := runs_append h more
    have hs : ¬((s.dropWhile fun e => !elements.contains e) = [] ∧ false = false) :=
      fun hc => h hc.1
    have hm : ¬((s.dropWhile fun e => !elements.contains e) ++ more = [] ∧ final = false) :=
      fun hc => h (List.append_eq_nil_iff.mp hc.1).1
    rw [ht, hd, if_neg hs, if_neg hm]
    split <;> rfl

theorem endOfInput : (endOfInput : Grammar ε Unit).Final := by
  intro final s more
  rw [verdict_endOfInput, verdict_endOfInput]
  cases s with
  | nil => trivial
  | cons e s => rfl

theorem of_undecided [Vacancy α] (best : Option α) (count : Nat) :
    (undecided best count : Grammar ε α).Final := by
  intro final s more
  rw [verdict_undecided]
  trivial

theorem succeed (value : α) : (succeed value : Grammar ε α).Final := by
  intro final s more
  rw [verdict_succeed, verdict_succeed]
  rfl

theorem noAlternative : (noAlternative : Grammar ε α).Final := fun _ _ _ => rfl

/-! ## Combinators -/

/-- **A combinator of one part is final** where its rule keeps what the part has
settled. `rule` is how the verdict of the whole comes from that of the part;
of a part that is cut short nothing is known, so there the rule has to be cut
short as well. -/
theorem of_rule (hp : p.Final) {g : Grammar ε β}
    (rule : Bool → List ε → Verdict ε α → Verdict ε β)
    (hg : ∀ final s, g.verdict final s = rule final s (p.verdict final s))
    (hmatched : ∀ final s more value rest, (rule false s (.matched value rest)).Settles more
      (rule final (s ++ more) (.matched value (rest ++ more))))
    (hrejected : ∀ final s more, (rule false s .rejected).Settles more
      (rule final (s ++ more) .rejected))
    (hfatal : ∀ final s more, (rule false s .fatal).Settles more
      (rule final (s ++ more) .fatal))
    (htruncated : ∀ s best rest more later,
      (rule false s (.truncated best rest)).Settles more later) :
    g.Final := by
  intro final s more
  rw [hg, hg]
  cases h : p.verdict false s with
  | matched value rest =>
    rw [hp.of_matched h]
    exact hmatched final s more value rest
  | rejected =>
    rw [hp.of_rejected h]
    exact hrejected final s more
  | fatal =>
    rw [hp.of_fatal h]
    exact hfatal final s more
  | truncated best rest => exact htruncated s best rest more _
  | raised fault => exact absurd h (hp.ne_raised fault)

theorem map [Vacancy β] (hp : p.Final) (f : α → β) : (map f p).Final := by
  refine hp.of_rule (fun _ s v => (v.reanchor s).map f)
    (fun final s => verdict_map final s f p) ?_ ?_ ?_ ?_
  · intro final s more value rest
    rfl
  · intro final s more
    rfl
  · intro final s more
    rfl
  · intro s best rest more later
    cases best <;> trivial

/-- A function that may fail but does not is as good as one that cannot. -/
theorem mapRaising [Vacancy β] (hp : p.Final) {f : α → Except Fault β}
    (hf : ∀ a, ∃ b, f a = .ok b) :
    (mapRaising f p).Final := by
  refine hp.of_rule (fun _ s v => v.mapRaising f s)
    (fun final s => verdict_mapRaising final s f p) ?_ ?_ ?_ ?_
  · intro final s more value rest
    obtain ⟨b, hb⟩ := hf value
    simp only [Verdict.mapRaising, hb]
    rfl
  · intro final s more
    rfl
  · intro final s more
    rfl
  · intro s best rest more later
    cases best with
    | none => trivial
    | some best =>
      obtain ⟨b, hb⟩ := hf best
      simp only [Verdict.mapRaising, hb]
      trivial

theorem recast [Vacancy β] (hp : p.Final) (f : α → β) : (recast f p).Final := by
  refine hp.of_rule (fun _ _ v => v.map f) (fun final s => verdict_recast final s f p) ?_ ?_ ?_ ?_
  · intro final s more value rest
    rfl
  · intro final s more
    rfl
  · intro final s more
    rfl
  · intro s best rest more later
    trivial

theorem judge (hp : p.Final) (refusal : Refusal) (accept : α → Except (Nat → Reason) β) :
    (judge refusal accept p).Final := by
  refine hp.of_rule (fun _ s v => v.judge refusal accept s)
    (fun final s => verdict_judge final s refusal accept p) ?_ ?_ ?_ ?_
  · intro final s more value rest
    -- the judgement sees the value alone, which is the same on both inputs
    simp only [Verdict.judge]
    cases accept value with
    | ok accepted => rfl
    | error reason => cases refusal <;> rfl
  · intro final s more
    rfl
  · intro final s more
    rfl
  · intro s best rest more later
    trivial

theorem bind {next : α → Grammar ε β} (hp : p.Final) (hn : ∀ a, (next a).Final) :
    (bind p next).Final := by
  refine hp.of_rule
    (fun final s v => v.andThen s fun a rest => (next a).verdict final rest)
    (fun final s => verdict_bind final s p next) ?_ ?_ ?_ ?_
  · intro final s more value rest
    -- what comes next starts at the same value, with `more` at its end
    simp only [Verdict.andThen]
    cases h : (next value).verdict false rest with
    | matched value' rest' => rw [(hn value).of_matched h]; rfl
    | rejected => rw [(hn value).of_rejected h]; rfl
    | fatal => rw [(hn value).of_fatal h]; rfl
    | truncated best rest' => trivial
    | raised fault => exact absurd h ((hn value).ne_raised fault)
  · intro final s more
    rfl
  · intro final s more
    rfl
  · intro s best rest more later
    trivial

theorem optional (hp : p.Final) : (optional p).Final := by
  refine hp.of_rule (fun _ s v => v.optional s)
    (fun final s => verdict_optional final s p) ?_ ?_ ?_ ?_
  · intro final s more value rest
    rfl
  · intro final s more
    rfl
  · intro final s more
    rfl
  · intro s best rest more later
    trivial

theorem peek (hp : p.Final) : (peek p).Final := by
  refine hp.of_rule (fun _ s v => v.peek s)
    (fun final s => verdict_peek final s p) ?_ ?_ ?_ ?_
  · intro final s more value rest
    rfl
  · intro final s more
    rfl
  · intro final s more
    rfl
  · intro s best rest more later
    trivial

/-- The inner grammar of a pipe sees the same piece, which is complete, however
much follows it. So nothing is asked of it but that it has a verdict. -/
theorem pipe {outer : Grammar ε (List ε)} (ho : outer.Final)
    (hp : ∀ piece fault, p.verdict true piece ≠ .raised fault) : (pipe outer p).Final := by
  refine ho.of_rule (fun _ s v => v.pipe s (p.verdict true))
    (fun final s => verdict_pipe final s outer p) ?_ ?_ ?_ ?_
  · intro final s more piece rest
    simp only [Verdict.pipe]
    cases h : p.verdict true piece with
    | raised fault => exact absurd h (hp piece fault)
    | _ => rfl
  · intro final s more
    rfl
  · intro final s more
    rfl
  · intro s best rest more later
    trivial

theorem label (hp : p.Final) (name : Text) : (label p name).Final := by
  intro final s more
  rw [verdict_label, verdict_label]
  exact hp final s more

theorem halt (hp : p.Final) (name : Text) : (halt name p).Final := by
  refine hp.of_rule (fun _ _ v => v.halt)
    (fun final s => verdict_halt final s name p) ?_ ?_ ?_ ?_
  · intro final s more value rest
    rfl
  · intro final s more
    rfl
  · intro final s more
    rfl
  · intro s best rest more later
    trivial

/-! ## Loops

A round of a loop that consumes on a beginning of the input consumes just as
much on the whole, so both loops go through the same rounds; the induction is
on what is left. -/

theorem many_settles (hp : p.Final) (final : Bool) (s more : List ε) :
    (Verdict.many (p.verdict false) s).Settles more
      (Verdict.many (p.verdict final) (s ++ more)) := by
  induction hn : s.length using Nat.strongRecOn generalizing s with
  | _ n ih =>
    subst hn
    rw [Verdict.many_eq, Verdict.many_eq]
    cases h : p.verdict false s with
    | matched value rest =>
      rw [hp.of_matched h]
      simp only [List.length_append, Nat.add_lt_add_iff_right]
      by_cases hlt : rest.length < s.length
      · rw [if_pos hlt, if_pos hlt]
        exact (ih rest.length hlt rest rfl).map _
      · rw [if_neg hlt, if_neg hlt]
        rfl
    | rejected => rw [hp.of_rejected h]; rfl
    | fatal => rw [hp.of_fatal h]; rfl
    | truncated best rest => trivial
    | raised fault => exact absurd h (hp.ne_raised fault)

theorem repeatAny (hp : p.Final) : (repeatAny p).Final := by
  intro final s more
  rw [verdict_repeatAny, verdict_repeatAny]
  exact hp.many_settles final s more

theorem repeatSome (hp : p.Final) : (repeatSome p).Final := by
  refine hp.repeatAny.of_rule (fun _ _ v => v.atLeastOne)
    (fun final s => verdict_repeatSome final s p) ?_ ?_ ?_ ?_
  · intro final s more values rest
    cases values <;> rfl
  · intro final s more
    rfl
  · intro final s more
    rfl
  · intro s best rest more later
    trivial

theorem separated_settles {sep : Grammar ε σ} (hsep : sep.Final) (hp : p.Final)
    (final : Bool) (s after more : List ε) :
    (Verdict.separated (sep.verdict false) (p.verdict false) s after).Settles more
      (Verdict.separated (sep.verdict final) (p.verdict final) (s ++ more) (after ++ more)) := by
  induction hn : s.length using Nat.strongRecOn generalizing s after with
  | _ n ih =>
    subst hn
    rw [Verdict.separated.eq_1 _ _ s, Verdict.separated.eq_1 _ _ (s ++ more)]
    cases h : p.verdict false s with
    | matched value rest =>
      rw [hp.of_matched h]
      dsimp only
      cases h' : sep.verdict false rest with
      | matched mark past =>
        rw [hsep.of_matched h']
        simp only [List.length_append, Nat.add_lt_add_iff_right]
        by_cases hlt : past.length < rest.length ∧ past.length < s.length
        · rw [if_pos hlt, if_pos hlt]
          exact (ih past.length hlt.2 past rest rfl).map _
        · rw [if_neg hlt, if_neg hlt]
          rfl
      | rejected => rw [hsep.of_rejected h']; rfl
      | fatal => rw [hsep.of_fatal h']; rfl
      | truncated best rest' => trivial
      | raised fault => exact absurd h' (hsep.ne_raised fault)
    | rejected => rw [hp.of_rejected h]; rfl
    | fatal => rw [hp.of_fatal h]; rfl
    | truncated best rest => trivial
    | raised fault => exact absurd h (hp.ne_raised fault)

theorem separatedItems {sep : Grammar ε σ} (hsep : sep.Final) (hp : p.Final) :
    (separatedItems sep p).Final := by
  intro final s more
  rw [verdict_separatedItems, verdict_separatedItems]
  exact separated_settles hsep hp final s s more

/-! ## Derived grammars -/

section Derived

variable {γ δ : Type} {q : Grammar ε β} {r : Grammar ε γ} {t : Grammar ε δ}

theorem serial3 (hp : p.Final) (hq : q.Final) (hr : r.Final) : (serial3 p q r).Final :=
  hp.bind fun _ => hq.bind fun _ => hr.map _

theorem serial4 (hp : p.Final) (hq : q.Final) (hr : r.Final) (ht : t.Final) :
    (serial4 p q r t).Final :=
  hp.bind fun _ => hq.bind fun _ => hr.bind fun _ => ht.map _

theorem terminated [Vacancy α] (hp : p.Final) (hq : q.Final) : (terminated p q).Final :=
  hp.bind fun _ => hq.map _

theorem preceded (hp : p.Final) (hq : q.Final) : (preceded p q).Final :=
  hp.bind fun _ => hq

theorem between [Vacancy β] (hp : p.Final) (hq : q.Final) (hr : r.Final) : (between p q r).Final :=
  hp.bind fun _ => hq.bind fun _ => hr.map _

theorem around (hp : p.Final) (hq : q.Final) (hr : r.Final) : (around p q r).Final :=
  hp.bind fun _ => hq.bind fun _ => hr.map _

theorem convert (hp : p.Final) (c : Conversion α β) : (convert c p).Final :=
  hp.judge _ _

theorem convertOrHalt (hp : p.Final) (c : Conversion α β) : (convertOrHalt c p).Final :=
  hp.judge _ _

end Derived

end Final

/-! ## The elements that a grammar begins with -/

/-- Without an element nothing is decided. -/
def AwaitsElement (g : Grammar ε α) : Prop :=
  ∃ (best : Option α) (rest : List ε), g.verdict false [] = .truncated best rest

namespace AwaitsElement

variable {p : Grammar ε α}

theorem satisfy (test : ε → Bool) (what : Expectation) :
    (satisfy test what : Grammar ε ε).AwaitsElement :=
  ⟨none, [], by rw [verdict_satisfy]; rfl⟩

theorem takeSomeWhile (test : ε → Bool) :
    (takeSomeWhile test : Grammar ε (List ε)).AwaitsElement :=
  ⟨none, [], by rw [verdict_takeSomeWhile]; rfl⟩

theorem otherThan (elements : List ε) : (otherThan elements).AwaitsElement :=
  ⟨none, [], by rw [verdict_otherThan]; rfl⟩

theorem map [Vacancy β] (hp : p.AwaitsElement) (f : α → β) : (map f p).AwaitsElement := by
  obtain ⟨best, rest, h⟩ := hp
  unfold AwaitsElement
  rw [verdict_map, h]
  cases best <;> exact ⟨_, _, rfl⟩

theorem judge (hp : p.AwaitsElement) (refusal : Refusal)
    (accept : α → Except (Nat → Reason) β) : (judge refusal accept p).AwaitsElement := by
  obtain ⟨best, rest, h⟩ := hp
  exact ⟨none, [], by rw [verdict_judge, h]; rfl⟩

theorem bind (hp : p.AwaitsElement) (next : α → Grammar ε β) :
    (bind p next).AwaitsElement := by
  obtain ⟨best, rest, h⟩ := hp
  exact ⟨none, [], by rw [verdict_bind, h]; rfl⟩

end AwaitsElement

/-- **What a grammar can begin with**: any other element is rejected at once,
and without an element nothing is decided but, perhaps, a rejection. -/
structure BeginsWith (g : Grammar ε α) (first : ε → Prop) : Prop where
  /-- Nothing is recognised in no input. -/
  nil : g.verdict false [] = .rejected ∨ g.AwaitsElement
  /-- An element of another kind is rejected, whatever follows. -/
  cons : ∀ (final : Bool) (e : ε) (s : List ε), ¬first e →
    g.verdict final (e :: s) = .rejected

namespace BeginsWith

variable {p q : Grammar ε α} {first second : ε → Prop}

theorem mono (hp : p.BeginsWith first) (h : ∀ e, first e → second e) :
    p.BeginsWith second :=
  ⟨hp.nil, fun final e s he => hp.cons final e s (mt (h e) he)⟩

theorem satisfy (test : ε → Bool) (what : Expectation) :
    (satisfy test what : Grammar ε ε).BeginsWith (fun e => test e = true) := by
  refine ⟨.inr (.satisfy test what), fun final e s he => ?_⟩
  rw [verdict_satisfy]
  exact if_neg he

theorem literal (head : ε) (tail : List ε) :
    (literal (head :: tail)).BeginsWith (· = head) := by
  constructor
  · exact .inr ⟨none, [], by rw [verdict_literal]; simp⟩
  · intro final e s he
    have he' : ¬head = e := fun h => he h.symm
    rw [verdict_literal, if_neg (by simp [he']), if_neg (by simp [he])]

theorem takeSomeWhile (test : ε → Bool) :
    (takeSomeWhile test : Grammar ε (List ε)).BeginsWith (fun e => test e = true) := by
  refine ⟨.inr (.takeSomeWhile test), fun final e s he => ?_⟩
  rw [verdict_takeSomeWhile]
  exact if_neg he

theorem otherThan (elements : List ε) :
    (otherThan elements).BeginsWith (· ∉ elements) := by
  refine ⟨.inr (.otherThan elements), fun final e s he => ?_⟩
  have he' : (!elements.contains e) = false := by simpa using he
  rw [verdict_otherThan]
  simp only [List.takeWhile_cons, List.dropWhile_cons, he', Bool.false_eq_true, if_false]
  rw [if_neg (by simp), if_pos trivial]

theorem noAlternative : (noAlternative : Grammar ε α).BeginsWith (fun _ => False) :=
  ⟨.inl rfl, fun _ _ _ _ => rfl⟩

theorem map [Vacancy β] (hp : p.BeginsWith first) (f : α → β) : (map f p).BeginsWith first := by
  constructor
  · exact hp.nil.imp (fun h => by rw [verdict_map, h]; rfl) (fun h => h.map f)
  · intro final e s he
    rw [verdict_map, hp.cons final e s he]
    rfl

theorem judge (hp : p.BeginsWith first) (refusal : Refusal)
    (accept : α → Except (Nat → Reason) β) : (judge refusal accept p).BeginsWith first := by
  constructor
  · exact hp.nil.imp (fun h => by rw [verdict_judge, h]; rfl) (fun h => h.judge _ _)
  · intro final e s he
    rw [verdict_judge, hp.cons final e s he]
    rfl

theorem bind (hp : p.BeginsWith first) (next : α → Grammar ε β) :
    (bind p next).BeginsWith first := by
  constructor
  · exact hp.nil.imp (fun h => by rw [verdict_bind, h]; rfl) (fun h => h.bind next)
  · intro final e s he
    rw [verdict_bind, hp.cons final e s he]
    rfl

theorem label (hp : p.BeginsWith first) (name : Text) : (label p name).BeginsWith first := by
  constructor
  · unfold AwaitsElement
    rw [verdict_label]
    exact hp.nil
  · intro final e s he
    rw [verdict_label]
    exact hp.cons final e s he

theorem repeatSome (hp : p.BeginsWith first) : (repeatSome p).BeginsWith first := by
  constructor
  · unfold AwaitsElement
    rw [verdict_repeatSome, verdict_repeatAny, Verdict.many_eq]
    rcases hp.nil with h | ⟨best, rest, h⟩
    · exact .inl (by rw [h]; rfl)
    · exact .inr ⟨_, _, by rw [h]; rfl⟩
  · intro final e s he
    rw [verdict_repeatSome, verdict_repeatAny, Verdict.many_eq, hp.cons final e s he]
    rfl

/-- What may be left out before a grammar can begin the whole, and so can the
grammar. -/
theorem optional_bind (hp : p.BeginsWith first) {next : Option α → Grammar ε β}
    (hn : ∀ a, (next a).BeginsWith second) :
    ((optional p).bind next).BeginsWith (fun e => first e ∨ second e) := by
  constructor
  · unfold AwaitsElement
    rw [verdict_bind, verdict_optional]
    rcases hp.nil with h | ⟨best, rest, h⟩
    · rw [h]
      simp only [Verdict.optional, Verdict.andThen]
      rcases (hn none).nil with h' | ⟨best, rest, h'⟩
      · exact .inl (by rw [h'])
      · exact .inr ⟨none, [], by rw [h']⟩
    · exact .inr ⟨none, [], by rw [h]; rfl⟩
  · intro final e s he
    rw [verdict_bind, verdict_optional, hp.cons final e s (fun h => he (.inl h))]
    simp only [Verdict.optional, Verdict.andThen]
    rw [(hn none).cons final e s (fun h => he (.inr h))]

theorem alt (hp : p.BeginsWith first) (hq : q.BeginsWith second) :
    (alt p q).BeginsWith (fun e => first e ∨ second e) := by
  constructor
  · unfold AwaitsElement
    rw [verdict_alt]
    rcases hp.nil with h | ⟨best, rest, h⟩
    · rw [h]
      exact hq.nil
    · rw [h]
      rcases hq.nil with h' | ⟨best', rest', h'⟩
      · exact .inr ⟨best, rest, by rw [h']; rfl⟩
      · exact .inr ⟨best', rest', by rw [h']; rfl⟩
  · intro final e s he
    rw [verdict_alt, hp.cons final e s (fun h => he (.inl h)),
      hq.cons final e s (fun h => he (.inr h))]
    rfl

theorem either [Vacancy α] (hp : p.BeginsWith first) (hq : q.BeginsWith second) :
    (either p q).BeginsWith (fun e => first e ∨ second e) := by
  constructor
  · unfold AwaitsElement
    rw [verdict_either]
    rcases hp.nil with h | ⟨best, rest, h⟩
    · rw [h]
      exact hq.nil
    · rw [h]
      cases best with
      | some value => exact .inr ⟨some value, rest, rfl⟩
      | none =>
        rcases hq.nil with h' | ⟨best', rest', h'⟩
        · exact .inl (by rw [h']; rfl)
        · exact .inr ⟨best', rest', by rw [h']; rfl⟩
  · intro final e s he
    rw [verdict_either, hp.cons final e s (fun h => he (.inl h)),
      hq.cons final e s (fun h => he (.inr h))]
    rfl

end BeginsWith

/-- **Decided by one element**: the first element that there is settles whether
the grammar matches, and only without one can it be cut short. -/
def DecidesAtOnce (g : Grammar ε α) : Prop :=
  ∀ (s : List ε) (best : Option α) (rest : List ε),
    g.verdict false s = .truncated best rest → s = []

theorem DecidesAtOnce.satisfy (test : ε → Bool) (what : Expectation) :
    (satisfy test what : Grammar ε ε).DecidesAtOnce := by
  intro s best rest h
  rw [verdict_satisfy] at h
  cases s with
  | nil => rfl
  | cons e s =>
    dsimp only at h
    split at h <;> cases h

theorem DecidesAtOnce.map [Vacancy β] {p : Grammar ε α} (hp : p.DecidesAtOnce) (f : α → β) :
    (map f p).DecidesAtOnce := by
  intro s best rest h
  rw [verdict_map] at h
  cases hv : p.verdict false s with
  | truncated best' rest' => exact hp s best' rest' hv
  | _ => rw [hv] at h; cases h

theorem DecidesAtOnce.peek {p : Grammar ε α} (hp : p.DecidesAtOnce) :
    (peek p).DecidesAtOnce := by
  intro s best rest h
  rw [verdict_peek] at h
  cases hv : p.verdict false s with
  | truncated best' rest' => exact hp s best' rest' hv
  | _ => rw [hv] at h; cases h

/-! ## Choices -/

/-- Cut short on input that may still grow. -/
def CutShort (g : Grammar ε α) (s : List ε) : Prop :=
  ∃ (best : Option α) (rest : List ε), g.verdict false s = .truncated best rest

/-- **A choice is final if it waits**: where the first alternative is cut short,
the second is cut short as well or cannot be what is there. -/
theorem Final.alt_of_waiting {p q : Grammar ε α} (hp : p.Final) (hq : q.Final)
    (hwait : ∀ s, p.CutShort s → q.verdict false s = .rejected ∨ q.CutShort s) :
    (alt p q).Final := by
  intro final s more
  rw [verdict_alt, verdict_alt]
  cases h : p.verdict false s with
  | matched value rest => rw [hp.of_matched h]; rfl
  | rejected =>
    rw [hp.of_rejected h]
    exact hq final s more
  | fatal => rw [hp.of_fatal h]; rfl
  | truncated best rest =>
    rcases hwait s ⟨best, rest, h⟩ with h' | ⟨best', rest', h'⟩ <;> rw [h'] <;> trivial
  | raised fault => exact absurd h (hp.ne_raised fault)

/-- Where there is an element that only the first alternative can begin with,
the second rejects; where there is none, it is cut short. -/
theorem waits_of_beginsWith {p q : Grammar ε α} {first second : ε → Prop}
    (hfirst : p.BeginsWith first) (hsecond : q.BeginsWith second)
    (hdisjoint : ∀ e, first e → ¬second e) (s : List ε) (h : p.CutShort s) :
    q.verdict false s = .rejected ∨ q.CutShort s := by
  obtain ⟨best, rest, h⟩ := h
  cases s with
  | nil => exact hsecond.nil
  | cons e s =>
    refine .inl (hsecond.cons false e s (hdisjoint e ?_))
    refine Classical.byContradiction (fun he => ?_)
    rw [hfirst.cons false e s he] at h
    cases h

/-- **A choice that one element settles is final.** -/
theorem Final.alt {p q : Grammar ε α} {first second : ε → Prop} (hp : p.Final)
    (hq : q.Final) (hfirst : p.BeginsWith first) (hsecond : q.BeginsWith second)
    (hdisjoint : ∀ e, first e → ¬second e) : (alt p q).Final :=
  .alt_of_waiting hp hq (waits_of_beginsWith hfirst hsecond hdisjoint)

/-- A grammar that does not refuse what there is: it matches, or is cut short. -/
def Admits (g : Grammar ε α) (s : List ε) : Prop :=
  (∃ (value : α) (rest : List ε), g.verdict false s = .matched value rest) ∨ g.CutShort s

/-- **The other choice is final if its second alternative admits** what the
first is cut short on: a match would only be tentative. -/
theorem Final.either_of_admits [Vacancy α] {p q : Grammar ε α} (hp : p.Final) (hq : q.Final)
    (hadmits : ∀ s, p.CutShort s → q.Admits s) : (either p q).Final := by
  intro final s more
  rw [verdict_either, verdict_either]
  cases h : p.verdict false s with
  | matched value rest => rw [hp.of_matched h]; rfl
  | rejected =>
    rw [hp.of_rejected h]
    exact hq final s more
  | fatal => rw [hp.of_fatal h]; rfl
  | truncated best rest =>
    rcases hadmits s ⟨best, rest, h⟩ with ⟨value, rest', h'⟩ | ⟨best', rest', h'⟩ <;>
      rw [h'] <;> cases best <;> trivial
  | raised fault => exact absurd h (hp.ne_raised fault)

/-- A choice whose first alternative is decided at once is final. -/
theorem Final.either [Vacancy α] {p q : Grammar ε α} (hp : p.Final) (hq : q.Final)
    (honce : p.DecidesAtOnce) (hawaits : q.AwaitsElement) : (either p q).Final := by
  refine .either_of_admits hp hq fun s ⟨best, rest, h⟩ => ?_
  obtain rfl := honce s best rest h
  exact .inr hawaits

end Grammar

end StreamGrammar
