import StreamGrammar.Proofs.Grammar.Choice
import StreamGrammar.Proofs.Resolute

/-!
# Ordered choice on complete input

A choice between several grammars can be written in two ways, and they differ in what they
make of an alternative that is cut short. `either` asks the next one and takes its match for
tentative; `eitherOf` passes it over and comes back to it when no other matches. Where input
may still grow the difference can be seen, and so can the grouping of nested choices: in
`either p (either q r)` a match of `r` is demoted on account of `p`, in
`either (either p q) r` it is not once `q` has rejected.

All of it starts with an alternative that is cut short. Grouping does not matter at a place
where the first parser is not (`Choice.either_assoc` asks this of no other), and where no
parser is, both ways of choosing come down to one rule: the first parser that does not
reject decides (`Choice.deciding?`). They differ only in what they say when there is none.
On complete input this is settled for every grammar that is built from matchers and
combinators, whatever its shape, since it leaves nothing open there.
-/

namespace StreamGrammar

variable {ε α : Type}

namespace Choice

variable {c : Cursor ε}

/-- **What decides between some parsers at a place**: the outcome of the first that does
not reject. -/
def deciding? (c : Cursor ε) : List (Parser ε α) → Option (Outcome ε α)
  | [] => none
  | p :: choices =>
    match p c with
    | .rejected _ => deciding? c choices
    | outcome => some outcome

theorem deciding?_eq_none_iff {choices : List (Parser ε α)} :
    deciding? c choices = none ↔ ∀ p ∈ choices, ∃ reason, p c = .rejected reason := by
  induction choices with
  | nil => simp [deciding?]
  | cons p choices ih =>
    rw [List.forall_mem_cons, ← ih, deciding?]
    cases p c <;> simp

/-- Without a parser that is cut short, `eitherOf` leaves it to the first that does not
reject, and has a reason of its own if there is none. -/
theorem eitherOf_eq {choices : List (Parser ε α)}
    (h : ∀ p ∈ choices, ∀ best stop, p c ≠ .truncated best stop) :
    eitherOf choices c = (deciding? c choices).getD (.rejected (.noAlternative c.pos)) := by
  induction choices with
  | nil => rfl
  | cons p choices ih =>
    obtain ⟨hp, hothers⟩ := List.forall_mem_cons.mp h
    rw [eitherOf_cons, alt, deciding?]
    cases hrun : p c with
    | rejected reason => exact ih hothers
    | truncated best stop => exact absurd hrun (hp best stop)
    | _ => rfl

variable [Vacancy α]

/-- **Grouping can be seen only if the first parser is cut short without a partial
result.** -/
theorem either_assoc {p q r : Parser ε α} (hp : ∀ stop, p c ≠ .truncated none stop) :
    either (either p q) r c = either p (either q r) c := by
  unfold either
  cases hrun : p c with
  | truncated best stop =>
    cases best with
    | none => exact absurd hrun (hp stop)
    | some best => rfl
  | _ => rfl

/-- A parser and others after it, each a fallback for those before. -/
def nested (first : Parser ε α) : List (Parser ε α) → Parser ε α
  | [] => first
  | second :: others => either first (nested second others)

/-- Without a parser that is cut short, nested choices leave it to the first that does not
reject, and to the last if there is none. -/
theorem nested_eq {first : Parser ε α} {others : List (Parser ε α)}
    (h : ∀ p ∈ first :: others, ∀ best stop, p c ≠ .truncated best stop) :
    nested first others c =
      (deciding? c (first :: others)).getD
        ((first :: others).getLast (List.cons_ne_nil first others) c) := by
  induction others generalizing first with
  | nil =>
    rw [nested, deciding?]
    cases hrun : first c <;> simp [deciding?, hrun]
  | cons second others ih =>
    obtain ⟨hfirst, hothers⟩ := List.forall_mem_cons.mp h
    rw [nested, either, deciding?, List.getLast_cons (List.cons_ne_nil second others)]
    cases hrun : first c with
    | rejected reason => exact ih hothers
    | truncated best stop => exact absurd hrun (hfirst best stop)
    | _ => rfl

end Choice

namespace Grammar

variable [Element ε] [Vacancy α]

/-- A grammar and others after it, each a fallback for those before. -/
def nestedEither (first : Grammar ε α) : List (Grammar ε α) → Grammar ε α
  | [] => first
  | second :: others => either first (nestedEither second others)

theorem run_nestedEither (first : Grammar ε α) (others : List (Grammar ε α)) :
    (nestedEither first others).run = Choice.nested first.run (others.map run) := by
  induction others generalizing first with
  | nil => rfl
  | cons second others ih =>
    show Choice.either first.run (nestedEither second others).run = Choice.either first.run _
    rw [ih]

/-- **On complete input ordered choice has one meaning.** Of grammars built from matchers
and combinators, nested choices have the same outcome however they are grouped. And the
choice over a list of them has the outcome of the nested choices, unless every grammar
rejects: then the nested choices have that of the last, and the choice over the list says
that no alternative is left. -/
theorem ordered_choice_has_one_meaning {c : Cursor ε} (hc : c.final = true) :
    (∀ p q r : Grammar ε α, p.Resolute →
      (either (either p q) r).run c = (either p (either q r)).run c) ∧
    ∀ (first : Grammar ε α) (others : List (Grammar ε α)),
      (∀ p ∈ first :: others, p.Resolute) →
        ((∃ p ∈ first :: others, ∀ reason, p.run c ≠ .rejected reason) →
          (eitherOf (first :: others)).run c = (nestedEither first others).run c) ∧
        ((∀ p ∈ first :: others, ∃ reason, p.run c = .rejected reason) →
          (eitherOf (first :: others)).run c = .rejected (.noAlternative c.pos) ∧
          (nestedEither first others).run c =
            ((first :: others).getLast (List.cons_ne_nil first others)).run c) := by
  constructor
  · intro p q r hp
    exact Choice.either_assoc fun stop => (hp.settled hc).ne_truncated none stop
  · intro first others hall
    have hsettled : ∀ p ∈ first.run :: others.map run, ∀ best stop, p c ≠ .truncated best stop := by
      rw [← List.map_cons, List.forall_mem_map]
      exact fun p hp => ((hall p hp).settled hc).ne_truncated
    have hrejects : Choice.deciding? c (first.run :: others.map run) = none ↔
        ∀ p ∈ first :: others, ∃ reason, p.run c = .rejected reason := by
      rw [Choice.deciding?_eq_none_iff, ← List.map_cons, List.forall_mem_map]
    have hlist : (eitherOf (first :: others)).run c =
        (Choice.deciding? c (first.run :: others.map run)).getD
          (.rejected (.noAlternative c.pos)) := by
      rw [run_eitherOf]
      exact Choice.eitherOf_eq hsettled
    have hnested : (nestedEither first others).run c =
        (Choice.deciding? c (first.run :: others.map run)).getD
          (((first :: others).getLast (List.cons_ne_nil first others)).run c) := by
      rw [run_nestedEither, Choice.nested_eq hsettled]
      exact congrArg (fun p : Parser ε α => Option.getD _ (p c))
        (List.getLast_map (l := first :: others) (List.cons_ne_nil first.run (others.map run)))
    rw [hlist, hnested]
    constructor
    · rintro ⟨p, hp, hdecides⟩
      have hsome : Choice.deciding? c (first.run :: others.map run) ≠ none := fun hnone => by
        obtain ⟨reason, hreason⟩ := hrejects.mp hnone p hp
        exact hdecides reason hreason
      obtain ⟨outcome, houtcome⟩ := Option.ne_none_iff_exists'.mp hsome
      rw [houtcome]
      rfl
    · intro h
      rw [hrejects.mpr h]
      exact ⟨rfl, rfl⟩

/-- Two literals and any two elements, in `xac`: before `ac` the second literal decides,
and before `c` no grammar does. -/
theorem ordered_choice_between_literals :
    let p : Grammar CodePoint Text := token ['a', 'b']
    let q : Grammar CodePoint Text := token ['a']
    let r : Grammar CodePoint Text := take 2
    let c : Cursor CodePoint := { Cursor.complete (Element.piece ['x', 'a', 'c']) with pos := 1 }
    let d : Cursor CodePoint := { Cursor.complete (Element.piece ['x', 'a', 'c']) with pos := 2 }
    (c.final = true ∧ d.final = true ∧ p.Resolute ∧ ∀ g ∈ [p, q, r], g.Resolute) ∧
      (either (either p q) r).run c = (either p (either q r)).run c ∧
      (∃ g ∈ [p, q, r], ∀ reason, g.run c ≠ .rejected reason) ∧
      (eitherOf [p, q, r]).run c = (nestedEither p [q, r]).run c ∧
      (∀ g ∈ [p, q, r], ∃ reason, g.run d = .rejected reason) ∧
      (eitherOf [p, q, r]).run d = .rejected (.noAlternative 2) ∧
      (nestedEither p [q, r]).run d = r.run d := by
  intro p q r c d
  have hall : ∀ g ∈ [p, q, r], g.Resolute := by simp [p, q, r, token, Resolute]
  have hdecides : ∃ g ∈ [p, q, r], ∀ reason, g.run c ≠ .rejected reason :=
    ⟨q, by simp, nofun⟩
  have hrejects : ∀ g ∈ [p, q, r], ∃ reason, g.run d = .rejected reason := by
    simp only [List.forall_mem_cons]
    exact ⟨⟨_, rfl⟩, ⟨_, rfl⟩, ⟨_, rfl⟩, nofun⟩
  obtain ⟨hgrouped, hlist⟩ := ordered_choice_has_one_meaning (α := Text) (c := c) rfl
  obtain ⟨-, hnone⟩ := (ordered_choice_has_one_meaning (α := Text) (c := d) rfl).2 p [q, r] hall
  exact ⟨⟨rfl, rfl, trivial, hall⟩, hgrouped p q r trivial, hdecides,
    (hlist p [q, r] hall).1 hdecides, hrejects, hnone hrejects⟩

/-- Where input may still grow, grouping can be seen: after `a`, of which `ab` may become,
and `z`, which rejects, the match of `a` is final or tentative. -/
example :
    let p : Grammar CodePoint Text := token ['a', 'b']
    let q : Grammar CodePoint Text := token ['z']
    let r : Grammar CodePoint Text := token ['a']
    let c : Cursor CodePoint := .streaming (Element.piece ['a'])
    ((either (either p q) r).run c).kind? = some .matched ∧
      ((either p (either q r)).run c).kind? = some .truncated := by
  decide

end Grammar

end StreamGrammar
