import Mathlib.Data.List.Forall2
import StreamGrammar.Proofs.Grammar.Complete
import StreamGrammar.Proofs.Text.Spelling

/-!
# The same grammar over two alphabets

A grammar that names elements by ASCII characters can be run over text and over an
alphabet that spells it. The two runs do not take the same steps, since a character
takes several elements and a position counts elements, and so verdicts and not
positions are what could agree. But reasons quote positions and pieces of input, and
what is reported of a fatal reason may depend on its wording. So runs are compared
here and not their verdicts: both runs match, and stop with the same text ahead, or
both reject, or both fail for good with reasons that do not differ in what is of
interest about them (`Alike`).

For that it is enough that the leaves of the grammar agree. Combinators only pass on
what their parts report, and a loop asks of a round whether it consumed something,
which the two runs answer alike. Complete input is all that is considered: where more
may come, bytes can break off within a character and text cannot.
-/

namespace StreamGrammar

variable {ε α β γ δ σ τ : Type} [Element ε] [Spelling ε]

/-! ## Places with the same text ahead -/

/-- **Two places with the same text ahead**, one in an alphabet that spells it and
one in the text itself, neither of which expects more. -/
structure Abreast (c : Cursor ε) (d : Cursor CodePoint) : Prop where
  /-- The first place lies within its source. -/
  within : c.Within
  /-- So does the second. -/
  within_text : d.Within
  /-- The first source is complete. -/
  final : c.final = true
  /-- So is the second. -/
  final_text : d.final = true
  /-- What is left spells the text that is left. -/
  rest_eq : c.rest = spell d.rest
  /-- That text can be read. -/
  readable : ∀ ch ∈ d.rest, Spelling.Readable ε ch

theorem abreast_complete {t : Text} (h : ∀ ch ∈ t, Spelling.Readable ε ch) :
    Abreast (.complete (spell t : List ε)) (.complete t) where
  within := Cursor.within_complete _
  within_text := Cursor.within_complete _
  final := rfl
  final_text := rfl
  rest_eq := by rw [Cursor.rest_complete, Cursor.rest_complete]
  readable := by rwa [Cursor.rest_complete]

omit [Element ε] [Spelling ε] in
/-- What is left further on is an end of what was left. -/
theorem Cursor.Reaches.rest_suffix {c r : Cursor ε} (h : c.Reaches r) : r.rest <:+ c.rest := by
  obtain ⟨n, hn⟩ := Nat.le.dest h.le_pos
  rw [Cursor.rest_eq, Cursor.rest_eq, h.source_eq, ← hn, ← List.drop_drop]
  exact List.drop_suffix n _

/-- **One place is past another in both alphabets or in neither.** -/
theorem Abreast.distance_lt_iff {c r : Cursor ε} {d s : Cursor CodePoint} (h : Abreast c d)
    (h' : Abreast r s) (hd : d.Reaches s) :
    r.distance < c.distance ↔ s.distance < d.distance := by
  obtain ⟨passed, hpassed⟩ := hd.rest_suffix
  have hnil : (spell passed : List ε).length = 0 ↔ passed.length = 0 := by
    rw [List.length_eq_zero_iff, List.length_eq_zero_iff]
    exact spell_eq_nil_iff
  rw [h.within.distance_eq, h'.within.distance_eq, h.within_text.distance_eq,
    h'.within_text.distance_eq, h.rest_eq, h'.rest_eq, ← hpassed, spell_append,
    List.length_append, List.length_append]
  omega

/-- Nothing is left in both alphabets or in neither. -/
theorem Abreast.atEnd_eq {c : Cursor ε} {d : Cursor CodePoint} (h : Abreast c d) :
    c.atEnd = d.atEnd := by
  rw [Bool.eq_iff_iff, Cursor.atEnd_iff, Cursor.atEnd_iff, h.rest_eq]
  exact spell_eq_nil_iff

/-! ## Outcomes that are alike -/

/-- **Outcomes that are alike**: of the same kind, with related values and the same
text ahead, and with fatal reasons that are both of interest or both not. -/
inductive Alike (special : Reason → Prop) (R : α → β → Prop) :
    Outcome ε α → Outcome CodePoint β → Prop
  /-- Both match. -/
  | matched {v : α} {w : β} {c : Cursor ε} {d : Cursor CodePoint} (hvalue : R v w)
      (hplace : Abreast c d) : Alike special R (.matched v c) (.matched w d)
  /-- Both reject. -/
  | rejected (reason reason' : Reason) : Alike special R (.rejected reason) (.rejected reason')
  /-- Both are fatal. -/
  | fatal {reason reason' : Reason} (h : special reason ↔ special reason') :
    Alike special R (.fatal reason) (.fatal reason')

variable {special : Reason → Prop} {R : α → β → Prop} {S : γ → δ → Prop}

namespace Outcome

omit [Element ε] [Spelling ε] in
theorem of_verdict_matched {o : Outcome ε α} {value : α} {rest : List ε}
    (h : o.verdict = .matched value rest) :
    ∃ remainder, o = .matched value remainder ∧ remainder.rest = rest := by
  cases o with
  | matched found remainder =>
    cases h
    exact ⟨remainder, rfl, rfl⟩
  | _ => cases h

omit [Element ε] [Spelling ε] in
theorem of_verdict_rejected {o : Outcome ε α} (h : o.verdict = .rejected) :
    ∃ reason, o = .rejected reason := by
  cases o with
  | rejected reason => exact ⟨reason, rfl⟩
  | _ => cases h

omit [Element ε] [Spelling ε] in
theorem of_verdict_fatal {o : Outcome ε α} (h : o.verdict = .fatal) :
    ∃ reason, o = .fatal reason := by
  cases o with
  | fatal reason => exact ⟨reason, rfl⟩
  | _ => cases h

end Outcome

namespace Repetition

/-- **Loops of steps that are alike are alike**, by induction on what is left: the
next round starts where both of this one stopped, and neither loop goes on without
the other. -/
theorem alike_collect {step : Cursor ε → Outcome ε α} {step' : Parser CodePoint β}
    (hrem : ∀ d, d.Within → (step' d).Remains d)
    (hstep : ∀ c d, Abreast c d → Alike special R (step c) (step' d)) (vs : List α)
    (ws : List β) {c : Cursor ε} {d : Cursor CodePoint} (h : Abreast c d) :
    Alike special (fun _ _ => True) (collect step vs c) (collect step' ws d) := by
  induction hn : c.distance using Nat.strongRecOn generalizing vs ws c d with
  | _ n ih =>
    have hround := hstep c d h
    rw [collect.eq_1 step, collect.eq_1 step']
    generalize step c = round at hround ⊢
    generalize hrun : step' d = round' at hround ⊢
    cases hround with
    | @matched v w past past' _ hplace =>
      have hiff := h.distance_lt_iff hplace ((hrem d h.within_text).reaches hrun)
      by_cases hlt : past.distance < c.distance
      · simp only [if_pos hlt, if_pos (hiff.mp hlt)]
        exact ih past.distance (by omega) (v :: vs) (w :: ws) hplace rfl
      · simp only [if_neg hlt, if_neg (mt hiff.mpr hlt)]
        exact .matched trivial h
    | rejected => exact .matched trivial h
    | fatal hspecial => exact .fatal hspecial

/-- The same for two steps by turns. -/
theorem alike_collectSeparated {separator : Cursor ε → Outcome ε σ}
    {separator' : Parser CodePoint τ} {item : Cursor ε → Outcome ε α}
    {item' : Parser CodePoint β} {Q : σ → τ → Prop}
    (hremSep : ∀ d, d.Within → (separator' d).Remains d)
    (hremItem : ∀ d, d.Within → (item' d).Remains d)
    (hsep : ∀ c d, Abreast c d → Alike special Q (separator c) (separator' d))
    (hitem : ∀ c d, Abreast c d → Alike special R (item c) (item' d)) (vs : List α)
    (ws : List β) {c after : Cursor ε} {d after' : Cursor CodePoint} (h : Abreast c d)
    (hafter : Abreast after after') :
    Alike special (fun _ _ => True) (collectSeparated separator item vs c after)
      (collectSeparated separator' item' ws d after') := by
  induction hn : c.distance using Nat.strongRecOn generalizing vs ws c d after after' with
  | _ n ih =>
    have hround := hitem c d h
    rw [collectSeparated.eq_1 separator, collectSeparated.eq_1 separator']
    generalize item c = round at hround ⊢
    generalize hrun : item' d = round' at hround ⊢
    cases hround with
    | @matched v w stop stop' _ hstop =>
      have hreach := (hremItem d h.within_text).reaches hrun
      have hmark := hsep stop stop' hstop
      dsimp only
      generalize separator stop = mark at hmark ⊢
      generalize hrun' : separator' stop' = mark' at hmark ⊢
      cases hmark with
      | @matched _ _ past past' _ hpast =>
        have hreach' := (hremSep stop' hstop.within_text).reaches hrun'
        -- what the separator consumes is asked for, and what the whole round does
        have hiff : past.distance < stop.distance ∧ past.distance < c.distance ↔
            past'.distance < stop'.distance ∧ past'.distance < d.distance :=
          and_congr (hstop.distance_lt_iff hpast hreach')
            (h.distance_lt_iff hpast (hreach.trans hreach'))
        by_cases hlt : past.distance < stop.distance ∧ past.distance < c.distance
        · simp only [if_pos hlt, if_pos (hiff.mp hlt)]
          exact ih past.distance (by omega) (v :: vs) (w :: ws) hpast hstop rfl
        · simp only [if_neg hlt, if_neg (mt hiff.mpr hlt)]
          exact .matched trivial hstop
      | rejected => exact .matched trivial hstop
      | fatal hspecial => exact .fatal hspecial
    | rejected => exact .matched trivial hafter
    | fatal hspecial => exact .fatal hspecial

end Repetition

namespace Grammar

/-- **Grammars that agree**: at places with the same text ahead, their runs are
alike. -/
def Agrees (special : Reason → Prop) (R : α → β → Prop) (g : Grammar ε α)
    (g' : Grammar CodePoint β) : Prop :=
  ∀ ⦃c : Cursor ε⦄ ⦃d : Cursor CodePoint⦄, Abreast c d → Alike special R (g.run c) (g'.run d)

section Verdicts

variable {g : Grammar ε α} {g' : Grammar CodePoint β} {c : Cursor ε} {d : Cursor CodePoint}

/-- Matches of related values that leave the same text are alike. -/
theorem alike_of_matched (h : Abreast c d) {v : α} {w : β} {rest : Text}
    (hleft : g.verdict true (spell d.rest) = .matched v (spell rest))
    (hright : g'.verdict true d.rest = .matched w rest) (hvalue : R v w) :
    Alike special R (g.run c) (g'.run d) := by
  have hc := verdict_run g h.within
  have hd := verdict_run g' h.within_text
  rw [h.final, h.rest_eq, hleft] at hc
  rw [h.final_text, hright] at hd
  obtain ⟨past, hrun, hrest⟩ := Outcome.of_verdict_matched hc
  obtain ⟨past', hrun', rfl⟩ := Outcome.of_verdict_matched hd
  have hreach := (remains_run g h.within).reaches hrun
  have hreach' := (remains_run g' h.within_text).reaches hrun'
  rw [hrun, hrun']
  exact .matched hvalue
    { within := hreach.within
      within_text := hreach'.within
      final := hreach.final_eq.trans h.final
      final_text := hreach'.final_eq.trans h.final_text
      rest_eq := hrest
      readable := fun ch hch => h.readable ch (hreach'.rest_suffix.mem hch) }

theorem alike_of_rejected (h : Abreast c d)
    (hleft : g.verdict true (spell d.rest) = .rejected)
    (hright : g'.verdict true d.rest = .rejected) : Alike special R (g.run c) (g'.run d) := by
  have hc := verdict_run g h.within
  have hd := verdict_run g' h.within_text
  rw [h.final, h.rest_eq, hleft] at hc
  rw [h.final_text, hright] at hd
  obtain ⟨reason, hrun⟩ := Outcome.of_verdict_rejected hc
  obtain ⟨reason', hrun'⟩ := Outcome.of_verdict_rejected hd
  rw [hrun, hrun']
  exact .rejected reason reason'

/-- Fatal verdicts are alike if no reason is of interest. -/
theorem alike_of_fatal (h : Abreast c d) (hleft : g.verdict true (spell d.rest) = .fatal)
    (hright : g'.verdict true d.rest = .fatal)
    (hreason : ∀ reason, g.run c = .fatal reason → ¬special reason)
    (hreason' : ∀ reason, g'.run d = .fatal reason → ¬special reason) :
    Alike special R (g.run c) (g'.run d) := by
  have hc := verdict_run g h.within
  have hd := verdict_run g' h.within_text
  rw [h.final, h.rest_eq, hleft] at hc
  rw [h.final_text, hright] at hd
  obtain ⟨reason, hrun⟩ := Outcome.of_verdict_fatal hc
  obtain ⟨reason', hrun'⟩ := Outcome.of_verdict_fatal hd
  rw [hrun, hrun']
  exact .fatal (iff_of_false (hreason _ hrun) (hreason' _ hrun'))

/-- **Grammars that never fail for good agree if their verdicts do**, on every text
that can be read. -/
theorem agrees_of_verdicts
    (h : ∀ t : Text, (∀ ch ∈ t, Spelling.Readable ε ch) →
      g.verdict true (spell t) = .rejected ∧ g'.verdict true t = .rejected ∨
        ∃ v w rest, g.verdict true (spell t) = .matched v (spell rest) ∧
          g'.verdict true t = .matched w rest ∧ R v w) :
    Agrees special R g g' := by
  intro c d hcd
  rcases h d.rest hcd.readable with ⟨hleft, hright⟩ | ⟨v, w, rest, hleft, hright, hvalue⟩
  · exact alike_of_rejected hcd hleft hright
  · exact alike_of_matched hcd hleft hright hvalue

end Verdicts

/-! ## Leaves that ask for ASCII -/

/-- The same number on both sides, one that passes a test. -/
def Same (f : Nat → Bool) (e : ε) (ch : CodePoint) : Prop :=
  Element.code e = ch.val ∧ f ch.val = true

omit [Spelling ε] in
theorem Same.mono {f g : Nat → Bool} (hfg : ∀ n, f n = true → g n = true) {e : ε}
    {ch : CodePoint} (h : Same f e ch) : Same g e ch :=
  ⟨h.1, hfg _ h.2⟩

/-- A character and the first element of its spelling pass a test for ASCII alike. -/
theorem spell_cons_test {f : Nat → Bool} (hf : ∀ n, 0x80 ≤ n → f n = false) (ch : CodePoint)
    (t : Text) : ∃ (e : ε) (s : List ε), spell (ch :: t) = e :: s ∧
      f (Element.code e) = f ch.val ∧ (f ch.val = true → s = spell t ∧ Same f e ch) := by
  by_cases hch : ch.val < 0x80
  · obtain ⟨e, he, hcode⟩ := Spelling.spellOne_of_lt (ε := ε) ch hch
    exact ⟨e, spell t, by rw [spell_cons, he, List.singleton_append], by rw [hcode],
      fun h => ⟨rfl, hcode, h⟩⟩
  · obtain ⟨e, s, hes, hle⟩ := spell_cons_of_le (ε := ε) (c := ch) (by omega) t
    have hfalse := hf ch.val (by omega)
    exact ⟨e, s, hes, by rw [hf _ hle, hfalse], fun h => absurd h (by simp [hfalse])⟩

namespace Agrees

theorem satisfy {f : Nat → Bool} (hf : ∀ n, 0x80 ≤ n → f n = false) (what what' : Expectation) :
    Agrees special (Same f) (satisfy (fun e : ε => f (Element.code e)) what)
      (satisfy (fun ch => f (Element.code ch)) what') := by
  refine agrees_of_verdicts fun t _ => ?_
  rw [verdict_satisfy, verdict_satisfy]
  cases t with
  | nil => exact .inl ⟨rfl, rfl⟩
  | cons ch t =>
    obtain ⟨e, s, hes, htest, hsame⟩ := spell_cons_test (ε := ε) hf ch t
    rw [hes]
    dsimp only
    rw [htest]
    cases hch : f ch.val with
    | true =>
      obtain ⟨rfl, hboth⟩ := hsame hch
      exact .inr ⟨e, ch, t, rfl, rfl, hboth⟩
    | false => exact .inl ⟨rfl, rfl⟩

theorem ascii {ch : Char} (h : ch.toNat < 0x80) :
    Agrees special (Same fun n => n == ch.toNat) (ascii ch : Grammar ε ε) (ascii ch) := by
  have htest : ∀ {ι : Type} [Element ι] [LawfulElement ι],
      (fun e : ι => [e] == [Element.ofAscii ch]) = fun e => Element.code e == ch.toNat := by
    intro ι _ _
    funext e
    rw [Bool.eq_iff_iff, beq_iff_eq, beq_iff_eq, List.singleton_inj, Element.eq_ofAscii_iff h]
  unfold Grammar.ascii char
  rw [htest, htest]
  exact satisfy (fun n hn => beq_false_of_ne (by omega)) _ _

theorem asciiOf {chars : List Char} (h : Element.areAscii chars = true) :
    Agrees special (Same (Charset.isOneOf chars)) (asciiOf chars : Grammar ε ε)
      (asciiOf chars) := by
  have htest : ∀ {ι : Type} [Element ι] [LawfulElement ι],
      (fun e : ι => (Element.piece chars).contains e) =
        fun e => Charset.isOneOf chars (Element.code e) := by
    intro ι _ _
    funext e
    rw [Bool.eq_iff_iff, List.contains_iff_mem, Element.mem_piece_iff h]
  unfold Grammar.asciiOf charOf
  rw [htest, htest]
  exact satisfy (fun n hn => Element.isOneOf_of_le h hn) _ _

theorem token {chars : List Char} (h : Element.areAscii chars = true) :
    Agrees special (fun _ _ => True) (token chars : Grammar ε (List ε)) (token chars) := by
  refine agrees_of_verdicts fun t _ => ?_
  unfold Grammar.token
  by_cases hpre : Text.ofChars chars <+: t
  · obtain ⟨rest, rfl⟩ := hpre
    refine .inr ⟨_, _, rest, matched_literal.mpr ⟨rfl, ?_⟩, matched_literal.mpr ⟨rfl, rfl⟩, trivial⟩
    rw [spell_append, spell_ofChars h]
  · -- the piece is there in one alphabet only if it is in the other
    refine .inl ⟨?_, ?_⟩
    · refine (MatchesOrRejects.literal _ _).resolve_right ?_
      rintro ⟨_, rest, hm⟩
      obtain ⟨_, hs⟩ := matched_literal.mp hm
      rw [← spell_ofChars h] at hs
      obtain ⟨t', rfl, _⟩ := prefix_of_spell hs
      exact hpre (List.prefix_append _ _)
    · refine (MatchesOrRejects.literal _ _).resolve_right ?_
      rintro ⟨_, rest, hm⟩
      obtain ⟨_, rfl⟩ := matched_literal.mp hm
      exact hpre (List.prefix_append _ _)

/-- A run of ASCII characters and its spelling are the same element by element. -/
theorem same_spell {f : Nat → Bool} (hf : ∀ n, 0x80 ≤ n → f n = false) {run : Text}
    (h : ∀ ch ∈ run, f ch.val = true) : List.Forall₂ (Same f) (spell run : List ε) run := by
  induction run with
  | nil => exact .nil
  | cons ch run ih =>
    obtain ⟨hch, hrun⟩ := List.forall_mem_cons.mp h
    obtain ⟨e, s, hes, _, hsame⟩ := spell_cons_test (ε := ε) hf ch run
    obtain ⟨rfl, hboth⟩ := hsame hch
    rw [hes]
    exact .cons hboth (ih hrun)

/-- A run of elements that pass a test for ASCII, as long as it gets. -/
theorem verdict_run {f : Nat → Bool} (hf : ∀ n, 0x80 ≤ n → f n = false) (t : Text) :
    ∃ v w rest,
      (Grammar.takeWhile fun e : ε => f (Element.code e)).verdict true (spell t) =
          .matched v (spell rest) ∧
        (Grammar.takeWhile fun ch : CodePoint => f (Element.code ch)).verdict true t =
          .matched w rest ∧ List.Forall₂ (Same f) v w := by
  obtain ⟨htake, hdrop⟩ := takeWhile_spell (ε := ε) hf t
  refine ⟨_, _, t.dropWhile fun ch => f ch.val, ?_, ?_, same_spell hf
    (List.all_eq_true.mp (List.all_takeWhile (p := fun ch : CodePoint => f ch.val) (l := t)))⟩
  · rw [verdict_takeWhile, if_neg (by simp), htake, hdrop]
  · rw [verdict_takeWhile, if_neg (by simp)]
    rfl

theorem takeWhile {f : Nat → Bool} (hf : ∀ n, 0x80 ≤ n → f n = false) :
    Agrees special (List.Forall₂ (Same f)) (takeWhile fun e : ε => f (Element.code e))
      (takeWhile fun ch => f (Element.code ch)) :=
  agrees_of_verdicts fun t _ => .inr (verdict_run hf t)

theorem takeSomeWhile {f : Nat → Bool} (hf : ∀ n, 0x80 ≤ n → f n = false) :
    Agrees special (List.Forall₂ (Same f)) (takeSomeWhile fun e : ε => f (Element.code e))
      (takeSomeWhile fun ch => f (Element.code ch)) := by
  refine agrees_of_verdicts fun t _ => ?_
  rw [verdict_takeSomeWhile, verdict_takeSomeWhile]
  cases t with
  | nil => exact .inl ⟨rfl, rfl⟩
  | cons ch t =>
    have hmatched := verdict_run (ε := ε) hf (ch :: t)
    obtain ⟨e, s, hes, htest, _⟩ := spell_cons_test (ε := ε) hf ch t
    rw [hes] at hmatched ⊢
    dsimp only
    rw [htest]
    cases hch : f ch.val with
    | true => exact .inr hmatched
    | false => exact .inl ⟨rfl, rfl⟩

/-! ## What is made of parts -/

variable {p : Grammar ε α} {p' : Grammar CodePoint β}

theorem mono {Q : α → β → Prop} (h : Agrees special R p p') (hRQ : ∀ v w, R v w → Q v w) :
    Agrees special Q p p' := by
  intro c d hcd
  have hrun := h hcd
  generalize p.run c = o at hrun ⊢
  generalize p'.run d = o' at hrun ⊢
  cases hrun with
  | matched hvalue hplace => exact .matched (hRQ _ _ hvalue) hplace
  | rejected reason reason' => exact .rejected reason reason'
  | fatal hspecial => exact .fatal hspecial

theorem map [Vacancy γ] [Vacancy δ] (h : Agrees special R p p') {f : α → γ}
    {f' : β → δ} (hf : ∀ v w, R v w → S (f v) (f' w)) : Agrees special S (map f p) (map f' p') := by
  intro c d hcd
  have hrun := h hcd
  simp only [run]
  generalize p.run c = o at hrun ⊢
  generalize p'.run d = o' at hrun ⊢
  cases hrun with
  | matched hvalue hplace => exact .matched (hf _ _ hvalue) hplace
  | rejected reason reason' => exact .rejected reason reason'
  | fatal hspecial => exact .fatal hspecial

/-- Related values are accepted together or refused together, and the refusals are
both of interest or both not. -/
theorem judge (h : Agrees special R p p') (refusal : Refusal)
    {accept : α → Except (Nat → Reason) γ} {accept' : β → Except (Nat → Reason) δ}
    (haccept : ∀ v w, R v w →
      (∃ a b, accept v = .ok a ∧ accept' w = .ok b ∧ S a b) ∨
        ∃ reason reason', accept v = .error reason ∧ accept' w = .error reason' ∧
          ∀ pos pos', special (reason pos) ↔ special (reason' pos')) :
    Agrees special S (judge refusal accept p) (judge refusal accept' p') := by
  intro c d hcd
  have hrun := h hcd
  simp only [run]
  generalize p.run c = o at hrun ⊢
  generalize p'.run d = o' at hrun ⊢
  cases hrun with
  | matched hvalue hplace =>
    rcases haccept _ _ hvalue with ⟨a, b, ha, hb, hS⟩ | ⟨reason, reason', hr, hr', hspecial⟩
    · simp only [ha, hb]
      exact .matched hS hplace
    · simp only [hr, hr']
      cases refusal with
      | rejected => exact .rejected _ _
      | fatal => exact .fatal (hspecial _ _)
  | rejected reason reason' => exact .rejected reason reason'
  | fatal hspecial => exact .fatal hspecial

theorem bind (h : Agrees special R p p') {next : α → Grammar ε γ}
    {next' : β → Grammar CodePoint δ} (hnext : ∀ v w, R v w → Agrees special S (next v) (next' w)) :
    Agrees special S (bind p next) (bind p' next') := by
  intro c d hcd
  have hrun := h hcd
  simp only [run]
  generalize p.run c = o at hrun ⊢
  generalize p'.run d = o' at hrun ⊢
  cases hrun with
  | @matched v w past past' hvalue hplace =>
    have hmore := hnext v w hvalue hplace
    dsimp only
    generalize (next v).run past = o at hmore ⊢
    generalize (next' w).run past' = o' at hmore ⊢
    cases hmore with
    | matched hvalue hplace => exact .matched hvalue hplace
    | rejected reason reason' => exact .rejected reason reason'
    | fatal hspecial => exact .fatal hspecial
  | rejected reason reason' => exact .rejected reason reason'
  | fatal hspecial => exact .fatal hspecial

theorem between [Vacancy σ] [Vacancy τ] (h : Agrees special R p p') {q : Grammar ε σ}
    {q' : Grammar CodePoint τ} {Q : σ → τ → Prop} (hq : Agrees special Q q q') {r : Grammar ε γ}
    {r' : Grammar CodePoint δ}
    (hr : Agrees special S r r') : Agrees special Q (between p q r) (between p' q' r') :=
  h.bind fun _ _ _ => hq.bind fun _ _ hvalue => hr.map fun _ _ _ => hvalue

theorem optional (h : Agrees special R p p') :
    Agrees special (Option.Rel R) (optional p) (optional p') := by
  intro c d hcd
  have hrun := h hcd
  simp only [run]
  generalize p.run c = o at hrun ⊢
  generalize p'.run d = o' at hrun ⊢
  cases hrun with
  | matched hvalue hplace => exact .matched (.some hvalue) hplace
  | rejected reason reason' => exact .matched .none hcd
  | fatal hspecial => exact .fatal hspecial

theorem noAlternative :
    Agrees special R (noAlternative : Grammar ε α) (noAlternative : Grammar CodePoint β) :=
  fun _ _ _ => .rejected _ _

theorem alt (h : Agrees special R p p') {q : Grammar ε α} {q' : Grammar CodePoint β}
    (hq : Agrees special R q q') : Agrees special R (alt p q) (alt p' q') := by
  intro c d hcd
  have hrun := h hcd
  simp only [run, Choice.alt]
  generalize p.run c = o at hrun ⊢
  generalize p'.run d = o' at hrun ⊢
  cases hrun with
  | matched hvalue hplace => exact .matched hvalue hplace
  | rejected reason reason' => exact hq hcd
  | fatal hspecial => exact .fatal hspecial

theorem either [Vacancy α] [Vacancy β] (h : Agrees special R p p') {q : Grammar ε α}
    {q' : Grammar CodePoint β} (hq : Agrees special R q q') :
    Agrees special R (either p q) (either p' q') := by
  intro c d hcd
  have hrun := h hcd
  simp only [run, Choice.either]
  generalize p.run c = o at hrun ⊢
  generalize p'.run d = o' at hrun ⊢
  cases hrun with
  | matched hvalue hplace => exact .matched hvalue hplace
  | rejected reason reason' => exact hq hcd
  | fatal hspecial => exact .fatal hspecial

theorem repeatAny (h : Agrees special R p p') :
    Agrees special (fun _ _ => True) (repeatAny p) (repeatAny p') := fun _ _ hcd =>
  Repetition.alike_collect (fun _ hd => remains_run p' hd) (fun _ _ hcd => h hcd) [] [] hcd

theorem separatedItems {sep : Grammar ε σ} {sep' : Grammar CodePoint τ} {Q : σ → τ → Prop}
    (hsep : Agrees special Q sep sep') (h : Agrees special R p p') :
    Agrees special (fun _ _ => True) (separatedItems sep p) (separatedItems sep' p') :=
  fun _ _ hcd => Repetition.alike_collectSeparated (fun _ hd => remains_run sep' hd)
    (fun _ hd => remains_run p' hd) (fun _ _ hcd => hsep hcd) (fun _ _ hcd => h hcd) [] [] hcd hcd

end Agrees

end Grammar

end StreamGrammar
