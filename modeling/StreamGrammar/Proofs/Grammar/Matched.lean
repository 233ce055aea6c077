import StreamGrammar.Proofs.Element
import StreamGrammar.Proofs.Grammar.Verdict

/-!
# What a match consists of

A match says what there was: the elements that were recognised and, for what
takes all it can get, that there were no more of them. For every construct these
facts come together in an equivalence – `matched_takeWhile`, `matched_bind` and
so on – that is used both ways, to take a match apart and to find one. Choices
have two lemmas instead, because only one direction asks why the first
alternative was passed over.

A loop matches by rounds (`Verdict.Rounds`), each of which leaves less than there
was; a grammar that `Consumes` can be repeated.
-/

namespace StreamGrammar

variable {ε α β σ : Type}

namespace Verdict

/-! ## Rules that lead to a match -/

theorem map_eq_matched [Vacancy β] {f : α → β} {v : Verdict ε α} {image : β} {rest : List ε} :
    v.map f = .matched image rest ↔ ∃ value, v = .matched value rest ∧ f value = image := by
  cases v with
  | matched value stop =>
    simp only [map, matched.injEq]
    constructor
    · rintro ⟨rfl, rfl⟩
      exact ⟨value, ⟨rfl, rfl⟩, rfl⟩
    · rintro ⟨_, ⟨rfl, rfl⟩, rfl⟩
      exact ⟨rfl, rfl⟩
  | _ => simp [map]

theorem reanchor_eq_matched {start rest : List ε} {v : Verdict ε α} {value : α} :
    v.reanchor start = .matched value rest ↔ v = .matched value rest := by
  cases v with
  | truncated best stop => cases best <;> simp [reanchor]
  | _ => simp [reanchor]

/-- One after another there is a match only of both. -/
theorem andThen_eq_matched {start rest : List ε} {next : α → List ε → Verdict ε β}
    {v : Verdict ε α} {result : β} :
    v.andThen start next = .matched result rest ↔
      ∃ value middle, v = .matched value middle ∧ next value middle = .matched result rest := by
  cases v with
  | matched value middle =>
    simp only [andThen, matched.injEq]
    constructor
    · intro h
      refine ⟨value, middle, ⟨rfl, rfl⟩, ?_⟩
      split at h
      · cases h
      · exact h
    · rintro ⟨_, _, ⟨rfl, rfl⟩, h⟩
      rw [h]
  | _ => simp [andThen]

end Verdict

namespace Grammar

variable [Element ε]

/-! ## Matchers -/

/-- **A run that passes a test ends here**: at an element that does not pass, or
at the end of complete input. -/
def Halts (test : ε → Bool) (final : Bool) (rest : List ε) : Prop :=
  (rest = [] → final = true) ∧ ∀ e ∈ rest.head?, test e = false

omit [Element ε] in
theorem Halts.mono {test test' : ε → Bool} {final : Bool} {rest : List ε}
    (h : Halts test final rest) (himp : ∀ e, test' e = true → test e = true) :
    Halts test' final rest :=
  ⟨h.1, fun e he => Bool.eq_false_iff.mpr fun ht =>
    Bool.eq_false_iff.mp (h.2 e he) (himp e ht)⟩

omit [Element ε] in
theorem halts_cons {test : ε → Bool} {final : Bool} {e : ε} {rest : List ε}
    (h : test e = false) : Halts test final (e :: rest) :=
  ⟨fun hnil => (nomatch hnil), fun _ he => by cases he; exact h⟩

section Matchers

variable {final : Bool} {s run rest : List ε} {test : ε → Bool} {what : Expectation} {e : ε}

omit [Element ε] in
/-- The longest run is known by where it ends. -/
theorem longest_run_iff (test : ε → Bool) (s run rest : List ε) :
    (s.takeWhile test = run ∧ s.dropWhile test = rest) ↔
      s = run ++ rest ∧ (∀ e ∈ run, test e = true) ∧ ∀ e ∈ rest.head?, test e = false := by
  constructor
  · rintro ⟨rfl, rfl⟩
    refine ⟨List.takeWhile_append_dropWhile.symm, ?_, ?_⟩
    · exact fun e he => (List.all_eq_true.mp List.all_takeWhile) e he
    · intro e he
      have h := List.head?_dropWhile_not test s
      rw [Option.mem_def.mp he] at h
      simpa using h
  · rintro ⟨rfl, hrun, hrest⟩
    rw [List.takeWhile_append_of_pos hrun, List.dropWhile_append_of_pos hrun]
    cases rest with
    | nil => simp
    | cons e rest =>
      have he : test e = false := hrest e rfl
      simp [he]

theorem matched_satisfy :
    (satisfy test what).verdict final s = .matched e rest ↔ s = e :: rest ∧ test e = true := by
  rw [verdict_satisfy]
  cases s with
  | nil => cases final <;> simp [Verdict.exhausted]
  | cons head tail =>
    simp only [List.cons.injEq]
    by_cases h : test head = true
    · rw [if_pos h, Verdict.matched.injEq]
      exact ⟨fun hm => ⟨hm, hm.1 ▸ h⟩, fun hm => hm.1⟩
    · rw [if_neg h]
      exact ⟨fun hm => (nomatch hm), fun hm => absurd (hm.1.1 ▸ hm.2) h⟩

theorem rejected_satisfy :
    (satisfy test what : Grammar ε ε).verdict final s = .rejected ↔ Halts test final s := by
  rw [verdict_satisfy]
  cases s with
  | nil => cases final <;> simp [Verdict.exhausted, Halts]
  | cons head tail => cases h : test head <;> simp [Halts, h]

theorem matched_literal {expected : List ε} :
    (literal expected).verdict final s = .matched run rest ↔
      run = expected ∧ s = expected ++ rest := by
  rw [verdict_literal]
  by_cases h : expected <+: s
  · obtain ⟨tail, rfl⟩ := h
    simp [eq_comm]
  · rw [if_neg h]
    constructor
    · intro hm
      split at hm <;> cases hm
    · rintro ⟨_, rfl⟩
      exact absurd (List.prefix_append _ _) h

theorem matched_take {count : Nat} :
    (take count).verdict final s = .matched run rest ↔ s = run ++ rest ∧ run.length = count := by
  rw [verdict_take]
  by_cases h : count ≤ s.length
  · rw [if_pos h, Verdict.matched.injEq]
    constructor
    · rintro ⟨rfl, rfl⟩
      exact ⟨(List.take_append_drop count s).symm, List.length_take_of_le h⟩
    · rintro ⟨rfl, rfl⟩
      simp
  · rw [if_neg h]
    constructor
    · intro hm
      split at hm <;> cases hm
    · rintro ⟨rfl, rfl⟩
      simp at h

theorem matched_takeWhile :
    (takeWhile test).verdict final s = .matched run rest ↔
      s = run ++ rest ∧ (∀ e ∈ run, test e = true) ∧ Halts test final rest := by
  have hiff := longest_run_iff test s run rest
  rw [verdict_takeWhile]
  constructor
  · intro hm
    split at hm
    · cases hm
    · rename_i hcut
      cases hm
      obtain ⟨hs, hrun, hrest⟩ := hiff.mp ⟨rfl, rfl⟩
      exact ⟨hs, hrun, fun hnil => by simpa [hnil] using hcut, hrest⟩
  · rintro ⟨hs, hrun, hend, hrest⟩
    obtain ⟨ht, hd⟩ := hiff.mpr ⟨hs, hrun, hrest⟩
    rw [ht, hd, if_neg (fun hcut => by simp [hend hcut.1] at hcut)]

theorem matched_takeSomeWhile :
    (takeSomeWhile test).verdict final s = .matched run rest ↔
      run ≠ [] ∧ s = run ++ rest ∧ (∀ e ∈ run, test e = true) ∧ Halts test final rest := by
  rw [verdict_takeSomeWhile]
  cases s with
  | nil =>
    constructor
    · cases final <;> exact fun hm => nomatch hm
    · rintro ⟨hne, hs, _⟩
      exact absurd (List.append_eq_nil_iff.mp hs.symm).1 hne
  | cons head tail =>
    by_cases h : test head = true
    · -- the run is not empty, since it would halt at an element that passes
      simp only [if_pos h, matched_takeWhile]
      refine ⟨fun hm => ⟨?_, hm⟩, fun hm => hm.2⟩
      rintro rfl
      obtain ⟨hs, _, _, hrest⟩ := hm
      rw [List.nil_append] at hs
      have := hrest head (by rw [← hs]; rfl)
      rw [h] at this
      cases this
    · simp only [if_neg h]
      constructor
      · exact fun hm => nomatch hm
      · rintro ⟨hne, hs, hrun, _⟩
        cases run with
        | nil => exact absurd rfl hne
        | cons first run =>
          cases hs
          exact absurd (hrun head List.mem_cons_self) h

theorem matched_otherThan {elements : List ε} :
    (otherThan elements).verdict final s = .matched run rest ↔
      run ≠ [] ∧ s = run ++ rest ∧ (∀ e ∈ run, e ∉ elements) ∧
        Halts (fun e => !elements.contains e) final rest := by
  have hiff := longest_run_iff (fun e => !elements.contains e) s run rest
  simp only [Bool.not_eq_true', List.contains_eq_mem, decide_eq_false_iff_not] at hiff
  rw [verdict_otherThan]
  simp only [List.contains_eq_mem]
  constructor
  · intro hm
    split at hm
    · cases hm
    · rename_i hcut
      split at hm
      · cases hm
      · rename_i hne
        cases hm
        obtain ⟨hs, hrun, hrest⟩ := hiff.mp ⟨rfl, rfl⟩
        exact ⟨hne, hs, hrun, fun hnil => by simpa [hnil] using hcut, hrest⟩
  · rintro ⟨hne, hs, hrun, hend, hrest⟩
    obtain ⟨ht, hd⟩ := hiff.mpr ⟨hs, hrun, hrest⟩
    rw [ht, hd, if_neg (fun hcut => by simp [hend hcut.1] at hcut), if_neg hne]

theorem matched_ascii {c : Char} :
    (ascii c).verdict final s = .matched e rest ↔
      e = Element.ofAscii c ∧ s = Element.ofAscii c :: rest := by
  rw [ascii, char, matched_satisfy]
  constructor
  · rintro ⟨rfl, htest⟩
    have he : e = Element.ofAscii c := by simpa using htest
    exact ⟨he, by rw [he]⟩
  · rintro ⟨rfl, rfl⟩
    exact ⟨rfl, by simp⟩

/-- A character is not there if an element with another number comes next, or
none at all. -/
theorem rejected_ascii [LawfulElement ε] {c : Char} (hc : c.toNat < 0x80)
    (hend : s = [] → final = true) (hne : ∀ e ∈ s.head?, Element.code e ≠ c.toNat) :
    (ascii c).verdict final s = .rejected := by
  refine rejected_satisfy.mpr ⟨hend, fun e he => ?_⟩
  have hcode := mt (Element.eq_ofAscii_iff hc).mp (hne e he)
  simpa using hcode

theorem rejected_ascii_cons [LawfulElement ε] {c : Char} (hc : c.toNat < 0x80)
    (hne : Element.code e ≠ c.toNat) : (ascii c).verdict final (e :: s) = .rejected :=
  rejected_ascii hc (fun hnil => nomatch hnil) fun _ he => by cases he; exact hne

theorem matched_asciiOf {chars : List Char} :
    (asciiOf chars).verdict final s = .matched e rest ↔
      e ∈ (Element.piece chars : List ε) ∧ s = e :: rest := by
  rw [asciiOf, charOf, matched_satisfy]
  constructor
  · rintro ⟨rfl, htest⟩
    exact ⟨by simpa using htest, rfl⟩
  · rintro ⟨hmem, rfl⟩
    exact ⟨rfl, by simpa using hmem⟩

/-- None of some characters is there if an element with no number of theirs comes
next, or none at all. -/
theorem rejected_asciiOf [LawfulElement ε] {chars : List Char} (hc : Element.areAscii chars = true)
    (hend : s = [] → final = true)
    (hne : ∀ e ∈ s.head?, Charset.isOneOf chars (Element.code e) = false) :
    (asciiOf chars).verdict final s = .rejected := by
  refine rejected_satisfy.mpr ⟨hend, fun e he => ?_⟩
  have hmem := mt (Element.mem_piece_iff hc).mp (Bool.eq_false_iff.mp (hne e he))
  simpa using hmem

end Matchers

/-! ## Combinators -/

section Parts

variable {p : Grammar ε α} {final : Bool} {s rest : List ε} {value : α}

theorem matched_map [Vacancy β] {f : α → β} {image : β} :
    (map f p).verdict final s = .matched image rest ↔
      ∃ value, p.verdict final s = .matched value rest ∧ f value = image := by
  simp only [verdict_map, Verdict.map_eq_matched, Verdict.reanchor_eq_matched]

theorem matched_judge {refusal : Refusal} {accept : α → Except (Nat → Reason) β}
    {accepted : β} :
    (judge refusal accept p).verdict final s = .matched accepted rest ↔
      ∃ value, p.verdict final s = .matched value rest ∧ accept value = .ok accepted := by
  rw [verdict_judge]
  cases p.verdict final s with
  | matched value stop =>
    simp only [Verdict.judge, Verdict.matched.injEq]
    cases h : accept value with
    | ok image =>
      simp only [Verdict.matched.injEq]
      constructor
      · rintro ⟨rfl, rfl⟩
        exact ⟨value, ⟨rfl, rfl⟩, h⟩
      · rintro ⟨_, ⟨rfl, rfl⟩, h'⟩
        rw [h] at h'
        exact ⟨by cases h'; rfl, rfl⟩
    | error reason =>
      constructor
      · intro hm
        cases refusal <;> cases hm
      · rintro ⟨_, ⟨rfl, rfl⟩, h'⟩
        rw [h] at h'
        cases h'
  | _ => simp [Verdict.judge]

omit [Element ε] in
theorem mapError_eq_ok {ρ ρ' : Type} {f : ρ → ρ'} {r : Except ρ β} {b : β} :
    r.mapError f = .ok b ↔ r = .ok b := by
  cases r with
  | error reason => constructor <;> intro h <;> cases h
  | ok value => constructor <;> intro h <;> cases h <;> rfl

theorem matched_convertOrHalt {c : Conversion α β} {image : β} :
    (convertOrHalt c p).verdict final s = .matched image rest ↔
      ∃ value, p.verdict final s = .matched value rest ∧ c.convert value = .ok image := by
  simp only [convertOrHalt, matched_judge, Conversion.verdict, mapError_eq_ok]

/-- A match that cannot be converted is fatal. -/
theorem convertOrHalt_of_error {c : Conversion α β} {fault : Fault}
    (h : p.verdict final s = .matched value rest) (hconv : c.convert value = .error fault) :
    (convertOrHalt c p).verdict final s = .fatal := by
  rw [convertOrHalt, verdict_judge, h, Verdict.judge, Conversion.verdict, hconv]
  rfl

theorem matched_convert {c : Conversion α β} {image : β} :
    (convert c p).verdict final s = .matched image rest ↔
      ∃ value, p.verdict final s = .matched value rest ∧ c.convert value = .ok image := by
  simp only [convert, matched_judge, Conversion.verdict, mapError_eq_ok]

theorem matched_demand {p : Grammar ε (Except Text α)} :
    (demand p).verdict final s = .matched value rest ↔
      p.verdict final s = .matched (.ok value) rest := by
  simp only [demand, matched_judge, mapError_eq_ok]
  exact ⟨fun ⟨_, h, hv⟩ => hv ▸ h, fun h => ⟨_, h, rfl⟩⟩

theorem matched_bind {next : α → Grammar ε β} {result : β} :
    (bind p next).verdict final s = .matched result rest ↔
      ∃ value middle, p.verdict final s = .matched value middle ∧
        (next value).verdict final middle = .matched result rest := by
  rw [verdict_bind, Verdict.andThen_eq_matched]

theorem matched_preceded {q : Grammar ε β} {result : β} :
    (preceded p q).verdict final s = .matched result rest ↔
      ∃ value middle, p.verdict final s = .matched value middle ∧
        q.verdict final middle = .matched result rest :=
  matched_bind

theorem matched_terminated [Vacancy α] {q : Grammar ε β} :
    (terminated p q).verdict final s = .matched value rest ↔
      ∃ middle mark, p.verdict final s = .matched value middle ∧
        q.verdict final middle = .matched mark rest := by
  simp only [terminated, matched_bind, matched_map]
  constructor
  · rintro ⟨_, middle, h, mark, hmark, rfl⟩
    exact ⟨middle, mark, h, hmark⟩
  · rintro ⟨middle, mark, h, hmark⟩
    exact ⟨value, middle, h, mark, hmark, rfl⟩

theorem matched_optional {value : Option α} :
    (optional p).verdict final s = .matched value rest ↔
      (p.verdict final s = .rejected ∧ value = none ∧ rest = s) ∨
        ∃ a, p.verdict final s = .matched a rest ∧ value = some a := by
  rw [verdict_optional]
  cases p.verdict final s with
  | matched a stop =>
    simp only [Verdict.optional, Verdict.matched.injEq, reduceCtorEq, false_and, false_or]
    exact ⟨fun h => ⟨a, ⟨rfl, h.2⟩, h.1.symm⟩, fun ⟨_, ⟨h, h'⟩, hv⟩ => ⟨h ▸ hv.symm, h'⟩⟩
  | rejected => simp [Verdict.optional, eq_comm]
  | _ => simp [Verdict.optional]

theorem matched_halt {name : Text} :
    (halt name p).verdict final s = .matched value rest ↔
      p.verdict final s = .matched value rest := by
  rw [verdict_halt]
  cases p.verdict final s <;> simp [Verdict.halt]

theorem matched_repeatSome {values : List α} :
    (repeatSome p).verdict final s = .matched values rest ↔
      values ≠ [] ∧ (repeatAny p).verdict final s = .matched values rest := by
  rw [verdict_repeatSome]
  cases (repeatAny p).verdict final s with
  | matched found stop =>
    cases found with
    | nil =>
      simp only [Verdict.atLeastOne, Verdict.matched.injEq]
      exact ⟨nofun, fun ⟨hne, hnil, _⟩ => absurd hnil.symm hne⟩
    | cons value found =>
      simp only [Verdict.atLeastOne, Verdict.matched.injEq]
      exact ⟨fun h => ⟨h.1 ▸ List.cons_ne_nil _ _, h⟩, And.right⟩
  | _ => simp [Verdict.atLeastOne]

/-- What a choice matches, one of its alternatives matches. -/
theorem matched_of_alt {q : Grammar ε α}
    (h : (alt p q).verdict final s = .matched value rest) :
    p.verdict final s = .matched value rest ∨ q.verdict final s = .matched value rest := by
  rw [verdict_alt] at h
  cases hp : p.verdict final s with
  | matched a stop => rw [hp] at h; exact .inl h
  | rejected => rw [hp] at h; exact .inr h
  | truncated best stop =>
    rw [hp] at h
    cases hq : q.verdict final s with
    | matched a stop => rw [hq] at h; exact .inr h
    | _ => rw [hq] at h; cases h
  | _ => rw [hp] at h; cases h

theorem matched_of_either [Vacancy α] {q : Grammar ε α}
    (h : (either p q).verdict final s = .matched value rest) :
    p.verdict final s = .matched value rest ∨ q.verdict final s = .matched value rest := by
  rw [verdict_either] at h
  cases hp : p.verdict final s with
  | matched a stop => rw [hp] at h; exact .inl h
  | rejected => rw [hp] at h; exact .inr h
  | truncated best stop =>
    rw [hp] at h
    cases best with
    | some best => cases h
    | none =>
      cases hq : q.verdict final s with
      | matched a stop => rw [hq] at h; cases h
      | _ => rw [hq] at h; cases h
  | _ => rw [hp] at h; cases h

/-- A choice matches what its first alternative matches. -/
theorem alt_of_matched (q : Grammar ε α) (h : p.verdict final s = .matched value rest) :
    (alt p q).verdict final s = .matched value rest := by
  rw [verdict_alt, h]
  rfl

/-- Where its first alternative rejects, a choice is the second. -/
theorem alt_of_rejected (q : Grammar ε α) (h : p.verdict final s = .rejected) :
    (alt p q).verdict final s = q.verdict final s := by
  rw [verdict_alt, h]
  rfl

theorem either_of_matched [Vacancy α] (q : Grammar ε α)
    (h : p.verdict final s = .matched value rest) :
    (either p q).verdict final s = .matched value rest := by
  rw [verdict_either, h]
  rfl

theorem either_of_rejected [Vacancy α] (q : Grammar ε α) (h : p.verdict final s = .rejected) :
    (either p q).verdict final s = q.verdict final s := by
  rw [verdict_either, h]
  rfl

theorem bind_of_rejected (next : α → Grammar ε β) (h : p.verdict final s = .rejected) :
    (bind p next).verdict final s = .rejected := by
  rw [verdict_bind, h]
  rfl

theorem map_of_rejected [Vacancy β] (f : α → β) (h : p.verdict final s = .rejected) :
    (map f p).verdict final s = .rejected := by
  rw [verdict_map, h]
  rfl

end Parts

/-- A match leaves an end of what there was. -/
theorem rest_suffix {g : Grammar ε α} {final : Bool} {s rest : List ε} {value : α}
    (h : g.verdict final s = .matched value rest) : rest <:+ s := by
  have hrem := remains_run g (Cursor.within_start final s)
  unfold verdict at h
  cases hrun : g.run (.start final s) with
  | matched value' remainder =>
    rw [hrun] at h hrem
    -- the remainder lies further on in the same list
    have hr : (Cursor.start final s).Reaches remainder := hrem
    cases h
    rw [Cursor.rest_eq, hr.source_eq]
    exact List.drop_suffix _ _
  | _ =>
    rw [hrun] at h
    cases h

/-- **Where a match ends** is known by what it leaves. -/
theorem run_of_matched_append {g : Grammar ε α} {final : Bool} {s rest : List ε} {value : α}
    (h : g.verdict final (s ++ rest) = .matched value rest) :
    g.run (.start final (s ++ rest)) =
      .matched value ((Cursor.start final (s ++ rest)).advance s.length) := by
  have hrem := remains_run g (Cursor.within_start final (s ++ rest))
  unfold verdict at h
  cases hrun : g.run (.start final (s ++ rest)) with
  | matched found remainder =>
    rw [hrun] at h hrem
    have hr : (Cursor.start final (s ++ rest)).Reaches remainder := hrem
    cases h
    exact congrArg (Outcome.matched value) (hr.eq_advance (Cursor.rest_start ..))
  | _ =>
    rw [hrun] at h
    cases h

/-! ## Consumption -/

/-- **A grammar whose matches are never empty.** -/
def Consumes (g : Grammar ε α) : Prop :=
  ∀ ⦃final : Bool⦄ ⦃s rest : List ε⦄ ⦃value : α⦄,
    g.verdict final s = .matched value rest → rest.length < s.length

namespace Consumes

variable {p : Grammar ε α}

theorem satisfy (test : ε → Bool) (what : Expectation) :
    (satisfy test what : Grammar ε ε).Consumes := by
  intro final s rest e h
  rw [(matched_satisfy.mp h).1, List.length_cons]
  omega

theorem otherThan (elements : List ε) : (otherThan elements).Consumes := by
  intro final s rest run h
  rw [verdict_otherThan] at h
  dsimp only at h
  split at h
  · cases h
  · split at h
    · cases h
    · rename_i hrun
      cases h
      have hsum := congrArg List.length
        (List.takeWhile_append_dropWhile (p := fun e => !elements.contains e) (l := s))
      have hpos := List.length_pos_iff.mpr hrun
      rw [List.length_append] at hsum
      omega

theorem map [Vacancy β] (hp : p.Consumes) (f : α → β) : (map f p).Consumes := by
  intro final s rest image h
  obtain ⟨_, h, _⟩ := matched_map.mp h
  exact hp h

theorem judge (hp : p.Consumes) (refusal : Refusal) (accept : α → Except (Nat → Reason) β) :
    (judge refusal accept p).Consumes := by
  intro final s rest image h
  obtain ⟨_, h, _⟩ := matched_judge.mp h
  exact hp h

theorem bind (hp : p.Consumes) (next : α → Grammar ε β) : (bind p next).Consumes := by
  intro final s rest result h
  obtain ⟨_, _, h, h'⟩ := matched_bind.mp h
  exact Nat.lt_of_le_of_lt (rest_suffix h').length_le (hp h)

/-- A loop with at least one round consumes, since only rounds that do count. -/
theorem repeatSome (p : Grammar ε α) : (repeatSome p).Consumes := by
  intro final s rest values h
  rw [verdict_repeatSome, verdict_repeatAny, Verdict.many_eq] at h
  cases hv : p.verdict final s with
  | matched value middle =>
    rw [hv] at h
    dsimp only at h
    by_cases hlt : middle.length < s.length
    · rw [if_pos hlt] at h
      cases hmany : Verdict.many (p.verdict final) middle with
      | matched others stop =>
        rw [hmany] at h
        cases h
        have hrest : (repeatAny p).verdict final middle = .matched others rest := by
          rw [verdict_repeatAny, hmany]
        exact Nat.lt_of_le_of_lt (rest_suffix hrest).length_le hlt
      | _ => rw [hmany] at h; cases h
    · rw [if_neg hlt] at h
      cases h
  | _ => rw [hv] at h; cases h

end Consumes

end Grammar

namespace Verdict

/-! ## Rounds of loops -/

/-- **Some rounds of a loop**, each a match that begins where the last one
ended. -/
inductive Rounds (step : List ε → Verdict ε α) : List ε → List α → List ε → Prop
  /-- No round. -/
  | none (s : List ε) : Rounds step s [] s
  /-- One round, and then some more. -/
  | more {s middle rest : List ε} {value : α} {values : List α}
      (hround : step s = .matched value middle) (hmore : Rounds step middle values rest) :
      Rounds step s (value :: values) rest

theorem Rounds.trans {step : List ε → Verdict ε α} {s middle rest : List ε}
    {values others : List α} (h : Rounds step s values middle)
    (h' : Rounds step middle others rest) : Rounds step s (values ++ others) rest := by
  induction h with
  | none s => exact h'
  | more hround _ ih => exact .more hround (ih h')

/-- A loop that matches has gone through rounds. -/
theorem rounds_of_many {step : List ε → Verdict ε α} {s rest : List ε} {values : List α}
    (h : many step s = .matched values rest) : Rounds step s values rest := by
  fun_induction many step s generalizing values with
  | case1 s value middle hstep hlt ih =>
    obtain ⟨others, hmany, rfl⟩ := map_eq_matched.mp h
    exact .more hstep (ih hmany)
  | case2 s value middle hstep hlt =>
    cases h
    exact .none _
  | case3 s hstep =>
    cases h
    exact .none _
  | _ => cases h

/-- A loop of rounds that consume ends where there is no other. -/
theorem rejected_of_many {step : List ε → Verdict ε α}
    (hlt : ∀ {s value rest}, step s = .matched value rest → rest.length < s.length)
    {s rest : List ε} {values : List α} (h : many step s = .matched values rest) :
    step rest = .rejected := by
  fun_induction many step s generalizing values with
  | case1 s value middle hstep hless ih =>
    obtain ⟨others, hmany, -⟩ := map_eq_matched.mp h
    exact ih hmany
  | case2 s value middle hstep hge => exact absurd (hlt hstep) hge
  | case3 s hstep =>
    cases h
    exact hstep
  | _ => cases h

/-- **Rounds that consume make up a loop**, if no other can follow. -/
theorem many_of_rounds {step : List ε → Verdict ε α} {s rest : List ε} {values : List α}
    (hlt : ∀ {s value rest}, step s = .matched value rest → rest.length < s.length)
    (h : Rounds step s values rest) (hend : step rest = .rejected) :
    many step s = .matched values rest := by
  induction h with
  | none s => rw [many_eq, hend]
  | more hround hmore ih =>
    rw [many_eq, hround]
    simp only [if_pos (hlt hround), ih hend]
    rfl

/-- A round after the first: a separator and an item. -/
def round (separator : List ε → Verdict ε σ) (item : List ε → Verdict ε α) (s : List ε) :
    Verdict ε α :=
  (separator s).andThen s fun _ past => item past

theorem round_eq_matched {separator : List ε → Verdict ε σ} {item : List ε → Verdict ε α}
    {s rest : List ε} {value : α} :
    round separator item s = .matched value rest ↔
      ∃ mark past, separator s = .matched mark past ∧ item past = .matched value rest :=
  andThen_eq_matched

/-- Items with separators that match are no items, or an item and rounds of a
separator and an item. -/
theorem rounds_of_separated {separator : List ε → Verdict ε σ} {item : List ε → Verdict ε α}
    {s after rest : List ε} {values : List α}
    (h : separated separator item s after = .matched values rest) :
    (values = [] ∧ rest = after) ∨ ∃ value middle others,
      item s = .matched value middle ∧ values = value :: others ∧
        Rounds (round separator item) middle others rest := by
  fun_induction separated separator item s after generalizing values with
  | case1 s after value middle hitem mark past hsep hlt ih =>
    obtain ⟨others, hothers, rfl⟩ := map_eq_matched.mp h
    refine .inr ⟨value, middle, others, hitem, rfl, ?_⟩
    -- the separator opens a round, or was left alone and nothing came of it
    rcases ih hothers with ⟨rfl, rfl⟩ | ⟨next, stop, others, hnext, rfl, hmore⟩
    · exact .none _
    · exact .more (round_eq_matched.mpr ⟨mark, past, hsep, hnext⟩) hmore
  | case2 s after value middle hitem mark past hsep hlt =>
    cases h
    exact .inr ⟨value, _, [], hitem, rfl, .none _⟩
  | case3 s after value middle hitem hsep =>
    cases h
    exact .inr ⟨value, _, [], hitem, rfl, .none _⟩
  | case7 s after hitem =>
    cases h
    exact .inl ⟨rfl, rfl⟩
  | _ => cases h

/-- **An item and rounds make up items with separators**, if no separator
follows. -/
theorem separated_of_rounds {separator : List ε → Verdict ε σ} {item : List ε → Verdict ε α}
    {s after middle rest : List ε} {value : α} {values : List α}
    (hsep : ∀ {s mark rest}, separator s = .matched mark rest → rest.length < s.length)
    (hle : ∀ {s value rest}, item s = .matched value rest → rest.length ≤ s.length)
    (hitem : item s = .matched value middle)
    (h : Rounds (round separator item) middle values rest) (hend : separator rest = .rejected) :
    separated separator item s after = .matched (value :: values) rest := by
  induction h generalizing s after value with
  | none middle =>
    rw [separated, hitem]
    simp only [hend]
  | more hround hmore ih =>
    obtain ⟨mark, past, hmark, hnext⟩ := round_eq_matched.mp hround
    have h₁ := hsep hmark
    have h₂ := hle hitem
    rw [separated, hitem]
    simp only [hmark]
    -- an item may be empty, a separator is not: each round still leaves less
    rw [if_pos ⟨h₁, by omega⟩, ih hnext hend]
    rfl

end Verdict

end StreamGrammar
