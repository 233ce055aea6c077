import StreamGrammar.Proofs.Grammar.Matched
import StreamGrammar.Proofs.Text.Spelling

/-!
# What a grammar reads is text

A grammar over bytes asks for UTF-8 only where it decodes a piece, and what it
matches goes on past such pieces. That the whole match is UTF-8 all the same is
seen part by part: elements that a test lets through are ASCII or else are decoded,
and a match made of matches is text if each of them is (`Reads.trans`). So the
property is closed under all ways to combine grammars, loops included, and of a
particular grammar only the leaves have to be looked at.
-/

namespace StreamGrammar

variable {ε α β σ : Type} [Element ε] [Spelling ε]

/-- **What lies between is text**: the elements before the rest spell one that can
be read back. -/
def Reads (s rest : List ε) : Prop :=
  ∃ t : Text, (∀ c ∈ t, Spelling.Readable ε c) ∧ s = spell t ++ rest

theorem Reads.refl (s : List ε) : Reads s s := ⟨[], by simp, rfl⟩

theorem Reads.trans {s middle rest : List ε} (h : Reads s middle) (h' : Reads middle rest) :
    Reads s rest := by
  obtain ⟨t, ht, rfl⟩ := h
  obtain ⟨u, hu, rfl⟩ := h'
  refine ⟨t ++ u, fun c hc => (List.mem_append.mp hc).elim (ht c) (hu c), ?_⟩
  rw [spell_append, List.append_assoc]

/-- Elements whose numbers are ASCII are text. -/
theorem reads_of_ascii {s : List ε} (h : ∀ e ∈ s, Element.code e < 0x80) (rest : List ε) :
    Reads (s ++ rest) rest := by
  refine ⟨s.map fun e => CodePoint.ofNat (Element.code e), fun c hc => ?_, ?_⟩
  · obtain ⟨e, he, rfl⟩ := List.mem_map.mp hc
    have hlt := h e he
    exact Spelling.readable_of_lt _ (by rw [CodePoint.val_ofNat (by omega)]; exact hlt)
  · rw [spell_map_code h]

/-- Some rounds read text if each does. -/
theorem Verdict.Rounds.reads {step : List ε → Verdict ε α} {s rest : List ε} {values : List α}
    (h : Verdict.Rounds step s values rest)
    (hstep : ∀ {s rest : List ε} {value : α}, step s = .matched value rest → Reads s rest) :
    Reads s rest := by
  induction h with
  | none s => exact .refl s
  | more hround _ ih => exact (hstep hround).trans ih

namespace Grammar

/-- **A grammar whose matches are text.** -/
def ReadsText (g : Grammar ε α) : Prop :=
  ∀ ⦃final : Bool⦄ ⦃s rest : List ε⦄ ⦃value : α⦄,
    g.verdict final s = .matched value rest → Reads s rest

namespace ReadsText

variable {p : Grammar ε α}

/-! ## Leaves that ask for ASCII -/

theorem ascii {c : Char} (hc : c.toNat < 0x80) : (ascii c : Grammar ε ε).ReadsText := by
  intro final s rest e hm
  obtain ⟨rfl, rfl⟩ := matched_ascii.mp hm
  refine reads_of_ascii (s := [Element.ofAscii c]) ?_ rest
  simpa [LawfulElement.code_ofAscii c hc] using hc

theorem asciiOf {chars : List Char} (h : Element.areAscii chars = true) :
    (asciiOf chars : Grammar ε ε).ReadsText := by
  intro final s rest e hm
  obtain ⟨hmem, rfl⟩ := matched_asciiOf.mp hm
  obtain ⟨c, hc, rfl⟩ := List.mem_map.mp hmem
  have hlt := Element.lt_of_areAscii h c hc
  refine reads_of_ascii (s := [Element.ofAscii c]) ?_ rest
  simpa [LawfulElement.code_ofAscii c hlt] using hlt

theorem token {chars : List Char} (h : Element.areAscii chars = true) :
    (token chars : Grammar ε (List ε)).ReadsText := by
  intro final s rest run hm
  obtain ⟨rfl, rfl⟩ := matched_literal.mp hm
  refine ⟨Text.ofChars chars, fun c hc => ?_, by rw [spell_ofChars h]⟩
  obtain ⟨d, hd, rfl⟩ := List.mem_map.mp hc
  exact Spelling.readable_of_lt _ (Element.lt_of_areAscii h d hd)

theorem takeWhile {test : ε → Bool} (h : ∀ e, test e = true → Element.code e < 0x80) :
    (takeWhile test : Grammar ε (List ε)).ReadsText := by
  intro final s rest run hm
  obtain ⟨rfl, hrun, _⟩ := matched_takeWhile.mp hm
  exact reads_of_ascii (fun e he => h e (hrun e he)) rest

theorem takeSomeWhile {test : ε → Bool} (h : ∀ e, test e = true → Element.code e < 0x80) :
    (takeSomeWhile test : Grammar ε (List ε)).ReadsText := by
  intro final s rest run hm
  obtain ⟨_, rfl, hrun, _⟩ := matched_takeSomeWhile.mp hm
  exact reads_of_ascii (fun e he => h e (hrun e he)) rest

/-! ## What is made of parts -/

theorem succeed (value : α) : (succeed value : Grammar ε α).ReadsText := by
  intro final s rest found hm
  rw [verdict_succeed] at hm
  cases hm
  exact .refl s

theorem noAlternative : (noAlternative : Grammar ε α).ReadsText := fun _ _ _ _ hm => nomatch hm

theorem map [Vacancy β] (hp : p.ReadsText) (f : α → β) : (map f p).ReadsText := by
  intro final s rest image hm
  obtain ⟨_, hm, _⟩ := matched_map.mp hm
  exact hp hm

theorem judge (hp : p.ReadsText) (refusal : Refusal) (accept : α → Except (Nat → Reason) β) :
    (judge refusal accept p).ReadsText := by
  intro final s rest image hm
  obtain ⟨_, hm, _⟩ := matched_judge.mp hm
  exact hp hm

theorem bind (hp : p.ReadsText) {next : α → Grammar ε β} (hn : ∀ a, (next a).ReadsText) :
    (bind p next).ReadsText := by
  intro final s rest result hm
  obtain ⟨value, _, hm, hm'⟩ := matched_bind.mp hm
  exact (hp hm).trans (hn value hm')

theorem between [Vacancy β] {q : Grammar ε β} {r : Grammar ε σ} (hp : p.ReadsText)
    (hq : q.ReadsText) (hr : r.ReadsText) : (between p q r).ReadsText :=
  hp.bind fun _ => hq.bind fun _ => hr.map _

theorem optional (hp : p.ReadsText) : (optional p).ReadsText := by
  intro final s rest value hm
  rcases matched_optional.mp hm with ⟨_, _, rfl⟩ | ⟨_, hm, _⟩
  · exact .refl _
  · exact hp hm

theorem halt (hp : p.ReadsText) (name : Text) : (halt name p).ReadsText :=
  fun _ _ _ _ hm => hp (matched_halt.mp hm)

theorem alt {q : Grammar ε α} (hp : p.ReadsText) (hq : q.ReadsText) : (alt p q).ReadsText :=
  fun _ _ _ _ hm => (matched_of_alt hm).elim (fun h => hp h) fun h => hq h

theorem either [Vacancy α] {q : Grammar ε α} (hp : p.ReadsText) (hq : q.ReadsText) :
    (either p q).ReadsText :=
  fun _ _ _ _ hm => (matched_of_either hm).elim (fun h => hp h) fun h => hq h

/-! ## Loops -/

theorem repeatAny (hp : p.ReadsText) : (repeatAny p).ReadsText := by
  intro final s rest values hm
  rw [verdict_repeatAny] at hm
  exact (Verdict.rounds_of_many hm).reads fun hround => hp hround

theorem separatedItems {sep : Grammar ε σ} (hsep : sep.ReadsText) (hp : p.ReadsText) :
    (separatedItems sep p).ReadsText := by
  intro final s rest values hm
  rw [verdict_separatedItems] at hm
  rcases Verdict.rounds_of_separated hm with ⟨_, rfl⟩ | ⟨_, middle, _, hitem, _, hmore⟩
  · exact .refl _
  · refine (hp hitem).trans (hmore.reads fun hround => ?_)
    obtain ⟨_, past, hmark, hnext⟩ := Verdict.round_eq_matched.mp hround
    exact (hsep hmark).trans (hp hnext)

end ReadsText

end Grammar

end StreamGrammar
