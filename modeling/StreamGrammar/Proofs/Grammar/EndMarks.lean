import StreamGrammar.Proofs.Grammar.Complete
import StreamGrammar.Proofs.Grammar.Rejected
import StreamGrammar.Proofs.Grammar.Waiting

/-!
# End marks

A text that stands in the midst of a longer one is read there as it is on its own, if
what comes after it is a mark that nothing in it could be. The end of complete input and
such a mark are told in different ways, the one by there being no element and the other
by looking at one, and a grammar may stop at either in any of its parts. But part by part
it comes to the same (`StopsAt`). What is matched in complete input is matched with a mark
behind it, in input that may still grow, and so is what is rejected.

A part that fails for good need not do so in front of a mark, since it may take the mark
for the beginning of what it misses. And a choice that was undecided about its first
alternative could match its second all the same, so that the alternatives have to come to
a verdict on complete input. That is what guarded grammars do.
-/

namespace StreamGrammar.Grammar

variable {ε α β σ : Type} [Element ε]

/-! ## Ends that are looked for -/

/-- An end, told by an element that is not read or by there being none. -/
abbrev endAt (test : ε → Bool) (what : Expectation) : Grammar ε Unit :=
  eitherOf [(peek (satisfy test what)).map fun _ => (), endOfInput]

theorem endAt_nil (test : ε → Bool) (what : Expectation) :
    (endAt test what).verdict true [] = .matched () [] := by
  refine (alt_of_rejected _ (map_of_rejected _ ?_)).trans (alt_of_matched _ ?_)
  · rw [verdict_peek, verdict_satisfy]
    rfl
  · rw [verdict_endOfInput]
    rfl

/-- In front of an element there is an end if the element is one. -/
theorem endAt_cons (test : ε → Bool) (what : Expectation) (final : Bool) (e : ε) (s : List ε) :
    (endAt test what).verdict final (e :: s) =
      if test e then .matched () (e :: s) else .rejected := by
  have hpeek : (peek (satisfy test what)).verdict final (e :: s) =
      if test e then .matched e (e :: s) else .rejected := by
    rw [verdict_peek, verdict_satisfy]
    dsimp only
    split <;> rfl
  by_cases h : test e = true
  · rw [if_pos h] at hpeek ⊢
    exact alt_of_matched _ (matched_map.mpr ⟨e, hpeek, rfl⟩)
  · rw [if_neg h] at hpeek ⊢
    exact rejected_alt.mpr ⟨rejected_map.mpr hpeek,
      rejected_alt.mpr ⟨by rw [verdict_endOfInput], rfl⟩⟩

/-- What ends a component is settled by one element, or by the end of the input. -/
theorem final_endAt (test : ε → Bool) (what : Expectation) : (endAt test what).Final := by
  refine .alt_of_waiting ((Final.satisfy _ _).peek.map _)
    (.alt_of_waiting .endOfInput .noAlternative fun _ _ => .inl rfl) fun s ⟨best, rest, hcut⟩ => ?_
  obtain rfl := ((DecidesAtOnce.satisfy test what).peek.map _) s best rest hcut
  exact .inr (.alt_left ⟨none, [], by rw [verdict_endOfInput]; rfl⟩ (.inl rfl))

theorem pausesIn_endAt {P : List ε → Prop} (hnil : P []) (test : ε → Bool) (what : Expectation) :
    (endAt test what).PausesIn P := by
  refine .alt (.map (.peek fun s ⟨best, rest, hcut⟩ => ?_) _) (.alt (.endOfInput hnil)
    .noAlternative)
  obtain rfl := DecidesAtOnce.satisfy test what s best rest hcut
  exact hnil

/-! ## Marks as good as the end -/

/-- **A grammar to which a mark is as good as the end of the input.** -/
structure StopsAt (mark : ε) (g : Grammar ε α) : Prop where
  /-- It comes to a verdict on complete input. -/
  guarded : g.Guarded False
  /-- What is matched in complete input is matched in front of the mark. -/
  matched : ∀ {s rest : List ε} {value : α}, g.verdict true s = .matched value rest →
    g.verdict false (s ++ [mark]) = .matched value (rest ++ [mark])
  /-- What is rejected there is rejected in front of the mark. -/
  rejected : ∀ {s : List ε}, g.verdict true s = .rejected →
    g.verdict false (s ++ [mark]) = .rejected

omit [Element ε] in
/-- A run that ends with complete input ends at an element that does not pass. -/
theorem Halts.append_mark {test : ε → Bool} {rest : List ε} (h : Halts test true rest) {mark : ε}
    (hmark : test mark = false) : Halts test false (rest ++ [mark]) := by
  cases rest with
  | nil => exact halts_cons hmark
  | cons e rest => exact halts_cons (h.2 e rfl)

namespace StopsAt

variable {mark : ε} {g p q : Grammar ε α}

/-! ## Matchers -/

theorem satisfy {test : ε → Bool} (what : Expectation) (hmark : test mark = false) :
    (satisfy test what).StopsAt mark where
  guarded := trivial
  matched h := by
    obtain ⟨rfl, htest⟩ := matched_satisfy.mp h
    exact matched_satisfy.mpr ⟨rfl, htest⟩
  rejected h := rejected_satisfy.mpr ((rejected_satisfy.mp h).append_mark hmark)

theorem literal {expected : List ε} (hmark : mark ∉ expected) :
    (literal expected).StopsAt mark where
  guarded := trivial
  matched h := by
    obtain ⟨rfl, rfl⟩ := matched_literal.mp h
    exact matched_literal.mpr ⟨rfl, List.append_assoc ..⟩
  rejected {s} h := by
    have hnot : ¬expected <+: s := fun hpre => by
      rw [verdict_literal, if_pos hpre] at h
      cases h
    -- nothing that goes up to the mark can be expected, or part of it
    rw [verdict_literal, if_neg, if_neg]
    · rintro ⟨-, hpre⟩
      exact hmark (hpre.subset (by simp))
    · intro hpre
      rcases List.prefix_concat_iff.mp hpre with rfl | hpre
      · exact hmark (by simp)
      · exact hnot hpre

theorem takeWhile {test : ε → Bool} (hmark : test mark = false) :
    (takeWhile test : Grammar ε (List ε)).StopsAt mark where
  guarded := trivial
  matched h := by
    obtain ⟨rfl, hrun, hhalts⟩ := matched_takeWhile.mp h
    exact matched_takeWhile.mpr ⟨List.append_assoc .., hrun, hhalts.append_mark hmark⟩
  rejected {s} h := by
    rw [verdict_takeWhile, if_neg (by simp)] at h
    cases h

theorem takeSomeWhile {test : ε → Bool} (hmark : test mark = false) :
    (takeSomeWhile test : Grammar ε (List ε)).StopsAt mark where
  guarded := trivial
  matched h := by
    obtain ⟨hne, rfl, hrun, hhalts⟩ := matched_takeSomeWhile.mp h
    exact matched_takeSomeWhile.mpr ⟨hne, List.append_assoc .., hrun, hhalts.append_mark hmark⟩
  rejected h := rejected_takeSomeWhile.mpr ((rejected_takeSomeWhile.mp h).append_mark hmark)

theorem noAlternative : (noAlternative : Grammar ε α).StopsAt mark where
  guarded := trivial
  matched h := nomatch h
  rejected _ := rfl

/-- **What looks for an end finds the mark**, where complete input ends. -/
theorem ends {test : ε → Bool} (what : Expectation) (hmark : test mark = true) :
    (endAt test what).StopsAt mark where
  guarded := ⟨trivial, trivial, trivial⟩
  matched {s rest value} h := by
    cases s with
    | nil =>
      cases (endAt_nil test what).symm.trans h
      rw [List.nil_append, endAt_cons, if_pos hmark]
    | cons e s =>
      rw [endAt_cons] at h
      rw [List.cons_append, endAt_cons]
      split at h
      · rename_i he
        cases h
        rw [if_pos he]
        rfl
      · cases h
  rejected {s} h := by
    cases s with
    | nil => cases (endAt_nil test what).symm.trans h
    | cons e s =>
      rw [endAt_cons] at h
      rw [List.cons_append, endAt_cons]
      split at h
      · cases h
      · rename_i he
        rw [if_neg he]

/-! ## What is made of parts -/

theorem map [Vacancy β] (hp : p.StopsAt mark) (f : α → β) : (map f p).StopsAt mark where
  guarded := hp.guarded
  matched h := by
    obtain ⟨value, hv, rfl⟩ := matched_map.mp h
    exact matched_map.mpr ⟨value, hp.matched hv, rfl⟩
  rejected h := rejected_map.mpr (hp.rejected (rejected_map.mp h))

theorem judge (hp : p.StopsAt mark) (refusal : Refusal)
    (accept : α → Except (Nat → Reason) β) : (judge refusal accept p).StopsAt mark where
  guarded := hp.guarded
  matched h := by
    obtain ⟨value, hv, haccept⟩ := matched_judge.mp h
    exact matched_judge.mpr ⟨value, hp.matched hv, haccept⟩
  rejected h := by
    rcases rejected_judge.mp h with h | ⟨hrefusal, value, rest, reason, hv, herror⟩
    · exact rejected_judge.mpr (.inl (hp.rejected h))
    · exact rejected_judge.mpr (.inr ⟨hrefusal, value, _, reason, hp.matched hv, herror⟩)

theorem bind {next : α → Grammar ε β} (hp : p.StopsAt mark) (hn : ∀ a, (next a).StopsAt mark) :
    (bind p next).StopsAt mark where
  guarded := ⟨hp.guarded, fun a => (hn a).guarded⟩
  matched h := by
    obtain ⟨value, middle, hv, hv'⟩ := matched_bind.mp h
    exact matched_bind.mpr ⟨value, _, hp.matched hv, (hn value).matched hv'⟩
  rejected h := by
    rcases rejected_bind.mp h with h | ⟨value, middle, hv, h⟩
    · exact rejected_bind.mpr (.inl (hp.rejected h))
    · exact rejected_bind.mpr (.inr ⟨value, _, hp.matched hv, (hn value).rejected h⟩)

theorem optional (hp : p.StopsAt mark) : (optional p).StopsAt mark where
  guarded := hp.guarded
  matched h := by
    rcases matched_optional.mp h with ⟨hv, rfl, rfl⟩ | ⟨value, hv, rfl⟩
    · exact matched_optional.mpr (.inl ⟨hp.rejected hv, rfl, rfl⟩)
    · exact matched_optional.mpr (.inr ⟨value, hp.matched hv, rfl⟩)
  rejected h := absurd h optional_ne_rejected

/-- What comes of the part at the end comes of it in front of the mark, unless it fails for
good. -/
theorem cases (hp : p.StopsAt mark) (s : List ε) :
    (∃ value rest, p.verdict true s = .matched value rest ∧
        p.verdict false (s ++ [mark]) = .matched value (rest ++ [mark])) ∨
      (p.verdict true s = .rejected ∧ p.verdict false (s ++ [mark]) = .rejected) ∨
      p.verdict true s = .fatal := by
  rcases hp.guarded.concludes.cases s with ⟨value, rest, h⟩ | h | h
  · exact .inl ⟨value, rest, h, hp.matched h⟩
  · exact .inr (.inl ⟨h, hp.rejected h⟩)
  · exact .inr (.inr h)

theorem alt (hp : p.StopsAt mark) (hq : q.StopsAt mark) : (alt p q).StopsAt mark where
  guarded := ⟨hp.guarded, hq.guarded⟩
  matched {s rest value} h := by
    rcases hp.cases s with ⟨found, stop, hv, hv'⟩ | ⟨hv, hv'⟩ | hv <;> rw [verdict_alt, hv] at h
    · cases h
      exact alt_of_matched q hv'
    · rw [alt_of_rejected q hv']
      exact hq.matched h
    · cases h
  rejected h := by
    obtain ⟨h, h'⟩ := rejected_alt.mp h
    exact rejected_alt.mpr ⟨hp.rejected h, hq.rejected h'⟩

theorem either [Vacancy α] (hp : p.StopsAt mark) (hq : q.StopsAt mark) :
    (either p q).StopsAt mark where
  guarded := ⟨hp.guarded, hq.guarded⟩
  matched {s rest value} h := by
    rcases hp.cases s with ⟨found, stop, hv, hv'⟩ | ⟨hv, hv'⟩ | hv <;> rw [verdict_either, hv] at h
    · cases h
      exact either_of_matched q hv'
    · rw [either_of_rejected q hv']
      exact hq.matched h
    · cases h
  rejected {s} h := by
    rcases hp.cases s with ⟨found, stop, hv, hv'⟩ | ⟨hv, hv'⟩ | hv <;> rw [verdict_either, hv] at h
    · cases h
    · rw [either_of_rejected q hv']
      exact hq.rejected h
    · cases h

theorem label (hp : p.StopsAt mark) (name : Text) : (label p name).StopsAt mark where
  guarded := hp.guarded
  matched h := by
    rw [verdict_label] at h ⊢
    exact hp.matched h
  rejected h := by
    rw [verdict_label] at h ⊢
    exact hp.rejected h

/-! ## Loops -/

/-- **A loop goes through the same rounds** in front of the mark. -/
theorem repeatAny (hp : p.StopsAt mark) : (repeatAny p).StopsAt mark where
  guarded := hp.guarded
  matched {s rest values} h := by
    rw [verdict_repeatAny] at h ⊢
    fun_induction Verdict.many (p.verdict true) s generalizing values with
    | case1 s value middle hround hlt ih =>
      obtain ⟨others, hmany, rfl⟩ := Verdict.map_eq_matched.mp h
      rw [Verdict.many_eq, hp.matched hround]
      simp only [List.length_append, Nat.add_lt_add_iff_right, if_pos hlt, ih hmany]
      rfl
    | case2 s value middle hround hge =>
      cases h
      rw [Verdict.many_eq, hp.matched hround]
      simp only [List.length_append, Nat.add_lt_add_iff_right, if_neg hge]
    | case3 s hround =>
      cases h
      rw [Verdict.many_eq, hp.rejected hround]
    | _ => cases h
  rejected h := absurd h repeatAny_ne_rejected

theorem repeatSome (hp : p.StopsAt mark) : (repeatSome p).StopsAt mark where
  guarded := hp.guarded
  matched h := by
    obtain ⟨hne, h⟩ := matched_repeatSome.mp h
    exact matched_repeatSome.mpr ⟨hne, hp.repeatAny.matched h⟩
  rejected h := by
    obtain ⟨rest, h⟩ := rejected_repeatSome.mp h
    exact rejected_repeatSome.mpr ⟨_, hp.repeatAny.matched h⟩

theorem separated {sep : Grammar ε σ} (hsep : sep.StopsAt mark) (hp : p.StopsAt mark)
    {s after rest : List ε} {values : List α}
    (h : Verdict.separated (sep.verdict true) (p.verdict true) s after = .matched values rest) :
    Verdict.separated (sep.verdict false) (p.verdict false) (s ++ [mark]) (after ++ [mark]) =
      .matched values (rest ++ [mark]) := by
  fun_induction Verdict.separated (sep.verdict true) (p.verdict true) s after
    generalizing values with
  | case1 s after value middle hitem past stop hmark hlt ih =>
    obtain ⟨others, hmore, rfl⟩ := Verdict.map_eq_matched.mp h
    rw [Verdict.separated, hp.matched hitem]
    simp only [hsep.matched hmark, List.length_append, Nat.add_lt_add_iff_right, if_pos hlt,
      ih hmore]
    rfl
  | case2 s after value middle hitem past stop hmark hge =>
    cases h
    rw [Verdict.separated, hp.matched hitem]
    simp only [hsep.matched hmark, List.length_append, Nat.add_lt_add_iff_right, if_neg hge]
  | case3 s after value middle hitem hmark =>
    cases h
    rw [Verdict.separated, hp.matched hitem]
    simp only [hsep.rejected hmark]
  | case7 s after hitem =>
    cases h
    rw [Verdict.separated, hp.rejected hitem]
  | _ => cases h

theorem separatedItems {sep : Grammar ε σ} (hsep : sep.StopsAt mark) (hp : p.StopsAt mark) :
    (separatedItems sep p).StopsAt mark where
  guarded := ⟨hsep.guarded, hp.guarded⟩
  matched {s rest values} h := by
    rw [verdict_separatedItems] at h ⊢
    exact hsep.separated hp h
  rejected h := absurd h separatedItems_ne_rejected

/-! ## Texts in front of a mark -/

/-- **A text is read in front of a mark as it is on its own**, whatever comes after the
mark and whether or not there will be more, if decisions are final. -/
theorem run_append (hg : g.StopsAt mark) (hfinal : g.Final) {s : List ε} {value : α}
    (h : g.verdict true s = .matched value []) (final : Bool) (more : List ε) :
    g.run (.start final (s ++ mark :: more)) =
      .matched value ((Cursor.start final (s ++ mark :: more)).advance s.length) := by
  have hmark : g.verdict false (s ++ [mark]) = .matched value [mark] := hg.matched h
  have hmore : g.verdict final ((s ++ [mark]) ++ more) = .matched value ([mark] ++ more) :=
    hfinal.of_matched hmark
  rw [List.append_assoc, List.singleton_append] at hmore
  exact run_of_matched_append hmore

end StopsAt

end StreamGrammar.Grammar
