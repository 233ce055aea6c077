import StreamGrammar.Proofs.Grammar.Matched

/-!
# Items joined by a mark are read back

Items that have no mark in them are joined by marks, and `separatedItems` is to give back
just these items. The loop goes through it in rounds, an item and a mark each, and one
round is all that there is to know of it (`turns_item_mark`): in front of a mark the
item is taken, and the turns go on behind the mark, with the mark itself as the place to
return to. What is left to say is how the last round ends.

It ends in a tail that no item begins. There are three of them: nothing, a mark that is the
last element, and two marks. Where no more input will come all three are the same to the
loop, since the place to return to is the start of the tail. Where input may still grow two
marks end the items just as well, but at the end of what there is an item might go on or
another one begin, and the items are only a partial result.
-/

namespace StreamGrammar.Grammar

variable {ε α : Type} [Element ε]

/-! ## Ends of runs -/

/-- **A run that is cut short at the end of its input** has gone through all of it. -/
theorem run_of_truncated_nil {g : Grammar ε α} {final : Bool} {s : List ε} {best : Option α}
    (h : g.verdict final s = .truncated best []) :
    g.run (.start final s) = .truncated best ((Cursor.start final s).advance s.length) := by
  have hrem := remains_run g (Cursor.within_start final s)
  unfold verdict at h
  cases hrun : g.run (.start final s) with
  | truncated found remainder =>
    rw [hrun] at h hrem
    have hr : (Cursor.start final s).Reaches remainder := hrem
    simp only [Outcome.verdict, Verdict.truncated.injEq] at h
    obtain ⟨rfl, hrest⟩ := h
    refine congrArg (Outcome.truncated found) (hr.eq_advance ?_)
    rw [hrest, List.append_nil, Cursor.rest_start]
  | _ =>
    rw [hrun] at h
    cases h

/-! ## Items and marks -/

section Turns

variable {c : ε} {final : Bool} {item : List ε}

theorem char_mark (c : ε) (final : Bool) (rest : List ε) :
    (char [c]).verdict final (c :: rest) = .matched c rest :=
  matched_satisfy.mpr ⟨rfl, beq_self_eq_true _⟩

theorem char_nil (c : ε) (final : Bool) :
    (char [c]).verdict final [] = Verdict.exhausted final :=
  verdict_satisfy final [] _ _

/-- An item is taken up to the next mark. -/
theorem otherThan_mark (hne : item ≠ []) (hc : c ∉ item) (final : Bool) (rest : List ε) :
    (otherThan [c]).verdict final (item ++ c :: rest) = .matched item (c :: rest) := by
  refine matched_otherThan.mpr ⟨hne, rfl, fun e he hmem => ?_, halts_cons (by simp)⟩
  rw [List.mem_singleton.mp hmem] at he
  exact hc he

/-- At the end of the input an item is complete, or may go on in what comes. -/
theorem otherThan_end (hne : item ≠ []) (hc : c ∉ item) (final : Bool) :
    (otherThan [c]).verdict final item =
      if final then .matched item [] else .truncated (some item) [] := by
  have hall : ∀ e ∈ item, (!([c].contains e)) = true := fun e he => by
    have hce : e ≠ c := fun heq => hc (heq ▸ he)
    simpa using hce
  obtain ⟨hrun, hrest⟩ := (longest_run_iff _ item item []).mpr
    ⟨(List.append_nil item).symm, hall, nofun⟩
  rw [verdict_otherThan]
  dsimp only
  rw [hrun, hrest, if_neg hne, if_neg hne]
  cases final <;> rfl

/-- No item begins with a mark. -/
theorem otherThan_no_item (c : ε) (final : Bool) (rest : List ε) :
    (otherThan [c]).verdict final (c :: rest) = .rejected := by
  rw [verdict_otherThan]
  simp

/-- Nor does one begin where there is nothing, as far as is known. -/
theorem otherThan_nil (c : ε) (final : Bool) :
    (otherThan [c]).verdict final [] = Verdict.exhausted final := by
  rw [verdict_otherThan]
  cases final <;> rfl

/-- Items without a mark in them and marks by turns, the verdict on what is left with the
place to return to. -/
def turns (c : ε) (final : Bool) (s after : List ε) : Verdict ε (List (List ε)) :=
  Verdict.separated ((char [c]).verdict final) ((otherThan [c]).verdict final) s after

/-- **One round**: an item is taken up to the next mark, and the turns go on behind that
mark, which is where the loop returns to if no item follows. -/
theorem turns_item_mark (hne : item ≠ []) (hc : c ∉ item) (final : Bool) (rest after : List ε) :
    turns c final (item ++ c :: rest) after =
      (turns c final rest (c :: rest)).map (item :: ·) := by
  rw [turns, Verdict.separated, otherThan_mark hne hc final rest]
  simp only [char_mark c final rest]
  rw [if_pos]
  · rfl
  · simp only [List.length_append, List.length_cons]
    omega

/-- A mark that no item follows is left alone, with what is behind it. -/
theorem turns_of_no_item {rest : List ε} (h : (otherThan [c]).verdict final rest = .rejected)
    (after : List ε) : turns c final rest after = .matched [] after := by
  rw [turns, Verdict.separated, h]

/-- Where nothing is left, another item may come unless the input is complete. -/
theorem turns_nil (c : ε) (final : Bool) (after : List ε) :
    turns c final [] after = if final then .matched [] after else .truncated (some []) [] := by
  rw [turns, Verdict.separated, otherThan_nil]
  cases final <;> rfl

/-- The last item ends with the input, or may go on in what comes. -/
theorem turns_item (hne : item ≠ []) (hc : c ∉ item) (final : Bool) (after : List ε) :
    turns c final item after =
      if final then .matched [item] [] else .truncated (some [item]) [] := by
  rw [turns, Verdict.separated, otherThan_end hne hc]
  cases final with
  | false => rfl
  | true =>
    rw [if_pos rfl, if_pos rfl]
    simp only [char_nil]
    rfl

section Joined

variable {items : List (List ε)} (hne : items ≠ [])
    (hitems : ∀ item ∈ items, item ≠ [] ∧ c ∉ item)

include hne hitems

/-- **Round after round**: if the last item and the tail make for some verdict, so do the
items that are joined and the tail, with all of the items in place of the last. -/
theorem turns_join (final : Bool) {tail : List ε} {v : Verdict ε (List (List ε))}
    (hlast : ∀ last after, last ≠ [] → c ∉ last →
      turns c final (last ++ tail) after = v.map (last :: ·)) (after : List ε) :
    turns c final ([c].intercalate items ++ tail) after = v.map (items ++ ·) := by
  induction items generalizing after with
  | nil => exact absurd rfl hne
  | cons item items ih =>
    obtain ⟨⟨hitem, hc⟩, hothers⟩ := List.forall_mem_cons.mp hitems
    cases items with
    | nil =>
      rw [List.intercalate_singleton]
      exact hlast item after hitem hc
    | cons next items =>
      rw [List.intercalate_cons_cons, List.append_assoc, List.append_assoc, List.singleton_append,
        turns_item_mark hitem hc, ih (List.cons_ne_nil next items) hothers, Verdict.map_map]
      rfl

/-- **A tail of two marks ends the items** on input of either kind. -/
theorem turns_two_marks (final : Bool) (more after : List ε) :
    turns c final ([c].intercalate items ++ c :: c :: more) after =
      .matched items (c :: c :: more) := by
  have h := turns_join (v := .matched [] (c :: c :: more)) hne hitems final
    (fun last after hlast hc => by
      rw [turns_item_mark hlast hc, turns_of_no_item (otherThan_no_item c final more)]) after
  rw [h, Verdict.map, List.append_nil]

/-- **Nothing or one mark ends the items** if the input is complete, and else the items are
what there is so far. -/
theorem turns_at_end {tail : List ε} (htail : tail = [] ∨ tail = [c]) (final : Bool)
    (after : List ε) :
    turns c final ([c].intercalate items ++ tail) after =
      if final then .matched items tail else .truncated (some items) [] := by
  have hlast : ∀ last after, last ≠ [] → c ∉ last → turns c final (last ++ tail) after =
      (if final then .matched [] tail else .truncated (some []) [] : Verdict ε _).map
        (last :: ·) := by
    intro last after hne hc
    rcases htail with rfl | rfl
    · rw [List.append_nil, turns_item hne hc]
      cases final <;> rfl
    · rw [turns_item_mark hne hc, turns_nil]
  rw [turns_join hne hitems final hlast after]
  cases final <;> simp [Verdict.map]

end Joined

end Turns

/-- **What is joined is read back, and a dangling mark is left.** Items without a mark in
them, none of them empty, are joined by marks, with nothing behind them, a single mark or
two marks and whatever follows. On complete input the items are matched, and the remainder
is the start of the tail. Where input may still grow that is so of two marks; nothing or a
single mark cuts the run short at the end, with the items for a partial result. -/
theorem separatedItems_of_joined {c : ε} {items : List (List ε)} (hne : items ≠ [])
    (hitems : ∀ item ∈ items, item ≠ [] ∧ c ∉ item) (tail : List ε) :
    ((tail = [] ∨ tail = [c] ∨ [c, c] <+: tail) →
      (separatedItems (char [c]) (otherThan [c])).run (.complete ([c].intercalate items ++ tail)) =
        .matched items { Cursor.complete ([c].intercalate items ++ tail) with
          pos := ([c].intercalate items).length }) ∧
    ([c, c] <+: tail →
      (separatedItems (char [c]) (otherThan [c])).run (.streaming ([c].intercalate items ++ tail)) =
        .matched items { Cursor.streaming ([c].intercalate items ++ tail) with
          pos := ([c].intercalate items).length }) ∧
    ((tail = [] ∨ tail = [c]) →
      (separatedItems (char [c]) (otherThan [c])).run (.streaming ([c].intercalate items ++ tail)) =
        .truncated (some items) { Cursor.streaming ([c].intercalate items ++ tail) with
          pos := ([c].intercalate items ++ tail).length }) := by
  generalize hjoined : [c].intercalate items = joined
  generalize hg : separatedItems (char [c]) (otherThan [c]) = g
  have hverdict : ∀ (final : Bool) (s : List ε), g.verdict final s = turns c final s s := by
    subst hg
    exact fun _ _ => verdict_separatedItems _ _ _ _
  have hmatched : ∀ final, g.verdict final (joined ++ tail) = .matched items tail →
      g.run (.start final (joined ++ tail)) =
        .matched items { Cursor.start final (joined ++ tail) with pos := joined.length } := by
    intro final h
    rw [run_of_matched_append h, Cursor.advance]
    simp [Cursor.start]
  have htwo : [c, c] <+: tail →
      ∀ final, g.verdict final (joined ++ tail) = .matched items tail := by
    rintro ⟨more, rfl⟩ final
    rw [hverdict, ← hjoined]
    exact turns_two_marks hne hitems final more _
  have hend : (tail = [] ∨ tail = [c]) → ∀ final, g.verdict final (joined ++ tail) =
      if final then .matched items tail else .truncated (some items) [] := by
    intro htail final
    rw [hverdict, ← hjoined]
    exact turns_at_end hne hitems htail final _
  refine ⟨?_, fun h => hmatched false (htwo h false), fun h => ?_⟩
  · rintro (h | h | h)
    · exact hmatched true (hend (.inl h) true)
    · exact hmatched true (hend (.inr h) true)
    · exact hmatched true (htwo h true)
  · show g.run (.start false (joined ++ tail)) = _
    rw [run_of_truncated_nil (hend h false), Cursor.advance]
    simp [Cursor.start, Cursor.streaming]

/-- Two words with commas behind them: two, and then one. -/
theorem separatedItems_of_joined_words :
    let c := CodePoint.ofChar ','
    let items := [Text.ofChars ['a', 'b'], Text.ofChars ['c']]
    let g : Grammar CodePoint (List Text) := separatedItems (char [c]) (otherThan [c])
    (items ≠ [] ∧ (∀ item ∈ items, item ≠ [] ∧ c ∉ item) ∧ [c, c] <+: [c, c]) ∧
      g.run (.complete (Text.ofChars ['a', 'b', ',', 'c', ',', ','])) =
        .matched items
          { Cursor.complete (Text.ofChars ['a', 'b', ',', 'c', ',', ',']) with pos := 4 } ∧
      g.run (.streaming (Text.ofChars ['a', 'b', ',', 'c', ',', ','])) =
        .matched items
          { Cursor.streaming (Text.ofChars ['a', 'b', ',', 'c', ',', ',']) with pos := 4 } ∧
      g.run (.streaming (Text.ofChars ['a', 'b', ',', 'c', ','])) =
        .truncated (some items)
          { Cursor.streaming (Text.ofChars ['a', 'b', ',', 'c', ',']) with pos := 5 } := by
  intro c items g
  have hitems : ∀ item ∈ items, item ≠ [] ∧ c ∉ item := by decide
  have htwo := separatedItems_of_joined (by decide) hitems [c, c]
  have hone := separatedItems_of_joined (by decide) hitems [c]
  exact ⟨⟨by decide, hitems, List.prefix_rfl⟩, htwo.1 (.inr (.inr List.prefix_rfl)),
    htwo.2.1 List.prefix_rfl, hone.2.2 (.inr rfl)⟩

end StreamGrammar.Grammar
