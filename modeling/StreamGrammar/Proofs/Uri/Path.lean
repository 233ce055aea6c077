import StreamGrammar.Uri.Grammar
import StreamGrammar.Proofs.Grammar.Waiting

/-!
# Inputs that break off within a path

After the colon of a scheme there may be an authority, behind two slashes, or
only a path, and `//` is a path of empty segments as well. So an input that is
cut short within the authority could, so far, be the beginning of a path, and a
choice between the two is final only if the path is cut short there too.

It is: whatever an authority consists of – names, addresses, colons, at signs,
runs of escapes – a segment may consist of, and a path reads the same runs of
escapes because no other character begins one. `Unfinished` is what the two have
in common, an input of path characters and runs of escapes that breaks off
between them or within a run. Authorities and paths pause only in such inputs
(`pausesIn_authority`, `pausesIn_relativePath`), and on each of them a path is
cut short (`relativePath_of_unfinished`).
-/

namespace StreamGrammar.Uri

open Grammar

/-! ## First characters -/

theorem begins_ascii (c : Char) :
    (ascii c : TextGrammar CodePoint).BeginsWith fun e => e.val = c.toNat :=
  (BeginsWith.satisfy _ _).mono fun e he => by
    have he' : e = Element.ofAscii c := by simpa using he
    rw [he']
    rfl

theorem begins_percentEncoded : percentEncoded.BeginsWith fun e => e.val = 0x25 :=
  ((begins_ascii '%').bind _).repeatSome.judge _ _

/-- A run of escapes does not begin with another character. -/
theorem percentEncoded_of_ne {c : CodePoint} (hc : c.val ≠ 0x25) (final : Bool) (s : Text) :
    percentEncoded.verdict final (c :: s) = .rejected :=
  begins_percentEncoded.cons final c s hc

theorem consumes_escapedByte : escapedByte.Consumes := (Consumes.satisfy _ _).bind _

theorem consumes_percentEncoded : percentEncoded.Consumes := (Consumes.repeatSome _).judge _ _

theorem begins_plusSign : plusSign.BeginsWith fun e => e.val = 0x2B :=
  (begins_ascii '+').map _

/-- A character is read by its number. -/
theorem matched_ascii_cons {a : Char} (ha : a.toNat < 0x80) {c : CodePoint}
    (hc : c.val = a.toNat) (final : Bool) (s : Text) :
    (ascii a : TextGrammar CodePoint).verdict final (c :: s) = .matched c s := by
  have hca : c = Element.ofAscii a := (Element.eq_ofAscii_iff ha).mpr hc
  exact matched_satisfy.mpr ⟨rfl, by simp [hca]⟩

/-! ## Unfinished inputs -/

/-- A character of a path: of a segment, or a plus sign or slash. -/
def isPathChar (n : Nat) : Bool := isSegmentChar n || n == 0x2F || n == 0x2B

theorem isPathChar_iff {n : Nat} :
    isPathChar n = true ↔ isSegmentChar n = true ∨ n = 0x2F ∨ n = 0x2B := by
  simp [isPathChar, or_assoc]

/-- **An input that breaks off within a path**, between characters or within a run
of escapes. -/
inductive Unfinished : Text → Prop
  /-- Nothing is left. -/
  | nil : Unfinished []
  /-- A character of a path comes first. -/
  | char {c : CodePoint} {s : Text} (hc : isPathChar c.val = true) (h : Unfinished s) :
      Unfinished (c :: s)
  /-- A run of escapes comes first. -/
  | escapes {s rest : Text} {text : Text}
      (hrun : percentEncoded.verdict false s = .matched text rest) (h : Unfinished rest) :
      Unfinished s
  /-- The input ends where a run of escapes may go on. -/
  | cut {s : Text} (h : percentEncoded.CutShort s) : Unfinished s

theorem pausesIn_ascii {P : Text → Prop} {allowed : CodePoint → Prop} (h : Extends P allowed)
    {a : Char} (ha : ∀ c : CodePoint, c.val = a.toNat → allowed c) :
    (ascii a : TextGrammar CodePoint).PausesIn P :=
  .satisfy h _ fun c hc => ha c <| by
    have hca : c = Element.ofAscii a := by simpa using hc
    rw [hca]
    rfl

namespace Unfinished

theorem extends_char : Extends Unfinished fun c => isPathChar c.val = true :=
  ⟨.nil, fun _ _ hc h => .char hc h⟩

/-- What comes first is a character of a path unless it is a percent sign. -/
theorem of_cons {c : CodePoint} {s : Text} (h : Unfinished (c :: s)) (hc : c.val ≠ 0x25) :
    isPathChar c.val = true ∧ Unfinished s := by
  cases h with
  | char hpath h => exact ⟨hpath, h⟩
  | escapes hrun h =>
    rw [percentEncoded_of_ne hc] at hrun
    cases hrun
  | cut h =>
    obtain ⟨best, rest, h⟩ := h
    rw [percentEncoded_of_ne hc] at h
    cases h

/-- At a percent sign there is a run of escapes, or the beginning of one. -/
theorem of_percent {c : CodePoint} {s : Text} (h : Unfinished (c :: s)) (hc : c.val = 0x25) :
    percentEncoded.CutShort (c :: s) ∨ ∃ text rest,
      percentEncoded.verdict false (c :: s) = .matched text rest ∧ Unfinished rest := by
  cases h with
  | char hpath h =>
    rw [hc] at hpath
    exact absurd hpath (by decide)
  | escapes hrun h => exact .inr ⟨_, _, hrun, h⟩
  | cut h => exact .inl h

theorem dropWhile {s : Text} (h : Unfinished s) {test : CodePoint → Bool}
    (htest : ∀ c, test c = true → c.val ≠ 0x25) : Unfinished (s.dropWhile test) := by
  induction s with
  | nil => exact .nil
  | cons c s ih =>
    by_cases hc : test c = true
    · rw [List.dropWhile_cons_of_pos hc]
      exact ih (h.of_cons (htest c hc)).2
    · rw [List.dropWhile_cons_of_neg hc]
      exact h

end Unfinished

theorem pausesIn_pathChar {a : Char} (ha : isPathChar a.toNat = true) :
    (ascii a : TextGrammar CodePoint).PausesIn Unfinished :=
  pausesIn_ascii Unfinished.extends_char fun c hc => by rw [hc]; exact ha

theorem pausesIn_percentEncoded : percentEncoded.PausesIn Unfinished :=
  ⟨fun _ h => .cut h, fun _ _ _ hrun h => .escapes hrun h⟩

/-! ## Paths on unfinished inputs -/

/-- A part of a segment. -/
abbrev segmentPart : TextGrammar Text :=
  eitherOf [percentEncoded, plusSign, takeSomeWhile fun c => isSegmentChar c.val]

theorem segmentPart_of_slash {c : CodePoint} (hc : c.val = 0x2F) (s : Text) :
    segmentPart.verdict false (c :: s) = .rejected := by
  refine ((begins_percentEncoded.alt (begins_plusSign.alt
    ((BeginsWith.takeSomeWhile _).alt .noAlternative))).cons false c s ?_)
  rw [hc]
  decide

/-- Characters that stand for themselves go on to the end, or to where the input is
unfinished again. -/
theorem plain_of_unfinished {c : CodePoint} {s : Text} (h : Unfinished (c :: s))
    (hc : isSegmentChar c.val = true) :
    (takeSomeWhile fun c => isSegmentChar c.val).CutShort (c :: s) ∨ ∃ text rest,
      (takeSomeWhile fun c => isSegmentChar c.val).verdict false (c :: s) = .matched text rest ∧
        rest.length < (c :: s).length ∧ Unfinished rest := by
  by_cases hend : (c :: s).dropWhile (fun c => isSegmentChar c.val) = []
  · exact .inl (.takeSomeWhile (List.dropWhile_eq_nil_iff.mp hend))
  · refine .inr ⟨(c :: s).takeWhile fun c => isSegmentChar c.val,
      (c :: s).dropWhile fun c => isSegmentChar c.val, ?_, ?_, ?_⟩
    · rw [verdict_takeSomeWhile, verdict_takeWhile, if_neg (fun hc => hend hc.1)]
      exact if_pos hc
    · have hle := (List.dropWhile_sublist (l := s) fun c => isSegmentChar c.val).length_le
      simp only [List.dropWhile_cons, hc, if_true, List.length_cons]
      omega
    · refine h.dropWhile fun e he hpercent => ?_
      rw [hpercent] at he
      exact absurd he (by decide)

/-- **On unfinished input a part of a segment is cut short or matches in front of
unfinished input**, except at a slash. -/
theorem segmentPart_of_unfinished {s : Text} (h : Unfinished s) :
    segmentPart.CutShort s ∨
      (∃ text rest, segmentPart.verdict false s = .matched text rest ∧
        rest.length < s.length ∧ Unfinished rest) ∨
      ∃ c rest, s = c :: rest ∧ c.val = 0x2F ∧ Unfinished rest := by
  cases s with
  | nil =>
    exact .inl (.alt_right begins_percentEncoded.nil (.alt_right begins_plusSign.nil
      (.alt_left (.takeSomeWhile fun _ he => nomatch he) (.inl rfl))))
  | cons c s =>
    by_cases hpercent : c.val = 0x25
    · rcases h.of_percent hpercent with hcut | ⟨text, rest, hrun, hrest⟩
      · -- nothing but a run of escapes begins with a percent sign
        refine .inl (.alt_left hcut (.inl ?_))
        refine ((begins_plusSign.alt ((BeginsWith.takeSomeWhile _).alt .noAlternative)).cons
          false c s ?_)
        rw [hpercent]
        decide
      · exact .inr (.inl ⟨text, rest, alt_of_matched _ hrun, consumes_percentEncoded hrun, hrest⟩)
    · obtain ⟨hpath, hs⟩ := h.of_cons hpercent
      have hescape := percentEncoded_of_ne hpercent false s
      rcases isPathChar_iff.mp hpath with hsegment | hslash | hplus
      · have hne : c.val ≠ 0x2B := fun hc => by
          rw [hc] at hsegment
          exact absurd hsegment (by decide)
        rcases plain_of_unfinished h hsegment with hcut | ⟨text, rest, hrun, hlt, hrest⟩
        · exact .inl (.alt_right (.inl hescape) (.alt_right
            (.inl (begins_plusSign.cons false c s hne)) (.alt_left hcut (.inl rfl))))
        · refine .inr (.inl ⟨text, rest, ?_, hlt, hrest⟩)
          exact (alt_of_rejected _ hescape).trans ((alt_of_rejected _
            (begins_plusSign.cons false c s hne)).trans (alt_of_matched _ hrun))
      · exact .inr (.inr ⟨c, s, rfl, hslash, hs⟩)
      · have hmark := matched_ascii_cons (a := '+') (by decide) hplus false s
        exact .inr (.inl ⟨" ", s, (alt_of_rejected _ hescape).trans
          (alt_of_matched _ (matched_map.mpr ⟨c, hmark, rfl⟩)), Nat.lt_succ_self _, hs⟩)

/-- **The parts of a segment go on until a slash**, or are cut short. -/
theorem segmentParts_of_unfinished {s : Text} (h : Unfinished s) :
    (repeatAny segmentPart).CutShort s ∨ ∃ texts c rest,
      (repeatAny segmentPart).verdict false s = .matched texts (c :: rest) ∧ c.val = 0x2F ∧
        Unfinished rest := by
  induction hn : s.length using Nat.strongRecOn generalizing s with
  | _ n ih =>
    subst hn
    rcases segmentPart_of_unfinished h with hcut | ⟨text, rest, hpart, hlt, hrest⟩ |
      ⟨c, rest, rfl, hc, hrest⟩
    · exact .inl hcut.repeatAny
    · rcases ih rest.length hlt hrest rfl with hcut | ⟨texts, c, rest', hmany, hc, hrest'⟩
      · exact .inl (.repeatAny_of_round hpart hlt hcut)
      · refine .inr ⟨text :: texts, c, rest', ?_, hc, hrest'⟩
        rw [verdict_repeatAny] at hmany ⊢
        rw [Verdict.many_eq, hpart]
        dsimp only
        rw [if_pos hlt, hmany]
        rfl
    · refine .inr ⟨[], c, rest, ?_, hc, hrest⟩
      rw [verdict_repeatAny, Verdict.many_eq, segmentPart_of_slash hc]

/-- A segment, which may be left out, ends at a slash or is cut short. -/
theorem optional_segment_of_unfinished {s : Text} (h : Unfinished s) :
    (optional segment).CutShort s ∨ ∃ text c rest,
      (optional segment).verdict false s = .matched text (c :: rest) ∧ c.val = 0x2F ∧
        Unfinished rest := by
  rcases segmentParts_of_unfinished h with hcut | ⟨texts, c, rest, hmany, hc, hrest⟩
  · exact .inl (hcut.repeatSome.map _).optional
  · have hrounds := Verdict.rounds_of_many ((verdict_repeatAny _ _ _).symm.trans hmany)
    cases texts with
    | nil =>
      -- no part, no segment: the slash comes first
      obtain rfl : s = c :: rest := by
        cases hrounds
        rfl
      refine .inr ⟨none, c, rest, matched_optional.mpr (.inl ⟨map_of_rejected _ ?_, rfl, rfl⟩), hc,
        hrest⟩
      rw [verdict_repeatSome, hmany]
      rfl
    | cons text texts =>
      refine .inr ⟨some (Text.concat (text :: texts)), c, rest, matched_optional.mpr
        (.inr ⟨_, matched_map.mpr ⟨text :: texts, ?_, rfl⟩, rfl⟩), hc, hrest⟩
      rw [verdict_repeatSome, hmany]
      rfl

/-- **On unfinished input a path is cut short.** -/
theorem relativePath_of_unfinished {s : Text} (h : Unfinished s) : relativePath.CutShort s := by
  refine .map ?_ _
  unfold CutShort
  rw [verdict_separatedItems]
  suffices hcut : ∀ (s after : Text), Unfinished s → ∃ best rest,
      Verdict.separated ((ascii '/' : TextGrammar CodePoint).verdict false)
        ((optional segment).verdict false) s after = .truncated best rest from hcut s s h
  clear h s
  intro s after h
  induction hn : s.length using Nat.strongRecOn generalizing s after with
  | _ n ih =>
    subst hn
    rw [Verdict.separated.eq_1]
    rcases optional_segment_of_unfinished h with ⟨best, rest, hcut⟩ |
      ⟨text, c, rest, hsegment, hc, hrest⟩
    · rw [hcut]
      exact ⟨_, _, rfl⟩
    · -- the slash is consumed, and the next segment begins on unfinished input again
      have hslash := matched_ascii_cons (a := '/') (by decide) hc false rest
      have hlt : rest.length < (c :: rest).length := Nat.lt_succ_self _
      have hlt' : rest.length < s.length :=
        Nat.lt_of_lt_of_le hlt (rest_suffix hsegment).length_le
      rw [hsegment]
      dsimp only
      rw [hslash]
      dsimp only
      obtain ⟨best, stop, hmore⟩ := ih rest.length hlt' rest (c :: rest) hrest rfl
      rw [if_pos ⟨hlt, hlt'⟩, hmore]
      exact ⟨_, _, rfl⟩

/-- On unfinished input a path after a slash is cut short too, or there is no
slash. -/
theorem absolutePath_of_unfinished {s : Text} (h : Unfinished s) :
    absolutePath.verdict false s = .rejected ∨ absolutePath.CutShort s := by
  cases s with
  | nil => exact ((begins_ascii '/').bind _).nil
  | cons c s =>
    by_cases hc : c.val = 0x2F
    · have hslash := matched_ascii_cons (a := '/') (by decide) hc false s
      have hne : c.val ≠ 0x25 := by rw [hc]; decide
      exact .inr (.bind_of_matched hslash (relativePath_of_unfinished (h.of_cons hne).2))
    · exact .inl (((begins_ascii '/').bind _).cons false c s hc)

end StreamGrammar.Uri
