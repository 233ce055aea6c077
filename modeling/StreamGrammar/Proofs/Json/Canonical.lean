import StreamGrammar.Proofs.Json.Readable
import StreamGrammar.Proofs.Json.RoundTrip
import StreamGrammar.Proofs.Json.Writable

/-!
# The text that is written of what was parsed

A value can be refused by the writer in many ways, and a text can be parsed that is
nothing like what the writer writes: with blanks, superfluous escapes, and repeated
keys. But what is parsed is what a form denotes, and such a value is never refused
(`fits_of_form`). Each of the refusals is ruled out by a rule of reading: an integer
is signed only after a minus sign, it has no more digits than may be read, a number
past the range of doubles denotes nothing, and neither does half of a surrogate pair
in an escape. What is left is a surrogate that stands in the text as itself, which
reading lets pass; so encodable text is asked for, which bytes always spell.

The limits on depth differ, as reading takes more of the stack for a container than
writing does. It is the lower one that holds for what was parsed, and so the value is
serialized within it, too; and since that is the same text, it can be parsed again.
-/

namespace StreamGrammar.Json

open JsonTree

/-! ## Strings -/

theorem isSurrogate_ofNat {n : Nat} (h : n < 0xD800 ∨ 0xDFFF < n) :
    (CodePoint.ofNat n).isSurrogate = false := by
  unfold CodePoint.ofNat
  split
  · exact Utf8.isSurrogate_eq_false.mpr h
  · decide

/-- **Only a surrogate that stands for itself denotes one.** -/
theorem plain_of_surrogate {p : Piece} (hp : p.WellFormed) {c : CodePoint}
    (h : p.value? = some c) (hc : c.isSurrogate = true) : p = .plain c := by
  have hnot (hc' : c.isSurrogate = false) : False := by
    rw [hc] at hc'
    cases hc'
  cases p with
  | plain d =>
    cases h
    rfl
  | letter letter =>
    cases h
    have hall : escapeLetters.all (fun l => !(Piece.letterValue l).isSurrogate) = true := by
      decide
    exact (hnot (by simpa using List.all_eq_true.mp hall letter hp)).elim
  | unit digits =>
    rw [Piece.value?] at h
    split at h
    · cases h
    · rename_i hunit
      cases h
      refine (hnot (isSurrogate_ofNat ?_)).elim
      simp only [isHighSurrogate, isLowSurrogate, Bool.or_eq_true, Bool.and_eq_true,
        decide_eq_true_eq] at hunit
      omega
  | pair high low =>
    obtain rfl := Option.some.inj h
    -- pairs are there for what lies above the first 65536 code points
    refine (hnot (isSurrogate_ofNat (.inr ?_))).elim
    unfold pairValue
    omega

/-- No piece of encodable text denotes a surrogate. -/
theorem isSurrogate_of_piece {p : Piece} (hp : p.WellFormed) (htext : IsEncodable p.text)
    {c : CodePoint} (h : p.value? = some c) : c.isSurrogate = false := by
  refine Bool.eq_false_iff.mpr fun hc => ?_
  obtain rfl := plain_of_surrogate hp h hc
  rw [htext c List.mem_cons_self] at hc
  cases hc

theorem isEncodable_of_pieces {ps : List Piece} (hps : ∀ p ∈ ps, p.WellFormed)
    (htext : IsEncodable (piecesText ps)) {t : Text} (h : textOf? ps = some t) :
    IsEncodable t := by
  induction ps generalizing t with
  | nil =>
    cases h
    simp [IsEncodable]
  | cons p ps ih =>
    obtain ⟨hp, hps⟩ := List.forall_mem_cons.mp hps
    obtain ⟨hone, hothers⟩ := isEncodable_append.mp htext
    rw [textOf?_cons] at h
    obtain ⟨c, hc, h⟩ := Option.bind_eq_some_iff.mp h
    obtain ⟨u, hu, rfl⟩ := Option.map_eq_some_iff.mp h
    exact isEncodable_cons.mpr ⟨isSurrogate_of_piece hp hone hc, ih hps hothers hu⟩

/-- A string in encodable text denotes encodable text. -/
theorem isEncodable_of_spellsString {ps : List Piece} {written : Text}
    (hps : SpellsString ps written) (hwritten : IsEncodable written) {t : Text}
    (h : textOf? ps = some t) : IsEncodable t := by
  obtain ⟨hpieces, rfl⟩ := hps
  exact isEncodable_of_pieces hpieces
    (isEncodable_append.mp (isEncodable_cons.mp hwritten).2).1 h

/-! ## Values that forms denote -/

/-- **A value that can be written within so many levels.** -/
structure Fits (levels : Nat) (v : Json) : Prop where
  /-- Nothing in the value is refused. -/
  writable : v.Writable
  /-- The keys of every object differ. -/
  wellKeyed : v.WellKeyed
  /-- Containers nest within the levels. -/
  nesting : v.nesting ≤ levels

section Assembly

variable {levels more : Nat} {v : Json} {items : List Json} {members : List (Text × Json)}

theorem Fits.mono (h : Fits levels v) (hle : levels ≤ more) : Fits more v :=
  ⟨h.writable, h.wellKeyed, h.nesting.trans hle⟩

theorem fits_array (h : ∀ v ∈ items, Fits levels v) : Fits (levels + 1) (.array items) where
  writable := writableItems_iff.mpr fun v hv => (h v hv).writable
  wellKeyed := wellKeyedItems_iff.mpr fun v hv => (h v hv).wellKeyed
  nesting := Nat.succ_le_succ (nestingItems_le_iff.mpr fun v hv => (h v hv).nesting)

/-- An object is what is left of its members when repeated keys are merged. -/
theorem fits_object (h : ∀ m ∈ members, IsEncodable m.1 ∧ Fits levels m.2) :
    Fits (levels + 1) (.object (Entries.ofPairs members)) := by
  obtain ⟨hnodup, hmem⟩ := Entries.ofPairs_spec members
  have hkept : ∀ m ∈ Entries.ofPairs members, IsEncodable m.1 ∧ Fits levels m.2 :=
    fun m hm => h m (hmem m hm)
  exact {
    writable := writableMembers_iff.mpr fun m hm => ⟨(hkept m hm).1, (hkept m hm).2.writable⟩
    wellKeyed := ⟨hnodup, wellKeyedMembers_iff.mpr fun m hm => (hkept m hm).2.wellKeyed⟩
    nesting := Nat.succ_le_succ (nestingMembers_le_iff.mpr fun m hm => (hkept m hm).2.nesting) }

end Assembly

/-- **A number denotes a value that can be written.** -/
theorem fits_of_number {n : NumberForm} (hn : n.WellFormed) {v : Json} (h : n.value? = some v) :
    Fits 0 v := by
  by_cases hinteger : n.fraction = none ∧ n.exponent = none
  · rw [NumberForm.value?_of_integer hinteger] at h
    split at h
    · rename_i hlen
      have hwritable := isWritable_ofDigits hn.whole.2 hlen
      generalize Numeral.ofDigits n.whole = k at h hwritable
      cases h
      split
      · have habs : (-(k : Int)).natAbs = k := by omega
        exact ⟨⟨by omega, (congrArg _ habs).trans hwritable⟩, trivial, Nat.le_refl 0⟩
      · have habs : (k : Int).natAbs = k := by omega
        exact ⟨⟨by omega, (congrArg _ habs).trans hwritable⟩, trivial, Nat.le_refl 0⟩
    · cases h
  · rw [NumberForm.value?_of_float hinteger] at h
    split at h
    · rename_i hfinite
      cases h
      exact ⟨hfinite, trivial, Nat.le_refl 0⟩
    · cases h

/-- What is padded is encodable without its blanks, too. -/
theorem inner_of_padded {spelled : Text → Prop} {t : Text} (h : Padded spelled t)
    (ht : IsEncodable t) : ∃ inner, spelled inner ∧ IsEncodable inner := by
  obtain ⟨before, inner, after, _, hinner, _, rfl⟩ := h
  exact ⟨inner, hinner, (isEncodable_append.mp (isEncodable_append.mp ht).2).1⟩

/-- What stands between the brackets of an array, but for a comma. -/
theorem spellsMoreItems_comma {items : List Form} {t : Text} (h : Form.SpellsItems items t) :
    items = [] ∨ Form.SpellsMoreItems items (CodePoint.ofChar ',' :: t) := by
  cases items with
  | nil => exact .inl rfl
  | cons item items =>
    obtain ⟨first, others, hfirst, hothers, rfl⟩ := h
    exact .inr ⟨first, others, hfirst, hothers, rfl⟩

theorem spellsMoreMembers_comma {members : List (List Piece × Form)} {t : Text}
    (h : Form.SpellsMembers members t) :
    members = [] ∨ Form.SpellsMoreMembers members (CodePoint.ofChar ',' :: t) := by
  cases members with
  | nil => exact .inl rfl
  | cons m members =>
    obtain ⟨name, first, others, hname, hfirst, hothers, rfl⟩ := h
    exact .inr ⟨name, first, others, hname, hfirst, hothers, rfl⟩

mutual

/-- **What a form of encodable text denotes can be written**, within the levels that
the form nests. -/
theorem fits_of_form : ∀ (f : Form) {t : Text} {v : Json}, f.Spells t → IsEncodable t →
    f.value? = some v → Fits f.nesting v
  | .null, _, _, _, _, h => by
    cases h
    exact ⟨trivial, trivial, Nat.le_refl 0⟩
  | .bool _, _, _, _, _, h => by
    cases h
    exact ⟨trivial, trivial, Nat.le_refl 0⟩
  | .number n, t, v, hspells, _, h => fits_of_number hspells.1 h
  | .string ps, t, v, hspells, ht, h => by
    obtain ⟨s, hs, rfl⟩ := Option.map_eq_some_iff.mp h
    exact ⟨isEncodable_of_spellsString hspells ht hs, trivial, Nat.le_refl 0⟩
  | .array fs, t, v, hspells, ht, h => by
    obtain ⟨items, hitems, rfl⟩ := Option.map_eq_some_iff.mp h
    obtain ⟨inner, hinner, rfl⟩ := hspells
    have hinner' := (isEncodable_append.mp (isEncodable_cons.mp ht).2).1
    refine fits_array ?_
    rcases spellsMoreItems_comma hinner with rfl | hmore
    · cases hitems
      simp
    · exact fits_of_moreItems fs hmore
        (isEncodable_cons.mpr ⟨CodePoint.isSurrogate_ofChar _, hinner'⟩) hitems
  | .object ms, t, v, hspells, ht, h => by
    obtain ⟨members, hmembers, rfl⟩ := Option.map_eq_some_iff.mp h
    obtain ⟨inner, hinner, rfl⟩ := hspells
    have hinner' := (isEncodable_append.mp (isEncodable_cons.mp ht).2).1
    refine fits_object ?_
    rcases spellsMoreMembers_comma hinner with rfl | hmore
    · cases hmembers
      simp
    · exact fits_of_moreMembers ms hmore
        (isEncodable_cons.mpr ⟨CodePoint.isSurrogate_ofChar _, hinner'⟩) hmembers

/-- The items of an array can be written, each within the levels that they nest. -/
theorem fits_of_moreItems : ∀ (fs : List Form) {t : Text} {items : List Json},
    Form.SpellsMoreItems fs t → IsEncodable t → Form.itemValues? fs = some items →
      ∀ v ∈ items, Fits (Form.nestingItems fs) v
  | [], _, _, _, _, h => by
    cases h
    simp
  | f :: fs, t, items, hspells, ht, h => by
    obtain ⟨v, hv, h⟩ := Option.bind_eq_some_iff.mp h
    obtain ⟨others, hothers, rfl⟩ := Option.map_eq_some_iff.mp h
    obtain ⟨first, rest, hfirst, hrest, rfl⟩ := hspells
    obtain ⟨hfirst', hrest'⟩ := isEncodable_append.mp (isEncodable_cons.mp ht).2
    obtain ⟨inner, hinner, hinner'⟩ := inner_of_padded hfirst hfirst'
    exact List.forall_mem_cons.mpr
      ⟨(fits_of_form f hinner hinner' hv).mono (Nat.le_max_left _ _), fun w hw =>
        (fits_of_moreItems fs hrest hrest' hothers w hw).mono (Nat.le_max_right _ _)⟩

/-- The members of an object can be written, each within the levels that they nest. -/
theorem fits_of_moreMembers : ∀ (ms : List (List Piece × Form)) {t : Text}
    {members : List (Text × Json)}, Form.SpellsMoreMembers ms t → IsEncodable t →
    Form.memberValues? ms = some members →
      ∀ m ∈ members, IsEncodable m.1 ∧ Fits (Form.nestingMembers ms) m.2
  | [], _, _, _, _, h => by
    cases h
    simp
  | (ps, f) :: ms, t, members, hspells, ht, h => by
    obtain ⟨key, hkey, h⟩ := Option.bind_eq_some_iff.mp h
    obtain ⟨v, hv, h⟩ := Option.bind_eq_some_iff.mp h
    obtain ⟨others, hothers, rfl⟩ := Option.map_eq_some_iff.mp h
    obtain ⟨name, first, rest, hname, hfirst, hrest, rfl⟩ := hspells
    obtain ⟨hname', hafter⟩ := isEncodable_append.mp (isEncodable_cons.mp ht).2
    obtain ⟨hfirst', hrest'⟩ := isEncodable_append.mp (isEncodable_cons.mp hafter).2
    obtain ⟨quoted, hquoted, hquoted'⟩ := inner_of_padded hname hname'
    obtain ⟨inner, hinner, hinner'⟩ := inner_of_padded hfirst hfirst'
    exact List.forall_mem_cons.mpr
      ⟨⟨isEncodable_of_spellsString hquoted hquoted' hkey,
        (fits_of_form f hinner hinner' hv).mono (Nat.le_max_left _ _)⟩, fun m hm =>
          (fits_of_moreMembers ms hrest hrest' hothers m hm).imp_right
            fun hm => hm.mono (Nat.le_max_right _ _)⟩

end

/-! ## Texts -/

/-- **What is parsed of encodable text can be written**, within the levels that the
stack bears for reading. -/
theorem fits_of_parse {t : Text} (ht : IsEncodable t) {maxDepth : Int} (h : 1 ≤ maxDepth)
    {v : Json} (hparse : parse t (some maxDepth) (some 0) = .ok v) :
    Fits (min maxDepth 47).toNat v := by
  obtain ⟨f, written, hf, hlevels, hvalue, hs⟩ := form_of_parse h hparse
  rw [spell_codePoint] at hs
  subst hs
  obtain ⟨inner, hinner, hinner'⟩ := inner_of_padded hf ht
  exact (fits_of_form f hinner hinner' hvalue).mono hlevels

/-- **What fits is serialized, and the text is parsed as the value that it was.** -/
theorem parse_of_fits {maxDepth : Int} (h : 1 ≤ maxDepth) {v : Json}
    (hv : Fits (min maxDepth 47).toNat v) :
    ∃ written, v.serialize (some maxDepth) = .ok written ∧
      parse written (some maxDepth) (some 0) = .ok v := by
  obtain ⟨written, hwritten⟩ := exists_serialized hv.writable
  have hlevels := hv.nesting
  -- serialized under the lower limit, it is seen to nest within that limit
  have hlow := hwritten (min maxDepth 47) (by omega) (by omega)
  obtain ⟨f, hf⟩ := writes_of_serialize hv.wellKeyed (by omega) hlow
  have hnesting : f.nesting ≤ (min maxDepth 47).toNat := by
    have := hf.nesting
    omega
  have hparse := parse_of_form (ε := CodePoint) h (padded_self hf.spells) (fun _ _ => trivial)
    hnesting hf.value
  rw [spell_codePoint] at hparse
  exact ⟨written, hwritten maxDepth h (by omega), hparse⟩

/-- **Whatever is parsed can be written and read back**: a value that bytes are parsed
as, or text without surrogates, is serialized under the same limit on depth; the text
is parsed as that value, with its kinds of numbers and the order of its members; and
what is parsed of it is serialized as the same text again. -/
theorem serialize_parse {maxDepth : Int} (h : 1 ≤ maxDepth) {v : Json}
    (hparse : (∃ b : Bytes, parse b (some maxDepth) (some 0) = .ok v) ∨
      ∃ t : Text, (∀ c ∈ t, c.isSurrogate = false) ∧
        parse t (some maxDepth) (some 0) = .ok v) :
    ∃ written, v.serialize (some maxDepth) = .ok written ∧
      parse written (some maxDepth) (some 0) = .ok v ∧
      ∀ again, parse written (some maxDepth) (some 0) = .ok again →
        again.serialize (some maxDepth) = .ok written := by
  obtain ⟨t, ht, htext⟩ : ∃ t : Text, IsEncodable t ∧
      parse t (some maxDepth) (some 0) = .ok v := by
    rcases hparse with ⟨b, hb⟩ | htext
    · obtain ⟨t, ht, _, htext⟩ := exists_text_of_parse h hb
      exact ⟨t, ht, htext⟩
    · exact htext
  obtain ⟨written, hwritten, hback⟩ := parse_of_fits h (fits_of_parse ht h htext)
  refine ⟨written, hwritten, hback, fun again hagain => ?_⟩
  rw [hback] at hagain
  cases hagain
  exact hwritten

/-- An object with blanks, a repeated key, a signed zero, an exponent and a surrogate
pair. -/
theorem serialize_parse_repeated_key :
    let b := Utf8.encode
      (Text.ofChars "\x7b\"a\": 1, \"b\":[-0, 1e2], \"a\":\"\\ud83d\\ude00\"\x7d".toList)
    ∃ v, (1 ≤ (2 : Int) ∧ parse b (some 2) (some 0) = .ok v) ∧
      ∃ written, v.serialize (some 2) = .ok written ∧
        parse written (some 2) (some 0) = .ok v ∧
        ∀ again, parse written (some 2) (some 0) = .ok again →
          again.serialize (some 2) = .ok written := by
  intro b
  have hsome : (parse b (some 2) (some 0)).toOption.isSome = true := by decide +kernel
  cases hv : parse b (some 2) (some 0) with
  | error failure => rw [hv] at hsome; cases hsome
  | ok v => exact ⟨v, ⟨by decide, rfl⟩, serialize_parse (by decide) (.inl ⟨b, hv⟩)⟩

end StreamGrammar.Json
