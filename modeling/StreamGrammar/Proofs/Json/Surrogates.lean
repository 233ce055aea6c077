import StreamGrammar.Proofs.Json.Canonical

/-!
# Surrogates in what is parsed

A surrogate is no character, and a value that holds one has no JSON text. Three rules
of reading keep surrogates out: an escape that is half of a pair is malformed, the
halves of a pair make a character above them, and bytes that encode a surrogate are
not UTF-8. Text has no such rule. Its elements are code points already, and a
surrogate among them is an element like any other; so it passes into the string or
key that it stands in, and the writer refuses the value later on.

That is the only way in (`surrogates_of_parse`): bytes are never parsed as a value
with a surrogate, and of text each surrogate of the value stands in the text itself.
The induction is on the form, and comes down to single pieces of strings, of which
only one that stands for itself can denote a surrogate (`plain_of_surrogate`).
-/

namespace StreamGrammar

namespace JsonTree

variable {φ : Type}

mutual

/-- **All strings and keys** of a tree, in the order of writing. -/
def texts : JsonTree φ → List Text
  | string s => [s]
  | array items => textsItems items
  | object members => textsMembers members
  | _ => []

/-- The strings and keys in the items of an array. -/
def textsItems : List (JsonTree φ) → List Text
  | [] => []
  | item :: items => texts item ++ textsItems items

/-- The strings and keys in the members of an object. -/
def textsMembers : List (Text × JsonTree φ) → List Text
  | [] => []
  | (key, item) :: members => key :: (texts item ++ textsMembers members)

end

theorem mem_textsItems {items : List (JsonTree φ)} {s : Text} :
    s ∈ textsItems items ↔ ∃ v ∈ items, s ∈ v.texts := by
  induction items with
  | nil => simp [textsItems]
  | cons v items ih => simp [textsItems, ih]

theorem mem_textsMembers {members : List (Text × JsonTree φ)} {s : Text} :
    s ∈ textsMembers members ↔ ∃ m ∈ members, s = m.1 ∨ s ∈ m.2.texts := by
  induction members with
  | nil => simp [textsMembers]
  | cons m members ih => simp [textsMembers, ih, or_assoc]

/-- **A tree that holds a surrogate**, in a string or a key. -/
def HoldsSurrogate (v : JsonTree φ) (c : CodePoint) : Prop :=
  c.isSurrogate = true ∧ ∃ s ∈ v.texts, c ∈ s

/-! ## What the writer refuses -/

theorem surrogate_of_writeCodePoint {c d : CodePoint}
    (h : writeCodePoint c = .error (.unwritable (.loneSurrogate d))) :
    c.isSurrogate = true ∧ c = d := by
  unfold writeCodePoint at h
  split_ifs at h with _ _ _ _ _ _ _ _ hc
  cases h
  exact ⟨hc, rfl⟩

theorem surrogate_of_writeCodePoints {t : Text} {d : CodePoint} {out : Array CodePoint}
    (h : writeCodePoints out t = .error (.unwritable (.loneSurrogate d))) :
    d.isSurrogate = true ∧ d ∈ t := by
  induction t generalizing out with
  | nil => cases h
  | cons c t ih =>
    rw [writeCodePoints] at h
    cases hc : writeCodePoint c with
    | error failure =>
      rw [hc] at h
      cases h
      obtain ⟨hsurrogate, rfl⟩ := surrogate_of_writeCodePoint hc
      exact ⟨hsurrogate, List.mem_cons_self⟩
    | ok written =>
      rw [hc] at h
      obtain ⟨hsurrogate, hmem⟩ := ih h
      exact ⟨hsurrogate, List.mem_cons_of_mem _ hmem⟩

theorem surrogate_of_writeString {t : Text} {d : CodePoint} {out : Array CodePoint}
    (h : writeString out t = .error (.unwritable (.loneSurrogate d))) :
    d.isSurrogate = true ∧ d ∈ t := by
  rw [writeString] at h
  cases ht : writeCodePoints (out.push (CodePoint.ofChar '"')) t with
  | error failure =>
    rw [ht] at h
    cases h
    exact surrogate_of_writeCodePoints ht
  | ok out => rw [ht] at h; cases h

/-- No number is refused for a surrogate. -/
theorem ne_loneSurrogate_of_append {out : Array CodePoint} {written : Except Failure Text}
    {c : CodePoint} (h : append out written = .error (.unwritable (.loneSurrogate c))) :
    written = .error (.unwritable (.loneSurrogate c)) := by
  cases written with
  | error failure => cases h; rfl
  | ok w => cases h

mutual

/-- **A surrogate that the writer refuses stands in a string or key of the tree.** -/
theorem holdsSurrogate_of_write (leaf : φ → Datum) {c : CodePoint} :
    ∀ (v : JsonTree φ) {guard : DepthGuard} {out : Array CodePoint},
      write leaf guard out v = .error (.unwritable (.loneSurrogate c)) → v.HoldsSurrogate c
  | null, _, _, h => by
    rw [write] at h
    cases h
  | bool true, _, _, h => by
    rw [write] at h
    cases h
  | bool false, _, _, h => by
    rw [write] at h
    cases h
  | unsigned n, _, _, h => by
    rw [write] at h
    have h := ne_loneSurrogate_of_append h
    unfold writeUnsigned writeNatural at h
    split at h <;> (split_ifs at h <;> cases h)
  | signed n, _, _, h => by
    rw [write] at h
    have h := ne_loneSurrogate_of_append h
    unfold writeSigned writeNatural at h
    split_ifs at h <;> cases h
  | float x, _, _, h => by
    rw [write] at h
    have h := ne_loneSurrogate_of_append h
    unfold writeFloat at h
    split_ifs at h
    cases h
  | string s, _, _, h => by
    rw [write] at h
    obtain ⟨hc, hmem⟩ := surrogate_of_writeString h
    exact ⟨hc, s, by simp [texts], hmem⟩
  | array items, guard, out, h => by
    rw [write] at h
    split at h
    · rename_i failure henter
      cases DepthGuard.enter_eq_error henter
      cases h
    · exact holdsSurrogate_of_writeItems leaf items h
  | object members, guard, out, h => by
    rw [write] at h
    split at h
    · rename_i failure henter
      cases DepthGuard.enter_eq_error henter
      cases h
    · exact holdsSurrogate_of_writeMembers leaf members h
  | foreign x, _, _, h => by
    rw [write] at h
    cases h

theorem holdsSurrogate_of_writeItems (leaf : φ → Datum) {c : CodePoint} :
    ∀ (items : List (JsonTree φ)) {guard : DepthGuard} {out : Array CodePoint} {first : Bool},
      writeItems leaf guard out first items = .error (.unwritable (.loneSurrogate c)) →
        (array items).HoldsSurrogate c
  | [], _, _, _, h => by
    rw [writeItems] at h
    cases h
  | item :: items, guard, out, first, h => by
    rw [writeItems] at h
    split at h
    · rename_i failure hitem
      cases h
      obtain ⟨hc, s, hs, hmem⟩ := holdsSurrogate_of_write leaf item hitem
      exact ⟨hc, s, by simp [texts, textsItems, hs], hmem⟩
    · obtain ⟨hc, s, hs, hmem⟩ := holdsSurrogate_of_writeItems leaf items h
      exact ⟨hc, s, List.mem_append_right _ hs, hmem⟩

theorem holdsSurrogate_of_writeMembers (leaf : φ → Datum) {c : CodePoint} :
    ∀ (members : List (Text × JsonTree φ)) {guard : DepthGuard} {out : Array CodePoint}
      {first : Bool},
      writeMembers leaf guard out first members = .error (.unwritable (.loneSurrogate c)) →
        (object members).HoldsSurrogate c
  | [], _, _, _, h => by
    rw [writeMembers] at h
    cases h
  | (key, item) :: members, guard, out, first, h => by
    rw [writeMembers] at h
    split at h
    · rename_i failure hkey
      cases h
      obtain ⟨hc, hmem⟩ := surrogate_of_writeString hkey
      exact ⟨hc, key, List.mem_cons_self, hmem⟩
    · split at h
      · rename_i failure hitem
        cases h
        obtain ⟨hc, s, hs, hmem⟩ := holdsSurrogate_of_write leaf item hitem
        exact ⟨hc, s, by simp [texts, textsMembers, hs], hmem⟩
      · obtain ⟨hc, s, hs, hmem⟩ := holdsSurrogate_of_writeMembers leaf members h
        exact ⟨hc, s, List.mem_cons_of_mem _ (List.mem_append_right _ hs), hmem⟩

end

end JsonTree

namespace Json

open JsonTree Grammar

/-! ## What forms denote -/

/-- A string denotes the surrogates that stand in it. -/
theorem mem_of_spellsString {ps : List Piece} {written : Text} (hps : SpellsString ps written)
    {s : Text} (h : textOf? ps = some s) {c : CodePoint} (hc : c.isSurrogate = true)
    (hmem : c ∈ s) : c ∈ written := by
  obtain ⟨hpieces, rfl⟩ := hps
  refine List.mem_cons_of_mem _ (List.mem_append_left _ ?_)
  induction ps generalizing s with
  | nil =>
    cases h
    cases hmem
  | cons p ps ih =>
    obtain ⟨hp, hpieces⟩ := List.forall_mem_cons.mp hpieces
    rw [textOf?_cons] at h
    obtain ⟨d, hd, h⟩ := Option.bind_eq_some_iff.mp h
    obtain ⟨u, hu, rfl⟩ := Option.map_eq_some_iff.mp h
    rcases List.mem_cons.mp hmem with rfl | hmem
    · obtain rfl := plain_of_surrogate hp hd hc
      exact List.mem_append_left _ List.mem_cons_self
    · exact List.mem_append_right _ (ih hu hmem hpieces)

/-- What stands in what is padded stands between the blanks, too. -/
theorem mem_of_padded {spelled : Text → Prop} {t : Text} (h : Padded spelled t) :
    ∃ inner, spelled inner ∧ ∀ c ∈ inner, c ∈ t := by
  obtain ⟨before, inner, after, _, hinner, _, rfl⟩ := h
  exact ⟨inner, hinner, fun c hc => List.mem_append_right _ (List.mem_append_left _ hc)⟩

/-- No comma is a surrogate. -/
theorem mem_of_mem_comma {c : CodePoint} (hc : c.isSurrogate = true) {t : Text}
    (h : c ∈ CodePoint.ofChar ',' :: t) : c ∈ t := by
  rcases List.mem_cons.mp h with rfl | h
  · rw [CodePoint.isSurrogate_ofChar] at hc
    cases hc
  · exact h

mutual

/-- **What a form denotes holds only surrogates that stand in its text.** -/
theorem mem_of_form : ∀ (f : Form) {t : Text} {v : Json}, f.Spells t → f.value? = some v →
    ∀ {c : CodePoint}, v.HoldsSurrogate c → c ∈ t
  | .null, _, _, _, h, _, hc => by
    cases h
    obtain ⟨_, s, hs, _⟩ := hc
    cases hs
  | .bool _, _, _, _, h, _, hc => by
    cases h
    obtain ⟨_, s, hs, _⟩ := hc
    cases hs
  | .number n, _, _, _, h, _, hc => by
    obtain ⟨_, s, hs, _⟩ := hc
    obtain ⟨_, rfl⟩ | ⟨_, rfl⟩ | ⟨_, rfl⟩ := NumberForm.number_of_value? h <;> cases hs
  | .string ps, t, v, hspells, h, c, hc => by
    obtain ⟨text, htext, rfl⟩ := Option.map_eq_some_iff.mp h
    obtain ⟨hsurrogate, s, hs, hmem⟩ := hc
    obtain rfl : s = text := by simpa [texts] using hs
    exact mem_of_spellsString hspells htext hsurrogate hmem
  | .array fs, t, v, hspells, h, c, hc => by
    obtain ⟨items, hitems, rfl⟩ := Option.map_eq_some_iff.mp h
    obtain ⟨inner, hinner, rfl⟩ := hspells
    obtain ⟨hsurrogate, s, hs, hmem⟩ := hc
    obtain ⟨v, hv, hs⟩ := mem_textsItems.mp hs
    refine List.mem_cons_of_mem _ (List.mem_append_left _ ?_)
    rcases spellsMoreItems_comma hinner with rfl | hmore
    · cases hitems
      cases hv
    · exact mem_of_mem_comma hsurrogate
        (mem_of_moreItems fs hmore hitems v hv ⟨hsurrogate, s, hs, hmem⟩)
  | .object ms, t, v, hspells, h, c, hc => by
    obtain ⟨members, hmembers, rfl⟩ := Option.map_eq_some_iff.mp h
    obtain ⟨inner, hinner, rfl⟩ := hspells
    obtain ⟨hsurrogate, s, hs, hmem⟩ := hc
    obtain ⟨m, hm, hs⟩ := mem_textsMembers.mp hs
    -- a member that is left when repeated keys are merged is one of the members
    have hm := (Entries.ofPairs_spec members).2 m hm
    refine List.mem_cons_of_mem _ (List.mem_append_left _ ?_)
    rcases spellsMoreMembers_comma hinner with rfl | hmore
    · cases hmembers
      cases hm
    · obtain ⟨hkey, hvalue⟩ := mem_of_moreMembers ms hmore hmembers m hm hsurrogate
      refine mem_of_mem_comma hsurrogate ?_
      rcases hs with rfl | hs
      · exact hkey hmem
      · exact hvalue ⟨hsurrogate, s, hs, hmem⟩

/-- The items of an array. -/
theorem mem_of_moreItems : ∀ (fs : List Form) {t : Text} {items : List Json},
    Form.SpellsMoreItems fs t → Form.itemValues? fs = some items → ∀ v ∈ items,
      ∀ {c : CodePoint}, v.HoldsSurrogate c → c ∈ t
  | [], _, _, _, h, _, hv, _, _ => by
    cases h
    cases hv
  | f :: fs, t, items, hspells, h, w, hw, c, hc => by
    obtain ⟨v, hv, h⟩ := Option.bind_eq_some_iff.mp h
    obtain ⟨others, hothers, rfl⟩ := Option.map_eq_some_iff.mp h
    obtain ⟨first, rest, hfirst, hrest, rfl⟩ := hspells
    obtain ⟨inner, hinner, hsub⟩ := mem_of_padded hfirst
    refine List.mem_cons_of_mem _ (List.mem_append.mpr ?_)
    rcases List.mem_cons.mp hw with rfl | hw
    · exact .inl (hsub c (mem_of_form f hinner hv hc))
    · exact .inr (mem_of_moreItems fs hrest hothers w hw hc)

/-- The members of an object. -/
theorem mem_of_moreMembers : ∀ (ms : List (List Piece × Form)) {t : Text}
    {members : List (Text × Json)}, Form.SpellsMoreMembers ms t →
      Form.memberValues? ms = some members → ∀ m ∈ members,
        ∀ {c : CodePoint}, c.isSurrogate = true →
          (c ∈ m.1 → c ∈ t) ∧ (m.2.HoldsSurrogate c → c ∈ t)
  | [], _, _, _, h, _, hm, _, _ => by
    cases h
    cases hm
  | (ps, f) :: ms, t, members, hspells, h, m, hm, c, hc => by
    obtain ⟨key, hkey, h⟩ := Option.bind_eq_some_iff.mp h
    obtain ⟨v, hv, h⟩ := Option.bind_eq_some_iff.mp h
    obtain ⟨others, hothers, rfl⟩ := Option.map_eq_some_iff.mp h
    obtain ⟨name, first, rest, hname, hfirst, hrest, rfl⟩ := hspells
    obtain ⟨quoted, hquoted, hquoted'⟩ := mem_of_padded hname
    obtain ⟨inner, hinner, hinner'⟩ := mem_of_padded hfirst
    rcases List.mem_cons.mp hm with rfl | hm
    · exact ⟨fun hmem => by simp [hquoted' c (mem_of_spellsString hquoted hkey hc hmem)],
        fun hholds => by simp [hinner' c (mem_of_form f hinner hv hholds)]⟩
    · have hmore := mem_of_moreMembers ms hrest hothers m hm hc
      exact ⟨fun hmem => by simp [hmore.1 hmem], fun hholds => by simp [hmore.2 hholds]⟩

end

/-! ## What is parsed -/

section Parsing

variable {ε : Type} [Element ε] {maxDepth maxSourceSize : Option Int} {v : Json}

/-- Whatever the limits are, what is parsed is matched as a whole. -/
theorem matched_of_parse {s : List ε} (h : parse s maxDepth maxSourceSize = .ok v) :
    ∃ limit, (text limit).verdict true s = .matched v [] := by
  rw [parse] at h
  cases hlimit : resolveLimit maxDepth with
  | error failure => rw [hlimit] at h; cases h
  | ok limit =>
    rw [hlimit] at h
    exact ⟨limit, matched_of_parseAll h⟩

/-- What is parsed spells a text in which all surrogates of the value stand. -/
theorem exists_text_of_holdsSurrogate [Spelling ε] {s : List ε}
    (h : parse s maxDepth maxSourceSize = .ok v) :
    ∃ t : Text, s = spell t ∧ (∀ c ∈ t, Spelling.Readable ε c) ∧
      ∀ c, v.HoldsSurrogate c → c ∈ t := by
  obtain ⟨limit, hmatched⟩ := matched_of_parse h
  obtain ⟨f, written, hf, -, hv, rfl⟩ := form_of_matched hmatched
  obtain ⟨inner, hinner, hsub⟩ := mem_of_padded hf
  exact ⟨written, rfl, readable_of_matched hmatched,
    fun c hc => hsub c (mem_of_form f hinner hv hc)⟩

end Parsing

theorem holdsSurrogate_of_serialize {v : Json} {maxDepth : Option Int} {c : CodePoint}
    (h : v.serialize maxDepth = .error (.unwritable (.loneSurrogate c))) :
    v.HoldsSurrogate c := by
  rw [serialize, JsonTree.serialize] at h
  cases hdepth : Limits.resolveDepth maxDepth with
  | error failure =>
    rw [hdepth] at h
    cases h
    obtain ⟨_, hwhy⟩ := Limits.invalidArgument_of_resolveDepth hdepth
    cases hwhy
  | ok depth =>
    rw [hdepth] at h
    dsimp only at h
    cases hwrite : write Empty.elim (.ofDepth depth) #[] v with
    | error failure =>
      rw [hwrite] at h
      cases h
      exact holdsSurrogate_of_write _ v hwrite
    | ok out => rw [hwrite] at h; cases h

/-- **A surrogate enters a value only as itself.** Bytes are parsed, under any limits,
only as values without surrogates in their strings and keys; text only as values whose
surrogates stand in it as themselves. And the writer refuses a value for a surrogate
only if it holds that one: never a value of bytes, and a value of text only for a
surrogate of the text. -/
theorem surrogates_of_parse (maxDepth maxSourceSize : Option Int) (v : Json) :
    (∀ b : Bytes, parse b maxDepth maxSourceSize = .ok v →
      (∀ s ∈ v.texts, ∀ c ∈ s, c.isSurrogate = false) ∧
        ∀ limit c, v.serialize limit ≠ .error (.unwritable (.loneSurrogate c))) ∧
    ∀ t : Text, parse t maxDepth maxSourceSize = .ok v →
      (∀ s ∈ v.texts, ∀ c ∈ s, c.isSurrogate = true → c ∈ t) ∧
        ∀ limit c, v.serialize limit = .error (.unwritable (.loneSurrogate c)) →
          c.isSurrogate = true ∧ c ∈ t := by
  constructor
  · intro b hparse
    obtain ⟨t, -, hread, hmem⟩ := exists_text_of_holdsSurrogate hparse
    have hnone (c : CodePoint) : ¬v.HoldsSurrogate c := fun hc => by
      have hencodable : c.isSurrogate = false := hread c (hmem c hc)
      rw [hc.1] at hencodable
      cases hencodable
    exact ⟨fun s hs c hc => Bool.eq_false_iff.mpr fun hsurrogate =>
      hnone c ⟨hsurrogate, s, hs, hc⟩, fun limit c h => hnone c (holdsSurrogate_of_serialize h)⟩
  · intro t hparse
    obtain ⟨t', rfl, -, hmem⟩ := exists_text_of_holdsSurrogate hparse
    rw [spell_codePoint]
    exact ⟨fun s hs c hc hsurrogate => hmem c ⟨hsurrogate, s, hs, hc⟩, fun limit c h =>
      ⟨(holdsSurrogate_of_serialize h).1, hmem c (holdsSurrogate_of_serialize h)⟩⟩

/-- A string of one character that needs no escape. -/
theorem parse_plain {ε : Type} [Element ε] [Spelling ε] {c : CodePoint} (hc : IsPlain c)
    (hread : Spelling.Readable ε c) :
    parse (spell [CodePoint.ofChar '"', c, CodePoint.ofChar '"'] : List ε) (some 1) (some 0) =
      .ok (.string [c]) := by
  have hform : Padded (Form.Spells (.string [.plain c]))
      [CodePoint.ofChar '"', c, CodePoint.ofChar '"'] :=
    ⟨[], _, [], by simp [IsBlank], ⟨by simpa [Piece.WellFormed] using hc, rfl⟩,
      by simp [IsBlank], rfl⟩
  refine parse_of_form (by decide) hform (fun d hd => ?_) (Nat.zero_le _) rfl
  rcases List.mem_cons.mp hd with rfl | hd
  · exact Spelling.readable_of_lt _ (by decide)
  rcases List.mem_cons.mp hd with rfl | hd
  · exact hread
  · obtain rfl := List.mem_singleton.mp hd
    exact Spelling.readable_of_lt _ (by decide)

/-- A string of one surrogate in text, and one of a character in bytes. -/
theorem surrogates_of_parse_one_character :
    let c : CodePoint := ⟨0xD800, by decide⟩
    let t : Text := [CodePoint.ofChar '"', c, CodePoint.ofChar '"']
    let b : Bytes := Utf8.encode (Text.ofChars ['"', 'é', '"'])
    let v : Json := .string [CodePoint.ofChar 'é']
    (parse b (some 1) (some 0) = .ok v ∧ (∀ s ∈ v.texts, ∀ c ∈ s, c.isSurrogate = false) ∧
      ∀ limit c, v.serialize limit ≠ .error (.unwritable (.loneSurrogate c))) ∧
    parse t (some 1) (some 0) = .ok (.string [c]) ∧
      (∀ s ∈ JsonTree.texts (.string [c] : Json), ∀ d ∈ s, d.isSurrogate = true → d ∈ t) ∧
        ∀ limit d, serialize (.string [c]) limit = .error (.unwritable (.loneSurrogate d)) →
          d.isSurrogate = true ∧ d ∈ t := by
  intro c t b v
  have hbytes : parse b (some 1) (some 0) = .ok v :=
    parse_plain (ε := UInt8) (by simp [IsPlain]) (CodePoint.isSurrogate_ofChar 'é')
  have htext : parse t (some 1) (some 0) = .ok (.string [c]) := by
    have h := parse_plain (ε := CodePoint) (c := c) (by simp [IsPlain, c]) trivial
    rwa [spell_codePoint] at h
  exact ⟨⟨hbytes, (surrogates_of_parse (some 1) (some 0) v).1 b hbytes⟩, htext,
    (surrogates_of_parse (some 1) (some 0) (.string [c])).2 t htext⟩

/-- **A surrogate that stands in text as itself is parsed**, and the value cannot be
written. -/
theorem parse_surrogate :
    let c : CodePoint := ⟨0xD800, by decide⟩
    c.isSurrogate = true ∧
      parse [CodePoint.ofChar '"', c, CodePoint.ofChar '"'] (some 1) (some 0) =
        .ok (.string [c]) ∧
      serialize (.string [c]) (some 1) = .error (.unwritable (.loneSurrogate c)) := by
  intro c
  have h := parse_plain (ε := CodePoint) (c := c) (by simp [IsPlain, c]) trivial
  rw [spell_codePoint] at h
  exact ⟨by decide, h, rfl⟩

end Json

end StreamGrammar
