import StreamGrammar.Json.Writer
import StreamGrammar.Proofs.Entries
import StreamGrammar.Proofs.Json.Number
import StreamGrammar.Proofs.Json.Numeral
import StreamGrammar.Proofs.Json.String

/-!
# What is written is a text of a form

The writer is another program than the grammar, and what they share is the texts
of JSON: what is written of a value is a text of a form that denotes the value.
Each case of the writer chooses one production – an escape by letter where there
is one, digits without superfluous zeros, no blank space anywhere – and each
refusal of the writer is needed for a value that no form denotes, or that no
bytes spell.

A form denotes an object only as it is after repeated keys are merged, so it is
asked of a value that the keys of its objects differ; a mapping has no others.
-/

namespace StreamGrammar.JsonTree

variable {φ : Type}

mutual

/-- **The keys of every object differ.** -/
def WellKeyed : JsonTree φ → Prop
  | array items => WellKeyedItems items
  | object members => (members.map Prod.fst).Nodup ∧ WellKeyedMembers members
  | _ => True

/-- The keys of every object in the items of an array differ. -/
def WellKeyedItems : List (JsonTree φ) → Prop
  | [] => True
  | item :: items => WellKeyed item ∧ WellKeyedItems items

/-- The keys of every object in the members of an object differ. -/
def WellKeyedMembers : List (Text × JsonTree φ) → Prop
  | [] => True
  | (_, item) :: members => WellKeyed item ∧ WellKeyedMembers members

end

end StreamGrammar.JsonTree

namespace StreamGrammar.Json

open JsonTree

/-- Text that has an encoding in bytes. -/
def IsEncodable (t : Text) : Prop := ∀ c ∈ t, c.isSurrogate = false

theorem isEncodable_append {t u : Text} :
    IsEncodable (t ++ u) ↔ IsEncodable t ∧ IsEncodable u :=
  List.forall_mem_append

theorem isEncodable_cons {c : CodePoint} {t : Text} :
    IsEncodable (c :: t) ↔ c.isSurrogate = false ∧ IsEncodable t :=
  List.forall_mem_cons

theorem isEncodable_of_lt {t : Text} (h : ∀ c ∈ t, c.val < 0x80) : IsEncodable t := fun c hc => by
  have := h c hc
  simp only [CodePoint.isSurrogate, Bool.and_eq_false_iff, decide_eq_false_iff_not]
  omega

theorem isEncodable_ofChars (cs : List Char) : IsEncodable (Text.ofChars cs) := fun c hc => by
  obtain ⟨d, _, rfl⟩ := List.mem_map.mp hc
  exact CodePoint.isSurrogate_ofChar d

/-! ## Strings -/

/-- The escape that a control character is given by its number. -/
theorem isHex4_hex {n : Nat} (h : n < 0x20) :
    IsHex4 (Numeral.hex false 4 n) ∧ hexNumber (Numeral.hex false 4 n) = n := by
  refine ⟨⟨Numeral.length_hex _ _ _, ?_⟩, ?_⟩
  · exact (show ∀ n < 0x20, ∀ d ∈ Numeral.hex false 4 n, Charset.isHexDigit d.val = true by
      decide) n h
  · exact (show ∀ n < 0x20, hexNumber (Numeral.hex false 4 n) = n by decide) n h

/-- **What is written of a code point is a piece that denotes it.** -/
theorem piece_of_writeCodePoint {c : CodePoint} {written : Text}
    (h : writeCodePoint c = .ok written) :
    ∃ p : Piece, p.WellFormed ∧ written = p.text ∧ p.value? = some c ∧ IsEncodable written := by
  have hletter : ∀ letter ∈ escapeLetters, Piece.letterValue letter = c →
      ∃ p : Piece, p.WellFormed ∧ Text.ofChars ['\\', letter] = p.text ∧ p.value? = some c ∧
        IsEncodable (Text.ofChars ['\\', letter]) := fun letter hmem hvalue =>
    ⟨.letter letter, hmem, rfl, congrArg some hvalue, isEncodable_ofChars _⟩
  -- the writer asks for one character with a letter after the other
  unfold writeCodePoint at h
  split at h
  · cases h
    exact hletter '"' (by decide) (CodePoint.ext (Eq.symm ‹_›))
  split at h
  · cases h
    exact hletter '\\' (by decide) (CodePoint.ext (Eq.symm ‹_›))
  split at h
  · cases h
    exact hletter 'b' (by decide) (CodePoint.ext (Eq.symm ‹_›))
  split at h
  · cases h
    exact hletter 'f' (by decide) (CodePoint.ext (Eq.symm ‹_›))
  split at h
  · cases h
    exact hletter 'n' (by decide) (CodePoint.ext (Eq.symm ‹_›))
  split at h
  · cases h
    exact hletter 'r' (by decide) (CodePoint.ext (Eq.symm ‹_›))
  split at h
  · cases h
    exact hletter 't' (by decide) (CodePoint.ext (Eq.symm ‹_›))
  split at h
  · rename_i hcontrol
    cases h
    obtain ⟨hdigits, hnumber⟩ := isHex4_hex hcontrol
    refine ⟨.unit (Numeral.hex false 4 c.val), hdigits, rfl, ?_,
      isEncodable_append.mpr ⟨isEncodable_ofChars _, isEncodable_of_lt hdigits.lt⟩⟩
    -- a control character is no half of a pair, so its digits denote it
    have hhigh : isHighSurrogate c.val = false := by
      simp only [isHighSurrogate, Bool.and_eq_false_iff, decide_eq_false_iff_not]
      omega
    have hlow : isLowSurrogate c.val = false := by
      simp only [isLowSurrogate, Bool.and_eq_false_iff, decide_eq_false_iff_not]
      omega
    rw [Piece.value?, hnumber, hhigh, hlow, CodePoint.ofNat_val]
    rfl
  split at h
  · cases h
  · rename_i hquote hbackslash _ _ _ _ _ hcontrol hsurrogate
    cases h
    exact ⟨.plain c, ⟨by omega, hquote, hbackslash⟩, rfl, rfl,
      isEncodable_cons.mpr ⟨Bool.eq_false_iff.mpr hsurrogate, by simp [IsEncodable]⟩⟩

/-- The code points of a string are written as pieces, one after another. -/
theorem pieces_of_writeCodePoints {t : Text} {out written : Array CodePoint}
    (h : writeCodePoints out t = .ok written) :
    ∃ ps : List Piece, (∀ p ∈ ps, p.WellFormed) ∧ textOf? ps = some t ∧
      IsEncodable (piecesText ps) ∧ written.toList = out.toList ++ piecesText ps := by
  induction t generalizing out with
  | nil =>
    cases h
    exact ⟨[], by simp, rfl, by simp [IsEncodable, piecesText], by simp [piecesText]⟩
  | cons c t ih =>
    rw [writeCodePoints] at h
    split at h
    · cases h
    · rename_i one hone
      obtain ⟨p, hp, rfl, hvalue, hencodable⟩ := piece_of_writeCodePoint hone
      obtain ⟨ps, hps, htext, hencodable', htoList⟩ := ih h
      refine ⟨p :: ps, List.forall_mem_cons.mpr ⟨hp, hps⟩, ?_, ?_, ?_⟩
      · rw [textOf?_cons, hvalue, htext]
        rfl
      · exact isEncodable_append.mpr ⟨hencodable, hencodable'⟩
      · rw [htoList, Array.toList_appendList, List.append_assoc]
        rfl

/-- A string is written as one. -/
theorem spellsString_of_writeString {t : Text} {out written : Array CodePoint}
    (h : writeString out t = .ok written) :
    ∃ (ps : List Piece) (w : Text), SpellsString ps w ∧ textOf? ps = some t ∧ IsEncodable w ∧
      written.toList = out.toList ++ w := by
  rw [writeString] at h
  split at h
  · cases h
  · rename_i inside hinside
    cases h
    obtain ⟨ps, hps, htext, hencodable, htoList⟩ := pieces_of_writeCodePoints hinside
    have hquote := CodePoint.isSurrogate_ofChar '"'
    refine ⟨ps, _, ⟨hps, rfl⟩, htext, ?_, ?_⟩
    · exact isEncodable_cons.mpr ⟨hquote, isEncodable_append.mpr
        ⟨hencodable, isEncodable_cons.mpr ⟨hquote, by simp [IsEncodable]⟩⟩⟩
    · simp [htoList]

/-! ## Numbers -/

/-- A number is written with ASCII characters. -/
theorem isEncodable_numberText {n : NumberForm} (h : n.WellFormed) : IsEncodable n.text := by
  have hdigits : ∀ {ds : List Nat}, AreDigits ds → IsEncodable (digitsText ds) := fun hds =>
    isEncodable_of_lt (digitsText_lt hds.2)
  have hfraction : IsEncodable (NumberForm.fractionText n.fraction) := by
    cases hn : n.fraction with
    | none => simp [NumberForm.fractionText, IsEncodable]
    | some ds =>
      exact isEncodable_cons.mpr ⟨CodePoint.isSurrogate_ofChar _, hdigits (h.fraction ds hn)⟩
  have hexponent : IsEncodable (NumberForm.exponentText n.exponent) := by
    cases hn : n.exponent with
    | none => simp [NumberForm.exponentText, IsEncodable]
    | some e =>
      have hsign : IsEncodable (ExponentForm.signText e.minus) := by
        cases e.minus with
        | none => simp [ExponentForm.signText, IsEncodable]
        | some minus => exact isEncodable_ofChars [_]
      exact isEncodable_cons.mpr ⟨CodePoint.isSurrogate_ofChar _,
        isEncodable_append.mpr ⟨hsign, hdigits (h.exponent e hn)⟩⟩
  refine isEncodable_append.mpr ⟨?_, isEncodable_append.mpr ⟨hdigits h.whole,
    isEncodable_append.mpr ⟨hfraction, hexponent⟩⟩⟩
  split
  · exact isEncodable_ofChars ['-']
  · simp [IsEncodable]

/-- **What is written of a number is a number that denotes it**, of the same kind. -/
def WritesNumber (written : Text) (v : Json) : Prop :=
  ∃ n : NumberForm, n.WellFormed ∧ written = n.text ∧ n.value? = some v

theorem writesNumber_unsigned {n : Int} {written : Text} (h : writeUnsigned n = .ok written) :
    WritesNumber written (.unsigned n) := by
  cases n with
  | ofNat n =>
    rw [writeUnsigned, writeNatural] at h
    split at h
    · rename_i hwritable
      cases h
      exact ⟨integerForm false n, wellFormed_integerForm _ _, (text_integerForm false n).symm,
        value?_integerForm false hwritable⟩
    · cases h
  | negSucc m =>
    rw [writeUnsigned] at h
    split at h <;> cases h

theorem writesNumber_signed {n : Int} {written : Text} (h : writeSigned n = .ok written) :
    WritesNumber written (.signed n) := by
  rw [writeSigned] at h
  split at h
  · split at h <;> cases h
  · rename_i hnonpos
    rw [writeNatural] at h
    split at h
    · cases h
    · rename_i digits hdigits
      cases h
      split at hdigits
      · rename_i hwritable
        cases hdigits
        have hn : -(n.natAbs : Int) = n := by omega
        have hvalue := value?_integerForm true hwritable
        rw [if_pos rfl, hn] at hvalue
        exact ⟨integerForm true n.natAbs, wellFormed_integerForm _ _,
          (text_integerForm true n.natAbs).symm, hvalue⟩
      · cases hdigits

theorem writesNumber_float {x : Binary64} {written : Text} (h : writeFloat x = .ok written) :
    WritesNumber written (.float x) := by
  rw [writeFloat] at h
  split at h
  · cases h
    exact ⟨doubleForm x, wellFormed_doubleForm ‹_›, (text_doubleForm ‹_›).symm,
      value?_doubleForm ‹_›⟩
  · cases h

/-! ## Trees -/

/-- **A form of a value and a text of it**, nested no deeper than so many levels. -/
structure Writes (levels : Int) (written : Text) (f : Form) (v : Json) : Prop where
  /-- The text is one of the form. -/
  spells : f.Spells written
  /-- The form denotes the value. -/
  value : f.value? = some v
  /-- Containers nest within the levels. -/
  nesting : (f.nesting : Int) ≤ levels
  /-- The text has an encoding in bytes. -/
  encodable : IsEncodable written

theorem append_eq_ok {out written : Array CodePoint} {one : Except Failure Text}
    (h : append out one = .ok written) :
    ∃ w, one = .ok w ∧ written.toList = out.toList ++ w := by
  cases one with
  | error failure => cases h
  | ok w =>
    cases h
    exact ⟨w, rfl, Array.toList_appendList⟩

theorem padded_self {spelled : Text → Prop} {t : Text} (h : spelled t) : Padded spelled t :=
  ⟨[], t, [], by simp [IsBlank], h, by simp [IsBlank], by simp⟩

/-- Forms of the items of an array and a text of them, of one of the two kinds that
differ in the comma before the first. -/
structure WritesItems (spelled : List Form → Text → Prop) (levels : Int) (written : Text)
    (fs : List Form) (items : List Json) : Prop where
  /-- The text is one of the forms. -/
  spells : spelled fs written
  /-- The forms denote the items. -/
  values : Form.itemValues? fs = some items
  /-- Containers nest within the levels. -/
  nesting : (Form.nestingItems fs : Int) ≤ levels
  /-- The text has an encoding in bytes. -/
  encodable : IsEncodable written

/-- The same for the members of an object. -/
structure WritesMembers (spelled : List (List Piece × Form) → Text → Prop) (levels : Int)
    (written : Text) (fs : List (List Piece × Form)) (members : List (Text × Json)) : Prop where
  /-- The text is one of the forms. -/
  spells : spelled fs written
  /-- The forms denote the members. -/
  values : Form.memberValues? fs = some members
  /-- Containers nest within the levels. -/
  nesting : (Form.nestingMembers fs : Int) ≤ levels
  /-- The text has an encoding in bytes. -/
  encodable : IsEncodable written

section Assembly

variable {levels : Int} {w others : Text} {f : Form} {v : Json} {fs : List Form}
  {items : List Json} {ms : List (List Piece × Form)} {members : List (Text × Json)}

theorem writes_number (hlevels : 0 ≤ levels) (h : WritesNumber w v) :
    ∃ f, Writes levels w f v := by
  obtain ⟨n, hn, rfl, hvalue⟩ := h
  exact ⟨.number n, ⟨hn, rfl⟩, hvalue, hlevels, isEncodable_numberText hn⟩

theorem writes_array (h : WritesItems Form.SpellsItems levels w fs items) :
    Writes (levels + 1) (CodePoint.ofChar '[' :: (w ++ [CodePoint.ofChar ']'])) (.array fs)
      (.array items) where
  spells := ⟨w, h.spells, rfl⟩
  value := by
    rw [Form.value?, h.values]
    rfl
  nesting := by
    rw [Form.nesting]
    have := h.nesting
    omega
  encodable := isEncodable_cons.mpr ⟨CodePoint.isSurrogate_ofChar _, isEncodable_append.mpr
    ⟨h.encodable, isEncodable_ofChars [']']⟩⟩

theorem writes_object (hkeys : (members.map Prod.fst).Nodup)
    (h : WritesMembers Form.SpellsMembers levels w ms members) :
    Writes (levels + 1) (CodePoint.ofChar '\x7b' :: (w ++ [CodePoint.ofChar '\x7d'])) (.object ms)
      (.object members) where
  spells := ⟨w, h.spells, rfl⟩
  value := by
    rw [Form.value?, h.values, Option.map_some, Entries.ofPairs_of_nodup hkeys]
  nesting := by
    rw [Form.nesting]
    have := h.nesting
    omega
  encodable := isEncodable_cons.mpr ⟨CodePoint.isSurrogate_ofChar _, isEncodable_append.mpr
    ⟨h.encodable, isEncodable_ofChars ['\x7d']⟩⟩

/-- Items with their texts, the first of them without a comma. -/
theorem writesItems_cons (h : Writes levels w f v)
    (hs : WritesItems Form.SpellsMoreItems levels others fs items) :
    WritesItems Form.SpellsItems levels (w ++ others) (f :: fs) (v :: items) where
  spells := ⟨w, others, padded_self h.spells, hs.spells, rfl⟩
  values := by
    rw [Form.itemValues?, h.value, hs.values]
    rfl
  nesting := by
    rw [Form.nestingItems]
    have := h.nesting
    have := hs.nesting
    omega
  encodable := isEncodable_append.mpr ⟨h.encodable, hs.encodable⟩

/-- A comma before the first item makes more items of them. -/
theorem writesItems_comma (h : WritesItems Form.SpellsItems levels w (f :: fs) items) :
    WritesItems Form.SpellsMoreItems levels (CodePoint.ofChar ',' :: w) (f :: fs) items where
  spells := by
    obtain ⟨first, others, hfirst, hothers, rfl⟩ := h.spells
    exact ⟨first, others, hfirst, hothers, rfl⟩
  values := h.values
  nesting := h.nesting
  encodable := isEncodable_cons.mpr ⟨CodePoint.isSurrogate_ofChar _, h.encodable⟩

/-- Members with their texts, the first of them without a comma. -/
theorem writesMembers_cons {key : Text} {ps : List Piece} {name : Text}
    (hname : SpellsString ps name) (hkey : textOf? ps = some key) (hencodable : IsEncodable name)
    (h : Writes levels w f v)
    (hs : WritesMembers Form.SpellsMoreMembers levels others ms members) :
    WritesMembers Form.SpellsMembers levels (name ++ CodePoint.ofChar ':' :: (w ++ others))
      ((ps, f) :: ms) ((key, v) :: members) where
  spells := ⟨name, w, others, padded_self hname, padded_self h.spells, hs.spells, rfl⟩
  values := by
    rw [Form.memberValues?, hkey, h.value, hs.values]
    rfl
  nesting := by
    rw [Form.nestingMembers]
    have := h.nesting
    have := hs.nesting
    omega
  encodable := isEncodable_append.mpr ⟨hencodable, isEncodable_cons.mpr
    ⟨CodePoint.isSurrogate_ofChar _, isEncodable_append.mpr ⟨h.encodable, hs.encodable⟩⟩⟩

theorem writesMembers_comma {m : List Piece × Form}
    (h : WritesMembers Form.SpellsMembers levels w (m :: ms) members) :
    WritesMembers Form.SpellsMoreMembers levels (CodePoint.ofChar ',' :: w) (m :: ms)
      members where
  spells := by
    obtain ⟨name, first, others, hname, hfirst, hothers, rfl⟩ := h.spells
    exact ⟨name, first, others, hname, hfirst, hothers, rfl⟩
  values := h.values
  nesting := h.nesting
  encodable := isEncodable_cons.mpr ⟨CodePoint.isSurrogate_ofChar _, h.encodable⟩

end Assembly

/-- A number is written after what is written. -/
theorem writes_of_append {levels : Int} {v : Json} {one : Except Failure Text}
    {out written : Array CodePoint} (hlevels : 0 ≤ levels)
    (hone : ∀ w, one = .ok w → WritesNumber w v) (h : append out one = .ok written) :
    ∃ f w, written.toList = out.toList ++ w ∧ Writes levels w f v := by
  obtain ⟨w, hw, htoList⟩ := append_eq_ok h
  obtain ⟨f, hf⟩ := writes_number hlevels (hone w hw)
  exact ⟨f, w, htoList, hf⟩

mutual

/-- **What is written of a tree is a text of a form that denotes it**, nested no
deeper than the guard allows. -/
theorem writes_of_write : ∀ (v : Json) {guard : DepthGuard} {out written : Array CodePoint},
    v.WellKeyed → guard.depth ≤ guard.maxDepth →
    write Empty.elim guard out v = .ok written →
      ∃ f w, written.toList = out.toList ++ w ∧ Writes (guard.maxDepth - guard.depth) w f v
  | .null, guard, out, written, _, hguard, h => by
    rw [write] at h
    cases h
    exact ⟨.null, _, Array.toList_appendList, rfl, rfl, Int.sub_nonneg_of_le hguard,
      isEncodable_ofChars _⟩
  | .bool true, guard, out, written, _, hguard, h => by
    rw [write] at h
    cases h
    exact ⟨.bool true, _, Array.toList_appendList, rfl, rfl, Int.sub_nonneg_of_le hguard,
      isEncodable_ofChars _⟩
  | .bool false, guard, out, written, _, hguard, h => by
    rw [write] at h
    cases h
    exact ⟨.bool false, _, Array.toList_appendList, rfl, rfl, Int.sub_nonneg_of_le hguard,
      isEncodable_ofChars _⟩
  | .unsigned n, guard, out, written, _, hguard, h => by
    rw [write] at h
    exact writes_of_append (Int.sub_nonneg_of_le hguard) (fun _ => writesNumber_unsigned) h
  | .signed n, guard, out, written, _, hguard, h => by
    rw [write] at h
    exact writes_of_append (Int.sub_nonneg_of_le hguard) (fun _ => writesNumber_signed) h
  | .float x, guard, out, written, _, hguard, h => by
    rw [write] at h
    exact writes_of_append (Int.sub_nonneg_of_le hguard) (fun _ => writesNumber_float) h
  | .string s, guard, out, written, _, hguard, h => by
    rw [write] at h
    obtain ⟨ps, w, hw, htext, hencodable, htoList⟩ := spellsString_of_writeString h
    refine ⟨.string ps, w, htoList, hw, ?_, Int.sub_nonneg_of_le hguard, hencodable⟩
    rw [Form.value?, htext]
    rfl
  | .array items, guard, out, written, hkeys, hguard, h => by
    rw [write] at h
    split at h
    · cases h
    · rename_i inside henter
      obtain ⟨hlt, rfl⟩ := DepthGuard.enter_eq_ok henter
      obtain ⟨fs, w, htoList, hw⟩ :=
        writesItems_of_writeItems items hkeys (Int.add_one_le_of_lt hlt) h
      -- the level that was entered is the one that the brackets add
      have hlevels : guard.maxDepth - (guard.depth + 1) + 1 = guard.maxDepth - guard.depth := by
        omega
      refine ⟨_, _, ?_, hlevels ▸ writes_array hw⟩
      rw [htoList, Array.toList_push, List.append_assoc, List.singleton_append]
  | .object members, guard, out, written, hkeys, hguard, h => by
    rw [write] at h
    split at h
    · cases h
    · rename_i inside henter
      obtain ⟨hlt, rfl⟩ := DepthGuard.enter_eq_ok henter
      obtain ⟨hnodup, hkeys⟩ := hkeys
      obtain ⟨ms, w, htoList, hw⟩ :=
        writesMembers_of_writeMembers members hkeys (Int.add_one_le_of_lt hlt) h
      have hlevels : guard.maxDepth - (guard.depth + 1) + 1 = guard.maxDepth - guard.depth := by
        omega
      refine ⟨_, _, ?_, hlevels ▸ writes_object hnodup hw⟩
      rw [htoList, Array.toList_push, List.append_assoc, List.singleton_append]
  | .foreign e, _, _, _, _, _, _ => nomatch e

/-- The items of an array are written one after another, each but the first after
a comma. -/
theorem writesItems_of_writeItems : ∀ (items : List Json) {guard : DepthGuard}
    {out written : Array CodePoint} {first : Bool}, WellKeyedItems items →
    guard.depth ≤ guard.maxDepth → writeItems Empty.elim guard out first items = .ok written →
      ∃ fs w, written.toList = out.toList ++ (w ++ [CodePoint.ofChar ']']) ∧
        WritesItems (if first then Form.SpellsItems else Form.SpellsMoreItems)
          (guard.maxDepth - guard.depth) w fs items
  | [], guard, out, written, first, _, hguard, h => by
    rw [writeItems] at h
    cases h
    refine ⟨[], [], Array.toList_push, ?_, rfl, Int.sub_nonneg_of_le hguard, by simp [IsEncodable]⟩
    cases first
    · rfl
    · simp [Form.SpellsItems, IsBlank]
  | item :: items, guard, out, written, first, hkeys, hguard, h => by
    rw [writeItems] at h
    split at h
    · cases h
    · rename_i between hitem
      obtain ⟨f, w, htoList, hw⟩ := writes_of_write item hkeys.1 hguard hitem
      obtain ⟨fs, others, htoList', hothers⟩ :=
        writesItems_of_writeItems items hkeys.2 hguard h
      -- what follows is written with commas, whichever item this is
      have hall := writesItems_cons hw hothers
      cases first with
      | true =>
        refine ⟨f :: fs, _, ?_, hall⟩
        rw [htoList', htoList, List.append_assoc, List.append_assoc]
        rfl
      | false =>
        refine ⟨f :: fs, _, ?_, writesItems_comma hall⟩
        rw [htoList', htoList]
        simp

/-- The members of an object are written one after another, each but the first
after a comma. -/
theorem writesMembers_of_writeMembers : ∀ (members : List (Text × Json)) {guard : DepthGuard}
    {out written : Array CodePoint} {first : Bool}, WellKeyedMembers members →
    guard.depth ≤ guard.maxDepth →
    writeMembers Empty.elim guard out first members = .ok written →
      ∃ ms w, written.toList = out.toList ++ (w ++ [CodePoint.ofChar '\x7d']) ∧
        WritesMembers (if first then Form.SpellsMembers else Form.SpellsMoreMembers)
          (guard.maxDepth - guard.depth) w ms members
  | [], guard, out, written, first, _, hguard, h => by
    rw [writeMembers] at h
    cases h
    refine ⟨[], [], Array.toList_push, ?_, rfl, Int.sub_nonneg_of_le hguard, by simp [IsEncodable]⟩
    cases first
    · rfl
    · simp [Form.SpellsMembers, IsBlank]
  | (key, item) :: members, guard, out, written, first, hkeys, hguard, h => by
    rw [writeMembers] at h
    split at h
    · cases h
    rename_i named hname
    split at h
    · cases h
    rename_i between hitem
    obtain ⟨ps, name, hspells, hkey, hencodable, htoListName⟩ := spellsString_of_writeString hname
    obtain ⟨f, w, htoList, hw⟩ := writes_of_write item hkeys.1 hguard hitem
    obtain ⟨ms, others, htoList', hothers⟩ :=
      writesMembers_of_writeMembers members hkeys.2 hguard h
    have hall := writesMembers_cons hspells hkey hencodable hw hothers
    cases first with
    | true =>
      refine ⟨(ps, f) :: ms, _, ?_, hall⟩
      rw [htoList', htoList, Array.toList_push, htoListName]
      simp
    | false =>
      refine ⟨(ps, f) :: ms, _, ?_, writesMembers_comma hall⟩
      rw [htoList', htoList, Array.toList_push, htoListName]
      simp

end

/-! ## Texts -/

/-- What is serialized is what is written with nothing before it, nested no deeper
than the limit and the stack allow. -/
theorem serialize_eq_ok_iff {v : Json} {maxDepth : Int} (h : 1 ≤ maxDepth) {written : Text} :
    v.serialize (some maxDepth) = .ok written ↔
      ∃ out, write Empty.elim { maxDepth := min maxDepth 950, depth := 0 } #[] v = .ok out ∧
        out.toList = written := by
  have hguard : DepthGuard.ofDepth maxDepth = { maxDepth := min maxDepth 950, depth := 0 } := rfl
  rw [serialize, JsonTree.serialize, Limits.resolveDepth_of_pos h]
  dsimp only
  rw [Int.toNat_of_nonneg (by omega), hguard]
  cases write Empty.elim { maxDepth := min maxDepth 950, depth := 0 } #[] v <;> simp

end StreamGrammar.Json
