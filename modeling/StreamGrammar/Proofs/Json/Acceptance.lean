import StreamGrammar.Proofs.Grammar.Complete
import StreamGrammar.Proofs.Json.Reading

/-!
# JSON is accepted exactly

With what is written being read, it remains that nothing else is: whatever the
grammar of a value matches is a text of a form, nested no deeper than the levels
that the grammar has, and the value read is the one that the form denotes. The
induction is on the levels. The loop over the items of a container takes a comma
back that no item follows, so the bracket that has to come next refuses it, and
blank space before the bracket belongs to the last item, since an item takes all
there is.

Both directions together are `parse_eq_ok_iff`.
-/

namespace StreamGrammar.Json

open Grammar

variable {ε : Type} [Element ε] [Spelling ε]

/-- **A grammar that matches only texts of forms**, nested so many levels deep at
most, each as the value that its form denotes. -/
def Recognizes (levels : Nat) (g : Grammar ε Json) : Prop :=
  ∀ {final : Bool} {s rest : List ε} {v : Json}, g.verdict final s = .matched v rest →
    ∃ (f : Form) (t : Text), f.Spells t ∧ f.nesting ≤ levels ∧ f.value? = some v ∧
      s = spell t ++ rest

variable {levels : Nat} {g : Grammar ε Json}

/-- A value is one of six kinds. -/
theorem recognizes_valueWith {inner : Grammar ε Json} (h : Recognizes levels inner) :
    Recognizes levels (valueWith inner) := by
  intro final s rest v hv
  rcases matched_of_alt hv with hv | hv
  · obtain ⟨t, ht, rfl⟩ := matched_map.mp hv
    obtain ⟨ps, written, hps, htext, rfl⟩ := pieces_of_stringText ht
    exact ⟨.string ps, written, hps, Nat.zero_le _, by rw [Form.value?, htext]; rfl, rfl⟩
  rcases matched_of_alt hv with hv | hv
  · obtain ⟨n, hn, hvalue, rfl⟩ := text_of_number hv
    exact ⟨.number n, n.text, ⟨hn, rfl⟩, Nat.zero_le _, hvalue, rfl⟩
  rcases matched_of_alt hv with hv | hv
  · exact h hv
  rcases matched_of_alt hv with hv | hv
  · obtain ⟨_, hword, rfl⟩ := matched_map.mp hv
    obtain ⟨rfl, rfl⟩ := matched_literal.mp hword
    exact ⟨.bool true, _, rfl, Nat.zero_le _, rfl, by rw [spell_ofChars (by decide)]⟩
  rcases matched_of_alt hv with hv | hv
  · obtain ⟨_, hword, rfl⟩ := matched_map.mp hv
    obtain ⟨rfl, rfl⟩ := matched_literal.mp hword
    exact ⟨.bool false, _, rfl, Nat.zero_le _, rfl, by rw [spell_ofChars (by decide)]⟩
  rcases matched_of_alt hv with hv | hv
  · obtain ⟨_, hword, rfl⟩ := matched_map.mp hv
    obtain ⟨rfl, rfl⟩ := matched_literal.mp hword
    exact ⟨.null, _, rfl, Nat.zero_le _, rfl, by rw [spell_ofChars (by decide)]⟩
  · cases hv

/-- An item, with the blank space around it. No blank space is left after it. -/
theorem padded_of_spaced (h : Recognizes levels g) {final : Bool} {s rest : List ε} {v : Json}
    (hv : (spaced g).verdict final s = .matched v rest) :
    Halts isBlankElement final rest ∧ ∃ (f : Form) (t : Text), Padded f.Spells t ∧
      f.nesting ≤ levels ∧ f.value? = some v ∧ s = spell t ++ rest := by
  obtain ⟨before, after, middle, hbefore, hafter, rfl, _, hmiddle, hrest⟩ := matched_spaced.mp hv
  obtain ⟨f, t, hf, hlevels, hvalue, rfl⟩ := h hmiddle
  refine ⟨hrest, f, _, ⟨before, t, after, hbefore, hf, hafter, rfl⟩, hlevels, hvalue, ?_⟩
  simp only [spell_append, List.append_assoc]

/-- A key, with the blank space around it. -/
theorem padded_of_key {final : Bool} {s rest : List ε} {k : Text}
    (h : (spaced stringText).verdict final s = .matched k rest) :
    ∃ (key : List Piece) (name : Text), Padded (SpellsString key) name ∧ textOf? key = some k ∧
      s = spell name ++ rest := by
  obtain ⟨before, after, middle, hbefore, hafter, rfl, _, hmiddle, _⟩ := matched_spaced.mp h
  obtain ⟨key, t, hkey, htext, rfl⟩ := pieces_of_stringText hmiddle
  refine ⟨key, _, ⟨before, t, after, hbefore, hkey, hafter, rfl⟩, htext, ?_⟩
  simp only [spell_append, List.append_assoc]

/-- Blank space is empty where none is left. -/
theorem blank_of_halts {t : Text} (ht : IsBlank t) {final : Bool} {rest : List ε}
    (h : Halts isBlankElement final (spell t ++ rest)) : t = [] := by
  cases t with
  | nil => rfl
  | cons c t =>
    obtain ⟨b, hb, rfl⟩ := ht c List.mem_cons_self
    have hascii : b.toNat < 0x80 :=
      Element.lt_of_areAscii (show Element.areAscii Charset.jsonWhitespace = true by decide) b hb
    rw [spell_ofChar_append hascii] at h
    have hblank : isBlankElement (Element.ofAscii b : ε) = true :=
      isBlankElement_iff.mpr (List.mem_map_of_mem hb)
    rw [h.2 _ rfl] at hblank
    cases hblank

/-- The closing bracket, and the blank space before it. -/
theorem blank_of_bracket {c : Char} (hc : c.toNat < 0x80) {final : Bool} {s rest : List ε}
    {e : ε} (h : (preceded blanks (ascii c)).verdict final s = .matched e rest) :
    ∃ t, IsBlank t ∧ s = spell (t ++ [CodePoint.ofChar c]) ++ rest := by
  obtain ⟨_, middle, hblanks, hmark⟩ := matched_bind.mp h
  obtain ⟨t, ht, _, rfl, _⟩ := matched_blanks.mp hblanks
  obtain ⟨_, rfl⟩ := matched_ascii.mp hmark
  refine ⟨t, ht, ?_⟩
  rw [spell_append, List.append_assoc, spell_ofChar_append hc]
  rfl

/-! ## Items and members -/

/-- Rounds of a comma and an item are items with a comma before each. -/
theorem moreItems_of_rounds (h : Recognizes levels g) {final : Bool} {s rest : List ε}
    {vs : List Json}
    (hrounds : Verdict.Rounds (Verdict.round ((ascii ',').verdict final)
      ((spaced g).verdict final)) s vs rest) (hs : Halts isBlankElement final s) :
    Halts isBlankElement final rest ∧ ∃ (items : List Form) (others : Text),
      Form.SpellsMoreItems items others ∧ Form.nestingItems items ≤ levels ∧
        Form.itemValues? items = some vs ∧ s = spell others ++ rest := by
  induction hrounds with
  | none s => exact ⟨hs, [], [], rfl, Nat.zero_le _, rfl, rfl⟩
  | more hround _ ih =>
    obtain ⟨_, past, hmark, hitem⟩ := Verdict.round_eq_matched.mp hround
    obtain ⟨_, rfl⟩ := matched_ascii.mp hmark
    obtain ⟨hmiddle, f, first, hfirst, hf, hvalue, rfl⟩ := padded_of_spaced h hitem
    obtain ⟨hrest, items, others, hothers, hitems, hvalues, rfl⟩ := ih hmiddle
    refine ⟨hrest, f :: items, _, ⟨first, others, hfirst, hothers, rfl⟩,
      Nat.max_le.mpr ⟨hf, hitems⟩, ?_, ?_⟩
    · rw [Form.itemValues?, hvalue, hvalues]
      rfl
    · rw [spell_ofChar_append (by decide), spell_append, List.append_assoc]

/-- A key, a colon and an item. -/
theorem texts_of_member (h : Recognizes levels g) {final : Bool} {s rest : List ε}
    {pair : Text × Json} (hm : (member (spaced g)).verdict final s = .matched pair rest) :
    Halts isBlankElement final rest ∧ ∃ (key : List Piece) (f : Form) (name first : Text),
      Padded (SpellsString key) name ∧ Padded f.Spells first ∧ f.nesting ≤ levels ∧
        textOf? key = some pair.1 ∧ f.value? = some pair.2 ∧
          s = spell name ++ Element.ofAscii ':' :: (spell first ++ rest) := by
  obtain ⟨k, afterKey, hkey, hmore⟩ := matched_bind.mp hm
  obtain ⟨_, afterColon, hcolon, hlast⟩ := matched_bind.mp hmore
  obtain ⟨v, hitem, rfl⟩ := matched_map.mp hlast
  obtain ⟨_, rfl⟩ := matched_ascii.mp hcolon
  obtain ⟨key, name, hname, htext, rfl⟩ := padded_of_key hkey
  obtain ⟨hrest, f, first, hfirst, hf, hvalue, rfl⟩ := padded_of_spaced h hitem
  exact ⟨hrest, key, f, name, first, hname, hfirst, hf, htext, hvalue, rfl⟩

/-- Rounds of a comma and a member are members with a comma before each. -/
theorem moreMembers_of_rounds (h : Recognizes levels g) {final : Bool} {s rest : List ε}
    {vs : List (Text × Json)}
    (hrounds : Verdict.Rounds (Verdict.round ((ascii ',').verdict final)
      ((member (spaced g)).verdict final)) s vs rest) (hs : Halts isBlankElement final s) :
    Halts isBlankElement final rest ∧ ∃ (members : List (List Piece × Form)) (others : Text),
      Form.SpellsMoreMembers members others ∧ Form.nestingMembers members ≤ levels ∧
        Form.memberValues? members = some vs ∧ s = spell others ++ rest := by
  induction hrounds with
  | none s => exact ⟨hs, [], [], rfl, Nat.zero_le _, rfl, rfl⟩
  | more hround _ ih =>
    obtain ⟨_, past, hmark, hmember⟩ := Verdict.round_eq_matched.mp hround
    obtain ⟨_, rfl⟩ := matched_ascii.mp hmark
    obtain ⟨hmiddle, key, f, name, first, hname, hfirst, hf, htext, hvalue, rfl⟩ :=
      texts_of_member h hmember
    obtain ⟨hrest, members, others, hothers, hmembers, hvalues, rfl⟩ := ih hmiddle
    refine ⟨hrest, (key, f) :: members, _, ⟨name, first, others, hname, hfirst, hothers, rfl⟩,
      Nat.max_le.mpr ⟨hf, hmembers⟩, ?_, ?_⟩
    · rw [Form.memberValues?, htext, hvalue, hvalues]
      rfl
    · rw [spell_ofChar_append (by decide), spell_append, List.append_assoc,
        spell_ofChar_append (by decide), spell_append, List.append_assoc]

/-! ## Containers -/

theorem recognizes_arrayOf (h : Recognizes levels g) :
    Recognizes (levels + 1) (arrayOf (spaced g)) := by
  intro final s rest v hv
  obtain ⟨vs, hbetween, rfl⟩ := matched_map.mp hv
  obtain ⟨_, inside, hopen, hmore⟩ := matched_bind.mp hbetween
  obtain ⟨_, rfl⟩ := matched_ascii.mp hopen
  obtain ⟨_, middle, hitems, hlast⟩ := matched_bind.mp hmore
  obtain ⟨_, hbracket, rfl⟩ := matched_map.mp hlast
  obtain ⟨t, ht, rfl⟩ := blank_of_bracket (by decide) hbracket
  rw [verdict_separatedItems] at hitems
  rcases Verdict.rounds_of_separated hitems with
    ⟨rfl, rfl⟩ | ⟨v, next, others, hfirst, rfl, hrounds⟩
  · refine ⟨.array [], _, ⟨t, ht, rfl⟩, Nat.succ_le_succ (Nat.zero_le _), rfl, ?_⟩
    rw [spell_ofChar_append (by decide)]
  · obtain ⟨hnext, f, first, hf, hlevels, hvalue, rfl⟩ := padded_of_spaced h hfirst
    obtain ⟨hend, items, more, hspells, hnesting, hvalues, rfl⟩ :=
      moreItems_of_rounds h hrounds hnext
    -- the last item took the blank space before the bracket
    rw [spell_append, List.append_assoc] at hend
    obtain rfl := blank_of_halts ht hend
    refine ⟨.array (f :: items), _, ⟨_, ⟨first, more, hf, hspells, rfl⟩, rfl⟩,
      Nat.succ_le_succ (Nat.max_le.mpr ⟨hlevels, hnesting⟩), ?_, ?_⟩
    · rw [Form.value?, Form.itemValues?, hvalue, hvalues]
      rfl
    · rw [spell_ofChar_append (by decide)]
      simp only [spell_append, List.append_assoc, List.nil_append]

theorem recognizes_objectOf (h : Recognizes levels g) :
    Recognizes (levels + 1) (objectOf (spaced g)) := by
  intro final s rest v hv
  obtain ⟨vs, hbetween, rfl⟩ := matched_map.mp hv
  obtain ⟨_, inside, hopen, hmore⟩ := matched_bind.mp hbetween
  obtain ⟨_, rfl⟩ := matched_ascii.mp hopen
  obtain ⟨_, middle, hmembers, hlast⟩ := matched_bind.mp hmore
  obtain ⟨_, hbracket, rfl⟩ := matched_map.mp hlast
  obtain ⟨t, ht, rfl⟩ := blank_of_bracket (by decide) hbracket
  rw [verdict_separatedItems] at hmembers
  rcases Verdict.rounds_of_separated hmembers with
    ⟨rfl, rfl⟩ | ⟨pair, next, others, hfirst, rfl, hrounds⟩
  · refine ⟨.object [], _, ⟨t, ht, rfl⟩, Nat.succ_le_succ (Nat.zero_le _), rfl, ?_⟩
    rw [spell_ofChar_append (by decide)]
  · obtain ⟨hnext, key, f, name, first, hname, hf, hlevels, htext, hvalue, rfl⟩ :=
      texts_of_member h hfirst
    obtain ⟨hend, members, more, hspells, hnesting, hvalues, rfl⟩ :=
      moreMembers_of_rounds h hrounds hnext
    rw [spell_append, List.append_assoc] at hend
    obtain rfl := blank_of_halts ht hend
    refine ⟨.object ((key, f) :: members), _,
      ⟨_, ⟨name, first, more, hname, hf, hspells, rfl⟩, rfl⟩,
      Nat.succ_le_succ (Nat.max_le.mpr ⟨hlevels, hnesting⟩), ?_, ?_⟩
    · rw [Form.value?, Form.memberValues?, htext, hvalue, hvalues]
      rfl
    · rw [spell_ofChar_append (by decide)]
      simp only [spell_append, List.append_assoc, List.nil_append]
      rw [spell_ofChar_append (c := ':') (by decide), spell_append, List.append_assoc]

/-- **A container with levels left matches containers that nest so deep**, by
induction on the levels; at the innermost one nothing is matched. -/
theorem recognizes_container (limit levels : Nat) :
    Recognizes levels (container limit levels : Grammar ε Json) := by
  induction levels with
  | zero =>
    intro final s rest v hv
    obtain ⟨_, _, hrefused⟩ := matched_map.mp (matched_demand.mp hv)
    cases hrefused
  | succ levels ih =>
    intro final s rest v hv
    rcases matched_of_alt hv with hv | hv
    · exact recognizes_objectOf (recognizes_valueWith ih) hv
    · rcases matched_of_alt hv with hv | hv
      · exact recognizes_arrayOf (recognizes_valueWith ih) hv
      · cases hv

/-! ## Texts -/

/-- A text of a form is matched whole, as the value that the form denotes. -/
theorem matched_of_form {limit : Nat} {f : Form} {written : Text} (hf : Padded f.Spells written)
    (hread : ∀ c ∈ written, Spelling.Readable ε c) (hlevels : f.nesting ≤ limit) {v : Json}
    (hv : f.value? = some v) :
    (text limit : Grammar ε Json).verdict true (spell written) = .matched v [] := by
  have hend : Closes true ([] : List ε) := ⟨fun _ => rfl, by simp⟩
  have hwhole := element_of_padded limit f hf hread hlevels hv hend
  rwa [List.append_nil] at hwhole

/-- What is matched whole is a text of a form. -/
theorem form_of_matched {limit : Nat} {s : List ε} {v : Json}
    (h : (text limit : Grammar ε Json).verdict true s = .matched v []) :
    ∃ (f : Form) (written : Text), Padded f.Spells written ∧ f.nesting ≤ limit ∧
      f.value? = some v ∧ s = spell written := by
  obtain ⟨_, f, written, hf, hlevels, hvalue, hs⟩ :=
    padded_of_spaced (recognizes_valueWith (recognizes_container limit limit)) h
  exact ⟨f, written, hf, hlevels, hvalue, by rw [hs, List.append_nil]⟩

/-- The greatest nesting that the stack bears. -/
theorem resolveLimit_of_pos {maxDepth : Int} (h : 1 ≤ maxDepth) :
    resolveLimit (some maxDepth) = .ok (min maxDepth 47).toNat := by
  rw [resolveLimit, Limits.resolveDepth_of_pos h]
  dsimp only
  rw [Int.toNat_of_nonneg (by omega)]
  rfl

/-- **A text of a form is parsed as the value that the form denotes**, in either
alphabet. -/
theorem parse_of_form {maxDepth : Int} (h : 1 ≤ maxDepth) {f : Form} {written : Text}
    (hf : Padded f.Spells written) (hread : ∀ c ∈ written, Spelling.Readable ε c)
    (hlevels : f.nesting ≤ (min maxDepth 47).toNat) {v : Json} (hv : f.value? = some v) :
    parse (spell written : List ε) (some maxDepth) (some 0) = .ok v := by
  rw [parse, resolveLimit_of_pos h]
  simp only [settings, parseAll_eq_ok_iff]
  exact matched_of_form hf hread hlevels hv

/-- What is parsed is a text of a form, and the value is the one that the form
denotes. -/
theorem form_of_parse {s : List ε} {maxDepth : Int} (h : 1 ≤ maxDepth) {v : Json}
    (hparse : parse s (some maxDepth) (some 0) = .ok v) :
    ∃ (f : Form) (written : Text), Padded f.Spells written ∧
      f.nesting ≤ (min maxDepth 47).toNat ∧ f.value? = some v ∧ s = spell written := by
  rw [parse, resolveLimit_of_pos h] at hparse
  simp only [settings, parseAll_eq_ok_iff] at hparse
  exact form_of_matched hparse

/-- **A text is parsed exactly if it is a JSON text**: derived by a form that nests
no deeper than the limit and the stack allow and that denotes a value – which is
then the value that is parsed. -/
theorem parse_eq_ok_iff (t : Text) (maxDepth : Int) (h : 1 ≤ maxDepth) (v : Json) :
    parse t (some maxDepth) (some 0) = .ok v ↔
      ∃ f : Form, Padded f.Spells t ∧ f.nesting ≤ (min maxDepth 47).toNat ∧
        f.value? = some v := by
  constructor
  · intro hparse
    obtain ⟨f, written, hf, hlevels, hvalue, hs⟩ := form_of_parse h hparse
    rw [spell_codePoint] at hs
    exact ⟨f, hs ▸ hf, hlevels, hvalue⟩
  · rintro ⟨f, hf, hlevels, hvalue⟩
    have hparse := parse_of_form (ε := CodePoint) h hf (fun _ _ => trivial) hlevels hvalue
    rwa [spell_codePoint] at hparse

/-- An array of a null, with a blank before the bracket that closes it. -/
theorem parse_eq_ok_iff_array :
    1 ≤ (1 : Int) ∧ parse (Text.ofChars ['[', 'n', 'u', 'l', 'l', ' ', ']']) (some 1) (some 0) =
      .ok (.array [.null]) := by
  have hblank : IsBlank [] := by simp [IsBlank]
  have hspace : IsBlank (Text.ofChars [' ']) := by
    simp [IsBlank, Text.ofChars, Charset.jsonWhitespace]
  have hnull : Padded (Form.Spells .null) (Text.ofChars ['n', 'u', 'l', 'l', ' ']) :=
    ⟨[], _, Text.ofChars [' '], hblank, rfl, hspace, rfl⟩
  have harray : Padded (Form.Spells (.array [.null]))
      (Text.ofChars ['[', 'n', 'u', 'l', 'l', ' ', ']']) :=
    ⟨[], _, [], hblank, ⟨_, ⟨_, [], hnull, rfl, rfl⟩, rfl⟩, hblank, rfl⟩
  exact ⟨by decide, (parse_eq_ok_iff _ 1 (by decide) _).mpr ⟨_, harray, by decide, rfl⟩⟩

end StreamGrammar.Json
