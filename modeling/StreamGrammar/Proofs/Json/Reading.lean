import StreamGrammar.Proofs.Json.Final
import StreamGrammar.Proofs.Json.Number
import StreamGrammar.Proofs.Json.String

/-!
# What is written is read

Every text of a form is read as the value that the form denotes, as long as it
does not nest deeper than the grammar admits. The induction is on the form. At
every place three things have to be seen: which kind of value begins here, which
the first character tells; where a number or blank space ends, which what comes
next tells; and that a bracket or a comma is never taken for part of an item.

Nothing is asked of what follows a container, so the statements hold for input
that may still grow as well.
-/

namespace StreamGrammar.Json

open Grammar

variable {ε : Type} [Element ε] [Spelling ε]

/-! ## Blank space -/

/-- Whether an element is blank space. -/
def isBlankElement (e : ε) : Bool := Element.isIn Charset.jsonWhitespace e

omit [Spelling ε] in
theorem isBlankElement_iff {e : ε} :
    isBlankElement e = true ↔ e ∈ (Element.piece Charset.jsonWhitespace : List ε) := by
  simp [isBlankElement, Element.isIn, Element.piece]

/-- Blank space as elements and as text. -/
theorem blank_iff {s : List ε} :
    (∀ e ∈ s, isBlankElement e = true) ↔ ∃ t, IsBlank t ∧ s = spell t := by
  have hascii := Element.lt_of_areAscii
    (show Element.areAscii Charset.jsonWhitespace = true by decide)
  constructor
  · intro h
    induction s with
    | nil => exact ⟨[], by simp [IsBlank], rfl⟩
    | cons e s ih =>
      obtain ⟨t, ht, rfl⟩ := ih fun e' he' => h e' (List.mem_cons_of_mem _ he')
      obtain ⟨b, hb, rfl⟩ := List.mem_map.mp (isBlankElement_iff.mp (h e List.mem_cons_self))
      refine ⟨CodePoint.ofChar b :: t, fun c hc => ?_, (spell_ofChar (hascii b hb) t).symm⟩
      rcases List.mem_cons.mp hc with rfl | hc
      · exact ⟨b, hb, rfl⟩
      · exact ht c hc
  · rintro ⟨t, ht, rfl⟩
    induction t with
    | nil => simp
    | cons c t ih =>
      obtain ⟨b, hb, rfl⟩ := ht c List.mem_cons_self
      rw [spell_ofChar (hascii b hb)]
      intro e he
      rcases List.mem_cons.mp he with rfl | he
      · exact isBlankElement_iff.mpr (List.mem_map_of_mem hb)
      · exact ih (fun c hc => ht c (List.mem_cons_of_mem _ hc)) e he

/-- **Blank space**, wherever it is read. -/
theorem matched_blanks {final : Bool} {s run rest : List ε} :
    blanks.verdict final s = .matched run rest ↔
      ∃ t, IsBlank t ∧ run = spell t ∧ s = spell t ++ rest ∧
        Halts isBlankElement final rest := by
  rw [blanks, matched_takeWhile]
  constructor
  · rintro ⟨rfl, hrun, hrest⟩
    obtain ⟨t, ht, rfl⟩ := blank_iff.mp hrun
    exact ⟨t, ht, rfl, rfl, hrest⟩
  · rintro ⟨t, ht, rfl, rfl, hrest⟩
    exact ⟨rfl, blank_iff.mpr ⟨t, ht, rfl⟩, hrest⟩

/-- Blank space before and after, wherever it is read. -/
theorem matched_spaced {α : Type} [Vacancy α] {p : Grammar ε α} {final : Bool} {s rest : List ε}
    {v : α} :
    (spaced p).verdict final s = .matched v rest ↔
      ∃ before after middle, IsBlank before ∧ IsBlank after ∧ s = spell before ++ middle ∧
        Halts isBlankElement final middle ∧
        p.verdict final middle = .matched v (spell after ++ rest) ∧
        Halts isBlankElement final rest := by
  constructor
  · intro h
    obtain ⟨_, middle, hbefore, hmore⟩ := matched_bind.mp h
    obtain ⟨before, hblank, _, rfl, hmiddle⟩ := matched_blanks.mp hbefore
    obtain ⟨_, past, hp, hlast⟩ := matched_bind.mp hmore
    obtain ⟨_, hafter, rfl⟩ := matched_map.mp hlast
    obtain ⟨after, hblank', _, rfl, hrest⟩ := matched_blanks.mp hafter
    exact ⟨before, after, middle, hblank, hblank', rfl, hmiddle, hp, hrest⟩
  · rintro ⟨before, after, middle, hblank, hblank', rfl, hmiddle, hp, hrest⟩
    exact matched_bind.mpr ⟨_, _, matched_blanks.mpr ⟨before, hblank, rfl, rfl, hmiddle⟩,
      matched_bind.mpr ⟨_, _, hp, matched_map.mpr
        ⟨_, matched_blanks.mpr ⟨after, hblank', rfl, rfl, hrest⟩, rfl⟩⟩⟩

/-! ## What comes next -/

/-- The marks that may follow an item or a key, after blank space. -/
def closers : List Char := [',', ':', ']', '\x7d']

/-- **What comes next ends an item**: it is one of the marks that may follow one,
or the end of complete input. -/
def Closes (final : Bool) (rest : List ε) : Prop :=
  (rest = [] → final = true) ∧ ∀ e ∈ rest.head?, e ∈ (Element.piece closers : List ε)

omit [Spelling ε] in
theorem closes_mark {c : Char} (hc : c ∈ closers) (final : Bool) (rest : List ε) :
    Closes final (Element.ofAscii c :: rest) :=
  ⟨fun hnil => (nomatch hnil), fun e he => by cases he; exact List.mem_map_of_mem hc⟩

omit [Spelling ε] in
theorem Closes.halts_blank [LawfulElement ε] {final : Bool} {rest : List ε}
    (h : Closes final rest) : Halts isBlankElement final rest :=
  ⟨h.1, fun e he => Bool.eq_false_iff.mpr fun hblank =>
    Element.not_mem_piece (by decide) (h.2 e he) (isBlankElement_iff.mp hblank)⟩

/-- Neither blank space nor a mark after an item continues a number. -/
theorem Closes.halts_number {final : Bool} {rest : List ε} (h : Closes final rest) {t : Text}
    (ht : IsBlank t) : Halts continuesNumber final (spell t ++ rest) := by
  have happ : ∀ {chars : List Char}, Element.areAscii chars = true →
      chars.all (fun c => !Charset.isDigit c.toNat && !Charset.isOneOf ['.', 'e', 'E'] c.toNat) =
        true →
      ∀ e ∈ (Element.piece chars : List ε), continuesNumber e = false := by
    intro chars hascii hnot e he
    obtain ⟨c, hc, rfl⟩ := List.mem_map.mp he
    have hc' := List.all_eq_true.mp hnot c hc
    rw [Bool.and_eq_true, Bool.not_eq_true', Bool.not_eq_true'] at hc'
    rw [continuesNumber, isDigitElement,
      LawfulElement.code_ofAscii c (Element.lt_of_areAscii hascii c hc), hc'.1, hc'.2]
    rfl
  cases hs : (spell t : List ε) with
  | nil => exact ⟨h.1, fun e he => happ (by decide) (by decide) e (h.2 e he)⟩
  | cons e s =>
    have hblank := blank_iff.mpr ⟨t, ht, rfl⟩ e (by rw [hs]; exact List.mem_cons_self)
    exact halts_cons (happ (by decide) (by decide) e (isBlankElement_iff.mp hblank))

/-! ## What begins here -/

/-- The characters that values begin with. -/
def openers : List Char :=
  ['"', '-', '0', '1', '2', '3', '4', '5', '6', '7', '8', '9', '[', '\x7b', 't', 'f', 'n']

/-- The characters that numbers begin with. -/
def numberOpeners : List Char := ['-', '0', '1', '2', '3', '4', '5', '6', '7', '8', '9']

/-- A decimal digit as an ASCII character. -/
theorem digit_mem_numberOpeners {d : Nat} (h : d < 10) :
    ∃ c ∈ numberOpeners, Numeral.digit d = CodePoint.ofChar c := by
  have hall : ∀ d < 10, Char.ofNat (48 + d) ∈ numberOpeners ∧
      Numeral.digit d = CodePoint.ofChar (Char.ofNat (48 + d)) := by
    decide
  exact ⟨_, (hall d h).1, (hall d h).2⟩

theorem NumberForm.WellFormed.head {n : NumberForm} (h : n.WellFormed) :
    ∃ c ∈ numberOpeners, ∃ tail, n.text = CodePoint.ofChar c :: tail := by
  rw [NumberForm.text]
  cases n.minus with
  | true => exact ⟨'-', by decide, _, rfl⟩
  | false =>
    obtain ⟨hne, hlt⟩ := h.whole
    cases hw : n.whole with
    | nil => exact absurd hw hne
    | cons d ds =>
      rw [hw] at hlt
      obtain ⟨c, hc, hd⟩ := digit_mem_numberOpeners (hlt d List.mem_cons_self)
      refine ⟨c, hc, digitsText ds ++ (fractionText n.fraction ++ exponentText n.exponent), ?_⟩
      rw [digitsText, List.map_cons, hd]
      rfl

/-- **A text of a form begins with a character that values begin with.** -/
theorem Form.Spells.head {f : Form} {t : Text} (h : f.Spells t) :
    ∃ c ∈ openers, ∃ tail, t = CodePoint.ofChar c :: tail := by
  cases f with
  | null => exact ⟨'n', by decide, _, h⟩
  | bool b =>
    cases b with
    | true => exact ⟨'t', by decide, _, h⟩
    | false => exact ⟨'f', by decide, _, h⟩
  | number n =>
    obtain ⟨hn, rfl⟩ := h
    obtain ⟨c, hc, tail, htail⟩ := hn.head
    exact ⟨c, forall_mem_of_all (p := (· ∈ openers)) (by decide) c hc, tail, htail⟩
  | string ps => exact ⟨'"', by decide, _, h.2⟩
  | array items =>
    obtain ⟨_, _, rfl⟩ := h
    exact ⟨'[', by decide, _, rfl⟩
  | object members =>
    obtain ⟨_, _, rfl⟩ := h
    exact ⟨'\x7b', by decide, _, rfl⟩

/-- What begins with a character that is no blank space begins no blank space. -/
theorem halts_blank {chars : List Char} (h : Element.areApart chars Charset.jsonWhitespace = true)
    {c : Char} (hc : c ∈ chars) (final : Bool) (t : Text) (rest : List ε) :
    Halts isBlankElement final (spell (CodePoint.ofChar c :: t) ++ rest) := by
  have hascii : c.toNat < 0x80 := by
    rw [Element.areApart, Bool.and_eq_true, Bool.and_eq_true] at h
    exact Element.lt_of_areAscii h.1.1 c hc
  rw [spell_ofChar_append hascii]
  exact halts_cons (Bool.eq_false_iff.mpr fun hblank =>
    Element.not_mem_piece h (List.mem_map_of_mem hc) (isBlankElement_iff.mp hblank))

/-- **What is padded is read between blank space**, if it is read where it stands
and begins with a character that is no blank space. -/
theorem spaced_of_padded {α : Type} [Vacancy α] {p : Grammar ε α} {spelled : Text → Prop}
    {written : Text}
    (h : Padded spelled written) (chars : List Char)
    (hapart : Element.areApart chars Charset.jsonWhitespace = true)
    (hhead : ∀ t, spelled t → ∃ c ∈ chars, ∃ tail, t = CodePoint.ofChar c :: tail) {final : Bool}
    {rest : List ε} (hrest : Closes final rest) {v : α}
    (hp : ∀ before inner after, IsBlank after → spelled inner →
      written = before ++ (inner ++ after) →
        p.verdict final (spell inner ++ (spell after ++ rest)) = .matched v (spell after ++ rest)) :
    (spaced p).verdict final (spell written ++ rest) = .matched v rest := by
  obtain ⟨before, inner, after, hbefore, hinner, hafter, hwritten⟩ := h
  obtain ⟨c, hc, tail, htail⟩ := hhead inner hinner
  refine matched_spaced.mpr ⟨before, after, spell inner ++ (spell after ++ rest), hbefore, hafter,
    ?_, ?_, hp before inner after hafter hinner hwritten, hrest.halts_blank⟩
  · rw [hwritten, spell_append, spell_append, List.append_assoc, List.append_assoc]
  · rw [htail]
    exact halts_blank hapart hc final tail _

/-! ## The choice of a value -/

section Choice

variable {inner : Grammar ε Json} {final : Bool} {s rest : List ε} {v : Json}

omit [Spelling ε] in
theorem valueWith_of_string {t : Text} (h : stringText.verdict final s = .matched t rest) :
    (valueWith inner).verdict final s = .matched (.string t) rest :=
  alt_of_matched _ (matched_map.mpr ⟨t, h, rfl⟩)

omit [Spelling ε] in
theorem valueWith_of_number [LawfulElement ε] {c : Char} (hc : c ∈ numberOpeners)
    (h : number.verdict final (Element.ofAscii c :: s) = .matched v rest) :
    (valueWith inner).verdict final (Element.ofAscii c :: s) = .matched v rest :=
  (alt_of_rejected _ ((branch_stringText.map _).rejects _ (by decide) hc final s)).trans
    (alt_of_matched _ h)

omit [Spelling ε] in
theorem valueWith_of_container [LawfulElement ε] {c : Char} (hc : c ∈ ['[', '\x7b'])
    (h : inner.verdict final (Element.ofAscii c :: s) = .matched v rest) :
    (valueWith inner).verdict final (Element.ofAscii c :: s) = .matched v rest :=
  (alt_of_rejected _ ((branch_stringText.map _).rejects _ (by decide) hc final s)).trans <|
    (alt_of_rejected _ (branch_number.rejects _ (by decide) hc final s)).trans
      (alt_of_matched _ h)

omit [Spelling ε] in
/-- A word that stands for a value. -/
theorem word_of_text {c : Char} {cs : List Char} (final : Bool) (rest : List ε) (v : Json) :
    ((token (c :: cs)).map fun _ => v).verdict final (Element.piece (c :: cs) ++ rest) =
      .matched v rest :=
  matched_map.mpr ⟨_, matched_literal.mpr ⟨rfl, rfl⟩, rfl⟩

omit [Spelling ε] in
theorem valueWith_of_word [LawfulElement ε] (hinner : inner.Branch ['[', '\x7b'])
    (final : Bool) (rest : List ε) :
    (valueWith inner).verdict final (Element.piece ['t', 'r', 'u', 'e'] ++ rest) =
        .matched (.bool true) rest ∧
      (valueWith inner).verdict final (Element.piece ['f', 'a', 'l', 's', 'e'] ++ rest) =
        .matched (.bool false) rest ∧
      (valueWith inner).verdict final (Element.piece ['n', 'u', 'l', 'l'] ++ rest) =
        .matched .null rest := by
  have hskip : ∀ {c : Char}, c ∈ ['t', 'f', 'n'] → ∀ s : List ε,
      (valueWith inner).verdict final (Element.ofAscii c :: s) =
        (eitherOf [(token ['t', 'r', 'u', 'e']).map fun _ => (.bool true : Json),
          (token ['f', 'a', 'l', 's', 'e']).map fun _ => .bool false,
          (token ['n', 'u', 'l', 'l']).map fun _ => .null]).verdict final
            (Element.ofAscii c :: s) := fun hc s =>
    (alt_of_rejected _ ((branch_stringText.map _).rejects _ (by decide) hc final s)).trans <|
      (alt_of_rejected _ (branch_number.rejects _ (by decide) hc final s)).trans
        (alt_of_rejected _ (hinner.rejects _ (by decide) hc final s))
  -- each word is passed over by its first letter
  have htrue := (Branch.token (ε := ε) 't' ['r', 'u', 'e']).map fun _ => (.bool true : Json)
  have hfalse := (Branch.token (ε := ε) 'f' ['a', 'l', 's', 'e']).map
    fun _ => (.bool false : Json)
  refine ⟨?_, ?_, ?_⟩
  · exact (hskip (by decide) _).trans (alt_of_matched _ (word_of_text final rest _))
  · exact (hskip (by decide) _).trans <|
      (alt_of_rejected _ (htrue.rejects ['f'] (by decide) (by decide) final _)).trans
        (alt_of_matched _ (word_of_text final rest _))
  · exact (hskip (by decide) _).trans <|
      (alt_of_rejected _ (htrue.rejects ['n'] (by decide) (by decide) final _)).trans <|
        (alt_of_rejected _ (hfalse.rejects ['n'] (by decide) (by decide) final _)).trans
          (alt_of_matched _ (word_of_text final rest _))

end Choice

/-! ## Containers -/

/-- The items of a container within which containers nest so many levels deep. -/
def element (limit levels : Nat) : Grammar ε Json := spaced (valueWith (container limit levels))

omit [Spelling ε] in
theorem container_succ (limit levels : Nat) :
    (container limit (levels + 1) : Grammar ε Json) =
      eitherOf [objectOf (element limit levels), arrayOf (element limit levels)] :=
  rfl

/-- The closing bracket of a container, after blank space. -/
theorem bracket_of_blank {t : Text} (ht : IsBlank t) {c : Char} (hc : c ∈ closers) (final : Bool)
    (rest : List ε) :
    (preceded blanks (ascii c)).verdict final (spell t ++ Element.ofAscii c :: rest) =
      .matched (Element.ofAscii c) rest :=
  matched_bind.mpr ⟨_, _,
    matched_blanks.mpr ⟨t, ht, rfl, rfl, (closes_mark hc final rest).halts_blank⟩,
    matched_ascii.mpr ⟨rfl, rfl⟩⟩

/-- Items with separators, up to the closing bracket, from the first and the
rounds after it. -/
theorem separatedItems_of_rounds {α : Type} {p : Grammar ε α} {final : Bool} {s middle : List ε}
    {rest : List ε} {c : Char} (hc : c ∈ [']', '\x7d']) {v : α} {vs : List α}
    (hfirst : p.verdict final s = .matched v middle)
    (hmore : Verdict.Rounds (Verdict.round ((ascii ',').verdict final) (p.verdict final)) middle vs
      (Element.ofAscii c :: rest)) :
    (separatedItems (ascii ',') p).verdict final s =
      .matched (v :: vs) (Element.ofAscii c :: rest) := by
  have hend : (ascii ',').verdict final (Element.ofAscii c :: rest) = .rejected :=
    (Branch.ascii ',').rejects _ (by decide) hc final rest
  rw [verdict_separatedItems]
  exact Verdict.separated_of_rounds (fun h => Consumes.satisfy _ _ h)
    (fun h => (rest_suffix h).length_le) hfirst hmore hend

omit [Spelling ε] in
/-- No items, where none begins. -/
theorem separatedItems_of_rejected {α : Type} {p : Grammar ε α} {final : Bool} {s : List ε}
    (hp : p.verdict final s = .rejected) :
    (separatedItems (ascii ',') p).verdict final s = .matched [] s := by
  rw [verdict_separatedItems, Verdict.separated, hp]

/-- What is padded does not begin at a mark after blank space. -/
theorem spaced_of_blank {α : Type} [Vacancy α] {p : Grammar ε α} {t : Text} (ht : IsBlank t)
    {c : Char}
    (hc : c ∈ closers) {chars : List Char} (hp : p.Branch chars)
    (hapart : Element.areApart closers chars = true) (final : Bool) (rest : List ε) :
    (spaced p).verdict final (spell t ++ Element.ofAscii c :: rest) = .rejected := by
  have hblanks : (blanks : Grammar ε _).verdict final (spell t ++ Element.ofAscii c :: rest) =
      .matched (spell t) (Element.ofAscii c :: rest) :=
    matched_blanks.mpr ⟨t, ht, rfl, rfl, (closes_mark hc final rest).halts_blank⟩
  rw [spaced, between, verdict_bind, hblanks]
  simp only [Verdict.andThen]
  rw [bind_of_rejected _ (hp.rejects _ hapart hc final rest)]

/-- More items, or a closing bracket, end the item before them. -/
theorem closes_moreItems {items : List Form} {others : Text}
    (h : Form.SpellsMoreItems items others) {c : Char} (hc : c ∈ closers) (final : Bool)
    (rest : List ε) : Closes final (spell others ++ Element.ofAscii c :: rest) := by
  cases items with
  | nil =>
    obtain rfl := h
    exact closes_mark hc final rest
  | cons item items =>
    obtain ⟨_, _, _, _, rfl⟩ := h
    rw [spell_ofChar_append (by decide)]
    exact closes_mark (by decide) final _

theorem closes_moreMembers {members : List (List Piece × Form)} {others : Text}
    (h : Form.SpellsMoreMembers members others) {c : Char} (hc : c ∈ closers) (final : Bool)
    (rest : List ε) : Closes final (spell others ++ Element.ofAscii c :: rest) := by
  cases members with
  | nil =>
    obtain rfl := h
    exact closes_mark hc final rest
  | cons m members =>
    obtain ⟨_, _, _, _, _, _, rfl⟩ := h
    rw [spell_ofChar_append (by decide)]
    exact closes_mark (by decide) final _

/-- A string is read with the blank space around it, up to a mark that may follow. -/
theorem key_of_padded {key : List Piece} {name : Text} (h : Padded (SpellsString key) name)
    (hread : ∀ c ∈ name, Spelling.Readable ε c) {k : Text} (hk : textOf? key = some k) {c : Char}
    (hc : c ∈ closers) (final : Bool) (rest : List ε) :
    (spaced stringText).verdict final (spell name ++ Element.ofAscii c :: rest) =
      .matched k (Element.ofAscii c :: rest) := by
  refine spaced_of_padded h ['"'] (by decide) (fun t ht => ⟨'"', by decide, _, ht.2⟩)
    (closes_mark hc final rest) ?_
  rintro before inner after _ hinner rfl
  exact stringText_of_pieces hinner (fun d hd => hread d
    (List.mem_append_right _ (List.mem_append_left _ hd))) hk final _

/-- A key in quotation marks, a colon and an item. -/
theorem member_of_texts {key : List Piece} {name : Text} (h : Padded (SpellsString key) name)
    (hread : ∀ c ∈ name, Spelling.Readable ε c) {k : Text} (hk : textOf? key = some k)
    {p : Grammar ε Json} {final : Bool} {s rest : List ε} {v : Json}
    (hp : p.verdict final s = .matched v rest) :
    (member p).verdict final (spell name ++ Element.ofAscii ':' :: s) = .matched (k, v) rest := by
  have hkey : (spaced stringText).verdict final (spell name ++ Element.ofAscii ':' :: s) =
      .matched k (Element.ofAscii ':' :: s) :=
    key_of_padded h hread hk (by decide) final s
  exact matched_bind.mpr ⟨k, _, hkey, matched_bind.mpr ⟨_, s, matched_ascii.mpr ⟨rfl, rfl⟩,
    matched_map.mpr ⟨v, hp, rfl⟩⟩⟩

omit [Spelling ε] in
/-- An array is its items between brackets. -/
theorem container_of_items [LawfulElement ε] {limit levels : Nat} {final : Bool}
    {s middle rest : List ε} {vs : List Json}
    (hitems : (separatedItems (ascii ',') (element limit levels)).verdict final s =
      .matched vs middle)
    (hbracket : (preceded blanks (ascii ']')).verdict final middle =
      .matched (Element.ofAscii ']') rest) :
    (container limit (levels + 1)).verdict final (Element.ofAscii '[' :: s) =
      .matched (.array vs) rest := by
  rw [container_succ]
  -- objects come first in the choice, and a square bracket begins none
  refine (alt_of_rejected _ ((branch_objectOf ?_).rejects ['['] (by decide) (by decide)
    final _)).trans (alt_of_matched _ ?_)
  · exact final_spaced (branch_valueWith (branch_container limit levels)).final
  · exact matched_map.mpr ⟨vs, matched_bind.mpr ⟨_, _, matched_ascii.mpr ⟨rfl, rfl⟩,
      matched_bind.mpr ⟨vs, middle, hitems, matched_map.mpr ⟨_, hbracket, rfl⟩⟩⟩, rfl⟩

omit [Spelling ε] in
/-- An object is its members between brackets. -/
theorem container_of_members {limit levels : Nat} {final : Bool} {s middle rest : List ε}
    {vs : List (Text × Json)}
    (hmembers : (separatedItems (ascii ',') (member (element limit levels))).verdict final s =
      .matched vs middle)
    (hbracket : (preceded blanks (ascii '\x7d')).verdict final middle =
      .matched (Element.ofAscii '\x7d') rest) :
    (container limit (levels + 1)).verdict final (Element.ofAscii '\x7b' :: s) =
      .matched (.object (Entries.ofPairs vs)) rest := by
  rw [container_succ]
  exact alt_of_matched _ (matched_map.mpr ⟨vs, matched_bind.mpr ⟨_, _,
    matched_ascii.mpr ⟨rfl, rfl⟩, matched_bind.mpr ⟨vs, middle, hmembers,
      matched_map.mpr ⟨_, hbracket, rfl⟩⟩⟩, rfl⟩)

mutual

/-- **Every text of a form is read as the value that the form denotes.** -/
theorem valueWith_of_form (limit : Nat) : ∀ (f : Form) {levels : Nat} {t : Text} {v : Json},
    f.Spells t → (∀ c ∈ t, Spelling.Readable ε c) → f.nesting ≤ levels → f.value? = some v →
    ∀ {final : Bool} {rest : List ε}, Halts continuesNumber final rest →
      (valueWith (container limit levels)).verdict final (spell t ++ rest) = .matched v rest
  | .null, levels, t, v, h, _, _, hv, final, rest, _ => by
    obtain rfl : .null = v := Option.some.inj hv
    rw [show t = Text.ofChars ['n', 'u', 'l', 'l'] from h, spell_ofChars (by decide)]
    exact (valueWith_of_word (branch_container limit levels) final rest).2.2
  | .bool true, levels, t, v, h, _, _, hv, final, rest, _ => by
    obtain rfl : .bool true = v := Option.some.inj hv
    rw [show t = Text.ofChars ['t', 'r', 'u', 'e'] from h, spell_ofChars (by decide)]
    exact (valueWith_of_word (branch_container limit levels) final rest).1
  | .bool false, levels, t, v, h, _, _, hv, final, rest, _ => by
    obtain rfl : .bool false = v := Option.some.inj hv
    rw [show t = Text.ofChars ['f', 'a', 'l', 's', 'e'] from h, spell_ofChars (by decide)]
    exact (valueWith_of_word (branch_container limit levels) final rest).2.1
  | .number n, levels, t, v, h, _, _, hv, final, rest, hrest => by
    obtain ⟨hn, rfl⟩ := h
    have hread := number_of_text hn hv hrest
    obtain ⟨c, hc, tail, htail⟩ := hn.head
    have hascii := Element.lt_of_areAscii
      (show Element.areAscii numberOpeners = true by decide) c hc
    rw [htail, spell_ofChar_append hascii] at hread ⊢
    exact valueWith_of_number hc hread
  | .string ps, levels, t, v, h, hread, _, hv, final, rest, _ => by
    obtain ⟨text, htext, rfl⟩ := Option.map_eq_some_iff.mp hv
    exact valueWith_of_string (stringText_of_pieces h hread htext final rest)
  | .array items, 0, _, _, _, _, hlevels, _, _, _, _ => by
    simp [Form.nesting] at hlevels
  | .array items, levels + 1, t, v, h, hread, hlevels, hv, final, rest, _ => by
    obtain ⟨inner, hinner, rfl⟩ := h
    obtain ⟨vs, hvs, rfl⟩ := Option.map_eq_some_iff.mp hv
    obtain ⟨middle, hitems, hbracket⟩ := separatedItems_of_items limit items hinner
      (fun c hc => hread c (List.mem_cons_of_mem _ (List.mem_append_left _ hc)))
      (by simpa [Form.nesting] using hlevels) hvs final rest
    rw [spell_ofChar_append (by decide), spell_append, List.append_assoc,
      spell_ofChar_append (by decide)]
    exact valueWith_of_container (by decide) (container_of_items hitems hbracket)
  | .object members, 0, _, _, _, _, hlevels, _, _, _, _ => by
    simp [Form.nesting] at hlevels
  | .object members, levels + 1, t, v, h, hread, hlevels, hv, final, rest, _ => by
    obtain ⟨inner, hinner, rfl⟩ := h
    obtain ⟨vs, hvs, rfl⟩ := Option.map_eq_some_iff.mp hv
    obtain ⟨middle, hmembers, hbracket⟩ := separatedItems_of_members limit members hinner
      (fun c hc => hread c (List.mem_cons_of_mem _ (List.mem_append_left _ hc)))
      (by simpa [Form.nesting] using hlevels) hvs final rest
    rw [spell_ofChar_append (by decide), spell_append, List.append_assoc,
      spell_ofChar_append (by decide)]
    exact valueWith_of_container (by decide) (container_of_members hmembers hbracket)

/-- The items of an array are read, and its closing bracket after them. -/
theorem separatedItems_of_items (limit : Nat) : ∀ (items : List Form) {levels : Nat}
    {inner : Text} {vs : List Json}, Form.SpellsItems items inner →
    (∀ c ∈ inner, Spelling.Readable ε c) → Form.nestingItems items ≤ levels →
    Form.itemValues? items = some vs → ∀ (final : Bool) (rest : List ε),
      ∃ middle, (separatedItems (ascii ',') (element limit levels)).verdict final
          (spell inner ++ Element.ofAscii ']' :: rest) = .matched vs middle ∧
        (preceded blanks (ascii ']')).verdict final middle =
          .matched (Element.ofAscii ']') rest
  | [], levels, inner, vs, h, _, _, hvs, final, rest => by
    obtain rfl : [] = vs := Option.some.inj hvs
    have hblank : IsBlank inner := h
    exact ⟨_, separatedItems_of_rejected (spaced_of_blank hblank (by decide)
      (branch_valueWith (branch_container limit levels)) (by decide) final rest),
      bracket_of_blank hblank (by decide) final rest⟩
  | item :: items, levels, inner, vs, h, hread, hlevels, hvs, final, rest => by
    obtain ⟨first, others, hfirst, hothers, rfl⟩ := h
    obtain ⟨v, hv, hmore⟩ := Option.bind_eq_some_iff.mp hvs
    obtain ⟨vs, htail, rfl⟩ := Option.map_eq_some_iff.mp hmore
    simp only [Form.nestingItems, Nat.max_le] at hlevels
    have hrounds := rounds_of_moreItems limit items hothers
      (fun c hc => hread c (List.mem_append_right _ hc)) hlevels.2 htail final rest
    have helement := element_of_padded limit item hfirst
      (fun c hc => hread c (List.mem_append_left _ hc)) hlevels.1 hv
      (closes_moreItems hothers (c := ']') (by decide) final rest)
    rw [spell_append, List.append_assoc]
    -- the last item has taken the blank space before the bracket
    exact ⟨_, separatedItems_of_rounds (by decide) helement hrounds,
      bracket_of_blank (t := []) (by simp [IsBlank]) (by decide) final rest⟩

/-- An item is read with the blank space around it. -/
theorem element_of_padded (limit : Nat) : ∀ (f : Form) {levels : Nat} {t : Text} {v : Json},
    Padded f.Spells t → (∀ c ∈ t, Spelling.Readable ε c) → f.nesting ≤ levels →
    f.value? = some v → ∀ {final : Bool} {rest : List ε}, Closes final rest →
      (element limit levels).verdict final (spell t ++ rest) = .matched v rest
  | f, levels, t, v, h, hread, hlevels, hv, final, rest, hrest => by
    refine spaced_of_padded h openers (by decide) (fun t ht => ht.head) hrest ?_
    rintro before inner after hafter hinner rfl
    exact valueWith_of_form limit f hinner
      (fun c hc => hread c (List.mem_append_right _ (List.mem_append_left _ hc))) hlevels hv
      (hrest.halts_number hafter)

/-- The items after the first are read, each after a comma. -/
theorem rounds_of_moreItems (limit : Nat) : ∀ (items : List Form) {levels : Nat}
    {others : Text} {vs : List Json}, Form.SpellsMoreItems items others →
    (∀ c ∈ others, Spelling.Readable ε c) → Form.nestingItems items ≤ levels →
    Form.itemValues? items = some vs → ∀ (final : Bool) (rest : List ε),
      Verdict.Rounds (Verdict.round ((ascii ',').verdict final)
        ((element limit levels).verdict final)) (spell others ++ Element.ofAscii ']' :: rest) vs
        (Element.ofAscii ']' :: rest)
  | [], levels, others, vs, h, _, _, hvs, final, rest => by
    obtain rfl : [] = vs := Option.some.inj hvs
    obtain rfl : others = [] := h
    exact .none _
  | item :: items, levels, others, vs, h, hread, hlevels, hvs, final, rest => by
    obtain ⟨first, others, hfirst, hothers, rfl⟩ := h
    obtain ⟨v, hv, hmore⟩ := Option.bind_eq_some_iff.mp hvs
    obtain ⟨vs, htail, rfl⟩ := Option.map_eq_some_iff.mp hmore
    simp only [Form.nestingItems, Nat.max_le] at hlevels
    have hrounds := rounds_of_moreItems limit items hothers
      (fun c hc => hread c (List.mem_cons_of_mem _ (List.mem_append_right _ hc))) hlevels.2 htail
      final rest
    have helement := element_of_padded limit item hfirst
      (fun c hc => hread c (List.mem_cons_of_mem _ (List.mem_append_left _ hc))) hlevels.1 hv
      (closes_moreItems hothers (c := ']') (by decide) final rest)
    rw [spell_ofChar_append (by decide), spell_append, List.append_assoc]
    exact .more (Verdict.round_eq_matched.mpr ⟨_, _, matched_ascii.mpr ⟨rfl, rfl⟩, helement⟩)
      hrounds

/-- The members of an object are read, and its closing bracket after them. -/
theorem separatedItems_of_members (limit : Nat) : ∀ (members : List (List Piece × Form))
    {levels : Nat} {inner : Text} {vs : List (Text × Json)},
    Form.SpellsMembers members inner → (∀ c ∈ inner, Spelling.Readable ε c) →
    Form.nestingMembers members ≤ levels → Form.memberValues? members = some vs →
    ∀ (final : Bool) (rest : List ε),
      ∃ middle, (separatedItems (ascii ',') (member (element limit levels))).verdict final
          (spell inner ++ Element.ofAscii '\x7d' :: rest) = .matched vs middle ∧
        (preceded blanks (ascii '\x7d')).verdict final middle =
          .matched (Element.ofAscii '\x7d') rest
  | [], levels, inner, vs, h, _, _, hvs, final, rest => by
    obtain rfl : [] = vs := Option.some.inj hvs
    have hblank : IsBlank inner := h
    exact ⟨_, separatedItems_of_rejected (bind_of_rejected _ (spaced_of_blank hblank (by decide)
      branch_stringText (by decide) final rest)),
      bracket_of_blank hblank (by decide) final rest⟩
  | (key, item) :: members, levels, inner, vs, h, hread, hlevels, hvs, final, rest => by
    obtain ⟨name, first, others, hname, hfirst, hothers, rfl⟩ := h
    obtain ⟨k, hk, hitem⟩ := Option.bind_eq_some_iff.mp hvs
    obtain ⟨v, hv, hmore⟩ := Option.bind_eq_some_iff.mp hitem
    obtain ⟨vs, htail, rfl⟩ := Option.map_eq_some_iff.mp hmore
    simp only [Form.nestingMembers, Nat.max_le] at hlevels
    have hrounds := rounds_of_moreMembers limit members hothers
      (fun c hc => hread c (List.mem_append_right _ (List.mem_cons_of_mem _
        (List.mem_append_right _ hc)))) hlevels.2 htail final rest
    have helement := element_of_padded limit item hfirst
      (fun c hc => hread c (List.mem_append_right _ (List.mem_cons_of_mem _
        (List.mem_append_left _ hc)))) hlevels.1 hv
      (closes_moreMembers hothers (c := '\x7d') (by decide) final rest)
    rw [spell_append, List.append_assoc, spell_ofChar_append (by decide), spell_append,
      List.append_assoc]
    exact ⟨_, separatedItems_of_rounds (by decide) (member_of_texts hname
        (fun c hc => hread c (List.mem_append_left _ hc)) hk helement) hrounds,
      bracket_of_blank (t := []) (by simp [IsBlank]) (by decide) final rest⟩

/-- The members after the first are read, each after a comma. -/
theorem rounds_of_moreMembers (limit : Nat) : ∀ (members : List (List Piece × Form))
    {levels : Nat} {others : Text} {vs : List (Text × Json)},
    Form.SpellsMoreMembers members others → (∀ c ∈ others, Spelling.Readable ε c) →
    Form.nestingMembers members ≤ levels → Form.memberValues? members = some vs →
    ∀ (final : Bool) (rest : List ε),
      Verdict.Rounds (Verdict.round ((ascii ',').verdict final)
        ((member (element limit levels)).verdict final))
        (spell others ++ Element.ofAscii '\x7d' :: rest) vs (Element.ofAscii '\x7d' :: rest)
  | [], levels, others, vs, h, _, _, hvs, final, rest => by
    obtain rfl : [] = vs := Option.some.inj hvs
    obtain rfl : others = [] := h
    exact .none _
  | (key, item) :: members, levels, others, vs, h, hread, hlevels, hvs, final, rest => by
    obtain ⟨name, first, others, hname, hfirst, hothers, rfl⟩ := h
    obtain ⟨k, hk, hitem⟩ := Option.bind_eq_some_iff.mp hvs
    obtain ⟨v, hv, hmore⟩ := Option.bind_eq_some_iff.mp hitem
    obtain ⟨vs, htail, rfl⟩ := Option.map_eq_some_iff.mp hmore
    simp only [Form.nestingMembers, Nat.max_le] at hlevels
    have hrounds := rounds_of_moreMembers limit members hothers
      (fun c hc => hread c (List.mem_cons_of_mem _ (List.mem_append_right _
        (List.mem_cons_of_mem _ (List.mem_append_right _ hc))))) hlevels.2 htail final rest
    have helement := element_of_padded limit item hfirst
      (fun c hc => hread c (List.mem_cons_of_mem _ (List.mem_append_right _
        (List.mem_cons_of_mem _ (List.mem_append_left _ hc))))) hlevels.1 hv
      (closes_moreMembers hothers (c := '\x7d') (by decide) final rest)
    rw [spell_ofChar_append (by decide), spell_append, List.append_assoc,
      spell_ofChar_append (by decide), spell_append, List.append_assoc]
    exact .more (Verdict.round_eq_matched.mpr ⟨_, _, matched_ascii.mpr ⟨rfl, rfl⟩,
      member_of_texts hname (fun c hc => hread c (List.mem_cons_of_mem _
        (List.mem_append_left _ hc))) hk helement⟩) hrounds

end

end StreamGrammar.Json
