import StreamGrammar.Proofs.Grammar.Fatal
import StreamGrammar.Proofs.Json.Lockstep
import StreamGrammar.Proofs.Json.Readable

/-!
# Where JSON nests too deep

A container is refused, and the parse ended, where its bracket opens inside as many
containers as are admitted. What stands before that bracket can be said without a
parser (`Overfills`): for each of these containers its own bracket, items or members
that are complete, with a comma after each, and in an object the key of the member that
the next one is the item of. Nothing is asked of what comes after, which is never read.

The grammar gives the refusal on just the inputs that begin so (`failsOn_text`). That
it does not on others is a matter of the reasons, since strings and numbers fail for
good as well; so the statement is on a kind of reasons that singles the refusal out
(`SinglesOut`), whichever it is.
-/

namespace StreamGrammar.Json

open Grammar

/-! ## Texts that open a container too many -/

/-- **Texts in a row, with a comma after each.** -/
inductive Listed (spelled : Text → Prop) : Text → Prop
  /-- No text. -/
  | none : Listed spelled []
  /-- One text and its comma, and then some more. -/
  | more {first others : Text} (hfirst : spelled first) (hothers : Listed spelled others) :
    Listed spelled (first ++ CodePoint.ofChar ',' :: others)

/-- The text of an item that denotes a value and nests so many levels deep at most. -/
def ItemText (levels : Nat) (t : Text) : Prop :=
  ∃ (f : Form) (v : Json), Padded f.Spells t ∧ f.nesting ≤ levels ∧ f.value? = some v

/-- The text of a key that denotes one. -/
def KeyText (t : Text) : Prop :=
  ∃ (key : List Piece) (k : Text), Padded (SpellsString key) t ∧ textOf? key = some k

/-- The text of a member: a key, a colon and an item. -/
def MemberText (levels : Nat) (t : Text) : Prop :=
  ∃ name item, KeyText name ∧ ItemText levels item ∧ t = name ++ CodePoint.ofChar ':' :: item

/-- **A text that opens so many containers inside one another and one more**, and ends
with the bracket of the last. -/
inductive Overfills : Nat → Text → Prop
  /-- The bracket of the last container. -/
  | bracket {c : Char} (hc : c ∈ ['[', '\x7b']) : Overfills 0 [CodePoint.ofChar c]
  /-- An array, up to the item that the rest is in. -/
  | item {levels : Nat} {items blank inner : Text} (hitems : Listed (ItemText levels) items)
      (hblank : IsBlank blank) (hinner : Overfills levels inner) :
    Overfills (levels + 1) (CodePoint.ofChar '[' :: (items ++ (blank ++ inner)))
  /-- An object, up to the member that the rest is in. -/
  | member {levels : Nat} {members name blank inner : Text}
      (hmembers : Listed (MemberText levels) members) (hname : KeyText name)
      (hblank : IsBlank blank) (hinner : Overfills levels inner) :
    Overfills (levels + 1) (CodePoint.ofChar '\x7b' ::
      (members ++ (name ++ CodePoint.ofChar ':' :: (blank ++ inner))))

variable {ε : Type} [Element ε] [Spelling ε]

/-- Input that begins with such a text. -/
def Opens (levels : Nat) (s : List ε) : Prop :=
  ∃ (t : Text) (rest : List ε), Overfills levels t ∧ (∀ c ∈ t, Spelling.Readable ε c) ∧
    s = spell t ++ rest

/-- **Input that nests too deep**: after blank space it opens more containers inside one
another than are admitted. -/
def NestsTooDeep (limit : Nat) (s : List ε) : Prop :=
  ∃ (blank : Text) (rest : List ε), IsBlank blank ∧ s = spell blank ++ rest ∧ Opens limit rest

/-- Such a text begins with a bracket. -/
theorem Overfills.head {levels : Nat} {t : Text} (h : Overfills levels t) :
    ∃ c ∈ ['[', '\x7b'], ∃ tail, t = CodePoint.ofChar c :: tail := by
  cases h with
  | bracket hc => exact ⟨_, hc, [], rfl⟩
  | item => exact ⟨'[', by decide, _, rfl⟩
  | member => exact ⟨'\x7b', by decide, _, rfl⟩

theorem Opens.head {levels : Nat} {s : List ε} (h : Opens levels s) :
    ∃ c ∈ ['[', '\x7b'], ∃ tail, s = Element.ofAscii c :: tail := by
  obtain ⟨t, rest, ht, _, rfl⟩ := h
  obtain ⟨c, hc, tail, rfl⟩ := ht.head
  have hascii := Element.lt_of_areAscii
    (show Element.areAscii ['[', '\x7b'] = true by decide) c hc
  exact ⟨c, hc, spell tail ++ rest, spell_ofChar_append hascii tail rest⟩

/-! ## Texts up to a mark -/

/-- **A grammar that reads some texts up to a mark**, and matches nothing else before
it. -/
def ReadsUpTo {α : Type} (mark : Char) (spelled : Text → Prop) (g : Grammar ε α) : Prop :=
  ∀ {s rest : List ε}, (∃ v, g.verdict true s = .matched v (Element.ofAscii mark :: rest)) ↔
    ∃ t, spelled t ∧ (∀ c ∈ t, Spelling.Readable ε c) ∧ s = spell t ++ Element.ofAscii mark :: rest

theorem readsUpTo_element (limit levels : Nat) :
    ReadsUpTo ',' (ItemText levels) (element limit levels : Grammar ε Json) := by
  intro s rest
  constructor
  · rintro ⟨v, hv⟩
    obtain ⟨_, f, t, ht, hlevels, hvalue, rfl⟩ :=
      padded_of_spaced (recognizes_valueWith (recognizes_container limit levels)) hv
    obtain ⟨t', hread, hs⟩ := readsText_spaced (readsText_valueWith (readsText_container _ _)) hv
    obtain rfl := spell_injective (List.append_cancel_right hs)
    exact ⟨t, ⟨f, v, ht, hlevels, hvalue⟩, hread, rfl⟩
  · rintro ⟨t, ⟨f, v, ht, hlevels, hvalue⟩, hread, rfl⟩
    exact ⟨v, element_of_padded limit f ht hread hlevels hvalue (closes_mark (by decide) true rest)⟩

theorem readsUpTo_key : ReadsUpTo ':' KeyText (spaced stringText : Grammar ε Text) := by
  intro s rest
  constructor
  · rintro ⟨k, hk⟩
    obtain ⟨key, name, hname, htext, rfl⟩ := padded_of_key hk
    obtain ⟨t', hread, hs⟩ := readsText_spaced readsText_stringText hk
    obtain rfl := spell_injective (List.append_cancel_right hs)
    exact ⟨name, ⟨key, k, hname, htext⟩, hread, rfl⟩
  · rintro ⟨name, ⟨key, k, hname, htext⟩, hread, rfl⟩
    exact ⟨k, key_of_padded hname hread htext (by decide) true rest⟩

theorem readsUpTo_member (limit levels : Nat) :
    ReadsUpTo ',' (MemberText levels)
      (member (element limit levels) : Grammar ε (Text × Json)) := by
  intro s rest
  constructor
  · rintro ⟨pair, hm⟩
    obtain ⟨k, afterKey, hkey, hmore⟩ := matched_bind.mp hm
    obtain ⟨_, afterColon, hcolon, hlast⟩ := matched_bind.mp hmore
    obtain ⟨v, hitem, rfl⟩ := matched_map.mp hlast
    obtain ⟨_, rfl⟩ := matched_ascii.mp hcolon
    obtain ⟨name, hname, hread, rfl⟩ := readsUpTo_key.mp ⟨k, hkey⟩
    obtain ⟨item, hspells, hread', rfl⟩ := (readsUpTo_element limit levels).mp ⟨v, hitem⟩
    refine ⟨_, ⟨name, item, hname, hspells, rfl⟩, ?_, ?_⟩
    · simp only [List.forall_mem_append, List.forall_mem_cons]
      exact ⟨hread, Spelling.readable_of_lt _ (by decide), hread'⟩
    · rw [spell_append, List.append_assoc, spell_ofChar_append (by decide)]
  · rintro ⟨_, ⟨name, item, hname, hitem, rfl⟩, hread, rfl⟩
    simp only [List.forall_mem_append, List.forall_mem_cons] at hread
    obtain ⟨hread, -, hread'⟩ := hread
    rw [spell_append, List.append_assoc, spell_ofChar_append (by decide)]
    obtain ⟨k, hkey⟩ := readsUpTo_key.mpr ⟨name, hname, hread, rfl⟩
    obtain ⟨v, hv⟩ := (readsUpTo_element limit levels).mpr ⟨item, hitem, hread', rfl⟩
    exact ⟨(k, v), matched_bind.mpr ⟨k, _, hkey, matched_bind.mpr ⟨_, _,
      matched_ascii.mpr ⟨rfl, rfl⟩, matched_map.mpr ⟨v, hv, rfl⟩⟩⟩⟩

/-- **What comes before an item that a loop is at** are texts with a comma after each. -/
theorem leads_iff {α : Type} {p : Grammar ε α} {spelled : Text → Prop}
    (hp : ReadsUpTo ',' spelled p) {s rest : List ε} :
    Verdict.Leads (p.verdict true) ((ascii ',').verdict true) s rest ↔
      ∃ t, Listed spelled t ∧ (∀ c ∈ t, Spelling.Readable ε c) ∧ s = spell t ++ rest := by
  constructor
  · intro h
    induction h with
    | none s => exact ⟨[], .none, by simp, rfl⟩
    | more hitem hmark _ ih =>
      obtain ⟨_, rfl⟩ := matched_ascii.mp hmark
      obtain ⟨first, hfirst, hread, rfl⟩ := hp.mp ⟨_, hitem⟩
      obtain ⟨others, hothers, hread', rfl⟩ := ih
      refine ⟨_, .more hfirst hothers, ?_, ?_⟩
      · simp only [List.forall_mem_append, List.forall_mem_cons]
        exact ⟨hread, Spelling.readable_of_lt _ (by decide), hread'⟩
      · rw [spell_append, List.append_assoc, spell_ofChar_append (by decide)]
  · rintro ⟨t, ht, hread, rfl⟩
    induction ht with
    | none => exact .none _
    | @more first others hfirst _ ih =>
      simp only [List.forall_mem_append, List.forall_mem_cons] at hread
      rw [spell_append, List.append_assoc, spell_ofChar_append (by decide)]
      obtain ⟨v, hitem⟩ := hp.mpr ⟨first, hfirst, hread.1, rfl⟩
      exact .more hitem (matched_ascii.mpr ⟨rfl, rfl⟩) (ih hread.2.2)

/-! ## Reasons that are not that of too deep a nesting -/

/-- **A kind of reasons that singles out too deep a nesting**: it has the refusal of a
container, no tame reason, and no reason that quotes the characters of a string. -/
structure SinglesOut (ε : Type) [Element ε] (limit : Nat) (kind : Reason → Prop) : Prop where
  /-- The refusal is of the kind, wherever it is given. -/
  refusal : ∀ pos, kind (.refused (refusal limit) pos)
  /-- No tame reason is. -/
  tame : ∀ reason : Reason, Tame reason.text → ¬kind reason
  /-- Characters of a string that cannot be read are no such reason. -/
  raw : ∀ (run : List ε) (pos : Nat) (fault : Fault), Element.decode run = .error fault →
    ¬kind (.invalid "string characters" (Element.datum run) pos fault)

variable {limit : Nat} {kind : Reason → Prop}

omit [Spelling ε] in
theorem spares_of_tamely {α : Type} {V : α → Prop} {g : Grammar ε α} (h : g.Tamely V)
    (hkind : SinglesOut ε limit kind) : Spares kind g := by
  refine spares_iff.mpr fun c _ _ reason hrun => hkind.tame reason ?_
  have htamed := h c
  rwa [hrun] at htamed

omit [Spelling ε] in
theorem spares_ascii (c : Char) : Spares kind (ascii c : Grammar ε ε) :=
  (MatchesOrRejects.satisfy _ _).spares

omit [Spelling ε] in
theorem spares_blanks : Spares kind (blanks : Grammar ε (List ε)) :=
  (MatchesOrRejects.takeWhile _).spares

theorem spares_stringText (hε : ShowsPlainly ε) (hkind : SinglesOut ε limit kind) :
    Spares kind (stringText : Grammar ε Text) := by
  have hraw : Spares kind (raw : Grammar ε Text) :=
    (MatchesOrRejects.otherThan _).spares.convertOrHalt fun _ hfault pos =>
      hkind.raw _ pos _ hfault
  have hpiece : Spares kind (eitherOf [raw, escape] : Grammar ε Text) :=
    hraw.alt ((spares_of_tamely (tamely_escape hε) hkind).alt .noAlternative)
  exact (hpiece.repeatAny.between (spares_ascii _) (spares_ascii _)).map _

/-- The parts of a number that is written are digits and signs. -/
theorem numericParts_of_wellFormed {n : NumberForm} (h : n.WellFormed) :
    NumericParts (n.parts : NumberParts ε) := by
  have hdigits : ∀ {ds : List Nat}, AreDigits ds →
      ∀ e ∈ (spell (digitsText ds) : List ε), isNumeric (Element.code e) = true := fun hds e he =>
    isNumeric_of_isDigit (isDigitElement_spell hds.2 e he)
  have hmark : ∀ c : Char, c.toNat < 0x40 →
      isNumeric (Element.code (Element.ofAscii c : ε)) = true := fun c hc => by
    rw [LawfulElement.code_ofAscii c (by omega)]
    exact decide_eq_true hc
  refine ⟨fun e he => ?_, hdigits h.whole, fun ds hds => ?_, fun x hx e he => ?_⟩
  · cases hminus : n.minus <;> simp only [NumberForm.parts, hminus] at he <;> cases he
    exact hmark '-' (by decide)
  · obtain ⟨ds, hfraction, rfl⟩ := Option.map_eq_some_iff.mp hds
    exact hdigits (h.fraction ds hfraction)
  · obtain ⟨form, hform, rfl⟩ := Option.map_eq_some_iff.mp hx
    rcases List.mem_append.mp he with he | he
    · obtain ⟨minus, -, rfl⟩ := Option.map_eq_some_iff.mp (Option.mem_toList.mp he)
      cases minus
      · exact hmark '+' (by decide)
      · exact hmark '-' (by decide)
    · exact hdigits (h.exponent form hform) e he

theorem spares_number (hε : ShowsPlainly ε) (hkind : SinglesOut ε limit kind) :
    Spares kind (number : Grammar ε Json) := by
  have hdigits : (digits : Grammar ε (List ε)).MatchesOrRejects := .takeSomeWhile _
  have hmark : ∀ c : Char, (ascii c : Grammar ε ε).MatchesOrRejects := fun _ => .satisfy _ _
  have hmarks : ∀ cs : List Char, (asciiOf cs : Grammar ε ε).MatchesOrRejects :=
    fun _ => .satisfy _ _
  have hinteger : (integer : Grammar ε (List ε)).MatchesOrRejects :=
    ((hmark '0').map _).either <| ((hmarks _).bind fun _ =>
      (MatchesOrRejects.takeWhile _).map _).map _
  have hparts : (numberParts : Grammar ε (NumberParts ε)).MatchesOrRejects :=
    (hmark '-').optional.bind fun _ => hinteger.bind fun _ =>
      ((hmark '.').bind fun _ => hdigits).optional.bind fun _ =>
        (((hmarks _).bind fun _ => (hmarks _).optional.bind fun _ =>
          hdigits.map _).map _).optional.map _
  refine hparts.spares.convertOrHalt fun {s rest parts fault} hmatched hfault pos => ?_
  obtain ⟨n, hn, rfl, _⟩ := text_of_numberParts hmatched
  have hlabel : Text.Avoids "number" initial := by decide
  have hvalue : numberValue (n.parts : NumberParts ε) = .error fault := hfault
  exact hkind.tame _ (tame_invalid_of_avoids hlabel
    (avoids_describeNumber hε (numericParts_of_wellFormed hn)) pos (avoids_numberValue hvalue))

/-! ## Containers -/

section Containers

variable {levels : Nat} {on : List ε → Prop}

/-- At the innermost level every bracket is one too many. -/
theorem failsOn_tooDeep (hkind : SinglesOut ε limit kind) :
    FailsOn kind (tooDeep limit : Grammar ε Json) (Opens 0) := by
  have hbracket : Spares kind ((asciiOf ['[', '\x7b']).map fun _ =>
      (.error (refusal limit) : Except Text Json) : Grammar ε (Except Text Json)) :=
    (MatchesOrRejects.satisfy _ _).spares.map _
  refine (FailsOn.judge hbracket ?_).congr fun s => ⟨?_, fun h => .inr ?_⟩
  · intro s rest v reason hv hreason pos pos' _
    obtain ⟨_, _, rfl⟩ := matched_map.mp hv
    cases hreason
    exact hkind.refusal pos'
  · rintro (hno | ⟨_, rest, _, hv, _, _⟩)
    · exact hno.elim
    · obtain ⟨e, hbracket, rfl⟩ := matched_map.mp hv
      obtain ⟨hmem, rfl⟩ := matched_asciiOf.mp hbracket
      obtain ⟨c, hc, rfl⟩ := List.mem_map.mp hmem
      have hascii := Element.lt_of_areAscii
        (show Element.areAscii ['[', '\x7b'] = true by decide) c hc
      refine ⟨_, rest, .bracket hc, fun d hd => ?_, (spell_ofChar_append hascii [] rest).symm⟩
      obtain rfl := List.mem_singleton.mp hd
      exact Spelling.readable_of_lt _ (by rwa [CodePoint.val_ofChar])
  · obtain ⟨c, hc, tail, rfl⟩ := h.head
    exact ⟨_, tail, _, matched_map.mpr ⟨_, matched_asciiOf.mpr ⟨List.mem_map_of_mem hc, rfl⟩, rfl⟩,
      rfl, hkind.refusal⟩

/-- An item fails after the blank space before it. -/
theorem failsOn_spaced {p : Grammar ε Json} (hp : FailsOn kind p on)
    (hhead : ∀ s, on s → ∃ c ∈ ['[', '\x7b'], ∃ tail, s = Element.ofAscii c :: tail) :
    FailsOn kind (spaced p) fun s => ∃ blank rest, IsBlank blank ∧ s = spell blank ++ rest ∧
      on rest := by
  refine (FailsOn.bind spares_blanks fun _ => FailsOn.bind hp fun _ =>
    spares_blanks.map _).congr fun s => ⟨?_, ?_⟩
  · rintro (hno | ⟨_, rest, hblanks, hon | ⟨_, _, _, hno⟩⟩)
    · exact hno.elim
    · obtain ⟨blank, hblank, _, rfl, _⟩ := matched_blanks.mp hblanks
      exact ⟨blank, rest, hblank, rfl, hon⟩
    · exact hno.elim
  · rintro ⟨blank, rest, hblank, rfl, hon⟩
    obtain ⟨c, hc, tail, rfl⟩ := hhead _ hon
    have hhalts := halts_blank (ε := ε) (by decide) hc true [] tail
    have hascii := Element.lt_of_areAscii
      (show Element.areAscii ['[', '\x7b'] = true by decide) c hc
    rw [spell_ofChar_append hascii] at hhalts
    exact .inr ⟨_, _, matched_blanks.mpr ⟨blank, hblank, rfl, rfl, hhalts⟩, .inl hon⟩

/-- A value fails where a container does. -/
theorem failsOn_valueWith (hε : ShowsPlainly ε) (hkind : SinglesOut ε limit kind)
    {inner : Grammar ε Json} (hinner : FailsOn kind inner on)
    (hhead : ∀ s, on s → ∃ c ∈ ['[', '\x7b'], ∃ tail, s = Element.ofAscii c :: tail) :
    FailsOn kind (valueWith inner) on := by
  have hword : ∀ (cs : List Char) (v : Json),
      Spares kind ((token cs).map fun _ => v : Grammar ε Json) := fun _ _ =>
    (MatchesOrRejects.literal _).spares.map _
  have hwords := (hword ['t', 'r', 'u', 'e'] (.bool true)).alt
    ((hword ['f', 'a', 'l', 's', 'e'] (.bool false)).alt
      ((hword ['n', 'u', 'l', 'l'] .null).alt .noAlternative))
  -- neither a string nor a number begins with a bracket
  have hstring : ∀ s, on s → ((stringText : Grammar ε Text).map JsonTree.string).verdict true s =
      .rejected (α := Json) := fun s hs => by
    obtain ⟨c, hc, tail, rfl⟩ := hhead s hs
    exact (branch_stringText.map _).rejects _ (by decide) hc true tail
  have hnumber : ∀ s, on s → (number : Grammar ε Json).verdict true s = .rejected := fun s hs => by
    obtain ⟨c, hc, tail, rfl⟩ := hhead s hs
    exact branch_number.rejects _ (by decide) hc true tail
  have hcontainer : FailsOn kind (alt inner _) on :=
    (FailsOn.alt hinner hwords fun _ h => h.elim).congr fun _ => by simp
  have hafterString : FailsOn kind (alt number _) on :=
    (FailsOn.alt (spares_number hε hkind) hcontainer hnumber).congr fun _ => by simp
  exact (FailsOn.alt ((spares_stringText hε hkind).map _) hafterString hstring).congr
    fun _ => by simp

omit [Spelling ε] in
/-- What stands between brackets fails after the first. -/
theorem failsOn_bracketed {α : Type} [Vacancy α] {p : Grammar ε α}
    (hp : FailsOn kind p on) (opening closing : Char) :
    FailsOn kind (between (ascii opening) p (preceded blanks (ascii closing))) fun s =>
      ∃ rest, s = Element.ofAscii opening :: rest ∧ on rest := by
  refine (FailsOn.bind (spares_ascii opening) fun _ => FailsOn.bind hp fun _ =>
    (spares_blanks.bind fun _ => spares_ascii closing).map _).congr fun s => ⟨?_, ?_⟩
  · rintro (hno | ⟨_, rest, hmark, hon | ⟨_, _, _, hno⟩⟩)
    · exact hno.elim
    · obtain ⟨_, rfl⟩ := matched_ascii.mp hmark
      exact ⟨rest, rfl, hon⟩
    · exact hno.elim
  · rintro ⟨rest, rfl, hon⟩
    exact .inr ⟨_, rest, matched_ascii.mpr ⟨rfl, rfl⟩, .inl hon⟩

/-- A member fails after its key and its colon. -/
theorem failsOn_member (hε : ShowsPlainly ε) (hkind : SinglesOut ε limit kind)
    {item : Grammar ε Json} (hitem : FailsOn kind item on) :
    FailsOn kind (member item) fun s => ∃ name rest, KeyText name ∧
      (∀ c ∈ name, Spelling.Readable ε c) ∧ s = spell name ++ Element.ofAscii ':' :: rest ∧
        on rest := by
  have hkey : Spares kind (spaced stringText : Grammar ε Text) :=
    (spares_stringText hε hkind).between spares_blanks spares_blanks
  refine (FailsOn.bind hkey fun _ => FailsOn.bind (spares_ascii ':') fun _ =>
    hitem.map _).congr fun s => ⟨?_, ?_⟩
  · rintro (hno | ⟨k, _, hkey, hno | ⟨_, rest, hcolon, hon⟩⟩)
    · exact hno.elim
    · exact hno.elim
    · obtain ⟨_, rfl⟩ := matched_ascii.mp hcolon
      obtain ⟨name, hname, hread, rfl⟩ := readsUpTo_key.mp ⟨k, hkey⟩
      exact ⟨name, rest, hname, hread, rfl, hon⟩
  · rintro ⟨name, rest, hname, hread, rfl, hon⟩
    obtain ⟨k, hkey⟩ := readsUpTo_key.mpr ⟨name, hname, hread, rfl⟩
    exact .inr ⟨k, _, hkey, .inr ⟨_, rest, matched_ascii.mpr ⟨rfl, rfl⟩, hon⟩⟩

theorem spell_item (items blank inner : Text) (rest : List ε) :
    spell (CodePoint.ofChar '[' :: (items ++ (blank ++ inner))) ++ rest =
      Element.ofAscii '[' :: (spell items ++ (spell blank ++ (spell inner ++ rest))) := by
  simp only [spell_ofChar_append (c := '[') (by decide), spell_append, List.append_assoc]

theorem spell_member (members name blank inner : Text) (rest : List ε) :
    spell (CodePoint.ofChar '\x7b' ::
        (members ++ (name ++ CodePoint.ofChar ':' :: (blank ++ inner)))) ++ rest =
      Element.ofAscii '\x7b' :: (spell members ++ (spell name ++
        Element.ofAscii ':' :: (spell blank ++ (spell inner ++ rest)))) := by
  simp only [spell_ofChar_append (c := '\x7b') (by decide), spell_ofChar (c := ':') (by decide),
    spell_append, List.append_assoc, List.cons_append]

/-- **One container more**, array or object. -/
theorem opens_succ {s : List ε} : Opens (levels + 1) s ↔
    (∃ tail, s = Element.ofAscii '\x7b' :: tail ∧ ∃ rest,
      Verdict.Leads ((member (element limit levels)).verdict true) ((ascii ',').verdict true) tail
        rest ∧ ∃ name inner, KeyText name ∧ (∀ c ∈ name, Spelling.Readable ε c) ∧
          rest = spell name ++ Element.ofAscii ':' :: inner ∧ NestsTooDeep levels inner) ∨
    (∃ tail, s = Element.ofAscii '[' :: tail ∧ ∃ rest,
      Verdict.Leads ((element limit levels).verdict true) ((ascii ',').verdict true) tail rest ∧
        NestsTooDeep levels rest) := by
  have hmark : ∀ {c : Char}, c.toNat < 0x80 → Spelling.Readable ε (CodePoint.ofChar c) :=
    fun hc => Spelling.readable_of_lt _ hc
  constructor
  · rintro ⟨t, rest, ht, hread, rfl⟩
    cases ht with
    | @item _ items blank inner hitems hblank hinner =>
      simp only [List.forall_mem_cons, List.forall_mem_append] at hread
      obtain ⟨-, hitems', -, hinner'⟩ := hread
      exact .inr ⟨_, spell_item _ _ _ _, _,
        (leads_iff (readsUpTo_element limit levels)).mpr ⟨items, hitems, hitems', rfl⟩,
        blank, _, hblank, rfl, inner, rest, hinner, hinner', rfl⟩
    | @member _ members name blank inner hmembers hname hblank hinner =>
      simp only [List.forall_mem_cons, List.forall_mem_append] at hread
      obtain ⟨-, hmembers', hname', -, -, hinner'⟩ := hread
      exact .inl ⟨_, spell_member _ _ _ _ _, _,
        (leads_iff (readsUpTo_member limit levels)).mpr ⟨members, hmembers, hmembers', rfl⟩,
        name, _, hname, hname', rfl, blank, _, hblank, rfl, inner, rest, hinner, hinner', rfl⟩
  · rintro (⟨tail, rfl, rest, hleads, name, _, hname, hname', rfl, hnested⟩ |
      ⟨tail, rfl, rest, hleads, hnested⟩)
    · obtain ⟨blank, _, hblank, rfl, inner, rest, hinner, hinner', rfl⟩ := hnested
      obtain ⟨members, hmembers, hmembers', rfl⟩ :=
        (leads_iff (readsUpTo_member limit levels)).mp hleads
      refine ⟨_, rest, .member hmembers hname hblank hinner, ?_, (spell_member _ _ _ _ _).symm⟩
      simp only [List.forall_mem_cons, List.forall_mem_append]
      exact ⟨hmark (by decide), hmembers', hname', hmark (by decide), readable_of_blank hblank,
        hinner'⟩
    · obtain ⟨blank, _, hblank, rfl, inner, rest, hinner, hinner', rfl⟩ := hnested
      obtain ⟨items, hitems, hitems', rfl⟩ :=
        (leads_iff (readsUpTo_element limit levels)).mp hleads
      refine ⟨_, rest, .item hitems hblank hinner, ?_, (spell_item _ _ _ _).symm⟩
      simp only [List.forall_mem_cons, List.forall_mem_append]
      exact ⟨hmark (by decide), hitems', readable_of_blank hblank, hinner'⟩

/-- **A container fails for good where it opens too many inside**, by induction on the
levels that are left. -/
theorem failsOn_container (hε : ShowsPlainly ε) (hkind : SinglesOut ε limit kind)
    (levels : Nat) : FailsOn kind (container limit levels : Grammar ε Json) (Opens levels) := by
  induction levels with
  | zero => exact failsOn_tooDeep hkind
  | succ levels ih =>
    have hitem : FailsOn kind (element limit levels : Grammar ε Json) (NestsTooDeep levels) :=
      failsOn_spaced (failsOn_valueWith hε hkind ih fun _ => Opens.head) fun _ => Opens.head
    have hcomma : (ascii ',' : Grammar ε ε).Consumes := .satisfy _ _
    have hobject := (failsOn_bracketed ((failsOn_member hε hkind hitem).separatedItems
      (spares_ascii ',') hcomma) '\x7b' '\x7d').map fun members =>
        (JsonTree.object (Entries.ofPairs members) : Json)
    have harray := (failsOn_bracketed (hitem.separatedItems (spares_ascii ',') hcomma) '[' ']').map
      fun items => (JsonTree.array items : Json)
    -- no object begins with a square bracket
    have hfirst : Final (element limit levels : Grammar ε Json) :=
      final_spaced (branch_valueWith (branch_container limit levels)).final
    have hchoices := FailsOn.alt harray Spares.noAlternative fun _ h => h.elim
    refine (FailsOn.alt hobject hchoices ?_).congr fun s =>
      (or_congr_right (or_iff_left id)).trans opens_succ.symm
    rintro s (⟨tail, rfl, _⟩ | hno)
    · exact (branch_objectOf hfirst).rejects ['['] (by decide) (by decide) true tail
    · exact hno.elim

end Containers

/-- **The refusal of too deep a nesting is given on just the inputs that nest too
deep.** -/
theorem failsOn_text (hε : ShowsPlainly ε) (hkind : SinglesOut ε limit kind) :
    FailsOn kind (text limit : Grammar ε Json) (NestsTooDeep limit) :=
  failsOn_spaced (failsOn_valueWith hε hkind (failsOn_container hε hkind limit)
    fun _ => Opens.head) fun _ => Opens.head

end StreamGrammar.Json
