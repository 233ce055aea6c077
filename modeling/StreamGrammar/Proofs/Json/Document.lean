import StreamGrammar.Proofs.Json.Readable
import StreamGrammar.Proofs.Stream.Phase
import StreamGrammar.Proofs.Text.Utf8

/-!
# Documents on a stream

A text is parsed as a whole, with blanks on both sides. A document is read from a
stream, where nobody says where it ends: the closing bracket does. So only containers
can be documents, blanks are skipped only before one, and what comes after the bracket
belongs to whatever follows.

The two agree (`readDocument_agrees`). A container is matched up to its bracket by
the same forms however much comes after it and whether more may come, since neither a
number nor blank space ends it. So what a document is can be said by a parse of
the beginning that ends in the bracket (`matched_document`), and the rest is that a
phase comes to what its grammar makes of all bytes there are.
-/

namespace StreamGrammar

/-- The bracket that closes a container. -/
def Json.closingBracket? : Json → Option Char
  | .array _ => some ']'
  | .object _ => some '\x7d'
  | _ => none

namespace Json

open Grammar

variable {ε : Type} [Element ε]

/-! ## Ends of containers -/

/-- **Input that ends in the bracket that closes a value.** -/
def EndsInBracketOf (v : Json) (u : List ε) : Prop :=
  ∃ c ∈ v.closingBracket?, u.getLast? = some (Element.ofAscii c)

/-- What ends in its bracket is a container. -/
theorem EndsInBracketOf.isSome {v : Json} {u : List ε} (h : EndsInBracketOf v u) :
    v.closingBracket?.isSome = true := by
  obtain ⟨c, hc, -⟩ := h
  rw [Option.mem_def.mp hc]
  rfl

/-- What denotes a container is an array or an object. -/
theorem container_of_value {f : Form} {v : Json} (hv : f.value? = some v)
    (h : v.closingBracket?.isSome = true) :
    (∃ items vs, f = .array items ∧ Form.itemValues? items = some vs ∧ v = .array vs) ∨
      ∃ members vs, f = .object members ∧ Form.memberValues? members = some vs ∧
        v = .object (Entries.ofPairs vs) := by
  cases f with
  | array items =>
    obtain ⟨vs, hvs, rfl⟩ := Option.map_eq_some_iff.mp hv
    exact .inl ⟨items, vs, rfl, hvs, rfl⟩
  | object members =>
    obtain ⟨vs, hvs, rfl⟩ := Option.map_eq_some_iff.mp hv
    exact .inr ⟨members, vs, rfl, hvs, rfl⟩
  | string ps =>
    obtain ⟨t, -, rfl⟩ := Option.map_eq_some_iff.mp hv
    cases h
  | number n =>
    obtain ⟨_, rfl⟩ | ⟨_, rfl⟩ | ⟨_, rfl⟩ := NumberForm.number_of_value? hv <;> cases h
  | _ =>
    cases hv
    cases h

variable [Spelling ε]

/-- The form of a container ends in the bracket that closes its value. -/
theorem endsInBracketOf_of_form {f : Form} {t : Text} {v : Json} (hf : f.Spells t)
    (hv : f.value? = some v) (h : v.closingBracket?.isSome = true) (before : Text) :
    EndsInBracketOf v (spell (before ++ t) : List ε) := by
  have hlast {c d : Char} (hd : d.toNat < 0x80) (inner : Text) :
      (spell (before ++ CodePoint.ofChar c :: (inner ++ [CodePoint.ofChar d])) :
        List ε).getLast? = some (Element.ofAscii d) := by
    rw [show before ++ CodePoint.ofChar c :: (inner ++ [CodePoint.ofChar d]) =
        (before ++ CodePoint.ofChar c :: inner) ++ [CodePoint.ofChar d] by simp,
      spell_append, spell_ofChar hd]
    simp
  rcases container_of_value hv h with ⟨items, vs, rfl, -, rfl⟩ | ⟨members, vs, rfl, -, rfl⟩
  · obtain ⟨inner, -, rfl⟩ := hf
    exact ⟨']', rfl, hlast (by decide) inner⟩
  · obtain ⟨inner, -, rfl⟩ := hf
    exact ⟨'\x7d', rfl, hlast (by decide) inner⟩

/-- No blank space stands after the bracket that input ends in. -/
theorem blank_of_endsInBracketOf {v : Json} {before after : Text} (hafter : IsBlank after)
    (h : EndsInBracketOf v (spell (before ++ after) : List ε)) : after = [] := by
  obtain ⟨c, hc, hlast⟩ := h
  rcases List.eq_nil_or_concat after with rfl | ⟨tail, b, rfl⟩
  · rfl
  · obtain ⟨a, ha, rfl⟩ := hafter b (by simp)
    have hascii := Element.lt_of_areAscii
      (show Element.areAscii Charset.jsonWhitespace = true by decide) a ha
    rw [List.concat_eq_append, ← List.append_assoc, spell_append, spell_ofChar hascii] at hlast
    have heq : (Element.ofAscii a : ε) = Element.ofAscii c := by simpa using hlast
    have hmark : (Element.ofAscii c : ε) ∈ (Element.piece [']', '\x7d'] : List ε) := by
      refine List.mem_map_of_mem ?_
      cases v with
      | array items => cases hc; decide
      | object members => cases hc; decide
      | _ => cases hc
    have hblank : (Element.ofAscii a : ε) ∈ (Element.piece Charset.jsonWhitespace : List ε) :=
      List.mem_map_of_mem ha
    rw [heq] at hblank
    exact absurd hblank (Element.not_mem_piece (by decide) hmark)

/-! ## What a document is -/

/-- **Containers are read whatever comes after them.** -/
theorem container_of_form (limit : Nat) {f : Form} {levels : Nat} {t : Text} {v : Json}
    (hf : f.Spells t) (hread : ∀ c ∈ t, Spelling.Readable ε c) (hlevels : f.nesting ≤ levels)
    (hv : f.value? = some v) (h : v.closingBracket?.isSome = true) (final : Bool)
    (rest : List ε) :
    (container limit levels).verdict final (spell t ++ rest) = .matched v rest := by
  rcases container_of_value hv h with ⟨items, vs, rfl, hvs, rfl⟩ | ⟨members, vs, rfl, hvs, rfl⟩
  · obtain ⟨inner, hinner, rfl⟩ := hf
    obtain ⟨levels, rfl⟩ := Nat.exists_eq_succ_of_ne_zero
      (show levels ≠ 0 by simp only [Form.nesting] at hlevels; omega)
    obtain ⟨middle, hitems, hbracket⟩ := separatedItems_of_items limit items hinner
      (fun c hc => hread c (List.mem_cons_of_mem _ (List.mem_append_left _ hc)))
      (by simpa [Form.nesting] using hlevels) hvs final rest
    rw [spell_ofChar_append (by decide), spell_append, List.append_assoc,
      spell_ofChar_append (by decide)]
    exact container_of_items hitems hbracket
  · obtain ⟨inner, hinner, rfl⟩ := hf
    obtain ⟨levels, rfl⟩ := Nat.exists_eq_succ_of_ne_zero
      (show levels ≠ 0 by simp only [Form.nesting] at hlevels; omega)
    obtain ⟨middle, hmembers, hbracket⟩ := separatedItems_of_members limit members hinner
      (fun c hc => hread c (List.mem_cons_of_mem _ (List.mem_append_left _ hc)))
      (by simpa [Form.nesting] using hlevels) hvs final rest
    rw [spell_ofChar_append (by decide), spell_append, List.append_assoc,
      spell_ofChar_append (by decide)]
    exact container_of_members hmembers hbracket

omit [Spelling ε] in
/-- The grammar of containers matches nothing else. -/
theorem closingBracket?_of_container {limit levels : Nat} {final : Bool} {s rest : List ε}
    {v : Json} (h : (container limit levels).verdict final s = .matched v rest) :
    v.closingBracket?.isSome = true := by
  cases levels with
  | zero =>
    obtain ⟨_, _, hrefused⟩ := matched_map.mp (matched_demand.mp h)
    cases hrefused
  | succ levels =>
    rcases matched_of_alt h with h | h
    · obtain ⟨_, _, rfl⟩ := matched_map.mp h
      rfl
    · rcases matched_of_alt h with h | h
      · obtain ⟨_, _, rfl⟩ := matched_map.mp h
        rfl
      · cases h

/-- What the grammar of containers matches is a text of a form that can be read
back. -/
theorem form_of_container {limit levels : Nat} {final : Bool} {s rest : List ε} {v : Json}
    (h : (container limit levels).verdict final s = .matched v rest) :
    ∃ (f : Form) (t : Text), f.Spells t ∧ (∀ c ∈ t, Spelling.Readable ε c) ∧
      f.nesting ≤ levels ∧ f.value? = some v ∧ s = spell t ++ rest := by
  obtain ⟨f, t, hf, hlevels, hv, hs⟩ := recognizes_container limit levels h
  obtain ⟨t', hread, hs'⟩ := readsText_container limit levels h
  obtain rfl : t = t' := spell_injective (List.append_cancel_right (hs.symm.trans hs'))
  exact ⟨f, t, hf, hread, hlevels, hv, hs⟩

/-- Blanks end where a container begins. -/
theorem halts_blank_of_container {f : Form} {t : Text} (hf : f.Spells t) (final : Bool)
    (rest : List ε) : Halts isBlankElement final (spell t ++ rest) := by
  obtain ⟨c, hc, tail, rfl⟩ := hf.head
  exact halts_blank (by decide) hc final tail rest

/-- A container after blanks is a document. -/
theorem document_of_form {limit : Nat} {f : Form} {before inner : Text} {v : Json}
    (hbefore : IsBlank before) (hf : f.Spells inner)
    (hread : ∀ c ∈ inner, Spelling.Readable ε c) (hlevels : f.nesting ≤ limit)
    (hv : f.value? = some v) (h : v.closingBracket?.isSome = true) (final : Bool)
    (rest : List ε) :
    (document limit).verdict final (spell (before ++ inner) ++ rest) = .matched v rest := by
  rw [spell_append, List.append_assoc]
  exact matched_preceded.mpr ⟨_, _, matched_blanks.mpr ⟨before, hbefore, rfl, rfl,
    halts_blank_of_container hf final rest⟩, container_of_form limit hf hread hlevels hv h final
      rest⟩

/-- **A document is what a whole text is, up to its closing bracket**, whatever comes
after it and whether more may come. -/
theorem matched_document {limit : Nat} {final : Bool} {s rest : List ε} {v : Json} :
    (document limit).verdict final s = .matched v rest ↔
      ∃ u, s = u ++ rest ∧ EndsInBracketOf v u ∧ (text limit).verdict true u = .matched v [] := by
  constructor
  · intro h
    obtain ⟨_, middle, hblanks, hcontainer⟩ := matched_preceded.mp h
    obtain ⟨before, hbefore, -, rfl, -⟩ := matched_blanks.mp hblanks
    obtain ⟨f, t, hf, hread, hlevels, hv, rfl⟩ := form_of_container hcontainer
    refine ⟨spell (before ++ t), by rw [spell_append, List.append_assoc],
      endsInBracketOf_of_form hf hv (closingBracket?_of_container hcontainer) before, ?_⟩
    refine matched_of_form ⟨before, t, [], hbefore, hf, by simp [IsBlank], by simp⟩ ?_ hlevels hv
    exact fun c hc => (List.mem_append.mp hc).elim (readable_of_blank hbefore c) (hread c)
  · rintro ⟨u, rfl, hend, htext⟩
    obtain ⟨f, written, ⟨before, inner, after, hbefore, hf, hafter, rfl⟩, hlevels, hv, rfl⟩ :=
      form_of_matched htext
    have hread := readable_of_matched htext
    rw [← List.append_assoc] at hend
    obtain rfl := blank_of_endsInBracketOf hafter hend
    rw [List.append_nil]
    exact document_of_form hbefore hf (fun c hc => hread c (by simp [hc])) hlevels hv hend.isSome
      final rest

/-- **A whole text of a container is a document, and blanks.** -/
theorem document_of_text {limit : Nat} {s : List ε} {v : Json}
    (h : (text limit).verdict true s = .matched v [])
    (hcontainer : v.closingBracket?.isSome = true) (final : Bool) :
    ∃ rest, (document limit).verdict final s = .matched v rest ∧
      ∀ e ∈ rest, isBlankElement e = true := by
  obtain ⟨f, written, ⟨before, inner, after, hbefore, hf, hafter, rfl⟩, hlevels, hv, rfl⟩ :=
    form_of_matched h
  have hread := readable_of_matched h
  refine ⟨spell after, ?_, blank_iff.mpr ⟨after, hafter, rfl⟩⟩
  rw [← List.append_assoc, spell_append]
  exact document_of_form hbefore hf (fun c hc => hread c (by simp [hc])) hlevels hv hcontainer
    final _

/-! ## Documents from a stream -/

/-- **Reads a document** from a stream of bytes that are all at hand, under a limit on
nesting as it was set. -/
def readDocument (r : Reader) (maxDepth : Option Int) (data : Bytes) :
    Except Failure (Phase Json) × Session :=
  match resolveLimit maxDepth with
  | .error failure => (.error failure, .start (.ofBytes data))
  | .ok limit => r.run (document limit) [] none (.start (.ofBytes data))

/-- Bytes that make up a document: they end in the closing bracket of the container
that they are parsed as. -/
def IsDocument (maxDepth : Int) (u : Bytes) (v : Json) : Prop :=
  EndsInBracketOf v u ∧ parse u (some maxDepth) (some 0) = .ok v

/-- **What it means that reading a document agrees with parsing.** -/
structure ReadsDocument (r : Reader) (maxDepth : Int) (data : Bytes) : Prop where
  /-- A value is read exactly if some beginning of the bytes is a document of it. -/
  value_iff : ∀ v, (∃ leftover after,
    readDocument r (some maxDepth) data = (.ok { value := v, leftover }, after)) ↔
      ∃ u, u <+: data ∧ IsDocument maxDepth u v
  /-- At most one beginning of the bytes is a document, and of one value. -/
  unique : ∀ u v u' v', u <+: data → IsDocument maxDepth u v → u' <+: data →
    IsDocument maxDepth u' v' → u = u' ∧ v = v'
  /-- Where a value is read, all bytes after its document are left over or unread. -/
  remainder : ∀ v leftover after,
    readDocument r (some maxDepth) data = (.ok { value := v, leftover }, after) →
      ∀ u, u <+: data → IsDocument maxDepth u v → data = u ++ (leftover ++ after.source.bytes)
  /-- How many bytes are read at a time makes no difference to what is read and to
  all bytes after it, nor to how the reading fails. -/
  indifferent : ∀ other : Reader, other.maxBufferSize = 0 →
    Session.seen Phase.whole (readDocument other (some maxDepth) data) =
      Session.seen Phase.whole (readDocument r (some maxDepth) data)
  /-- If the bytes as a whole are parsed as a container, this container is read, and
  only blanks come after it. -/
  whole : ∀ v, parse data (some maxDepth) (some 0) = .ok v → v.closingBracket?.isSome = true →
    ∃ leftover after, readDocument r (some maxDepth) data = (.ok { value := v, leftover }, after) ∧
      ∀ b ∈ leftover ++ after.source.bytes, isBlankElement b = true

section Agreement

variable {maxDepth : Int}

omit [Spelling ε] in
theorem parse_eq_ok_iff_matched (h : 1 ≤ maxDepth) {s : List ε} {v : Json} :
    parse s (some maxDepth) (some 0) = .ok v ↔
      (text (min maxDepth 47).toNat).verdict true s = .matched v [] := by
  rw [parse, resolveLimit_of_pos h]
  simp only [settings, parseAll_eq_ok_iff]

/-- A reading comes to what the grammar makes of all bytes. -/
theorem concludes_readDocument (h : 1 ≤ maxDepth) {r : Reader} (hr : r.maxBufferSize = 0)
    (data : Bytes) : Reader.Concludes none ((document (min maxDepth 47).toNat).verdict false data)
      (readDocument r (some maxDepth) data) := by
  obtain ⟨hhand, hbytes⟩ := Session.atHand_of_eq (s := .start (.ofBytes data)) rfl
  have hends := Reader.concludes_phase none hr
    (final_document (ε := UInt8) (min maxDepth 47).toNat).steady [] hhand
  rw [readDocument, resolveLimit_of_pos h]
  rw [hbytes, List.nil_append] at hends
  exact hends

/-- A reading ends with a value where the grammar matches, and leaves what that
leaves. -/
theorem matched_of_readDocument (h : 1 ≤ maxDepth) {r : Reader} (hr : r.maxBufferSize = 0)
    {data leftover : Bytes} {v : Json} {after : Session}
    (hread : readDocument r (some maxDepth) data = (.ok { value := v, leftover }, after)) :
    (document (min maxDepth 47).toNat).verdict false data =
      .matched v (leftover ++ after.source.bytes) := by
  have hends := concludes_readDocument h hr data
  rw [hread] at hends
  generalize (document (min maxDepth 47).toNat).verdict false data = verdict at hends ⊢
  cases hends with
  | matched _ hrest => rw [hrest]

theorem readDocument_of_matched (h : 1 ≤ maxDepth) {r : Reader} (hr : r.maxBufferSize = 0)
    {data rest : Bytes} {v : Json}
    (hmatched : (document (min maxDepth 47).toNat).verdict false data = .matched v rest) :
    ∃ leftover after, readDocument r (some maxDepth) data = (.ok { value := v, leftover }, after) ∧
      leftover ++ after.source.bytes = rest := by
  have hends := concludes_readDocument h hr data
  rw [hmatched] at hends
  generalize readDocument r (some maxDepth) data = ended at hends ⊢
  cases hends with
  | matched _ hrest => exact ⟨_, _, rfl, hrest⟩

/-- A beginning of the bytes that is a document is what the grammar matches. -/
theorem matched_of_isDocument (h : 1 ≤ maxDepth) {data u : Bytes} {v : Json}
    (hbegins : u <+: data) (hdocument : IsDocument maxDepth u v) :
    ∃ rest, data = u ++ rest ∧
      (document (min maxDepth 47).toNat).verdict false data = .matched v rest := by
  obtain ⟨rest, rfl⟩ := hbegins
  exact ⟨rest, rfl, matched_document.mpr ⟨u, rfl, hdocument.1,
    (parse_eq_ok_iff_matched h).mp hdocument.2⟩⟩

/-- **Reading a document from a stream agrees with parsing it whole.** -/
theorem readDocument_agrees (r : Reader) (hr : r.maxBufferSize = 0) (maxDepth : Int)
    (h : 1 ≤ maxDepth) (data : Bytes) : ReadsDocument r maxDepth data where
  value_iff v := by
    constructor
    · rintro ⟨leftover, after, hread⟩
      obtain ⟨u, rfl, hend, htext⟩ := matched_document.mp (matched_of_readDocument h hr hread)
      exact ⟨u, List.prefix_append _ _, hend, (parse_eq_ok_iff_matched h).mpr htext⟩
    · rintro ⟨u, hbegins, hdocument⟩
      obtain ⟨rest, -, hmatched⟩ := matched_of_isDocument h hbegins hdocument
      obtain ⟨leftover, after, hread, -⟩ := readDocument_of_matched h hr hmatched
      exact ⟨leftover, after, hread⟩
  unique u v u' v' hbegins hdocument hbegins' hdocument' := by
    -- the grammar matches one value and leaves one rest
    obtain ⟨rest, hdata, hmatched⟩ := matched_of_isDocument h hbegins hdocument
    obtain ⟨rest', hdata', hmatched'⟩ := matched_of_isDocument h hbegins' hdocument'
    rw [hmatched] at hmatched'
    cases hmatched'
    exact ⟨List.append_cancel_right (hdata.symm.trans hdata'), rfl⟩
  remainder v leftover after hread u hbegins hdocument := by
    obtain ⟨rest, hdata, hmatched⟩ := matched_of_isDocument h hbegins hdocument
    rw [matched_of_readDocument h hr hread] at hmatched
    cases hmatched
    exact hdata
  indifferent other hother :=
    (concludes_readDocument h hother data).seen_eq (concludes_readDocument h hr data)
  whole v hparse hcontainer := by
    obtain ⟨rest, hmatched, hblank⟩ :=
      document_of_text ((parse_eq_ok_iff_matched h).mp hparse) hcontainer false
    obtain ⟨leftover, after, hread, rfl⟩ := readDocument_of_matched h hr hmatched
    exact ⟨leftover, after, hread, hblank⟩

/-- An array after a blank, read byte by byte in front of something else. -/
theorem readDocument_agrees_byte_by_byte :
    let r : Reader := { readSize := 1, maxBufferSize := 0, readSize_pos := Nat.one_pos }
    let u : Bytes := Element.piece [' ', '[', ']']
    let data : Bytes := u ++ Element.piece [' ', ',']
    r.maxBufferSize = 0 ∧ 1 ≤ (1 : Int) ∧ ReadsDocument r 1 data ∧
      ∃ leftover after,
        readDocument r (some 1) data = (.ok { value := .array [], leftover }, after) ∧
        leftover ++ after.source.bytes = Element.piece [' ', ','] := by
  intro r u data
  have hagrees := readDocument_agrees r rfl 1 (by decide) data
  have hbegins : u <+: data := List.prefix_append _ _
  have hform : Padded (Form.Spells (.array [])) (Text.ofChars [' ', '[', ']']) :=
    ⟨Text.ofChars [' '], _, [], by simp [IsBlank, Text.ofChars, Charset.jsonWhitespace],
      ⟨[], by simp [Form.SpellsItems, IsBlank], rfl⟩, by simp [IsBlank], rfl⟩
  have hparse := parse_of_form (ε := UInt8) (show (1 : Int) ≤ 1 by decide) hform
    (fun c hc => Spelling.readable_of_lt c (by revert c; decide)) (by decide) rfl
  rw [spell_ofChars (by decide)] at hparse
  have hdocument : IsDocument 1 u (.array []) := ⟨⟨']', rfl, by decide⟩, hparse⟩
  obtain ⟨leftover, after, hread⟩ := (hagrees.value_iff _).mpr ⟨u, hbegins, hdocument⟩
  refine ⟨rfl, by decide, hagrees, leftover, after, hread, ?_⟩
  exact (List.append_cancel_left (hagrees.remainder _ _ _ hread u hbegins hdocument)).symm

end Agreement

end Json

end StreamGrammar
