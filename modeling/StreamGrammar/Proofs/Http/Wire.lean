import StreamGrammar.Http.Head
import StreamGrammar.Proofs.Grammar.Final
import StreamGrammar.Proofs.Text.Ascii

/-!
# Heads as they are sent

What a request head looks like on the wire, said without a parser: words with
marks between them. A `Wire.Head` is a derivation of one, with the words as they
were sent, and each part carries the conditions that make its words end where
the next mark is. `bytes` puts the words and marks together, and the rest says
what is read off them.

The grammars of the lines recognise exactly these parts
(`matched_requestLine`, `matched_headerLine`). Nothing in that depends on whether
more input may come, because the last mark of a line settles where it ends.
-/

namespace StreamGrammar.Http

open Grammar

/-! ## Parts of a head -/

namespace Wire

/-- **The first line of a head**, as it is sent. -/
@[ext]
structure FirstLine where
  /-- The method, in the letter case that was sent. -/
  method : Text
  /-- The target. -/
  target : Text
  /-- The version, without `HTTP/`. -/
  version : Text
  /-- There is a method. -/
  method_ne_nil : method ≠ []
  /-- The method is made of ASCII letters. -/
  method_isAlpha : ∀ c ∈ method, Charset.isAlpha c.val = true
  /-- There is a target. -/
  target_ne_nil : target ≠ []
  /-- The target has UTF-8. -/
  target_readable : ∀ c ∈ target, c.isSurrogate = false
  /-- The target ends at a blank. -/
  target_avoids : target.Avoids [' ', '\r', '\n']
  /-- There is a version. -/
  version_ne_nil : version ≠ []
  /-- The version is ASCII. -/
  version_isAscii : version.IsAscii
  /-- The version ends at the end of the line. -/
  version_avoids : version.Avoids [' ', '\r', '\n']

namespace FirstLine

/-- The bytes of the first line. -/
def bytes (l : FirstLine) : Bytes :=
  Utf8.encode l.method ++ (Element.piece [' '] ++ (Utf8.encode l.target ++
    (Element.piece [' ', 'H', 'T', 'T', 'P', '/'] ++ (Utf8.encode l.version ++
      Element.piece ['\r', '\n']))))

/-- What is read off the first line. -/
def parts (l : FirstLine) : RequestLine := (l.method.asciiLower, l.target, l.version)

end FirstLine

/-- **A header line**, as it is sent. -/
@[ext]
structure Field where
  /-- The name, in the letter case that was sent. -/
  name : Text
  /-- The value, with the blanks around it. -/
  value : Text
  /-- There is a name. -/
  name_ne_nil : name ≠ []
  /-- The name is ASCII. -/
  name_isAscii : name.IsAscii
  /-- The name ends at a colon. -/
  name_avoids : name.Avoids [':', '\r', '\n']
  /-- The value has UTF-8. -/
  value_readable : ∀ c ∈ value, c.isSurrogate = false
  /-- The value ends at the end of the line. -/
  value_avoids : value.Avoids ['\r', '\n']

namespace Field

/-- The bytes of a header line. -/
def bytes (f : Field) : Bytes :=
  Utf8.encode f.name ++ (Element.piece [':'] ++ (Utf8.encode f.value ++
    Element.piece ['\r', '\n']))

/-- The key of a header line: names do not depend on letter case. -/
def key (f : Field) : Text := f.name.asciiLower

/-- What is read off a header line. -/
def entry (f : Field) : Text × Text := (f.key, f.value.trimBlanks)

end Field

/-- **A head with what follows it**, as it is sent. -/
@[ext]
structure Head where
  /-- The first line. -/
  line : FirstLine
  /-- The header lines. -/
  fields : List Field
  /-- What follows the blank line. -/
  body : Bytes
  /-- No name comes twice, in whichever letter case. -/
  distinct : (fields.map Field.key).Nodup

namespace Head

/-- The bytes of a head and of what follows it. -/
def bytes (w : Head) : Bytes :=
  w.line.bytes ++ (w.fields.flatMap Field.bytes ++ (Element.piece ['\r', '\n'] ++ w.body))

/-- What is read off a head. -/
def read (w : Head) : RequestHead where
  method := w.line.method.asciiLower
  target := w.line.target
  version := w.line.version
  headers := w.fields.map Field.entry
  body := w.body

end Head

end Wire

/-! ## Words -/

variable {final : Bool} {s rest : Bytes} {chars : List Char} {t : Text}

/-- A word ends where one of its marks is. -/
theorem halts_at_mark {e : UInt8} (he : e ∈ (Element.piece chars : Bytes)) :
    Halts (fun e => !(Element.piece chars).contains e) final (e :: rest) :=
  halts_cons (by simpa using he)

theorem utf8_convert_eq_ok {label : Text} {b : Bytes} :
    (utf8Conversion label).convert b = .ok t ↔
      b = Utf8.encode t ∧ ∀ c ∈ t, c.isSurrogate = false := by
  rw [utf8Conversion, mapError_eq_ok, Utf8.decode_eq_ok_iff]

theorem ascii_convert_eq_ok {label : Text} {b : Bytes} :
    (asciiConversion label).convert b = .ok t ↔ b = Utf8.encode t ∧ t.IsAscii := by
  rw [asciiConversion, mapError_eq_ok, Ascii.decode_eq_ok_iff]

/-- **The longest word without some marks**, converted. -/
theorem matched_word {c : Conversion Bytes Text} {P : Text → Prop}
    (hc : ∀ {b t}, c.convert b = .ok t ↔ b = Utf8.encode t ∧ P t)
    (hchars : Element.areAscii chars = true) :
    (convert c (otherThan (Element.piece chars))).verdict final s = .matched t rest ↔
      t ≠ [] ∧ P t ∧ t.Avoids chars ∧ s = Utf8.encode t ++ rest ∧
        Halts (fun e => !(Element.piece chars).contains e) final rest := by
  have havoids : (∀ e ∈ Utf8.encode t, e ∉ (Element.piece chars : Bytes)) ↔ t.Avoids chars :=
    spell_avoids hchars
  simp only [matched_convert, matched_otherThan, hc]
  constructor
  · rintro ⟨_, ⟨hne, hs, hrun, hrest⟩, rfl, ht⟩
    exact ⟨mt Utf8.encode_eq_nil_iff.mpr hne, ht, havoids.mp hrun, hs, hrest⟩
  · rintro ⟨hne, ht, hrun, hs, hrest⟩
    exact ⟨_, ⟨mt Utf8.encode_eq_nil_iff.mp hne, hs, havoids.mpr hrun, hrest⟩, rfl, ht⟩

/-- Letters are ASCII. -/
theorem isAscii_of_isAlpha (h : ∀ c ∈ t, Charset.isAlpha c.val = true) : t.IsAscii := by
  intro c hc
  have := h c hc
  simp only [Charset.isAlpha, Bool.or_eq_true, Bool.and_eq_true, decide_eq_true_eq] at this
  omega

/-- **The method** is a run of letters, in lower case. -/
theorem matched_method {value : Text} :
    method.verdict final s = .matched value rest ↔
      ∃ m : Text, m ≠ [] ∧ (∀ c ∈ m, Charset.isAlpha c.val = true) ∧ m.asciiLower = value ∧
        s = Utf8.encode m ++ rest ∧ Halts (fun b => Charset.isAlpha b.toNat) final rest := by
  have halpha : ∀ {m : Text}, m.IsAscii → ((∀ b ∈ Utf8.encode m, Charset.isAlpha b.toNat = true) ↔
      ∀ c ∈ m, Charset.isAlpha c.val = true) := by
    intro m hm
    have hcodes : (Utf8.encode m).map UInt8.toNat = m.map CodePoint.val := map_code_spell hm
    rw [← List.forall_mem_map (f := UInt8.toNat) (P := (Charset.isAlpha · = true)), hcodes,
      List.forall_mem_map]
  simp only [method, matched_map, matched_convert, matched_takeSomeWhile, ascii_convert_eq_ok]
  constructor
  · rintro ⟨m, ⟨_, ⟨hne, hs, hrun, hrest⟩, rfl, hm⟩, rfl⟩
    exact ⟨m, mt Utf8.encode_eq_nil_iff.mpr hne, (halpha hm).mp hrun, rfl, hs, hrest⟩
  · rintro ⟨m, hne, hrun, rfl, hs, hrest⟩
    have hm := isAscii_of_isAlpha hrun
    exact ⟨m, ⟨_, ⟨mt Utf8.encode_eq_nil_iff.mp hne, hs, (halpha hm).mpr hrun, hrest⟩, rfl, hm⟩,
      rfl⟩

theorem matched_target :
    target.verdict final s = .matched t rest ↔
      t ≠ [] ∧ (∀ c ∈ t, c.isSurrogate = false) ∧ t.Avoids [' ', '\r', '\n'] ∧
        s = Utf8.encode t ++ rest ∧
          Halts (fun e => !(Element.piece [' ', '\r', '\n']).contains e) final rest :=
  matched_word utf8_convert_eq_ok (by decide)

theorem matched_version :
    version.verdict final s = .matched t rest ↔
      t ≠ [] ∧ t.IsAscii ∧ t.Avoids [' ', '\r', '\n'] ∧
        s = Element.piece ['H', 'T', 'T', 'P', '/'] ++ (Utf8.encode t ++ rest) ∧
          Halts (fun e => !(Element.piece [' ', '\r', '\n']).contains e) final rest := by
  have hword : ∀ middle : Bytes, (convert (asciiConversion "HTTP version") word).verdict final
      middle = .matched t rest ↔ _ := fun _ => matched_word ascii_convert_eq_ok (by decide)
  simp only [version, matched_preceded, token, matched_literal, hword]
  constructor
  · rintro ⟨_, _, ⟨_, rfl⟩, hne, ht, havoids, rfl, hrest⟩
    exact ⟨hne, ht, havoids, rfl, hrest⟩
  · rintro ⟨hne, ht, havoids, rfl, hrest⟩
    exact ⟨_, _, ⟨rfl, rfl⟩, hne, ht, havoids, rfl, hrest⟩

theorem matched_headerName {key : Text} :
    headerName.verdict final s = .matched key rest ↔
      ∃ name : Text, name.asciiLower = key ∧ name ≠ [] ∧ name.IsAscii ∧
        name.Avoids [':', '\r', '\n'] ∧ s = Utf8.encode name ++ rest ∧
          Halts (fun e => !(Element.piece [':', '\r', '\n']).contains e) final rest := by
  have hword : ∀ name : Text, (convert (asciiConversion "header name")
      (otherThan (Element.piece [':', '\r', '\n']))).verdict final s = .matched name rest ↔ _ :=
    fun _ => matched_word ascii_convert_eq_ok (by decide)
  simp only [headerName, matched_map, hword]
  exact exists_congr fun _ => and_comm

/-- **The value of a header** is a word, or there is none where no word can be
converted; the blanks around it are dropped. -/
theorem matched_headerValue {value : Text} :
    headerValue.verdict final s = .matched value rest ↔
      (value = [] ∧ rest = s ∧ (convert (utf8Conversion "header value")
          (otherThan (Element.piece ['\r', '\n']))).verdict final s = .rejected) ∨
        ∃ t : Text, t.trimBlanks = value ∧ t ≠ [] ∧ (∀ c ∈ t, c.isSurrogate = false) ∧
          t.Avoids ['\r', '\n'] ∧ s = Utf8.encode t ++ rest ∧
            Halts (fun e => !(Element.piece ['\r', '\n']).contains e) final rest := by
  have hword : ∀ t : Text, (convert (utf8Conversion "header value")
      (otherThan (Element.piece ['\r', '\n']))).verdict final s = .matched t rest ↔ _ :=
    fun _ => matched_word utf8_convert_eq_ok (by decide)
  simp only [headerValue, matched_map, matched_optional, hword]
  constructor
  · rintro ⟨_, ⟨hnone, rfl, rfl⟩ | ⟨t, ht, rfl⟩, rfl⟩
    · exact .inl ⟨rfl, rfl, hnone⟩
    · exact .inr ⟨t, rfl, ht⟩
  · rintro (⟨rfl, rfl, hnone⟩ | ⟨t, rfl, ht⟩)
    · exact ⟨none, .inl ⟨hnone, rfl, rfl⟩, rfl⟩
    · exact ⟨some t, .inr ⟨t, ht, rfl⟩, rfl⟩

/-! ## Lines -/

/-- **The first line** is recognised as it is sent. -/
theorem matched_requestLine {parts : RequestLine} :
    requestLine.verdict final s = .matched parts rest ↔
      ∃ l : Wire.FirstLine, l.parts = parts ∧ s = l.bytes ++ rest := by
  simp only [requestLine, serial3, matched_bind, matched_map, matched_terminated, matched_method,
    matched_target, matched_version, blank, matched_ascii, lineEnd, token, matched_literal]
  constructor
  · rintro ⟨_, _, ⟨_, _, ⟨m, hm, hm', rfl, rfl, _⟩, _, rfl⟩,
      t, _, ⟨_, _, ⟨ht, ht', ht'', rfl, _⟩, _, rfl⟩,
      v, ⟨_, _, ⟨hv, hv', hv'', rfl, _⟩, _, rfl⟩, rfl⟩
    refine ⟨⟨m, t, v, hm, hm', ht, ht', ht'', hv, hv', hv''⟩, rfl, ?_⟩
    simp [Wire.FirstLine.bytes, Element.piece]
  · rintro ⟨l, rfl, rfl⟩
    refine ⟨_, _, ⟨_, _, ⟨l.method, l.method_ne_nil, l.method_isAlpha, rfl, ?_,
        halts_cons (by decide)⟩, rfl, rfl⟩,
      l.target, _, ⟨_, _, ⟨l.target_ne_nil, l.target_readable, l.target_avoids, rfl,
        halts_at_mark (by decide)⟩, rfl, rfl⟩,
      l.version, ⟨_, _, ⟨l.version_ne_nil, l.version_isAscii, l.version_avoids, rfl,
        halts_at_mark (by decide)⟩, rfl, rfl⟩, rfl⟩
    simp [Wire.FirstLine.bytes, Element.piece]

/-- At the end of a line there is no word. -/
theorem rejected_headerWord (rest : Bytes) :
    (convert (utf8Conversion "header value")
      (otherThan (Element.piece ['\r', '\n']))).verdict final
        (Element.piece ['\r', '\n'] ++ rest) = .rejected :=
  ((BeginsWith.otherThan _).judge _ _).cons final _ _ (by decide)

/-- A value is read up to the end of its line. -/
theorem headerValue_of_field (f : Wire.Field) (rest : Bytes) :
    headerValue.verdict final
        (Utf8.encode f.value ++ (Element.piece ['\r', '\n'] ++ rest)) =
      .matched f.value.trimBlanks (Element.piece ['\r', '\n'] ++ rest) := by
  refine matched_headerValue.mpr ?_
  by_cases hne : f.value = []
  · rw [hne]
    exact .inl ⟨rfl, rfl, rejected_headerWord rest⟩
  · exact .inr ⟨f.value, rfl, hne, f.value_readable, f.value_avoids, rfl,
      halts_at_mark (by decide)⟩

/-- **A header line** is recognised as it is sent. A value may be empty, and then
there is no word; but where a word is refused, the line does not end. -/
theorem matched_headerLine {field : Text × Text} :
    headerLine.verdict final s = .matched field rest ↔
      ∃ f : Wire.Field, f.entry = field ∧ s = f.bytes ++ rest := by
  constructor
  · intro h
    simp only [headerLine, serial4, matched_map, matched_bind, matched_headerName,
      matched_headerValue, lineEnd, token, matched_literal] at h
    obtain ⟨_, ⟨_, _, ⟨name, rfl, hname, hname', hname'', rfl, _⟩, _, _, ⟨rfl, rfl⟩, _, _,
      hvalue, _, ⟨rfl, rfl⟩, rfl⟩, rfl⟩ := h
    rcases hvalue with ⟨rfl, heq, _⟩ | ⟨t, rfl, _, ht, ht', rfl, _⟩
    · refine ⟨⟨name, [], hname, hname', hname'', nofun, nofun⟩, rfl, ?_⟩
      rw [← heq]
      simp [Wire.Field.bytes, Utf8.encode]
    · refine ⟨⟨name, t, hname, hname', hname'', ht, ht'⟩, rfl, ?_⟩
      simp [Wire.Field.bytes]
  · rintro ⟨f, rfl, rfl⟩
    have hname : headerName.verdict final (f.bytes ++ rest) = .matched f.key
        (Element.piece [':'] ++
          (Utf8.encode f.value ++ (Element.piece ['\r', '\n'] ++ rest))) := by
      refine matched_headerName.mpr ⟨f.name, rfl, f.name_ne_nil, f.name_isAscii, f.name_avoids,
        ?_, halts_at_mark (by decide)⟩
      simp [Wire.Field.bytes]
    have hcolon : (token [':'] : Grammar UInt8 Bytes).verdict final (Element.piece [':'] ++
        (Utf8.encode f.value ++ (Element.piece ['\r', '\n'] ++ rest))) = .matched _ _ :=
      matched_literal.mpr ⟨rfl, rfl⟩
    have hend : lineEnd.verdict final (Element.piece ['\r', '\n'] ++ rest) = .matched _ rest :=
      matched_literal.mpr ⟨rfl, rfl⟩
    exact matched_map.mpr ⟨_, matched_bind.mpr ⟨_, _, hname, matched_bind.mpr ⟨_, _, hcolon,
      matched_bind.mpr ⟨_, _, headerValue_of_field f rest, matched_map.mpr ⟨_, hend, rfl⟩⟩⟩⟩,
      rfl⟩

end StreamGrammar.Http
