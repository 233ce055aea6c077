import StreamGrammar.Proofs.Entries
import StreamGrammar.Proofs.Http.Agreement

/-!
# The wire format of heads

Which bytes are a request head, and what does one say? The bytes of a
`Wire.Head`, and what is read off it (`parseRequestHead_format`). That this is an
answer depends on there being one way only to take bytes apart as a head: each
word ends at the first of its marks, a header line does not begin like the blank
line, and so two heads with the same bytes are the same (`Wire.Head.bytes_injective`).

Nothing can therefore be slipped into a head. A mark never belongs to the word
before it, whatever the bytes around it, and two names that differ in letter
case only are one name twice. Of a value only blanks at its ends are dropped
(`Text.trimBlanks_spec`).
-/

namespace StreamGrammar.Http

open Grammar

/-! ## Bytes are taken apart in one way -/

/-- **A word ends at the first of its marks**, so the bytes show which it is. -/
theorem word_unique {chars more more' : List Char} {mark mark' : Char} {t u : Text}
    {rest rest' : Bytes} (hchars : Element.areAscii chars = true) (ht : t.Avoids chars)
    (hu : u.Avoids chars) (hmark : mark ∈ chars) (hmark' : mark' ∈ chars)
    (h : Utf8.encode t ++ (Element.piece (mark :: more) ++ rest) =
      Utf8.encode u ++ (Element.piece (mark' :: more') ++ rest')) :
    t = u ∧ Element.piece (mark :: more) ++ rest = Element.piece (mark' :: more') ++ rest' := by
  -- the word and what follows it, read off the bytes
  have hrun : ∀ {t : Text} {mark : Char} {rest : Bytes}, t.Avoids chars → mark ∈ chars →
      (Utf8.encode t ++ Element.ofAscii mark :: rest).takeWhile
          (fun b => !(Element.piece chars).contains b) = Utf8.encode t ∧
        (Utf8.encode t ++ Element.ofAscii mark :: rest).dropWhile
          (fun b => !(Element.piece chars).contains b) = Element.ofAscii mark :: rest := by
    intro t mark rest ht hmark
    refine (longest_run_iff _ _ _ _).mpr ⟨rfl, fun b hb => ?_, fun b hb => ?_⟩
    · have := (spell_avoids hchars).mpr ht b hb
      simpa using this
    · cases hb
      have hmem : Element.ofAscii mark ∈ (Element.piece chars : Bytes) := List.mem_map_of_mem hmark
      simpa using hmem
  have hcons : ∀ (mark : Char) (more : List Char) (rest : Bytes),
      Element.piece (mark :: more) ++ rest =
        Element.ofAscii mark :: (Element.piece more ++ rest) := fun _ _ _ => rfl
  rw [hcons, hcons] at h ⊢
  obtain ⟨hword, htail⟩ := hrun (t := t) ht hmark
  rw [h, (hrun hu hmark').1] at hword
  rw [h, (hrun hu hmark').2] at htail
  exact ⟨spell_injective (ε := UInt8) hword.symm, htail.symm⟩

namespace Wire

/-- Letters are none of the marks in a first line. -/
theorem FirstLine.method_avoids (l : FirstLine) : l.method.Avoids [' '] := by
  intro c hc
  have := l.method_isAlpha c hc
  simp only [Charset.isAlpha, Bool.or_eq_true, Bool.and_eq_true, decide_eq_true_eq] at this
  simp [Charset.isOneOf]
  omega

theorem FirstLine.bytes_append_injective {l l' : FirstLine} {rest rest' : Bytes}
    (h : l.bytes ++ rest = l'.bytes ++ rest') : l = l' ∧ rest = rest' := by
  simp only [bytes, List.append_assoc] at h
  obtain ⟨hmethod, h⟩ := word_unique (by decide) l.method_avoids l'.method_avoids
    (by decide) (by decide) h
  obtain ⟨htarget, h⟩ := word_unique (by decide) l.target_avoids l'.target_avoids
    (by decide) (by decide) (List.append_cancel_left h)
  obtain ⟨hversion, h⟩ := word_unique (by decide) l.version_avoids l'.version_avoids
    (by decide) (by decide) (List.append_cancel_left h)
  exact ⟨FirstLine.ext hmethod htarget hversion, List.append_cancel_left h⟩

theorem Field.bytes_append_injective {f f' : Field} {rest rest' : Bytes}
    (h : f.bytes ++ rest = f'.bytes ++ rest') : f = f' ∧ rest = rest' := by
  simp only [bytes, List.append_assoc] at h
  obtain ⟨hname, h⟩ := word_unique (by decide) f.name_avoids f'.name_avoids
    (by decide) (by decide) h
  obtain ⟨hvalue, h⟩ := word_unique (by decide) f.value_avoids f'.value_avoids
    (by decide) (by decide) (List.append_cancel_left h)
  exact ⟨Field.ext hname hvalue, List.append_cancel_left h⟩

/-- No header line begins like the blank line. -/
theorem Field.bytes_append_ne (f : Field) (rest body : Bytes) :
    f.bytes ++ rest ≠ Element.piece ['\r', '\n'] ++ body := by
  intro h
  have hline : headerLine.verdict true (f.bytes ++ rest) = .matched f.entry rest :=
    matched_headerLine.mpr ⟨f, rfl, rfl⟩
  rw [h, show headerLine.verdict true (Element.piece ['\r', '\n'] ++ body) = .rejected from
    headerLine_blank _] at hline
  cases hline

/-- The header lines end at the blank line. -/
theorem fields_unique {fields fields' : List Field} {body body' : Bytes}
    (h : fields.flatMap Field.bytes ++ (Element.piece ['\r', '\n'] ++ body) =
      fields'.flatMap Field.bytes ++ (Element.piece ['\r', '\n'] ++ body')) :
    fields = fields' ∧ body = body' := by
  induction fields generalizing fields' with
  | nil =>
    cases fields' with
    | nil => exact ⟨rfl, List.append_cancel_left h⟩
    | cons f' fields' =>
      rw [List.flatMap_cons, List.append_assoc] at h
      exact absurd h.symm (f'.bytes_append_ne _ body)
  | cons f fields ih =>
    cases fields' with
    | nil =>
      rw [List.flatMap_cons, List.append_assoc] at h
      exact absurd h (f.bytes_append_ne _ body')
    | cons f' fields' =>
      simp only [List.flatMap_cons, List.append_assoc] at h
      obtain ⟨rfl, hmore⟩ := Field.bytes_append_injective h
      obtain ⟨rfl, rfl⟩ := ih hmore
      exact ⟨rfl, rfl⟩

/-- **Bytes are those of one head at most.** -/
theorem Head.bytes_injective {w w' : Head} (h : w.bytes = w'.bytes) : w = w' := by
  obtain ⟨hline, h⟩ := FirstLine.bytes_append_injective h
  obtain ⟨hfields, hbody⟩ := fields_unique h
  exact Head.ext hline hfields hbody

/-! ## What a head says -/

theorem Head.keys_read (w : Head) : w.read.headers.map Prod.fst = w.fields.map Field.key := by
  simp [read, Field.entry]

/-- **A header is found under its name, in whichever letter case.** -/
theorem Head.header_read (w : Head) {f : Field} (hf : f ∈ w.fields) {name : Text}
    (hname : name.asciiLower = f.key) : w.read.header name = some f.value.trimBlanks := by
  have hascii : name.IsAscii := Text.isAscii_of_asciiLower (hname ▸ f.name_isAscii.asciiLower)
  rw [RequestHead.header, Text.lower_of_isAscii hascii, hname]
  refine Entries.get?_of_mem ?_ (List.mem_map_of_mem hf)
  rw [keys_read]
  exact w.distinct

end Wire

/-! ## The grammar of heads matches the format -/

variable {s rest : Bytes}

/-- Header lines are entries as they stand, if no name comes twice. -/
theorem collect_eq_ok_iff {headers found : Entries Text Text} {pairs : List (Text × Text)}
    (hheaders : (headers.map Prod.fst).Nodup) :
    uniqueHeaders.collect headers pairs = .ok found ↔
      found = headers ++ pairs ∧ ((headers ++ pairs).map Prod.fst).Nodup := by
  induction pairs generalizing headers with
  | nil =>
    rw [uniqueHeaders.collect, List.append_nil]
    simp [hheaders, eq_comm]
  | cons p pairs ih =>
    obtain ⟨name, value⟩ := p
    rw [uniqueHeaders.collect]
    by_cases hdup : (headers.get? name).isSome
    · rw [if_pos hdup]
      rw [Entries.isSome_get?_iff] at hdup
      constructor
      · intro h
        cases h
      rintro ⟨-, hnodup⟩
      refine absurd hdup ?_
      rw [List.map_append, List.nodup_append] at hnodup
      exact fun hmem => hnodup.2.2 name hmem name List.mem_cons_self rfl
    · rw [if_neg hdup]
      rw [Entries.isSome_get?_iff] at hdup
      have hnodup : ((headers ++ [(name, value)]).map Prod.fst).Nodup := by
        rw [List.map_append, List.nodup_append]
        refine ⟨hheaders, by simp, fun key hkey key' hkey' heq => ?_⟩
        rw [heq, List.mem_singleton.mp hkey'] at hkey
        exact hdup hkey
      rw [Entries.put_of_not_mem hdup, ih hnodup, List.append_assoc]
      rfl

/-- Rounds of the grammar of header lines go through header lines. -/
theorem fields_of_rounds {final : Bool} {pairs : List (Text × Text)}
    (h : Verdict.Rounds (headerLine.verdict final) s pairs rest) :
    ∃ fields : List Wire.Field, fields.map Wire.Field.entry = pairs ∧
      s = fields.flatMap Wire.Field.bytes ++ rest := by
  induction h with
  | none s => exact ⟨[], rfl, rfl⟩
  | more hround _ ih =>
    obtain ⟨f, rfl, rfl⟩ := matched_headerLine.mp hround
    obtain ⟨fields, rfl, rfl⟩ := ih
    exact ⟨f :: fields, rfl, by rw [List.flatMap_cons, List.append_assoc]⟩

theorem rounds_of_fields {final : Bool} (fields : List Wire.Field) (rest : Bytes) :
    Verdict.Rounds (headerLine.verdict final) (fields.flatMap Wire.Field.bytes ++ rest)
      (fields.map Wire.Field.entry) rest := by
  induction fields with
  | nil => exact .none rest
  | cons f fields ih =>
    rw [List.flatMap_cons, List.append_assoc]
    exact .more (matched_headerLine.mpr ⟨f, rfl, rfl⟩) ih

/-- **The grammar matches the heads of the format**, and what is read off them. -/
theorem matched_requestHead_iff_wire {final : Bool} {head : RequestHead} :
    requestHead.verdict final s = .matched head rest ↔
      ∃ w : Wire.Head, w.bytes = s ∧ w.body = rest ∧ head = { w.read with body := [] } := by
  have hcollect : ∀ (pairs : List (Text × Text)) (found : Entries Text Text),
      uniqueHeaders.collect [] pairs = .ok found ↔ _ := fun _ _ => collect_eq_ok_iff List.nodup_nil
  rw [matched_requestHead]
  simp only [matched_requestLine, matched_headersAfter, divider, lineEnd, token, matched_literal,
    hcollect]
  constructor
  · rintro ⟨_, _, _, _, _, ⟨l, rfl, rfl⟩, ⟨pairs, hmany, rfl, hnodup⟩, ⟨_, rfl⟩, rfl⟩
    obtain ⟨fields, rfl, rfl⟩ := fields_of_rounds (Verdict.rounds_of_many hmany)
    refine ⟨⟨l, fields, rest, ?_⟩, rfl, rfl, rfl⟩
    rwa [List.nil_append, List.map_map] at hnodup
  · rintro ⟨w, rfl, rfl, rfl⟩
    have hend : headerLine.verdict final (Element.piece ['\r', '\n'] ++ w.body) = .rejected :=
      headerLine_blank _
    refine ⟨_, _, _, _, _, ⟨w.line, rfl, rfl⟩, ⟨_, Verdict.many_of_rounds
      (fun h => consumes_headerLine h) (rounds_of_fields w.fields _) hend, rfl, ?_⟩,
      ⟨rfl, rfl⟩, rfl⟩
    exact w.keys_read ▸ w.distinct

/-! ## Parsing a head -/

/-- **The wire format of heads.** Bytes are parsed as a head exactly if they are
those of a `Wire.Head`, which there is only one of, and the head is what is read
off it. Every header is found under its name, in whichever letter case. -/
theorem parseRequestHead_format (data : Bytes) :
    (∀ head, (parseRequestHead unlimited data).1 = .ok head ↔
        ∃ w : Wire.Head, w.bytes = data ∧ w.read = head) ∧
      (∀ w w' : Wire.Head, w.bytes = data → w'.bytes = data → w = w') ∧
      ∀ w : Wire.Head, w.bytes = data → ∀ f ∈ w.fields, ∀ name : Text,
        name.asciiLower = f.name.asciiLower →
          w.read.header name = some f.value.trimBlanks := by
  refine ⟨fun head => ?_, fun w w' h h' => Wire.Head.bytes_injective (h.trans h'.symm),
    fun w _ f hf name hname => w.header_read hf hname⟩
  rw [parseRequestHead_eq_ok_iff]
  simp only [matched_requestHead_iff_wire]
  constructor
  · rintro ⟨_, _, ⟨w, hbytes, rfl, rfl⟩, rfl⟩
    exact ⟨w, hbytes, rfl⟩
  · rintro ⟨w, hbytes, rfl⟩
    exact ⟨_, _, ⟨w, hbytes, rfl, rfl⟩, rfl⟩

/-- A head with one header, in which letter case and blanks are mixed. -/
def hostSent : Wire.Head where
  line :=
    { method := .ofString "Get", target := .ofString "/é", version := .ofString "1.1"
      method_ne_nil := by decide
      method_isAlpha := by decide
      target_ne_nil := by decide
      target_readable := by decide
      target_avoids := by decide
      version_ne_nil := by decide
      version_isAscii := by decide
      version_avoids := by decide }
  fields :=
    [{ name := .ofString "Host", value := .ofString " a: b\t"
       name_ne_nil := by decide
       name_isAscii := by decide
       name_avoids := by decide
       value_readable := by decide
       value_avoids := by decide }]
  body := Element.piece ['\r']
  distinct := by decide

/-- It is parsed, and its header is found. -/
theorem parseRequestHead_format_host :
    (parseRequestHead unlimited hostSent.bytes).1 = .ok hostSent.read ∧
      hostSent.read.headers = [(.ofString "host", .ofString "a: b")] ∧
      hostSent.read.header (.ofString "HOST") = some (.ofString "a: b") := by
  obtain ⟨hparse, _, hheader⟩ := parseRequestHead_format hostSent.bytes
  exact ⟨(hparse _).mpr ⟨_, rfl, rfl⟩, by decide,
    hheader hostSent rfl _ List.mem_cons_self _ (by decide)⟩

end StreamGrammar.Http
