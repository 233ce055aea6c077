import StreamGrammar.Diagnostic.Report
import StreamGrammar.Proofs.Json.Canonical

/-!
# Reports in JSON are read back

A report in the JSON layout is not written by the JSON writer. It quotes input as it came, and
so it may hold what the writer refuses: half of a surrogate pair stands in it as itself. And
there are blanks in it after commas and colons. So what is known of the writer's texts says
nothing of it.

What the two share is what the writer's texts were compared with. A report is a text of a form
(`Json.Form`), and the parser reads every text of a form as what the form denotes. For a string
this comes down to one code point at a time. Where the writer accepts a code point, a report
escapes it in the same way (`writeCodePoint_eq`), and where the writer does not, the code point
needs no escape. Where a text is cut does not matter, since it is cut before it is quoted.

What a report says (`contents`) is put down here as a value, without regard to its text. Which
members there are depends on the diagnostic, so that their keys differ is read off one list of
all keys, of which they are a part in any case.
-/

namespace StreamGrammar

/-- A span whose numbers have numerals of at most `Numeral.maxDigits` digits. -/
def Span.IsWritable (s : Span) : Prop :=
  ∀ n ∈ [s.line, s.column, s.start, s.stop], Numeral.isWritable n = true

namespace Reporter

open Json

/-! ## Strings -/

/-- What the writer writes of a code point, a report does, too. -/
theorem writeCodePoint_eq {c : CodePoint} (h : c.isSurrogate = false) :
    JsonTree.writeCodePoint c = .ok (escapeOne c) := by
  unfold JsonTree.writeCodePoint escapeOne
  rw [h]
  -- both go through the same letters, but not in the same order
  split_ifs <;> first | rfl | omega

/-- What the writer refuses stands in a report as itself. -/
theorem escapeOne_of_isSurrogate {c : CodePoint} (h : c.isSurrogate = true) :
    escapeOne c = [c] ∧ IsPlain c := by
  simp only [CodePoint.isSurrogate, Bool.and_eq_true, decide_eq_true_iff] at h
  constructor
  · simp (disch := omega) only [escapeOne, if_neg]
  · unfold IsPlain
    omega

/-- **A code point is quoted by a piece that denotes it.** -/
theorem piece_of_escapeOne (c : CodePoint) :
    ∃ p : Piece, p.WellFormed ∧ escapeOne c = p.text ∧ p.value? = some c := by
  by_cases hc : c.isSurrogate = true
  · obtain ⟨hself, hplain⟩ := escapeOne_of_isSurrogate hc
    exact ⟨.plain c, hplain, hself, rfl⟩
  · obtain ⟨p, hp, htext, hvalue, -⟩ :=
      piece_of_writeCodePoint (writeCodePoint_eq (Bool.eq_false_iff.mpr hc))
    exact ⟨p, hp, htext, hvalue⟩

/-- **Every text is quoted by a string that denotes it.** -/
theorem spellsString_quote (t : Text) :
    ∃ ps, SpellsString ps (quote t) ∧ textOf? ps = some t := by
  have hpieces : ∃ ps : List Piece, (∀ p ∈ ps, p.WellFormed) ∧ textOf? ps = some t ∧
      t.flatMap escapeOne = piecesText ps := by
    induction t with
    | nil => exact ⟨[], by simp, rfl, rfl⟩
    | cons c t ih =>
      obtain ⟨p, hp, htext, hvalue⟩ := piece_of_escapeOne c
      obtain ⟨ps, hps, hvalues, htexts⟩ := ih
      refine ⟨p :: ps, List.forall_mem_cons.mpr ⟨hp, hps⟩, ?_, ?_⟩
      · rw [textOf?_cons, hvalue, hvalues]
        rfl
      · rw [List.flatMap_cons, htext, htexts]
        rfl
  obtain ⟨ps, hps, hvalue, htext⟩ := hpieces
  refine ⟨ps, ⟨hps, ?_⟩, hvalue⟩
  rw [quote, htext]
  rfl

/-! ## Objects -/

/-- **Text that denotes a value**, by a form that is no container. -/
def Denotes (written : Text) (v : Json) : Prop :=
  ∃ f : Form, f.Spells written ∧ f.value? = some v ∧ f.nesting = 0

theorem denotes_quote (t : Text) : Denotes (quote t) (.string t) := by
  obtain ⟨ps, hps, hvalue⟩ := spellsString_quote t
  exact ⟨.string ps, hps, by rw [Form.value?, hvalue]; rfl, rfl⟩

theorem denotes_decimal {n : Nat} (h : Numeral.isWritable n = true) :
    Denotes (Numeral.decimal n) (.unsigned n) :=
  ⟨.number (integerForm false n),
    ⟨wellFormed_integerForm false n, (text_integerForm false n).symm⟩,
    value?_integerForm false h, rfl⟩

/-- A member with its value written and a member with its value, under one key. -/
def Tells (m : Text × Text) (e : Text × Json) : Prop := m.1 = e.1 ∧ Denotes m.2 e.2

/-- A member as it is written. -/
def memberText (m : Text × Text) : Text := Text.concat [quote m.1, ": ", m.2]

/-- **Text between the brackets of an object** that holds no containers, of one of the two kinds
that differ in the comma before the first member. -/
def DenotesMembers (spelled : List (List Piece × Form) → Text → Prop) (written : Text)
    (es : List (Text × Json)) : Prop :=
  ∃ fs, spelled fs written ∧ Form.memberValues? fs = some es ∧ Form.nestingMembers fs = 0

theorem isBlank_blank : IsBlank (Text.ofChars [' ']) := by
  simp [IsBlank, Text.ofChars, Charset.jsonWhitespace]

variable {m : Text × Text} {e : Text × Json} {ms : List (Text × Text)} {es : List (Text × Json)}
  {before others : Text}

/-- A member comes before others, perhaps after blanks. -/
theorem denotesMembers_cons (hbefore : IsBlank before) (hm : Tells m e)
    (hothers : DenotesMembers Form.SpellsMoreMembers others es) :
    DenotesMembers Form.SpellsMembers (before ++ (memberText m ++ others)) (e :: es) := by
  obtain ⟨hkey, f, hf, hvalue, hflat⟩ := hm
  obtain ⟨ps, hps, hname⟩ := spellsString_quote m.1
  obtain ⟨fs, hspelled, hvalues, hflats⟩ := hothers
  refine ⟨(ps, f) :: fs,
    ⟨before ++ quote m.1, Text.ofChars [' '] ++ m.2, others, ?_, ?_, hspelled, ?_⟩, ?_, ?_⟩
  · exact ⟨before, quote m.1, [], hbefore, hps, by simp [IsBlank], by simp⟩
  · exact ⟨Text.ofChars [' '], m.2, [], isBlank_blank, hf, by simp [IsBlank], by simp⟩
  · have hcolon : Text.ofString ": " = CodePoint.ofChar ':' :: Text.ofChars [' '] := rfl
    simp [memberText, Text.concat, hcolon]
  · rw [Form.memberValues?, hname, hkey, hvalue, hvalues]
    rfl
  · rw [Form.nestingMembers, hflat, hflats, Nat.max_self]

/-- Members with a comma and a blank before each. -/
theorem denotesMembers_more (h : List.Forall₂ Tells ms es) :
    DenotesMembers Form.SpellsMoreMembers
      (ms.flatMap fun m => Text.ofString ", " ++ memberText m) es := by
  induction h with
  | nil => exact ⟨[], rfl, rfl, rfl⟩
  | @cons m e ms es hm _ ih =>
    obtain ⟨fs, hspelled, hvalues, hflat⟩ := denotesMembers_cons isBlank_blank hm ih
    refine ⟨fs, ?_, hvalues, hflat⟩
    rcases spellsMoreMembers_comma hspelled with rfl | hcomma
    · cases hvalues
    · have htext : (m :: ms).flatMap (fun m => Text.ofString ", " ++ memberText m) =
          CodePoint.ofChar ',' :: (Text.ofChars [' '] ++ (memberText m ++
            ms.flatMap fun m => Text.ofString ", " ++ memberText m)) := by
        rw [List.flatMap_cons, List.append_assoc]
        rfl
      rw [htext]
      exact hcomma

/-- **A written object is parsed as its members**, if their keys differ. -/
theorem parse_object {maxDepth : Int} (h : 1 ≤ maxDepth) (hms : List.Forall₂ Tells ms es)
    (hkeys : (es.map Prod.fst).Nodup) :
    Json.parse (object ms) (some maxDepth) (some 0) = .ok (.object es) := by
  have hmembers : DenotesMembers Form.SpellsMembers
      (Text.joinWith ", " (ms.map memberText)) es := by
    cases hms with
    | nil => exact ⟨[], by simp [Form.SpellsMembers, IsBlank, Text.joinWith], rfl, rfl⟩
    | @cons m e ms es hm hothers =>
      have hnone : IsBlank [] := by simp [IsBlank]
      rw [List.map_cons, Text.joinWith_cons, List.flatMap_map]
      exact denotesMembers_cons hnone hm (denotesMembers_more hothers)
  obtain ⟨fs, hspelled, hvalues, hflat⟩ := hmembers
  refine (parse_eq_ok_iff _ maxDepth h _).mpr
    ⟨.object fs, padded_self ⟨_, hspelled, ?_⟩, ?_, ?_⟩
  · show Text.concat ["\x7b", Text.joinWith ", " (ms.map memberText), "\x7d"] = _
    rw [Text.concat, List.flatten_cons, List.flatten_cons, List.flatten_singleton]
    rfl
  · rw [Form.nesting, hflat]
    omega
  · rw [Form.value?, hvalues, Option.map_some, Entries.ofPairs_of_nodup hkeys]

/-! ## What a report says -/

section Contents

variable (sanitize : Bool) (limit : Nat)

/-- A text as a report shows it: where texts are cut, a text past the limit is its first code
points, so many of them, and dots. -/
def shown (t : Text) : Text :=
  if sanitize = true ∧ limit < t.length then t.take limit ++ "..." else t

/-- What a report says of every diagnostic. -/
def headEntries (d : Diagnostic) : List (Text × Json) :=
  [("code", .string d.code.name), ("code_value", .unsigned d.code.number),
    ("message", .string (shown sanitize limit d.message)), ("severity", .string d.severity.name)]

/-- What a report says of a place. -/
def placeEntries : Option Span → List (Text × Json)
  | none => []
  | some s => [("line", .unsigned s.line), ("column", .unsigned s.column),
      ("start", .unsigned s.start), ("end", .unsigned s.stop)]

/-- What a report says under the key of a text, which is nothing if the text is missing or
empty. -/
def textEntries (key : Text) (told : Text → Text) : Option Text → List (Text × Json)
  | none => []
  | some t => if t = [] then [] else [(key, .string (told t))]

/-- **What a report says of a diagnostic**, as the members of a JSON object. -/
def contents (d : Diagnostic) : List (Text × Json) :=
  headEntries sanitize limit d ++ placeEntries d.span ++
    textEntries "reason" (shown sanitize limit) d.reason ++ textEntries "hint" id d.hint

/-- The keys that a report may have, in their order. -/
def reportKeys : List Text :=
  ["code", "code_value", "message", "severity", "line", "column", "start", "end", "reason",
    "hint"]

theorem keys_textEntries (key : Text) (told : Text → Text) (t : Option Text) :
    ((textEntries key told t).map Prod.fst).Sublist [key] := by
  cases t with
  | none => exact List.nil_sublist _
  | some t =>
    rw [textEntries]
    split
    · exact List.nil_sublist _
    · exact List.Sublist.refl _

/-- **The keys of a report differ**, whichever of its members it has. -/
theorem nodup_keys_contents (d : Diagnostic) :
    ((contents sanitize limit d).map Prod.fst).Nodup := by
  have hplace : ((placeEntries d.span).map Prod.fst).Sublist
      ["line", "column", "start", "end"] := by
    cases d.span with
    | none => exact List.nil_sublist _
    | some s => exact List.Sublist.refl _
  have hkeys : ((contents sanitize limit d).map Prod.fst).Sublist reportKeys := by
    rw [contents, List.map_append, List.map_append, List.map_append]
    exact (((List.Sublist.refl _).append hplace).append (keys_textEntries _ _ _)).append
      (keys_textEntries _ _ _)
  exact hkeys.nodup (by decide)

/-- Under a limit that is not below zero texts are cut to it. -/
theorem cut_eq_shown :
    cut { layout := .json, sanitize, maxContentLength := (limit : Int) } =
      shown sanitize limit := by
  funext t
  have hlimit : ¬(limit : Int) < 0 := by omega
  simp [cut, shown, hlimit]

theorem isWritable_number (code : DiagnosticCode) : Numeral.isWritable code.number = true := by
  cases code <;> decide +kernel

theorem tells_headEntries (d : Diagnostic) :
    List.Forall₂ Tells
      [("code", quote d.code.name), ("code_value", Numeral.decimal d.code.number),
        ("message", quote (shown sanitize limit d.message)), ("severity", quote d.severity.name)]
      (headEntries sanitize limit d) :=
  .cons ⟨rfl, denotes_quote _⟩ <| .cons ⟨rfl, denotes_decimal (isWritable_number _)⟩ <|
    .cons ⟨rfl, denotes_quote _⟩ <| .cons ⟨rfl, denotes_quote _⟩ .nil

theorem tells_placeEntries (span : Option Span) : (∀ s ∈ span, s.IsWritable) →
    List.Forall₂ Tells
      (match span with
        | some s =>
          [("line", Numeral.decimal s.line), ("column", Numeral.decimal s.column),
            ("start", Numeral.decimal s.start), ("end", Numeral.decimal s.stop)]
        | none => [])
      (placeEntries span) := by
  intro h
  cases span with
  | none => exact .nil
  | some s =>
    have hwritable := h s rfl
    simp only [Span.IsWritable, List.forall_mem_cons] at hwritable
    obtain ⟨hline, hcolumn, hstart, hstop, -⟩ := hwritable
    exact .cons ⟨rfl, denotes_decimal hline⟩ <| .cons ⟨rfl, denotes_decimal hcolumn⟩ <|
      .cons ⟨rfl, denotes_decimal hstart⟩ <| .cons ⟨rfl, denotes_decimal hstop⟩ .nil

/-- A text that is there and not empty is written under its key. -/
theorem tells_textEntries (key : Text) (told : Text → Text) (t : Option Text) :
    List.Forall₂ Tells
      (match nonempty t with
        | some t => [(key, quote (told t))]
        | none => [])
      (textEntries key told t) := by
  cases t with
  | none => exact .nil
  | some t =>
    cases t with
    | nil => exact .nil
    | cons c t => exact .cons ⟨rfl, denotes_quote _⟩ .nil

/-- **The members that are written are what the report says.** -/
theorem tells_members {d : Diagnostic} (hspan : ∀ s ∈ d.span, s.IsWritable) :
    List.Forall₂ Tells
      (members { layout := .json, sanitize, maxContentLength := (limit : Int) } d)
      (contents sanitize limit d) := by
  have hhead := tells_headEntries sanitize limit d
  have hplace := tells_placeEntries d.span hspan
  have hreason := tells_textEntries "reason" (shown sanitize limit) d.reason
  have hhint := tells_textEntries "hint" id d.hint
  rw [members, cut_eq_shown]
  exact List.rel_append (List.rel_append (List.rel_append hhead hplace) hreason) hhint

end Contents

/-- **A report in JSON is read back as what it says**, at any depth that a parser may be
limited to: whatever the texts of the diagnostic are, and wherever they are cut. -/
theorem parse_report (d : Diagnostic) (sanitize : Bool) (limit : Nat)
    (hspan : ∀ s ∈ d.span, s.IsWritable) (maxDepth : Option Int)
    (h : ∀ depth ∈ maxDepth, 1 ≤ depth) :
    Json.parse (report { layout := .json, sanitize, maxContentLength := limit } d) maxDepth
      (some 0) = .ok (.object (contents sanitize limit d)) := by
  have hparse : ∀ depth : Int, 1 ≤ depth →
      Json.parse (report { layout := .json, sanitize, maxContentLength := limit } d) (some depth)
        (some 0) = .ok (.object (contents sanitize limit d)) := fun depth hdepth =>
    parse_object hdepth (tells_members sanitize limit hspan) (nodup_keys_contents sanitize limit d)
  cases maxDepth with
  | none => exact hparse Limits.maxJsonDepth (by decide)
  | some depth => exact hparse depth (h depth rfl)

/-- A message at the limit with half of a surrogate pair in it, a reason past the limit, and an
empty hint. -/
theorem parse_report_at_the_limit :
    let message := Text.ofChars ['"', '\\', '\n'] ++ [CodePoint.ofNat 0xD800]
    let d : Diagnostic :=
      { code := .jsonInvalid, message, reason := some "Expected", hint := some []
        span := some { start := 3, stop := 4, line := 1, column := 4 } }
    let members : List (Text × Json) := [("code", .string "JSON_INVALID"),
      ("code_value", .unsigned 4001), ("message", .string message), ("severity", .string "error"),
      ("line", .unsigned 1), ("column", .unsigned 4), ("start", .unsigned 3), ("end", .unsigned 4),
      ("reason", .string "Expe...")]
    (∀ s ∈ d.span, s.IsWritable) ∧ (∀ depth ∈ (none : Option Int), 1 ≤ depth) ∧
      Json.parse (report { layout := .json, sanitize := true, maxContentLength := (4 : Nat) } d)
        none (some 0) = .ok (.object members) := by
  intro message d members
  have hspan : ∀ s ∈ d.span, s.IsWritable := by
    rintro s ⟨⟩
    simp only [Span.IsWritable, List.forall_mem_cons]
    exact ⟨by decide +kernel, by decide +kernel, by decide +kernel, by decide +kernel, nofun⟩
  have hcontents : contents true 4 d = members := rfl
  have hparse := parse_report d true 4 hspan none nofun
  rw [hcontents] at hparse
  exact ⟨hspan, nofun, hparse⟩

end Reporter

end StreamGrammar
