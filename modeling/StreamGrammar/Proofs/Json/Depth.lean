import StreamGrammar.Proofs.Json.Alphabets
import StreamGrammar.Proofs.Json.Nesting

/-!
# How too deep a nesting is reported

A parse that is ended by too deep a nesting is reported under a code of its own, and the
code is chosen by the wording of the reason. Text cannot get that wording into any other
reason, so for text the code is given on just the inputs that nest too deep.

For bytes this is not so. A run of string characters that is not UTF-8 is quoted in the
reason, whole, and a run may say what it likes. So bytes get the code as well when the
parse is ended by such a run and the run has the phrase in it (`EndsInPhrase`), however
little they nest; and that is the only other way.
-/

namespace StreamGrammar.Json

open Grammar

/-! ## The phrase among quoted bytes -/

/-- A byte is shown as itself, or by an escape in which the phrase does not begin. -/
theorem shown_byte_cases {quote : Char} (hquote : quote = '"' ∨ quote = '\'') (b : UInt8) :
    Quoted.byte quote b = [CodePoint.ofNat b.toNat] ∨
      ∃ tail, Quoted.byte quote b = CodePoint.ofChar '\\' :: tail ∧
        (Quoted.byte quote b).Avoids initial := by
  have hescape : Quoted.byte quote b = [CodePoint.ofNat b.toNat] ∨
      ∃ tail, Quoted.byte quote b = CodePoint.ofChar '\\' :: tail := by
    unfold Quoted.byte
    split
    · rename_i shown hshort
      unfold Quoted.short? at hshort
      split_ifs at hshort <;> cases hshort <;> exact .inr ⟨_, rfl⟩
    · split_ifs
      · exact .inl rfl
      · unfold Quoted.numbered
        split_ifs <;> exact .inr ⟨_, rfl⟩
  rcases hescape with hself | ⟨tail, htail⟩
  · exact .inl hself
  · rcases shown_byte hquote b with hself | hrare
    · exact .inl hself
    · exact .inr ⟨tail, htail, fun c hc => avoids_of_not_isRare (hrare c hc)⟩

/-- The bytes of the phrase are shown as the phrase. -/
theorem quoted_encode_depthPhrase {quote : Char} (hquote : quote = '"' ∨ quote = '\'') :
    (Utf8.encode depthPhrase).flatMap (Quoted.byte quote) = depthPhrase := by
  rcases hquote with rfl | rfl <;> decide

/-- A text without backslashes with which quoted bytes begin is one with which the bytes
begin. -/
theorem prefix_of_quoted {quote : Char} (hquote : quote = '"' ∨ quote = '\'') {t : Text}
    (ht : ∀ c ∈ t, c.val < 0x80 ∧ c ≠ CodePoint.ofChar '\\') {run : Bytes}
    (h : t <+: run.flatMap (Quoted.byte quote)) : Utf8.encode t <+: run := by
  induction t generalizing run with
  | nil => exact List.nil_prefix
  | cons c t ih =>
    obtain ⟨hc, hmore⟩ := List.forall_mem_cons.mp ht
    cases run with
    | nil => cases List.prefix_nil.mp h
    | cons b run =>
      rw [List.flatMap_cons] at h
      rcases shown_byte_cases hquote b with hself | ⟨tail, hescape, -⟩
      · rw [hself, List.singleton_append, List.cons_prefix_cons] at h
        obtain ⟨rfl, h⟩ := h
        have hb : b.toNat < 0x110000 := Nat.lt_of_lt_of_le b.toNat_lt (by decide)
        have hone : Utf8.encodeOne (CodePoint.ofNat b.toNat) = [b] := by
          rw [Utf8.encodeOne_one hc.1, CodePoint.val_ofNat hb, UInt8.ofNat_toNat]
        rw [Utf8.encode, List.flatMap_cons, hone, List.singleton_append, List.cons_prefix_cons]
        exact ⟨rfl, ih hmore h⟩
      · rw [hescape, List.cons_append, List.cons_prefix_cons] at h
        exact absurd h.1 hc.2

/-- **Quoted bytes have the phrase in them if the bytes do.** It cannot begin within an
escape, and from where it begins each of its characters is one of the bytes. -/
theorem infix_quoted_iff {quote : Char} (hquote : quote = '"' ∨ quote = '\'') {run : Bytes} :
    depthPhrase <:+: run.flatMap (Quoted.byte quote) ↔ Utf8.encode depthPhrase <:+: run := by
  have hplain : ∀ c ∈ depthPhrase, c.val < 0x80 ∧ c ≠ CodePoint.ofChar '\\' := by decide
  constructor
  · intro h
    induction run with
    | nil => cases List.infix_nil.mp h
    | cons b run ih =>
      rw [List.flatMap_cons] at h
      rcases shown_byte_cases hquote b with hself | ⟨_, -, havoids⟩
      · rw [hself, List.singleton_append] at h
        rcases List.infix_cons_iff.mp h with h | h
        · have hfirst : depthPhrase <+: (b :: run).flatMap (Quoted.byte quote) := by
            rwa [List.flatMap_cons, hself]
          exact (prefix_of_quoted hquote hplain hfirst).isInfix
        · exact (ih h).trans (List.suffix_cons b run).isInfix
      · refine (ih ?_).trans (List.suffix_cons b run).isInfix
        rcases List.infix_append_iff.mp h with h | h | ⟨left, right, hparts, hleft, hright⟩
        · exact absurd h (lacks_phrase_of_avoids havoids)
        · exact h
        · cases left with
          | nil => exact hparts ▸ hright.isInfix
          | cons c left =>
            -- the phrase would begin within the escape
            have hfirst : c = CodePoint.ofChar 'J' := (List.cons.inj hparts).1.symm
            have hmem := havoids c (hleft.subset List.mem_cons_self)
            rw [hfirst] at hmem
            exact absurd hmem (by decide)
  · rintro ⟨before, after, rfl⟩
    refine ⟨before.flatMap (Quoted.byte quote), after.flatMap (Quoted.byte quote), ?_⟩
    rw [List.flatMap_append, List.flatMap_append, quoted_encode_depthPhrase hquote]

/-! ## Which reasons tell depth -/

/-- **A reason that quotes bytes of a string tells depth if they have the phrase in
them.** -/
theorem tellsDepth_raw_iff {run : Bytes} {fault : Fault} (h : Element.decode run = .error fault)
    (pos : Nat) :
    TellsDepth (.invalid "string characters" (Element.datum run) pos fault) ↔
      Utf8.encode depthPhrase <:+: run := by
  have hquote := quote_mark (run.map UInt8.toNat)
  have hmark : CodePoint.ofChar (Quoted.mark (run.map UInt8.toNat)) ∉ depthPhrase := by
    rcases hquote with h | h <;> (rw [h]; decide)
  rw [← infix_quoted_iff hquote]
  generalize hshown : run.flatMap (Quoted.byte (Quoted.mark (run.map UInt8.toNat))) = shown
  -- the wording is what comes before the quotation, the quotation, and what comes after
  have htext : (Reason.invalid "string characters" (Element.datum run) pos fault).text =
      Text.concat ["Invalid ", "string characters", " ", [CodePoint.ofChar 'b']] ++
        CodePoint.ofChar (Quoted.mark (run.map UInt8.toNat)) :: (shown ++
          CodePoint.ofChar (Quoted.mark (run.map UInt8.toNat)) ::
            Text.concat [" at position ", Numeral.decimal pos, ": ", fault.message]) := by
    have hdisplay : (Element.datum run).display = CodePoint.ofChar 'b' ::
        CodePoint.ofChar (Quoted.mark (run.map UInt8.toNat)) ::
          (shown ++ [CodePoint.ofChar (Quoted.mark (run.map UInt8.toNat))]) := by
      rw [← hshown]
      rfl
    simp only [Reason.text, hdisplay, Text.concat, List.flatten_cons, List.flatten_nil,
      List.append_assoc, List.cons_append, List.append_nil, List.nil_append]
  constructor
  · intro hin
    rw [TellsDepth, htext] at hin
    exact infix_of_quotation hmark (by decide)
      (avoids_at (showsPlainly_uint8.fault run fault h) pos) hin
  · intro hin
    rw [TellsDepth, htext]
    exact hin.trans ⟨_ ++ [_], _ :: _, by rw [List.append_assoc, List.append_assoc]; rfl⟩

/-- The reason that a run of string characters is given that cannot be read. -/
def QuotesRun (ε : Type) [Element ε] (reason : Reason) : Prop :=
  ∃ (run : List ε) (pos : Nat) (fault : Fault), Element.decode run = .error fault ∧
    reason = .invalid "string characters" (Element.datum run) pos fault

section Kinds

variable {ε : Type} [Element ε] (limit : Nat)

/-- The refusal of a container singles itself out. -/
theorem singlesOut_refusal :
    SinglesOut ε limit fun reason => ∃ pos, reason = .refused (refusal limit) pos where
  refusal pos := ⟨pos, rfl⟩
  tame := by
    rintro _ htame ⟨pos, rfl⟩
    exact htame.lacks_phrase (tellsDepth_refusal limit pos)
  raw := by
    rintro run pos fault - ⟨_, h⟩
    cases h

/-- And so does the wording, where no run of string characters is quoted. -/
theorem singlesOut_tellsDepth :
    SinglesOut ε limit fun reason => TellsDepth reason ∧ ¬QuotesRun ε reason where
  refusal pos := ⟨tellsDepth_refusal limit pos, fun ⟨_, _, _, _, h⟩ => nomatch h⟩
  tame _ htame h := htame.lacks_phrase h.1
  raw run pos fault hfault h := h.2 ⟨run, pos, fault, hfault, rfl⟩

end Kinds

/-! ## What a failed parse is reported as -/

/-- The failure is reported under this code. -/
def Reports {α : Type} (result : Except Failure α) (code : DiagnosticCode) : Prop :=
  ∃ failure, result = .error failure ∧ failure.diagnostic?.map Diagnostic.code = some code

/-- **The parse is run**, under this limit on nesting: the arguments are not refused, and a
source of this size is admitted. -/
def Runs (maxDepth maxSourceSize : Option Int) (size limit : Nat) : Prop :=
  resolveLimit maxDepth = .ok limit ∧
    ∃ most, Limits.resolve maxSourceSize Limits.maxSourceSize = .ok most ∧
      Limits.checkSourceSize size most = .ok ()

section Reports

variable {ε : Type} [Element ε] {maxDepth maxSourceSize : Option Int} {limit : Nat} {s : List ε}

/-- The run over the whole source does not match, for this reason. -/
def Fails (limit : Nat) (s : List ε) (reason : Reason) : Prop :=
  (text limit).run (.complete s) = .rejected reason ∨
    (text limit).run (.complete s) = .fatal reason

/-- An argument that is refused has no code. -/
theorem not_reports_invalidArgument {α : Type} {failure : Failure}
    (h : ∃ why, failure = .invalidArgument why) (code : DiagnosticCode) :
    ¬Reports (.error failure : Except Failure α) code := by
  rintro ⟨_, ⟨⟩, hcode⟩
  obtain ⟨why, rfl⟩ := h
  cases hcode

theorem invalidArgument_of_resolveLimit {frames : Nat} {failure : Failure}
    (h : resolveLimit maxDepth frames = .error failure) :
    ∃ why, failure = .invalidArgument why := by
  unfold resolveLimit at h
  split at h
  · rename_i hdepth
    cases h
    exact Limits.invalidArgument_of_resolveDepth hdepth
  · cases h

/-- A parse that is not run is reported otherwise. -/
theorem exists_runs_of_reports {code : DiagnosticCode} (hcode : code ≠ .sourceSizeExceeded)
    (h : Reports (parse s maxDepth maxSourceSize) code) :
    ∃ limit, Runs maxDepth maxSourceSize s.length limit := by
  rw [parse] at h
  cases hlimit : resolveLimit maxDepth with
  | error failure =>
    rw [hlimit] at h
    exact absurd h (not_reports_invalidArgument (invalidArgument_of_resolveLimit hlimit) code)
  | ok limit =>
    rw [hlimit] at h
    dsimp only [parseAll, settings] at h
    cases hmost : Limits.resolve maxSourceSize Limits.maxSourceSize with
    | error failure =>
      rw [hmost] at h
      exact absurd h (not_reports_invalidArgument (Limits.invalidArgument_of_resolve hmost) code)
    | ok most =>
      rw [hmost] at h
      cases hsize : Limits.checkSourceSize s.length most with
      | ok admitted => exact ⟨limit, hlimit, most, hmost, hsize⟩
      | error failure =>
        simp only [hsize] at h
        obtain ⟨_, ⟨⟩, hreported⟩ := h
        unfold Limits.checkSourceSize at hsize
        split at hsize
        · cases hsize
          exact absurd (Option.some.inj hreported).symm hcode
        · cases hsize

/-- **One of the two codes is given by a run that fails, and by its reason.** -/
theorem reports_iff_of_runs (h : Runs maxDepth maxSourceSize s.length limit)
    {code : DiagnosticCode} (hcode : code = .jsonDepthExceeded ∨ code = .jsonInvalid) :
    Reports (parse s maxDepth maxSourceSize) code ↔
      ∃ reason, Fails limit s reason ∧ (template limit reason.text none).code = code := by
  obtain ⟨hlimit, most, hmost, hsize⟩ := h
  have hother : ∀ other : DiagnosticCode, other ≠ .jsonDepthExceeded → other ≠ .jsonInvalid →
      ¬(some other = some code) := fun other hdepth hinvalid heq => by
    cases Option.some.inj heq
    exact hcode.elim hdepth hinvalid
  rw [parse, hlimit]
  simp only [parseAll, settings, hmost, hsize, Fails]
  cases (text limit).run (.complete s) with
  | matched v past =>
    refine iff_of_false ?_ (by simp)
    rintro ⟨failure, hresult, hreported⟩
    cases hend : past.atEnd with
    | true => simp [hend] at hresult
    | false =>
      simp only [hend, Bool.not_false, Bool.and_self, if_true] at hresult
      cases hresult
      exact hother .trailingInput (by decide) (by decide) hreported
  | rejected reason =>
    constructor
    · rintro ⟨_, ⟨⟩, hreported⟩
      exact ⟨reason, .inl rfl, Option.some.inj hreported⟩
    · rintro ⟨_, ⟨⟨⟩⟩ | ⟨⟨⟩⟩, hreported⟩
      exact ⟨_, rfl, congrArg some hreported⟩
  | fatal reason =>
    constructor
    · rintro ⟨_, ⟨⟩, hreported⟩
      exact ⟨reason, .inr rfl, Option.some.inj hreported⟩
    · rintro ⟨_, ⟨⟨⟩⟩ | ⟨⟨⟩⟩, hreported⟩
      exact ⟨_, rfl, congrArg some hreported⟩
  | truncated best past =>
    refine iff_of_false ?_ (by simp)
    rintro ⟨_, ⟨⟩, hreported⟩
    exact hother .incompleteInput (by decide) (by decide) hreported
  | raised fault =>
    refine iff_of_false ?_ (by simp)
    rintro ⟨_, ⟨⟩, ⟨⟩⟩

end Reports

/-! ## The two codes told apart -/

section Ends

variable {ε : Type} [Element ε] [Spelling ε] {limit : Nat} {s : List ε}

/-- **Too deep a nesting is what the innermost level refuses**, and the refusal comes to
the top as it is. -/
theorem nestsTooDeep_iff (hε : ShowsPlainly ε) :
    NestsTooDeep limit s ↔
      ∃ pos, (text limit).run (.complete s) = .fatal (.refused (refusal limit) pos) := by
  have h := failsOn_text hε (singlesOut_refusal limit) (Cursor.within_complete s) rfl
  rw [Cursor.rest_complete] at h
  rw [← h]
  exact ⟨fun ⟨_, hrun, pos, heq⟩ => ⟨pos, heq ▸ hrun⟩, fun ⟨pos, hrun⟩ => ⟨_, hrun, pos, rfl⟩⟩

theorem fails_of_nestsTooDeep (hε : ShowsPlainly ε) (h : NestsTooDeep limit s) :
    ∃ reason, Fails limit s reason := by
  obtain ⟨pos, hrun⟩ := (nestsTooDeep_iff hε).mp h
  exact ⟨_, .inr hrun⟩

/-- **The reason of a failed run tells depth if the input nests too deep**, or else it
quotes characters of a string. -/
theorem tellsDepth_iff_of_fails (hε : ShowsPlainly ε) {reason : Reason}
    (h : Fails limit s reason) :
    TellsDepth reason ↔ NestsTooDeep limit s ∨ (QuotesRun ε reason ∧ TellsDepth reason) := by
  have hkind := failsOn_text hε (singlesOut_tellsDepth limit) (Cursor.within_complete s) rfl
  rw [Cursor.rest_complete] at hkind
  rw [← hkind]
  constructor
  · intro htells
    by_cases hquotes : QuotesRun ε reason
    · exact .inr ⟨hquotes, htells⟩
    · rcases h with hrun | hrun
      · exact absurd htells (not_tellsDepth_of_rejected hrun)
      · exact .inl ⟨reason, hrun, htells, hquotes⟩
  · rintro (⟨found, hrun, htells, -⟩ | ⟨-, htells⟩)
    · rcases h with h | h
      · rw [h] at hrun
        cases hrun
      · rw [h] at hrun
        cases hrun
        exact htells
    · exact htells

end Ends

/-- **The two codes of a parse of some input told apart**, by what is said to end its
run. -/
structure ToldApart {ε : Type} [Element ε] (maxDepth maxSourceSize : Option Int) (s : List ε)
    (ended : Nat → Prop) : Prop where
  /-- One code is given where that ended the run. -/
  depth : Reports (parse s maxDepth maxSourceSize) .jsonDepthExceeded ↔
    ∃ limit, Runs maxDepth maxSourceSize s.length limit ∧ ended limit
  /-- The other is given where something else made it fail. -/
  invalid : Reports (parse s maxDepth maxSourceSize) .jsonInvalid ↔
    ∃ limit, Runs maxDepth maxSourceSize s.length limit ∧ (∃ reason, Fails limit s reason) ∧
      ¬ended limit

theorem toldApart_of_fails {ε : Type} [Element ε] {s : List ε} {ended : Nat → Prop}
    (maxDepth maxSourceSize : Option Int)
    (hended : ∀ limit, ended limit → ∃ reason, Fails limit s reason)
    (htells : ∀ limit reason, Fails limit s reason → (TellsDepth reason ↔ ended limit)) :
    ToldApart maxDepth maxSourceSize s ended where
  depth := by
    constructor
    · intro h
      obtain ⟨limit, hruns⟩ := exists_runs_of_reports (by decide) h
      obtain ⟨reason, hfails, hcode⟩ := (reports_iff_of_runs hruns (.inl rfl)).mp h
      rw [code_template] at hcode
      split at hcode
      · exact ⟨limit, hruns, (htells limit reason hfails).mp ‹_›⟩
      · cases hcode
    · rintro ⟨limit, hruns, hend⟩
      obtain ⟨reason, hfails⟩ := hended limit hend
      refine (reports_iff_of_runs hruns (.inl rfl)).mpr ⟨reason, hfails, ?_⟩
      rw [code_template, if_pos ((htells limit reason hfails).mpr hend)]
  invalid := by
    constructor
    · intro h
      obtain ⟨limit, hruns⟩ := exists_runs_of_reports (by decide) h
      obtain ⟨reason, hfails, hcode⟩ := (reports_iff_of_runs hruns (.inr rfl)).mp h
      rw [code_template] at hcode
      split at hcode
      · cases hcode
      · exact ⟨limit, hruns, ⟨reason, hfails⟩, mt (htells limit reason hfails).mpr ‹_›⟩
    · rintro ⟨limit, hruns, ⟨reason, hfails⟩, hend⟩
      refine (reports_iff_of_runs hruns (.inr rfl)).mpr ⟨reason, hfails, ?_⟩
      rw [code_template, if_neg (mt (htells limit reason hfails).mp hend)]

/-- **The run was ended by bytes of a string that are not UTF-8 and have the phrase in
them.** -/
def EndsInPhrase (limit : Nat) (b : Bytes) : Prop :=
  ∃ (run : Bytes) (pos : Nat) (fault : Fault), Element.decode run = .error fault ∧
    (text limit).run (.complete b) =
      .fatal (.invalid "string characters" (Element.datum run) pos fault) ∧
    Utf8.encode depthPhrase <:+: run

/-- **Too deep a nesting is reported as such, and little else is.** Under any limits, text
is reported to nest too deep if its run is ended by a container that opens inside as many
as are admitted, and every other failed run is reported as invalid. Bytes are reported to
nest too deep for that or for one more reason: the run is ended by bytes of a string that
are not UTF-8 and have the phrase in them. -/
theorem toldApart_parse (maxDepth maxSourceSize : Option Int) :
    (∀ t : Text, ToldApart maxDepth maxSourceSize t fun limit => NestsTooDeep limit t) ∧
      (∀ b : Bytes, ToldApart maxDepth maxSourceSize b fun limit =>
        NestsTooDeep limit b ∨ EndsInPhrase limit b) ∧
      (∀ (limit : Nat) (t : Text), NestsTooDeep limit t ↔
        ∃ pos, (text limit).run (.complete t) = .fatal (.refused (refusal limit) pos)) ∧
      ∀ (limit : Nat) (b : Bytes), NestsTooDeep limit b ↔
        ∃ pos, (text limit).run (.complete b) = .fatal (.refused (refusal limit) pos) := by
  refine ⟨fun t => ?_, fun b => ?_, fun _ _ => nestsTooDeep_iff showsPlainly_codePoint,
    fun _ _ => nestsTooDeep_iff showsPlainly_uint8⟩
  · refine toldApart_of_fails _ _ (fun limit => fails_of_nestsTooDeep showsPlainly_codePoint)
      fun limit reason hfails => (tellsDepth_iff_of_fails showsPlainly_codePoint hfails).trans
        (or_iff_left ?_)
    -- every text can be read
    rintro ⟨⟨_, _, _, hfault, _⟩, -⟩
    cases hfault
  · refine toldApart_of_fails _ _ (fun limit => ?_) fun limit reason hfails =>
      (tellsDepth_iff_of_fails showsPlainly_uint8 hfails).trans (or_congr_right ?_)
    · rintro (hnests | ⟨_, _, _, _, hrun, _⟩)
      · exact fails_of_nestsTooDeep showsPlainly_uint8 hnests
      · exact ⟨_, .inr hrun⟩
    · constructor
      · rintro ⟨⟨run, pos, fault, hfault, rfl⟩, htells⟩
        rcases hfails with hrun | hrun
        · exact absurd htells (not_tellsDepth_of_rejected hrun)
        · exact ⟨run, pos, fault, hfault, hrun, (tellsDepth_raw_iff hfault pos).mp htells⟩
      · rintro ⟨run, pos, fault, hfault, hrun, hin⟩
        rcases hfails with h | h
        · rw [hrun] at h
          cases h
        · rw [hrun] at h
          cases h
          exact ⟨⟨run, pos, fault, hfault, rfl⟩, (tellsDepth_raw_iff hfault pos).mpr hin⟩

/-- What begins with a quotation mark opens no container. -/
theorem not_nestsTooDeep_of_quote {ε : Type} [Element ε] [Spelling ε] (limit : Nat) (s : List ε) :
    ¬NestsTooDeep limit (Element.ofAscii '"' :: s) := by
  rintro ⟨blank, rest, hblank, hs, hopens⟩
  have hquote : (Element.ofAscii '"' : ε) ∈ (Element.piece ['"'] : List ε) := by
    simp [Element.piece]
  cases blank with
  | nil =>
    obtain ⟨c, hc, tail, rfl⟩ := hopens.head
    rw [(List.cons.inj hs).1] at hquote
    exact Element.not_mem_piece (by decide) hquote (List.mem_map_of_mem hc)
  | cons c blank =>
    obtain ⟨b, hb, rfl⟩ := hblank c List.mem_cons_self
    have hascii := Element.lt_of_areAscii
      (show Element.areAscii Charset.jsonWhitespace = true by decide) b hb
    rw [spell_ofChar_append hascii] at hs
    rw [(List.cons.inj hs).1] at hquote
    exact Element.not_mem_piece (by decide) hquote (List.mem_map_of_mem hb)

/-- **A string that quotes the phrase is reported to nest too deep**: bytes without a
bracket, in which the one after the phrase is not UTF-8. No container is refused in
them, whatever the limit is. -/
theorem parse_phrase :
    let b : Bytes := 0x22 :: (Utf8.encode depthPhrase ++ [0xFF, 0x22])
    Reports (parse b none none) .jsonDepthExceeded ∧
      ∀ limit, ¬NestsTooDeep limit b ∧
        ∀ pos, (text limit).run (.complete b) ≠ .fatal (.refused (refusal limit) pos) := by
  intro b
  have hnot : ∀ limit, ¬NestsTooDeep limit b := fun limit => not_nestsTooDeep_of_quote limit _
  refine ⟨?_, fun limit => ⟨hnot limit, fun pos hrun =>
    hnot limit ((nestsTooDeep_iff showsPlainly_uint8).mpr ⟨pos, hrun⟩)⟩⟩
  have hcode : (match parse b none none with
    | .error failure => failure.diagnostic?.map Diagnostic.code
    | .ok _ => none) = some .jsonDepthExceeded := by decide +kernel
  cases hparse : parse b none none with
  | error failure =>
    rw [hparse] at hcode
    exact ⟨failure, rfl, hcode⟩
  | ok v =>
    rw [hparse] at hcode
    cases hcode

end StreamGrammar.Json
