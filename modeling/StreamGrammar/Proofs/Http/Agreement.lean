import StreamGrammar.Proofs.Grammar.Complete
import StreamGrammar.Proofs.Http.Soundness
import StreamGrammar.Proofs.Http.Wire

/-!
# Both accounts of a head agree

A head is read line by line from bytes that may go on, and the grammar
`requestHead` takes complete input. That each is right about the other's matches
does not yet say that they fail alike, and there they work differently: the
reader finds a repeated name at the line where it comes again, and stops; the
grammar reads on and looks at the names when there is no header line left.

They agree on every input all the same (`Agree`). A line ends with a mark of its
own, so that the grammar of a line matches just the same things whether more may
come or not (`matched_headerLine`), and what is undecided for the reader is
rejected by the grammar. Nothing in a line is fatal, so the grammar always gets
to the end of the header lines, and a repeated name is all that it can find
fault with there.
-/

namespace StreamGrammar.Http

open Grammar Reader

/-! ## Lines of complete input -/

theorem matchesOrRejects_requestLine : requestLine.MatchesOrRejects :=
  have hmethod : (terminated method blank).MatchesOrRejects :=
    (((MatchesOrRejects.takeSomeWhile _).convert _).map _).bind fun _ => (.map (.satisfy _ _) _)
  have htarget : (terminated target blank).MatchesOrRejects :=
    ((MatchesOrRejects.otherThan _).convert _).bind fun _ => .map (.satisfy _ _) _
  have hversion : (terminated version lineEnd).MatchesOrRejects :=
    ((MatchesOrRejects.literal _).bind fun _ => (MatchesOrRejects.otherThan _).convert _).bind
      fun _ => .map (.literal _) _
  hmethod.bind fun _ => htarget.bind fun _ => hversion.map _

theorem matchesOrRejects_headerLine : headerLine.MatchesOrRejects :=
  have hname : headerName.MatchesOrRejects := ((MatchesOrRejects.otherThan _).convert _).map _
  have hvalue : headerValue.MatchesOrRejects :=
    (((MatchesOrRejects.otherThan _).convert _).optional).map _
  (hname.bind fun _ => (MatchesOrRejects.literal _).bind fun _ => hvalue.bind fun _ =>
    (MatchesOrRejects.literal _).map _).map _

variable {final : Bool} {headers : Entries Text Text} {s middle rest : Bytes}
  {name value : Text}

/-- Complete header lines are all read before their names are looked at. -/
theorem verdict_headersAfter (headers : Entries Text Text) (s : Bytes) :
    ∃ pairs rest, Verdict.many (headerLine.verdict true) s = .matched pairs rest ∧
      (headersAfter headers).verdict true s =
        match uniqueHeaders.collect headers pairs with
        | .ok found => .matched found rest
        | .error _ => .fatal := by
  obtain ⟨pairs, rest, hmany⟩ := matchesOrRejects_headerLine.many s
  have hall : (repeatAny headerLine).verdict true s = .matched pairs rest := by
    rw [verdict_repeatAny, hmany]
  refine ⟨pairs, rest, hmany, ?_⟩
  cases hcollect : uniqueHeaders.collect headers pairs with
  | ok found => exact matched_headersAfter.mpr ⟨pairs, hmany, hcollect⟩
  | error fault => exact convertOrHalt_of_error hall hcollect

/-- After a line under a new name the others decide. -/
theorem verdict_headersAfter_line
    (hline : headerLine.verdict true s = .matched (name, value) middle)
    (hnew : ¬(headers.get? name).isSome) :
    (headersAfter headers).verdict true s =
      (headersAfter (headers.put name value)).verdict true middle := by
  obtain ⟨_, _, hmany, hall⟩ := verdict_headersAfter headers s
  obtain ⟨pairs, rest, hmore, hothers⟩ := verdict_headersAfter (headers.put name value) middle
  rw [many_headerLine hline, hmore] at hmany
  cases hmany
  rw [hall, hothers, uniqueHeaders.collect, if_neg hnew]

/-- A line under a name that is there already is fatal in the end. -/
theorem verdict_headersAfter_duplicate
    (hline : headerLine.verdict true s = .matched (name, value) middle)
    (hdup : (headers.get? name).isSome) : (headersAfter headers).verdict true s = .fatal := by
  obtain ⟨_, _, hmany, hall⟩ := verdict_headersAfter headers s
  obtain ⟨pairs, rest, hmore⟩ := matchesOrRejects_headerLine.many middle
  rw [many_headerLine hline, hmore] at hmany
  cases hmany
  rw [hall, uniqueHeaders.collect, if_pos hdup]

/-! ## Lines that may go on -/

/-- Whether more may come makes no difference to a header line that is there. -/
theorem headerLine_final (final' : Bool)
    (h : headerLine.verdict final s = .matched (name, value) rest) :
    headerLine.verdict final' s = .matched (name, value) rest :=
  matched_headerLine.mpr (matched_headerLine.mp h)

/-- Where a header line is, the loop sees no blank line. -/
theorem headerEntry_of_headerLine
    (h : headerLine.verdict final s = .matched (name, value) rest) :
    headerEntry.verdict final s = .matched (some (name, value)) rest := by
  have hsome : (headerLine.map some).verdict final s = .matched (some (name, value)) rest :=
    matched_map.mpr ⟨_, h, rfl⟩
  cases s with
  | nil => exact absurd (consumes_headerLine h) (Nat.not_lt_zero _)
  | cons e s =>
    have hreturn : Element.code e ≠ '\r'.toNat := fun hcode => by
      rw [(Element.eq_ofAscii_iff (by decide)).mpr hcode] at h
      rw [show headerLine.verdict final (Element.ofAscii '\r' :: s) = .rejected from
        headerLine_blank s] at h
      cases h
    have hpeek : (peek (ascii '\r') : Grammar UInt8 UInt8).verdict final (e :: s) = .rejected := by
      rw [verdict_peek, rejected_ascii_cons (by decide) hreturn]
      rfl
    rw [headerEntry, either_of_rejected _ (map_of_rejected _ hpeek), hsome]

/-- The loop stops only at a carriage return. -/
theorem head_of_headerEntry_none (h : headerEntry.verdict final s = .matched none rest) :
    s.head? = some carriageReturn ∧ rest = s := by
  rcases matched_of_either h with h | h
  · obtain ⟨_, hpeek, _⟩ := matched_map.mp h
    rw [verdict_peek] at hpeek
    cases hreturn : (ascii '\r' : Grammar UInt8 UInt8).verdict final s with
    | matched e past =>
      rw [hreturn] at hpeek
      cases hpeek
      exact ⟨by rw [(matched_ascii.mp hreturn).2]; rfl, rfl⟩
    | _ =>
      rw [hreturn] at hpeek
      cases hpeek
  · obtain ⟨_, _, hsome⟩ := matched_map.mp h
    cases hsome

/-! ## One phase -/

/-- A phase that fails without a match fails to parse, or for want of input. -/
theorem kind_of_conclusion {α : Type} {g : Grammar UInt8 α} (hg : g.Final) {code : DiagnosticCode}
    {outline : Failure.Outline} (h : (g.verdict false s).conclusion code = .error outline) :
    outline.kind = .parse ∨ outline.kind = .incomplete := by
  cases hv : g.verdict false s with
  | raised fault => exact absurd hv (hg.ne_raised fault)
  | matched => rw [hv] at h; cases h
  | rejected | fatal => rw [hv] at h; cases h; exact .inl rfl
  | truncated => rw [hv] at h; cases h; exact .inr rfl

/-- **What a phase and its grammar make of the same bytes**, if these are all
there are. -/
inductive PhaseAgrees {α : Type} : Except Failure.Outline (α × Bytes) → Verdict UInt8 α → Prop
  /-- A match. -/
  | matched (value : α) (rest : Bytes) : PhaseAgrees (.ok (value, rest)) (.matched value rest)
  /-- There is no match. -/
  | refused {outline : Failure.Outline}
      (h : outline.kind = .parse ∨ outline.kind = .incomplete) :
      PhaseAgrees (.error outline) .rejected

/-- **A phase agrees with its grammar** if whether more may come makes no
difference to what is matched. -/
theorem phase_agrees {α : Type} {g : Grammar UInt8 α} (hg : g.Final) (hm : g.MatchesOrRejects)
    (hsame : ∀ value rest, g.verdict true s = .matched value rest →
      g.verdict false s = .matched value rest) (code : DiagnosticCode) :
    PhaseAgrees ((g.verdict false s).conclusion code) (g.verdict true s) := by
  rcases hm s with hnone | ⟨value, rest, hmatched⟩
  · rw [hnone]
    cases hended : (g.verdict false s).conclusion code with
    | error outline => exact .refused (kind_of_conclusion hg hended)
    | ok p =>
      -- a match would stay one, with nothing more to come
      have hmatched : g.verdict false s = .matched p.1 p.2 := by
        cases hv : g.verdict false s <;> rw [hv] at hended <;> cases hended
        rfl
      have hstays : g.verdict true (s ++ []) = .matched p.1 (p.2 ++ []) := hg.of_matched hmatched
      rw [List.append_nil, hnone] at hstays
      cases hstays
  · rw [hmatched, hsame value rest hmatched]
    exact .matched value rest

/-! ## The header lines -/

/-- **What both accounts make of header lines.** Where the reader refuses a line,
the grammar has come to the end of the header lines, and there is no blank line
either. -/
inductive HeadersAgree : Except Failure.Outline (Entries Text Text × Bytes) →
    Verdict UInt8 (Entries Text Text) → Prop
  /-- The header lines, up to what may be a blank line. -/
  | headers (found : Entries Text Text) (rest : Bytes) :
      HeadersAgree (.ok (found, rest)) (.matched found rest)
  /-- A name comes again. -/
  | duplicate {outline : Failure.Outline} (h : outline.kind = .duplicateHeader) :
      HeadersAgree (.error outline) .fatal
  /-- What comes next is neither a header line nor a blank line. -/
  | refused {outline : Failure.Outline} {found : Entries Text Text} {rest : Bytes}
      (h : outline.kind = .parse ∨ outline.kind = .incomplete)
      (hrest : rest.head? ≠ some carriageReturn) :
      HeadersAgree (.error outline) (.matched found rest)

/-- **The loop over the header lines agrees with the grammar**, from wherever it
has got to. -/
theorem headersIn_agrees (headers : Entries Text Text) (s : Bytes) :
    HeadersAgree (headersIn 0 headers s) ((headersAfter headers).verdict true s) := by
  induction hlen : s.length using Nat.strong_induction_on generalizing headers s with
  | _ n ih =>
    rcases matchesOrRejects_headerLine s with hnone | ⟨⟨name, value⟩, rest, hline⟩
    · -- no header line: either the loop stops, or it fails
      have hend : (headersAfter headers).verdict true s = .matched headers s :=
        (matched_headersAfter_end hnone).mpr ⟨rfl, rfl⟩
      rw [hend]
      cases hentry : (headerEntry.verdict false s).conclusion .malformedHeader with
      | error outline =>
        rw [headersIn_of_error hentry]
        refine .refused (kind_of_conclusion final_headerEntry hentry) fun hreturn => ?_
        obtain ⟨s, rfl⟩ := List.head?_eq_some_iff.mp hreturn
        rw [headerEntry_blank] at hentry
        cases hentry
      | ok p =>
        obtain ⟨field, rest⟩ := p
        have hmatched : headerEntry.verdict false s = .matched field rest := by
          cases hv : headerEntry.verdict false s <;> rw [hv] at hentry <;> cases hentry
          rfl
        cases field with
        | none =>
          rw [headersIn_of_none hentry, (head_of_headerEntry_none hmatched).2]
          exact .headers _ _
        | some field =>
          have := headerLine_final true (headerLine_of_headerEntry hmatched)
          rw [hnone] at this
          cases this
    · have hentry : (headerEntry.verdict false s).conclusion .malformedHeader =
          .ok (some (name, value), rest) := by
        rw [headerEntry_of_headerLine (headerLine_final false hline)]
        rfl
      rw [headersIn_of_some hentry]
      by_cases hdup : (headers.get? name).isSome
      · rw [if_pos hdup, verdict_headersAfter_duplicate hline hdup]
        exact .duplicate rfl
      · rw [if_neg hdup, if_neg (by simp), verdict_headersAfter_line hline hdup]
        exact ih rest.length (hlen ▸ consumes_headerLine hline) _ _ rfl

/-! ## The head -/

/-- **What both accounts make of a head.** -/
inductive Agree : Except Failure.Outline RequestHead → Verdict UInt8 RequestHead → Prop
  /-- A head, whose body is what remains. -/
  | head {head found : RequestHead} {rest : Bytes} (h : head = { found with body := rest }) :
      Agree (.ok head) (.matched found rest)
  /-- A header name comes twice. -/
  | duplicate {outline : Failure.Outline} (h : outline.kind = .duplicateHeader) :
      Agree (.error outline) .fatal
  /-- There is no head. -/
  | refused {outline : Failure.Outline}
      (h : outline.kind = .parse ∨ outline.kind = .incomplete) :
      Agree (.error outline) .rejected

/-- **Reading a head line by line agrees with the grammar of heads.** -/
theorem headIn_agrees (s : Bytes) : Agree (headIn 0 s) (requestHead.verdict true s) := by
  have hlines : ∀ rest : Bytes, HeadersAgree (headersIn 0 [] rest)
      ((convertOrHalt headersConversion (repeatAny headerLine)).verdict true rest) :=
    headersIn_agrees []
  have hdividers : ∀ rest : Bytes, PhaseAgrees ((divider.verdict false rest).conclusion _)
      (divider.verdict true rest) := fun rest => phase_agrees final_divider (.literal _)
    (fun _ _ h => matched_literal.mpr (matched_literal.mp h)) .missingDivider
  have hstart := phase_agrees (s := s) final_requestLine matchesOrRejects_requestLine
    (fun _ _ h => matched_requestLine.mpr (matched_requestLine.mp h)) .malformedRequestLine
  rw [headIn, requestHead, serial3, verdict_map, verdict_bind]
  generalize (requestLine.verdict false s).conclusion _ = phase at hstart ⊢
  generalize requestLine.verdict true s = whole at hstart ⊢
  cases hstart with
  | refused h => exact .refused h
  | matched line rest =>
    simp only [Verdict.andThen, verdict_bind, verdict_map]
    specialize hlines rest
    generalize headersIn 0 [] rest = phase at hlines ⊢
    generalize (convertOrHalt headersConversion _).verdict true rest = whole at hlines ⊢
    cases hlines with
    | duplicate h => exact .duplicate h
    | @refused _ found stop h hstop =>
      -- the grammar looks for a blank line, and there is none
      have hnone : divider.verdict true stop = .rejected := by
        rcases MatchesOrRejects.literal (Element.piece ['\r', '\n']) stop with hnone | ⟨_, _, h⟩
        · exact hnone
        · exact absurd (head_of_divider h) hstop
      simp only [hnone]
      exact .refused h
    | headers found stop =>
      specialize hdividers stop
      dsimp only
      generalize (divider.verdict false stop).conclusion _ = phase at hdividers ⊢
      generalize divider.verdict true stop = whole at hdividers ⊢
      cases hdividers with
      | refused h => exact .refused h
      | matched lineEnd body => exact .head rfl

/-! ## Parsing a head -/

/-- Settings without limits. -/
def unlimited : HeadSettings := { maxBufferSize := some 0, maxHeaders := some 0 }

/-- **What parsing a head comes to** is the head in the bytes, which are all at
hand. -/
theorem parseRequestHead_unlimited (data : Bytes) :
    (parseRequestHead unlimited data).1.mapError Failure.outline = headIn 0 data := by
  obtain ⟨r, hr, hunlimited⟩ : ∃ r, Reader.ofSettings none (some 0) = .ok r ∧
      r.maxBufferSize = 0 := ⟨_, rfl, rfl⟩
  have hphases : parseRequestHead unlimited data = readPhases r 0 data (.start []) := by
    have hlimit : Limits.resolve (some 0) Limits.maxHeaderCount = .ok 0 := rfl
    simp only [parseRequestHead, unlimited, readRequestHead, hlimit, hr]
  have hseen : Session.seen RequestHead.whole (readPhases r 0 data (.start [])) =
      headIn 0 (data ++ []) := seen_readPhases hunlimited 0 data rfl
  rw [List.append_nil] at hseen
  rw [hphases, ← hseen]
  rcases hread : readPhases r 0 data (.start []) with ⟨result, after⟩
  -- nothing was left in the source to begin with
  obtain ⟨_, hbytes, _⟩ := readPhases_borneOut hread
  have hnone : after.source.bytes = [] := (List.append_eq_nil_iff.mp hbytes.symm).2
  cases result with
  | error failure => rfl
  | ok head => simp [Except.mapError, Session.seen, RequestHead.whole, hnone]

/-- What parsing a head comes to agrees with the grammar. -/
theorem agree_parseRequestHead (data : Bytes) :
    Agree ((parseRequestHead unlimited data).1.mapError Failure.outline)
      (requestHead.verdict true data) := by
  rw [parseRequestHead_unlimited]
  exact headIn_agrees data

/-- A head is returned exactly if the grammar matches one. -/
theorem parseRequestHead_eq_ok_iff {data : Bytes} {head : RequestHead} :
    (parseRequestHead unlimited data).1 = .ok head ↔
      ∃ found rest, requestHead.verdict true data = .matched found rest ∧
        head = { found with body := rest } := by
  have hagree := agree_parseRequestHead data
  generalize (parseRequestHead unlimited data).1 = result at hagree ⊢
  generalize requestHead.verdict true data = whole at hagree ⊢
  cases result with
  | ok returned =>
    cases hagree with
    | head h => simp [← h, eq_comm]
  | error failure =>
    refine ⟨nofun, ?_⟩
    rintro ⟨found, rest, rfl, _⟩
    cases hagree

/-- **Parsing a head agrees with the grammar of heads, verdict for verdict.** It
returns a head exactly if the grammar matches one, and then the same, with what
remains for its body; it finds a name repeated exactly if the grammar ends
fatally; and it fails for another reason exactly if the grammar rejects. -/
theorem parseRequestHead_agrees (data : Bytes) :
    (∀ head, (parseRequestHead unlimited data).1 = .ok head ↔
        ∃ found remainder, requestHead.run (.complete data) = .matched found remainder ∧
          head = { found with body := remainder.rest }) ∧
      ((∃ failure, (parseRequestHead unlimited data).1 = .error failure ∧
          failure.kind = .duplicateHeader) ↔
        ∃ reason, requestHead.run (.complete data) = .fatal reason) ∧
      ((∃ failure, (parseRequestHead unlimited data).1 = .error failure ∧
          (failure.kind = .parse ∨ failure.kind = .incomplete)) ↔
        ∃ reason, requestHead.run (.complete data) = .rejected reason) := by
  refine ⟨fun head => ?_, ?_⟩
  · rw [parseRequestHead_eq_ok_iff]
    simp only [matched_complete]
    constructor
    · rintro ⟨found, _, ⟨remainder, hrun, rfl⟩, hhead⟩
      exact ⟨found, remainder, hrun, hhead⟩
    · rintro ⟨found, remainder, hrun, hhead⟩
      exact ⟨found, _, ⟨remainder, hrun, rfl⟩, hhead⟩
  · have hagree := agree_parseRequestHead data
    rw [show requestHead.verdict true data = (requestHead.run (.complete data)).verdict from rfl]
      at hagree
    generalize (parseRequestHead unlimited data).1 = result at hagree ⊢
    generalize requestHead.run (.complete data) = outcome at hagree ⊢
    -- a failure goes with one end of the grammar and excludes the other
    cases result with
    | ok head =>
      cases outcome with
      | matched found remainder => simp
      | _ => cases hagree
    | error failure =>
      cases outcome with
      | fatal reason =>
        cases hagree with
        | duplicate h =>
          have hkind : failure.kind = .duplicateHeader := h
          simp [hkind]
      | rejected reason =>
        cases hagree with
        | refused h =>
          have hkind : failure.kind = .parse ∨ failure.kind = .incomplete := h
          have hother : failure.kind ≠ .duplicateHeader := by
            rcases hkind with h | h <;> simp [h]
          simp [hkind, hother]
      | _ => cases hagree

end StreamGrammar.Http
