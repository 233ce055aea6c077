import StreamGrammar.Proofs.Grammar.Complete
import StreamGrammar.Proofs.Http.Reading

/-!
# A head that was read in pieces is a head

There are two accounts of a request head: the grammar `requestHead`, which sees
all of it at once, and the reader, which takes it line by line and knows only
what its reads have brought. The reader may stop anywhere – bytes arrive as they
please, reads fail, limits are reached – and whatever follows in the stream it
will never see.

What it says is borne out by the grammar all the same (`BorneOut`). If it returns
a head, then however the stream goes on, the grammar matches the same head and
leaves the body and what followed. If it refuses the input, there is no way to
go on so that the grammar would match.

A phase is right about what follows because the decisions of its grammar are
final. What needs an argument is the loop over the header lines. It decides
after each line what the grammar decides after the last, so the grammar is taken
from wherever the loop has got to: `headersAfter` is what remains of the header
lines after some have been put in. Either account takes one line off it in the
same way.
-/

namespace StreamGrammar.Http

open Grammar Reader

/-! ## The grammar from a header line on -/

/-- **The header lines after those that were put in already**, unless a name
comes again. -/
def headersAfter (headers : Entries Text Text) : Grammar UInt8 (Entries Text Text) :=
  convertOrHalt { headersConversion with convert := uniqueHeaders.collect headers }
    (repeatAny headerLine)

variable {final : Bool} {headers found : Entries Text Text} {s middle rest : Bytes}
  {name value : Text}

theorem matched_headersAfter :
    (headersAfter headers).verdict final s = .matched found rest ↔
      ∃ pairs, Verdict.many (headerLine.verdict final) s = .matched pairs rest ∧
        uniqueHeaders.collect headers pairs = .ok found := by
  rw [headersAfter, matched_convertOrHalt]
  simp only [verdict_repeatAny]

/-- A header line is the first round of those that remain. -/
theorem many_headerLine (hline : headerLine.verdict final s = .matched (name, value) middle) :
    Verdict.many (headerLine.verdict final) s =
      (Verdict.many (headerLine.verdict final) middle).map ((name, value) :: ·) := by
  rw [Verdict.many_eq, hline]
  exact if_pos (consumes_headerLine hline)

/-- **A header line under a new name is put in**, and the others come after it. -/
theorem matched_headersAfter_line
    (hline : headerLine.verdict final s = .matched (name, value) middle)
    (hnew : ¬(headers.get? name).isSome) :
    (headersAfter headers).verdict final s = .matched found rest ↔
      (headersAfter (headers.put name value)).verdict final middle = .matched found rest := by
  simp only [matched_headersAfter, many_headerLine hline, Verdict.map_eq_matched]
  constructor
  · rintro ⟨_, ⟨pairs, hmany, rfl⟩, hcollect⟩
    rw [uniqueHeaders.collect, if_neg hnew] at hcollect
    exact ⟨pairs, hmany, hcollect⟩
  · rintro ⟨pairs, hmany, hcollect⟩
    refine ⟨_, ⟨pairs, hmany, rfl⟩, ?_⟩
    rw [uniqueHeaders.collect, if_neg hnew]
    exact hcollect

/-- Under a name that is there already, nothing mends it that comes later. -/
theorem headersAfter_duplicate
    (hline : headerLine.verdict final s = .matched (name, value) middle)
    (hdup : (headers.get? name).isSome) :
    (headersAfter headers).verdict final s ≠ .matched found rest := by
  intro h
  obtain ⟨_, hmany, hcollect⟩ := matched_headersAfter.mp h
  rw [many_headerLine hline] at hmany
  obtain ⟨pairs, _, rfl⟩ := Verdict.map_eq_matched.mp hmany
  rw [uniqueHeaders.collect, if_pos hdup] at hcollect
  cases hcollect

/-- Where no header line is, there are no more of them. -/
theorem matched_headersAfter_end (hline : headerLine.verdict final s = .rejected) :
    (headersAfter headers).verdict final s = .matched found rest ↔ found = headers ∧ rest = s := by
  rw [matched_headersAfter, Verdict.many_eq, hline]
  constructor
  · rintro ⟨pairs, hpairs, hcollect⟩
    cases hpairs
    cases hcollect
    exact ⟨rfl, rfl⟩
  · rintro ⟨rfl, rfl⟩
    exact ⟨[], rfl, rfl⟩

theorem headersAfter_fatal (hline : headerLine.verdict final s = .fatal) :
    (headersAfter headers).verdict final s ≠ .matched found rest := by
  intro h
  obtain ⟨_, hmany, _⟩ := matched_headersAfter.mp h
  rw [Verdict.many_eq, hline] at hmany
  cases hmany

/-- **A head is its first line, the header lines and the blank line.** -/
theorem matched_requestHead {head : RequestHead} :
    requestHead.verdict final s = .matched head rest ↔
      ∃ line middle headers stop lineEnd,
        requestLine.verdict final s = .matched line middle ∧
          (headersAfter []).verdict final middle = .matched headers stop ∧
          divider.verdict final stop = .matched lineEnd rest ∧
          head = { method := line.1, target := line.2.1, version := line.2.2, headers,
                   body := [] } := by
  simp only [requestHead, serial3, matched_map, matched_bind]
  constructor
  · rintro ⟨_, ⟨line, middle, hline, headers, stop, hheaders, lineEnd, hdivider, rfl⟩, rfl⟩
    exact ⟨line, middle, headers, stop, lineEnd, hline, hheaders, hdivider, rfl⟩
  · rintro ⟨line, middle, headers, stop, lineEnd, hline, hheaders, hdivider, rfl⟩
    exact ⟨_, ⟨line, middle, hline, headers, stop, hheaders, lineEnd, hdivider, rfl⟩, rfl⟩

/-- A head without its first line. -/
theorem of_requestHead {head : RequestHead} {line : RequestLine}
    (hline : requestLine.verdict final s = .matched line middle)
    (h : requestHead.verdict final s = .matched head rest) :
    ∃ headers stop lineEnd, (headersAfter []).verdict final middle = .matched headers stop ∧
      divider.verdict final stop = .matched lineEnd rest := by
  obtain ⟨_, _, headers, stop, lineEnd, hline', hheaders, hdivider, _⟩ := matched_requestHead.mp h
  rw [hline] at hline'
  cases hline'
  exact ⟨headers, stop, lineEnd, hheaders, hdivider⟩

/-! ## A header line or the blank line

The loop asks in each phase which of the two there is. Of complete input the
first byte tells. -/

/-- The byte that the blank line begins with. -/
def carriageReturn : UInt8 := Element.ofAscii '\r'

theorem headerEntry_blank (s : Bytes) :
    headerEntry.verdict final (carriageReturn :: s) = .matched none (carriageReturn :: s) := by
  refine either_of_matched _ (matched_map.mpr ⟨carriageReturn, ?_, rfl⟩)
  rw [verdict_peek, carriageReturn, matched_ascii.mpr ⟨rfl, rfl⟩]
  rfl

theorem headerEntry_line (h : s.head? ≠ some carriageReturn) :
    headerEntry.verdict true s = (headerLine.map some).verdict true s := by
  have hreturn : (ascii '\r' : Grammar UInt8 UInt8).verdict true s = .rejected :=
    rejected_ascii (by decide) (fun _ => rfl) fun e he hcode =>
      h (by rw [Option.mem_def.mp he, (Element.eq_ofAscii_iff (by decide)).mpr hcode]; rfl)
  refine either_of_rejected _ (map_of_rejected _ ?_)
  rw [verdict_peek, hreturn]
  rfl

/-- No header line begins like the blank line. -/
theorem headerLine_blank (s : Bytes) :
    headerLine.verdict final (carriageReturn :: s) = .rejected := by
  have hbegins : headerLine.BeginsWith (· ∉ Element.piece [':', '\r', '\n']) :=
    ((((BeginsWith.otherThan _).judge _ _).map _).bind _).map _
  exact hbegins.cons final carriageReturn s (by decide)

theorem head_of_divider {lineEnd : Bytes} (h : divider.verdict final s = .matched lineEnd rest) :
    s.head? = some carriageReturn := by
  rw [(matched_literal.mp h).2]
  rfl

/-- Where the loop sees the blank line, nothing is consumed and no header line
is there. -/
theorem of_headerEntry_none (h : headerEntry.verdict true s = .matched none rest) :
    rest = s ∧ headerLine.verdict true s = .rejected := by
  by_cases hs : s.head? = some carriageReturn
  · obtain ⟨s, rfl⟩ := List.head?_eq_some_iff.mp hs
    rw [headerEntry_blank] at h
    cases h
    exact ⟨rfl, headerLine_blank s⟩
  · rw [headerEntry_line hs] at h
    obtain ⟨_, _, hsome⟩ := matched_map.mp h
    cases hsome

/-- **What the loop refuses is no part of a head**: the header lines end before
it or fail, and the blank line is not there either. -/
theorem of_headerEntry_refused
    (h : headerEntry.verdict true s = .rejected ∨ headerEntry.verdict true s = .fatal)
    (hheaders : (headersAfter headers).verdict true s = .matched found rest)
    {lineEnd stop : Bytes} : divider.verdict true rest ≠ .matched lineEnd stop := by
  by_cases hs : s.head? = some carriageReturn
  · obtain ⟨s, rfl⟩ := List.head?_eq_some_iff.mp hs
    rw [headerEntry_blank] at h
    rcases h with h | h <;> cases h
  · rw [headerEntry_line hs, verdict_map] at h
    cases hline : headerLine.verdict true s with
    | rejected =>
      obtain ⟨_, rfl⟩ := (matched_headersAfter_end hline).mp hheaders
      exact fun hdivider => hs (head_of_divider hdivider)
    | fatal => exact absurd hheaders (headersAfter_fatal hline)
    | truncated best stop =>
      rw [hline] at h
      cases best <;> rcases h with h | h <;> cases h
    | _ =>
      rw [hline] at h
      rcases h with h | h <;> cases h

/-! ## The reader is right -/

/-- **The loop over the header lines is borne out** by what remains of the
grammar, however the input goes on after these bytes. -/
def HeadersBorneOut (headers : Entries Text Text) (whole : Bytes) :
    Except Failure (Entries Text Text × Bytes) → Prop
  | .ok (found, leftover) => ∀ more : Bytes,
    (headersAfter headers).verdict true (whole ++ more) = .matched found (leftover ++ more)
  | .error failure => failure.Refuses → ∀ (more rest : Bytes) (found : Entries Text Text),
    (headersAfter headers).verdict true (whole ++ more) = .matched found rest →
      ∀ lineEnd stop, divider.verdict true rest ≠ .matched lineEnd stop

/-- **A reading is borne out** by the grammar, however the input goes on after
these bytes: a head is matched as it was read, with its body and what follows
left over, and what was refused is never matched. -/
def BorneOut (whole : Bytes) : Except Failure RequestHead → Prop
  | .ok head => ∀ more : Bytes, ∃ remainder,
    requestHead.run (.complete (whole ++ more)) = .matched { head with body := [] } remainder ∧
      remainder.rest = head.body ++ more
  | .error failure => failure.Refuses → ∀ (more : Bytes) (head : RequestHead)
      (remainder : Cursor UInt8),
    requestHead.run (.complete (whole ++ more)) ≠ .matched head remainder

variable {r : Reader}

/-- What the loop says from the next line on it says from this one on. -/
theorem HeadersBorneOut.cons {whole leftover read : Bytes}
    {result : Except Failure (Entries Text Text × Bytes)}
    (hline : ∀ more, headerLine.verdict true (whole ++ more) =
      .matched (name, value) (leftover ++ more))
    (hnew : ¬(headers.get? name).isSome)
    (h : HeadersBorneOut (headers.put name value) (leftover ++ read) result) :
    HeadersBorneOut headers (whole ++ read) result := by
  have hstep : ∀ (more rest : Bytes) (found : Entries Text Text),
      (headersAfter headers).verdict true (whole ++ read ++ more) = .matched found rest ↔
        (headersAfter (headers.put name value)).verdict true (leftover ++ read ++ more) =
          .matched found rest := by
    intro more rest found
    rw [List.append_assoc, List.append_assoc]
    exact matched_headersAfter_line (hline _) hnew
  cases result with
  | ok p => exact fun more => (hstep more _ _).mpr (h more)
  | error failure =>
    exact fun hrefuses more rest found hheaders =>
      h hrefuses more rest found ((hstep more rest found).mp hheaders)

/-- **The loop over the header lines is right** about all that it has read. -/
theorem readHeaders_borneOut {maxHeaders : Nat} {rest : Bytes} {s after : Session}
    {result : Except Failure (Entries Text Text × Bytes)}
    (h : readHeaders r maxHeaders headers rest s = (result, after)) :
    ∃ read, s.source.bytes = read ++ after.source.bytes ∧
      HeadersBorneOut headers (rest ++ read) result := by
  fun_induction readHeaders r maxHeaders headers rest s with
  | case1 headers rest s failure mid hrun =>
    cases h
    obtain ⟨read, hbytes, hphase⟩ := run_foretells final_headerEntry hrun
    exact ⟨read, hbytes, fun hrefuses more _ _ hheaders _ _ =>
      of_headerEntry_refused (hphase more hrefuses) hheaders⟩
  | case2 headers rest s leftover mid hrun =>
    cases h
    obtain ⟨read, hbytes, hphase⟩ := run_foretells final_headerEntry hrun
    refine ⟨read, hbytes, fun more => ?_⟩
    obtain ⟨hrest, hline⟩ := of_headerEntry_none (hphase more)
    exact (matched_headersAfter_end hline).mpr ⟨rfl, hrest⟩
  | case3 headers rest s name value leftover mid hrun hdup =>
    cases h
    obtain ⟨read, hbytes, hphase⟩ := run_foretells final_headerEntry hrun
    exact ⟨read, hbytes, fun _ more _ _ hheaders =>
      absurd hheaders (headersAfter_duplicate (headerLine_of_headerEntry (hphase more)) hdup)⟩
  | case4 headers rest s name value leftover mid hrun hdup hmany =>
    cases h
    obtain ⟨read, hbytes, _⟩ := run_foretells final_headerEntry hrun
    refine ⟨read, hbytes, fun hrefuses => ?_⟩
    simp [Failure.Refuses, Failure.kind] at hrefuses
  | case5 headers rest s name value leftover mid hrun hdup hmany ih =>
    obtain ⟨read, hbytes, hphase⟩ := run_foretells final_headerEntry hrun
    obtain ⟨read', hbytes', hmore⟩ := ih h
    refine ⟨read ++ read', by rw [hbytes, hbytes', List.append_assoc], ?_⟩
    rw [← List.append_assoc]
    exact hmore.cons (fun more => headerLine_of_headerEntry (hphase more)) hdup

/-- What a grammar refuses it does not match. -/
theorem ne_matched_of_refused {α : Type} {v : Verdict UInt8 α} (h : v = .rejected ∨ v = .fatal)
    (value : α) (rest : Bytes) : v ≠ .matched value rest := by
  rcases h with rfl | rfl <;> nofun

theorem BorneOut.of_matched {whole : Bytes} {head : RequestHead}
    (h : ∀ more, requestHead.verdict true (whole ++ more) =
      .matched { head with body := [] } (head.body ++ more)) : BorneOut whole (.ok head) :=
  fun more => matched_complete.mp (h more)

theorem BorneOut.of_refused {whole : Bytes} {failure : Failure}
    (h : failure.Refuses → ∀ more head rest,
      requestHead.verdict true (whole ++ more) ≠ .matched head rest) :
    BorneOut whole (.error failure) :=
  fun hrefuses more head remainder hmatched =>
    h hrefuses more head remainder.rest (matched_complete.mpr ⟨remainder, hmatched, rfl⟩)

/-- **The phases of a head are right** about all that they have read. -/
theorem readPhases_borneOut {maxHeaders : Nat} {leftover : Bytes} {s after : Session}
    {result : Except Failure RequestHead}
    (h : readPhases r maxHeaders leftover s = (result, after)) :
    ∃ read, s.source.bytes = read ++ after.source.bytes ∧ BorneOut (leftover ++ read) result := by
  unfold readPhases at h
  split at h
  · rename_i failure s₁ hrun
    cases h
    obtain ⟨read, hbytes, hrefused⟩ := run_foretells final_requestLine hrun
    refine ⟨read, hbytes, .of_refused fun hrefuses more head rest hmatched => ?_⟩
    -- without the first line there is no head
    obtain ⟨line, middle, _, _, _, hline, _⟩ := matched_requestHead.mp hmatched
    exact ne_matched_of_refused (hrefused more hrefuses) line middle hline
  rename_i method target version leftover₁ s₁ hrun
  obtain ⟨read₁, hbytes₁, hline⟩ := run_foretells final_requestLine hrun
  rw [Session.source_record] at hbytes₁
  split at h
  · rename_i failure s₂ hread
    cases h
    obtain ⟨read₂, hbytes₂, hrefused⟩ := readHeaders_borneOut hread
    rw [Session.source_record] at hbytes₂
    refine ⟨read₁ ++ read₂, by rw [hbytes₁, hbytes₂, List.append_assoc],
      .of_refused fun hrefuses more head rest hmatched => ?_⟩
    -- after the first line there are no header lines with the blank line after them
    rw [← List.append_assoc leftover, List.append_assoc _ read₂] at hmatched
    obtain ⟨headers, stop, lineEnd, hheaders, hdivider⟩ := of_requestHead (hline _) hmatched
    rw [← List.append_assoc] at hheaders
    exact hrefused hrefuses more stop headers hheaders lineEnd rest hdivider
  rename_i headers leftover₂ s₂ hread
  obtain ⟨read₂, hbytes₂, hheaders⟩ := readHeaders_borneOut hread
  rw [Session.source_record] at hbytes₂
  -- so much is settled, whatever there is from the blank line on
  have hsettled : ∀ more : Bytes,
      requestLine.verdict true (leftover ++ (read₁ ++ (read₂ ++ more))) =
          .matched (method, target, version) (leftover₁ ++ (read₂ ++ more)) ∧
        (headersAfter []).verdict true (leftover₁ ++ (read₂ ++ more)) =
          .matched headers (leftover₂ ++ more) := fun more =>
    ⟨by rw [← List.append_assoc]; exact hline _, by rw [← List.append_assoc]; exact hheaders more⟩
  split at h
  · rename_i failure s₃ hend
    cases h
    obtain ⟨read₃, hbytes₃, hrefused⟩ := run_foretells final_divider hend
    rw [Session.source_record] at hbytes₃
    refine ⟨read₁ ++ (read₂ ++ read₃), by simp only [hbytes₁, hbytes₂, hbytes₃, List.append_assoc],
      .of_refused fun hrefuses more head rest hmatched => ?_⟩
    simp only [List.append_assoc] at hmatched
    obtain ⟨_, stop, lineEnd, hheaders', hdivider⟩ := of_requestHead (hsettled _).1 hmatched
    rw [(hsettled _).2] at hheaders'
    cases hheaders'
    rw [← List.append_assoc] at hdivider
    exact ne_matched_of_refused (hrefused more hrefuses) lineEnd rest hdivider
  · rename_i lineEnd body s₃ hend
    cases h
    obtain ⟨read₃, hbytes₃, hdivider⟩ := run_foretells final_divider hend
    rw [Session.source_record] at hbytes₃
    refine ⟨read₁ ++ (read₂ ++ read₃),
      by simp only [hbytes₁, hbytes₂, hbytes₃, List.append_assoc, Session.source_record],
      .of_matched fun more => ?_⟩
    simp only [List.append_assoc]
    refine matched_requestHead.mpr
      ⟨_, _, _, _, lineEnd, (hsettled _).1, (hsettled _).2, ?_, rfl⟩
    rw [← List.append_assoc]
    exact hdivider more

/-- A limit that cannot be set is an argument, and says nothing of the input. -/
theorem kind_of_resolve {value : Option Int} {default : Nat} {failure : Failure}
    (h : Limits.resolve value default = .error failure) : failure.kind = .invalidArgument := by
  match value with
  | none => cases h
  | some (.ofNat n) => cases h
  | some (.negSucc n) =>
    cases h
    rfl

theorem kind_of_ofSettings {readSize maxBufferSize : Option Int} {failure : Failure}
    (h : Reader.ofSettings readSize maxBufferSize = .error failure) :
    failure.kind = .invalidArgument := by
  unfold Reader.ofSettings at h
  split at h
  · rename_i hresolve
    cases h
    exact kind_of_resolve hresolve
  · split at h
    · split at h
      · rename_i hresolve
        cases h
        exact kind_of_resolve hresolve
      · cases h
    · cases h
      rfl

/-- **What the reader says of a head is borne out**, whatever is asked for in one
read, however the bytes arrive and whichever limits are set: the bytes that it
took off the source, after those that were here already, are all it speaks of,
and it is right about every continuation of them. -/
theorem readRequestHead_borneOut (settings : HeadSettings) (leftover : Bytes) (s : Session) :
    ∃ read, s.source.bytes =
        read ++ (readRequestHead settings leftover s).2.source.bytes ∧
      BorneOut (leftover ++ read) (readRequestHead settings leftover s).1 := by
  -- settings are looked at before anything is read
  have hnothing : ∀ failure : Failure, failure.kind = .invalidArgument →
      ∃ read, s.source.bytes = read ++ s.source.bytes ∧
        BorneOut (leftover ++ read) (.error failure) := fun failure hkind =>
    ⟨[], rfl, fun hrefuses => by simp [Failure.Refuses, hkind] at hrefuses⟩
  rw [readRequestHead]
  split
  · rename_i failure hlimit
    exact hnothing failure (kind_of_resolve hlimit)
  · split
    · rename_i failure hsettings
      exact hnothing failure (kind_of_ofSettings hsettings)
    · rename_i r hr
      rcases hread : readPhases r _ leftover s with ⟨result, after⟩
      exact readPhases_borneOut hread

/-- A head that arrives in three pieces, the first two of them in the middle of a
line, before the source fails. -/
def brokenOff : Session :=
  .start [.chunk (Element.piece "T / HTTP/1.1\r\nA:".toList),
    .chunk (Element.piece " b\r\n".toList), .chunk (Element.piece "\r\nC".toList),
    .failure (.plain [])]

/-- A head in which a name comes again. -/
def repeating : Session := .start [.chunk (Element.piece "/ HTTP/1.1\r\nA:\r\na:\r\n".toList)]

/-- The reader returns the first head, which any continuation begins with, and
refuses the second, which none mends. -/
theorem readRequestHead_borneOut_pieces :
    (readRequestHead {} (Element.piece ['G', 'E']) brokenOff).1.toOption =
        some { method := .ofString "get", target := .ofString "/", version := .ofString "1.1",
               headers := [(.ofString "a", .ofString "b")], body := Element.piece ['C'] } ∧
      (∃ read, brokenOff.source.bytes = read ++
          (readRequestHead {} (Element.piece ['G', 'E']) brokenOff).2.source.bytes ∧
        BorneOut (Element.piece ['G', 'E'] ++ read)
          (readRequestHead {} (Element.piece ['G', 'E']) brokenOff).1) ∧
      (match (readRequestHead {} (Element.piece "GET ".toList) repeating).1 with
        | .ok _ => none
        | .error failure => some failure.kind) = some Failure.Kind.duplicateHeader ∧
      ∃ read, repeating.source.bytes = read ++
          (readRequestHead {} (Element.piece "GET ".toList) repeating).2.source.bytes ∧
        BorneOut (Element.piece "GET ".toList ++ read)
          (readRequestHead {} (Element.piece "GET ".toList) repeating).1 :=
  ⟨by decide +kernel, readRequestHead_borneOut {} _ brokenOff, by decide +kernel,
    readRequestHead_borneOut {} _ repeating⟩

end StreamGrammar.Http
