import StreamGrammar.Http.Reading
import StreamGrammar.Proofs.Grammar.Matched
import StreamGrammar.Proofs.Http.Final
import StreamGrammar.Proofs.Stream.Phase

/-!
# What reading a head comes to

A head is read line by line, each line in a phase of its own, and each phase
sees as much of the input as its reads happened to bring. What comes of it is
nevertheless a function of the bytes alone, `headIn`: it takes the verdict of
each grammar on *all* the bytes that are left, and knows no reads. The loop over
the header lines is the part that needs an induction, on how many bytes are
left; a header line is never empty.

That reading agrees with it (`seen_readPhases`) makes the read size irrelevant,
as well as the place where the bytes that were here already end and the source
begins.
-/

namespace StreamGrammar.Http

open Grammar Reader

/-! ## Reading all of it -/

/-- **The headers at the start of bytes that are all there**, after those that
were read already, and the bytes after them. -/
def headersIn (maxHeaders : Nat) (headers : Entries Text Text) (s : Bytes) :
    Except Failure.Outline (Entries Text Text × Bytes) :=
  match _h : (headerEntry.verdict false s).conclusion .malformedHeader with
  | .error outline => .error outline
  | .ok (none, rest) => .ok (headers, rest)
  | .ok (some (name, value), rest) =>
    if (headers.get? name).isSome then
      .error { kind := .duplicateHeader, code := some .duplicateHeader, fatal := some true }
    else if maxHeaders ≠ 0 ∧ maxHeaders ≤ headers.length then
      .error { kind := .limitExceeded, code := some .headerLimitExceeded, fatal := none }
    else headersIn maxHeaders (headers.put name value) rest
termination_by s.length
decreasing_by
  have hmatched : headerEntry.verdict false s = .matched (some (name, value)) rest := by
    cases hv : headerEntry.verdict false s <;> rw [hv] at _h <;> cases _h
    rfl
  exact headerEntry_consumes hmatched

section Equations

variable {maxHeaders : Nat} {headers : Entries Text Text} {s rest : Bytes}

theorem headersIn_of_error {outline : Failure.Outline}
    (h : (headerEntry.verdict false s).conclusion .malformedHeader = .error outline) :
    headersIn maxHeaders headers s = .error outline := by
  rw [headersIn]
  split <;> simp_all

theorem headersIn_of_none
    (h : (headerEntry.verdict false s).conclusion .malformedHeader = .ok (none, rest)) :
    headersIn maxHeaders headers s = .ok (headers, rest) := by
  rw [headersIn]
  split <;> simp_all

theorem headersIn_of_some {name value : Text}
    (h : (headerEntry.verdict false s).conclusion .malformedHeader =
      .ok (some (name, value), rest)) :
    headersIn maxHeaders headers s =
      if (headers.get? name).isSome then
        .error { kind := .duplicateHeader, code := some .duplicateHeader, fatal := some true }
      else if maxHeaders ≠ 0 ∧ maxHeaders ≤ headers.length then
        .error { kind := .limitExceeded, code := some .headerLimitExceeded, fatal := none }
      else headersIn maxHeaders (headers.put name value) rest := by
  rw [headersIn]
  split <;> simp_all

end Equations

/-- **The head at the start of bytes that are all there**, with what follows it
for its body. -/
def headIn (maxHeaders : Nat) (s : Bytes) : Except Failure.Outline RequestHead :=
  match (requestLine.verdict false s).conclusion .malformedRequestLine with
  | .error outline => .error outline
  | .ok ((method, target, version), rest) =>
    match headersIn maxHeaders [] rest with
    | .error outline => .error outline
    | .ok (headers, rest) =>
      match (divider.verdict false rest).conclusion .missingDivider with
      | .error outline => .error outline
      | .ok (_, body) => .ok { method, target, version, headers, body }

/-! ## Reading comes to the same -/

/-- Headers with all bytes after them, read or unread. -/
def headersWhole (p : Entries Text Text × Bytes) (unread : Bytes) :
    Entries Text Text × Bytes :=
  (p.1, p.2 ++ unread)

/-- A head with all bytes after it for its body, read or unread. -/
def RequestHead.whole (head : RequestHead) (unread : Bytes) : RequestHead :=
  { head with body := head.body ++ unread }

variable {r : Reader} {s : Session}

/-- A phase over bytes at hand that succeeds leaves them at hand, and one whose
refusals have a fixed code comes to what the verdict on the whole does. -/
theorem run_seen {α : Type} {g : Grammar UInt8 α} (template : Template)
    {code : DiagnosticCode} (hcode : ∀ reason, (template reason none).code = code)
    (h : r.maxBufferSize = 0) (hg : g.Final) (leftover : Bytes) (hs : s.AtHand) :
    Session.seen Phase.whole (r.run g leftover (some template) s) =
        (g.verdict false (leftover ++ s.source.bytes)).conclusion code ∧
      ∀ p after, r.run g leftover (some template) s = (.ok p, after) → after.AtHand := by
  have hc : Concludes (some template) (g.verdict false (leftover ++ s.source.bytes))
      (r.run g leftover (some template) s) :=
    concludes_phase (some template) h hg.steady leftover hs
  refine ⟨hc.seen hcode, fun p after heq => ?_⟩
  rw [heq] at hc
  generalize g.verdict false (leftover ++ s.source.bytes) = v at hc
  cases hc with
  | matched hafter hrest => exact hafter

/-- **The loop over the header lines comes to the headers of the whole.** -/
theorem seen_readHeaders (h : r.maxBufferSize = 0) (maxHeaders : Nat)
    (headers : Entries Text Text) (rest : Bytes) (hs : s.AtHand) :
    Session.seen headersWhole (readHeaders r maxHeaders headers rest s) =
        headersIn maxHeaders headers (rest ++ s.source.bytes) ∧
      ∀ p after, readHeaders r maxHeaders headers rest s = (.ok p, after) → after.AtHand := by
  -- what one phase comes to, wherever the loop has got to
  have hphase : ∀ (rest : Bytes) {s : Session}, s.AtHand → _ := fun rest s hs =>
    run_seen (fun reason _ => .malformedHeader reason) (fun _ => rfl) h
      final_headerEntry rest hs
  fun_induction readHeaders r maxHeaders headers rest s with
  | case1 headers rest s failure after hrun =>
    obtain ⟨hseen, _⟩ := hphase rest hs
    rw [hrun] at hseen
    rw [headersIn_of_error hseen.symm]
    exact ⟨rfl, fun _ _ heq => by simp at heq⟩
  | case2 headers rest s leftover after hrun =>
    obtain ⟨hseen, hafter⟩ := hphase rest hs
    rw [hrun] at hseen
    rw [headersIn_of_none hseen.symm]
    refine ⟨rfl, fun _ _ heq => ?_⟩
    cases heq
    exact hafter _ _ hrun
  | case3 headers rest s name value leftover after hrun hdup =>
    obtain ⟨hseen, _⟩ := hphase rest hs
    rw [hrun] at hseen
    rw [headersIn_of_some hseen.symm, if_pos hdup]
    exact ⟨rfl, fun _ _ heq => by simp at heq⟩
  | case4 headers rest s name value leftover after hrun hdup hmany =>
    obtain ⟨hseen, _⟩ := hphase rest hs
    rw [hrun] at hseen
    rw [headersIn_of_some hseen.symm, if_neg hdup, if_pos hmany]
    exact ⟨rfl, fun _ _ heq => by simp at heq⟩
  | case5 headers rest s name value leftover after hrun hdup hmany ih =>
    obtain ⟨hseen, hafter⟩ := hphase rest hs
    rw [hrun] at hseen
    rw [headersIn_of_some hseen.symm, if_neg hdup, if_neg hmany]
    exact ih (hafter _ _ hrun)

/-- **Reading a head in phases comes to the head of the whole.** -/
theorem seen_readPhases (h : r.maxBufferSize = 0) (maxHeaders : Nat) (leftover : Bytes)
    (hs : s.AtHand) :
    Session.seen RequestHead.whole (readPhases r maxHeaders leftover s) =
      headIn maxHeaders (leftover ++ s.source.bytes) := by
  obtain ⟨hline, hafterLine⟩ := run_seen (fun reason _ => .malformedRequestLine reason)
    (fun _ => rfl) h final_requestLine leftover (s := s.record (.reading .requestLine)) hs
  rw [Session.source_record] at hline
  rw [readPhases, headIn, ← hline]
  -- each phase starts where the last one stopped, with its bytes still at hand
  rcases hrun : r.run requestLine leftover _ _ with ⟨failure | ⟨line, rest⟩, s₁⟩
  · rfl
  obtain ⟨hheaders, hafterHeaders⟩ := seen_readHeaders (s := s₁.record (.reading .headers)) h
    maxHeaders [] rest (Session.atHand_record.mpr (hafterLine _ _ hrun))
  rw [Session.source_record] at hheaders
  simp only [Session.seen, Phase.whole]
  rw [← hheaders]
  rcases hread : readHeaders r maxHeaders [] rest (s₁.record (.reading .headers)) with
    ⟨failure | ⟨headers, rest₂⟩, s₂⟩
  · rfl
  obtain ⟨hdivider, _⟩ := run_seen (fun reason _ => .missingDivider reason)
    (fun _ => rfl) h final_divider rest₂ (s := s₂.record (.reading .divider))
    (Session.atHand_record.mpr (hafterHeaders _ _ hread))
  rw [Session.source_record] at hdivider
  simp only [Session.seen, headersWhole]
  rw [← hdivider]
  rcases r.run divider rest₂ _ _ with ⟨failure | ⟨lineEnd, body⟩, s₃⟩ <;> rfl

/-- Settings without a limit on the buffer give a reader without one, whatever
is asked for in one read. -/
theorem ofSettings_unlimited {readSize : Int} (hsize : 1 ≤ readSize) :
    ∃ r : Reader, Reader.ofSettings (some readSize) (some 0) = .ok r ∧ r.maxBufferSize = 0 := by
  obtain ⟨n, rfl⟩ := Int.eq_ofNat_of_zero_le (show 0 ≤ readSize by omega)
  have hpos : 0 < n := by omega
  have hzero : Limits.resolve (some 0) Limits.maxBufferSize = .ok 0 := rfl
  rw [Reader.ofSettings, Limits.resolve_natCast]
  simp only [hpos, hzero]
  exact ⟨_, rfl, rfl⟩

/-- **What reading a head comes to is a function of the bytes**: neither the read
size nor the place where the source begins occurs in it. -/
theorem seen_readRequestHead {readSize : Int} (hsize : 1 ≤ readSize) (maxHeaders : Option Int)
    (leftover : Bytes) (hs : s.AtHand) :
    Session.seen RequestHead.whole
        (readRequestHead { readSize := some readSize, maxBufferSize := some 0, maxHeaders }
          leftover s) =
      match Limits.resolve maxHeaders Limits.maxHeaderCount with
      | .error failure => .error failure.outline
      | .ok maxHeaders => headIn maxHeaders (leftover ++ s.source.bytes) := by
  obtain ⟨r, hr, hunlimited⟩ := ofSettings_unlimited hsize
  rw [readRequestHead]
  cases Limits.resolve maxHeaders Limits.maxHeaderCount with
  | error failure => rfl
  | ok maxHeaders =>
    simp only [hr]
    exact seen_readPhases hunlimited maxHeaders leftover hs

/-- **The read size does not matter.** From bytes that are partly here already
and partly at hand in the source, heads are read alike, and failures have the
same kind, code and severity, whatever is asked for in one read. -/
theorem readRequestHead_indifferent (leftover data : Bytes) (maxHeaders : Option Int)
    (readSize readSize' : Int) (hsize : 1 ≤ readSize) (hsize' : 1 ≤ readSize') :
    Session.seen RequestHead.whole
        (readRequestHead { readSize := some readSize, maxBufferSize := some 0, maxHeaders }
          leftover (.start (.ofBytes data))) =
      Session.seen RequestHead.whole
        (readRequestHead { readSize := some readSize', maxBufferSize := some 0, maxHeaders }
          leftover (.start (.ofBytes data))) := by
  have hs : (Session.start (.ofBytes data)).AtHand := (Session.atHand_of_eq rfl).1
  rw [seen_readRequestHead hsize maxHeaders leftover hs,
    seen_readRequestHead hsize' maxHeaders leftover hs]

/-- One byte at a time, and all bytes in one read. -/
theorem readRequestHead_indifferent_one_or_all :
    Session.seen RequestHead.whole
        (readRequestHead { readSize := some 1, maxBufferSize := some 0 } (Element.piece ['G'])
          (.start (.ofBytes (Element.piece "ET / HTTP/1.1\r\nA: b\r\n\r\nC".toList)))) =
      Session.seen RequestHead.whole
        (readRequestHead { readSize := some 64, maxBufferSize := some 0 } (Element.piece ['G'])
          (.start (.ofBytes (Element.piece "ET / HTTP/1.1\r\nA: b\r\n\r\nC".toList)))) :=
  readRequestHead_indifferent _ _ none 1 64 (by decide) (by decide)

end StreamGrammar.Http
