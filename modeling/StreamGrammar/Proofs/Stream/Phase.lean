import StreamGrammar.Proofs.Grammar.Final
import StreamGrammar.Stream.Reader

/-!
# A phase comes to what its parser makes of the whole

A phase sees its input in pieces, and which pieces depends on how much is read
at a time. It must not matter. For a parser whose decisions are final it does
not: the first decision on a beginning is the decision on all bytes there are,
and a phase that ends undecided has seen all of them.

This is stated for a source whose bytes are all at hand and without a limit on
the buffer. The verdict on the whole – what was left over followed by what the
source holds – then determines how the phase ends (`Reader.concludes_phase`). A
match leaves what the verdict leaves, part of it in the leftover and part of it
still unread, and nothing else tells where the reads fell.

Of any source, any limit and any parser, `Reader.phase_stops` says what a phase
has read when it stops, that it has not read it twice, and that its end is the
parser's outcome on just these bytes, unless a read or a limit has stopped it.
-/

namespace StreamGrammar

variable {α β γ : Type}

/-! ## Bytes at hand -/

namespace Source

/-- **The source of bytes that are all at hand.** A read gives as many bytes as
it asks for, as long as there are so many. -/
def ofBytes (data : Bytes) : Source := if data.isEmpty then [] else [.chunk data]

/-- What reading does to bytes at hand, which is all there is to know of them. -/
theorem read_ofBytes (n : Nat) (data : Bytes) :
    (ofBytes data).read n = (.ok (data.take n), ofBytes (data.drop n)) := by
  cases data with
  | nil => simp [ofBytes, read]
  | cons b data => rfl

@[simp] theorem bytes_ofBytes (data : Bytes) : (ofBytes data).bytes = data := by
  cases data with
  | nil => rfl
  | cons b data => simp [ofBytes, bytes]

/-- What a read gives was still to come. -/
theorem weight_of_read {n : Nat} {s later : Source} {b : Bytes}
    (h : s.read n = (.ok b, later)) : b.length + later.weight ≤ s.weight := by
  match s with
  | [] =>
    simp only [read, Prod.mk.injEq, Except.ok.injEq] at h
    simp [← h.1, ← h.2]
  | .failure e :: _ => simp [read] at h
  | .chunk c :: rest =>
    simp only [read, Prod.mk.injEq, Except.ok.injEq] at h
    rw [← h.1, ← h.2, List.length_take]
    split
    · simp only [weight]
      omega
    · simp only [weight, List.length_drop]
      omega

/-- A read that fails takes no bytes. -/
theorem of_read_error {n : Nat} {s later : Source} {error : ReadError}
    (h : s.read n = (.error error, later)) :
    s.bytes = later.bytes ∧ later.weight ≤ s.weight := by
  match s with
  | [] => simp [read] at h
  | .chunk _ :: _ => simp [read] at h
  | .failure _ :: rest =>
    simp only [read, Prod.mk.injEq] at h
    rw [← h.2]
    exact ⟨rfl, Nat.le_add_left _ _⟩

end Source

/-- The bytes of the source are all at hand. -/
def Session.AtHand (s : Session) : Prop := s.source = .ofBytes s.source.bytes

theorem Session.atHand_of_eq {s : Session} {data : Bytes} (h : s.source = .ofBytes data) :
    s.AtHand ∧ s.source.bytes = data := by
  rw [Session.AtHand, h, Source.bytes_ofBytes]
  exact ⟨rfl, rfl⟩

theorem Session.atHand_record {s : Session} {e : Event} : (s.record e).AtHand ↔ s.AtHand :=
  Iff.rfl

/-! ## What a caller can tell of a failure -/

namespace Failure

/-- The kinds of failure. -/
inductive Kind where
  | general | parse | incomplete | duplicateHeader | sourceRead | limitExceeded
  | invalidArgument | unguarded | unwritable | endOfInput
deriving DecidableEq

/-- The kind of a failure. -/
def kind : Failure → Kind
  | general _ => .general
  | parse _ _ _ => .parse
  | incomplete _ _ _ => .incomplete
  | duplicateHeader _ _ => .duplicateHeader
  | sourceRead _ => .sourceRead
  | limitExceeded _ _ => .limitExceeded
  | invalidArgument _ => .invalidArgument
  | unguarded _ => .unguarded
  | unwritable _ => .unwritable
  | endOfInput _ => .endOfInput

/-- **What programs tell failures apart by.** Reasons and messages are for
people, and quote positions. -/
structure Outline where
  /-- Its kind. -/
  kind : Kind
  /-- The code of its diagnostic, if it carries one. -/
  code : Option DiagnosticCode
  /-- Whether the input is malformed, for the failures of a parse. -/
  fatal : Option Bool
deriving DecidableEq

/-- **The input is refused**, and not just incomplete, or out of reach, or too
much. -/
def Refuses (f : Failure) : Prop := f.kind = .parse ∨ f.kind = .duplicateHeader

/-- The outline of a failure. -/
def outline (f : Failure) : Outline :=
  { kind := f.kind, code := f.diagnostic?.map Diagnostic.code, fatal := f.fatal? }

end Failure

/-- **What a reading comes to for its caller**: a value put together with all
bytes that are still unread, or the outline of a failure. -/
def Session.seen (whole : β → Bytes → γ) : Except Failure β × Session → Except Failure.Outline γ
  | (.ok value, s) => .ok (whole value s.source.bytes)
  | (.error failure, _) => .error failure.outline

/-- The value of a phase with all bytes after the match, read or unread. -/
def Phase.whole (p : Phase α) (unread : Bytes) : α × Bytes := (p.value, p.leftover ++ unread)

/-- What a phase comes to after a verdict on all bytes there are, if refusals
carry this code. -/
def Verdict.conclusion (code : DiagnosticCode) :
    Verdict UInt8 α → Except Failure.Outline (α × Bytes)
  | .matched value rest => .ok (value, rest)
  | .rejected => .error { kind := .parse, code := some code, fatal := some false }
  | .fatal => .error { kind := .parse, code := some code, fatal := some true }
  | .truncated _ _ =>
    .error { kind := .incomplete, code := some .incompleteInput, fatal := some false }
  | .raised fault => .error (Failure.unguarded fault).outline

namespace Reader

variable {r : Reader} {p : Parser UInt8 α} {template : Option Template}

/-! ## Phases over bytes at hand -/

theorem oversized?_unlimited (h : r.maxBufferSize = 0) (size : Nat) : r.oversized? size = none :=
  if_neg fun hc => hc.1 h

/-- A read of bytes at hand brings the next of them, and is short only if there
are no more. -/
theorem fill_atHand (h : r.maxBufferSize = 0) (buffer : Bytes) {s : Session} (hs : s.AtHand) :
    ∃ filled after, r.fill buffer s = (.ok filled, after) ∧ after.AtHand ∧
      filled.buffer ++ after.source.bytes = buffer ++ s.source.bytes ∧
      (filled.short = true → after.source.bytes = []) := by
  rw [fill, hs, Source.read_ofBytes]
  simp only [oversized?_unlimited h]
  refine ⟨_, _, rfl, (Session.atHand_of_eq rfl).1, ?_, fun hshort => ?_⟩
  · simp [List.take_append_drop]
  · simp only [List.length_take, decide_eq_true_eq] at hshort
    simp only [Session.source_record, Source.bytes_ofBytes]
    exact List.drop_eq_nil_of_le (by omega)

/-- **How a phase may end** after a verdict on all bytes there are. -/
inductive Concludes (template : Option Template) :
    Verdict UInt8 α → Except Failure (Phase α) × Session → Prop
  /-- A match leaves what the verdict leaves, read or unread. -/
  | matched {value : α} {leftover rest : Bytes} {after : Session} (hafter : after.AtHand)
      (hrest : leftover ++ after.source.bytes = rest) :
      Concludes template (.matched value rest) (.ok { value, leftover }, after)
  /-- A rejection is a failure that is not fatal. -/
  | rejected (reason : Text) (after : Session) :
      Concludes template .rejected
        (.error (.parse (.diagnosed (template.getD .parseRejected reason none)) reason false),
          after)
  /-- Malformed input is a fatal failure. -/
  | fatal (reason : Text) (after : Session) :
      Concludes template .fatal
        (.error (.parse (.diagnosed (template.getD .parseFatal reason none)) reason true), after)
  /-- What is undecided to the end is incomplete. -/
  | truncated (best : Option α) (rest : Bytes) (consumed : Int) (reason : Text)
      (after : Session) :
      Concludes template (.truncated best rest)
        (.error (.incomplete (.diagnosed (.incompleteInput consumed none)) reason false), after)

/-- **The loop of a phase ends as the verdict on the whole says**, whatever is
buffered when it starts. It goes on only while the buffer is undecided, and a
short read happens only when no byte is left in the source. -/
theorem concludes_attempt (h : r.maxBufferSize = 0) (hp : p.Steady) (number : Nat)
    (buffer : Bytes) (short : Bool) {s : Session} (hs : s.AtHand)
    (hshort : short = true → s.source.bytes = []) :
    Concludes template (p.verdict false (buffer ++ s.source.bytes))
      (r.attempt p template number buffer short s) := by
  have hrun : ∀ {b : Bytes} {outcome : Outcome UInt8 α}, p (.streaming b) = outcome →
      p.verdict false b = outcome.verdict := fun heq => congrArg Outcome.verdict heq
  fun_induction r.attempt p template number buffer short s with
  | case1 number buffer short s fault heq =>
    exact absurd (hrun heq) ((hp buffer []).ne_raised fault)
  | case2 number buffer short s value remainder heq _ failure hover =>
    rw [oversized?_unlimited h] at hover
    cases hover
  | case3 number buffer short s value remainder heq _ hover =>
    rw [(hp buffer s.source.bytes).of_matched (hrun heq)]
    exact .matched hs rfl
  | case4 number buffer short s reason heq =>
    rw [(hp buffer s.source.bytes).of_rejected (hrun heq)]
    exact .rejected reason.text _
  | case5 number buffer short s reason heq =>
    rw [(hp buffer s.source.bytes).of_fatal (hrun heq)]
    exact .fatal reason.text _
  | case6 number buffer short s best remainder heq asked failure hover =>
    rw [oversized?_unlimited h] at hover
    cases hover
  | case7 number buffer s best remainder heq asked hover =>
    -- nothing is left to read, so the buffer is the whole
    rw [hshort rfl, List.append_nil, hrun heq]
    exact .truncated best _ _ _ _
  | case8 number buffer short s best remainder heq asked hover hsh failure after hfill =>
    obtain ⟨_, _, hfill', _⟩ := fill_atHand h buffer (s := asked) hs
    rw [hfill'] at hfill
    cases hfill
  | case9 number buffer short s best remainder heq asked hover hsh filled after hfill ih =>
    obtain ⟨_, _, hfill', hafter, hwhole, hleft⟩ := fill_atHand h buffer (s := asked) hs
    rw [hfill'] at hfill
    cases hfill
    -- the read moves bytes from the source to the buffer; together they are the same
    rw [show buffer ++ s.source.bytes = buffer ++ asked.source.bytes from rfl, ← hwhole]
    exact ih hafter hleft

/-- **A phase ends as the verdict on the whole says.** -/
theorem concludes_phase (template : Option Template) (h : r.maxBufferSize = 0) (hp : p.Steady)
    (leftover : Bytes) {s : Session} (hs : s.AtHand) :
    Concludes template (p.verdict false (leftover ++ s.source.bytes))
      (r.phase p leftover template s) := by
  rw [phase]
  split
  · obtain ⟨filled, after, hfill, hafter, hwhole, hleft⟩ := fill_atHand h leftover hs
    rw [hfill, ← hwhole]
    exact concludes_attempt h hp 1 filled.buffer filled.short hafter hleft
  · exact concludes_attempt h hp 1 leftover false hs (by simp)

/-- What a phase comes to depends on the verdict alone, if its template always
gives the same code. -/
theorem Concludes.seen {template : Template} {code : DiagnosticCode}
    (hcode : ∀ reason, (template reason none).code = code) {v : Verdict UInt8 α}
    {ended : Except Failure (Phase α) × Session} (h : Concludes (some template) v ended) :
    Session.seen Phase.whole ended = v.conclusion code := by
  cases h with
  | matched hafter hrest => simp [Session.seen, Phase.whole, Verdict.conclusion, hrest]
  | truncated => rfl
  | _ =>
    simp [Session.seen, Verdict.conclusion, Failure.outline, Failure.kind,
      Failure.diagnostic?, Notice.diagnostic?, Failure.fatal?, hcode]

/-- Without a template the code tells rejections from malformed input, and so the
verdict alone decides as well. -/
theorem Concludes.seen_eq {v : Verdict UInt8 α} {ended ended' : Except Failure (Phase α) × Session}
    (h : Concludes none v ended) (h' : Concludes none v ended') :
    Session.seen Phase.whole ended = Session.seen Phase.whole ended' := by
  cases h with
  | matched _ hrest =>
    cases h' with
    | matched _ hrest' => simp [Session.seen, Phase.whole, hrest, hrest']
  | _ => cases h'; rfl

/-! ## Phases over any source -/

theorem kind_of_oversized? {size : Nat} {failure : Failure}
    (h : r.oversized? size = some failure) : failure.kind = .limitExceeded := by
  unfold oversized? at h
  split at h
  · cases h
    rfl
  · cases h

/-- What a read brings comes off the source, and is added to the buffer. A read
that brings nothing to parse has failed, or has brought too much. -/
theorem fill_reads {buffer : Bytes} {s after : Session} {result : Except Failure Filled}
    (h : r.fill buffer s = (result, after)) :
    ∃ chunk, s.source.bytes = chunk ++ after.source.bytes ∧
      chunk.length + after.source.weight ≤ s.source.weight ∧
      match result with
      | .ok filled => filled.buffer = buffer ++ chunk
      | .error failure => failure.kind = .sourceRead ∨ failure.kind = .limitExceeded := by
  unfold fill at h
  split at h
  · rename_i error later hread
    cases h
    obtain ⟨hbytes, hweight⟩ := Source.of_read_error hread
    exact ⟨[], hbytes, by simpa using hweight, .inl rfl⟩
  · rename_i chunk later hread
    have hbytes := Source.bytes_of_read hread
    have hweight := Source.weight_of_read hread
    dsimp only at h
    split at h
    · rename_i failure hover
      cases h
      exact ⟨chunk, hbytes, hweight, .inr (kind_of_oversized? hover)⟩
    · cases h
      exact ⟨chunk, hbytes, hweight, rfl⟩

/-- **How a phase may stop** that has these bytes before it. Unless the source
or a limit stops it, it is the parser's outcome on them that does. -/
inductive Stops (p : Parser UInt8 α) (seen : Bytes) : Except Failure (Phase α) → Prop
  /-- A match, and what it leaves. -/
  | matched {value : α} {remainder : Cursor UInt8}
      (h : p (.streaming seen) = .matched value remainder) :
      Stops p seen (.ok { value, leftover := remainder.rest })
  /-- A rejection. -/
  | rejected {reason : Reason} (notice : Notice) (h : p (.streaming seen) = .rejected reason) :
      Stops p seen (.error (.parse notice reason.text false))
  /-- Malformed input. -/
  | fatal {reason : Reason} (notice : Notice) (h : p (.streaming seen) = .fatal reason) :
      Stops p seen (.error (.parse notice reason.text true))
  /-- Nothing decided at the end of the source. -/
  | incomplete {best : Option α} {remainder : Cursor UInt8} (notice : Notice) (reason : Text)
      (h : p (.streaming seen) = .truncated best remainder) :
      Stops p seen (.error (.incomplete notice reason false))
  /-- An unguarded conversion. -/
  | raised {fault : Fault} (h : p (.streaming seen) = .raised fault) :
      Stops p seen (.error (.unguarded fault))
  /-- A read that failed, or more than a phase may hold. -/
  | halted {failure : Failure} (h : failure.kind = .sourceRead ∨ failure.kind = .limitExceeded) :
      Stops p seen (.error failure)

/-- **A phase that started from this buffer has stopped**: what it saw beyond
the buffer came off the source, and nothing else did. -/
def StopsAfter (p : Parser UInt8 α) (buffer : Bytes) (s : Session)
    (ended : Except Failure (Phase α)) (after : Session) : Prop :=
  ∃ read, Stops p (buffer ++ read) ended ∧ s.source.bytes = read ++ after.source.bytes ∧
    read.length + after.source.weight ≤ s.source.weight

section StopsAfter

variable {buffer chunk : Bytes} {s mid after : Session} {ended : Except Failure (Phase α)}

/-- A phase that stops without reading has seen its buffer. -/
theorem Stops.unread (h : Stops p buffer ended) (hs : after.source = s.source) :
    StopsAfter p buffer s ended after :=
  ⟨[], by rwa [List.append_nil], by rw [hs]; rfl, by rw [hs]; simp⟩

/-- What was read before is seen before. -/
theorem StopsAfter.cons (hbytes : s.source.bytes = chunk ++ mid.source.bytes)
    (hweight : chunk.length + mid.source.weight ≤ s.source.weight)
    (h : StopsAfter p (buffer ++ chunk) mid ended after) : StopsAfter p buffer s ended after := by
  obtain ⟨read, hstops, hbytes', hweight'⟩ := h
  refine ⟨chunk ++ read, by rwa [← List.append_assoc], ?_, ?_⟩
  · rw [hbytes, hbytes', List.append_assoc]
  · rw [List.length_append]
    omega

end StopsAfter

/-- **The loop of a phase stops at what it has read**, on top of what was
buffered when it started. -/
theorem attempt_stops {number : Nat} {buffer : Bytes} {short : Bool} {s after : Session}
    {ended : Except Failure (Phase α)}
    (h : r.attempt p template number buffer short s = (ended, after)) :
    StopsAfter p buffer s ended after := by
  fun_induction r.attempt p template number buffer short s with
  | case1 number buffer short s fault heq =>
    cases h
    exact Stops.unread (.raised heq) rfl
  | case2 number buffer short s value remainder heq asked failure hover =>
    obtain ⟨rfl, rfl⟩ := Prod.mk.inj h
    exact Stops.unread (.halted (.inr (kind_of_oversized? hover))) rfl
  | case3 number buffer short s value remainder heq asked hover =>
    obtain ⟨rfl, rfl⟩ := Prod.mk.inj h
    exact Stops.unread (.matched heq) rfl
  | case4 number buffer short s reason heq =>
    obtain ⟨rfl, rfl⟩ := Prod.mk.inj h
    exact Stops.unread (.rejected _ heq) rfl
  | case5 number buffer short s reason heq =>
    obtain ⟨rfl, rfl⟩ := Prod.mk.inj h
    exact Stops.unread (.fatal _ heq) rfl
  | case6 number buffer short s best remainder heq asked failure hover =>
    obtain ⟨rfl, rfl⟩ := Prod.mk.inj h
    exact Stops.unread (.halted (.inr (kind_of_oversized? hover))) rfl
  | case7 number buffer s best remainder heq asked hover =>
    obtain ⟨rfl, rfl⟩ := Prod.mk.inj h
    exact Stops.unread (.incomplete _ _ heq) rfl
  | case8 number buffer short s best remainder heq asked hover hsh failure mid hfill =>
    cases h
    obtain ⟨chunk, hbytes, hweight, hkind⟩ := fill_reads hfill
    exact ⟨chunk, .halted hkind, hbytes, hweight⟩
  | case9 number buffer short s best remainder heq asked hover hsh filled mid hfill ih =>
    obtain ⟨chunk, hbytes, hweight, hbuffer⟩ := fill_reads hfill
    exact .cons hbytes hweight (hbuffer ▸ ih h)

/-- **A phase stops at what it has read**, on top of what was left over. -/
theorem phase_stops {leftover : Bytes} {s after : Session} {ended : Except Failure (Phase α)}
    (h : r.phase p leftover template s = (ended, after)) :
    StopsAfter p leftover s ended after := by
  rw [phase] at h
  split at h
  · split at h
    · rename_i failure mid hfill
      cases h
      obtain ⟨chunk, hbytes, hweight, hkind⟩ := fill_reads hfill
      exact ⟨chunk, .halted hkind, hbytes, hweight⟩
    · rename_i filled mid hfill
      obtain ⟨chunk, hbytes, hweight, hbuffer⟩ := fill_reads hfill
      exact .cons hbytes hweight (hbuffer ▸ attempt_stops h)
  · exact attempt_stops h

/-- **A phase of a grammar whose decisions are final is right about every
continuation** of what it has read. -/
theorem run_foretells {g : Grammar UInt8 α} (hg : g.Final) {leftover : Bytes}
    {s after : Session} {ended : Except Failure (Phase α)}
    (h : r.run g leftover template s = (ended, after)) :
    ∃ read, s.source.bytes = read ++ after.source.bytes ∧ ∀ more,
      match ended with
      | .ok phase =>
        g.verdict true (leftover ++ read ++ more) = .matched phase.value (phase.leftover ++ more)
      | .error failure => failure.Refuses →
        g.verdict true (leftover ++ read ++ more) = .rejected ∨
          g.verdict true (leftover ++ read ++ more) = .fatal := by
  obtain ⟨read, hstops, hbytes, _⟩ := phase_stops h
  refine ⟨read, hbytes, fun more => ?_⟩
  cases hstops with
  | matched hrun => exact hg.of_matched (congrArg Outcome.verdict hrun)
  | rejected notice hrun => exact fun _ => .inl (hg.of_rejected (congrArg Outcome.verdict hrun))
  | fatal notice hrun => exact fun _ => .inr (hg.of_fatal (congrArg Outcome.verdict hrun))
  | halted hkind =>
    intro hrefuses
    rcases hkind with hkind | hkind <;> simp [Failure.Refuses, hkind] at hrefuses
  | _ => intro hrefuses; simp [Failure.Refuses, Failure.kind] at hrefuses

end Reader

end StreamGrammar
