import StreamGrammar.Grammar.Complete

/-!
# Reading phases from a stream

A phase runs one parser on a byte source. It keeps all bytes of the phase in a
buffer and parses the whole buffer anew after every read, so a parser needs no
memory between attempts: *truncated* means "read more and ask again", and any
other outcome is final, since a source only ever appends.

What the previous phase left over comes first, and is parsed before anything
is read, so that bytes already here never wait for the source. A read that
brings less than was asked for means that nothing more is there for now; if
the buffer is still incomplete after it, the phase fails.
-/

namespace StreamGrammar

/-- **How a source is read**: so many bytes at a time, and so many in one phase
at most. -/
structure Reader where
  /-- Bytes asked for in one read. -/
  readSize : Nat
  /-- Bytes that one phase may hold; zero for no limit. -/
  maxBufferSize : Nat
  /-- A read asks for something. -/
  readSize_pos : 0 < readSize

/-- A source that is being read, with a record of what happened. -/
structure Session where
  /-- What has not been read. -/
  source : Source
  /-- What happened, in order. -/
  events : Array Event

namespace Session

/-- A source of which nothing has been read. -/
def start (source : Source) : Session := { source, events := #[] }

/-- The session with one more event. -/
def record (s : Session) (e : Event) : Session := { s with events := s.events.push e }

@[simp] theorem source_record (s : Session) (e : Event) : (s.record e).source = s.source := rfl

end Session

/-- The value of a phase and the bytes after its match, where the next phase
starts. -/
structure Phase (α : Type) where
  /-- The value that was parsed. -/
  value : α
  /-- The bytes after the match. -/
  leftover : Bytes

namespace Reader

/-- A reader with settings, or with the defaults for those that are not set. -/
def ofSettings (readSize maxBufferSize : Option Int) : Except Failure Reader :=
  match Limits.resolve readSize Limits.defaultReadSize with
  | .error failure => .error failure
  | .ok readSize =>
    if h : 0 < readSize then
      match Limits.resolve maxBufferSize Limits.maxBufferSize with
      | .error failure => .error failure
      | .ok maxBufferSize => .ok { readSize, maxBufferSize, readSize_pos := h }
    else .error (.invalidArgument .zeroReadSize)

/-- The failure of a phase that holds too much, if it does. -/
def oversized? (r : Reader) (size : Nat) : Option Failure :=
  if r.maxBufferSize ≠ 0 ∧ r.maxBufferSize < size then
    some (.limitExceeded (.diagnosed (.bufferLimitExceeded size r.maxBufferSize)) r.maxBufferSize)
  else none

/-- A buffer after a read. -/
structure Filled where
  /-- All bytes of the phase. -/
  buffer : Bytes
  /-- Whether the read brought less than was asked for. -/
  short : Bool

/-- **Reads once** and appends what came to the buffer. -/
def fill (r : Reader) (buffer : Bytes) (s : Session) : Except Failure Filled × Session :=
  match s.source.read r.readSize with
  | (.error error, later) =>
    (.error (.sourceRead (.diagnosed (.sourceReadFailed error))),
      { s with source := later }.record (.readFailed error))
  | (.ok chunk, later) =>
    let buffer := buffer ++ chunk
    let s := { s with source := later }.record (.read chunk.length buffer.length)
    match r.oversized? buffer.length with
    | some failure => (.error failure, s)
    | none => (.ok { buffer, short := chunk.length < r.readSize }, s)

/-- What is still to come of a phase: the source, and one round more as long as
the source is not known to be exhausted. -/
def pending (short : Bool) (s : Session) : Nat := s.source.weight + if short then 0 else 1

theorem pending_fill {r : Reader} {buffer : Bytes} {s s' : Session} {f : Filled}
    (h : r.fill buffer s = (.ok f, s')) : pending f.short s' < pending false s := by
  unfold fill at h
  split at h
  · simp at h
  · rename_i chunk later hread
    dsimp only at h
    split at h
    · simp at h
    · simp only [Prod.mk.injEq, Except.ok.injEq] at h
      obtain ⟨hf, hs⟩ := h
      subst hf
      subst hs
      simp only [pending, Session.source_record]
      by_cases hsrc : s.source = []
      · rw [hsrc] at hread
        simp only [Source.read_nil, Prod.mk.injEq, Except.ok.injEq] at hread
        obtain ⟨hc, hl⟩ := hread
        subst hc
        subst hl
        simp [r.readSize_pos, hsrc]
      · have hw := Source.weight_read r.readSize_pos hsrc
        rw [hread] at hw
        simp only at hw
        split <;> simp <;> omega

/-- Parses what is buffered, reading on for as long as it is incomplete. -/
def attempt {α : Type} (r : Reader) (p : Parser UInt8 α) (template : Option Template)
    (number : Nat) (buffer : Bytes) (short : Bool) (s : Session) :
    Except Failure (Phase α) × Session :=
  match p (.streaming buffer) with
  | .raised fault => (.error (.unguarded fault), s)
  | .matched value remainder =>
    let s := s.record (.attempt number buffer.length .matched)
    match r.oversized? (buffer.length - remainder.remaining) with
    | some failure => (.error failure, s)
    | none => (.ok { value, leftover := remainder.rest }, s)
  | .rejected reason =>
    let s := (s.record (.attempt number buffer.length .rejected)).record
      (.phaseRejected reason.text)
    let template := template.getD .parseRejected
    (.error (.parse (.diagnosed (template reason.text none)) reason.text false), s)
  | .fatal reason =>
    let s := (s.record (.attempt number buffer.length .fatal)).record (.phaseFailed reason.text)
    let template := template.getD .parseFatal
    (.error (.parse (.diagnosed (template reason.text none)) reason.text true), s)
  | .truncated _ _ =>
    let asked := s.record (.attempt number buffer.length .truncated)
    match r.oversized? buffer.length with
    | some failure => (.error failure, asked)
    | none =>
      if _hshort : short then
        (.error (.incomplete (.diagnosed (.incompleteInput buffer.length none))
          "input ended before it could be parsed" false),
          asked.record (.exhausted buffer.length))
      else
        match hfill : r.fill buffer asked with
        | (.error failure, after) => (.error failure, after)
        | (.ok filled, after) =>
          attempt r p template (number + 1) filled.buffer filled.short after
termination_by pending short s
decreasing_by
  have h := pending_fill hfill
  simpa [pending, _hshort, asked] using h

/-- **Runs one phase** of a parser, on what the last phase left over and what
the source brings. -/
def phase {α : Type} (r : Reader) (p : Parser UInt8 α) (leftover : Bytes)
    (template : Option Template) (s : Session) : Except Failure (Phase α) × Session :=
  if leftover.isEmpty then
    match r.fill leftover s with
    | (.error failure, s) => (.error failure, s)
    | (.ok filled, s) => r.attempt p template 1 filled.buffer filled.short s
  else r.attempt p template 1 leftover false s

/-- Runs one phase of a grammar. -/
def run {α : Type} (r : Reader) (g : Grammar UInt8 α) (leftover : Bytes)
    (template : Option Template) (s : Session) : Except Failure (Phase α) × Session :=
  r.phase g.run leftover template s

end Reader

end StreamGrammar
