import StreamGrammar.Http.Head
import StreamGrammar.Proofs.Http.HeaderLines
import StreamGrammar.Stream.Reader

/-!
# Reading request heads

A head is read in phases: the first line, then one phase for each header line
until the blank line shows, then the blank line. Each phase starts from what
the last one left over, so no byte is read twice, and none is read that the
head does not need. What follows the head is handed back as the start of the
body.
-/

namespace StreamGrammar.Http

/-- How much of a head is accepted. -/
structure HeadSettings where
  /-- Bytes asked for in one read. -/
  readSize : Option Int := none
  /-- Bytes that one phase may hold; zero for no limit. -/
  maxBufferSize : Option Int := none
  /-- The greatest number of headers; zero for no limit. -/
  maxHeaders : Option Int := none

/-- **Reads header lines** until the blank line shows, after the headers that
were read already. A header line is never empty, so that fewer and fewer bytes
are to come, here and in the source. -/
def readHeaders (r : Reader) (maxHeaders : Nat) (headers : Entries Text Text) (rest : Bytes)
    (s : Session) : Except Failure (Entries Text Text × Bytes) × Session :=
  match _hrun : r.run headerEntry rest (some fun reason _ => .malformedHeader reason) s with
  | (.error failure, after) => (.error failure, after)
  | (.ok { value := none, leftover }, after) => (.ok (headers, leftover), after)
  | (.ok { value := some (name, value), leftover }, after) =>
    if (headers.get? name).isSome then
      (.error (.duplicateHeader (.diagnosed (.duplicateHeader name)) name), after)
    else if maxHeaders ≠ 0 ∧ maxHeaders ≤ headers.length then
      (.error (.limitExceeded (.diagnosed (.headerLimitExceeded maxHeaders)) maxHeaders), after)
    else readHeaders r maxHeaders (headers.put name value) leftover after
termination_by rest.length + s.source.weight
decreasing_by exact run_headerEntry_lt _hrun

section Equations

variable {r : Reader} {maxHeaders : Nat} {headers : Entries Text Text} {rest leftover : Bytes}
  {s after : Session}

theorem readHeaders_of_error {failure : Failure}
    (h : r.run headerEntry rest (some fun reason _ => .malformedHeader reason) s =
      (.error failure, after)) :
    readHeaders r maxHeaders headers rest s = (.error failure, after) := by
  rw [readHeaders]
  split <;> simp_all

theorem readHeaders_of_none
    (h : r.run headerEntry rest (some fun reason _ => .malformedHeader reason) s =
      (.ok { value := none, leftover }, after)) :
    readHeaders r maxHeaders headers rest s = (.ok (headers, leftover), after) := by
  rw [readHeaders]
  split <;> simp_all

theorem readHeaders_of_some {name value : Text}
    (h : r.run headerEntry rest (some fun reason _ => .malformedHeader reason) s =
      (.ok { value := some (name, value), leftover }, after)) :
    readHeaders r maxHeaders headers rest s =
      if (headers.get? name).isSome then
        (.error (.duplicateHeader (.diagnosed (.duplicateHeader name)) name), after)
      else if maxHeaders ≠ 0 ∧ maxHeaders ≤ headers.length then
        (.error (.limitExceeded (.diagnosed (.headerLimitExceeded maxHeaders)) maxHeaders), after)
      else readHeaders r maxHeaders (headers.put name value) leftover after := by
  rw [readHeaders]
  split <;> simp_all

end Equations

/-- Reads the phases of a head, one after another. -/
def readPhases (r : Reader) (maxHeaders : Nat) (leftover : Bytes) (s : Session) :
    Except Failure RequestHead × Session :=
  match
    r.run requestLine leftover (some fun reason _ => .malformedRequestLine reason)
      (s.record (.reading .requestLine))
  with
  | (.error failure, s) => (.error failure, s)
  | (.ok { value := (method, target, version), leftover }, s) =>
    match readHeaders r maxHeaders [] leftover (s.record (.reading .headers)) with
    | (.error failure, s) => (.error failure, s)
    | (.ok (headers, leftover), s) =>
      match
        r.run divider leftover (some fun reason _ => .missingDivider reason)
          (s.record (.reading .divider))
      with
      | (.error failure, s) => (.error failure, s)
      | (.ok { leftover, .. }, s) =>
        (.ok { method, target, version, headers, body := leftover },
          s.record (.headComplete method target headers.length))

/-- **Reads a request head** from a source, after bytes that are here
already. -/
def readRequestHead (settings : HeadSettings) (leftover : Bytes) (s : Session) :
    Except Failure RequestHead × Session :=
  match Limits.resolve settings.maxHeaders Limits.maxHeaderCount with
  | .error failure => (.error failure, s)
  | .ok maxHeaders =>
    match Reader.ofSettings settings.readSize settings.maxBufferSize with
    | .error failure => (.error failure, s)
    | .ok r => readPhases r maxHeaders leftover s

/-- **The request head at the start of bytes** that are all there. -/
def parseRequestHead (settings : HeadSettings) (data : Bytes) :
    Except Failure RequestHead × Session :=
  readRequestHead { settings with readSize := none } data (.start [])

end StreamGrammar.Http
