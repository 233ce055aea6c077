import StreamGrammar.Grammar.Outcome
import StreamGrammar.Stream.Source

/-!
# Events

Operations leave a record of what they did. It is a list of events, each of
which knows how important it is, which part of the library it comes from, and
how it is worded.
-/

namespace StreamGrammar

/-- The three parts of a request head, each read in phases of its own. -/
inductive RequestPhase where
  /-- The first line. -/
  | requestLine
  /-- The header lines. -/
  | headers
  /-- The blank line. -/
  | divider
deriving DecidableEq

/-- The name of a part of a request head. -/
def RequestPhase.name : RequestPhase → String
  | requestLine => "request_line"
  | headers => "headers"
  | divider => "divider"

/-- **Something that happened.** -/
inductive Event where
  /-- A nesting depth was asked for that a stack of so many frames does not bear. -/
  | depthClamped (requested granted : Int) (frames : Nat)
  /-- A complete source was rejected. -/
  | sourceRejected (reason : Text)
  /-- A complete source failed for good. -/
  | sourceFailed (reason : Text)
  /-- The buffered bytes were parsed, for the `number`th time in a phase. -/
  | attempt (number size : Nat) (kind : OutcomeKind)
  /-- So many bytes arrived, and so many are buffered now. -/
  | read (size total : Nat)
  /-- A read failed. -/
  | readFailed (error : ReadError)
  /-- The source ended with the input incomplete. -/
  | exhausted (size : Nat)
  /-- The buffered bytes were rejected. -/
  | phaseRejected (reason : Text)
  /-- The buffered bytes failed for good. -/
  | phaseFailed (reason : Text)
  /-- A part of a request head is being read. -/
  | reading (phase : RequestPhase)
  /-- A request head was read. -/
  | headComplete (method target : Text) (headers : Nat)

/-- How important an event is. -/
inductive Importance where
  /-- Of use when something has to be found out. -/
  | debug
  /-- Something is amiss. -/
  | warning
deriving DecidableEq

/-- The parts of the library that events come from. -/
inductive Origin where
  /-- The guards on depth and size. -/
  | limits
  /-- Parsing of complete sources. -/
  | complete
  /-- Reading of streams. -/
  | stream
  /-- Reading of request heads. -/
  | http
deriving DecidableEq

namespace Event

/-- How important an event is. -/
def importance : Event → Importance
  | depthClamped _ _ _ | readFailed _ | exhausted _ | phaseRejected _ | phaseFailed _ => .warning
  | _ => .debug

/-- Where an event comes from. -/
def origin : Event → Origin
  | depthClamped _ _ _ => .limits
  | sourceRejected _ | sourceFailed _ => .complete
  | reading _ | headComplete _ _ _ => .http
  | _ => .stream

/-- The wording of an event. -/
def message : Event → Text
  | depthClamped requested granted frames =>
    Text.concat ["Requested depth ", Numeral.signed requested,
      " exceeds Python recursion limit (", Numeral.decimal frames, "). Clamping to ",
      Numeral.signed granted,
      " to prevent RecursionError. Consider increasing sys.setrecursionlimit() if needed."]
  | sourceRejected reason | phaseRejected reason => Text.concat ["Parse rejected: ", reason]
  | sourceFailed reason | phaseFailed reason => Text.concat ["Parse failed: ", reason]
  | attempt number size kind =>
    Text.concat ["Attempt ", Numeral.decimal number, " over ", Numeral.decimal size,
      " buffered bytes: ", kind.name]
  | read size total =>
    Text.concat ["Read ", Numeral.decimal size, " bytes (buffer now ", Numeral.decimal total, ")"]
  | readFailed error => Text.concat ["Byte source read failed: ", error.message]
  | exhausted size =>
    Text.concat ["Source exhausted after ", Numeral.decimal size,
      " bytes with input incomplete"]
  | reading phase => Text.concat ["Reading ", phase.name]
  | headComplete method target headers =>
    Text.concat ["Request head complete: ", method, " ", target, " (", Numeral.decimal headers,
      " headers)"]

end Event

end StreamGrammar
