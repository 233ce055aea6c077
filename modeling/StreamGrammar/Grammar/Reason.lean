import StreamGrammar.Element

/-!
# Reasons

A parser that does not match gives a reason. Rejections are frequent – every
alternative that is tried and given up is one – so a reason is a small tree of
causes, and its wording is only made up when somebody reads it.

The tree grows at the outside: `labelled` and `halted` wrap the reason of the
construct that they name, and nothing else in the engine rewrites a reason.
-/

namespace StreamGrammar

/-- What a matcher looks for. -/
inductive Expectation where
  /-- An element, whichever it is. -/
  | anyElement
  /-- Something that a grammar has a name for. -/
  | named (name : Text)
  /-- This piece of input. -/
  | exactly (piece : Datum)
  /-- An element out of these. -/
  | oneOf (elements : Datum)
  /-- An element that is none of these. -/
  | otherThan (elements : Datum)
  /-- An element that passes a test. -/
  | matching
  /-- So many elements. -/
  | count (n : Nat)
  /-- The end of input. -/
  | endOfInput
  /-- A first repetition. -/
  | repetition

/-- What a matcher found instead. -/
inductive Found where
  /-- The reason does not say. -/
  | unsaid
  /-- The end of input. -/
  | endOfInput
  /-- This piece of input. -/
  | piece (value : Datum)
  /-- So many elements. -/
  | count (n : Nat)

/-- **Why a parser does not match.** Positions are those of the cursor that
the parser ran at. -/
inductive Reason where
  /-- A matcher did not find what it looks for. -/
  | expected (what : Expectation) (pos : Nat) (found : Found)
  /-- A conversion refused the value that was matched. -/
  | invalid (label : Text) (value : Datum) (pos : Nat) (fault : Fault)
  /-- A grammar refused what was matched, in its own words. -/
  | refused (what : Text) (pos : Nat)
  /-- Every alternative rejected. -/
  | noAlternative (pos : Nat)
  /-- The inner parser of a pipe wants more than the piece it was given. -/
  | incomplete (piece : Datum) (pos : Nat)
  /-- The input ended, and no partial result could be accepted. -/
  | ended (pos : Nat)
  /-- The construct of this name rejected. -/
  | labelled (name : Text) (inner : Reason)
  /-- The construct of this name failed for good. -/
  | labelledFatal (name : Text) (inner : Reason)
  /-- The construct of this name, to which the grammar was committed, rejected. -/
  | halted (name : Text) (pos : Nat) (inner : Reason)

/-- What is looked for, in words. -/
def Expectation.text : Expectation → Text
  | .anyElement => "any element"
  | .named name => name
  | .exactly piece => piece.display
  | .oneOf elements => Text.concat ["one of ", elements.display]
  | .otherThan elements => Text.concat ["an element other than ", elements.display]
  | .matching => "at least one matching element"
  | .count n => Text.concat [Numeral.decimal n, " elements"]
  | .endOfInput => "end of input"
  | .repetition => "at least one repetition"

/-- What was found, in words that follow the position. -/
def Found.text : Found → Text
  | .unsaid => []
  | .endOfInput => ", found end of input"
  | .piece value => Text.concat [", found ", value.display]
  | .count n => Text.concat [", found ", Numeral.decimal n]

/-- **The wording of a reason.** -/
def Reason.text : Reason → Text
  | .expected what pos found =>
    Text.concat ["Expected ", what.text, " at position ", Numeral.decimal pos, found.text]
  | .invalid label value pos fault =>
    Text.concat ["Invalid ", label, " ", value.display, " at position ", Numeral.decimal pos,
      ": ", fault.message]
  | .refused what pos => Text.concat [what, " at position ", Numeral.decimal pos]
  | .noAlternative pos => Text.concat ["No alternative matched at position ", Numeral.decimal pos]
  | .incomplete piece pos =>
    Text.concat ["Incomplete ", piece.display, " at position ", Numeral.decimal pos]
  | .ended pos =>
    Text.concat ["Input ended at position ", Numeral.decimal pos, " before a match"]
  | .labelled name inner => Text.concat ["Error parsing ", name, ": ", inner.text]
  | .labelledFatal name inner => Text.concat ["Halted at parsing ", name, ": ", inner.text]
  | .halted name pos inner =>
    Text.concat ["Halted ", name, " at position ", Numeral.decimal pos, ": ", inner.text]

end StreamGrammar
