import StreamGrammar.Grammar.Basic
import StreamGrammar.Grammar.Choice
import StreamGrammar.Grammar.Repetition

/-!
# Running a grammar

`Grammar.run` is the meaning of a grammar: the outcome at a cursor. Two rules
hold throughout. A fatal outcome, like a raised fault, is passed on by every
combinator at once. And a sequence that is cut short has no partial result,
since a part of it is no value of the whole: it is truncated at its start, to
be tried again from there.
-/

namespace StreamGrammar.Grammar

variable {ε : Type}

/-- The outcome of a matcher that needs an element where none is left: a
rejection if the input is complete, and otherwise not decided yet. -/
def exhausted {α : Type} (c : Cursor ε) (what : Expectation) : Outcome ε α :=
  if c.final then .rejected (.expected what c.pos .endOfInput) else .truncated none c

section Matchers

variable [Element ε]

/-- The outcome of `satisfy`. -/
def runSatisfy (test : ε → Bool) (what : Expectation) (c : Cursor ε) : Outcome ε ε :=
  match c.current? with
  | none => exhausted c what
  | some e =>
    if test e then .matched e (c.advance 1)
    else .rejected (.expected what c.pos (.piece (Element.datum [e])))

/-- The outcome of `literal`. Input that is a proper beginning of the piece may
still grow into it. -/
def runLiteral (expected : List ε) (c : Cursor ε) : Outcome ε (List ε) :=
  let ahead := c.sliceAhead expected.length
  if ahead = expected then .matched expected (c.advance expected.length)
  else if ahead.length < expected.length && !c.final && ahead.isPrefixOf expected then
    .truncated none c
  else
    .rejected (.expected (.exactly (Element.datum expected)) c.pos (.piece (Element.datum ahead)))

/-- The outcome of `take`. -/
def runTake (count : Nat) (c : Cursor ε) : Outcome ε (List ε) :=
  let ahead := c.sliceAhead count
  if ahead.length = count then .matched ahead (c.advance count)
  else if c.final then .rejected (.expected (.count count) c.pos (.count ahead.length))
  else .truncated (some ahead) (c.advance ahead.length)

/-- The outcome of `takeWhile`. A run that reaches the end of input that may
still grow may go on in what comes. -/
def runTakeWhile (test : ε → Bool) (c : Cursor ε) : Outcome ε (List ε) :=
  let stop := c.scan test
  let consumed := c.sliceTo stop
  let remainder := c.advance (stop - c.pos)
  if remainder.atEnd && !c.final then .truncated (some consumed) remainder
  else .matched consumed remainder

/-- The outcome of `takeSomeWhile`. -/
def runTakeSomeWhile (test : ε → Bool) (c : Cursor ε) : Outcome ε (List ε) :=
  match c.current? with
  | none => exhausted c .matching
  | some e =>
    if test e then runTakeWhile test c
    else .rejected (.expected .matching c.pos (.piece (Element.datum [e])))

/-- The outcome of `otherThan`. -/
def runOtherThan (elements : List ε) (c : Cursor ε) : Outcome ε (List ε) :=
  let stop := c.scan fun e => !elements.contains e
  let consumed := c.sliceTo stop
  let remainder := c.advance (stop - c.pos)
  if remainder.atEnd && !c.final then
    .truncated (if consumed.isEmpty then none else some consumed) remainder
  else if consumed.isEmpty then
    .rejected (.expected (.otherThan (Element.datum elements)) c.pos .unsaid)
  else .matched consumed remainder

/-- The outcome of `endOfInput`. -/
def runEndOfInput (c : Cursor ε) : Outcome ε Unit :=
  match c.current? with
  | some e => .rejected (.expected .endOfInput c.pos (.piece (Element.datum [e])))
  | none => if c.final then .matched () c else .truncated none c

end Matchers

variable [Element ε]

/-- **The outcome of a grammar at a cursor.** -/
def run : {α : Type} → Grammar ε α → Cursor ε → Outcome ε α
  | _, satisfy test what, c => runSatisfy test what c
  | _, literal expected, c => runLiteral expected c
  | _, take count, c => runTake count c
  | _, takeWhile test, c => runTakeWhile test c
  | _, takeSomeWhile test, c => runTakeSomeWhile test c
  | _, otherThan elements, c => runOtherThan elements c
  | _, endOfInput, c => runEndOfInput c
  | _, succeed value, c => .matched value c
  | _, undecided best count, c => .truncated (best.bind Vacancy.toPartial) (c.advance count)
  | _, map f p, c =>
    match run p c with
    | .matched value remainder => .matched (f value) remainder
    | .rejected reason => .rejected reason
    | .fatal reason => .fatal reason
    | .truncated none _ => .truncated none c
    | .truncated (some best) remainder => .truncated (Vacancy.toPartial (f best)) remainder
    | .raised fault => .raised fault
  | _, mapRaising f p, c =>
    match run p c with
    | .matched value remainder =>
      match f value with
      | .ok converted => .matched converted remainder
      | .error fault => .raised fault
    | .rejected reason => .rejected reason
    | .fatal reason => .fatal reason
    | .truncated none _ => .truncated none c
    | .truncated (some best) remainder =>
      match f best with
      | .ok converted => .truncated (Vacancy.toPartial converted) remainder
      | .error fault => .raised fault
    | .raised fault => .raised fault
  | _, recast f p, c => (run p c).map f
  | _, judge refusal verdict p, c =>
    match run p c with
    | .matched value remainder =>
      match verdict value with
      | .ok accepted => .matched accepted remainder
      | .error reason => refusal.outcome (reason c.pos)
    | .rejected reason => .rejected reason
    | .fatal reason => .fatal reason
    | .truncated _ _ => .truncated none c
    | .raised fault => .raised fault
  | _, bind p next, c =>
    match run p c with
    | .matched value middle =>
      match run (next value) middle with
      | .truncated _ _ => .truncated none c
      | decided => decided
    | .rejected reason => .rejected reason
    | .fatal reason => .fatal reason
    | .truncated _ _ => .truncated none c
    | .raised fault => .raised fault
  | _, optional p, c =>
    match run p c with
    | .matched value remainder => .matched (some value) remainder
    | .rejected _ => .matched none c
    | .fatal reason => .fatal reason
    | .truncated best remainder => .truncated (best.map some) remainder
    | .raised fault => .raised fault
  | _, either first second, c => Choice.either (run first) (run second) c
  | _, alt first second, c => Choice.alt (run first) (run second) c
  | _, noAlternative, c => Choice.noAlternative c
  | _, peek p, c =>
    match run p c with
    | .matched value _ => .matched value c
    | outcome => outcome
  | _, pipe outer inner, c =>
    match run outer c with
    | .matched piece remainder =>
      match run inner (.complete piece) with
      | .matched value _ => .matched value remainder
      | .rejected reason => .rejected reason
      | .fatal reason => .fatal reason
      | .truncated _ _ => .fatal (.incomplete (Element.datum piece) c.pos)
      | .raised fault => .raised fault
    | .rejected reason => .rejected reason
    | .fatal reason => .fatal reason
    | .truncated _ _ => .truncated none c
    | .raised fault => .raised fault
  | _, repeatAny p, c => Repetition.collect (run p) [] c
  | _, repeatSome p, c =>
    match Repetition.collect (run p) [] c with
    | .matched [] _ => .rejected (.expected .repetition c.pos .unsaid)
    | outcome => outcome
  | _, separatedItems separator item, c =>
    Repetition.collectSeparated (run separator) (run item) [] c c
  | _, label p name, c =>
    match run p c with
    | .rejected reason => .rejected (.labelled name reason)
    | .fatal reason => .fatal (.labelledFatal name reason)
    | outcome => outcome
  | _, halt name p, c =>
    match run p c with
    | .rejected reason => .fatal (.halted name c.pos reason)
    | outcome => outcome
  | _, acceptLimit p, c =>
    match run p c with
    | .truncated none _ => .rejected (.ended c.pos)
    | .truncated (some best) remainder => .matched best remainder
    | outcome => outcome

/-- A choice over a list of grammars is the choice over their parsers. -/
theorem run_eitherOf {α : Type} (choices : List (Grammar ε α)) :
    (eitherOf choices).run = Choice.eitherOf (choices.map run) := by
  induction choices with
  | nil => rfl
  | cons p choices ih =>
    show Choice.alt p.run (eitherOf choices).run = Choice.alt p.run _
    rw [ih]
    rfl

end StreamGrammar.Grammar
