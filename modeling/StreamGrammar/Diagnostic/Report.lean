import StreamGrammar.Diagnostic.Basic

/-!
# Reports

A diagnostic is reported in one of three layouts: a block of lines in the
manner of a compiler, one line, or a JSON object for tools. Quoted input can be
cut to a length so that a report does not carry request data into a log; the
cut applies to the message and the reason.
-/

namespace StreamGrammar

/-- The layouts of a report. -/
inductive Layout where
  /-- A block of lines. -/
  | block
  /-- One line. -/
  | line
  /-- A JSON object. -/
  | json
deriving DecidableEq

/-- The layout of a name. -/
def Layout.ofName (name : Text) : Except InvalidArgument Layout :=
  if name = Text.ofString "rust" then .ok .block
  else if name = Text.ofString "simple" then .ok .line
  else if name = Text.ofString "json" then .ok .json
  else .error (.unknownLayout name)

/-- **How diagnostics are reported.** -/
structure Reporter where
  /-- The layout. -/
  layout : Layout := .block
  /-- Whether messages and reasons are cut. -/
  sanitize : Bool := false
  /-- The length to which they are cut; below zero, how much is cut off. -/
  maxContentLength : Int := 100

namespace Reporter

/-- A text cut to the greatest length, with dots for what is missing. -/
def cut (r : Reporter) (t : Text) : Text :=
  if r.sanitize ∧ r.maxContentLength < t.length then
    let kept := if r.maxContentLength < 0 then r.maxContentLength + t.length else r.maxContentLength
    t.take kept.toNat ++ "..."
  else t

/-- A text that is there and not empty. -/
def nonempty (t : Option Text) : Option Text := t.filter fun s => !s.isEmpty

/-! ## The JSON layout -/

/-- One code point inside a JSON string: quote, backslash and the control
characters are escaped, all else stands for itself. -/
def escapeOne (c : CodePoint) : Text :=
  if c.val = 34 then Text.ofChars ['\\', '"']
  else if c.val = 92 then Text.ofChars ['\\', '\\']
  else if c.val = 10 then Text.ofChars ['\\', 'n']
  else if c.val = 13 then Text.ofChars ['\\', 'r']
  else if c.val = 9 then Text.ofChars ['\\', 't']
  else if c.val = 8 then Text.ofChars ['\\', 'b']
  else if c.val = 12 then Text.ofChars ['\\', 'f']
  else if c.val < 0x20 then Text.ofChars ['\\', 'u'] ++ Numeral.hex false 4 c.val
  else [c]

/-- A JSON string. -/
def quote (t : Text) : Text := Text.concat ["\"", t.flatMap escapeOne, "\""]

/-- The members of the JSON layout, each with its written value. -/
def members (r : Reporter) (d : Diagnostic) : List (Text × Text) :=
  let head : List (Text × Text) :=
    [("code", quote d.code.name), ("code_value", Numeral.decimal d.code.number),
      ("message", quote (r.cut d.message)), ("severity", quote d.severity.name)]
  let place : List (Text × Text) :=
    match d.span with
    | some s =>
      [("line", Numeral.decimal s.line), ("column", Numeral.decimal s.column),
        ("start", Numeral.decimal s.start), ("end", Numeral.decimal s.stop)]
    | none => []
  let reason : List (Text × Text) :=
    match nonempty d.reason with
    | some reason => [("reason", quote (r.cut reason))]
    | none => []
  let hint : List (Text × Text) :=
    match nonempty d.hint with
    | some hint => [("hint", quote hint)]
    | none => []
  head ++ place ++ reason ++ hint

/-- A JSON object of written members. -/
def object (ms : List (Text × Text)) : Text :=
  Text.concat ["\x7b",
    Text.joinWith ", " (ms.map fun m => Text.concat [quote m.1, ": ", m.2]), "\x7d"]

/-! ## All layouts -/

/-- The lines of the block layout. -/
def lines (r : Reporter) (d : Diagnostic) : List Text :=
  let head := Text.concat [d.severity.name, "[", d.code.name, "]: ", r.cut d.message]
  let place :=
    match d.span with
    | some s =>
      [Text.concat ["  --> line ", Numeral.decimal s.line, ", column ", Numeral.decimal s.column]]
    | none => []
  let reason :=
    match nonempty d.reason with
    | some reason => [Text.concat ["  = reason: ", r.cut reason]]
    | none => []
  let hint :=
    match nonempty d.hint with
    | some hint => [Text.concat ["  = help: ", hint]]
    | none => []
  head :: (place ++ reason ++ hint)

/-- **The report of a diagnostic.** -/
def report (r : Reporter) (d : Diagnostic) : Text :=
  match r.layout with
  | .block => Text.joinWith "\n" (r.lines d)
  | .line => Text.concat [d.code.name, ": ", r.cut d.message]
  | .json => object (r.members d)

/-- The reports of several diagnostics, with a blank line between them. -/
def reportAll (r : Reporter) (ds : List Diagnostic) : Text :=
  Text.joinWith "\n\n" (ds.map r.report)

end Reporter

/-- The report of a diagnostic in full, as a block of lines. -/
def Diagnostic.report (d : Diagnostic) : Text := Reporter.report {} d

end StreamGrammar
