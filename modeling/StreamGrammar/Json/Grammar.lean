import StreamGrammar.Charset
import StreamGrammar.Grammar.Complete
import StreamGrammar.Json.Value

/-!
# The JSON grammar

The grammar of RFC 8259, over text or bytes. Containers nest to a depth that is
fixed when the grammar is built: a container at the innermost level admits
none inside, where an opening bracket is recognised only to be refused. So the
grammar of depth `n + 1` is made from that of depth `n`, and a document that
nests deeper is malformed rather than a strain on the stack.

Once a string, an escape or a number has begun there is no other way to read
it, so what is wrong inside one is fatal.
-/

namespace StreamGrammar.Json

open Grammar

variable {ε : Type} [Element ε]

/-- The null value is there, like any other. -/
instance : Vacancy Json where

/-! ## Blanks and punctuation -/

/-- Blanks between tokens. -/
def blanks : Grammar ε (List ε) := takeWhile (Element.isIn Charset.jsonWhitespace)

/-- A grammar with blanks on either side. -/
def spaced {α : Type} [Vacancy α] (p : Grammar ε α) : Grammar ε α := between blanks p blanks

/-! ## Strings -/

/-- What the letter of a simple escape stands for. -/
def simpleEscapeValue (n : Nat) : CodePoint :=
  CodePoint.ofNat <|
    if n = 0x62 then 8
    else if n = 0x66 then 12
    else if n = 0x6E then 10
    else if n = 0x72 then 13
    else if n = 0x74 then 9
    else n

/-- An escape by one letter. -/
def simpleEscape : Grammar ε Text :=
  (asciiOf ['"', '\\', '/', 'b', 'f', 'n', 'r', 't']).map fun e =>
    [simpleEscapeValue (Element.code e)]

/-- The number that hexadecimal digits denote. -/
def hexNumber (digits : List ε) : Nat :=
  digits.foldl (fun n e => 16 * n + Charset.hexValue (Element.code e)) 0

/-- The conversion of the four digits of an escape. -/
def hexConversion : Conversion (List ε) Nat where
  label := "unicode escape"
  describe := Element.datum
  convert digits :=
    match Element.decode digits with
    | .error fault => .error fault
    | .ok _ =>
      if digits.all fun e => Charset.isHexDigit (Element.code e) then .ok (hexNumber digits)
      else .error (.stated "expected 4 hexadecimal digits")

/-- Four hexadecimal digits. -/
def hex4 : Grammar ε Nat := convertOrHalt hexConversion (take 4)

/-- The first half of a surrogate pair. -/
def isHighSurrogate (code : Nat) : Bool := 0xD800 ≤ code && code ≤ 0xDBFF

/-- The second half of a surrogate pair. -/
def isLowSurrogate (code : Nat) : Bool := 0xDC00 ≤ code && code ≤ 0xDFFF

/-- The code point of a surrogate pair. -/
def pairValue (high low : Nat) : Nat := 0x10000 + (high - 0xD800) * 1024 + (low - 0xDC00)

/-- What an escape stands for that is the first half of a pair, given the
number of the escape after it if there is one. -/
def joinSurrogates (high : Nat) (low : Option Nat) : Except Text Text :=
  match low with
  | some low =>
    if isLowSurrogate low then .ok [CodePoint.ofNat (pairValue high low)]
    else .error (Text.concat ["Unpaired high surrogate U+", Numeral.hex true 4 high])
  | none => .error (Text.concat ["Unpaired high surrogate U+", Numeral.hex true 4 high])

/-- What an escape stands for that is not the first half of a pair. -/
def loneEscape (code : Nat) : Except Text Text :=
  if isLowSurrogate code then
    .error (Text.concat ["Unpaired low surrogate U+", Numeral.hex true 4 code])
  else .ok [CodePoint.ofNat code]

/-- **An escape by number**, after its `u`: one code point, or the two halves of
a surrogate pair in two escapes. -/
def unicodeEscape : Grammar ε Text :=
  demand <| hex4.bind fun code =>
    if isHighSurrogate code then
      (optional (preceded (token ['\\', 'u']) hex4)).map (joinSurrogates code)
    else succeed (loneEscape code)

/-- An escape. -/
def escape : Grammar ε Text :=
  preceded (ascii '\\')
    (halt "escape sequence" (either simpleEscape (preceded (ascii 'u') unicodeEscape)))

/-- The conversion of the characters of a string that stand for themselves. -/
def rawConversion : Conversion (List ε) Text where
  label := "string characters"
  describe := Element.datum
  convert := Element.decode

/-- Characters of a string that stand for themselves. A control character is
none, so it ends the string, where the closing quote is then missing. -/
def raw : Grammar ε Text :=
  convertOrHalt rawConversion (otherThan (Element.piece ('"' :: '\\' :: Charset.control)))

/-- **A string**, as the text that it stands for. -/
def stringText : Grammar ε Text :=
  (between (ascii '"') (repeatAny (eitherOf [raw, escape])) (ascii '"')).map Text.concat

/-! ## Numbers -/

/-- A run of at least one digit. -/
def digits : Grammar ε (List ε) := takeSomeWhile fun e => Charset.isDigit (Element.code e)

/-- The integer part of a number: a zero, or digits that do not begin with one. -/
def integer : Grammar ε (List ε) :=
  either ((ascii '0').map fun e => [e])
    ((serial (asciiOf ['1', '2', '3', '4', '5', '6', '7', '8', '9'])
      (takeWhile fun e => Charset.isDigit (Element.code e))).map fun v => v.1 :: v.2)

/-- An exponent: its sign, if there is one, and its digits. -/
abbrev Exponent (ε : Type) := Option ε × List ε

/-- The parts of a number: sign, integer part, fraction and exponent. -/
abbrev NumberParts (ε : Type) := Option ε × List ε × Option (List ε) × Option (Exponent ε)

/-- The parts of a number. -/
def numberParts : Grammar ε (NumberParts ε) :=
  serial4 (optional (ascii '-')) integer (optional (preceded (ascii '.') digits))
    (optional
      ((serial3 (asciiOf ['e', 'E']) (optional (asciiOf ['+', '-'])) digits).map fun v => v.2))

/-- The number that decimal digits denote. -/
def decimalNumber (ds : List ε) : Nat :=
  Numeral.ofDigits (ds.map fun e => Element.code e - 48)

/-- The integer that an exponent denotes. -/
def exponentValue (e : Exponent ε) : Int :=
  if e.1 = some (Element.ofAscii '-') then -(decimalNumber e.2 : Int) else decimalNumber e.2

/-- The text of a piece of input that is all ASCII. -/
def asciiText (piece : List ε) : Text := piece.map fun e => CodePoint.ofNat (Element.code e)

/-- The parts of a number as they are shown. -/
def describeNumber (parts : NumberParts ε) : Datum :=
  let (sign, integer, fraction, exponent) := parts
  .tuple [
    .option (fun e => Element.datum [e]) sign,
    Element.datum integer,
    .option Element.datum fraction,
    .option (fun e => .text (CodePoint.ofChar 'e' :: asciiText (e.1.toList ++ e.2))) exponent]

/-- **The value of a number**, whose kind depends on the parts it is written
with. -/
def numberValue (parts : NumberParts ε) : Except Fault Json :=
  let (sign, integer, fraction, exponent) := parts
  if fraction.isNone && exponent.isNone then
    if Numeral.maxDigits < integer.length then .error (.tooManyDigits integer.length)
    else if sign.isSome then .ok (.signed (-(decimalNumber integer : Int)))
    else .ok (.unsigned (decimalNumber integer))
  else
    let places := fraction.getD []
    let exponent := (exponent.map exponentValue).getD 0 - places.length
    let value :=
      Binary64.ofDecimal sign.isSome { digits := decimalNumber (integer ++ places), exponent }
    if value.isFinite then .ok (.float value) else .error (.stated "number out of range")

/-- The conversion of the parts of a number. -/
def numberConversion : Conversion (NumberParts ε) Json where
  label := "number"
  describe := describeNumber
  convert := numberValue

/-- A number. -/
def number : Grammar ε Json := convertOrHalt numberConversion numberParts

/-! ## Containers -/

/-- The beginning of every reason for too deep a nesting. -/
def depthPhrase : Text := "JSON nesting exceeds maximum depth"

/-- An opening bracket where no container is admitted any more. -/
def tooDeep (limit : Nat) : Grammar ε Json :=
  demand ((asciiOf ['[', '\x7b']).map fun _ =>
    .error (Text.concat [depthPhrase, " of ", Numeral.decimal limit]))

/-- An array of some items. -/
def arrayOf (element : Grammar ε Json) : Grammar ε Json :=
  (between (ascii '[') (separatedItems (ascii ',') element)
    (preceded blanks (ascii ']'))).map fun items => .array items

/-- A member of an object: a key, a colon and an item. -/
def member (element : Grammar ε Json) : Grammar ε (Text × Json) :=
  around (spaced stringText) (ascii ':') element

/-- An object whose members are some items. -/
def objectOf (element : Grammar ε Json) : Grammar ε Json :=
  (between (ascii '\x7b') (separatedItems (ascii ',') (member element))
    (preceded blanks (ascii '\x7d'))).map fun members => .object (Entries.ofPairs members)

/-- A value, given the grammar of containers. -/
def valueWith (container : Grammar ε Json) : Grammar ε Json :=
  eitherOf [
    stringText.map .string,
    number,
    container,
    (token ['t', 'r', 'u', 'e']).map fun _ => .bool true,
    (token ['f', 'a', 'l', 's', 'e']).map fun _ => .bool false,
    (token ['n', 'u', 'l', 'l']).map fun _ => .null]

/-- **A container** within which containers nest so many levels deep, under a
limit that the refusal names. -/
def container (limit : Nat) : (levels : Nat) → Grammar ε Json
  | 0 => tooDeep limit
  | levels + 1 =>
    let element := spaced (valueWith (container limit levels))
    eitherOf [objectOf element, arrayOf element]

/-- A value under a limit on nesting, without blanks around it. -/
def value (limit : Nat) : Grammar ε Json := valueWith (container limit limit)

/-- **A document**: a container, after blanks. It ends at its closing bracket,
so that a reader need not look past it. -/
def document (limit : Nat) : Grammar ε Json := preceded blanks (container limit limit)

/-- A whole JSON text: a value with blanks around it. -/
def text (limit : Nat) : Grammar ε Json := spaced (value limit)

/-! ## The limit on nesting -/

/-- The limit on nesting as it was set, lowered to what the stack bears. -/
def resolveLimit (maxDepth : Option Int) (frames : Nat := Limits.stackFrames) :
    Except Failure Nat :=
  match Limits.resolveDepth maxDepth with
  | .error failure => .error failure
  | .ok depth =>
    .ok (Limits.clampDepth depth Limits.framesPerJsonLevel Limits.reservedFrames frames).toNat

/-- What is recorded when the limit on nesting is set. -/
def limitEvents (maxDepth : Option Int) (frames : Nat := Limits.stackFrames) : List Event :=
  match Limits.resolveDepth maxDepth with
  | .error _ => []
  | .ok depth => Limits.clampEvents depth Limits.framesPerJsonLevel Limits.reservedFrames frames

/-- Several limits on nesting, set one after another up to the first that is
refused, and what is recorded of those before it. -/
def resolveLimits (maxDepths : List (Option Int)) (frames : Nat := Limits.stackFrames) :
    Except Failure (List Nat) × List Event :=
  match maxDepths with
  | [] => (.ok [], [])
  | maxDepth :: rest =>
    match resolveLimit maxDepth frames with
    | .error failure => (.error failure, [])
    | .ok limit =>
      let (limits, events) := resolveLimits rest frames
      (limits.map (limit :: ·), limitEvents maxDepth frames ++ events)

/-! ## Parsing -/

/-- How a malformed text is reported: too deep a nesting, which shows in the
wording of the reason, has a code of its own. -/
def template (limit : Nat) : Template := fun reason span =>
  if Text.isInfix depthPhrase reason then .jsonDepthExceeded limit (some reason) span
  else .jsonInvalid reason span

/-- The settings of a complete parse under a limit on nesting. -/
def settings (limit : Nat) (maxSourceSize : Option Int) : ParseSettings :=
  { maxSourceSize, template := some (template limit) }

/-- **The value of a complete JSON text.** -/
def parse (source : List ε) (maxDepth maxSourceSize : Option Int)
    (frames : Nat := Limits.stackFrames) : Except Failure Json :=
  match resolveLimit maxDepth frames with
  | .error failure => .error failure
  | .ok limit => (text limit).parseAll source (settings limit maxSourceSize)

/-- What is recorded of the parse of a complete JSON text. -/
def parseEvents (source : List ε) (maxDepth maxSourceSize : Option Int)
    (frames : Nat := Limits.stackFrames) : List Event :=
  match resolveLimit maxDepth frames with
  | .error _ => []
  | .ok limit =>
    limitEvents maxDepth frames ++
      (text limit).parseAllEvents source (settings limit maxSourceSize)

end StreamGrammar.Json
