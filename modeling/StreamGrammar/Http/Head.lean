import StreamGrammar.Charset
import StreamGrammar.Entries
import StreamGrammar.Grammar.Run
import StreamGrammar.Text.Lowercase

/-!
# Request heads

The head of an HTTP/1.1 request is a line with method, target and version, any
number of header lines, and a blank line. Method and header names do not
depend on letter case and are kept in lower case; both are ASCII by their
grammar. A header name may occur once only.

`requestHead` is the head as one grammar. Its pieces serve on their own to read
a head from a stream, line by line.
-/

namespace StreamGrammar.Http

open Grammar

/-- **A request head**, and the bytes after it as far as they are here. -/
structure RequestHead where
  /-- The method, in lower case. -/
  method : Text
  /-- The target, as it was sent. -/
  target : Text
  /-- The version, without `HTTP/`. -/
  version : Text
  /-- The header values under their names, which are in lower case. -/
  headers : Entries Text Text
  /-- The bytes after the head, where the body starts. -/
  body : Bytes
deriving DecidableEq

instance : Vacancy RequestHead where

namespace RequestHead

/-- The value of a header, whatever the letter case of its name. -/
def header (head : RequestHead) (name : Text) : Option Text := head.headers.get? name.lower

/-- A request head with its description. -/
def describe (head : RequestHead) : Datum :=
  .record "RequestHead" [("method", .text head.method), ("target", .text head.target),
    ("version", .text head.version), ("headers", .texts head.headers),
    ("body", .bytes head.body)]

end RequestHead

/-! ## Words -/

/-- Bytes read as ASCII, under a name for what they should be. -/
def asciiConversion (label : Text) : Conversion Bytes Text where
  label
  describe := .bytes
  convert b := (Ascii.decode b).mapError .ascii

/-- Bytes read as UTF-8, under a name for what they should be. -/
def utf8Conversion (label : Text) : Conversion Bytes Text where
  label
  describe := .bytes
  convert b := (Utf8.decode b).mapError .utf8

/-- The blank between the words of the first line. -/
def blank : Grammar UInt8 UInt8 := ascii ' '

/-- The end of a line. -/
def lineEnd : Grammar UInt8 Bytes := token ['\r', '\n']

/-- A run of bytes that are neither blanks nor line ends. -/
def word : Grammar UInt8 Bytes := otherThan (Element.piece [' ', '\r', '\n'])

/-- The method. -/
def method : Grammar UInt8 Text :=
  (convert (asciiConversion "method") (takeSomeWhile fun b => Charset.isAlpha b.toNat)).map
    Text.asciiLower

/-- The target. -/
def target : Grammar UInt8 Text := convert (utf8Conversion "request target") word

/-- The version. -/
def version : Grammar UInt8 Text :=
  preceded (token ['H', 'T', 'T', 'P', '/']) (convert (asciiConversion "HTTP version") word)

/-! ## Lines -/

/-- The parts of the first line: method, target and version. -/
abbrev RequestLine := Text × Text × Text

/-- **The first line.** -/
def requestLine : Grammar UInt8 RequestLine :=
  serial3 (terminated method blank) (terminated target blank) (terminated version lineEnd)

/-- The name of a header. -/
def headerName : Grammar UInt8 Text :=
  (convert (asciiConversion "header name") (otherThan (Element.piece [':', '\r', '\n']))).map
    Text.asciiLower

/-- The value of a header, possibly empty. Blanks around it are no part of
it. -/
def headerValue : Grammar UInt8 Text :=
  (optional (convert (utf8Conversion "header value") (otherThan (Element.piece ['\r', '\n'])))).map
    fun v => Text.trimBlanks (v.getD [])

/-- **A header line**: its name and value. -/
def headerLine : Grammar UInt8 (Text × Text) :=
  (serial4 headerName (token [':']) headerValue lineEnd).map fun v => (v.1, v.2.2.1)

/-- A header line, or nothing where the blank line begins. That is looked for
first, as no header line begins with a carriage return. -/
def headerEntry : Grammar UInt8 (Option (Text × Text)) :=
  either ((peek (ascii '\r')).map fun _ => none) (headerLine.map some)

/-- **The blank line** between head and body. -/
def divider : Grammar UInt8 Bytes := lineEnd

/-! ## The whole head -/

/-- Header lines as entries, unless a name occurs twice. -/
def uniqueHeaders (pairs : List (Text × Text)) : Except Fault (Entries Text Text) :=
  collect [] pairs
where
  /-- Adds header lines to entries. -/
  collect (headers : Entries Text Text) : List (Text × Text) → Except Fault (Entries Text Text)
    | [] => .ok headers
    | (name, value) :: rest =>
      if (headers.get? name).isSome then
        .error (.stated (Text.concat ["duplicate header ", Quoted.text name]))
      else collect (headers.put name value) rest

/-- The conversion of header lines to entries. -/
def headersConversion : Conversion (List (Text × Text)) (Entries Text Text) where
  label := "headers"
  describe pairs := .list (pairs.map fun p => .tuple [.text p.1, .text p.2])
  convert := uniqueHeaders

/-- **A request head as one grammar.** The body is what remains. -/
def requestHead : Grammar UInt8 RequestHead :=
  (serial3 requestLine (convertOrHalt headersConversion (repeatAny headerLine)) divider).map
    fun v =>
      { method := v.1.1, target := v.1.2.1, version := v.1.2.2, headers := v.2.1, body := [] }

end StreamGrammar.Http
