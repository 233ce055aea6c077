import StreamGrammar.Diagnostic.Basic
import StreamGrammar.Stream.Source

/-!
# The wording of diagnostics

One function for each kind of error, from what is known about the error to
its diagnostic.
-/

namespace StreamGrammar.Diagnostic

/-- No alternative matched the input. -/
def parseRejected (reason : Text) (span : Option Span) : Diagnostic :=
  { code := .parseRejected, message := "Input does not match the expected grammar", span,
    reason := some reason }

/-- The input is malformed past a point of no return. -/
def parseFatal (reason : Text) (span : Option Span) : Diagnostic :=
  { code := .parseFatal, message := "Input is malformed", span, reason := some reason }

/-- The input ended after so many elements, before the parser could decide. -/
def incompleteInput (consumed : Int) (span : Option Span) : Diagnostic :=
  { code := .incompleteInput
    message := Text.concat ["Input ended after ", Numeral.signed consumed,
      " element(s) before it could be parsed"]
    span
    hint := some "The sender closed or paused the stream mid-message" }

/-- The parser matched and left input over. -/
def trailingInput (span : Span) : Diagnostic :=
  { code := .trailingInput
    message := Text.concat ["Unexpected trailing input at offset ", Numeral.decimal span.start]
    span := some span }

/-- The byte source failed while it was read. -/
def sourceReadFailed (error : ReadError) : Diagnostic :=
  { code := .sourceReadFailed
    message := Text.concat ["Reading from the byte source failed: ", error.message] }

/-- More was buffered than the limit allows. -/
def bufferLimitExceeded (size limit : Int) : Diagnostic :=
  { code := .bufferLimitExceeded
    message := Text.concat ["Accumulated input (", Numeral.grouped size,
      " bytes) exceeds maximum (", Numeral.grouped limit, " bytes)"]
    hint := some "Configure max_buffer_size to increase the limit" }

/-- The whole input is larger than the limit allows. -/
def sourceSizeExceeded (size limit : Int) : Diagnostic :=
  { code := .sourceSizeExceeded
    message := Text.concat ["Source size (", Numeral.grouped size, ") exceeds maximum (",
      Numeral.grouped limit, ")"]
    hint := some "Configure max_source_size to increase the limit" }

/-- The first line of a request head could not be parsed. -/
def malformedRequestLine (reason : Text) : Diagnostic :=
  { code := .malformedRequestLine, message := "The HTTP title line could not be parsed",
    reason := some reason, hint := some "Expected 'METHOD SP TARGET SP HTTP/VERSION CRLF'" }

/-- A header line could not be parsed. -/
def malformedHeader (reason : Text) : Diagnostic :=
  { code := .malformedHeader, message := "Could not parse a header line",
    reason := some reason,
    hint := some "Headers must look like 'Name: value' followed by CRLF" }

/-- A header name occurs twice. -/
def duplicateHeader (name : Text) : Diagnostic :=
  { code := .duplicateHeader
    message := Text.concat ["Header '", name, "' appears more than once"]
    hint := some "Send each header name at most once" }

/-- The blank line after the headers is missing. -/
def missingDivider (reason : Text) : Diagnostic :=
  { code := .missingDivider, message := "Could not read the header/body divider (last CRLF)",
    reason := some reason }

/-- A request head has more headers than the limit allows. -/
def headerLimitExceeded (limit : Int) : Diagnostic :=
  { code := .headerLimitExceeded
    message := Text.concat ["Request head has more than ", Numeral.signed limit, " headers"]
    hint := some "Configure max_headers to increase the limit" }

/-- The text is not JSON. -/
def jsonInvalid (reason : Text) (span : Option Span) : Diagnostic :=
  { code := .jsonInvalid, message := "Invalid JSON text", span, reason := some reason }

/-- A JSON text or value is nested deeper than the limit allows. -/
def jsonDepthExceeded (limit : Int) (reason : Option Text) (span : Option Span) : Diagnostic :=
  { code := .jsonDepthExceeded
    message := Text.concat ["JSON nesting exceeds maximum depth of ", Numeral.signed limit]
    span, reason, hint := some "Flatten the value or raise max_depth" }

/-- The text is no URI or request target. -/
def uriInvalid (reason : Text) (span : Option Span) : Diagnostic :=
  { code := .uriInvalid, message := "Invalid URI", span, reason := some reason }

/-- A percent escape is malformed. -/
def percentDecodingFailed (reason : Text) : Diagnostic :=
  { code := .percentDecodingFailed, message := "Could not percent-decode component",
    reason := some reason, hint := some "Use %XX hex pairs that form valid UTF-8" }

end StreamGrammar.Diagnostic
