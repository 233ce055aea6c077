import StreamGrammar.Span

/-!
# Diagnostics

A diagnostic is an error made readable: a code that tools can rely on, a
message, and, where they are known, a place, a reason and advice.
-/

namespace StreamGrammar

/-- **What went wrong**, as a code. The thousands group the codes: parsing,
reading a stream, request heads, and the JSON and URI grammars. -/
inductive DiagnosticCode where
  /-- No alternative matched. -/
  | parseRejected
  /-- The input is malformed. -/
  | parseFatal
  /-- The input ended too early. -/
  | incompleteInput
  /-- Input is left after a match. -/
  | trailingInput
  /-- The byte source failed. -/
  | sourceReadFailed
  /-- Too much was buffered. -/
  | bufferLimitExceeded
  /-- The whole input is too large. -/
  | sourceSizeExceeded
  /-- The first line of a request head is malformed. -/
  | malformedRequestLine
  /-- A header line is malformed. -/
  | malformedHeader
  /-- A header name occurs twice. -/
  | duplicateHeader
  /-- No blank line follows the headers. -/
  | missingDivider
  /-- There are too many headers. -/
  | headerLimitExceeded
  /-- The text is not JSON. -/
  | jsonInvalid
  /-- JSON containers are nested too deep. -/
  | jsonDepthExceeded
  /-- The text is no URI. -/
  | uriInvalid
  /-- A percent escape is malformed. -/
  | percentDecodingFailed
deriving DecidableEq

namespace DiagnosticCode

/-- All codes. -/
def all : List DiagnosticCode :=
  [parseRejected, parseFatal, incompleteInput, trailingInput, sourceReadFailed,
    bufferLimitExceeded, sourceSizeExceeded, malformedRequestLine, malformedHeader,
    duplicateHeader, missingDivider, headerLimitExceeded, jsonInvalid, jsonDepthExceeded,
    uriInvalid, percentDecodingFailed]

/-- The name of a code in reports. -/
def name : DiagnosticCode → String
  | parseRejected => "PARSE_REJECTED"
  | parseFatal => "PARSE_FATAL"
  | incompleteInput => "INCOMPLETE_INPUT"
  | trailingInput => "TRAILING_INPUT"
  | sourceReadFailed => "SOURCE_READ_FAILED"
  | bufferLimitExceeded => "BUFFER_LIMIT_EXCEEDED"
  | sourceSizeExceeded => "SOURCE_SIZE_EXCEEDED"
  | malformedRequestLine => "MALFORMED_REQUEST_LINE"
  | malformedHeader => "MALFORMED_HEADER"
  | duplicateHeader => "DUPLICATE_HEADER"
  | missingDivider => "MISSING_DIVIDER"
  | headerLimitExceeded => "HEADER_LIMIT_EXCEEDED"
  | jsonInvalid => "JSON_INVALID"
  | jsonDepthExceeded => "JSON_DEPTH_EXCEEDED"
  | uriInvalid => "URI_INVALID"
  | percentDecodingFailed => "PERCENT_DECODING_FAILED"

/-- The number of a code. -/
def number : DiagnosticCode → Nat
  | parseRejected => 1001
  | parseFatal => 1002
  | incompleteInput => 1003
  | trailingInput => 1004
  | sourceReadFailed => 2001
  | bufferLimitExceeded => 2002
  | sourceSizeExceeded => 2003
  | malformedRequestLine => 3001
  | malformedHeader => 3002
  | duplicateHeader => 3003
  | missingDivider => 3004
  | headerLimitExceeded => 3005
  | jsonInvalid => 4001
  | jsonDepthExceeded => 4002
  | uriInvalid => 4101
  | percentDecodingFailed => 4102

/-- The code of a name. -/
def ofName? (s : String) : Option DiagnosticCode := all.find? fun c => c.name == s

end DiagnosticCode

/-- How bad it is. -/
inductive Severity where
  /-- The operation failed. -/
  | error
  /-- It did not, but something is amiss. -/
  | warning
deriving DecidableEq

/-- The name of a severity in reports. -/
def Severity.name : Severity → String
  | error => "error"
  | warning => "warning"

/-- **A readable error.** -/
structure Diagnostic where
  /-- What went wrong. -/
  code : DiagnosticCode
  /-- The same in words. -/
  message : Text
  /-- Where, if that is known. -/
  span : Option Span := none
  /-- What to do about it. -/
  hint : Option Text := none
  /-- The reason that the parser gave. -/
  reason : Option Text := none
  /-- How bad it is. -/
  severity : Severity := .error
deriving DecidableEq

end StreamGrammar
