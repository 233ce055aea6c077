import StreamGrammar.Element
import StreamGrammar.Diagnostic.Report

/-!
# Failures

Inside the engine every outcome is a value. At the boundary – reading a
stream, parsing a complete source, writing JSON – what is not a result is a
failure, and this module lists them. The first six are the library's verdicts
on its input and may carry a diagnostic; the others report a wrong argument, a
value that has no JSON text, a conversion that a grammar left unguarded, and a
look past the end of a source.
-/

namespace StreamGrammar

/-- What a failure says: a message of its own, or a diagnostic. -/
inductive Notice where
  /-- A message of its own. -/
  | plain (message : Text)
  /-- A diagnostic, whose message it is. -/
  | diagnosed (diagnostic : Diagnostic)

namespace Notice

/-- The message. -/
def message : Notice → Text
  | plain message => message
  | diagnosed d => d.message

/-- The diagnostic, if there is one. -/
def diagnostic? : Notice → Option Diagnostic
  | plain _ => none
  | diagnosed d => some d

end Notice

/-- **Why a value has no JSON text** that reads back as the value. -/
inductive Unwritable where
  /-- A number of the unsigned kind below zero. -/
  | negativeUnsigned (value : Int)
  /-- A number of the signed kind above zero. -/
  | positiveSigned (value : Int)
  /-- An integer whose numeral is too long. -/
  | integerTooLong
  /-- An infinity or a NaN. -/
  | nonFinite (value : Binary64)
  /-- A surrogate in a string. -/
  | loneSurrogate (value : CodePoint)
  /-- A value that is none of the JSON kinds. -/
  | foreign (value : Datum)

/-- What is said of a value that has no JSON text. -/
def Unwritable.message : Unwritable → Text
  | .negativeUnsigned value =>
    Text.concat ["UnsignedInt cannot be negative, got ", Numeral.signed value]
  | .positiveSigned value => Text.concat ["SignedInt must be <= 0, got ", Numeral.signed value]
  | .integerTooLong =>
    Text.concat ["Integer too large to write as JSON text: Exceeds the limit (",
      Numeral.decimal Numeral.maxDigits,
      " digits) for integer string conversion; ",
      "use sys.set_int_max_str_digits() to increase the limit"]
  | .nonFinite value => Text.concat ["Float must be finite, got ", value.numeral]
  | .loneSurrogate value =>
    Text.concat ["Lone surrogate U+", Numeral.hex true 4 value.val, " cannot be serialized"]
  | .foreign value => Text.concat ["Not a JSON value: ", value.display]

/-- **What an operation reports instead of a result.** -/
inductive Failure where
  /-- An error of no particular kind. -/
  | general (notice : Notice)
  /-- The input could not be parsed. -/
  | parse (notice : Notice) (reason : Text) (fatal : Bool)
  /-- The input ended while the parser needed more. -/
  | incomplete (notice : Notice) (reason : Text) (fatal : Bool)
  /-- A header name occurs twice in a request head. -/
  | duplicateHeader (notice : Notice) (name : Text)
  /-- The byte source failed. -/
  | sourceRead (notice : Notice)
  /-- A size or count is past its limit. -/
  | limitExceeded (notice : Notice) (limit : Int)
  /-- An argument makes no sense. -/
  | invalidArgument (cause : InvalidArgument)
  /-- An unguarded conversion failed. -/
  | unguarded (fault : Fault)
  /-- A value has no JSON text. -/
  | unwritable (cause : Unwritable)
  /-- There is no element at a position. -/
  | endOfInput (pos : Nat)

namespace Failure

/-- The reason that goes with a repeated header name. -/
def duplicateReason (name : Text) : Text := Text.concat ["duplicate header ", Quoted.text name]

/-- The message of a failure. -/
def message : Failure → Text
  | general n | parse n _ _ | incomplete n _ _ | duplicateHeader n _ | sourceRead n
  | limitExceeded n _ => n.message
  | invalidArgument cause => cause.message
  | unguarded fault => fault.message
  | unwritable cause => cause.message
  | endOfInput pos => Text.concat ["Unexpected EOF at position ", Numeral.decimal pos]

/-- The diagnostic of a failure, if it carries one. -/
def diagnostic? : Failure → Option Diagnostic
  | general n | parse n _ _ | incomplete n _ _ | duplicateHeader n _ | sourceRead n
  | limitExceeded n _ => n.diagnostic?
  | _ => none

/-- The parser's reason, for the failures of a parse. -/
def reason? : Failure → Option Text
  | parse _ reason _ | incomplete _ reason _ => some reason
  | duplicateHeader _ name => some (duplicateReason name)
  | _ => none

/-- Whether the input is malformed, for the failures of a parse. -/
def fatal? : Failure → Option Bool
  | parse _ _ fatal | incomplete _ _ fatal => some fatal
  | duplicateHeader _ _ => some true
  | _ => none

/-- Whether the failure is one of the library's verdicts on its input. -/
def isVerdict : Failure → Bool
  | general _ | parse _ _ _ | incomplete _ _ _ | duplicateHeader _ _ | sourceRead _
  | limitExceeded _ _ => true
  | _ => false

end Failure

end StreamGrammar
