import StreamGrammar.Text.Quoted

/-!
# Arguments that make no sense

An entry point refuses some arguments before it looks at any input.
-/

namespace StreamGrammar

/-- **Why an argument is refused.** -/
inductive InvalidArgument where
  /-- A limit below zero. -/
  | negativeLimit (value : Int)
  /-- A nesting depth that admits no container. -/
  | depthBelowOne (depth : Int)
  /-- Reads of no bytes. -/
  | zeroReadSize
  /-- A span that starts before the input. -/
  | spanStart (start : Int)
  /-- A span that ends before it starts. -/
  | spanStop (start stop : Int)
  /-- A span on a line before the first. -/
  | spanLine (line : Int)
  /-- A span in a column before the first. -/
  | spanColumn (column : Int)
  /-- A name that is none of the report layouts. -/
  | unknownLayout (name : Text)
deriving DecidableEq

/-- What a refused argument says. -/
def InvalidArgument.message : InvalidArgument → Text
  | .negativeLimit value =>
    Text.concat ["Limit must be >= 0 (0 disables it), got ", Numeral.signed value]
  | .depthBelowOne depth => Text.concat ["max_depth must be >= 1, got ", Numeral.signed depth]
  | .zeroReadSize => "read_size must be positive"
  | .spanStart start =>
    Text.concat ["SourceSpan.start must be >= 0, got ", Numeral.signed start]
  | .spanStop start stop =>
    Text.concat ["SourceSpan.end (", Numeral.signed stop, ") must be >= start (",
      Numeral.signed start, ")"]
  | .spanLine line =>
    Text.concat ["SourceSpan.line must be >= 1 (1-indexed), got ", Numeral.signed line]
  | .spanColumn column =>
    Text.concat ["SourceSpan.column must be >= 1 (1-indexed), got ", Numeral.signed column]
  | .unknownLayout name =>
    Text.concat [Quoted.text name, " is not a valid OutputFormat"]

end StreamGrammar
