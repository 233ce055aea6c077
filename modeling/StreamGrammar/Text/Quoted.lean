import StreamGrammar.Text.Numeral
import StreamGrammar.Text.Printable

/-!
# Quoted text

A reason quotes the input it could not use, in a form that shows every
element: printable code points as they are, the line breaks and the tab by
their letter, all else by its number. Single quotes stand around the text
unless it holds one and no double quote.
-/

namespace StreamGrammar.Quoted

/-- The quote that stands around elements with these numbers: the single one,
unless it occurs and the double one does not. -/
def mark (numbers : List Nat) : Char :=
  if numbers.contains 39 && !numbers.contains 34 then '"' else '\''

/-- How an element is shown that has a letter of its own, or that a quote or
the escape character would confuse. -/
def short? (quote : Char) (n : Nat) : Option Text :=
  if n = 92 then some (Text.ofChars ['\\', '\\'])
  else if n = quote.toNat then some (Text.ofChars ['\\', quote])
  else if n = 10 then some (Text.ofChars ['\\', 'n'])
  else if n = 13 then some (Text.ofChars ['\\', 'r'])
  else if n = 9 then some (Text.ofChars ['\\', 't'])
  else none

/-- How an element is shown by its number, in the shortest of three widths. -/
def numbered (n : Nat) : Text :=
  if n < 0x100 then Text.ofChars ['\\', 'x'] ++ Numeral.hex false 2 n
  else if n < 0x10000 then Text.ofChars ['\\', 'u'] ++ Numeral.hex false 4 n
  else Text.ofChars ['\\', 'U'] ++ Numeral.hex false 8 n

/-- One code point inside quotes. -/
def codePoint (quote : Char) (c : CodePoint) : Text :=
  match short? quote c.val with
  | some shown => shown
  | none => if Printable.isPrintable c.val then [c] else numbered c.val

/-- One byte inside quotes. -/
def byte (quote : Char) (b : UInt8) : Text :=
  match short? quote b.toNat with
  | some shown => shown
  | none =>
    if 0x20 ≤ b.toNat && b.toNat < 0x7F then [CodePoint.ofNat b.toNat] else numbered b.toNat

/-- A text in quotes. -/
def text (t : Text) : Text :=
  let quote := mark (t.map CodePoint.val)
  CodePoint.ofChar quote :: t.flatMap (codePoint quote) ++ [CodePoint.ofChar quote]

/-- A byte string in quotes, marked by a leading `b`. -/
def bytes (bs : Bytes) : Text :=
  let quote := mark (bs.map UInt8.toNat)
  CodePoint.ofChar 'b' :: CodePoint.ofChar quote :: bs.flatMap (byte quote)
    ++ [CodePoint.ofChar quote]

end StreamGrammar.Quoted
