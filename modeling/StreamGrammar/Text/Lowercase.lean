import StreamGrammar.Text.CodePoint
import StreamGrammar.Text.CaseTables

/-!
# Lower case

The lower case of a text is that of its code points, with two exceptions: the
dotted capital I becomes a small i followed by the dot above, and the Greek
capital sigma becomes the final form where a word ends. A word ends at a
sigma when the nearest code point before it that is not case-ignorable is a
cased letter, and the nearest such one after it is not.

`asciiLower` is the same map on ASCII letters alone, and is right where only
ASCII can occur.
-/

namespace StreamGrammar

namespace LetterCase

/-- Whether a run covers a code point. -/
def Run.covers (r : Run) (n : Nat) : Bool :=
  r.first ≤ n && n ≤ r.last && (n - r.first) % r.stride == 0

/-- The lower-case letter of a code point that has one such letter only. -/
def lowerNat (n : Nat) : Nat :=
  match lowerRuns.find? (·.covers n) with
  | some r => ((n : Int) + r.offset).toNat
  | none => n

/-- The lower case of one code point, away from the end of a word. -/
def lowerOne (c : CodePoint) : Text :=
  if c.val < 0x41 then [c]
  else if c.val = 0x130 then [CodePoint.ofNat 0x69, CodePoint.ofNat 0x307]
  else [CodePoint.ofNat (lowerNat c.val)]

/-- Whether the nearest code point that is not case-ignorable is a cased
letter. -/
def nearestIsCased (t : Text) : Bool :=
  match t.find? (fun c => !ignorable.contains c.val) with
  | some c => cased.contains c.val
  | none => false

end LetterCase

namespace Text

/-- The lower case of what follows, given the code points before it (the
nearest first), after the lower case of those (the latest first). -/
def lowerFrom (before : Text) (done : List CodePoint) : Text → Text
  | [] => done.reverse
  | c :: rest =>
    let shown :=
      if c.val = 0x3A3 && LetterCase.nearestIsCased before && !LetterCase.nearestIsCased rest then
        [CodePoint.ofNat 0x3C2]
      else LetterCase.lowerOne c
    lowerFrom (c :: before) (shown.reverse ++ done) rest

/-- **The lower case of a text.** -/
def lower (t : Text) : Text := lowerFrom [] [] t

/-- The lower case of an ASCII letter, and any other code point itself. -/
def asciiLowerOne (c : CodePoint) : CodePoint :=
  if 0x41 ≤ c.val && c.val ≤ 0x5A then CodePoint.ofNat (c.val + 32) else c

/-- The lower case of the ASCII letters in a text. -/
def asciiLower (t : Text) : Text := t.map asciiLowerOne

/-- A text without the spaces and tabs at its ends. -/
def trimBlanks (t : Text) : Text :=
  let isBlank (c : CodePoint) : Bool := c.val == 32 || c.val == 9
  ((t.dropWhile isBlank).reverse.dropWhile isBlank).reverse

end Text

end StreamGrammar
