import StreamGrammar.Grammar.Outcome

/-!
# Grammars

A grammar is a tree, and `Grammar.run` gives it its meaning. It could have
been the function itself; being a tree, it can be reasoned about by induction,
and "for every parser built from these pieces" is a statement about all values
of one type.

The pieces are few. `satisfy`, `literal`, `take`, `takeWhile`,
`takeSomeWhile`, `otherThan` and `endOfInput` look at the input, and they alone
look at whether it is complete. All other pieces combine, and only pass on what
those report. Sequences of every shape come from `bind`, checked conversions
from `judge`, and choices over a list from `alt`; the section on derived
grammars has the names that one writes a grammar with.
-/

namespace StreamGrammar

/-- **A parser for values of a type over an alphabet.** -/
inductive Grammar (ε : Type) : Type → Type 1
  /-- One element that passes a test. -/
  | satisfy (test : ε → Bool) (what : Expectation) : Grammar ε ε
  /-- Exactly this piece of input. -/
  | literal (expected : List ε) : Grammar ε (List ε)
  /-- Exactly so many elements. -/
  | take (count : Nat) : Grammar ε (List ε)
  /-- The longest run of elements that pass a test. -/
  | takeWhile (test : ε → Bool) : Grammar ε (List ε)
  /-- The longest run, of at least one element. -/
  | takeSomeWhile (test : ε → Bool) : Grammar ε (List ε)
  /-- The longest run, of at least one element, without these. -/
  | otherThan (elements : List ε) : Grammar ε (List ε)
  /-- Nothing, at the end of complete input. -/
  | endOfInput : Grammar ε Unit
  /-- Nothing, with a given value. -/
  | succeed {α : Type} (value : α) : Grammar ε α
  /-- Never decides: stops after so many elements, with what it is given for a
  partial result. This is a stub that stands in for a parser where the rules of
  the others are tried out, and no grammar of a format uses it. -/
  | undecided {α : Type} [Vacancy α] (best : Option α) (count : Nat) : Grammar ε α
  /-- The values of a grammar read through a function, partial ones included. A
  partial result that is read as a value that stands for none is none any more,
  and the outcome stays where it is; one that had no partial result from the
  first goes back to the start. -/
  | map {α β : Type} [Vacancy β] (f : α → β) (p : Grammar ε α) : Grammar ε β
  /-- Like `map` for a function that can fail, and whose failure ends the run. -/
  | mapRaising {α β : Type} [Vacancy β] (f : α → Except Fault β) (p : Grammar ε α) :
      Grammar ε β
  /-- The values of a grammar in another representation. Nothing else changes. -/
  | recast {α β : Type} [Vacancy β] (f : α → β) (p : Grammar ε α) : Grammar ε β
  /-- The values of a grammar, each accepted as a value or refused with a
  reason that depends on the position. -/
  | judge {α β : Type} (refusal : Refusal) (verdict : α → Except (Nat → Reason) β)
      (p : Grammar ε α) : Grammar ε β
  /-- One grammar and then, after its match, the one that its value selects. -/
  | bind {α β : Type} (p : Grammar ε α) (next : α → Grammar ε β) : Grammar ε β
  /-- A grammar, or nothing where it rejects. -/
  | optional {α : Type} (p : Grammar ε α) : Grammar ε (Option α)
  /-- The first grammar, or the second where the first rejects. Where the
  first cannot say yet and has no partial result, a match of the second is
  only tentative. -/
  | either {α : Type} [Vacancy α] (first second : Grammar ε α) : Grammar ε α
  /-- The first grammar, or the second where the first does not match yet. The
  first is remembered as truncated unless the second decides otherwise. -/
  | alt {α : Type} (first second : Grammar ε α) : Grammar ε α
  /-- No alternative is left. -/
  | noAlternative {α : Type} : Grammar ε α
  /-- A grammar whose match consumes nothing. -/
  | peek {α : Type} (p : Grammar ε α) : Grammar ε α
  /-- The inner grammar over the piece that the outer one matched, taken as
  complete input. Both are over one alphabet; where bytes are matched and then
  read as text, that is the sum of the bytes and the code points. -/
  | pipe {α : Type} (outer : Grammar ε (List ε)) (inner : Grammar ε α) : Grammar ε α
  /-- A grammar as often as it matches and consumes. -/
  | repeatAny {α : Type} (p : Grammar ε α) : Grammar ε (List α)
  /-- A grammar as often as it matches and consumes, at least once. -/
  | repeatSome {α : Type} (p : Grammar ε α) : Grammar ε (List α)
  /-- Items with separators between them. A separator that no item follows is
  left alone. -/
  | separatedItems {σ α : Type} (separator : Grammar ε σ) (item : Grammar ε α) :
      Grammar ε (List α)
  /-- A grammar whose reasons name the construct. -/
  | label {α : Type} (p : Grammar ε α) (name : Text) : Grammar ε α
  /-- A grammar to which the parse is committed: its rejections are fatal. -/
  | halt {α : Type} (name : Text) (p : Grammar ε α) : Grammar ε α
  /-- A grammar for which no more input will arrive: a partial result is
  accepted, and the lack of one rejects. -/
  | acceptLimit {α : Type} (p : Grammar ε α) : Grammar ε α

/-- A checked conversion of values: what they are called, how they are shown
where one is refused, and the conversion. -/
structure Conversion (α β : Type) where
  /-- What the result is called. -/
  label : Text
  /-- How a value is shown. -/
  describe : α → Datum
  /-- The conversion. -/
  convert : α → Except Fault β

/-- The verdict of a conversion on a value. -/
def Conversion.verdict {α β : Type} (c : Conversion α β) (a : α) : Except (Nat → Reason) β :=
  (c.convert a).mapError fun fault pos => .invalid c.label (c.describe a) pos fault

namespace Grammar

variable {ε : Type} {α β γ δ σ : Type}

/-! ## Derived grammars -/

/-- One element, whichever it is. -/
def pop : Grammar ε ε := satisfy (fun _ => true) .anyElement

/-- The next element, which is not consumed. -/
def next : Grammar ε ε := peek pop

/-- The values of a grammar converted; a refused one rejects. -/
def convert (c : Conversion α β) (p : Grammar ε α) : Grammar ε β := judge .rejected c.verdict p

/-- The values of a grammar converted; a refused one is fatal. -/
def convertOrHalt (c : Conversion α β) (p : Grammar ε α) : Grammar ε β :=
  judge .fatal c.verdict p

/-- The values of a grammar that says itself what it refuses; that is fatal. -/
def demand (p : Grammar ε (Except Text α)) : Grammar ε α :=
  judge .fatal (fun v => v.mapError fun what pos => .refused what pos) p

/-- The first of some grammars that matches. -/
def eitherOf (choices : List (Grammar ε α)) : Grammar ε α := choices.foldr alt noAlternative

/-- Two grammars in sequence, with both values. -/
def serial (first : Grammar ε α) (second : Grammar ε β) : Grammar ε (α × β) :=
  first.bind fun a => second.map fun b => (a, b)

/-- Three grammars in sequence, with all values. -/
def serial3 (first : Grammar ε α) (second : Grammar ε β) (third : Grammar ε γ) :
    Grammar ε (α × β × γ) :=
  first.bind fun a => second.bind fun b => third.map fun c => (a, b, c)

/-- Four grammars in sequence, with all values. -/
def serial4 (first : Grammar ε α) (second : Grammar ε β) (third : Grammar ε γ)
    (fourth : Grammar ε δ) : Grammar ε (α × β × γ × δ) :=
  first.bind fun a => second.bind fun b => third.bind fun c => fourth.map fun d => (a, b, c, d)

/-- A grammar and what ends it; the value is that of the first. -/
def terminated [Vacancy α] (p : Grammar ε α) (terminator : Grammar ε β) : Grammar ε α :=
  p.bind fun a => terminator.map fun _ => a

/-- What introduces a grammar and that grammar; the value is that of the
second. -/
def preceded (introducer : Grammar ε α) (p : Grammar ε β) : Grammar ε β :=
  introducer.bind fun _ => p

/-- A grammar between two others; the value is that of the middle one. -/
def between [Vacancy β] (before : Grammar ε α) (subject : Grammar ε β)
    (after : Grammar ε γ) : Grammar ε β :=
  before.bind fun _ => subject.bind fun b => after.map fun _ => b

/-- Two grammars around a third; the values are those of the outer ones. -/
def around (before : Grammar ε α) (separator : Grammar ε β) (after : Grammar ε γ) :
    Grammar ε (α × γ) :=
  before.bind fun a => separator.bind fun _ => after.map fun c => (a, c)

section Elements

variable [Element ε]

/-- One element that a piece of input spells; a piece of any other length
spells none. -/
def char (expected : List ε) : Grammar ε ε :=
  satisfy (fun e => [e] == expected) (.exactly (Element.datum expected))

/-- One of some elements. -/
def charOf (elements : List ε) : Grammar ε ε :=
  satisfy (fun e => elements.contains e) (.oneOf (Element.datum elements))

/-- One ASCII letter. -/
def alphaChar : Grammar ε ε :=
  satisfy
    (fun e =>
      let n := Element.code e
      (0x41 ≤ n && n ≤ 0x5A) || (0x61 ≤ n && n ≤ 0x7A))
    (.named "ASCII letter")

/-- A run of at least one of some elements. -/
def someCharsOf (elements : List ε) : Grammar ε (List ε) :=
  takeSomeWhile fun e => elements.contains e

/-- The element that an ASCII character stands for. -/
def ascii (c : Char) : Grammar ε ε := char [Element.ofAscii c]

/-- The piece of input that ASCII characters stand for. -/
def token (chars : List Char) : Grammar ε (List ε) := literal (Element.piece chars)

/-- One of the elements that ASCII characters stand for. -/
def asciiOf (chars : List Char) : Grammar ε ε := charOf (Element.piece chars)

end Elements

end Grammar

end StreamGrammar
