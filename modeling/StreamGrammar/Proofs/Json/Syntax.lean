import StreamGrammar.Json.Grammar

/-!
# The texts of JSON and what they denote

What a JSON text is, said without a parser. The grammar of RFC 8259 has a
production for every kind of value, and a `Form` is a derivation by these
productions, down to the characters of strings and the digits of numbers; left
open is the blank space between tokens. `Form.Spells` relates a form to the
texts that it derives, `Form.nesting` counts the containers inside one another,
and `Form.value?` is the value that is denoted.

Three kinds of forms denote nothing: an integer of more than `Numeral.maxDigits`
digits, a number with a fraction or an exponent that is past the range of
doubles, and a string with half of a surrogate pair. Whole pairs are a
production of their own, so that each piece of a string denotes one code point.
-/

namespace StreamGrammar.Json

/-! ## Strings -/

/-- **A code point of a string, as it is written.** -/
inductive Piece where
  /-- A character that stands for itself. -/
  | plain (c : CodePoint)
  /-- An escape by a letter. -/
  | letter (c : Char)
  /-- An escape by number, with its digits. -/
  | unit (digits : Text)
  /-- Two escapes by number that make a surrogate pair. -/
  | pair (high low : Text)

/-- The letters of escapes, and the marks that are escaped by themselves. -/
def escapeLetters : List Char := ['"', '\\', '/', 'b', 'f', 'n', 'r', 't']

/-- Four hexadecimal digits. -/
def IsHex4 (digits : Text) : Prop :=
  digits.length = 4 ∧ ∀ d ∈ digits, Charset.isHexDigit d.val = true

/-- A character that needs no escape: neither a quotation mark nor a backslash
nor a control character. -/
def IsPlain (c : CodePoint) : Prop := 0x20 ≤ c.val ∧ c.val ≠ 0x22 ∧ c.val ≠ 0x5C

namespace Piece

/-- The characters of a piece. -/
def text : Piece → Text
  | plain c => [c]
  | letter c => Text.ofChars ['\\', c]
  | unit digits => Text.ofChars ['\\', 'u'] ++ digits
  | pair high low => Text.ofChars ['\\', 'u'] ++ high ++ (Text.ofChars ['\\', 'u'] ++ low)

/-- The production of a piece. -/
def WellFormed : Piece → Prop
  | plain c => IsPlain c
  | letter c => c ∈ escapeLetters
  | unit digits => IsHex4 digits
  | pair high low => IsHex4 high ∧ IsHex4 low ∧
    isHighSurrogate (hexNumber high) = true ∧ isLowSurrogate (hexNumber low) = true

/-- The code point of an escape by a letter. -/
def letterValue : Char → CodePoint
  | 'b' => CodePoint.ofNat 0x08
  | 'f' => CodePoint.ofNat 0x0C
  | 'n' => CodePoint.ofNat 0x0A
  | 'r' => CodePoint.ofNat 0x0D
  | 't' => CodePoint.ofNat 0x09
  | mark => CodePoint.ofChar mark

/-- The code point that a piece denotes; half a surrogate pair denotes none. -/
def value? : Piece → Option CodePoint
  | plain c => some c
  | letter c => some (letterValue c)
  | unit digits =>
    if isHighSurrogate (hexNumber digits) || isLowSurrogate (hexNumber digits) then none
    else some (CodePoint.ofNat (hexNumber digits))
  | pair high low => some (CodePoint.ofNat (pairValue (hexNumber high) (hexNumber low)))

end Piece

/-- The characters between the quotation marks of a string. -/
def piecesText (ps : List Piece) : Text := ps.flatMap Piece.text

/-- The text that a string denotes. -/
def textOf? (ps : List Piece) : Option Text := ps.mapM Piece.value?

/-- **The production of a string.** -/
def SpellsString (ps : List Piece) (t : Text) : Prop :=
  (∀ p ∈ ps, p.WellFormed) ∧
    t = CodePoint.ofChar '"' :: (piecesText ps ++ [CodePoint.ofChar '"'])

/-! ## Numbers -/

/-- An exponent, as it is written. -/
structure ExponentForm where
  /-- Whether the letter is a capital. -/
  capital : Bool
  /-- The sign, if there is one, and whether it is a minus. -/
  minus : Option Bool
  /-- The digits. -/
  digits : List Nat

/-- **A number, as it is written.** -/
structure NumberForm where
  /-- Whether there is a minus sign. -/
  minus : Bool
  /-- The digits of the integer part. -/
  whole : List Nat
  /-- The digits of the fraction, if there is one. -/
  fraction : Option (List Nat)
  /-- The exponent, if there is one. -/
  exponent : Option ExponentForm

/-- At least one decimal digit. -/
def AreDigits (ds : List Nat) : Prop := ds ≠ [] ∧ ∀ d ∈ ds, d < 10

/-- The characters of decimal digits. -/
def digitsText (ds : List Nat) : Text := ds.map Numeral.digit

namespace ExponentForm

/-- The sign of an exponent. -/
def signText : Option Bool → Text
  | none => []
  | some minus => [CodePoint.ofChar (if minus then '-' else '+')]

/-- The characters of an exponent. -/
def text (e : ExponentForm) : Text :=
  CodePoint.ofChar (if e.capital then 'E' else 'e') ::
    (signText e.minus ++ digitsText e.digits)

/-- The integer that an exponent denotes. -/
def value (e : ExponentForm) : Int :=
  if e.minus = some true then -(Numeral.ofDigits e.digits : Int) else Numeral.ofDigits e.digits

end ExponentForm

namespace NumberForm

/-- The characters of a fraction, its point included. -/
def fractionText : Option (List Nat) → Text
  | none => []
  | some ds => CodePoint.ofChar '.' :: digitsText ds

/-- The characters of an exponent, if there is one. -/
def exponentText : Option ExponentForm → Text
  | none => []
  | some e => e.text

/-- The characters of a number. -/
def text (n : NumberForm) : Text :=
  (if n.minus then [CodePoint.ofChar '-'] else []) ++
    (digitsText n.whole ++ (fractionText n.fraction ++ exponentText n.exponent))

/-- **The production of a number**: its integer part does not begin with a zero
unless it is zero. -/
structure WellFormed (n : NumberForm) : Prop where
  /-- There is an integer part. -/
  whole : AreDigits n.whole
  /-- No digit follows a leading zero. -/
  leading : n.whole.head? = some 0 → n.whole = [0]
  /-- A fraction has digits. -/
  fraction : ∀ ds ∈ n.fraction, AreDigits ds
  /-- An exponent has digits. -/
  exponent : ∀ e ∈ n.exponent, AreDigits e.digits

/-- The decimal number that is written, leaving out its sign. -/
def decimal (n : NumberForm) : Binary64.Decimal :=
  { digits := Numeral.ofDigits (n.whole ++ n.fraction.getD [])
    exponent := (n.exponent.map ExponentForm.value).getD 0 - (n.fraction.getD []).length }

/-- The value that a number denotes. It is an integer only if neither a fraction
nor an exponent is written, and of the signed kind if a minus sign is. -/
def value? (n : NumberForm) : Option Json :=
  match n.fraction, n.exponent with
  | none, none =>
    if n.whole.length ≤ Numeral.maxDigits then
      some (if n.minus then .signed (-(Numeral.ofDigits n.whole : Int))
        else .unsigned (Numeral.ofDigits n.whole))
    else none
  | _, _ =>
    if (Binary64.ofDecimal n.minus n.decimal).isFinite then
      some (.float (Binary64.ofDecimal n.minus n.decimal))
    else none

theorem value?_of_integer {n : NumberForm} (h : n.fraction = none ∧ n.exponent = none) :
    n.value? =
      if n.whole.length ≤ Numeral.maxDigits then
        some (if n.minus then .signed (-(Numeral.ofDigits n.whole : Int))
          else .unsigned (Numeral.ofDigits n.whole))
      else none := by
  rw [value?, h.1, h.2]

theorem value?_of_float {n : NumberForm} (h : ¬(n.fraction = none ∧ n.exponent = none)) :
    n.value? =
      if (Binary64.ofDecimal n.minus n.decimal).isFinite then
        some (.float (Binary64.ofDecimal n.minus n.decimal))
      else none := by
  rw [value?]
  split
  · rename_i hf he
    exact absurd ⟨hf, he⟩ h
  · rfl

/-- A number denotes a number, of one of the three kinds. -/
theorem number_of_value? {n : NumberForm} {v : Json} (h : n.value? = some v) :
    (∃ k, v = .unsigned k) ∨ (∃ k, v = .signed k) ∨ ∃ x, v = .float x := by
  by_cases hinteger : n.fraction = none ∧ n.exponent = none
  · rw [value?_of_integer hinteger] at h
    split at h
    · cases h
      cases n.minus
      · exact .inl ⟨_, rfl⟩
      · exact .inr (.inl ⟨_, rfl⟩)
    · cases h
  · rw [value?_of_float hinteger] at h
    split at h
    · cases h
      exact .inr (.inr ⟨_, rfl⟩)
    · cases h

end NumberForm

/-! ## Values -/

/-- **A JSON value, as it is written.** -/
inductive Form where
  /-- The word `null`. -/
  | null
  /-- The word `true` or `false`. -/
  | bool (value : Bool)
  /-- A number. -/
  | number (n : NumberForm)
  /-- A string. -/
  | string (pieces : List Piece)
  /-- An array. -/
  | array (items : List Form)
  /-- An object. -/
  | object (members : List (List Piece × Form))

/-- Blank space, possibly none. -/
def IsBlank (t : Text) : Prop := ∀ c ∈ t, ∃ b ∈ Charset.jsonWhitespace, c = CodePoint.ofChar b

/-- What is spelled with blank space on either side. -/
def Padded (spelled : Text → Prop) (t : Text) : Prop :=
  ∃ before inner after, IsBlank before ∧ spelled inner ∧ IsBlank after ∧
    t = before ++ (inner ++ after)

namespace Form

mutual

/-- **The texts of a form.** -/
def Spells : Form → Text → Prop
  | null, t => t = Text.ofChars ['n', 'u', 'l', 'l']
  | bool true, t => t = Text.ofChars ['t', 'r', 'u', 'e']
  | bool false, t => t = Text.ofChars ['f', 'a', 'l', 's', 'e']
  | number n, t => n.WellFormed ∧ t = n.text
  | string pieces, t => SpellsString pieces t
  | array items, t => ∃ inner, SpellsItems items inner ∧
    t = CodePoint.ofChar '[' :: (inner ++ [CodePoint.ofChar ']'])
  | object members, t => ∃ inner, SpellsMembers members inner ∧
    t = CodePoint.ofChar '\x7b' :: (inner ++ [CodePoint.ofChar '\x7d'])

/-- What stands between the brackets of an array. -/
def SpellsItems : List Form → Text → Prop
  | [], t => IsBlank t
  | item :: items, t => ∃ first others, Padded (Spells item) first ∧
    SpellsMoreItems items others ∧ t = first ++ others

/-- Items with a comma before each. -/
def SpellsMoreItems : List Form → Text → Prop
  | [], t => t = []
  | item :: items, t => ∃ first others, Padded (Spells item) first ∧
    SpellsMoreItems items others ∧ t = CodePoint.ofChar ',' :: (first ++ others)

/-- What stands between the brackets of an object. -/
def SpellsMembers : List (List Piece × Form) → Text → Prop
  | [], t => IsBlank t
  | (key, item) :: members, t => ∃ name first others, Padded (SpellsString key) name ∧
    Padded (Spells item) first ∧ SpellsMoreMembers members others ∧
    t = name ++ CodePoint.ofChar ':' :: (first ++ others)

/-- Members with a comma before each. -/
def SpellsMoreMembers : List (List Piece × Form) → Text → Prop
  | [], t => t = []
  | (key, item) :: members, t => ∃ name first others, Padded (SpellsString key) name ∧
    Padded (Spells item) first ∧ SpellsMoreMembers members others ∧
    t = CodePoint.ofChar ',' :: (name ++ CodePoint.ofChar ':' :: (first ++ others))

end

mutual

/-- **How deep containers nest** in a form. -/
def nesting : Form → Nat
  | array items => nestingItems items + 1
  | object members => nestingMembers members + 1
  | _ => 0

/-- How deep containers nest in the items of an array. -/
def nestingItems : List Form → Nat
  | [] => 0
  | item :: items => max (nesting item) (nestingItems items)

/-- How deep containers nest in the members of an object. -/
def nestingMembers : List (List Piece × Form) → Nat
  | [] => 0
  | (_, item) :: members => max (nesting item) (nestingMembers members)

end

mutual

/-- **The value that a form denotes**, if it does. A repeated key of an object
keeps its first place and its last value. -/
def value? : Form → Option Json
  | null => some .null
  | bool b => some (.bool b)
  | number n => n.value?
  | string pieces => (textOf? pieces).map .string
  | array items => (itemValues? items).map .array
  | object members => (memberValues? members).map fun vs => .object (Entries.ofPairs vs)

/-- The values that the items of an array denote. -/
def itemValues? : List Form → Option (List Json)
  | [] => some []
  | item :: items => (value? item).bind fun v => (itemValues? items).map (v :: ·)

/-- The keys and values that the members of an object denote. -/
def memberValues? : List (List Piece × Form) → Option (List (Text × Json))
  | [] => some []
  | (key, item) :: members => (textOf? key).bind fun k => (value? item).bind fun v =>
    (memberValues? members).map ((k, v) :: ·)

end

end Form

end StreamGrammar.Json
