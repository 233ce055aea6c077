/-!
# Code points, texts and bytes

What a grammar reads is either text or bytes. A text is a list of *code
points*, not of characters: a surrogate may stand in it alone, as it can in
text that came out of an escape, and the grammars have to say what they do
with it. So `Char`, which has no surrogates, is too small an alphabet, and
`CodePoint` is the whole range `0 … 0x10FFFF`.
-/

namespace StreamGrammar

/-- **A code point**: any number below `0x110000`, surrogates included. -/
structure CodePoint where
  /-- The number of the code point. -/
  val : Nat
  /-- The number lies in the code space. -/
  isLt : val < 0x110000
deriving DecidableEq

/-- A text is the list of its code points. -/
abbrev Text := List CodePoint

/-- A byte string is the list of its bytes. -/
abbrev Bytes := List UInt8

namespace CodePoint

@[ext] theorem ext {a b : CodePoint} (h : a.val = b.val) : a = b := by
  cases a; cases b; simp_all

/-- The code point of a character. -/
def ofChar (c : Char) : CodePoint :=
  ⟨c.toNat, by
    have h := c.valid
    simp only [UInt32.isValidChar, Nat.isValidChar] at h
    show c.val.toNat < 0x110000
    omega⟩

@[simp] theorem val_ofChar (c : Char) : (ofChar c).val = c.toNat := rfl

/-- What stands for a number outside the code space. -/
def replacement : CodePoint := ⟨0xFFFD, by decide⟩

/-- The code point of a number, and the replacement character for a number
outside the code space. -/
def ofNat (n : Nat) : CodePoint :=
  if h : n < 0x110000 then ⟨n, h⟩ else replacement

theorem val_ofNat {n : Nat} (h : n < 0x110000) : (ofNat n).val = n := by
  simp [ofNat, h]

@[simp] theorem ofNat_val (c : CodePoint) : ofNat c.val = c := by
  simp [ofNat, c.isLt]

/-- The code points that UTF-16 uses in pairs: never characters on their own. -/
def isSurrogate (c : CodePoint) : Bool :=
  0xD800 ≤ c.val && c.val ≤ 0xDFFF

theorem isSurrogate_ofChar (c : Char) : (ofChar c).isSurrogate = false := by
  have h := c.valid
  simp only [UInt32.isValidChar, Nat.isValidChar] at h
  have e : c.toNat = c.val.toNat := rfl
  simp only [isSurrogate, val_ofChar, Bool.and_eq_false_iff, decide_eq_false_iff_not, e]
  omega

end CodePoint

namespace Text

/-- The text of a string. -/
def ofString (s : String) : Text := s.toList.map CodePoint.ofChar

/-- The text of a list of characters. -/
def ofChars (cs : List Char) : Text := cs.map CodePoint.ofChar

instance : Coe String Text := ⟨ofString⟩

/-- Pieces of text, one after the other. -/
def concat (pieces : List Text) : Text := pieces.flatten

/-- Whether one text occurs within another. -/
def isInfix (needle : Text) : Text → Bool
  | [] => needle.isEmpty
  | c :: rest => needle.isPrefixOf (c :: rest) || isInfix needle rest

theorem isInfix_iff {needle hay : Text} : isInfix needle hay = true ↔ needle <:+: hay := by
  induction hay with
  | nil => simp [isInfix]
  | cons c rest ih => simp [isInfix, ih, List.infix_cons_iff]

/-- The lines of a text, joined by a separator. -/
def joinWith (separator : Text) (pieces : List Text) : Text :=
  separator.intercalate pieces

/-- Pieces joined by a separator are the first one, and the others behind a separator each. -/
theorem joinWith_cons (separator piece : Text) (pieces : List Text) :
    joinWith separator (piece :: pieces) = piece ++ pieces.flatMap (separator ++ ·) := by
  induction pieces generalizing piece with
  | nil => simp [joinWith]
  | cons next pieces ih =>
    unfold joinWith at ih ⊢
    rw [List.intercalate_cons_cons, ih, List.flatMap_cons, List.append_assoc, List.append_assoc]

end Text

end StreamGrammar
