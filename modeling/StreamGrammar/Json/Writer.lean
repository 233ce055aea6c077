import StreamGrammar.Limits
import StreamGrammar.Json.Value

/-!
# Writing JSON

A tree is written without blanks, in a form that reads back as the same tree:
the minus sign of a signed zero is kept, a floating-point number always shows a
fraction or an exponent, and what has no such form is refused. The refusal is
that of the first offender in the order of writing, so a container that nests
too deep is refused before anything inside it is looked at.
-/

namespace StreamGrammar.JsonTree

variable {φ : Type}

/-- The numeral of an integer, if it is not too long. -/
def writeNatural (n : Nat) : Except Failure Text :=
  if Numeral.isWritable n then .ok (Numeral.decimal n)
  else .error (.unwritable .integerTooLong)

/-- One code point inside a string. -/
def writeCodePoint (c : CodePoint) : Except Failure Text :=
  if c.val = 34 then .ok (Text.ofChars ['\\', '"'])
  else if c.val = 92 then .ok (Text.ofChars ['\\', '\\'])
  else if c.val = 8 then .ok (Text.ofChars ['\\', 'b'])
  else if c.val = 12 then .ok (Text.ofChars ['\\', 'f'])
  else if c.val = 10 then .ok (Text.ofChars ['\\', 'n'])
  else if c.val = 13 then .ok (Text.ofChars ['\\', 'r'])
  else if c.val = 9 then .ok (Text.ofChars ['\\', 't'])
  else if c.val < 0x20 then .ok (Text.ofChars ['\\', 'u'] ++ Numeral.hex false 4 c.val)
  else if c.isSurrogate then .error (.unwritable (.loneSurrogate c))
  else .ok [c]

/-- The code points of a string, after what is written. -/
def writeCodePoints (out : Array CodePoint) : Text → Except Failure (Array CodePoint)
  | [] => .ok out
  | c :: rest =>
    match writeCodePoint c with
    | .error failure => .error failure
    | .ok written => writeCodePoints (out ++ written) rest

/-- A string in quotes, after what is written. -/
def writeString (out : Array CodePoint) (t : Text) : Except Failure (Array CodePoint) :=
  match writeCodePoints (out.push (CodePoint.ofChar '"')) t with
  | .error failure => .error failure
  | .ok out => .ok (out.push (CodePoint.ofChar '"'))

/-- A number, of any of the three kinds, or what is wrong with it. -/
def writeUnsigned (n : Int) : Except Failure Text :=
  match n with
  | .ofNat n => writeNatural n
  | .negSucc m =>
    if Numeral.isWritable (m + 1) then .error (.unwritable (.negativeUnsigned (.negSucc m)))
    else .error (.unwritable .integerTooLong)

/-- A number of the signed kind: a minus sign and what it takes away. -/
def writeSigned (n : Int) : Except Failure Text :=
  if 0 < n then
    if Numeral.isWritable n.toNat then .error (.unwritable (.positiveSigned n))
    else .error (.unwritable .integerTooLong)
  else
    match writeNatural n.natAbs with
    | .error failure => .error failure
    | .ok digits => .ok (CodePoint.ofChar '-' :: digits)

/-- A floating-point number. -/
def writeFloat (x : Binary64) : Except Failure Text :=
  if x.isFinite then .ok x.numeral else .error (.unwritable (.nonFinite x))

/-- A text, after what is written. -/
def append (out : Array CodePoint) : Except Failure Text → Except Failure (Array CodePoint)
  | .error failure => .error failure
  | .ok written => .ok (out ++ written)

mutual

/-- **Writes a tree**, after what is written and inside the containers that
the guard counts. -/
def write (leaf : φ → Datum) (guard : DepthGuard) (out : Array CodePoint) :
    JsonTree φ → Except Failure (Array CodePoint)
  | null => .ok (out ++ Text.ofChars ['n', 'u', 'l', 'l'])
  | bool true => .ok (out ++ Text.ofChars ['t', 'r', 'u', 'e'])
  | bool false => .ok (out ++ Text.ofChars ['f', 'a', 'l', 's', 'e'])
  | unsigned n => append out (writeUnsigned n)
  | signed n => append out (writeSigned n)
  | float x => append out (writeFloat x)
  | string s => writeString out s
  | array items =>
    match guard.enter with
    | .error failure => .error failure
    | .ok inside => writeItems leaf inside (out.push (CodePoint.ofChar '[')) true items
  | object members =>
    match guard.enter with
    | .error failure => .error failure
    | .ok inside => writeMembers leaf inside (out.push (CodePoint.ofChar '\x7b')) true members
  | foreign x => .error (.unwritable (.foreign (leaf x)))

/-- Writes the items of an array and its closing bracket; a comma comes before
every item but the first. -/
def writeItems (leaf : φ → Datum) (guard : DepthGuard) (out : Array CodePoint) (first : Bool) :
    List (JsonTree φ) → Except Failure (Array CodePoint)
  | [] => .ok (out.push (CodePoint.ofChar ']'))
  | item :: rest =>
    match write leaf guard (if first then out else out.push (CodePoint.ofChar ',')) item with
    | .error failure => .error failure
    | .ok out => writeItems leaf guard out false rest

/-- Writes the members of an object and its closing bracket; a comma comes
before every member but the first. -/
def writeMembers (leaf : φ → Datum) (guard : DepthGuard) (out : Array CodePoint) (first : Bool) :
    List (Text × JsonTree φ) → Except Failure (Array CodePoint)
  | [] => .ok (out.push (CodePoint.ofChar '\x7d'))
  | (key, value) :: rest =>
    match writeString (if first then out else out.push (CodePoint.ofChar ',')) key with
    | .error failure => .error failure
    | .ok out =>
      match write leaf guard (out.push (CodePoint.ofChar ':')) value with
      | .error failure => .error failure
      | .ok out => writeMembers leaf guard out false rest

end

/-- **The JSON text of a tree**, nested no deeper than a limit. -/
def serialize (leaf : φ → Datum) (v : JsonTree φ) (maxDepth : Option Int)
    (frames : Nat := Limits.stackFrames) : Except Failure Text :=
  match Limits.resolveDepth maxDepth with
  | .error failure => .error failure
  | .ok depth =>
    match write leaf (.ofDepth depth frames) #[] v with
    | .error failure => .error failure
    | .ok out => .ok out.toList

/-- What is recorded when a tree is written. -/
def serializeEvents (maxDepth : Option Int) (frames : Nat := Limits.stackFrames) : List Event :=
  match Limits.resolveDepth maxDepth with
  | .error _ => []
  | .ok depth => Limits.clampEvents depth 1 Limits.reservedFrames frames

end StreamGrammar.JsonTree

namespace StreamGrammar.Json

/-- The JSON text of a value, nested no deeper than a limit. -/
def serialize (v : Json) (maxDepth : Option Int) (frames : Nat := Limits.stackFrames) :
    Except Failure Text :=
  JsonTree.serialize Empty.elim v maxDepth frames

end StreamGrammar.Json
