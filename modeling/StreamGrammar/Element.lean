import StreamGrammar.Text.Utf8
import StreamGrammar.Datum

/-!
# The elements of input

A grammar is written once and read over two alphabets, code points and bytes.
`Element` is what it needs of either: the number of an element, the element
of an ASCII character, how a piece of input is shown, and the text that a
piece stands for – itself, or what its bytes decode to.
-/

namespace StreamGrammar

/-- Why a conversion refuses a value. -/
inductive Fault where
  /-- The bytes are not UTF-8. -/
  | utf8 (fault : Utf8.Fault)
  /-- The bytes are not ASCII. -/
  | ascii (fault : Ascii.Fault)
  /-- The numeral has more than `Numeral.maxDigits` digits. -/
  | tooManyDigits (count : Nat)
  /-- A rule of the grammar at hand, in its own words. -/
  | stated (message : Text)
deriving DecidableEq

/-- What a refused conversion says. -/
def Fault.message : Fault → Text
  | .utf8 fault => fault.message
  | .ascii fault => fault.message
  | .tooManyDigits count =>
    Text.concat ["Exceeds the limit (", Numeral.decimal Numeral.maxDigits,
      " digits) for integer string conversion: value has ", Numeral.decimal count,
      " digits; use sys.set_int_max_str_digits() to increase the limit"]
  | .stated message => message

/-- **An alphabet of input elements.** -/
class Element (ε : Type) where
  /-- Elements can be told apart. -/
  decEq : DecidableEq ε
  /-- The number of an element. -/
  code : ε → Nat
  /-- The element that an ASCII character stands for. -/
  ofAscii : Char → ε
  /-- A piece of input as a value. -/
  datum : List ε → Datum
  /-- The piece of input that a value is, if it is one. -/
  ofDatum? : Datum → Option (List ε)
  /-- The text that a piece of input stands for. -/
  decode : List ε → Except Fault Text

namespace Element

instance (priority := low) {ε : Type} [Element ε] : DecidableEq ε := decEq

instance : Element CodePoint where
  decEq := inferInstance
  code := CodePoint.val
  ofAscii := CodePoint.ofChar
  datum := .text
  ofDatum?
    | .text t => some t
    | _ => none
  decode t := .ok t

instance : Element UInt8 where
  decEq := inferInstance
  code := UInt8.toNat
  ofAscii c := UInt8.ofNat c.toNat
  datum := .bytes
  ofDatum?
    | .bytes b => some b
    | _ => none
  decode b := (Utf8.decode b).mapError .utf8

variable {ε : Type} [Element ε]

/-- The piece of input that ASCII characters stand for. -/
def piece (chars : List Char) : List ε := chars.map ofAscii

/-- Whether an element is one of some ASCII characters. -/
def isIn (chars : List Char) (e : ε) : Bool := chars.any fun c => ofAscii c == e

/-- The line feed, which ends a line. -/
def newline : ε := ofAscii '\n'

end Element

end StreamGrammar
