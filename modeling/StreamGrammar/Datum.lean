import StreamGrammar.Text.Quoted
import StreamGrammar.Binary64.Decimal

/-!
# Self-describing data

The reasons of a failed parse show values: the piece of input that was found,
the value that could not be converted. Those come in every type a grammar can
have, so what is shown is a `Datum`, a tree that carries its own description.
It is also the type of the values of a grammar whose shape is only known when
the program runs.
-/

namespace StreamGrammar

/-- **A value with its description.** -/
inductive Datum where
  /-- No value. -/
  | null
  /-- A truth value. -/
  | bool (value : Bool)
  /-- An integer. -/
  | int (value : Int)
  /-- A floating-point number. -/
  | float (value : Binary64)
  /-- A text. -/
  | text (value : Text)
  /-- A byte string. -/
  | bytes (value : Bytes)
  /-- Any number of values of one kind. -/
  | list (items : List Datum)
  /-- A fixed number of values. -/
  | tuple (items : List Datum)
  /-- Values under keys, in order. -/
  | dict (entries : List (Datum × Datum))
  /-- Values under the field names of a named type. -/
  | record (name : String) (fields : List (String × Datum))

namespace Datum

/-- A value or none. -/
def option {α : Type} (f : α → Datum) : Option α → Datum
  | none => .null
  | some a => f a

/-- A mapping of texts to texts. -/
def texts (entries : List (Text × Text)) : Datum :=
  .dict (entries.map fun e => (.text e.1, .text e.2))

/-- Whether the value is none. -/
def isNull : Datum → Bool
  | .null => true
  | _ => false

/-- How many elements a text, a byte string or a collection has. -/
def length? : Datum → Option Nat
  | .text t => some t.length
  | .bytes b => some b.length
  | .list xs => some xs.length
  | .tuple xs => some xs.length
  | .dict es => some es.length
  | _ => none

mutual

/-- **How a value is shown.** -/
def display : Datum → Text
  | .null => "None"
  | .bool true => "True"
  | .bool false => "False"
  | .int n => Numeral.signed n
  | .float x => x.numeral
  | .text t => Quoted.text t
  | .bytes b => Quoted.bytes b
  | .list items => Text.concat ["[", displayItems items, "]"]
  | .tuple [single] => Text.concat ["(", display single, ",)"]
  | .tuple items => Text.concat ["(", displayItems items, ")"]
  | .dict entries => Text.concat ["\x7b", displayEntries entries, "\x7d"]
  | .record name fields => Text.concat [name, "(", displayFields fields, ")"]

/-- Values with a comma and a blank between them. -/
def displayItems : List Datum → Text
  | [] => []
  | [single] => display single
  | item :: rest => Text.concat [display item, ", ", displayItems rest]

/-- Entries, each a key, a colon and a value. -/
def displayEntries : List (Datum × Datum) → Text
  | [] => []
  | [(key, value)] => Text.concat [display key, ": ", display value]
  | (key, value) :: rest =>
    Text.concat [display key, ": ", display value, ", ", displayEntries rest]

/-- Fields, each a name, an equals sign and a value. -/
def displayFields : List (String × Datum) → Text
  | [] => []
  | [(name, value)] => Text.concat [name, "=", display value]
  | (name, value) :: rest => Text.concat [name, "=", display value, ", ", displayFields rest]

end

end Datum

end StreamGrammar
