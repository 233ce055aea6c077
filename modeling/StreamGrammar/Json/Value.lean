import StreamGrammar.Datum
import StreamGrammar.Entries

/-!
# JSON values

A number keeps the way it was written: without sign, fraction or exponent it
is *unsigned*, with a sign alone it is *signed* (so `-0` is the signed zero),
and else it is a floating-point number. Objects keep the order of their
members, and a repeated key keeps its first place and its last value.

`JsonTree φ` is a tree of these kinds that may hold leaves of some other kind
`φ`; with no such leaves it is a JSON value.
-/

namespace StreamGrammar

/-- **A tree of the JSON kinds**, with leaves of a foreign kind. -/
inductive JsonTree (φ : Type) where
  /-- The null value. -/
  | null
  /-- A truth value. -/
  | bool (value : Bool)
  /-- An integer written without a sign. -/
  | unsigned (value : Int)
  /-- An integer written with a minus sign. -/
  | signed (value : Int)
  /-- A number with a fraction or an exponent. -/
  | float (value : Binary64)
  /-- A string. -/
  | string (value : Text)
  /-- An array. -/
  | array (items : List (JsonTree φ))
  /-- An object, with its members in order. -/
  | object (members : List (Text × JsonTree φ))
  /-- A leaf of the foreign kind. -/
  | foreign (leaf : φ)

/-- **A JSON value.** -/
abbrev Json := JsonTree Empty

namespace JsonTree

variable {φ : Type}

instance : Inhabited (JsonTree φ) := ⟨null⟩

mutual

/-- A JSON value with its description. -/
def describe (leaf : φ → Datum) : JsonTree φ → Datum
  | null => .record "Null" []
  | bool b => .record "Bool" [("value", .bool b)]
  | unsigned n => .record "UnsignedInt" [("value", .int n)]
  | signed n => .record "SignedInt" [("value", .int n)]
  | float x => .record "Float" [("value", .float x)]
  | string s => .record "String" [("value", .text s)]
  | array items => .record "Array" [("items", .tuple (describeItems leaf items))]
  | object members => .record "Object" [("members", .dict (describeMembers leaf members))]
  | foreign x => leaf x

/-- The items of an array with their descriptions. -/
def describeItems (leaf : φ → Datum) : List (JsonTree φ) → List Datum
  | [] => []
  | item :: rest => describe leaf item :: describeItems leaf rest

/-- The members of an object with their descriptions. -/
def describeMembers (leaf : φ → Datum) : List (Text × JsonTree φ) → List (Datum × Datum)
  | [] => []
  | (key, value) :: rest => (.text key, describe leaf value) :: describeMembers leaf rest

end

mutual

/-- Whether two trees are the same, given when two foreign leaves are. -/
def same (leaf : φ → φ → Bool) : JsonTree φ → JsonTree φ → Bool
  | null, null => true
  | bool a, bool b => a == b
  | unsigned a, unsigned b => a == b
  | signed a, signed b => a == b
  | float a, float b => a == b
  | string a, string b => a == b
  | array a, array b => sameItems leaf a b
  | object a, object b => sameMembers leaf a b
  | foreign a, foreign b => leaf a b
  | _, _ => false

/-- Whether two lists of items are the same. -/
def sameItems (leaf : φ → φ → Bool) : List (JsonTree φ) → List (JsonTree φ) → Bool
  | [], [] => true
  | a :: as, b :: bs => if same leaf a b then sameItems leaf as bs else false
  | _, _ => false

/-- Whether two lists of members are the same, in the same order. -/
def sameMembers (leaf : φ → φ → Bool) :
    List (Text × JsonTree φ) → List (Text × JsonTree φ) → Bool
  | [], [] => true
  | (k, a) :: as, (l, b) :: bs =>
    if k == l && same leaf a b then sameMembers leaf as bs else false
  | _, _ => false

end

end JsonTree

/-- A JSON value with its description. -/
def Json.describe (v : Json) : Datum := JsonTree.describe Empty.elim v

end StreamGrammar
