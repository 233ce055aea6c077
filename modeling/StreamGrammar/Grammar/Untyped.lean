import StreamGrammar.Grammar.Run

/-!
# Grammars whose shape is known late

A grammar that is put together while the program runs – read from a
description of it, say – has parts whose types nobody wrote down. Its values
are then `Datum`s. The functions here bring typed grammars into that form. They
use `recast`, which changes nothing but the representation, so that the untyped
grammar has the outcomes of the typed one.
-/

namespace StreamGrammar

/-- A grammar for self-describing values. -/
abbrev UntypedGrammar (ε : Type) := Grammar ε Datum

namespace Grammar

variable {ε : Type} [Element ε]

/-- A grammar for elements, each shown as a piece of one. -/
def untypedElement (p : Grammar ε ε) : UntypedGrammar ε := p.recast fun e => Element.datum [e]

/-- A grammar for pieces of input. -/
def untypedPiece (p : Grammar ε (List ε)) : UntypedGrammar ε := p.recast Element.datum

/-- A grammar whose match has no value, shown as the empty piece. -/
def untypedUnit (p : Grammar ε Unit) : UntypedGrammar ε :=
  p.recast fun _ => Element.datum ([] : List ε)

/-- A grammar for lists. -/
def untypedList (p : Grammar ε (List Datum)) : UntypedGrammar ε := p.recast .list

/-- A grammar for values that may be missing. -/
def untypedOption (p : Grammar ε (Option Datum)) : UntypedGrammar ε := p.recast (.option id)

/-- A grammar for two values. -/
def untypedPair (p : Grammar ε (Datum × Datum)) : UntypedGrammar ε :=
  p.recast fun v => .tuple [v.1, v.2]

/-- A grammar for three values. -/
def untypedTriple (p : Grammar ε (Datum × Datum × Datum)) : UntypedGrammar ε :=
  p.recast fun v => .tuple [v.1, v.2.1, v.2.2]

/-- A grammar for four values. -/
def untypedQuadruple (p : Grammar ε (Datum × Datum × Datum × Datum)) : UntypedGrammar ε :=
  p.recast fun v => .tuple [v.1, v.2.1, v.2.2.1, v.2.2.2]

/-- An untyped grammar whose values are pieces of input, as a typed one. -/
def typedPiece (p : UntypedGrammar ε) : Grammar ε (List ε) :=
  p.recast fun d => (Element.ofDatum? d).getD []

end Grammar

/-! ## Conversions of untyped values -/

namespace Datum

/-- The numbers of the elements of a text or a byte string. -/
def codes? : Datum → Option (List Nat)
  | .text t => some (t.map CodePoint.val)
  | .bytes b => some (b.map UInt8.toNat)
  | _ => none

/-- How many elements a value has; a value that is no collection has none. -/
def length (d : Datum) : Except Fault Datum := .ok (.int (d.length?.getD 0))

/-- A list of this one value. -/
def wrap (d : Datum) : Except Fault Datum := .ok (.list [d])

/-- Refuses every value. -/
def refuse (message : Text) (_ : Datum) : Except Fault Datum := .error (.stated message)

/-- The number that a text or byte string of decimal digits denotes. -/
def decimal (d : Datum) : Except Fault Datum :=
  match d.codes? with
  | none | some [] => .error (.stated "not a number")
  | some codes =>
    if codes.all fun n => 48 ≤ n && n ≤ 57 then
      if Numeral.maxDigits < codes.length then .error (.tooManyDigits codes.length)
      else .ok (.int (Numeral.ofDigits (codes.map fun n => n - 48)))
    else .error (.stated "not a number")

end Datum

end StreamGrammar
