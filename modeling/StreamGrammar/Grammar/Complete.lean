import StreamGrammar.Grammar.Run
import StreamGrammar.Limits

/-!
# Parsing a complete source

`Grammar.parseAll` is the boundary between outcomes and failures for a source
that is all there: it runs a grammar from the start of the source and turns
whatever is not a match – and a match that leaves input over – into a failure.
-/

namespace StreamGrammar

/-- How a refusal is reported: from the wording of its reason and its place,
if that is known. -/
abbrev Template := Text → Option Span → Diagnostic

/-- The settings of a complete parse. -/
structure ParseSettings where
  /-- Whether input left over is a failure. -/
  requireEnd : Bool := true
  /-- The greatest number of elements; zero for no limit. -/
  maxSourceSize : Option Int := none
  /-- How a refusal is reported, if not as such. -/
  template : Option Template := none

namespace Grammar

variable {ε α : Type} [Element ε]

/-- **The value that a grammar finds in a complete source.** -/
def parseAll (g : Grammar ε α) (source : List ε) (settings : ParseSettings) :
    Except Failure α :=
  match Limits.resolve settings.maxSourceSize Limits.maxSourceSize with
  | .error failure => .error failure
  | .ok limit =>
    match Limits.checkSourceSize source.length limit with
    | .error failure => .error failure
    | .ok () =>
      match g.run (.complete source) with
      | .matched value remainder =>
        if settings.requireEnd && !remainder.atEnd then
          let d := Diagnostic.trailingInput remainder.toSpan
          .error (.parse (.diagnosed d) d.message false)
        else .ok value
      | .rejected reason =>
        let template := settings.template.getD .parseRejected
        .error (.parse (.diagnosed (template reason.text none)) reason.text false)
      | .fatal reason =>
        let template := settings.template.getD .parseFatal
        .error (.parse (.diagnosed (template reason.text none)) reason.text true)
      | .truncated _ _ =>
        let stop := { Cursor.complete source with pos := source.length }.toSpan
        .error (.incomplete (.diagnosed (.incompleteInput source.length (some stop)))
          "incomplete input" false)
      | .raised fault => .error (.unguarded fault)

/-- What is recorded of a complete parse. -/
def parseAllEvents (g : Grammar ε α) (source : List ε) (settings : ParseSettings) : List Event :=
  match Limits.resolve settings.maxSourceSize Limits.maxSourceSize with
  | .error _ => []
  | .ok limit =>
    match Limits.checkSourceSize source.length limit with
    | .error _ => []
    | .ok () =>
      match g.run (.complete source) with
      | .rejected reason => [.sourceRejected reason.text]
      | .fatal reason => [.sourceFailed reason.text]
      | _ => []

end Grammar

end StreamGrammar
