import StreamGrammar.Proofs.Grammar.Persistence
import StreamGrammar.Proofs.Http.Final
import StreamGrammar.Proofs.Json.Final

/-!
# Decisions of the grammars of request heads and of JSON

Their decisions are final, so they persist: no beginning of an accepted
document, or of an accepted request head, is refused or taken for the whole.
-/

namespace StreamGrammar

/-- **What the grammars of request heads and of JSON decide, they decide for
good** – the latter over text and over bytes, whatever the limit on nesting. -/
theorem head_and_json_decideForGood :
    (Http.requestLine.DecidesForGood ∧ Http.headerLine.DecidesForGood ∧
      Http.headerEntry.DecidesForGood ∧ Http.divider.DecidesForGood ∧
      Http.requestHead.DecidesForGood) ∧
    ∀ limit : Nat,
      (Json.value limit : Grammar CodePoint Json).DecidesForGood ∧
      (Json.value limit : Grammar UInt8 Json).DecidesForGood ∧
      (Json.document limit : Grammar CodePoint Json).DecidesForGood ∧
      (Json.document limit : Grammar UInt8 Json).DecidesForGood :=
  ⟨⟨Http.final_requestLine.decidesForGood, Http.final_headerLine.decidesForGood,
      Http.final_headerEntry.decidesForGood, Http.final_divider.decidesForGood,
      Http.final_requestHead.decidesForGood⟩,
    fun limit => ⟨(Json.final_value limit).decidesForGood,
      (Json.final_value limit).decidesForGood, (Json.final_document limit).decidesForGood,
      (Json.final_document limit).decidesForGood⟩⟩

end StreamGrammar
