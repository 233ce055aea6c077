import StreamGrammar.Http.Head
import StreamGrammar.Proofs.Grammar.Final

/-!
# The grammars of a request head decide finally

All of them are sequences of runs and literals, where nothing can go wrong. The
one choice is that between the blank line and a header line, and it is settled
by one byte.
-/

namespace StreamGrammar.Http

open Grammar

theorem final_requestLine : requestLine.Final :=
  .serial3 (.terminated ((Final.takeSomeWhile _).convert _ |>.map _) (.satisfy _ _))
    (.terminated ((Final.otherThan _).convert _) (.satisfy _ _))
    (.terminated (.preceded (.literal _) ((Final.otherThan _).convert _)) (.literal _))

theorem final_headerLine : headerLine.Final :=
  Final.serial4 ((Final.otherThan _).convert _ |>.map _) (.literal _)
    (((Final.otherThan _).convert _).optional.map _) (.literal _) |>.map _

theorem final_headerEntry : headerEntry.Final :=
  .either ((Final.satisfy _ _).peek.map _) (final_headerLine.map _)
    ((DecidesAtOnce.satisfy _ _).peek.map _)
    ((((((AwaitsElement.otherThan _).judge _ _).map _).bind _).map _).map _)

theorem final_divider : divider.Final := .literal _

theorem final_requestHead : requestHead.Final :=
  Final.serial3 final_requestLine (final_headerLine.repeatAny.convertOrHalt _) final_divider
    |>.map _

end StreamGrammar.Http
