import StreamGrammar.Http.Head
import StreamGrammar.Proofs.Grammar.Matched
import StreamGrammar.Proofs.Stream.Phase

/-!
# Header lines consume

The loop over the header lines ends because none of them is empty. A line starts
with a name, and a name has a character at least, which the parsers after it
cannot give back. What a phase takes from the bytes that were here already and
from its reads is therefore more than what it leaves over, whatever the reads
bring.
-/

namespace StreamGrammar.Http

open Grammar

theorem consumes_headerLine : headerLine.Consumes :=
  ((((Consumes.otherThan _).judge _ _).map _).bind _).map _

/-- The blank line is looked for and gives no field, so a field comes from a
header line. -/
theorem headerLine_of_headerEntry {final : Bool} {s rest : Bytes} {field : Text × Text}
    (h : headerEntry.verdict final s = .matched (some field) rest) :
    headerLine.verdict final s = .matched field rest := by
  rcases matched_of_either h with h | h
  · obtain ⟨_, _, hnone⟩ := matched_map.mp h
    cases hnone
  · obtain ⟨field', hline, hsome⟩ := matched_map.mp h
    cases hsome
    exact hline

theorem headerEntry_consumes {final : Bool} {s rest : Bytes} {field : Text × Text}
    (h : headerEntry.verdict final s = .matched (some field) rest) : rest.length < s.length :=
  consumes_headerLine (headerLine_of_headerEntry h)

/-- **Every header line leaves less to come**, here or in the source. -/
theorem run_headerEntry_lt {r : Reader} {template : Option Template} {leftover rest : Bytes}
    {field : Text × Text} {s after : Session}
    (h : r.run headerEntry rest template s =
      (.ok { value := some field, leftover }, after)) :
    leftover.length + after.source.weight < rest.length + s.source.weight := by
  obtain ⟨read, hstops, _, hweight⟩ := Reader.phase_stops h
  cases hstops with
  | @matched _ remainder hrun =>
    have hmatched : headerEntry.verdict false (rest ++ read) =
        .matched (some field) remainder.rest := congrArg Outcome.verdict hrun
    have hlt := headerEntry_consumes hmatched
    rw [List.length_append] at hlt
    omega

end StreamGrammar.Http
