import StreamGrammar.Grammar.Untyped
import StreamGrammar.Http.Reading
import StreamGrammar.Json.Grammar
import StreamGrammar.Json.Writer
import StreamGrammar.Uri.Grammar
import StreamGrammar.Proofs.Decision
import StreamGrammar.Proofs.Uri.Final
import StreamGrammar.Proofs.Grammar.Choice
import StreamGrammar.Proofs.Http.Soundness
import StreamGrammar.Proofs.Json.RoundTrip
import StreamGrammar.Proofs.Stream.Phases
import StreamGrammar.Proofs.Http.Wire
import StreamGrammar.Proofs.Http.Agreement
import StreamGrammar.Proofs.Http.Format
import StreamGrammar.Proofs.Grammar.Lockstep
import StreamGrammar.Proofs.Grammar.Readable
import StreamGrammar.Proofs.Json.Phrase
import StreamGrammar.Proofs.Json.Alphabets
import StreamGrammar.Proofs.Json.Canonical
import StreamGrammar.Proofs.Json.Document
import StreamGrammar.Proofs.Json.Surrogates
import StreamGrammar.Proofs.Json.Depth
import StreamGrammar.Proofs.Grammar.Progress
import StreamGrammar.Proofs.Grammar.Reanchoring
import StreamGrammar.Proofs.Answers
import StreamGrammar.Proofs.Uri.Rendering
import StreamGrammar.Proofs.Resolute
import StreamGrammar.Proofs.Grammar.Trace
import StreamGrammar.Proofs.Uri.Target
import StreamGrammar.Proofs.Http.Pipelining
import StreamGrammar.Proofs.Http.Limits
import StreamGrammar.Proofs.Uri.Accepted
import StreamGrammar.Proofs.Uri.Decoding
import StreamGrammar.Proofs.Uri.Embedded
import StreamGrammar.Proofs.Stream.Discipline
import StreamGrammar.Proofs.Http.Frugal
import StreamGrammar.Proofs.Uri.HostClass
import StreamGrammar.Proofs.Uri.Delimiters
import StreamGrammar.Proofs.Grammar.OrderedChoice
import StreamGrammar.Proofs.Grammar.Separated
import StreamGrammar.Proofs.Lines
import StreamGrammar.Proofs.Json.Refusals
import StreamGrammar.Proofs.DepthGuard
import StreamGrammar.Proofs.Diagnostic.Report
