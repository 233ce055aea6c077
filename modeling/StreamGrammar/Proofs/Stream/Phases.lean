import StreamGrammar.Http.Head
import StreamGrammar.Proofs.Grammar.ChoiceFree
import StreamGrammar.Proofs.Grammar.Lookahead
import StreamGrammar.Proofs.Stream.Phase

/-!
# Phases in a row read as one pass over the whole

Readers are made of phases, each of which starts from what the last one left
over. Nothing is kept between them but these bytes and the source, and a phase
knows no more of the input than it had to read.

All the same, phases in a row come to what their parsers come to one after the
other on a single cursor over all bytes, as long as decisions hold and parsers
only look ahead (`Reader.phases_follow`). The invariant is that what is
left over and what is still unread are together what is left at the cursor. So
no byte is lost between phases or seen twice, and a phase that runs out of
input has seen all there was – also where an earlier phase had come to the end
of the source already, or where the last read was as long as it was asked to be.
-/

namespace StreamGrammar

variable {ε α : Type}

/-- **What came of several parsers in a row**: the values of those that matched,
up to the first that did not, and how it ended. -/
structure Course (α ω : Type) where
  /-- The values, in order. -/
  values : List α
  /-- How it ended. -/
  ended : ω

/-- The course with one more value before the others. -/
def Course.cons {ω : Type} (value : α) (rest : Course α ω) : Course α ω :=
  { rest with values := value :: rest.values }

/-- **Parsers one after the other on one source**, each where the last one
stopped. -/
def Parser.thread : List (Parser ε α) → Cursor ε → Course α (Outcome ε Unit)
  | [], c => { values := [], ended := .matched () c }
  | p :: parsers, c =>
    match p c with
    | .matched value remainder => (thread parsers remainder).cons value
    | failed => { values := [], ended := failed.map fun _ => () }

namespace Reader

/-- A phase to be run: a parser, and a template for what it refuses. -/
structure Stage (α : Type) where
  /-- The parser. -/
  parser : Parser UInt8 α
  /-- How its refusals are reported; as those of any parser if nothing is
  said. -/
  template : Option Template := none

/-- **Runs phases in a row**, each on what the last one left over. -/
def phases (r : Reader) :
    List (Stage α) → Bytes → Session → Course α (Except Failure Bytes × Session)
  | [], leftover, s => { values := [], ended := (.ok leftover, s) }
  | stage :: stages, leftover, s =>
    match r.phase stage.parser leftover stage.template s with
    | (.ok { value, leftover }, after) => (phases r stages leftover after).cons value
    | (.error failure, after) => { values := [], ended := (.error failure, after) }

/-- **How phases end where the pass over the whole ends so.** -/
inductive EndsAs : Outcome UInt8 Unit → Except Failure Bytes × Session → Prop
  /-- What is left over and what is unread are together what remains. -/
  | matched {remainder : Cursor UInt8} {leftover : Bytes} {after : Session}
      (h : leftover ++ after.source.bytes = remainder.rest) :
      EndsAs (.matched () remainder) (.ok leftover, after)
  /-- A rejection is a failure that is not fatal. -/
  | rejected (reason : Reason) (notice : Notice) (text : Text) (after : Session) :
      EndsAs (.rejected reason) (.error (.parse notice text false), after)
  /-- Malformed input is a fatal failure. -/
  | fatal (reason : Reason) (notice : Notice) (text : Text) (after : Session) :
      EndsAs (.fatal reason) (.error (.parse notice text true), after)
  /-- What is undecided to the end is incomplete. -/
  | truncated (best : Option Unit) (remainder : Cursor UInt8) (notice : Notice) (text : Text)
      (after : Session) :
      EndsAs (.truncated best remainder) (.error (.incomplete notice text false), after)

variable {r : Reader} {stages : List (Stage α)}

/-- **Phases in a row go along with a pass over the whole** from any place on,
if what is left there is what was left over and what is unread. -/
theorem phases_follow (h : r.maxBufferSize = 0)
    (hstages : ∀ stage ∈ stages, stage.parser.Steady ∧ stage.parser.LooksAhead)
    {c : Cursor UInt8} (hc : c.Growing) {leftover : Bytes} {s : Session} (hs : s.AtHand)
    (hwhole : c.rest = leftover ++ s.source.bytes) :
    (r.phases stages leftover s).values =
        (Parser.thread (stages.map Stage.parser) c).values ∧
      EndsAs (Parser.thread (stages.map Stage.parser) c).ended
        (r.phases stages leftover s).ended := by
  induction stages generalizing c leftover s with
  | nil => exact ⟨rfl, .matched hwhole.symm⟩
  | cons stage stages ih =>
    obtain ⟨hsteady, hlook⟩ := hstages stage List.mem_cons_self
    have hreads := hlook.readsAs hc
    have hphase := concludes_phase stage.template h hsteady leftover hs
    rw [← hwhole] at hphase
    rw [phases, List.map_cons, Parser.thread]
    generalize stage.parser.verdict false c.rest = v at hreads hphase
    generalize r.phase stage.parser leftover stage.template s = ended at hphase ⊢
    cases hrun : stage.parser c with
    | matched value remainder =>
      rw [hrun] at hreads
      cases hreads
      cases hphase with
      | matched hafter hrest =>
        -- the next parser starts where this one stopped, at what this one left
        have hr := hlook.reaches hc hrun
        obtain ⟨hvalues, hended⟩ := ih (fun stage hstage =>
          hstages stage (List.mem_cons_of_mem _ hstage)) (hc.of_reaches hr) hafter hrest.symm
        exact ⟨congrArg (value :: ·) hvalues, hended⟩
    | rejected reason =>
      rw [hrun] at hreads
      cases hreads
      cases hphase
      exact ⟨rfl, .rejected ..⟩
    | fatal reason =>
      rw [hrun] at hreads
      cases hreads
      cases hphase
      exact ⟨rfl, .fatal ..⟩
    | truncated best remainder =>
      rw [hrun] at hreads
      cases hreads
      cases hphase
      exact ⟨rfl, .truncated ..⟩
    | raised fault =>
      rw [hrun] at hreads
      cases hreads
      cases hphase

/-- **Phases in a row come to what one pass over the whole comes to**, whatever
is asked for in one read: the same values, and then the same end. -/
theorem phases_follow_thread (h : r.maxBufferSize = 0)
    (hstages : ∀ stage ∈ stages, stage.parser.Holds false ∧ stage.parser.LooksAhead)
    (leftover data : Bytes) :
    (r.phases stages leftover (.start (.ofBytes data))).values =
        (Parser.thread (stages.map Stage.parser) (.streaming (leftover ++ data))).values ∧
      EndsAs (Parser.thread (stages.map Stage.parser) (.streaming (leftover ++ data))).ended
        (r.phases stages leftover (.start (.ofBytes data))).ended := by
  obtain ⟨hs, hbytes⟩ := Session.atHand_of_eq
    (show (Session.start (.ofBytes data)).source = .ofBytes data from rfl)
  refine phases_follow h (fun stage hstage => ?_) (Cursor.growing_streaming _) hs ?_
  · obtain ⟨hholds, hlook⟩ := hstages stage hstage
    exact ⟨hlook.steady hholds, hlook⟩
  · rw [Cursor.rest_streaming, hbytes]

/-- A word and the blank after it, as a phase. -/
def wordStage : Stage Bytes :=
  { parser := (Grammar.terminated Http.word Http.blank).run }

/-- Three words read three bytes at a time, where two bytes are here already and
the last word has no blank after it. -/
theorem phases_follow_thread_words :
    let r : Reader := { readSize := 3, maxBufferSize := 0, readSize_pos := by decide }
    let stages := [wordStage, wordStage, wordStage]
    let leftover := Element.piece ['G', 'E']
    let data := Element.piece "T /index HTTP".toList
    (∀ stage ∈ stages, stage.parser.Holds false ∧ stage.parser.LooksAhead) ∧
      (Parser.thread (stages.map Stage.parser) (.streaming (leftover ++ data))).values =
        [Element.piece "GET".toList, Element.piece "/index".toList] ∧
      (r.phases stages leftover (.start (.ofBytes data))).values =
        (Parser.thread (stages.map Stage.parser) (.streaming (leftover ++ data))).values ∧
      EndsAs (Parser.thread (stages.map Stage.parser) (.streaming (leftover ++ data))).ended
        (r.phases stages leftover (.start (.ofBytes data))).ended := by
  have hvalues :
      (Parser.thread ([wordStage, wordStage, wordStage].map Stage.parser)
        (.streaming (Element.piece ['G', 'E'] ++ Element.piece "T /index HTTP".toList))).values =
      [Element.piece "GET".toList, Element.piece "/index".toList] := by cbv
  intro r stages leftover data
  have hfree : (Grammar.terminated Http.word Http.blank).ChoiceFree := by
    simp [Grammar.terminated, Http.word, Http.blank, Grammar.ascii, Grammar.char,
      Grammar.ChoiceFree]
  have hstages : ∀ stage ∈ stages, stage.parser.Holds false ∧ stage.parser.LooksAhead := by
    intro stage hstage
    simp only [stages, List.mem_cons, List.not_mem_nil, or_false, or_self] at hstage
    rw [hstage]
    exact ⟨hfree.final.holds false, Grammar.looksAhead _⟩
  exact ⟨hstages, hvalues, phases_follow_thread rfl hstages leftover data⟩

end Reader

end StreamGrammar
