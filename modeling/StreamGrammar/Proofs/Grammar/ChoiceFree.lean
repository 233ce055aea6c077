import StreamGrammar.Charset
import StreamGrammar.Proofs.Grammar.Guarded
import StreamGrammar.Proofs.Grammar.Persistence

/-!
# Grammars without choices

Only three constructs can make a grammar decide too early: the two choices,
which may settle on one alternative while another is still undecided, and
`acceptLimit`, which takes the end of what has arrived for the end of the input.
A grammar that does without them decides for good, whatever it is built of. A
choice is not needed to say *maybe* (`optional`), *again* (`repeatAny`,
`separatedItems`) or *as follows from the value* (`bind`), so such grammars are
many; the head of a request is one.

The induction over the grammar has one lemma for each construct, all of them in
`Grammar.Final`. A pipe asks for one thing more, since its inner grammar runs on
complete input, and that is where a final decision says nothing of it: that no
unguarded conversion ends the run (`ChoiceFree.guarded`).
-/

namespace StreamGrammar

variable {ε α : Type}

namespace Grammar

/-- **A grammar without choices**: neither of the two occurs in it, nor
`acceptLimit`, and no function in it fails but those whose failures are
refusals. -/
def ChoiceFree : {α : Type} → Grammar ε α → Prop
  | _, satisfy _ _ => True
  | _, literal _ => True
  | _, take _ => True
  | _, takeWhile _ => True
  | _, takeSomeWhile _ => True
  | _, otherThan _ => True
  | _, endOfInput => True
  | _, succeed _ => True
  | _, undecided _ _ => True
  | _, map _ p => ChoiceFree p
  | _, mapRaising f p => (∀ a, ∃ b, f a = .ok b) ∧ ChoiceFree p
  | _, recast _ p => ChoiceFree p
  | _, judge _ _ p => ChoiceFree p
  | _, bind p next => ChoiceFree p ∧ ∀ a, ChoiceFree (next a)
  | _, optional p => ChoiceFree p
  | _, either _ _ => False
  | _, alt _ _ => False
  | _, noAlternative => False
  | _, peek p => ChoiceFree p
  | _, pipe outer inner => ChoiceFree outer ∧ ChoiceFree inner
  | _, repeatAny p => ChoiceFree p
  | _, repeatSome p => ChoiceFree p
  | _, separatedItems separator item => ChoiceFree separator ∧ ChoiceFree item
  | _, label p _ => ChoiceFree p
  | _, halt _ p => ChoiceFree p
  | _, acceptLimit _ => False

variable [Element ε] {g : Grammar ε α}

omit [Element ε] in
/-- No function fails in a grammar without choices. -/
theorem ChoiceFree.guarded (h : g.ChoiceFree) : g.Guarded True := by
  induction g with
  | undecided best count => trivial
  | mapRaising f p ih => exact ⟨h.1, ih h.2⟩
  | bind p next ih ihNext => exact ⟨ih h.1, fun a => ihNext a (h.2 a)⟩
  | pipe outer inner ih ih' => exact ⟨ih h.1, ih' h.2⟩
  | separatedItems separator item ih ih' => exact ⟨ih h.1, ih' h.2⟩
  | either p q | alt p q | noAlternative | acceptLimit p => exact h.elim
  | map f p ih | recast f p ih | judge refusal accept p ih | optional p ih | peek p ih
  | repeatAny p ih | repeatSome p ih | label p name ih | halt name p ih => exact ih h
  | _ => trivial

/-- **A grammar without choices decides for good.** -/
theorem ChoiceFree.final (h : g.ChoiceFree) : g.Final := by
  induction g with
  | satisfy test what => exact .satisfy test what
  | literal expected => exact .literal expected
  | take count => exact .take count
  | takeWhile test => exact .takeWhile test
  | takeSomeWhile test => exact .takeSomeWhile test
  | otherThan elements => exact .otherThan elements
  | endOfInput => exact .endOfInput
  | succeed value => exact .succeed value
  | undecided best count => exact .of_undecided best count
  | map f p ih => exact (ih h).map f
  | mapRaising f p ih => exact (ih h.2).mapRaising h.1
  | recast f p ih => exact (ih h).recast f
  | judge refusal accept p ih => exact (ih h).judge refusal accept
  | bind p next ih ihNext => exact (ih h.1).bind fun a => ihNext a (h.2 a)
  | optional p ih => exact (ih h).optional
  | either p q ih ih' => exact h.elim
  | alt p q ih ih' => exact h.elim
  | noAlternative => exact h.elim
  | peek p ih => exact (ih h).peek
  | pipe outer inner ih ih' =>
    -- the inner grammar need not decide for good, only decide
    exact (ih h.1).pipe fun piece => (h.2.guarded.ends (fun _ => trivial) piece).ne_raised
  | repeatAny p ih => exact (ih h).repeatAny
  | repeatSome p ih => exact (ih h).repeatSome
  | separatedItems separator item ih ih' => exact (ih h.1).separatedItems (ih' h.2)
  | label p name ih => exact (ih h).label name
  | halt name p ih => exact (ih h).halt name
  | acceptLimit p ih => exact h.elim

/-- **What a grammar without choices decides on a beginning of a source it
decides on the source**: at every place of it, with the same value and the same
remaining place for a match, and whether more may still follow or not. -/
theorem ChoiceFree.outcome_persists (h : g.ChoiceFree) (source more : List ε) {pos : Nat}
    (final : Bool) (hpos : pos ≤ source.length) :
    (g.run { source := source.toArray, pos, final := false }).Persists
      (g.run { source := (source ++ more).toArray, pos, final }) :=
  h.final.persists source more pos final hpos

/-- Numbers in brackets, each split into its digits: a loop in a pipe in a
loop. -/
def digitLists : Grammar CodePoint (List (List CodePoint)) :=
  between (ascii '[')
    (separatedItems (ascii ',')
      (pipe (takeSomeWhile fun c => Charset.isDigit c.val)
        (repeatSome (satisfy (fun c => Charset.isDigit c.val) (.named "digit")))))
    (ascii ']')

/-- At the second place of `x[1,23]`, where the list is decided, and of the same
source with a semicolon after it. -/
theorem ChoiceFree.outcome_persists_digitLists :
    digitLists.ChoiceFree ∧ 1 ≤ (Element.piece "x[1,23]".toList : List CodePoint).length ∧
      (digitLists.run ⟨(Element.piece "x[1,23]".toList).toArray, 1, false⟩).isDecided = true ∧
      (digitLists.run ⟨(Element.piece "x[1,23]".toList).toArray, 1, false⟩).Persists
        (digitLists.run
          ⟨(Element.piece "x[1,23]".toList ++ Element.piece [';']).toArray, 1, true⟩) := by
  have h : digitLists.ChoiceFree := by simp [digitLists, between, ascii, char, ChoiceFree]
  exact ⟨h, by decide, by cbv,
    h.outcome_persists (Element.piece "x[1,23]".toList) (Element.piece [';']) true (by decide)⟩

end Grammar

end StreamGrammar
