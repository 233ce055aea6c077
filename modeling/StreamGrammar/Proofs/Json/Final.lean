import StreamGrammar.Json.Grammar
import StreamGrammar.Proofs.Element
import StreamGrammar.Proofs.Grammar.Final

/-!
# The JSON grammar decides finally

Every choice of the JSON grammar is settled by one element: the six kinds of
values begin with different characters, so do the two kinds of containers, and
inside a string only a backslash begins an escape. The recursion over the
levels of nesting adds one more induction.

The statements hold over both alphabets.
-/

namespace StreamGrammar

namespace Grammar

variable {ε α β : Type} [Element ε]

/-- **An alternative of a choice**: a grammar that decides finally, with the
characters that it can begin with. -/
structure Branch (g : Grammar ε α) (chars : List Char) : Prop where
  /-- What it decides is final. -/
  final : g.Final
  /-- It begins with one of the characters. -/
  begins : g.BeginsWith (· ∈ (Element.piece chars : List ε))

namespace Branch

variable {p q : Grammar ε α} {a b : List Char}

theorem nil : (noAlternative : Grammar ε α).Branch [] :=
  ⟨.noAlternative, BeginsWith.noAlternative.mono fun _ h => h.elim⟩

/-- **Alternatives without a common first character make one alternative.** -/
theorem cons [LawfulElement ε] (hp : p.Branch a) (hq : q.Branch b)
    (h : Element.areApart a b = true) : (alt p q).Branch (a ++ b) := by
  constructor
  · exact .alt hp.final hq.final hp.begins hq.begins fun e => Element.not_mem_piece h
  · refine (hp.begins.alt hq.begins).mono fun e he => ?_
    simpa [Element.piece] using he

theorem map [Vacancy β] (hp : p.Branch a) (f : α → β) : (map f p).Branch a :=
  ⟨hp.final.map f, hp.begins.map f⟩

theorem judge (hp : p.Branch a) (refusal : Refusal) (accept : α → Except (Nat → Reason) β) :
    (judge refusal accept p).Branch a :=
  ⟨hp.final.judge _ _, hp.begins.judge _ _⟩

theorem bind (hp : p.Branch a) {next : α → Grammar ε β} (hn : ∀ v, (next v).Final) :
    (bind p next).Branch a :=
  ⟨hp.final.bind hn, hp.begins.bind _⟩

theorem ascii (c : Char) : (ascii c : Grammar ε ε).Branch [c] :=
  ⟨.satisfy _ _, (BeginsWith.satisfy _ _).mono fun e he => by simpa [Element.piece] using he⟩

theorem asciiOf (chars : List Char) : (asciiOf chars : Grammar ε ε).Branch chars :=
  ⟨.satisfy _ _, (BeginsWith.satisfy _ _).mono fun e he => by simpa using he⟩

theorem token (c : Char) (chars : List Char) : (token (c :: chars) : Grammar ε _).Branch [c] :=
  ⟨.literal _, (BeginsWith.literal _ _).mono fun e he => by simp [Element.piece, he]⟩

/-- A grammar rejects at a character that it cannot begin with. -/
theorem rejects [LawfulElement ε] (hp : p.Branch a) (own : List Char)
    (h : Element.areApart own a = true) {c : Char} (hc : c ∈ own) (final : Bool) (s : List ε) :
    p.verdict final (Element.ofAscii c :: s) = .rejected :=
  hp.begins.cons final _ s (Element.not_mem_piece h (List.mem_map_of_mem hc))

end Branch

end Grammar

namespace Json

open Grammar

variable {ε : Type} [Element ε]

theorem final_blanks : (blanks : Grammar ε (List ε)).Final := .takeWhile _

theorem final_spaced {α : Type} [Vacancy α] {p : Grammar ε α} (hp : p.Final) : (spaced p).Final :=
  .between final_blanks hp final_blanks

/-! ## Strings -/

theorem final_hex4 : (hex4 : Grammar ε Nat).Final := (Final.take 4).convertOrHalt _

theorem final_unicodeEscape : (unicodeEscape : Grammar ε Text).Final := by
  refine Final.judge (final_hex4.bind fun code => ?_) _ _
  split
  · exact (Final.preceded (.literal _) final_hex4).optional.map _
  · exact .succeed _

theorem final_simpleEscape : (simpleEscape : Grammar ε Text).Final := (Final.satisfy _ _).map _

theorem branch_escape : (escape : Grammar ε Text).Branch ['\\'] := by
  refine (Branch.ascii '\\').bind fun _ => Final.halt (.either final_simpleEscape ?_ ?_ ?_) _
  · exact .preceded (.satisfy _ _) final_unicodeEscape
  · exact (DecidesAtOnce.satisfy _ _).map _
  · exact (AwaitsElement.satisfy _ _).bind _

/-- What stands for itself and an escape are told apart by the backslash. -/
theorem final_stringText : (stringText : Grammar ε Text).Final := by
  refine .map (.between (.satisfy _ _) (.repeatAny ?_) (.satisfy _ _)) _
  refine .alt ((Final.otherThan _).convertOrHalt _)
    (.alt branch_escape.final .noAlternative branch_escape.begins .noAlternative ?_)
    ((BeginsWith.otherThan _).judge _ _) (branch_escape.begins.alt .noAlternative) ?_
  · exact fun _ _ h => h
  · intro e he h
    rcases h with h | h
    · exact he (by simp_all [Element.piece])
    · exact h

theorem branch_stringText : (stringText : Grammar ε Text).Branch ['"'] :=
  ⟨final_stringText, ((Branch.ascii '"').begins.bind _).map _⟩

/-! ## Numbers -/

theorem final_digits : (digits : Grammar ε (List ε)).Final := .takeSomeWhile _

theorem branch_integer : (integer : Grammar ε (List ε)).Branch
    ['0', '1', '2', '3', '4', '5', '6', '7', '8', '9'] := by
  have hzero := (Branch.ascii (ε := ε) '0').map fun e => [e]
  have hother := ((Branch.asciiOf (ε := ε) ['1', '2', '3', '4', '5', '6', '7', '8', '9']).bind
    fun c => ((Final.takeWhile fun e => Charset.isDigit (Element.code e)).map
      fun ds => (c, ds))).map fun v => v.1 :: v.2
  constructor
  · exact .either hzero.final hother.final ((DecidesAtOnce.satisfy _ _).map _)
      (((AwaitsElement.satisfy _ _).bind _).map _)
  · refine (hzero.begins.either hother.begins).mono fun e he => ?_
    simpa [Element.piece] using he

theorem branch_number : (number : Grammar ε Json).Branch
    ['-', '0', '1', '2', '3', '4', '5', '6', '7', '8', '9'] := by
  have hminus := Branch.ascii (ε := ε) '-'
  refine Branch.judge ⟨?_, ?_⟩ _ _
  -- the fraction and the exponent are left out or settled by their first character
  · refine .serial4 hminus.final.optional branch_integer.final ?_ ?_
    · exact (Final.preceded (.satisfy _ _) final_digits).optional
    · exact ((Final.serial3 (.satisfy _ _) (Final.satisfy _ _).optional final_digits).map
        _).optional
  · refine (hminus.begins.optional_bind fun _ => branch_integer.begins.bind _).mono fun e he => ?_
    simpa [Element.piece] using he

/-! ## Containers and values -/

theorem branch_tooDeep (limit : Nat) : (tooDeep limit : Grammar ε Json).Branch ['[', '\x7b'] :=
  ((Branch.asciiOf _).map _).judge _ _

theorem branch_arrayOf {element : Grammar ε Json} (h : element.Final) :
    (arrayOf element).Branch ['['] :=
  ((Branch.ascii '[').bind fun _ => (Final.separatedItems (.satisfy _ _) h).bind fun _ =>
    (Final.preceded final_blanks (.satisfy _ _)).map _).map _

theorem branch_objectOf {element : Grammar ε Json} (h : element.Final) :
    (objectOf element).Branch ['\x7b'] :=
  ((Branch.ascii '\x7b').bind fun _ =>
    (Final.separatedItems (.satisfy _ _)
      (.around (final_spaced final_stringText) (.satisfy _ _) h)).bind fun _ =>
      (Final.preceded final_blanks (.satisfy _ _)).map _).map _

variable [LawfulElement ε]

/-- **The six kinds of values begin differently.** -/
theorem branch_valueWith {inner : Grammar ε Json} (h : inner.Branch ['[', '\x7b']) :
    (valueWith inner).Branch ['"', '-', '0', '1', '2', '3', '4', '5', '6', '7', '8', '9',
      '[', '\x7b', 't', 'f', 'n'] := by
  have hnull := (Branch.token (ε := ε) 'n' ['u', 'l', 'l']).map fun _ => (.null : Json)
  have hfalse := (Branch.token (ε := ε) 'f' ['a', 'l', 's', 'e']).map
    fun _ => (.bool false : Json)
  have htrue := (Branch.token (ε := ε) 't' ['r', 'u', 'e']).map fun _ => (.bool true : Json)
  exact (branch_stringText.map _).cons (branch_number.cons (h.cons (htrue.cons (hfalse.cons
    (hnull.cons .nil rfl) rfl) rfl) rfl) rfl) rfl

/-- **Containers decide finally at every depth**, by induction on the levels
that are left. -/
theorem branch_container (limit levels : Nat) :
    (container limit levels : Grammar ε Json).Branch ['[', '\x7b'] := by
  induction levels with
  | zero => exact branch_tooDeep limit
  | succ levels ih =>
    have helement := final_spaced (branch_valueWith ih).final
    have hboth := (branch_objectOf helement).cons ((branch_arrayOf helement).cons .nil rfl) rfl
    exact ⟨hboth.final, hboth.begins.mono fun e he => by
      simpa [Element.piece, or_comm] using he⟩

theorem final_value (limit : Nat) : (value limit : Grammar ε Json).Final :=
  (branch_valueWith (branch_container limit limit)).final

theorem final_document (limit : Nat) : (document limit : Grammar ε Json).Final :=
  .preceded final_blanks (branch_container limit limit).final

end Json

end StreamGrammar
