import Mathlib.Tactic.SplitIfs
import StreamGrammar.Json.Grammar
import StreamGrammar.Proofs.Text.Ascii
import StreamGrammar.Proofs.Text.Numeral

/-!
# The wording that tells depth

Too deep a nesting is reported under a code of its own, and it is told from other
failures by a phrase that the wording of its reason begins with. Reasons quote input,
too, and input may say anything; so it has to be seen that no other reason comes to
contain the phrase (`Tame`).

Outside of quotes that is a matter of a single letter, the capital at the beginning
of the phrase, which nothing else uses. Inside of quotes there are at most four
elements of input at a time, each of them shown as itself or else by an escape
(`ShowsPlainly`), while the phrase needs twice as many of its rarer characters. And
it cannot lie across a quotation mark, as it has none.
-/

namespace StreamGrammar

/-! ## Where a phrase can occur -/

/-- A phrase that a mark is no part of lies on one side of it. -/
theorem infix_append_cons {α : Type} {phrase before after : List α} {mark : α}
    (hmark : mark ∉ phrase) (h : phrase <:+: before ++ mark :: after) :
    phrase <:+: before ∨ phrase <:+: after := by
  rcases List.infix_append_iff.mp h with h | h | ⟨left, right, rfl, hleft, hright⟩
  · exact .inl h
  · rcases List.infix_cons_iff.mp h with h | h
    · rcases List.prefix_cons_iff.mp h with rfl | ⟨_, rfl, _⟩
      · exact .inr List.nil_infix
      · exact absurd List.mem_cons_self hmark
    · exact .inr h
  · -- a part of it on each side would have the mark in between
    rcases List.prefix_cons_iff.mp hright with rfl | ⟨_, rfl, _⟩
    · rw [List.append_nil]
      exact .inl hleft.isInfix
    · exact absurd (List.mem_append_right left List.mem_cons_self) hmark

variable {t u : Text} {chars : List Char}

theorem Text.Avoids.append (ht : t.Avoids chars) (hu : u.Avoids chars) :
    Text.Avoids (t ++ u) chars := fun c hc =>
  (List.mem_append.mp hc).elim (ht c) (hu c)

theorem Text.Avoids.cons {c : CodePoint} (hc : Charset.isOneOf chars c.val = false)
    (ht : t.Avoids chars) : Text.Avoids (c :: t) chars :=
  List.forall_mem_cons.mpr ⟨hc, ht⟩

theorem avoids_concat_nil : Text.Avoids (Text.concat []) chars := by simp [Text.Avoids, Text.concat]

theorem avoids_concat_cons {pieces : List Text} :
    Text.Avoids (Text.concat (t :: pieces)) chars ↔
      t.Avoids chars ∧ Text.Avoids (Text.concat pieces) chars :=
  List.forall_mem_append

/-! ## What numerals are made of -/

/-- Hexadecimal digits are the digits and six letters of either case. -/
theorem Numeral.isHexDigit_of_mem_hex {upper : Bool} {width n : Nat} {c : CodePoint}
    (h : c ∈ Numeral.hex upper width n) : Charset.isHexDigit c.val = true := by
  have hdigit : ∀ d < 16, Charset.isHexDigit (Numeral.hexDigit upper d).val = true := by
    cases upper <;> decide
  induction width generalizing n with
  | zero => cases h
  | succ width ih =>
    rcases List.mem_append.mp h with h | h
    · exact ih h
    · obtain rfl := List.mem_singleton.mp h
      exact hdigit _ (by omega)

namespace Json

/-! ## Reasons that do not tell depth -/

/-- The letter that the phrase begins with. -/
def initial : List Char := ['J']

/-- The capitals and the blanks of the phrase. -/
def isRare (c : CodePoint) : Bool := Charset.isOneOf ['J', 'S', 'O', 'N', ' '] c.val

/-- **A reason that does not tell depth**, whatever stands before it that does not
use the letter. -/
def Tame (t : Text) : Prop :=
  ∀ before : Text, before.Avoids initial → ¬depthPhrase <:+: before ++ t

/-- The phrase uses the letter. -/
theorem lacks_phrase_of_avoids (h : t.Avoids initial) : ¬depthPhrase <:+: t := fun hin => by
  have hfirst : CodePoint.ofChar 'J' ∈ depthPhrase := by decide
  have := h _ (hin.subset hfirst)
  revert this
  decide

theorem tame_of_avoids (h : t.Avoids initial) : Tame t := fun _ hbefore =>
  lacks_phrase_of_avoids (hbefore.append h)

theorem Tame.append (ht : t.Avoids initial) (hu : Tame u) : Tame (t ++ u) := by
  intro before hbefore
  rw [← List.append_assoc]
  exact hu _ (hbefore.append ht)

theorem Tame.lacks_phrase (h : Tame t) : ¬depthPhrase <:+: t := h [] (by simp [Text.Avoids])

/-- **What stands around a quotation does not tell depth for it**: the phrase is in what
is quoted, if it is anywhere. -/
theorem infix_of_quotation {mark : CodePoint} (hmark : mark ∉ depthPhrase)
    {before middle after : Text} (hbefore : before.Avoids initial) (hafter : after.Avoids initial)
    (h : depthPhrase <:+: before ++ mark :: (middle ++ mark :: after)) :
    depthPhrase <:+: middle := by
  rcases infix_append_cons hmark h with h | h
  · exact absurd h (lacks_phrase_of_avoids hbefore)
  · rcases infix_append_cons hmark h with h | h
    · exact h
    · exact absurd h (lacks_phrase_of_avoids hafter)

/-- **A quotation with few of the rarer characters of the phrase is tame**, with what
follows it. -/
theorem tame_of_quotation {mark : CodePoint} (hmark : mark ∉ depthPhrase) {middle after : Text}
    (hmiddle : middle.countP isRare < 8) (hafter : after.Avoids initial) :
    Tame (mark :: (middle ++ mark :: after)) := by
  intro before hbefore hin
  have hcount : depthPhrase.countP isRare = 8 := by decide
  have := (infix_of_quotation hmark hbefore hafter hin).sublist.countP_le (p := isRare)
  omega

/-! ## How input is shown -/

/-- **An alphabet whose elements are shown plainly**: between quotation marks, each as
itself or by an escape. -/
structure ShowsPlainly (ε : Type) [Element ε] : Prop where
  /-- A piece of input is shown between two marks, element by element. -/
  display : ∀ s : List ε, ∃ (lead : Text) (mark : CodePoint) (shown : ε → Text),
    (Element.datum s).display = lead ++ mark :: (s.flatMap shown ++ [mark]) ∧
      lead.Avoids initial ∧ (mark = CodePoint.ofChar '"' ∨ mark = CodePoint.ofChar '\'') ∧
      ∀ e, shown e = [CodePoint.ofNat (Element.code e)] ∨ ∀ c ∈ shown e, isRare c = false
  /-- What is said of a piece that cannot be read does not use the letter. -/
  fault : ∀ (s : List ε) (fault : Fault), Element.decode s = .error fault →
    fault.message.Avoids initial

/-- Hexadecimal digits are none of the rarer characters. -/
theorem isRare_of_isHexDigit {c : CodePoint} (h : Charset.isHexDigit c.val = true) :
    isRare c = false := by
  simp only [Charset.isHexDigit, Charset.isDigit, Bool.or_eq_true, Bool.and_eq_true,
    decide_eq_true_eq] at h
  simp only [isRare, Charset.isOneOf, List.any_cons, List.any_nil, Bool.or_false,
    Bool.or_eq_false_iff, beq_eq_false_iff_ne, ne_eq]
  refine ⟨?_, ?_, ?_, ?_, ?_⟩ <;> (intro heq; have := heq.symm; revert h; rw [this]; decide)

theorem isRare_short {quote : Char} (hquote : quote = '"' ∨ quote = '\'') {n : Nat} {t : Text}
    (h : Quoted.short? quote n = some t) : ∀ c ∈ t, isRare c = false := by
  unfold Quoted.short? at h
  rcases hquote with rfl | rfl
  all_goals
    split_ifs at h
    all_goals
      cases h
      decide

theorem isRare_numbered (n : Nat) : ∀ c ∈ Quoted.numbered n, isRare c = false := by
  have hshown : ∀ (kind : Char) (width : Nat), isRare (CodePoint.ofChar kind) = false →
      ∀ c ∈ Text.ofChars ['\\', kind] ++ Numeral.hex false width n, isRare c = false := by
    intro kind width hkind c hc
    rcases List.mem_append.mp hc with hc | hc
    · rcases List.mem_cons.mp hc with rfl | hc
      · decide
      · obtain rfl := List.mem_singleton.mp hc
        exact hkind
    · exact isRare_of_isHexDigit (Numeral.isHexDigit_of_mem_hex hc)
  unfold Quoted.numbered
  split_ifs
  · exact hshown 'x' 2 (by decide)
  · exact hshown 'u' 4 (by decide)
  · exact hshown 'U' 8 (by decide)

theorem quote_mark (numbers : List Nat) :
    Quoted.mark numbers = '"' ∨ Quoted.mark numbers = '\'' := by
  unfold Quoted.mark
  split_ifs
  · exact .inl rfl
  · exact .inr rfl

theorem shown_codePoint {quote : Char} (hquote : quote = '"' ∨ quote = '\'') (c : CodePoint) :
    Quoted.codePoint quote c = [c] ∨ ∀ d ∈ Quoted.codePoint quote c, isRare d = false := by
  unfold Quoted.codePoint
  split
  · rename_i shown hshort
    exact .inr (isRare_short hquote hshort)
  · split_ifs
    · exact .inl rfl
    · exact .inr (isRare_numbered _)

theorem shown_byte {quote : Char} (hquote : quote = '"' ∨ quote = '\'') (b : UInt8) :
    Quoted.byte quote b = [CodePoint.ofNat b.toNat] ∨
      ∀ d ∈ Quoted.byte quote b, isRare d = false := by
  unfold Quoted.byte
  split
  · rename_i shown hshort
    exact .inr (isRare_short hquote hshort)
  · split_ifs
    · exact .inl rfl
    · exact .inr (isRare_numbered _)

theorem avoids_decimal (n : Nat) : (Numeral.decimal n).Avoids initial := fun c hc => by
  have hdigit := Numeral.isDigit_of_mem_decimal hc
  simp only [Charset.isDigit, Bool.and_eq_true, decide_eq_true_eq] at hdigit
  simp [initial, Charset.isOneOf]
  omega

theorem avoids_of_not_isRare {c : CodePoint} (h : isRare c = false) :
    Charset.isOneOf initial c.val = false := by
  simp only [isRare, Charset.isOneOf, List.any_cons, Bool.or_eq_false_iff] at h
  simpa only [initial, Charset.isOneOf, List.any_cons, List.any_nil, Bool.or_false] using h.1

theorem avoids_hex (upper : Bool) (width n : Nat) : (Numeral.hex upper width n).Avoids initial :=
  fun _ hc => avoids_of_not_isRare (isRare_of_isHexDigit (Numeral.isHexDigit_of_mem_hex hc))

theorem avoids_utf8 (fault : Utf8.Fault) : fault.message.Avoids initial := by
  have hcause : fault.cause.text.Avoids initial := by
    cases fault.cause <;> decide
  unfold Utf8.Fault.message
  split_ifs
  · simp only [avoids_concat_cons]
    exact ⟨by decide, avoids_hex _ _ _, by decide, avoids_decimal _, by decide, hcause,
      avoids_concat_nil⟩
  · simp only [avoids_concat_cons]
    exact ⟨by decide, avoids_decimal _, by decide, avoids_decimal _, by decide, hcause,
      avoids_concat_nil⟩

theorem showsPlainly_codePoint : ShowsPlainly CodePoint where
  display t := by
    have hquote := quote_mark (t.map CodePoint.val)
    refine ⟨[], _, Quoted.codePoint (Quoted.mark (t.map CodePoint.val)), rfl, by simp [Text.Avoids],
      hquote.imp (congrArg CodePoint.ofChar) (congrArg CodePoint.ofChar), fun c => ?_⟩
    rw [show CodePoint.ofNat (Element.code c) = c from CodePoint.ofNat_val c]
    exact shown_codePoint hquote c
  fault _ _ h := nomatch h

theorem showsPlainly_uint8 : ShowsPlainly UInt8 where
  display b := by
    have hquote := quote_mark (b.map UInt8.toNat)
    exact ⟨[CodePoint.ofChar 'b'], _, Quoted.byte (Quoted.mark (b.map UInt8.toNat)), rfl, by decide,
      hquote.imp (congrArg CodePoint.ofChar) (congrArg CodePoint.ofChar), shown_byte hquote⟩
  fault b fault h := by
    change (Utf8.decode b).mapError Fault.utf8 = _ at h
    cases hb : Utf8.decode b with
    | ok t => rw [hb] at h; cases h
    | error found =>
      rw [hb] at h
      cases h
      exact avoids_utf8 found

namespace ShowsPlainly

variable {ε : Type} [Element ε]

/-- Input without the letter is shown without it. -/
theorem avoids_display (hε : ShowsPlainly ε) {s : List ε}
    (h : ∀ e ∈ s, Charset.isOneOf initial (Element.code e) = false) :
    (Element.datum s).display.Avoids initial := by
  obtain ⟨lead, mark, shown, hdisplay, hlead, hmark, hshown⟩ := hε.display s
  have hmark' : Charset.isOneOf initial mark.val = false := by
    rcases hmark with rfl | rfl <;> decide
  have hmiddle : Text.Avoids (s.flatMap shown) initial := by
    intro c hc
    obtain ⟨e, he, hce⟩ := List.mem_flatMap.mp hc
    rcases hshown e with hself | hescaped
    · obtain rfl := List.mem_singleton.mp (hself ▸ hce)
      by_cases hlt : Element.code e < 0x110000
      · rw [CodePoint.val_ofNat hlt]
        exact h e he
      · rw [CodePoint.ofNat, dif_neg hlt]
        decide
    · exact avoids_of_not_isRare (hescaped c hce)
  rw [hdisplay]
  exact hlead.append (.cons hmark' (hmiddle.append (.cons hmark' (by simp [Text.Avoids]))))

/-- **A few elements of input do not show the phrase**, whichever they are. -/
theorem tame_display (hε : ShowsPlainly ε) {s : List ε} (h : s.length < 8) {after : Text}
    (hafter : after.Avoids initial) : Tame ((Element.datum s).display ++ after) := by
  obtain ⟨lead, mark, shown, hdisplay, hlead, hmark, hshown⟩ := hε.display s
  have hmark' : mark ∉ depthPhrase := by
    rcases hmark with rfl | rfl <;> decide
  have hone : ∀ e, (shown e).countP isRare ≤ 1 := by
    intro e
    rcases hshown e with hself | hescaped
    · rw [hself]
      exact List.countP_le_length
    · rw [List.countP_eq_zero.mpr fun c hc => by simp [hescaped c hc]]
      exact Nat.zero_le 1
  have hall : ∀ s : List ε, (s.flatMap shown).countP isRare ≤ s.length := by
    intro s
    induction s with
    | nil => exact Nat.le_refl 0
    | cons e s ih =>
      rw [List.flatMap_cons, List.countP_append, List.length_cons]
      have := hone e
      omega
  have hfew := hall s
  rw [hdisplay, List.append_assoc, List.cons_append, List.append_assoc]
  exact .append hlead (tame_of_quotation hmark' (by omega) hafter)

end ShowsPlainly

/-! ## Reasons that are tame -/

theorem Tame.concat_cons {pieces : List Text} (ht : t.Avoids initial)
    (h : Tame (Text.concat pieces)) : Tame (Text.concat (t :: pieces)) :=
  h.append ht

theorem Tame.concat_last (h : Tame t) : Tame (Text.concat [t]) := by
  rwa [Text.concat, List.flatten_singleton]

theorem tame_expected {what : Expectation} (hwhat : what.text.Avoids initial) (pos : Nat)
    {found : Found} (hfound : Tame found.text) : Tame (Reason.expected what pos found).text :=
  .concat_cons (by decide) <| .concat_cons hwhat <| .concat_cons (by decide) <|
    .concat_cons (avoids_decimal pos) hfound.concat_last

theorem tame_halted {name : Text} (hname : name.Avoids initial) (pos : Nat) {reason : Reason}
    (h : Tame reason.text) : Tame (Reason.halted name pos reason).text :=
  .concat_cons (by decide) <| .concat_cons hname <| .concat_cons (by decide) <|
    .concat_cons (avoids_decimal pos) <| .concat_cons (by decide) h.concat_last

theorem tame_refused {what : Text} (hwhat : what.Avoids initial) (pos : Nat) :
    Tame (Reason.refused what pos).text := by
  refine tame_of_avoids (avoids_concat_cons.mpr ⟨hwhat, ?_⟩)
  simp only [avoids_concat_cons]
  exact ⟨by decide, avoids_decimal pos, avoids_concat_nil⟩

/-- What is said after the value of a conversion that failed. -/
theorem avoids_at {message : Text} (h : message.Avoids initial) (pos : Nat) :
    Text.Avoids (Text.concat [" at position ", Numeral.decimal pos, ": ", message]) initial := by
  simp only [avoids_concat_cons]
  exact ⟨by decide, avoids_decimal pos, by decide, h, avoids_concat_nil⟩

variable {ε : Type} [Element ε]

/-- A conversion that failed on a few elements of input. -/
theorem ShowsPlainly.tame_invalid (hε : ShowsPlainly ε) {label : Text}
    (hlabel : label.Avoids initial) {s : List ε} (hs : s.length < 8) (pos : Nat) {fault : Fault}
    (hfault : fault.message.Avoids initial) :
    Tame (Reason.invalid label (Element.datum s) pos fault).text :=
  .concat_cons (by decide) <| .concat_cons hlabel <| .concat_cons (by decide) <|
    hε.tame_display hs (avoids_at hfault pos)

/-- A conversion that failed on a value that is shown without the letter. -/
theorem tame_invalid_of_avoids {label : Text} (hlabel : label.Avoids initial) {value : Datum}
    (hvalue : value.display.Avoids initial) (pos : Nat) {fault : Fault}
    (hfault : fault.message.Avoids initial) :
    Tame (Reason.invalid label value pos fault).text := by
  refine tame_of_avoids (avoids_concat_cons.mpr ⟨by decide, avoids_concat_cons.mpr ⟨hlabel, ?_⟩⟩)
  exact avoids_concat_cons.mpr ⟨by decide, avoids_concat_cons.mpr ⟨hvalue, avoids_at hfault pos⟩⟩

theorem tame_found_endOfInput : Tame Found.endOfInput.text := tame_of_avoids (by decide)

theorem tame_found_count (n : Nat) : Tame (Found.count n).text :=
  .concat_cons (by decide) (tame_of_avoids (avoids_decimal n)).concat_last

theorem ShowsPlainly.tame_found (hε : ShowsPlainly ε) {s : List ε} (hs : s.length < 8) :
    Tame (Found.piece (Element.datum s)).text :=
  .concat_cons (by decide) (hε.tame_display hs avoids_concat_nil)

/-! ## Grammars all of whose reasons are tame -/

/-- An outcome whose value has a property, or whose reason is tame. -/
def Tamed {α : Type} (V : α → Prop) : Outcome ε α → Prop
  | .matched v _ => V v
  | .rejected reason => Tame reason.text
  | .fatal reason => Tame reason.text
  | _ => True

end Json

namespace Grammar

open Json

variable {ε : Type} [Element ε] {α β : Type} {V : α → Prop} {W : β → Prop} {p : Grammar ε α}

/-- **A grammar whose values have a property and whose reasons are tame.** -/
def Tamely (V : α → Prop) (g : Grammar ε α) : Prop := ∀ c, Tamed V (g.run c)

namespace Tamely

theorem satisfy (hε : ShowsPlainly ε) (test : ε → Bool) {what : Expectation}
    (hwhat : what.text.Avoids initial) : (satisfy test what).Tamely fun _ : ε => True := by
  intro c
  simp only [run, runSatisfy]
  split
  · unfold exhausted
    split_ifs
    · exact tame_expected hwhat _ tame_found_endOfInput
    · trivial
  · split_ifs
    · trivial
    · exact tame_expected hwhat _ (hε.tame_found (by simp))

theorem literal (hε : ShowsPlainly ε) {expected : List ε} (hlen : expected.length < 8)
    (h : ∀ e ∈ expected, Charset.isOneOf initial (Element.code e) = false) :
    (literal expected).Tamely fun _ : List ε => True := by
  have hwhat : (Expectation.exactly (Element.datum expected)).text.Avoids initial :=
    hε.avoids_display h
  intro c
  simp only [run, runLiteral]
  split_ifs
  · trivial
  · trivial
  · refine tame_expected hwhat _ (hε.tame_found ?_)
    rw [Cursor.sliceAhead_eq]
    exact Nat.lt_of_le_of_lt (List.length_take_le _ _) hlen

theorem take (count : Nat) :
    (take count : Grammar ε (List ε)).Tamely fun s : List ε => s.length = count := by
  intro c
  simp only [run, runTake]
  split_ifs with hlen
  · exact hlen
  · refine tame_expected ?_ _ (tame_found_count _)
    simp only [Expectation.text, avoids_concat_cons]
    exact ⟨avoids_decimal count, by decide, avoids_concat_nil⟩
  · trivial

theorem succeed {v : β} (h : W v) : (succeed v : Grammar ε β).Tamely W := fun _ => h

theorem map [Vacancy β] (hp : p.Tamely V) {f : α → β} (hf : ∀ v, V v → W (f v)) :
    (map f p).Tamely W := by
  intro c
  have h := hp c
  simp only [run]
  cases hrun : p.run c with
  | matched v past =>
    rw [hrun] at h
    exact hf v h
  | truncated best past => cases best <;> trivial
  | _ =>
    rw [hrun] at h
    exact h

theorem judge (hp : p.Tamely V) (refusal : Refusal) {accept : α → Except (Nat → Reason) β}
    (hok : ∀ v b, V v → accept v = .ok b → W b)
    (herror : ∀ v reason, V v → accept v = .error reason → ∀ pos, Tame (reason pos).text) :
    (judge refusal accept p).Tamely W := by
  intro c
  have h := hp c
  simp only [run]
  cases hrun : p.run c with
  | matched v past =>
    rw [hrun] at h
    dsimp only
    split
    · exact hok v _ h ‹_›
    · cases refusal <;> exact herror v _ h ‹_› _
  | truncated best past => trivial
  | _ =>
    rw [hrun] at h
    exact h

theorem bind (hp : p.Tamely V) {next : α → Grammar ε β} (hn : ∀ v, V v → (next v).Tamely W) :
    (bind p next).Tamely W := by
  intro c
  have h := hp c
  simp only [run]
  cases hrun : p.run c with
  | matched v past =>
    rw [hrun] at h
    have hmore := hn v h past
    dsimp only
    split
    · trivial
    · exact hmore
  | truncated best past => trivial
  | _ =>
    rw [hrun] at h
    exact h

theorem optional (hp : p.Tamely V) : (optional p).Tamely fun _ => True := by
  intro c
  have h := hp c
  simp only [run]
  cases hrun : p.run c with
  | fatal reason =>
    rw [hrun] at h
    exact h
  | _ => trivial

theorem either [Vacancy α] {q : Grammar ε α} (hp : p.Tamely V) (hq : q.Tamely V) :
    (either p q).Tamely V := by
  intro c
  have h := hp c
  have h' := hq c
  simp only [run, Choice.either]
  split
  · exact h'
  · cases hrun : q.run c <;> (rw [hrun] at h'; first | exact h' | trivial)
  · exact h

theorem halt {name : Text} (hname : name.Avoids initial) (hp : p.Tamely V) :
    (halt name p).Tamely V := by
  intro c
  have h := hp c
  simp only [run]
  split
  · rename_i reason hrun
    rw [hrun] at h
    exact tame_halted hname _ h
  · exact h

theorem convertOrHalt (hp : p.Tamely V) {c : Conversion α β}
    (h : ∀ v fault, V v → c.convert v = .error fault →
      ∀ pos, Tame (Reason.invalid c.label (c.describe v) pos fault).text) :
    (convertOrHalt c p).Tamely fun _ : β => True := by
  refine hp.judge .fatal (fun _ _ _ _ => trivial) fun v reason hv hreason pos => ?_
  unfold Conversion.verdict at hreason
  cases hconv : c.convert v with
  | ok b => rw [hconv] at hreason; cases hreason
  | error fault =>
    rw [hconv] at hreason
    cases hreason
    exact h v fault hv hconv pos

theorem demand {p : Grammar ε (Except Text α)}
    (hp : p.Tamely fun v => ∀ what, v = .error what → what.Avoids initial) :
    (demand p).Tamely fun _ : α => True := by
  refine hp.judge .fatal (fun _ _ _ _ => trivial) fun v reason hv hreason pos => ?_
  cases v with
  | ok a => cases hreason
  | error what =>
    cases hreason
    exact tame_refused (hv what rfl) pos

end Tamely

end Grammar

end StreamGrammar
