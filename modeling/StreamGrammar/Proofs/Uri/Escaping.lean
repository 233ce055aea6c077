import StreamGrammar.Proofs.Grammar.Complete
import StreamGrammar.Proofs.Text.Utf8
import StreamGrammar.Proofs.Uri.Path

/-!
# Components as they are written

In a component most characters are written by escapes, one for each byte of their
UTF-8 encoding, and only letters, digits and a few marks stand for themselves. One
would read it back a character at a time. The grammar does not: it reads runs, of
escapes that it decodes together and of characters that stand for themselves, each as
long as it gets. So a run of escapes that ends within a character is fatal, and which
characters a run of the other kind takes depends on the component.

Neither matters here. A run of escapes ends where a character that stands for itself
comes, or the component is over, and there the escapes of a character are complete.
And no component takes a percent sign or what comes after it in the URI. So a
component is cut up as the grammar does it (`Written.escapes_first`,
`Written.plain_first`), and the loop goes through these stretches
(`ReadsRuns.rounds_of_written`).
-/

namespace StreamGrammar.Uri

open Grammar

/-! ## Writing -/

/-- **A character that stands for itself** wherever it occurs: an ASCII letter or digit,
or one of four marks. -/
def isPlain (n : Nat) : Bool :=
  Charset.isAlphanumeric n || Charset.isOneOf Charset.unreservedMarks n

/-- **The escape of a byte**, with each of the two digits in lower case or upper. -/
def escapeOf (upper upper' : Bool) (b : UInt8) : Text :=
  [CodePoint.ofChar '%', Numeral.hexDigit upper (b.toNat / 16),
    Numeral.hexDigit upper' (b.toNat % 16)]

/-- Bytes by their escapes, one after another. -/
inductive Escapes : Bytes → Text → Prop
  /-- No bytes are no escapes. -/
  | nil : Escapes [] []
  /-- A byte comes first. -/
  | cons (upper upper' : Bool) (b : UInt8) {bytes : Bytes} {text : Text}
      (h : Escapes bytes text) : Escapes (b :: bytes) (escapeOf upper upper' b ++ text)

/-- **A text and what is written for it.** Some characters stand for themselves, among
them all that are written without need of an escape, and any character but a surrogate
can be written by the escapes of its bytes. -/
inductive Written (itself : Nat → Bool) : Text → Text → Prop
  /-- Nothing is written for no text. -/
  | nil : Written itself [] []
  /-- A character that stands for itself comes first. -/
  | plain {c : CodePoint} {t s : Text} (hc : itself c.val = true) (h : Written itself t s) :
      Written itself (c :: t) (c :: s)
  /-- The escapes of a character come first. -/
  | escaped {c : CodePoint} {t s e : Text} (hc : c.isSurrogate = false)
      (he : Escapes (Utf8.encodeOne c) e) (h : Written itself t s) :
      Written itself (c :: t) (e ++ s)

/-- A text without surrogates. -/
def IsEncodable (t : Text) : Prop := ∀ c ∈ t, c.isSurrogate = false

instance (t : Text) : Decidable (IsEncodable t) :=
  inferInstanceAs (Decidable (∀ c ∈ t, c.isSurrogate = false))

/-- **What is written for a text** if nothing is escaped without need: all digits of
escapes in upper case, or all in lower. -/
def write (upper : Bool) (t : Text) : Text :=
  t.flatMap fun c =>
    if isPlain c.val then [c] else (Utf8.encodeOne c).flatMap (escapeOf upper upper)

theorem escapes_flatMap (upper : Bool) (bytes : Bytes) :
    Escapes bytes (bytes.flatMap (escapeOf upper upper)) := by
  induction bytes with
  | nil => exact .nil
  | cons b bytes ih =>
    rw [List.flatMap_cons]
    exact .cons upper upper b ih

theorem written_write (upper : Bool) {t : Text} (h : IsEncodable t) :
    Written isPlain t (write upper t) := by
  induction t with
  | nil => exact .nil
  | cons c t ih =>
    obtain ⟨hc, ht⟩ := List.forall_mem_cons.mp h
    rw [write, List.flatMap_cons]
    split
    · rename_i hplain
      exact .plain hplain (ih ht)
    · exact .escaped hc (escapes_flatMap upper _) (ih ht)

theorem Escapes.append {bytes bytes' : Bytes} {s s' : Text} (h : Escapes bytes s)
    (h' : Escapes bytes' s') : Escapes (bytes ++ bytes') (s ++ s') := by
  induction h with
  | nil => exact h'
  | cons upper upper' b _ ih =>
    rw [List.append_assoc]
    exact .cons upper upper' b ih

/-- Escapes begin with a percent sign. -/
theorem Escapes.head {bytes : Bytes} {s : Text} (h : Escapes bytes s) :
    ∀ c ∈ s.head?, c.val = 0x25 := by
  cases h with
  | nil => exact nofun
  | cons upper upper' b h =>
    rintro _ ⟨⟩
    rfl

theorem Escapes.ne_nil {bytes : Bytes} {s : Text} (h : Escapes bytes s) (hne : bytes ≠ []) :
    s ≠ [] := by
  cases h with
  | nil => exact absurd rfl hne
  | cons upper upper' b h => exact List.cons_ne_nil _ _

/-- A hexadecimal digit in either case is read as what it was written for. -/
theorem hexDigit_spec (upper : Bool) {n : Nat} (hn : n < 16) :
    Charset.isHexDigit (Numeral.hexDigit upper n).val = true ∧
      Charset.hexValue (Numeral.hexDigit upper n).val = n := by
  have hall : ∀ upper : Bool, ∀ n < 16,
      Charset.isHexDigit (Numeral.hexDigit upper n).val = true ∧
        Charset.hexValue (Numeral.hexDigit upper n).val = n := by decide
  exact hall upper n hn

/-- Escapes have nothing in them but percent signs and hexadecimal digits. -/
theorem Escapes.forall_mem {bytes : Bytes} {s : Text} (h : Escapes bytes s) :
    ∀ c ∈ s, c.val = 0x25 ∨ Charset.isHexDigit c.val = true := by
  induction h with
  | nil => exact nofun
  | cons upper upper' b _ ih =>
    have hb := b.toNat_lt
    refine List.forall_mem_append.mpr ⟨?_, ih⟩
    simp only [escapeOf, List.forall_mem_cons]
    exact ⟨.inl rfl, .inr (hexDigit_spec upper (by omega)).1,
      .inr (hexDigit_spec upper' (by omega)).1, nofun⟩

namespace Written

variable {itself itself' : Nat → Bool} {t t' s s' : Text}

/-- Nothing is lost if more characters stand for themselves. -/
theorem mono (h : Written itself t s) (himp : ∀ n, itself n = true → itself' n = true) :
    Written itself' t s := by
  induction h with
  | nil => exact .nil
  | plain hc _ ih => exact .plain (himp _ hc) ih
  | escaped hc he _ ih => exact .escaped hc he ih

theorem append (h : Written itself t s) (h' : Written itself t' s') :
    Written itself (t ++ t') (s ++ s') := by
  induction h with
  | nil => exact h'
  | plain hc _ ih => exact .plain hc ih
  | escaped hc he _ ih =>
    rw [List.append_assoc]
    exact .escaped hc he ih

/-- Characters that all stand for themselves are written as they are. -/
theorem of_plain {run : Text} (h : ∀ c ∈ run, itself c.val = true) : Written itself run run := by
  induction run with
  | nil => exact .nil
  | cons c run ih =>
    obtain ⟨hc, hrun⟩ := List.forall_mem_cons.mp h
    exact .plain hc (ih hrun)

/-- Only the empty text is written as nothing. -/
theorem eq_nil (h : Written itself t s) (hs : s = []) : t = [] := by
  cases h with
  | nil => rfl
  | plain hc h => cases hs
  | escaped hc he h =>
    exact absurd (List.append_eq_nil_iff.mp hs).1 (he.ne_nil (Utf8.encodeOne_ne_nil _))

/-- What is written begins with a character that stands for itself or with a percent
sign. -/
theorem head (h : Written itself t s) :
    ∀ c ∈ s.head?, itself c.val = true ∨ c.val = 0x25 := by
  cases h with
  | nil => exact nofun
  | plain hc h =>
    rintro _ ⟨⟩
    exact .inl hc
  | escaped hc he h =>
    intro d hd
    obtain ⟨d', s', hs⟩ := List.exists_cons_of_ne_nil (he.ne_nil (Utf8.encodeOne_ne_nil _))
    rw [hs] at he hd
    cases hd
    exact .inr (he.head _ rfl)

/-- Nothing is written but characters that stand for themselves, percent signs and
hexadecimal digits. -/
theorem forall_mem (h : Written itself t s) :
    ∀ c ∈ s, itself c.val = true ∨ c.val = 0x25 ∨ Charset.isHexDigit c.val = true := by
  induction h with
  | nil => exact nofun
  | plain hc _ ih => exact List.forall_mem_cons.mpr ⟨.inl hc, ih⟩
  | escaped hc he _ ih =>
    exact List.forall_mem_append.mpr ⟨fun c hc => .inr (he.forall_mem c hc), ih⟩

/-- What has no percent sign in it is written as it is. -/
theorem eq_of_forall_ne (h : Written itself t s) (hs : ∀ c ∈ s, c.val ≠ 0x25) :
    s = t ∧ ∀ c ∈ t, itself c.val = true := by
  induction h with
  | nil => exact ⟨rfl, nofun⟩
  | plain hc _ ih =>
    obtain ⟨rfl, hplain⟩ := ih fun d hd => hs d (List.mem_cons_of_mem _ hd)
    exact ⟨rfl, List.forall_mem_cons.mpr ⟨hc, hplain⟩⟩
  | escaped hc he _ _ =>
    obtain ⟨d, e', rfl⟩ := List.exists_cons_of_ne_nil (he.ne_nil (Utf8.encodeOne_ne_nil _))
    exact absurd (he.head d rfl) (hs d List.mem_cons_self)

/-- **All escapes that come first**, down to a character that stands for itself. -/
theorem escapes_first (h : Written itself t s) (hpercent : itself 0x25 = false) :
    ∃ chars t' e s', t = chars ++ t' ∧ s = e ++ s' ∧ IsEncodable chars ∧
      Escapes (Utf8.encode chars) e ∧ Written itself t' s' ∧ ∀ c ∈ s'.head?, c.val ≠ 0x25 := by
  induction h with
  | nil => exact ⟨[], [], [], [], rfl, rfl, nofun, .nil, .nil, nofun⟩
  | @plain c t s hc h _ =>
    refine ⟨[], c :: t, [], c :: s, rfl, rfl, nofun, .nil, .plain hc h, ?_⟩
    rintro _ ⟨⟩ hval
    rw [hval, hpercent] at hc
    cases hc
  | escaped hc he _ ih =>
    obtain ⟨chars, t', e', s', rfl, rfl, hchars, hescapes, h', hhead⟩ := ih
    exact ⟨_ :: chars, t', _, s', rfl, (List.append_assoc ..).symm,
      List.forall_mem_cons.mpr ⟨hc, hchars⟩, he.append hescapes, h', hhead⟩

/-- **All characters that stand for themselves and come first**, down to a percent
sign. -/
theorem plain_first (h : Written itself t s) :
    ∃ run t' s', t = run ++ t' ∧ s = run ++ s' ∧ (∀ c ∈ run, itself c.val = true) ∧
      Written itself t' s' ∧ ∀ c ∈ s'.head?, c.val = 0x25 := by
  induction h with
  | nil => exact ⟨[], [], [], rfl, rfl, nofun, .nil, nofun⟩
  | plain hc _ ih =>
    obtain ⟨run, t', s', rfl, rfl, hrun, h', hhead⟩ := ih
    exact ⟨_ :: run, t', s', rfl, rfl, List.forall_mem_cons.mpr ⟨hc, hrun⟩, h', hhead⟩
  | escaped hc he h _ =>
    obtain ⟨d, e', rfl⟩ := List.exists_cons_of_ne_nil (he.ne_nil (Utf8.encodeOne_ne_nil _))
    refine ⟨[], _, _, rfl, rfl, nofun, .escaped hc he h, ?_⟩
    rintro _ ⟨⟩
    exact he.head d rfl

end Written

/-! ## Reading escapes -/

/-- **The escape of a byte is read as the byte.** -/
theorem escapedByte_of_escape (upper upper' : Bool) (b : UInt8) (final : Bool) (rest : Text) :
    escapedByte.verdict final (escapeOf upper upper' b ++ rest) = .matched b rest := by
  have hb := b.toNat_lt
  obtain ⟨hhigh, hhigh'⟩ := hexDigit_spec upper (n := b.toNat / 16) (by omega)
  obtain ⟨hlow, hlow'⟩ := hexDigit_spec upper' (n := b.toNat % 16) (by omega)
  refine matched_preceded.mpr ⟨_, _, matched_ascii.mpr ⟨rfl, rfl⟩, ?_⟩
  refine matched_halt.mpr (matched_convertOrHalt.mpr
    ⟨[_, _], matched_take.mpr ⟨rfl, rfl⟩, ?_⟩)
  have hsum : 16 * (b.toNat / 16) + b.toNat % 16 = b.toNat := Nat.div_add_mod ..
  simp [hexPairConversion, hhigh, hlow, hhigh', hlow', hsum]

theorem rounds_of_escapes {bytes : Bytes} {s : Text} (h : Escapes bytes s) (final : Bool)
    (rest : Text) : Verdict.Rounds (escapedByte.verdict final) (s ++ rest) bytes rest := by
  induction h with
  | nil => exact .none rest
  | cons upper upper' b _ ih =>
    rw [List.append_assoc]
    exact .more (escapedByte_of_escape upper upper' b final _) ih

/-- Where no percent sign comes there is no run of escapes. -/
theorem percentEncoded_of_head {rest : Text} (h : ∀ c ∈ rest.head?, c.val ≠ 0x25) :
    percentEncoded.verdict true rest = .rejected := by
  cases rest with
  | nil => cbv
  | cons c rest => exact percentEncoded_of_ne (h c rfl) true rest

/-- **A run of escapes is read as the characters it was written for**, if it is as long
as it gets. -/
theorem percentEncoded_of_escapes {chars : Text} (hne : chars ≠ []) (hchars : IsEncodable chars)
    {s : Text} (h : Escapes (Utf8.encode chars) s) {rest : Text}
    (hrest : ∀ c ∈ rest.head?, c.val ≠ 0x25) :
    percentEncoded.verdict true (s ++ rest) = .matched chars rest := by
  have hend : escapedByte.verdict true rest = .rejected :=
    bind_of_rejected _ (rejected_ascii (by decide) (fun _ => rfl) hrest)
  have hmany : Verdict.many (escapedByte.verdict true) (s ++ rest) =
      .matched (Utf8.encode chars) rest :=
    Verdict.many_of_rounds (fun h => consumes_escapedByte h) (rounds_of_escapes h true rest) hend
  refine matched_convertOrHalt.mpr ⟨Utf8.encode chars, ?_,
    mapError_eq_ok.mpr (Utf8.decode_eq_ok_iff.mpr ⟨rfl, hchars⟩)⟩
  rw [verdict_repeatSome, verdict_repeatAny, hmany]
  -- a character has bytes, so there is an escape
  obtain ⟨c, chars, rfl⟩ := List.exists_cons_of_ne_nil hne
  have hbytes : Utf8.encode (c :: chars) ≠ [] := by
    rw [Utf8.encode, List.flatMap_cons]
    exact List.append_ne_nil_of_left_ne_nil (Utf8.encodeOne_ne_nil c) _
  obtain ⟨b, bytes, hb⟩ := List.exists_cons_of_ne_nil hbytes
  rw [hb]
  rfl

/-! ## Reading components -/

/-- **A part of a component**, by what it makes of stretches of either kind. `test` says
which characters it takes as they are. -/
structure ReadsRuns (p : TextGrammar Text) (test : Nat → Bool) : Prop where
  /-- It takes characters as they are, as many as it gets. -/
  plain : ∀ {run rest : Text}, run ≠ [] → (∀ c ∈ run, test c.val = true) →
    Halts (fun c => test c.val) true rest → p.verdict true (run ++ rest) = .matched run rest
  /-- It takes escapes for what they were written for. -/
  escapes : ∀ {chars s rest : Text}, chars ≠ [] → IsEncodable chars →
    Escapes (Utf8.encode chars) s → (∀ c ∈ rest.head?, c.val ≠ 0x25) →
    p.verdict true (s ++ rest) = .matched chars rest
  /-- It takes neither nothing. -/
  consumes : p.Consumes
  /-- A percent sign is not taken as it is. -/
  percent : test 0x25 = false

variable {p : TextGrammar Text} {test itself : Nat → Bool}

/-- **A component is read in rounds, as what it was written for**, where it ends. -/
theorem ReadsRuns.rounds_of_written (hp : ReadsRuns p test) {t s : Text} (h : Written test t s)
    {rest : Text} (hrest : ∀ c ∈ rest.head?, test c.val = false ∧ c.val ≠ 0x25) :
    ∃ parts, Verdict.Rounds (p.verdict true) (s ++ rest) parts rest ∧
      Text.concat parts = t := by
  -- a stretch takes characters of the text, so the rest of the text is shorter
  induction hn : t.length using Nat.strongRecOn generalizing t s with
  | _ n ih =>
    by_cases hnil : t = []
    · subst hnil
      cases h
      exact ⟨[], .none _, rfl⟩
    · obtain ⟨run, t', s', rfl, rfl, hrun, h', hhead⟩ := h.plain_first
      by_cases hrunNil : run = []
      · -- nothing stands for itself here, so there are escapes
        subst hrunNil
        obtain ⟨chars, u, e, s'', rfl, rfl, hchars, hescapes, h'', hhead'⟩ :=
          h'.escapes_first hp.percent
        have hcharsNil : chars ≠ [] := by
          rintro rfl
          cases hescapes
          cases s'' with
          | nil => exact hnil (h''.eq_nil rfl)
          | cons c s'' => exact hhead' c rfl (hhead c rfl)
        have hlt : u.length < n := by
          have := List.length_pos_iff.mpr hcharsNil
          rw [← hn, List.nil_append, List.length_append]
          omega
        obtain ⟨parts, hrounds, hconcat⟩ := ih u.length hlt h'' rfl
        refine ⟨chars :: parts, .more ?_ hrounds, ?_⟩
        · rw [List.nil_append, List.append_assoc]
          refine hp.escapes hcharsNil hchars hescapes ?_
          cases s'' with
          | nil => exact fun c hc => (hrest c hc).2
          | cons c s'' => exact hhead'
        · show chars ++ Text.concat parts = _
          rw [hconcat, List.nil_append]
      · have hlt : t'.length < n := by
          have := List.length_pos_iff.mpr hrunNil
          rw [← hn, List.length_append]
          omega
        obtain ⟨parts, hrounds, hconcat⟩ := ih t'.length hlt h' rfl
        refine ⟨run :: parts, .more ?_ hrounds, ?_⟩
        · rw [List.append_assoc]
          refine hp.plain hrunNil hrun ⟨fun _ => rfl, ?_⟩
          cases s' with
          | nil => exact fun c hc => (hrest c hc).1
          | cons c s' =>
            rintro _ ⟨⟩
            show test c.val = false
            rw [hhead c rfl, hp.percent]
        · show run ++ Text.concat parts = _
          rw [hconcat]

/-- The loop of a component stops where nothing of it can follow. -/
theorem ReadsRuns.many_of_written (hp : ReadsRuns p test) {t s : Text} (h : Written test t s)
    {rest : Text} (hrest : ∀ c ∈ rest.head?, test c.val = false ∧ c.val ≠ 0x25)
    (hend : p.verdict true rest = .rejected) :
    ∃ parts, Verdict.many (p.verdict true) (s ++ rest) = .matched parts rest ∧
      Text.concat parts = t := by
  obtain ⟨parts, hrounds, hconcat⟩ := hp.rounds_of_written h hrest
  exact ⟨parts, Verdict.many_of_rounds (fun hm => hp.consumes hm) hrounds hend, hconcat⟩

/-! ### The parts of names and of components -/

theorem consumes_takeSomeWhile (test : CodePoint → Bool) : (takeSomeWhile test).Consumes := by
  intro final s rest run h
  obtain ⟨hne, rfl, -⟩ := matched_takeSomeWhile.mp h
  have := List.length_pos_iff.mpr hne
  rw [List.length_append]
  omega

theorem consumes_alt {q : TextGrammar Text} (hp : p.Consumes) (hq : q.Consumes) :
    (alt p q).Consumes := by
  intro final s rest value h
  rcases matched_of_alt h with h | h
  · exact hp h
  · exact hq h

theorem consumes_noAlternative : (noAlternative : TextGrammar Text).Consumes := by
  intro final s rest value h
  cases h

theorem takeSomeWhile_of_head {rest : Text} (h : ∀ c ∈ rest.head?, test c.val = false) :
    (takeSomeWhile fun c : CodePoint => test c.val).verdict true rest = .rejected := by
  rw [verdict_takeSomeWhile]
  cases rest with
  | nil => rfl
  | cons c rest =>
    have hc := h c rfl
    simp [hc]

/-- A part of a name: escapes, or characters as they are. -/
abbrev namePart (test : Nat → Bool) : TextGrammar Text :=
  eitherOf [percentEncoded, takeSomeWhile fun c => test c.val]

theorem reads_namePart (hpercent : test 0x25 = false) : ReadsRuns (namePart test) test where
  plain hne hrun hrest := by
    obtain ⟨c, run, rfl⟩ := List.exists_cons_of_ne_nil hne
    have hc : c.val ≠ 0x25 := fun hval => by
      have htest := hrun c List.mem_cons_self
      rw [hval, hpercent] at htest
      cases htest
    exact (alt_of_rejected _ (percentEncoded_of_ne hc true _)).trans
      (alt_of_matched _ (matched_takeSomeWhile.mpr ⟨hne, rfl, hrun, hrest⟩))
  escapes hne hchars h hrest := alt_of_matched _ (percentEncoded_of_escapes hne hchars h hrest)
  consumes := consumes_alt consumes_percentEncoded
    (consumes_alt (consumes_takeSomeWhile _) consumes_noAlternative)
  percent := hpercent

theorem namePart_of_head {rest : Text}
    (h : ∀ c ∈ rest.head?, test c.val = false ∧ c.val ≠ 0x25) :
    (namePart test).verdict true rest = .rejected :=
  (alt_of_rejected _ (percentEncoded_of_head fun c hc => (h c hc).2)).trans
    ((alt_of_rejected _ (takeSomeWhile_of_head fun c hc => (h c hc).1)).trans rfl)

/-- **A name, perhaps empty, is read as what it was written for.** -/
theorem nameParts_of_written (hpercent : test 0x25 = false) {t s : Text} (h : Written test t s)
    {rest : Text} (hrest : ∀ c ∈ rest.head?, test c.val = false ∧ c.val ≠ 0x25) :
    ∃ parts, (repeatAny (namePart test)).verdict true (s ++ rest) = .matched parts rest ∧
      Text.concat parts = t := by
  rw [verdict_repeatAny]
  exact (reads_namePart hpercent).many_of_written h hrest (namePart_of_head hrest)

/-- A part of a component: escapes, a plus sign, or characters as they are. -/
abbrev componentPart (test : Nat → Bool) : TextGrammar Text :=
  eitherOf [percentEncoded, plusSign, takeSomeWhile fun c => test c.val]

theorem plusSign_of_head {rest : Text} (h : ∀ c ∈ rest.head?, c.val ≠ 0x2B) :
    plusSign.verdict true rest = .rejected :=
  map_of_rejected _ (rejected_ascii (by decide) (fun _ => rfl) h)

theorem reads_componentPart (hpercent : test 0x25 = false) (hplus : test 0x2B = false) :
    ReadsRuns (componentPart test) test where
  plain hne hrun hrest := by
    obtain ⟨c, run, rfl⟩ := List.exists_cons_of_ne_nil hne
    have hapart {n : Nat} (hn : test n = false) : c.val ≠ n := fun hval => by
      have htest := hrun c List.mem_cons_self
      rw [hval, hn] at htest
      cases htest
    refine (alt_of_rejected _ (percentEncoded_of_ne (hapart hpercent) true _)).trans
      ((alt_of_rejected _ (plusSign_of_head ?_)).trans
        (alt_of_matched _ (matched_takeSomeWhile.mpr ⟨hne, rfl, hrun, hrest⟩)))
    rintro _ ⟨⟩
    exact hapart hplus
  escapes hne hchars h hrest := alt_of_matched _ (percentEncoded_of_escapes hne hchars h hrest)
  consumes := consumes_alt consumes_percentEncoded
    (consumes_alt ((Consumes.satisfy _ _).map _)
      (consumes_alt (consumes_takeSomeWhile _) consumes_noAlternative))
  percent := hpercent

/-- **The end of a component**: what comes next, if anything, is not taken as it is and
is neither a percent sign nor a plus sign. -/
def Delimited (test : Nat → Bool) (rest : Text) : Prop :=
  ∀ c ∈ rest.head?, test c.val = false ∧ c.val ≠ 0x25 ∧ c.val ≠ 0x2B

theorem componentPart_of_head {rest : Text} (h : Delimited test rest) :
    (componentPart test).verdict true rest = .rejected :=
  (alt_of_rejected _ (percentEncoded_of_head fun c hc => (h c hc).2.1)).trans
    ((alt_of_rejected _ (plusSign_of_head fun c hc => (h c hc).2.2)).trans
      ((alt_of_rejected _ (takeSomeWhile_of_head fun c hc => (h c hc).1)).trans rfl))

/-- Where a component is over there is none. -/
theorem component_of_head {rest : Text} (h : Delimited test rest) :
    (component test).verdict true rest = .rejected := by
  refine map_of_rejected _ ?_
  rw [verdict_repeatSome, verdict_repeatAny, Verdict.many_eq, componentPart_of_head h]
  rfl

/-- **A component that is not empty is read as what it was written for.** -/
theorem component_of_written (hpercent : test 0x25 = false) (hplus : test 0x2B = false)
    {t s : Text} (h : Written test t s) (hne : t ≠ []) {rest : Text} (hrest : Delimited test rest) :
    (component test).verdict true (s ++ rest) = .matched t rest := by
  obtain ⟨parts, hmany, hconcat⟩ := (reads_componentPart hpercent hplus).many_of_written h
    (fun c hc => ⟨(hrest c hc).1, (hrest c hc).2.1⟩) (componentPart_of_head hrest)
  refine matched_map.mpr ⟨parts, ?_, hconcat⟩
  rw [verdict_repeatSome, verdict_repeatAny, hmany]
  cases parts with
  | nil => exact absurd hconcat.symm hne
  | cons part parts => rfl

/-- **A component that may be empty**: there is none then. -/
theorem optional_component_of_written (hpercent : test 0x25 = false) (hplus : test 0x2B = false)
    {t s : Text} (h : Written test t s) {rest : Text} (hrest : Delimited test rest) :
    ∃ v : Option Text, (optional (component test)).verdict true (s ++ rest) = .matched v rest ∧
      v.getD [] = t := by
  by_cases hne : t = []
  · subst hne
    cases h
    exact ⟨none, matched_optional.mpr (.inl ⟨component_of_head hrest, rfl, rfl⟩), rfl⟩
  · exact ⟨some t, matched_optional.mpr
      (.inr ⟨t, component_of_written hpercent hplus h hne hrest, rfl⟩), rfl⟩

end StreamGrammar.Uri
