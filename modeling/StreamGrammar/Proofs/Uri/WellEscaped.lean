import StreamGrammar.Proofs.Uri.Escaping

/-!
# Texts whose escapes are in order

That the escapes of a text are in order is said of the text as a whole: each percent
sign begins a group, of it and two hexadecimal digits, and each run of groups that is as
long as it gets is UTF-8 (`WellEscaped`). A parser goes about it from the front
(`Decoded`). It takes a run of groups for the characters that their bytes encode, and
any other character for what it stands for by itself, and it looks ahead only, to see
that a run is over.

The two agree (`wellEscaped_iff`), though a run that is as long as it gets is so at both
of its ends. The reason is that a percent sign within a run begins one of its groups, as
a hexadecimal digit is no percent sign (`Escapes.split`). So no run begins in the midst
of another, and where a parser has come to the end of one there is none that reaches
back.
-/

namespace StreamGrammar.Uri

open Grammar

/-! ## Groups -/

/-- **A group**: a percent sign and two hexadecimal digits. -/
def IsGroup (g : Text) : Prop :=
  ∃ p a b : CodePoint, g = [p, a, b] ∧ p.val = 0x25 ∧
    Charset.isHexDigit a.val = true ∧ Charset.isHexDigit b.val = true

/-- A hexadecimal digit is that of a number, in lower case or upper. -/
theorem exists_hexDigit {c : CodePoint} (h : Charset.isHexDigit c.val = true) :
    ∃ upper, ∃ n < 16, c = Numeral.hexDigit upper n := by
  have hval {upper : Bool} {n : Nat} (hn : n < 16)
      (heq : c.val = if n < 10 then 48 + n else if upper then 55 + n else 87 + n) :
      c = Numeral.hexDigit upper n :=
    CodePoint.ext (heq.trans (CodePoint.val_ofNat (by split <;> [omega; split <;> omega])).symm)
  simp only [Charset.isHexDigit, Charset.isDigit, Bool.or_eq_true, Bool.and_eq_true,
    decide_eq_true_eq] at h
  rcases h with (h | h) | h
  · exact ⟨false, c.val - 48, by omega, hval (by omega) (by rw [if_pos (by omega)]; omega)⟩
  · refine ⟨true, c.val - 55, by omega, hval (by omega) ?_⟩
    rw [if_neg (by omega), if_pos rfl]
    omega
  · refine ⟨false, c.val - 87, by omega, hval (by omega) ?_⟩
    rw [if_neg (by omega), if_neg (by decide)]
    omega

/-- **A group is the escape of a byte.** -/
theorem isGroup_iff {g : Text} : IsGroup g ↔ ∃ upper upper' b, g = escapeOf upper upper' b := by
  constructor
  · rintro ⟨p, x, y, rfl, hp, hx, hy⟩
    obtain ⟨upper, m, hm, rfl⟩ := exists_hexDigit hx
    obtain ⟨upper', n, hn, rfl⟩ := exists_hexDigit hy
    obtain rfl : p = CodePoint.ofChar '%' := CodePoint.ext hp
    have hb : (UInt8.ofNat (16 * m + n)).toNat = 16 * m + n :=
      Utf8.toNat_ofNat_of_lt (by omega)
    refine ⟨upper, upper', UInt8.ofNat (16 * m + n), ?_⟩
    rw [escapeOf, hb, show (16 * m + n) / 16 = m by omega, show (16 * m + n) % 16 = n by omega]
  · rintro ⟨upper, upper', b, rfl⟩
    have hb := b.toNat_lt
    exact ⟨_, _, _, rfl, rfl, (hexDigit_spec upper (by omega)).1,
      (hexDigit_spec upper' (by omega)).1⟩

theorem isGroup_escapeOf (upper upper' : Bool) (b : UInt8) : IsGroup (escapeOf upper upper' b) :=
  isGroup_iff.mpr ⟨upper, upper', b, rfl⟩

/-- A hexadecimal digit is no percent sign. -/
theorem ne_percent_of_isHexDigit {c : CodePoint} (h : Charset.isHexDigit c.val = true) :
    c.val ≠ 0x25 := by
  intro hc
  rw [hc] at h
  exact absurd h (by decide)

namespace Escapes

variable {bytes bytes' : Bytes} {e e' s s' before rest : Text} {c : CodePoint}

/-- A run begins with a group. -/
theorem begins (h : Escapes bytes e) (hne : e ≠ []) : ∃ g, IsGroup g ∧ g <+: e := by
  cases h with
  | nil => exact absurd rfl hne
  | cons upper upper' b h => exact ⟨_, isGroup_escapeOf upper upper' b, List.prefix_append _ _⟩

/-- A run ends with a group. -/
theorem ends (h : Escapes bytes e) (hne : e ≠ []) : ∃ g, IsGroup g ∧ g <:+ e := by
  induction h with
  | nil => exact absurd rfl hne
  | @cons upper upper' b bytes e h ih =>
    by_cases he : e = []
    · rw [he, List.append_nil]
      exact ⟨_, isGroup_escapeOf upper upper' b, List.suffix_rfl⟩
    · obtain ⟨g, hg, hsuffix⟩ := ih he
      exact ⟨g, hg, hsuffix.trans (List.suffix_append _ _)⟩

/-- **A percent sign within a run begins one of its groups**, or it stands behind the
run. -/
theorem split (h : Escapes bytes e) (heq : e ++ s = before ++ c :: rest) (hc : c.val = 0x25) :
    (∃ bytes' e', Escapes bytes' before ∧ (∃ g, IsGroup g ∧ g <+: e') ∧ e = before ++ e' ∧
        e' ++ s = c :: rest) ∨
      ∃ before', before = e ++ before' ∧ s = before' ++ c :: rest := by
  induction h generalizing before with
  | nil => exact .inr ⟨before, rfl, heq⟩
  | cons upper upper' b h ih =>
    obtain ⟨p, x, y, hg, -, hx, hy⟩ := isGroup_escapeOf upper upper' b
    have hbegins := (Escapes.cons upper upper' b h).begins (by simp [escapeOf])
    rw [hg] at heq hbegins ⊢
    rcases before with _ | ⟨_, _ | ⟨_, _ | ⟨_, before⟩⟩⟩
    · exact .inl ⟨[], _, .nil, hbegins, rfl, heq⟩
    · cases heq
      exact absurd hc (ne_percent_of_isHexDigit hx)
    · cases heq
      exact absurd hc (ne_percent_of_isHexDigit hy)
    · simp only [List.cons_append, List.nil_append, List.cons.injEq] at heq
      obtain ⟨rfl, rfl, rfl, heq⟩ := heq
      rcases ih heq with ⟨bytes', e', h', hbegins', rfl, hrest⟩ | ⟨before', rfl, hrest⟩
      · have hmore := Escapes.cons upper upper' b h'
        rw [hg] at hmore
        exact .inl ⟨_, e', hmore, hbegins', rfl, hrest⟩
      · exact .inr ⟨before', rfl, hrest⟩

/-- No group begins in a run and ends behind it. -/
theorem not_group_append (h : Escapes bytes e) (hne : before ≠ [])
    (hbefore : ∀ g, IsGroup g → ¬g <:+ before) (g : Text) (hg : IsGroup g) :
    ¬g <:+ e ++ before := by
  obtain ⟨p, x, y, rfl, hp, hx, hy⟩ := hg
  rintro ⟨first, heq⟩
  rcases h.split heq.symm hp with ⟨_, e', -, ⟨g', hg', more, rfl⟩, -, hrest⟩ | ⟨before', -, rfl⟩
  · -- the group there is as long as this one, and nothing is left behind it
    obtain ⟨_, _, _, rfl, -⟩ := hg'
    cases before with
    | nil => exact hne rfl
    | cons d before => simp at hrest
  · exact hbefore _ ⟨p, x, y, rfl, hp, hx, hy⟩ ⟨before', rfl⟩

/-- The escape of a byte tells the byte. -/
theorem escapeOf_injective {upper upper' lower lower' : Bool} {b b' : UInt8}
    (h : escapeOf upper upper' b = escapeOf lower lower' b') : b = b' := by
  have hb := b.toNat_lt
  have hb' := b'.toNat_lt
  simp only [escapeOf, List.cons.injEq, true_and, and_true] at h
  have hhigh := congrArg (fun c : CodePoint => Charset.hexValue c.val) h.1
  have hlow := congrArg (fun c : CodePoint => Charset.hexValue c.val) h.2
  rw [(hexDigit_spec _ (by omega)).2, (hexDigit_spec _ (by omega)).2] at hhigh hlow
  exact UInt8.toNat_inj.mp (by omega)

/-- **Runs that begin at the same place are the same** if both are as long as they get. -/
theorem eq_of_append_eq (h : Escapes bytes e) (h' : Escapes bytes' e') (heq : e ++ s = e' ++ s')
    (hs : ∀ g, IsGroup g → ¬g <+: s) (hs' : ∀ g, IsGroup g → ¬g <+: s') :
    bytes = bytes' ∧ s = s' := by
  induction h generalizing bytes' e' with
  | nil =>
    by_cases hne : e' = []
    · subst hne
      cases h'
      exact ⟨rfl, heq⟩
    · obtain ⟨g, hg, hpre⟩ := h'.begins hne
      rw [List.nil_append] at heq
      exact absurd (heq ▸ hpre.trans (List.prefix_append _ _)) (hs g hg)
  | cons upper upper' b h ih =>
    cases h' with
    | nil =>
      rw [List.nil_append, List.append_assoc] at heq
      exact absurd (heq ▸ List.prefix_append _ _) (hs' _ (isGroup_escapeOf upper upper' b))
    | cons lower lower' b' h' =>
      rw [List.append_assoc, List.append_assoc] at heq
      obtain ⟨hfirst, heq⟩ := List.append_inj heq rfl
      obtain ⟨rfl, rfl⟩ := ih h' heq
      exact ⟨by rw [escapeOf_injective hfirst], rfl⟩

end Escapes

/-! ## Escapes in order -/

/-- **The escapes of a text are in order.** -/
structure WellEscaped (t : Text) : Prop where
  /-- Every percent sign begins a group. -/
  group : ∀ c s, c :: s <:+ t → c.val = 0x25 → ∃ g, IsGroup g ∧ g <+: c :: s
  /-- Every run of groups that is as long as it gets is UTF-8. -/
  utf8 : ∀ before run after bytes, t = before ++ (run ++ after) → Escapes bytes run →
    (∀ g, IsGroup g → ¬g <:+ before) → (∀ g, IsGroup g → ¬g <+: after) →
      ∃ chars, Utf8.decode bytes = .ok chars

/-- What a character stands for that belongs to no group. -/
def unescaped (c : CodePoint) : CodePoint := if c.val = 0x2B then CodePoint.ofChar ' ' else c

/-- **A text and what it decodes to**, from the front: runs of groups, each as long as it
gets, for the characters that their bytes encode, plus signs for blanks, and everything
else for itself. -/
inductive Decoded : Text → Text → Prop
  /-- Nothing is left. -/
  | nil : Decoded [] []
  /-- A character comes first that begins no group. -/
  | plain {c : CodePoint} {s t : Text} (hc : c.val ≠ 0x25) (h : Decoded s t) :
      Decoded (c :: s) (unescaped c :: t)
  /-- A run of groups comes first. -/
  | run {bytes : Bytes} {e chars s t : Text} (he : Escapes bytes e) (hne : bytes ≠ [])
      (hchars : Utf8.decode bytes = .ok chars) (hs : ∀ c ∈ s.head?, c.val ≠ 0x25)
      (h : Decoded s t) : Decoded (e ++ s) (chars ++ t)

section

variable {s t e before : Text} {bytes : Bytes} {c : CodePoint}

theorem decode_nil : Utf8.decode [] = .ok [] := Utf8.decode_eq_ok_iff.mpr ⟨rfl, nofun⟩

/-- A run that is empty is UTF-8. -/
theorem Escapes.decode_of_nil (h : Escapes bytes []) : ∃ chars, Utf8.decode bytes = .ok chars := by
  cases h
  exact ⟨[], decode_nil⟩

theorem not_group_nil (g : Text) (hg : IsGroup g) : ¬g <:+ [] := by
  obtain ⟨p, x, y, rfl, -⟩ := hg
  simp

/-- Where no percent sign comes there is no group. -/
theorem not_group_of_head (h : ∀ c ∈ s.head?, c.val ≠ 0x25) (g : Text) (hg : IsGroup g) :
    ¬g <+: s := by
  obtain ⟨p, x, y, rfl, hp, -⟩ := hg
  rintro ⟨more, rfl⟩
  exact h p rfl hp

/-- A group that ends behind a character that begins none ends behind it. -/
theorem not_group_cons (hc : c.val ≠ 0x25) (h : ∀ g, IsGroup g → ¬g <:+ before) (g : Text)
    (hg : IsGroup g) : ¬g <:+ c :: before := by
  intro hsuffix
  rcases List.suffix_cons_iff.mp hsuffix with rfl | hsuffix
  · obtain ⟨p, x, y, heq, hp, -⟩ := hg
    cases heq
    exact hc hp
  · exact h g hg hsuffix

namespace WellEscaped

theorem nil : WellEscaped [] where
  group c s h _ := absurd h (by simp)
  utf8 before run after bytes heq h _ _ := by
    obtain ⟨-, heq⟩ := List.append_eq_nil_iff.mp heq.symm
    obtain ⟨rfl, -⟩ := List.append_eq_nil_iff.mp heq
    exact h.decode_of_nil

/-- **A character that begins no group** does not matter. -/
theorem cons_iff (hc : c.val ≠ 0x25) : WellEscaped (c :: s) ↔ WellEscaped s := by
  constructor
  · refine fun h => ⟨fun d u hd => h.group d u (hd.trans (List.suffix_cons c s)), ?_⟩
    rintro before run after bytes rfl hrun hbefore
    exact h.utf8 (c :: before) run after bytes rfl hrun (not_group_cons hc hbefore)
  · refine fun h => ⟨fun d u hd hval => ?_, ?_⟩
    · rcases List.suffix_cons_iff.mp hd with heq | hd
      · cases heq
        exact absurd hval hc
      · exact h.group d u hd hval
    · intro before run after bytes heq hrun hbefore hafter
      cases before with
      | nil =>
        by_cases hnil : run = []
        · subst hnil
          exact hrun.decode_of_nil
        · obtain ⟨d, run, rfl⟩ := List.exists_cons_of_ne_nil hnil
          cases heq
          exact absurd (hrun.head c rfl) hc
      | cons d before =>
        cases heq
        exact h.utf8 before run after bytes rfl hrun
          (fun g hg hsuffix => hbefore g hg (hsuffix.trans (List.suffix_cons _ _))) hafter

/-- What stands behind a run does not reach back into it. -/
theorem of_append (he : Escapes bytes e) (hs : ∀ g, IsGroup g → ¬g <+: s)
    (h : WellEscaped (e ++ s)) : WellEscaped s := by
  refine ⟨fun d u hd => h.group d u (hd.trans (List.suffix_append e s)), ?_⟩
  rintro before run after bytes' rfl hrun hbefore hafter
  by_cases hnil : run = []
  · subst hnil
    exact hrun.decode_of_nil
  have hne : before ≠ [] := by
    rintro rfl
    obtain ⟨g, hg, hpre⟩ := hrun.begins hnil
    exact hs g hg (hpre.trans (List.prefix_append _ _))
  exact h.utf8 (e ++ before) run after bytes' (List.append_assoc ..).symm hrun
    (he.not_group_append hne hbefore) hafter

/-- A run that is as long as it gets can be put in front if it is UTF-8. -/
theorem append (he : Escapes bytes e) (hs : ∀ g, IsGroup g → ¬g <+: s)
    (hutf8 : ∃ chars, Utf8.decode bytes = .ok chars) (h : WellEscaped s) :
    WellEscaped (e ++ s) := by
  refine ⟨fun c u ⟨before, heq⟩ hc => ?_, fun before run after bytes' heq hrun hbefore hafter => ?_⟩
  · rcases he.split heq.symm hc with ⟨_, e', -, ⟨g, hg, hpre⟩, -, hrest⟩ | ⟨before', -, rfl⟩
    · exact ⟨g, hg, hrest ▸ hpre.trans (List.prefix_append _ _)⟩
    · exact h.group c u ⟨before', rfl⟩ hc
  · by_cases hnil : run = []
    · subst hnil
      exact hrun.decode_of_nil
    obtain ⟨c, more, rfl⟩ := List.exists_cons_of_ne_nil hnil
    rcases he.split heq (hrun.head c rfl) with ⟨_, _, hrun', -, -, -⟩ | ⟨before', rfl, rfl⟩
    · -- what is before the run ends with a group, unless there is nothing
      by_cases hne : before = []
      · subst hne
        obtain ⟨rfl, -⟩ := he.eq_of_append_eq hrun heq hs hafter
        exact hutf8
      · obtain ⟨g, hg, hsuffix⟩ := hrun'.ends hne
        exact absurd hsuffix (hbefore g hg)
    · exact h.utf8 before' (c :: more) after bytes' rfl hrun
        (fun g hg hsuffix => hbefore g hg (hsuffix.trans (List.suffix_append _ _))) hafter

/-- **A run that is as long as it gets** only has to be UTF-8. -/
theorem append_iff (he : Escapes bytes e) (hs : ∀ g, IsGroup g → ¬g <+: s) :
    WellEscaped (e ++ s) ↔ (∃ chars, Utf8.decode bytes = .ok chars) ∧ WellEscaped s :=
  ⟨fun h => ⟨h.utf8 [] e s bytes rfl he not_group_nil hs, h.of_append he hs⟩,
    fun ⟨hutf8, h⟩ => h.append he hs hutf8⟩

end WellEscaped

/-- **A text has a run of groups in front**, perhaps an empty one, that is as long as it
gets, if its percent signs all begin groups. -/
theorem exists_run (h : ∀ c u, c :: u <:+ s → c.val = 0x25 → ∃ g, IsGroup g ∧ g <+: c :: u) :
    ∃ bytes e s', s = e ++ s' ∧ Escapes bytes e ∧ ∀ c ∈ s'.head?, c.val ≠ 0x25 := by
  induction hn : s.length using Nat.strongRecOn generalizing s with
  | _ n ih =>
    by_cases hs : ∀ c ∈ s.head?, c.val ≠ 0x25
    · exact ⟨[], [], s, rfl, .nil, hs⟩
    · simp only [not_forall, not_not] at hs
      obtain ⟨c, hc, hval⟩ := hs
      obtain ⟨s, rfl⟩ := List.head?_eq_some_iff.mp hc
      obtain ⟨g, hg, u, hcut⟩ := h c s List.suffix_rfl hval
      obtain ⟨upper, upper', b, rfl⟩ := isGroup_iff.mp hg
      rw [← hcut] at h hn ⊢
      have hlt : u.length < n := by
        rw [← hn, List.length_append]
        exact Nat.lt_add_of_pos_left (by simp [escapeOf])
      obtain ⟨bytes, e, s', rfl, he, hs'⟩ :=
        ih u.length hlt (fun d v hd => h d v (hd.trans (List.suffix_append _ u))) rfl
      exact ⟨b :: bytes, _, s', (List.append_assoc ..).symm, .cons upper upper' b he, hs'⟩

/-- **The escapes of a text are in order exactly if it can be decoded** from the front. -/
theorem wellEscaped_iff : WellEscaped s ↔ ∃ t, Decoded s t := by
  constructor
  · intro h
    induction hn : s.length using Nat.strongRecOn generalizing s with
    | _ n ih =>
      obtain ⟨bytes, e, s', rfl, he, hs'⟩ := exists_run h.group
      obtain ⟨⟨chars, hchars⟩, h'⟩ := (WellEscaped.append_iff he (not_group_of_head hs')).mp h
      by_cases hbytes : bytes = []
      · subst hbytes
        cases he
        cases s' with
        | nil => exact ⟨[], .nil⟩
        | cons c s' =>
          have hc := hs' c rfl
          obtain ⟨t, ht⟩ := ih s'.length (by rw [← hn]; simp) ((WellEscaped.cons_iff hc).mp h') rfl
          exact ⟨_, .plain hc ht⟩
      · have hlt : s'.length < n := by
          have := List.length_pos_iff.mpr (he.ne_nil hbytes)
          rw [← hn, List.length_append]
          omega
        obtain ⟨t, ht⟩ := ih s'.length hlt h' rfl
        exact ⟨_, .run he hbytes hchars hs' ht⟩
  · rintro ⟨t, h⟩
    induction h with
    | nil => exact .nil
    | plain hc _ ih => exact (WellEscaped.cons_iff hc).mpr ih
    | run he _ hchars hs _ ih =>
      exact (WellEscaped.append_iff he (not_group_of_head hs)).mpr ⟨⟨_, hchars⟩, ih⟩

end

/-! ## Escapes as the grammar reads them -/

section

variable {final : Bool} {s rest chars : Text} {b : UInt8}

/-- **One escape is read where a group is.** -/
theorem matched_escapedByte :
    escapedByte.verdict final s = .matched b rest ↔
      ∃ upper upper', s = escapeOf upper upper' b ++ rest := by
  constructor
  · intro h
    obtain ⟨p, middle, hp, hdigits⟩ := matched_preceded.mp h
    obtain ⟨rfl, rfl⟩ := matched_ascii.mp hp
    obtain ⟨digits, htake, hvalue⟩ := matched_convertOrHalt.mp (matched_halt.mp hdigits)
    obtain ⟨rfl, hlength⟩ := matched_take.mp htake
    obtain ⟨x, y, rfl⟩ : ∃ x y, digits = [x, y] := by
      rcases digits with _ | ⟨x, _ | ⟨y, _ | _⟩⟩ <;> cases hlength
      exact ⟨x, y, rfl⟩
    simp only [hexPairConversion] at hvalue
    split at hvalue
    · rename_i hhex
      simp only [List.all_cons, List.all_nil, Bool.and_true, Bool.and_eq_true] at hhex
      obtain ⟨upper, upper', b', heq⟩ := isGroup_iff.mp ⟨CodePoint.ofChar '%', x, y, rfl, rfl, hhex⟩
      have hs : Element.ofAscii '%' :: ([x, y] ++ rest) = escapeOf upper upper' b' ++ rest :=
        congrArg (· ++ rest) heq
      rw [hs] at h ⊢
      cases h.symm.trans (escapedByte_of_escape upper upper' b' final rest)
      exact ⟨upper, upper', rfl⟩
    · cases hvalue
  · rintro ⟨upper, upper', rfl⟩
    exact escapedByte_of_escape upper upper' b final rest

/-- There is no escape only where no percent sign comes, since that commits. -/
theorem head_of_escapedByte_rejected (h : escapedByte.verdict true s = .rejected) :
    ∀ c ∈ s.head?, c.val ≠ 0x25 := by
  cases s with
  | nil => exact nofun
  | cons c s =>
    rintro _ ⟨⟩ hc
    have hpercent := matched_ascii_cons (a := '%') (by decide) hc true s
    rw [escapedByte, preceded, verdict_bind, hpercent, Verdict.andThen, verdict_halt] at h
    cases hv : (convertOrHalt hexPairConversion (take 2)).verdict true s <;>
      rw [hv] at h <;> cases h

theorem escapes_of_rounds {bytes : Bytes}
    (h : Verdict.Rounds (escapedByte.verdict final) s bytes rest) :
    ∃ e, Escapes bytes e ∧ s = e ++ rest := by
  induction h with
  | none s => exact ⟨[], .nil, rfl⟩
  | more hround _ ih =>
    obtain ⟨upper, upper', rfl⟩ := matched_escapedByte.mp hround
    obtain ⟨e, he, rfl⟩ := ih
    exact ⟨_, .cons upper upper' _ he, (List.append_assoc ..).symm⟩

/-- **A run of groups is read as the characters that its bytes encode**, and it is read as
far as it goes. -/
theorem matched_percentEncoded :
    percentEncoded.verdict true s = .matched chars rest ↔
      ∃ bytes e, s = e ++ rest ∧ Escapes bytes e ∧ bytes ≠ [] ∧
        Utf8.decode bytes = .ok chars ∧ ∀ c ∈ rest.head?, c.val ≠ 0x25 := by
  constructor
  · intro h
    obtain ⟨bytes, hbytes, hchars⟩ := matched_convertOrHalt.mp h
    obtain ⟨hne, hmany⟩ := matched_repeatSome.mp hbytes
    rw [verdict_repeatAny] at hmany
    obtain ⟨e, he, rfl⟩ := escapes_of_rounds (Verdict.rounds_of_many hmany)
    exact ⟨bytes, e, rfl, he, hne, mapError_eq_ok.mp hchars,
      head_of_escapedByte_rejected (Verdict.rejected_of_many (fun h => consumes_escapedByte h) hmany)⟩
  · rintro ⟨bytes, e, rfl, he, hne, hchars, hrest⟩
    obtain ⟨rfl, hencodable⟩ := Utf8.decode_eq_ok_iff.mp hchars
    refine percentEncoded_of_escapes (fun hnil => hne ?_) hencodable he hrest
    rw [hnil]
    rfl

end

end StreamGrammar.Uri
