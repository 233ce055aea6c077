import StreamGrammar.Proofs.Text.Spelling

/-!
# UTF-8 has one spelling for each text

The bytes of a code point are read back as that code point, with the lead byte
telling how many follow; and whatever is read as a code point is the bytes of
it, because the narrower ranges after four of the leads leave out the spellings
that are too long and the surrogates. So a byte string is read as a text exactly
if it is what the text is encoded as, and the text has no surrogate
(`decode_eq_ok_iff`).

That makes bytes an alphabet in which text is spelled.
-/

namespace StreamGrammar.Utf8

variable {bits more low high n size position : Nat} {b : UInt8} {bytes rest : Bytes}

/-! ## One code point -/

theorem continueWith_zero : continueWith bits 0 low high bytes = .ok (bits, bytes) := by
  rw [continueWith]

/-- A continuation byte in its range, and those after it. -/
theorem continueWith_succ {r : Nat × Bytes} :
    continueWith bits (more + 1) low high bytes = .ok r ↔
      ∃ b rest, bytes = b :: rest ∧ low ≤ b.toNat ∧ b.toNat ≤ high ∧
        continueWith (bits * 64 + (b.toNat - 0x80)) more 0x80 0xBF rest = .ok r := by
  cases bytes with
  | nil => simp [continueWith]
  | cons b rest =>
    simp only [continueWith]
    constructor
    · intro h
      split at h
      · rename_i hrange
        refine ⟨b, rest, rfl, hrange.1, hrange.2, ?_⟩
        split at h
        · rename_i heq
          rw [heq, h]
        · cases h
      · cases h
    · rintro ⟨_, _, heq, hlow, hhigh, hmore⟩
      cases heq
      rw [if_pos ⟨hlow, hhigh⟩, hmore]

/-- A code point is read if its lead is one and its continuation follows. -/
theorem step_iff : step position b bytes = .ok (n, size, rest) ↔
    ∃ lead, lead? b.toNat = some lead ∧
      continueWith lead.bits lead.more lead.low lead.high bytes = .ok (n, rest) ∧
      size = 1 + lead.more := by
  unfold step
  constructor
  · intro h
    split at h
    · cases h
    · rename_i lead hlead
      split at h
      · rename_i hmore
        cases h
        exact ⟨lead, hlead, hmore, rfl⟩
      · cases h
  · rintro ⟨lead, hlead, hmore, rfl⟩
    simp only [hlead, hmore]

theorem toNat_ofNat_of_lt {n : Nat} (h : n < 256) : (UInt8.ofNat n).toNat = n := by
  rw [UInt8.toNat_ofNat']
  omega

theorem toNat_continuation (n : Nat) : (continuation n).toNat = 0x80 + n % 64 :=
  toNat_ofNat_of_lt (by omega)

/-- A byte is the continuation byte of a number with the same last six bits. -/
theorem eq_continuation (h : b.toNat = 0x80 + n % 64) :
    b = continuation n :=
  UInt8.toNat_inj.mp (h.trans (toNat_continuation n).symm)

/-- The next six bits of a number are read from its continuation byte. -/
theorem continueWith_continuation {r : Nat × Bytes} (hlow : low ≤ 0x80 + n % 64)
    (hhigh : 0x80 + n % 64 ≤ high)
    (h : continueWith (bits * 64 + n % 64) more 0x80 0xBF rest = .ok r) :
    continueWith bits (more + 1) low high (continuation n :: rest) = .ok r := by
  refine continueWith_succ.mpr ⟨_, rest, rfl, ?_, ?_, ?_⟩ <;> rw [toNat_continuation]
  · exact hlow
  · exact hhigh
  · rwa [Nat.add_sub_cancel_left]

/-- A lead with two continuation bytes admits the first of them, unless there are
shorter spellings or the number is a surrogate's. -/
theorem lead?_three (hlow : 0x800 ≤ n) (hhigh : n < 0x10000) (hn : n < 0xD800 ∨ 0xDFFF < n) :
    ∃ low high, lead? (0xE0 + n / 4096) = some { bits := n / 4096, more := 2, low, high } ∧
      low ≤ 0x80 + n / 64 % 64 ∧ 0x80 + n / 64 % 64 ≤ high := by
  by_cases h0 : n / 4096 = 0
  · exact ⟨0xA0, 0xBF, by rw [h0]; decide, by omega, by omega⟩
  by_cases hD : n / 4096 = 0xD
  · exact ⟨0x80, 0x9F, by rw [hD]; decide, by omega, by omega⟩
  · refine ⟨0x80, 0xBF, ?_, by omega, by omega⟩
    rw [lead?, if_neg (by omega), if_neg (by omega), if_neg (by omega), if_neg (by omega),
      if_neg (by omega), if_pos (by omega), Nat.add_sub_cancel_left]

/-- A lead with three continuation bytes admits the first of them, unless there
are shorter spellings or the number is past the code space. -/
theorem lead?_four (hlow : 0x10000 ≤ n) (hhigh : n < 0x110000) :
    ∃ low high, lead? (0xF0 + n / 262144) = some { bits := n / 262144, more := 3, low, high } ∧
      low ≤ 0x80 + n / 4096 % 64 ∧ 0x80 + n / 4096 % 64 ≤ high := by
  by_cases h0 : n / 262144 = 0
  · exact ⟨0x90, 0xBF, by rw [h0]; decide, by omega, by omega⟩
  by_cases h4 : n / 262144 = 4
  · exact ⟨0x80, 0x8F, by rw [h4]; decide, by omega, by omega⟩
  · refine ⟨0x80, 0xBF, ?_, by omega, by omega⟩
    have hlead : n / 262144 = 1 ∨ n / 262144 = 2 ∨ n / 262144 = 3 := by omega
    rcases hlead with h | h | h <;> rw [h] <;> decide

section Encoding

variable {c : CodePoint}

theorem encodeOne_one (h : c.val < 0x80) : encodeOne c = [UInt8.ofNat c.val] := by
  rw [encodeOne, if_pos h]

theorem encodeOne_two (h : 0x80 ≤ c.val) (h' : c.val < 0x800) :
    encodeOne c = [UInt8.ofNat (0xC0 + c.val / 64), continuation c.val] := by
  rw [encodeOne, if_neg (by omega), if_pos h']

theorem encodeOne_three (h : 0x800 ≤ c.val) (h' : c.val < 0x10000) :
    encodeOne c =
      [UInt8.ofNat (0xE0 + c.val / 4096), continuation (c.val / 64), continuation c.val] := by
  rw [encodeOne, if_neg (by omega), if_neg (by omega), if_pos h']

theorem encodeOne_four (h : 0x10000 ≤ c.val) :
    encodeOne c = [UInt8.ofNat (0xF0 + c.val / 262144), continuation (c.val / 4096),
      continuation (c.val / 64), continuation c.val] := by
  rw [encodeOne, if_neg (by omega), if_neg (by omega), if_neg (by omega)]

theorem encodeOne_ne_nil (c : CodePoint) : encodeOne c ≠ [] := by
  unfold encodeOne
  dsimp only
  split
  · exact List.cons_ne_nil _ _
  split
  · exact List.cons_ne_nil _ _
  split <;> exact List.cons_ne_nil _ _

/-- The bytes of a code point past ASCII are past ASCII. -/
theorem le_toNat_of_mem (h : 0x80 ≤ c.val) {b : UInt8}
    (hb : b ∈ encodeOne c) : 0x80 ≤ b.toNat := by
  have hlt := c.isLt
  have hsize : c.val < 0x800 ∨ (0x800 ≤ c.val ∧ c.val < 0x10000) ∨ 0x10000 ≤ c.val := by omega
  have hcontinuation : ∀ n, 0x80 ≤ (continuation n).toNat := fun n => by
    rw [toNat_continuation]
    omega
  have hlead : ∀ {n}, 0x80 ≤ n → n < 256 → 0x80 ≤ (UInt8.ofNat n).toNat := fun hn hn' => by
    rwa [toNat_ofNat_of_lt hn']
  rcases hsize with htwo | ⟨hlow, hhigh⟩ | hfour
  · rw [encodeOne_two h htwo] at hb
    simp only [List.mem_cons, List.not_mem_nil, or_false] at hb
    rcases hb with rfl | rfl
    · exact hlead (by omega) (by omega)
    · exact hcontinuation _
  · rw [encodeOne_three hlow hhigh] at hb
    simp only [List.mem_cons, List.not_mem_nil, or_false] at hb
    rcases hb with rfl | rfl | rfl
    · exact hlead (by omega) (by omega)
    · exact hcontinuation _
    · exact hcontinuation _
  · rw [encodeOne_four hfour] at hb
    simp only [List.mem_cons, List.not_mem_nil, or_false] at hb
    rcases hb with rfl | rfl | rfl | rfl
    · exact hlead (by omega) (by omega)
    · exact hcontinuation _
    · exact hcontinuation _
    · exact hcontinuation _

theorem isSurrogate_eq_false : c.isSurrogate = false ↔ c.val < 0xD800 ∨ 0xDFFF < c.val := by
  simp only [CodePoint.isSurrogate, Bool.and_eq_false_iff, decide_eq_false_iff_not]
  omega

/-- **The bytes of a code point that is no surrogate are read as that code
point.** There is a case for each number of bytes. -/
theorem step_encodeOne (hc : c.isSurrogate = false) (h : encodeOne c ++ rest = b :: bytes) :
    step position b bytes = .ok (c.val, (encodeOne c).length, rest) := by
  have hlt := c.isLt
  rw [isSurrogate_eq_false] at hc
  rw [step_iff]
  have hsize : c.val < 0x80 ∨ (0x80 ≤ c.val ∧ c.val < 0x800) ∨
      (0x800 ≤ c.val ∧ c.val < 0x10000) ∨ 0x10000 ≤ c.val := by omega
  rcases hsize with hone | ⟨hlow, hhigh⟩ | ⟨hlow, hhigh⟩ | hfour
  · rw [encodeOne_one hone] at h ⊢
    obtain ⟨rfl, rfl⟩ := List.cons.inj h
    rw [toNat_ofNat_of_lt (by omega)]
    exact ⟨{ bits := c.val, more := 0 }, by rw [lead?, if_pos hone], continueWith_zero, rfl⟩
  · rw [encodeOne_two hlow hhigh] at h ⊢
    obtain ⟨rfl, rfl⟩ := List.cons.inj h
    rw [toNat_ofNat_of_lt (by omega)]
    refine ⟨{ bits := c.val / 64, more := 1 }, ?_, ?_, rfl⟩
    · rw [lead?, if_neg (by omega), if_neg (by omega), if_pos (by omega), Nat.add_sub_cancel_left]
    · dsimp only
      refine continueWith_continuation (by omega) (by omega) (continueWith_zero.trans ?_)
      congr 2
      omega
  · rw [encodeOne_three hlow hhigh] at h ⊢
    obtain ⟨rfl, rfl⟩ := List.cons.inj h
    obtain ⟨low, high, hlead, hsecond, hsecond'⟩ := lead?_three hlow hhigh hc
    rw [toNat_ofNat_of_lt (by omega)]
    refine ⟨_, hlead, ?_, rfl⟩
    dsimp only
    refine continueWith_continuation hsecond hsecond' ?_
    refine continueWith_continuation (by omega) (by omega) (continueWith_zero.trans ?_)
    congr 2
    omega
  · rw [encodeOne_four hfour] at h ⊢
    obtain ⟨rfl, rfl⟩ := List.cons.inj h
    obtain ⟨low, high, hlead, hsecond, hsecond'⟩ := lead?_four hfour hlt
    rw [toNat_ofNat_of_lt (by omega)]
    refine ⟨_, hlead, ?_, rfl⟩
    dsimp only
    refine continueWith_continuation hsecond hsecond' ?_
    refine continueWith_continuation (by omega) (by omega) ?_
    refine continueWith_continuation (by omega) (by omega) (continueWith_zero.trans ?_)
    congr 2
    omega

end Encoding

/-- What is known of a lead from its byte: the bits in it, and what its narrower
range leaves out. -/
theorem lead?_cases {byte : Nat} {lead : Lead} (h : lead? byte = some lead) :
    0x80 ≤ lead.low ∧ lead.high ≤ 0xBF ∧
      ((lead.more = 0 ∧ byte = lead.bits ∧ lead.bits < 0x80) ∨
        (lead.more = 1 ∧ byte = 0xC0 + lead.bits ∧ 2 ≤ lead.bits ∧ lead.bits < 0x20) ∨
        (lead.more = 2 ∧ byte = 0xE0 + lead.bits ∧ lead.bits < 0x10 ∧
          (lead.bits = 0 → 0xA0 ≤ lead.low) ∧ (lead.bits = 0xD → lead.high ≤ 0x9F)) ∨
        (lead.more = 3 ∧ byte = 0xF0 + lead.bits ∧ lead.bits ≤ 4 ∧
          (lead.bits = 0 → 0x90 ≤ lead.low) ∧ (lead.bits = 4 → lead.high ≤ 0x8F))) := by
  -- the table of leads, row by row
  unfold lead? at h
  split at h
  · obtain rfl := Option.some.inj h
    dsimp only
    omega
  split at h
  · cases h
  repeat
    split at h
    · obtain rfl := Option.some.inj h
      dsimp only
      omega
  cases h

/-- A continuation byte is that of the number that it completes. -/
theorem continuation_of_continueWith {r : Nat × Bytes} (hlow : 0x80 ≤ low) (hhigh : high ≤ 0xBF)
    (h : continueWith bits (more + 1) low high bytes = .ok r) :
    ∃ n rest, bytes = continuation n :: rest ∧ n / 64 = bits ∧ low ≤ 0x80 + n % 64 ∧
      0x80 + n % 64 ≤ high ∧ continueWith n more 0x80 0xBF rest = .ok r := by
  obtain ⟨b, rest, rfl, hblow, hbhigh, hmore⟩ := continueWith_succ.mp h
  -- the bits before it are whole multiples of 64, so its own are the last six
  have hb : b.toNat = 0x80 + (bits * 64 + (b.toNat - 0x80)) % 64 := by omega
  exact ⟨_, rest, by rw [← eq_continuation hb], by omega, by omega, by omega, hmore⟩

/-- **What is read as a code point is its bytes**, and the code point is no
surrogate. There is a case for each number of bytes. -/
theorem encodeOne_of_step (h : step position b bytes = .ok (n, size, rest)) :
    ∃ c : CodePoint, c.isSurrogate = false ∧ c.val = n ∧ encodeOne c ++ rest = b :: bytes ∧
      size = (encodeOne c).length := by
  obtain ⟨⟨bits, more, low, high⟩, hlead, hread, rfl⟩ := step_iff.mp h
  obtain ⟨hlow, hhigh, hcases⟩ := lead?_cases hlead
  dsimp only at hlow hhigh hcases hread ⊢
  have hbyte : ∀ {m : Nat}, b.toNat = m → b = UInt8.ofNat m := fun hm => by
    rw [← hm, UInt8.ofNat_toNat]
  have hcode : ∀ {m : Nat}, m < 0x110000 → ∃ c : CodePoint, c.val = m := fun hm => ⟨⟨_, hm⟩, rfl⟩
  rcases hcases with ⟨rfl, hb, hbits⟩ | ⟨rfl, hb, hbits, hbits'⟩ | ⟨rfl, hb, hbits, h0, hD⟩ |
    ⟨rfl, hb, hbits, h0, h4⟩
  · obtain ⟨rfl, rfl⟩ := Prod.mk.inj (Except.ok.inj (continueWith_zero.symm.trans hread))
    obtain ⟨c, rfl⟩ := hcode (m := bits) (by omega)
    refine ⟨c, isSurrogate_eq_false.mpr (by omega), rfl, ?_, ?_⟩ <;> rw [encodeOne_one hbits]
    · rw [hbyte hb]
      rfl
    · rfl
  · obtain ⟨m, rest₁, rfl, hm, _, _, hread⟩ := continuation_of_continueWith hlow hhigh hread
    obtain ⟨rfl, rfl⟩ := Prod.mk.inj (Except.ok.inj (continueWith_zero.symm.trans hread))
    obtain ⟨c, rfl⟩ := hcode (m := m) (by omega)
    refine ⟨c, isSurrogate_eq_false.mpr (by omega), rfl, ?_, ?_⟩ <;>
      rw [encodeOne_two (by omega) (by omega)]
    · rw [hbyte (hm ▸ hb)]
      rfl
    · rfl
  · obtain ⟨m, rest₁, rfl, hm, hsecond, hsecond', hread⟩ :=
      continuation_of_continueWith hlow hhigh hread
    obtain ⟨m', rest₂, rfl, hm', _, _, hread⟩ :=
      continuation_of_continueWith (by decide) (by decide) hread
    obtain ⟨rfl, rfl⟩ := Prod.mk.inj (Except.ok.inj (continueWith_zero.symm.trans hread))
    obtain ⟨c, rfl⟩ := hcode (m := m') (by omega)
    refine ⟨c, isSurrogate_eq_false.mpr (by omega), rfl, ?_, ?_⟩ <;>
      rw [encodeOne_three (by omega) (by omega)]
    · rw [hbyte (m := 0xE0 + c.val / 4096) (by omega), hm']
      rfl
    · rfl
  · obtain ⟨m, rest₁, rfl, hm, hsecond, hsecond', hread⟩ :=
      continuation_of_continueWith hlow hhigh hread
    obtain ⟨m', rest₂, rfl, hm', _, _, hread⟩ :=
      continuation_of_continueWith (by decide) (by decide) hread
    obtain ⟨k, rest₃, rfl, hk, _, _, hread⟩ :=
      continuation_of_continueWith (by decide) (by decide) hread
    obtain ⟨rfl, rfl⟩ := Prod.mk.inj (Except.ok.inj (continueWith_zero.symm.trans hread))
    obtain ⟨c, rfl⟩ := hcode (m := k) (by omega)
    refine ⟨c, isSurrogate_eq_false.mpr (by omega), rfl, ?_, ?_⟩ <;>
      rw [encodeOne_four (by omega)]
    · have hm4 : m = c.val / 4096 := by omega
      rw [hbyte (m := 0xF0 + c.val / 262144) (by omega), hm4, hk]
      rfl
    · rfl

/-! ## Texts -/

theorem decodeFrom_of_step {read : List CodePoint}
    (h : step position b bytes = .ok (n, size, rest)) :
    decodeFrom position read (b :: bytes) =
      decodeFrom (position + size) (CodePoint.ofNat n :: read) rest := by
  rw [decodeFrom]
  split <;> simp_all

/-- Reading goes on with a text exactly if its bytes are what is left. -/
theorem decodeFrom_eq_ok_iff {read : List CodePoint} {t : Text} :
    decodeFrom position read bytes = .ok t ↔
      ∃ u : Text, t = read.reverse ++ u ∧ bytes = encode u ∧ ∀ c ∈ u, c.isSurrogate = false := by
  constructor
  · intro h
    fun_induction decodeFrom position read bytes with
    | case1 position read =>
      cases h
      exact ⟨[], (List.append_nil _).symm, rfl, by simp⟩
    | case2 => cases h
    | case3 position read b bytes n size rest hstep ih =>
      obtain ⟨u, rfl, hrest, hu⟩ := ih h
      obtain ⟨c, hc, rfl, hbytes, _⟩ := encodeOne_of_step hstep
      refine ⟨c :: u, by simp, ?_, List.forall_mem_cons.mpr ⟨hc, hu⟩⟩
      rw [← hbytes, hrest, encode, encode, List.flatMap_cons]
  · rintro ⟨u, rfl, rfl, hu⟩
    induction u generalizing position read with
    | nil => rw [show encode [] = [] from rfl, decodeFrom, List.append_nil]
    | cons c u ih =>
      obtain ⟨hc, hu⟩ := List.forall_mem_cons.mp hu
      have hbytes : encode (c :: u) = encodeOne c ++ encode u := List.flatMap_cons
      obtain ⟨b, bytes, hcons⟩ := List.exists_cons_of_ne_nil
        (List.append_ne_nil_of_left_ne_nil (encodeOne_ne_nil c) (encode u))
      rw [hbytes, hcons, decodeFrom_of_step (step_encodeOne hc hcons), ih hu, CodePoint.ofNat_val,
        List.reverse_cons, List.append_assoc, List.singleton_append]

/-- **Bytes are read as a text exactly if they are its encoding** and the text has
no surrogate. -/
theorem decode_eq_ok_iff {t : Text} :
    decode bytes = .ok t ↔ bytes = encode t ∧ ∀ c ∈ t, c.isSurrogate = false := by
  rw [decode, decodeFrom_eq_ok_iff]
  simp

/-! ## Encodings tell texts apart -/

/-- The length of the encoding of a code point shows in its first byte. -/
theorem encodeOne_cases (c : CodePoint) :
    (c.val < 0x80 ∧ (encodeOne c).map UInt8.toNat = [c.val]) ∨
    (c.val < 0x800 ∧ (encodeOne c).map UInt8.toNat = [0xC0 + c.val / 64, 0x80 + c.val % 64]) ∨
    (c.val < 0x10000 ∧ (encodeOne c).map UInt8.toNat =
      [0xE0 + c.val / 4096, 0x80 + c.val / 64 % 64, 0x80 + c.val % 64]) ∨
    (encodeOne c).map UInt8.toNat =
      [0xF0 + c.val / 262144, 0x80 + c.val / 4096 % 64, 0x80 + c.val / 64 % 64,
        0x80 + c.val % 64] := by
  have hmax := c.isLt
  by_cases h1 : c.val < 0x80
  · refine .inl ⟨h1, ?_⟩
    rw [encodeOne_one h1, List.map_singleton, toNat_ofNat_of_lt (by omega)]
  by_cases h2 : c.val < 0x800
  · refine .inr (.inl ⟨h2, ?_⟩)
    simp only [encodeOne_two (by omega) h2, List.map_cons, List.map_nil, toNat_continuation]
    rw [toNat_ofNat_of_lt (by omega)]
  by_cases h3 : c.val < 0x10000
  · refine .inr (.inr (.inl ⟨h3, ?_⟩))
    simp only [encodeOne_three (by omega) h3, List.map_cons, List.map_nil, toNat_continuation]
    rw [toNat_ofNat_of_lt (by omega)]
  · refine .inr (.inr (.inr ?_))
    simp only [encodeOne_four (show 0x10000 ≤ c.val by omega), List.map_cons, List.map_nil,
      toNat_continuation]
    rw [toNat_ofNat_of_lt (by omega)]

/-- **The bytes of a code point are told from those of another** by themselves,
whatever follows. -/
theorem encodeOne_append_injective {c d : CodePoint} {x y : Bytes}
    (h : encodeOne c ++ x = encodeOne d ++ y) : c = d ∧ x = y := by
  have hmap := congrArg (List.map UInt8.toNat) h
  rw [List.map_append, List.map_append] at hmap
  have hc := c.isLt
  have hd := d.isLt
  have hval : c = d := by
    refine CodePoint.ext ?_
    rcases encodeOne_cases c with ⟨hc', hc⟩ | ⟨hc', hc⟩ | ⟨hc', hc⟩ | hc <;>
      rcases encodeOne_cases d with ⟨hd', hd⟩ | ⟨hd', hd⟩ | ⟨hd', hd⟩ | hd <;>
        (rw [hc, hd] at hmap
         simp only [List.cons_append, List.cons.injEq] at hmap
         omega)
  subst hval
  exact ⟨rfl, List.append_cancel_left h⟩

end StreamGrammar.Utf8

namespace StreamGrammar

instance : Spelling UInt8 where
  spellOne_append_injective _ _ _ _ h := Utf8.encodeOne_append_injective h
  spellOne := Utf8.encodeOne
  Readable c := c.isSurrogate = false
  readable_of_lt c h := Utf8.isSurrogate_eq_false.mpr (by omega)
  spellOne_of_lt c h := ⟨_, Utf8.encodeOne_one h, Utf8.toNat_ofNat_of_lt (by omega)⟩
  le_code_of_mem c b h hb := Utf8.le_toNat_of_mem h hb
  spellOne_ne_nil := Utf8.encodeOne_ne_nil
  decode_flatMap t ht := by
    show (Utf8.decode (Utf8.encode t)).mapError Fault.utf8 = _
    rw [Utf8.decode_eq_ok_iff.mpr ⟨rfl, ht⟩]
    rfl
  of_decode s t h := by
    change (Utf8.decode s).mapError Fault.utf8 = _ at h
    cases hs : Utf8.decode s with
    | error fault =>
      rw [hs] at h
      cases h
    | ok u =>
      rw [hs] at h
      cases h
      exact Utf8.decode_eq_ok_iff.mp hs

/-- Text is spelled in bytes as it is encoded. -/
@[simp] theorem spell_uint8 (t : Text) : (spell t : List UInt8) = Utf8.encode t := rfl

end StreamGrammar
