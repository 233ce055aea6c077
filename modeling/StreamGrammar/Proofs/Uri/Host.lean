import StreamGrammar.Proofs.Grammar.Complete
import StreamGrammar.Proofs.Text.Numeral
import StreamGrammar.Proofs.Uri.Parts

/-!
# Hosts as they are written

An address is tried first and a name second, but what is a name cannot be told by
whether it could begin with an address: `1.2.3.4.example` does, and so does `1.2.3.456`
as far as the octets go. The grammar settles it by what comes after the address, and
within it an octet takes as many digits as it can. The alternatives of an octet are
ordered by length for that: each stands for the numbers between two bounds, and those
with longer numerals come first. So the one that matches is the longest numeral there is
(`longest_decOctet`), and where digits end that is the whole number
(`decOctet_of_decimal`).

With this an address is read exactly where a host is the text of one
(`host_of_address`, `host_of_name`).
-/

namespace StreamGrammar.Uri

open Grammar

/-! ## The longest numeral -/

/-- **A grammar that takes the longest numeral there is** of a number between two
bounds, and rejects where there is none. -/
def TakesLongest (low high : Nat) (g : TextGrammar Nat) : Prop :=
  ∀ s, (∃ n rest, s = Numeral.decimal n ++ rest ∧ (low ≤ n ∧ n ≤ high) ∧
      (∀ n' rest', s = Numeral.decimal n' ++ rest' → low ≤ n' ∧ n' ≤ high →
        (Numeral.decimal n').length ≤ (Numeral.decimal n).length) ∧
      g.verdict true s = .matched n rest) ∨
    ((∀ n rest, s = Numeral.decimal n ++ rest → ¬(low ≤ n ∧ n ≤ high)) ∧
      g.verdict true s = .rejected)

/-- **A grammar for one digit** between two bounds. -/
def TakesDigit (low high : Nat) (p : TextGrammar CodePoint) : Prop :=
  ∀ s, (∃ d rest, s = Numeral.digit d :: rest ∧ (low ≤ d ∧ d ≤ high) ∧
      p.verdict true s = .matched (Numeral.digit d) rest) ∨
    ((∀ d rest, s = Numeral.digit d :: rest → ¬(low ≤ d ∧ d ≤ high)) ∧
      p.verdict true s = .rejected)

theorem takesDigit_satisfy {low high : Nat} (hhigh : high < 10) {test : CodePoint → Bool}
    {what : Expectation}
    (h : ∀ c, test c = true ↔ 48 + low ≤ c.val ∧ c.val ≤ 48 + high) :
    TakesDigit low high (satisfy test what) := by
  intro s
  rw [verdict_satisfy]
  cases s with
  | nil => exact .inr ⟨fun d rest hs => (List.cons_ne_nil _ _ hs.symm).elim, rfl⟩
  | cons c rest =>
    by_cases hc : test c = true
    · have hval := (h c).mp hc
      have hd : c = Numeral.digit (c.val - 48) := CodePoint.ext <| by
        rw [Numeral.val_digit (by omega)]
        omega
      refine .inl ⟨c.val - 48, rest, by rw [← hd], by omega, ?_⟩
      rw [← hd]
      exact if_pos hc
    · refine .inr ⟨fun d rest' hs hd => hc ?_, if_neg hc⟩
      obtain ⟨rfl, rfl⟩ := List.cons.inj hs
      rw [h, Numeral.val_digit (by omega)]
      omega

theorem takesDigit_asciiOf {chars : List Char} {low high : Nat} (hhigh : high < 10)
    (hascii : Element.areAscii chars = true)
    (h : ∀ n, Charset.isOneOf chars n = true ↔ 48 + low ≤ n ∧ n ≤ 48 + high) :
    TakesDigit low high (asciiOf chars) :=
  takesDigit_satisfy hhigh fun c => by
    rw [List.contains_iff_mem, Element.mem_piece_iff hascii]
    exact h c.val

theorem takesDigit_ascii {d : Nat} (hd : d < 10) {a : Char} (ha : a.toNat = 48 + d) :
    TakesDigit d d (ascii a) :=
  takesDigit_satisfy hd fun c => by
    rw [beq_iff_eq, List.singleton_inj, Element.eq_ofAscii_iff (by omega), ha]
    show c.val = _ ↔ _
    omega

theorem takesDigit_digit : TakesDigit 0 9 digit :=
  takesDigit_satisfy (by omega) fun c => by simp [Charset.isDigit]

namespace TakesLongest

variable {low middle high : Nat} {g g' : TextGrammar Nat}

/-- **Greater numbers come first** in a choice: their numerals are not shorter. -/
theorem either (h : TakesLongest (middle + 1) high g) (h' : TakesLongest low middle g')
    (hlow : low ≤ middle) (hhigh : middle ≤ high) : TakesLongest low high (either g g') := by
  intro s
  rcases h s with ⟨n, rest, hs, hn, hmax, hm⟩ | ⟨hnone, hr⟩
  · refine .inl ⟨n, rest, hs, by omega, fun n' rest' hs' hn' => ?_, either_of_matched g' hm⟩
    by_cases hgreat : middle < n'
    · exact hmax n' rest' hs' (by omega)
    · exact Numeral.length_decimal_le (by omega)
  · rw [either_of_rejected g' hr]
    rcases h' s with ⟨n, rest, hs, hn, hmax, hm⟩ | ⟨hnone', hr'⟩
    · refine .inl ⟨n, rest, hs, by omega, fun n' rest' hs' hn' => ?_, hm⟩
      have := hnone n' rest' hs'
      exact hmax n' rest' hs' (by omega)
    · refine .inr ⟨fun n rest hs hn => ?_, hr'⟩
      have := hnone n rest hs
      have := hnone' n rest hs
      omega

/-- What is matched is the numeral of a number between the bounds. -/
theorem of_matched (h : TakesLongest low high g) {s rest : Text} {n : Nat}
    (hm : g.verdict true s = .matched n rest) :
    s = Numeral.decimal n ++ rest ∧ low ≤ n ∧ n ≤ high := by
  rcases h s with ⟨n', rest', hs, hn, -, hm'⟩ | ⟨-, hr⟩
  · rw [hm] at hm'
    cases hm'
    exact ⟨hs, hn⟩
  · rw [hm] at hr
    cases hr

theorem matchesOrRejects (h : TakesLongest low high g) : g.MatchesOrRejects := by
  intro s
  rcases h s with ⟨n, rest, -, -, -, hm⟩ | ⟨-, hr⟩
  · exact .inr ⟨n, rest, hm⟩
  · exact .inl hr

/-- **Where digits end, the number before is taken as a whole.** -/
theorem matched_decimal (h : TakesLongest low high g) {n : Nat} (hn : low ≤ n ∧ n ≤ high)
    {rest : Text} (hrest : ∀ c ∈ rest.head?, Charset.isDigit c.val = false) :
    g.verdict true (Numeral.decimal n ++ rest) = .matched n rest := by
  rcases h (Numeral.decimal n ++ rest) with ⟨n', rest', hs, -, hmax, hm⟩ | ⟨hnone, -⟩
  · have hlen := hmax n rest rfl hn
    rcases List.append_eq_append_iff.mp hs with ⟨more, hn', hrest'⟩ | ⟨more, hn', hrest'⟩
    · -- more digits would have to come from what follows
      cases more with
      | nil =>
        rw [List.append_nil] at hn'
        rw [hm, Numeral.decimal_injective hn', hrest', List.nil_append]
      | cons c more =>
        have hdigit : Charset.isDigit c.val = true :=
          Numeral.isDigit_of_mem_decimal (n := n') (by simp [hn'])
        rw [hrest c (by simp [hrest'])] at hdigit
        cases hdigit
    · rw [hn', List.length_append] at hlen
      obtain rfl : more = [] := List.length_eq_zero_iff.mp (by omega)
      rw [List.append_nil] at hn'
      rw [hm, Numeral.decimal_injective hn', hrest', List.nil_append]
  · exact absurd hn (hnone n rest rfl)

end TakesLongest

/-! ## Octets -/

/-- Numerals that all have the same number of digits are the longest that there are. -/
theorem takesLongest_of_length {low high : Nat} {g : TextGrammar Nat}
    (hlen : (Numeral.decimal high).length ≤ (Numeral.decimal low).length)
    (hm : ∀ n rest, low ≤ n ∧ n ≤ high →
      g.verdict true (Numeral.decimal n ++ rest) = .matched n rest)
    (hr : ∀ s, (∀ n rest, s = Numeral.decimal n ++ rest → ¬(low ≤ n ∧ n ≤ high)) →
      g.verdict true s = .rejected) : TakesLongest low high g := by
  intro s
  by_cases hsome : ∃ n rest, s = Numeral.decimal n ++ rest ∧ low ≤ n ∧ n ≤ high
  · obtain ⟨n, rest, rfl, hn⟩ := hsome
    refine .inl ⟨n, rest, rfl, hn, fun n' rest' _ hn' => ?_, hm n rest hn⟩
    have := Numeral.length_decimal_le hn'.2
    have := Numeral.length_decimal_le hn.1
    omega
  · have hnone : ∀ n rest, s = Numeral.decimal n ++ rest → ¬(low ≤ n ∧ n ≤ high) :=
      fun n rest hs hn => hsome ⟨n, rest, hs, hn⟩
    exact .inr ⟨hnone, hr s hnone⟩

theorem TakesDigit.matched_digit {low high d : Nat} {p : TextGrammar CodePoint}
    (hp : TakesDigit low high p) (hd : low ≤ d ∧ d ≤ high) (rest : Text) :
    p.verdict true (Numeral.digit d :: rest) = .matched (Numeral.digit d) rest := by
  rcases hp (Numeral.digit d :: rest) with ⟨d', rest', hs, -, hm⟩ | ⟨hnone, -⟩
  · obtain ⟨hd', rfl⟩ := List.cons.inj hs
    rw [hm, hd']
  · exact absurd hd (hnone d rest rfl)

section Digits

variable {p q r : TextGrammar CodePoint} {x y y' z z' low high : Nat}

theorem takesLongest_one (hp : TakesDigit 0 9 p) :
    TakesLongest 0 9 (p.map fun c => digitsValue [c]) := by
  have hdecimal {n : Nat} (hn : n ≤ 9) : Numeral.decimal n = [Numeral.digit n] :=
    Numeral.decimal_of_lt (by omega)
  refine takesLongest_of_length ?_ (fun n rest hn => ?_) fun s hnone => map_of_rejected _ ?_
  · rw [hdecimal (by omega), hdecimal (by omega)]
    exact Nat.le_refl _
  · rw [hdecimal hn.2]
    refine matched_map.mpr ⟨_, hp.matched_digit hn rest, ?_⟩
    rw [← hdecimal hn.2]
    exact Numeral.ofDigits_decimal n
  · rcases hp s with ⟨d, s, rfl, hd, -⟩ | ⟨-, hr⟩
    · exact absurd hd (hnone d s (by rw [hdecimal hd.2]; rfl))
    · exact hr

theorem takesLongest_two (hp : TakesDigit 1 9 p) (hq : TakesDigit 0 9 q) :
    TakesLongest 10 99 ((serial p q).map fun v => digitsValue [v.1, v.2]) := by
  have hdecimal {n : Nat} (hn : 10 ≤ n ∧ n ≤ 99) := Numeral.decimal_two hn.1 hn.2
  refine takesLongest_of_length ?_ (fun n rest hn => ?_) fun s hnone => map_of_rejected _ ?_
  · rw [hdecimal (by omega), hdecimal (by omega)]
    exact Nat.le_refl _
  · rw [hdecimal hn]
    refine matched_map.mpr ⟨_, matched_bind.mpr ⟨_, _, hp.matched_digit (by omega) _,
      matched_map.mpr ⟨_, hq.matched_digit (by omega) _, rfl⟩⟩, ?_⟩
    rw [← hdecimal hn]
    exact Numeral.ofDigits_decimal n
  · rcases hp s with ⟨d, s, rfl, hd, hm⟩ | ⟨-, hr⟩
    · rw [serial, verdict_bind, hm, Verdict.andThen]
      rcases hq s with ⟨e, s, rfl, he, -⟩ | ⟨-, hr⟩
      · have hn : 10 ≤ 10 * d + e ∧ 10 * d + e ≤ 99 := by omega
        refine absurd hn (hnone _ s ?_)
        rw [hdecimal hn, show (10 * d + e) / 10 = d by omega, show (10 * d + e) % 10 = e by omega]
        rfl
      · rw [map_of_rejected _ hr]
    · exact bind_of_rejected _ hr

theorem takesLongest_three (hx : 1 ≤ x ∧ x ≤ 9) (hp : TakesDigit x x p) (hq : TakesDigit y y' q)
    (hr : TakesDigit z z' r) (hdigit : y' ≤ 9 ∧ z' ≤ 9)
    (hlow : 100 * x ≤ low) (hhigh : high ≤ 100 * x + 99)
    (hbounds : ∀ d e, d ≤ 9 → e ≤ 9 → ((y ≤ d ∧ d ≤ y') ∧ (z ≤ e ∧ e ≤ z') ↔
      low ≤ 100 * x + 10 * d + e ∧ 100 * x + 10 * d + e ≤ high)) :
    TakesLongest low high ((serial3 p q r).map fun v => digitsValue [v.1, v.2.1, v.2.2]) := by
  have hdecimal {n : Nat} (hn : low ≤ n ∧ n ≤ high) :=
    Numeral.decimal_three (n := n) (by omega) (by omega)
  have hdigits {d e : Nat} (hd : d ≤ 9) (he : e ≤ 9)
      (hn : low ≤ 100 * x + 10 * d + e ∧ 100 * x + 10 * d + e ≤ high) :
      Numeral.decimal (100 * x + 10 * d + e) =
        [Numeral.digit x, Numeral.digit d, Numeral.digit e] := by
    rw [hdecimal hn, show (100 * x + 10 * d + e) / 100 = x by omega,
      show (100 * x + 10 * d + e) / 10 % 10 = d by omega,
      show (100 * x + 10 * d + e) % 10 = e by omega]
  refine takesLongest_of_length ?_ (fun n rest hn => ?_) fun s hnone => map_of_rejected _ ?_
  · by_cases hle : low ≤ high
    · rw [hdecimal ⟨hle, Nat.le_refl _⟩, hdecimal ⟨Nat.le_refl _, hle⟩]
      exact Nat.le_refl _
    · exact Numeral.length_decimal_le (by omega)
  · obtain ⟨d, e, hd, he, rfl⟩ : ∃ d e, d ≤ 9 ∧ e ≤ 9 ∧ n = 100 * x + 10 * d + e :=
      ⟨n / 10 % 10, n % 10, by omega, by omega, by omega⟩
    obtain ⟨hd', he'⟩ := (hbounds d e hd he).mpr hn
    rw [hdigits hd he hn]
    refine matched_map.mpr ⟨_, matched_bind.mpr ⟨_, _, hp.matched_digit (by omega) _,
      matched_bind.mpr ⟨_, _, hq.matched_digit hd' _,
        matched_map.mpr ⟨_, hr.matched_digit he' _, rfl⟩⟩⟩, ?_⟩
    rw [← hdigits hd he hn]
    exact Numeral.ofDigits_decimal _
  · rcases hp s with ⟨x', s, rfl, hx', hm⟩ | ⟨-, hrej⟩
    · obtain rfl : x = x' := by omega
      rw [serial3, verdict_bind, hm, Verdict.andThen]
      rcases hq s with ⟨d, s, rfl, hd, hm⟩ | ⟨-, hrej⟩
      · rw [verdict_bind, hm, Verdict.andThen]
        rcases hr s with ⟨e, s, rfl, he, -⟩ | ⟨-, hrej⟩
        · have hn := (hbounds d e (by omega) (by omega)).mp ⟨hd, he⟩
          exact absurd hn (hnone _ s (by rw [hdigits (by omega) (by omega) hn]; rfl))
        · rw [map_of_rejected _ hrej]
      · rw [bind_of_rejected _ hrej]
    · exact bind_of_rejected _ hrej

end Digits

/-- **An octet is a number up to 255.** -/
theorem takesLongest_decOctet : TakesLongest 0 255 decOctet := by
  have htwo : TakesDigit 2 2 (ascii '2') := takesDigit_ascii (by omega) rfl
  have hfive : TakesDigit 5 5 (ascii '5') := takesDigit_ascii (by omega) rfl
  have hone : TakesDigit 1 1 (ascii '1') := takesDigit_ascii (by omega) rfl
  have hupToFive : TakesDigit 0 5 (asciiOf ['0', '1', '2', '3', '4', '5']) :=
    takesDigit_asciiOf (by omega) (by decide) fun n => by simp [Charset.isOneOf]; omega
  have hupToFour : TakesDigit 0 4 (asciiOf ['0', '1', '2', '3', '4']) :=
    takesDigit_asciiOf (by omega) (by decide) fun n => by simp [Charset.isOneOf]; omega
  have hnotZero : TakesDigit 1 9 (asciiOf ['1', '2', '3', '4', '5', '6', '7', '8', '9']) :=
    takesDigit_asciiOf (by omega) (by decide) fun n => by simp [Charset.isOneOf]; omega
  have h99 : TakesLongest 0 99 _ := (takesLongest_two hnotZero takesDigit_digit).either
    (takesLongest_one takesDigit_digit) (by omega) (by omega)
  have h199 : TakesLongest 0 199 _ := .either (takesLongest_three (by omega) hone
    takesDigit_digit takesDigit_digit (by omega) (by omega) (by omega) (by omega)) h99
    (by omega) (by omega)
  have h249 : TakesLongest 0 249 _ := .either (takesLongest_three (by omega) htwo
    hupToFour takesDigit_digit (by omega) (by omega) (by omega) (by omega)) h199
    (by omega) (by omega)
  exact .either (takesLongest_three (by omega) htwo hfive hupToFive (by omega) (by omega)
    (by omega) (by omega)) h249 (by omega) (by omega)

/-! ## Addresses -/

/-- Each octet of an address is a number up to 255. -/
structure IPv4.IsValid (ip : IPv4) : Prop where
  /-- The first octet. -/
  a : ip.a ≤ 255
  /-- The second octet. -/
  b : ip.b ≤ 255
  /-- The third octet. -/
  c : ip.c ≤ 255
  /-- The fourth octet. -/
  d : ip.d ≤ 255

theorem matchesOrRejects_ascii (a : Char) : (ascii a : TextGrammar CodePoint).MatchesOrRejects :=
  .satisfy _ _

theorem matchesOrRejects_ipv4Address : ipv4Address.MatchesOrRejects := by
  have hoctet := takesLongest_decOctet.matchesOrRejects
  have hdotted : (terminated decOctet (ascii '.')).MatchesOrRejects :=
    hoctet.bind fun _ => (matchesOrRejects_ascii '.').map _
  exact (hdotted.bind fun _ => hdotted.bind fun _ => hdotted.bind fun _ => hoctet.map _).map _

/-- **The text of an address is read as the address**, if no digit follows. -/
theorem ipv4Address_of_text {ip : IPv4} (hip : ip.IsValid) {rest : Text}
    (hrest : ∀ c ∈ rest.head?, Charset.isDigit c.val = false) :
    ipv4Address.verdict true (ip.text ++ rest) = .matched ip rest := by
  have hdotted {n : Nat} (hn : n ≤ 255) (s : Text) :
      (terminated decOctet (ascii '.')).verdict true (Numeral.decimal n ++ ("." ++ s)) =
        .matched n s := by
    refine matched_terminated.mpr ⟨"." ++ s, CodePoint.ofChar '.', ?_, matched_ascii.mpr ⟨rfl, rfl⟩⟩
    refine takesLongest_decOctet.matched_decimal ⟨Nat.zero_le _, hn⟩ ?_
    rintro _ ⟨⟩
    rfl
  have hlast := takesLongest_decOctet.matched_decimal ⟨Nat.zero_le _, hip.d⟩ hrest
  have htext : ip.text ++ rest = Numeral.decimal ip.a ++ ("." ++ (Numeral.decimal ip.b ++
      ("." ++ (Numeral.decimal ip.c ++ ("." ++ (Numeral.decimal ip.d ++ rest)))))) := by
    simp [IPv4.text, Text.concat]
  rw [htext]
  exact matched_map.mpr ⟨_, matched_bind.mpr ⟨_, _, hdotted hip.a _, matched_bind.mpr ⟨_, _,
    hdotted hip.b _, matched_bind.mpr ⟨_, _, hdotted hip.c _,
      matched_map.mpr ⟨_, hlast, rfl⟩⟩⟩⟩, rfl⟩

/-- **What is read as an address is the text of one.** -/
theorem text_of_ipv4Address {s rest : Text} {ip : IPv4}
    (h : ipv4Address.verdict true s = .matched ip rest) : ip.IsValid ∧ s = ip.text ++ rest := by
  have hdotted {s rest : Text} {n : Nat}
      (h : (terminated decOctet (ascii '.')).verdict true s = .matched n rest) :
      n ≤ 255 ∧ s = Numeral.decimal n ++ ("." ++ rest) := by
    obtain ⟨middle, mark, hoctet, hmark⟩ := matched_terminated.mp h
    obtain ⟨hs, -, hn⟩ := takesLongest_decOctet.of_matched hoctet
    obtain ⟨-, rfl⟩ := matched_ascii.mp hmark
    exact ⟨hn, hs⟩
  obtain ⟨_, hserial, rfl⟩ := matched_map.mp h
  obtain ⟨a, s₁, h₁, hserial⟩ := matched_bind.mp hserial
  obtain ⟨b, s₂, h₂, hserial⟩ := matched_bind.mp hserial
  obtain ⟨c, s₃, h₃, hserial⟩ := matched_bind.mp hserial
  obtain ⟨d, h₄, rfl⟩ := matched_map.mp hserial
  obtain ⟨ha, rfl⟩ := hdotted h₁
  obtain ⟨hb, rfl⟩ := hdotted h₂
  obtain ⟨hc, rfl⟩ := hdotted h₃
  obtain ⟨rfl, -, hd⟩ := takesLongest_decOctet.of_matched h₄
  exact ⟨⟨ha, hb, hc, hd⟩, by simp [IPv4.text, Text.concat]⟩

theorem isAddressChar_of_mem_text {ip : IPv4} {c : CodePoint} (h : c ∈ ip.text) :
    IsAddressChar c := by
  have hdot : ∀ d ∈ ("." : Text), d.val = 0x2E := List.forall_mem_singleton.mpr rfl
  obtain ⟨piece, hpiece, hc⟩ := List.mem_flatten.mp h
  simp only [List.mem_cons, List.not_mem_nil, or_false] at hpiece
  rcases hpiece with rfl | rfl | rfl | rfl | rfl | rfl | rfl
  all_goals first | exact .inl (Numeral.isDigit_of_mem_decimal hc) | exact .inr (hdot c hc)

/-! ## Where a host ends -/

/-- A character that ends a host. -/
def isHostEnd (n : Nat) : Bool := Charset.isOneOf [':', '/', '?', '#'] n || Charset.isUriEnd n

/-- **No character of a host ends one.** -/
theorem apart_of_isHostEnd {n : Nat} (h : isHostEnd n = true) :
    isNameChar n = false ∧ n ≠ 0x25 ∧ Charset.isHexDigit n = false := by
  have hlt : n < 0x80 := by
    rcases Bool.or_eq_true_iff.mp h with h | h
    · exact lt_of_isOneOf (by decide) h
    · exact lt_of_isUriEnd h
  have hall : ∀ n < 0x80, isHostEnd n = true →
      isNameChar n = false ∧ n ≠ 0x25 ∧ Charset.isHexDigit n = false := by decide
  exact hall n hlt h

theorem not_isHostEnd_of_isNameChar {n : Nat} (h : isNameChar n = true) : isHostEnd n = false :=
  Bool.eq_false_iff.mpr fun hend => Bool.eq_false_iff.mp (apart_of_isHostEnd hend).1 h

/-- In front of a character a host ends if the character ends it. -/
theorem hostEnd_cons (c : CodePoint) (rest : Text) :
    hostEnd.verdict true (c :: rest) =
      if isHostEnd c.val then .matched () (c :: rest) else .rejected := endAt_cons _ _ _ _ _

theorem hostEnd_of_head {rest : Text} (h : ∀ c ∈ rest.head?, isHostEnd c.val = true) :
    hostEnd.verdict true rest = .matched () rest := by
  cases rest with
  | nil => exact endAt_nil _ _
  | cons c rest => rw [hostEnd_cons, if_pos (h c rfl)]

/-- A host ends, or it does not: nothing else can become of it. -/
theorem hostEnd_cases (s : Text) :
    (hostEnd.verdict true s = .matched () s ∧ ∀ c ∈ s.head?, isHostEnd c.val = true) ∨
      hostEnd.verdict true s = .rejected := by
  by_cases hhead : ∀ c ∈ s.head?, isHostEnd c.val = true
  · exact .inl ⟨hostEnd_of_head hhead, hhead⟩
  · cases s with
    | nil => exact absurd nofun hhead
    | cons c s =>
      refine .inr ((hostEnd_cons c s).trans (if_neg fun hc => hhead ?_))
      rintro _ ⟨⟩
      exact hc

/-! ## Hosts -/

/-- **The text of an address is a host that is one.** -/
theorem host_of_address {ip : IPv4} (hip : ip.IsValid) {rest : Text}
    (hrest : ∀ c ∈ rest.head?, isHostEnd c.val = true) :
    host.verdict true (ip.text ++ rest) = .matched (.ipv4 ip) rest := by
  have haddress := ipv4Address_of_text hip fun c hc => Bool.eq_false_iff.mpr fun hdigit =>
    Bool.eq_false_iff.mp (apart_of_isHostEnd (hrest c hc)).1
      (IsAddressChar.isNameChar (.inl hdigit))
  exact either_of_matched _ (matched_map.mpr
    ⟨ip, matched_terminated.mpr ⟨rest, (), haddress, hostEnd_of_head hrest⟩, rfl⟩)

theorem lt_of_isPlain {n : Nat} (h : isPlain n = true) : n < 0x80 := by
  simp only [isPlain, Charset.isAlphanumeric, Charset.isAlpha, Charset.isDigit, Charset.isOneOf,
    Charset.unreservedMarks, List.any_cons, List.any_nil, Bool.or_eq_true, Bool.and_eq_true,
    beq_iff_eq, decide_eq_true_eq, Char.reduceToNat, Bool.false_eq_true, or_false] at h
  omega

theorem isNameChar_of_isPlain {n : Nat} (h : isPlain n = true) : isNameChar n = true := by
  rw [isNameChar, Charset.isUnreserved, if_pos (lt_of_isPlain h), ← isPlain, h, Bool.true_or]

theorem not_isHostEnd_of_written {t s : Text} (h : Written isNameChar t s) {c : CodePoint}
    (hc : c ∈ s) : isHostEnd c.val = false := by
  rcases h.forall_mem c hc with hname | hescape
  · exact not_isHostEnd_of_isNameChar hname
  · refine Bool.eq_false_iff.mpr fun hend => ?_
    obtain ⟨-, hpercent, hhex⟩ := apart_of_isHostEnd hend
    exact hescape.elim hpercent (Bool.eq_false_iff.mp hhex)

/-- **What goes as far as the host does and is not the text of an address** is not read as
one. -/
theorem not_address {s : Text} (hs : ∀ c ∈ s, isHostEnd c.val = false)
    (hname : ∀ ip : IPv4, ip.IsValid → s ≠ ip.text) {rest : Text}
    (hrest : ∀ c ∈ rest.head?, isHostEnd c.val = true) :
    (terminated ipv4Address hostEnd).verdict true (s ++ rest) = .rejected := by
  rcases matchesOrRejects_ipv4Address (s ++ rest) with hr | ⟨ip, rest', hm⟩
  · exact bind_of_rejected _ hr
  · rcases hostEnd_cases rest' with ⟨-, hrest'⟩ | hr
    · obtain ⟨hip, htext⟩ := text_of_ipv4Address hm
      -- the address goes as far as the host does too, so they are the same
      let inside : CodePoint → Bool := fun c => !isHostEnd c.val
      have hinside {c : CodePoint} (hc : isHostEnd c.val = false) : inside c = true := by
        simp [inside, hc]
      have houtside {c : CodePoint} (hc : isHostEnd c.val = true) : inside c = false := by
        simp [inside, hc]
      obtain ⟨hrun, -⟩ := (longest_run_iff inside (s ++ rest) s rest).mpr ⟨rfl,
        fun c hc => hinside (hs c hc), fun c hc => houtside (hrest c hc)⟩
      obtain ⟨hrun', -⟩ := (longest_run_iff inside (s ++ rest) ip.text rest').mpr ⟨htext,
        fun c hc =>
          hinside (not_isHostEnd_of_isNameChar (isAddressChar_of_mem_text hc).isNameChar),
        fun c hc => houtside (hrest' c hc)⟩
      exact absurd (hrun.symm.trans hrun') (hname ip hip)
    · rw [terminated, verdict_bind, hm, Verdict.andThen, map_of_rejected _ hr]

/-- **What is written for a name is read as the name** in lower case, if it is not the text
of an address. -/
theorem host_of_written {t s : Text} (h : Written isNameChar t s)
    (hname : ∀ ip : IPv4, ip.IsValid → s ≠ ip.text) {rest : Text}
    (hrest : ∀ c ∈ rest.head?, isHostEnd c.val = true) :
    host.verdict true (s ++ rest) = .matched (.name t.lower) rest := by
  have hnot := not_address (fun c => not_isHostEnd_of_written h) hname hrest
  have hnameEnd : ∀ c ∈ rest.head?, isNameChar c.val = false ∧ c.val ≠ 0x25 := fun c hc =>
    ⟨(apart_of_isHostEnd (hrest c hc)).1, (apart_of_isHostEnd (hrest c hc)).2.1⟩
  obtain ⟨parts, hparts, hconcat⟩ := nameParts_of_written (by decide) h hnameEnd
  refine (either_of_rejected _ (map_of_rejected _ hnot)).trans
    (matched_map.mpr ⟨t.lower, matched_map.mpr ⟨parts, hparts, ?_⟩, rfl⟩)
  rw [hconcat]

/-- What is written for a name is not the text of an address, unless the name is. -/
theorem eq_of_written_eq_text {t : Text} {ip : IPv4} (h : Written isPlain t ip.text) :
    t = ip.text := by
  refine (h.eq_of_forall_ne fun c hc hpercent => ?_).1.symm
  have haddress := isAddressChar_of_mem_text hc
  rw [IsAddressChar, hpercent] at haddress
  exact absurd haddress (by decide)

/-- A name in lower case is read as it is. -/
theorem host_of_name {t s : Text} (h : Written isPlain t s) (hlower : t.lower = t)
    (hname : ∀ ip : IPv4, ip.IsValid → t ≠ ip.text) {rest : Text}
    (hrest : ∀ c ∈ rest.head?, isHostEnd c.val = true) :
    host.verdict true (s ++ rest) = .matched (.name t) rest := by
  have hwritten := host_of_written (h.mono fun n => isNameChar_of_isPlain)
    (fun ip hip heq => hname ip hip (eq_of_written_eq_text (heq ▸ h))) hrest
  rwa [hlower] at hwritten

end StreamGrammar.Uri
