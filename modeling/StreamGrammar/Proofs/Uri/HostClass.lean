import Mathlib.Data.List.Induction
import StreamGrammar.Proofs.Uri.Host

/-!
# Addresses and names

Which hosts are addresses can be said without a grammar: those that are four octets with
dots between them, each of them a number up to 255 written without a superfluous zero
(`IsDotted`). The grammar has no such rule. It tries the numerals of an octet by their
lengths, takes the first that is there, and does not come back to try a shorter one.

That it does not come back matters where more digits follow. In `256.1.1.1` it takes `25`
and looks for a dot; in `1.2.3.04` it takes `0` for the last octet and looks for the end of
the host. Both are names, and no address is missed in this way, for the longest numeral of an
octet is all of its digits or there is no address. The other half is that digits without a
superfluous zero are the numeral of the number that they denote (`isOctet_iff`), so that the
two ways to say what an address is come to the same.
-/

namespace StreamGrammar

namespace Numeral

/-- **Digits without a superfluous zero are those of the number that they denote.** -/
theorem digits_ofDigits {ds : List Nat} (hne : ds ≠ []) (hlt : ∀ d ∈ ds, d < 10)
    (hlead : ds.head? = some 0 → ds = [0]) : digits (ofDigits ds) = ds := by
  induction ds using List.reverseRecOn with
  | nil => exact absurd rfl hne
  | append_singleton ds d ih =>
    have hd : d < 10 := hlt d (by simp)
    rw [ofDigits_append]
    by_cases hnil : ds = []
    · rw [hnil, List.nil_append, show 10 * ofDigits [] + d = d from Nat.zero_add d,
        digits_of_lt hd]
    · -- with more digits than one the first is not zero, and so the number is not
      have hhead : ds.head? ≠ some 0 := fun hzero => by
        have heq := hlead (by rw [List.head?_append, hzero]; rfl)
        cases ds with
        | nil => exact hnil rfl
        | cons e ds => simp at heq
      have hdigits := ih hnil (fun e he => hlt e (List.mem_append_left _ he))
        fun hzero => absurd hzero hhead
      have hpos : ofDigits ds ≠ 0 := fun hzero => by
        rw [hzero, digits_of_lt (by decide)] at hdigits
        rw [← hdigits] at hhead
        exact hhead rfl
      rw [digits_of_le (by omega), show (10 * ofDigits ds + d) / 10 = ofDigits ds by omega,
        show (10 * ofDigits ds + d) % 10 = d by omega, hdigits]

/-- Characters that are digits are a numeral, unless they begin with a superfluous zero. -/
theorem decimal_ofDigits {s : Text} (hne : s ≠ []) (hdigits : ∀ c ∈ s, Charset.isDigit c.val = true)
    (hlead : ∀ c ∈ s.head?, c.val = 0x30 → s.length = 1) :
    decimal (ofDigits (s.map fun c => c.val - 48)) = s := by
  have hval {c : CodePoint} (hc : c ∈ s) : 48 ≤ c.val ∧ c.val ≤ 57 := by
    simpa [Charset.isDigit] using hdigits c hc
  have hback : (s.map fun c => c.val - 48).map digit = s := by
    rw [List.map_map]
    refine (List.map_congr_left fun c hc => ?_).trans (List.map_id _)
    have hbounds := hval hc
    refine CodePoint.ext ?_
    show (digit (c.val - 48)).val = c.val
    rw [val_digit (by omega)]
    omega
  rw [decimal, digits_ofDigits (by simpa using hne) ?_ ?_, hback]
  · refine List.forall_mem_map.mpr fun c hc => ?_
    have hbounds := hval hc
    omega
  · cases s with
    | nil => exact absurd rfl hne
    | cons c s =>
      intro hzero
      have hbounds := hval List.mem_cons_self
      have hc : c.val - 48 = 0 := Option.some.inj hzero
      have hlength := hlead c rfl (by omega)
      obtain rfl : s = [] := List.length_eq_zero_iff.mp (Nat.succ.inj hlength)
      rw [List.map_singleton, hc]

end Numeral

namespace Uri

open Grammar

/-! ## Addresses as they are written -/

/-- **An octet as it is written**: the digits of a number up to 255, without a zero that is
superfluous. -/
structure IsOctet (s : Text) (n : Nat) : Prop where
  /-- There is a digit. -/
  ne_nil : s ≠ []
  /-- There is nothing but digits. -/
  digits : ∀ c ∈ s, Charset.isDigit c.val = true
  /-- A zero comes first only if it is all there is. -/
  leading : ∀ c ∈ s.head?, c.val = 0x30 → s.length = 1
  /-- The number that the digits denote. -/
  value : digitsValue s = n
  /-- The number is one of eight bits. -/
  le : n ≤ 255

/-- **An address as it is written**: its octets, with dots between them. -/
def IsDotted (t : Text) (ip : IPv4) : Prop :=
  ∃ a b c d : Text, IsOctet a ip.a ∧ IsOctet b ip.b ∧ IsOctet c ip.c ∧ IsOctet d ip.d ∧
    t = Text.concat [a, ".", b, ".", c, ".", d]

theorem isOctet_iff {s : Text} {n : Nat} : IsOctet s n ↔ s = Numeral.decimal n ∧ n ≤ 255 := by
  constructor
  · intro h
    have hdecimal := Numeral.decimal_ofDigits h.ne_nil h.digits h.leading
    rw [show Numeral.ofDigits _ = n from h.value] at hdecimal
    exact ⟨hdecimal.symm, h.le⟩
  · rintro ⟨rfl, hle⟩
    refine ⟨Numeral.decimal_ne_nil n, fun c => Numeral.isDigit_of_mem_decimal, ?_,
      Numeral.ofDigits_decimal n, hle⟩
    -- from ten on the first digit is that of a number that is not zero
    have hfirst {d : Nat} (hd : 0 < d ∧ d < 10) : (Numeral.digit d).val ≠ 0x30 := by
      rw [Numeral.val_digit hd.2]
      omega
    by_cases hone : n < 10
    · rw [Numeral.decimal_of_lt hone]
      exact fun _ _ _ => rfl
    · by_cases htwo : n ≤ 99
      · rw [Numeral.decimal_two (by omega) htwo]
        rintro _ ⟨⟩ hzero
        exact absurd hzero (hfirst (by omega))
      · rw [Numeral.decimal_three (by omega) (by omega)]
        rintro _ ⟨⟩ hzero
        exact absurd hzero (hfirst (by omega))

/-- **What is written for an address is its text.** -/
theorem isDotted_iff {t : Text} {ip : IPv4} : IsDotted t ip ↔ t = ip.text ∧ ip.IsValid := by
  simp only [IsDotted, isOctet_iff]
  constructor
  · rintro ⟨a, b, c, d, ⟨rfl, ha⟩, ⟨rfl, hb⟩, ⟨rfl, hc⟩, ⟨rfl, hd⟩, rfl⟩
    exact ⟨rfl, ha, hb, hc, hd⟩
  · rintro ⟨rfl, ha, hb, hc, hd⟩
    exact ⟨_, _, _, _, ⟨rfl, ha⟩, ⟨rfl, hb⟩, ⟨rfl, hc⟩, ⟨rfl, hd⟩, rfl⟩

/-! ## Hosts -/

/-- **A host is an address exactly if it is written as one**, and else it is a name, in lower
case. Either way the host goes as far as its characters do, up to the end of the text or a
character that ends a host. -/
theorem host_classified {t rest : Text} (ht : ∀ c ∈ t, isNameChar c.val = true)
    (hrest : ∀ c ∈ rest.head?, isHostEnd c.val = true) :
    ∃ found remainder, host.run (.complete (t ++ rest)) = .matched found remainder ∧
      remainder.rest = rest ∧ (∀ ip, found = .ipv4 ip ↔ IsDotted t ip) ∧
      ((¬∃ ip, IsDotted t ip) → found = .name t.lower) := by
  simp only [isDotted_iff]
  by_cases haddress : ∃ ip : IPv4, t = ip.text ∧ ip.IsValid
  · obtain ⟨ip, rfl, hip⟩ := haddress
    have hread := host_of_address hip hrest
    obtain ⟨remainder, hrun, hremainder⟩ := matched_complete.mp hread
    refine ⟨_, remainder, hrun, hremainder, fun ip' => ⟨?_, ?_⟩, fun hnone =>
      absurd ⟨ip, rfl, hip⟩ hnone⟩
    · rintro ⟨⟩
      exact ⟨rfl, hip⟩
    · rintro ⟨htext, hip'⟩
      -- the same text is read as either address
      rw [htext, host_of_address hip' hrest] at hread
      cases hread
      rfl
  · have hname : ∀ ip : IPv4, ip.IsValid → t ≠ ip.text := fun ip hip htext =>
      haddress ⟨ip, htext, hip⟩
    obtain ⟨remainder, hrun, hremainder⟩ :=
      matched_complete.mp (host_of_written (.of_plain ht) hname hrest)
    exact ⟨_, remainder, hrun, hremainder, fun ip =>
      ⟨nofun, fun h => absurd ⟨ip, h⟩ haddress⟩, fun _ => rfl⟩

/-- Four octets before a port are an address, and with more of a name after them they are
part of it. -/
theorem host_classified_octets :
    (∃ found remainder,
        host.run (.complete (Text.ofString "10.0.0.255" ++ Text.ofString ":80")) =
            .matched found remainder ∧
          remainder.rest = Text.ofString ":80" ∧
          found = .ipv4 { a := 10, b := 0, c := 0, d := 255 }) ∧
      ∃ found remainder,
        host.run (.complete (Text.ofString "1.2.3.4.Net" ++ Text.ofString "/")) =
            .matched found remainder ∧
          remainder.rest = Text.ofString "/" ∧ found = .name (Text.ofString "1.2.3.4.net") := by
  have ht : ∀ c ∈ Text.ofString "10.0.0.255", isNameChar c.val = true := by decide
  have hrest : ∀ c ∈ (Text.ofString ":80").head?, isHostEnd c.val = true := by decide
  have ht' : ∀ c ∈ Text.ofString "1.2.3.4.Net", isNameChar c.val = true := by decide
  have hrest' : ∀ c ∈ (Text.ofString "/").head?, isHostEnd c.val = true := by decide
  have hdotted : IsDotted (Text.ofString "10.0.0.255") { a := 10, b := 0, c := 0, d := 255 } :=
    isDotted_iff.mpr ⟨by cbv, by decide, by decide, by decide, by decide⟩
  have hname : ¬∃ ip, IsDotted (Text.ofString "1.2.3.4.Net") ip := by
    rintro ⟨ip, hip⟩
    have hletter : CodePoint.ofChar 'N' ∈ Text.ofString "1.2.3.4.Net" := by decide
    rw [(isDotted_iff.mp hip).1] at hletter
    have haddress := isAddressChar_of_mem_text hletter
    rw [IsAddressChar] at haddress
    exact absurd haddress (by decide)
  have hlower : (Text.ofString "1.2.3.4.Net").lower = Text.ofString "1.2.3.4.net" := by
    decide +kernel
  refine ⟨?_, ?_⟩
  · obtain ⟨found, remainder, hrun, hremainder, hiff, -⟩ := host_classified ht hrest
    exact ⟨found, remainder, hrun, hremainder, (hiff _).mpr hdotted⟩
  · obtain ⟨found, remainder, hrun, hremainder, -, hother⟩ := host_classified ht' hrest'
    refine ⟨found, remainder, hrun, hremainder, ?_⟩
    rw [hother hname, hlower]

end Uri

end StreamGrammar
