import StreamGrammar.Proofs.Grammar.EndMarks
import StreamGrammar.Proofs.Grammar.Persistence
import StreamGrammar.Proofs.Uri.Path

/-!
# The URI grammar decides finally

Most choices of the URI grammar are settled by one character. Three are not.
The forms of an octet begin alike, and each is the beginning of a longer one; but
wherever a longer form is cut short, a digit has been seen, which is an octet
already, so that the choice is cut short as well and not refused. A host could be
an address or a name, and an input that ends within an address is all digits and
dots, on which a name is cut short. And what follows a scheme could be an
authority or a path, of which the same is true for a larger kind of inputs.
-/

namespace StreamGrammar.Uri

open Grammar

/-! ## Runs of escapes and components -/

theorem final_percentEncoded : percentEncoded.Final :=
  (Final.preceded (.satisfy _ _) ((Final.take 2).convertOrHalt _ |>.halt _)).repeatSome
    |>.convertOrHalt _

theorem final_plusSign : plusSign.Final := (Final.satisfy _ _).map _

/-- Characters that stand for themselves are told from runs of escapes by the
percent sign. -/
theorem final_plain {isPlain : Nat → Bool} (hpercent : isPlain 0x25 = false) :
    (eitherOf [percentEncoded, takeSomeWhile fun c => isPlain c.val] :
      TextGrammar Text).Final := by
  refine .alt final_percentEncoded (.alt (.takeSomeWhile _) .noAlternative (.takeSomeWhile _)
    .noAlternative fun _ _ h => h) begins_percentEncoded
    ((BeginsWith.takeSomeWhile _).alt .noAlternative) fun e he h => ?_
  simp [he, hpercent] at h

theorem final_component {isPlain : Nat → Bool} (hpercent : isPlain 0x25 = false)
    (hplus : isPlain 0x2B = false) : (component isPlain).Final := by
  have hplain : (alt (takeSomeWhile fun c : CodePoint => isPlain c.val) noAlternative).Final :=
    .alt (.takeSomeWhile _) .noAlternative (.takeSomeWhile _) .noAlternative fun _ _ h => h
  have hbegins := (BeginsWith.takeSomeWhile fun c : CodePoint => isPlain c.val).alt .noAlternative
  refine (Final.repeatSome (.alt final_percentEncoded (.alt final_plusSign hplain begins_plusSign
    hbegins ?_) begins_percentEncoded (begins_plusSign.alt hbegins) ?_)).map _
  · intro e he h
    simp [he, hplus] at h
  · intro e he h
    simp [he, hpercent] at h

/-! ## Scheme -/

theorem final_scheme : scheme.Final :=
  (Final.bind (.satisfy _ _) fun _ => (Final.takeWhile _).map _).map _

/-! ## Addresses -/

/-- Digits and dots. -/
def IsAddressChar (c : CodePoint) : Prop := Charset.isDigit c.val = true ∨ c.val = 0x2E

/-- **Forms of an octet**, the longest first: decided for good, and not refused
where there is a digit or nothing. -/
structure OctetForms (g : TextGrammar Nat) : Prop where
  /-- What is decided is final. -/
  final : g.Final
  /-- A digit is not refused, and neither is the end of the input. -/
  admits : ∀ s : Text, (∀ c ∈ s.head?, Charset.isDigit c.val = true) → g.Admits s

namespace OctetForms

/-- One digit is the last form. -/
theorem digit : OctetForms (Uri.digit.map fun c => digitsValue [c]) := by
  refine ⟨(Final.satisfy _ _).map _, fun s hs => ?_⟩
  cases s with
  | nil => exact .inr ((AwaitsElement.satisfy _ _).map _)
  | cons c s =>
    have hc : Charset.isDigit c.val = true := hs c rfl
    exact .inl ⟨_, s, matched_map.mpr ⟨c, matched_satisfy.mpr ⟨rfl, hc⟩, rfl⟩⟩

/-- **A longer form may come first** if it begins with a digit as well. -/
theorem either {p q : TextGrammar Nat} (hp : p.Final) (hmild : p.Mild)
    (hbegins : p.BeginsWith fun c => Charset.isDigit c.val = true) (hq : OctetForms q) :
    OctetForms (either p q) := by
  refine ⟨.either_of_admits hp hq.final fun s ⟨best, rest, hcut⟩ => hq.admits s fun c hc => ?_,
    fun s hs => (hq.admits s hs).either hp hmild⟩
  -- any other character would have been rejected
  cases s with
  | nil => cases hc
  | cons e s =>
    cases hc
    refine Classical.byContradiction fun he => ?_
    rw [hbegins.cons false _ s he] at hcut
    cases hcut

end OctetForms

theorem begins_digit {a : Char} (ha : Charset.isDigit a.toNat = true) :
    (ascii a : TextGrammar CodePoint).BeginsWith fun c => Charset.isDigit c.val = true :=
  (begins_ascii a).mono fun c hc => by rw [hc]; exact ha

/-- What is one of some digits is a digit. -/
theorem isDigit_of_contains {chars : List Char} (hascii : Element.areAscii chars = true)
    (hdigits : chars.all (fun c => Charset.isDigit c.toNat) = true) {c : CodePoint}
    (hc : (Element.piece chars : Text).contains c = true) : Charset.isDigit c.val = true := by
  have hmem : c ∈ (Element.piece chars : Text) := by simpa using hc
  obtain ⟨a, ha, heq⟩ := List.any_eq_true.mp ((Element.mem_piece_iff hascii).mp hmem)
  have hval : a.toNat = c.val := beq_iff_eq.mp heq
  rw [← hval]
  exact List.all_eq_true.mp hdigits a ha

theorem octetForms_decOctet : OctetForms decOctet := by
  have hmild {f : CodePoint × CodePoint × CodePoint → Nat} {test₁ test₂ test₃ what₁ what₂ what₃} :
      ((serial3 (satisfy test₁ what₁) (satisfy test₂ what₂) (satisfy test₃ what₃)).map f).Mild :=
    ((Mild.satisfy _ _).bind fun _ => (Mild.satisfy _ _).bind fun _ =>
      (Mild.satisfy _ _).map _).map _
  refine .either ((Final.serial3 (.satisfy _ _) (.satisfy _ _) (.satisfy _ _)).map _) hmild
    (((begins_digit (by decide)).bind _).map _) (.either
      ((Final.serial3 (.satisfy _ _) (.satisfy _ _) (.satisfy _ _)).map _) hmild
      (((begins_digit (by decide)).bind _).map _) (.either
        ((Final.serial3 (.satisfy _ _) (.satisfy _ _) (.satisfy _ _)).map _) hmild
        (((begins_digit (by decide)).bind _).map _) (.either ?_ ?_ ?_ .digit)))
  · exact (Final.bind (.satisfy _ _) fun _ => (Final.satisfy _ _).map _).map _
  · exact ((Mild.satisfy _ _).bind fun _ => (Mild.satisfy _ _).map _).map _
  · exact (((BeginsWith.satisfy _ _).mono fun c hc =>
      isDigit_of_contains (by decide) (by decide) hc).bind _).map _

theorem final_decOctet : decOctet.Final := octetForms_decOctet.final

theorem final_ipv4Address : ipv4Address.Final :=
  (Final.serial4 (.terminated final_decOctet (.satisfy _ _))
    (.terminated final_decOctet (.satisfy _ _)) (.terminated final_decOctet (.satisfy _ _))
    final_decOctet).map _

/-- An octet pauses within digits. -/
theorem pausesIn_decOctet {P : Text → Prop} (h : Extends P IsAddressChar) :
    decOctet.PausesIn P := by
  have hdigit : digit.PausesIn P := .satisfy h _ fun c hc => .inl hc
  have hascii {a : Char} (ha : Charset.isDigit a.toNat = true) :
      (ascii a : TextGrammar CodePoint).PausesIn P :=
    pausesIn_ascii h fun c hc => .inl (by rw [hc]; exact ha)
  have hasciiOf {chars : List Char} (hchars : Element.areAscii chars = true)
      (hdigits : chars.all (fun c => Charset.isDigit c.toNat) = true) :
      (asciiOf chars : TextGrammar CodePoint).PausesIn P :=
    .satisfy h _ fun c hc => .inl (isDigit_of_contains hchars hdigits hc)
  refine .either (.map (.bind (hascii (by decide)) fun _ => .bind (hascii (by decide)) fun _ =>
      (hasciiOf (by decide) (by decide)).map _) _)
    (.either (.map (.bind (hascii (by decide)) fun _ =>
        .bind (hasciiOf (by decide) (by decide)) fun _ => hdigit.map _) _)
      (.either (.map (.bind (hascii (by decide)) fun _ => .bind hdigit fun _ =>
          hdigit.map _) _)
        (.either (.map (.bind (hasciiOf (by decide) (by decide)) fun _ => hdigit.map _) _)
          (hdigit.map _))))

theorem pausesIn_ipv4Address {P : Text → Prop} (h : Extends P IsAddressChar) :
    ipv4Address.PausesIn P := by
  have hoctet := pausesIn_decOctet h
  have hdot : (ascii '.' : TextGrammar CodePoint).PausesIn P := pausesIn_ascii h fun _ => .inr
  have hpart : (terminated decOctet (ascii '.')).PausesIn P := .bind hoctet fun _ => hdot.map _
  exact .map (.bind hpart fun _ => .bind hpart fun _ => .bind hpart fun _ => hoctet.map _) _

/-! ## Hosts -/

theorem final_regName : regName.Final := (final_plain (by decide)).repeatAny.map _

theorem IsAddressChar.isNameChar {c : CodePoint} (h : IsAddressChar c) :
    isNameChar c.val = true := by
  rcases h with h | h
  · have hlt : c.val < 0x80 := by
      simp only [Charset.isDigit, Bool.and_eq_true, decide_eq_true_eq] at h
      omega
    simp [Uri.isNameChar, Charset.isUnreserved, Charset.isAlphanumeric, hlt, h]
  · rw [h]
    decide

/-- A name is cut short on the characters of an address. -/
theorem regName_of_address {s : Text} (hs : ∀ c ∈ s, IsAddressChar c) : regName.CutShort s := by
  refine .map (.repeatAny (.alt_right ?_ (.alt_left
    (.takeSomeWhile fun c hc => (hs c hc).isNameChar) (.inl rfl)))) _
  cases s with
  | nil => exact begins_percentEncoded.nil
  | cons c s =>
    refine .inl (percentEncoded_of_ne (fun hc => ?_) false s)
    have hname := (hs c List.mem_cons_self).isNameChar
    rw [hc] at hname
    exact absurd hname (by decide)

/-- **Where an address is cut short so is a name.** -/
theorem final_host : host.Final := by
  refine .either_of_admits ((Final.terminated final_ipv4Address (final_endAt _ _)).map _)
    (final_regName.map _) fun s hcut => .inr (CutShort.map (regName_of_address ?_) _)
  have h := Extends.forall_mem IsAddressChar
  exact (PausesIn.map (.bind (pausesIn_ipv4Address h) fun _ =>
    (pausesIn_endAt h.nil _ _).map _) _).cut s hcut

/-! ## Authorities -/

theorem final_userinfo : userinfo.Final :=
  .terminated ((final_plain (by decide)).repeatAny.map _) (.satisfy _ _)

theorem final_port : port.Final := .preceded (.satisfy _ _) ((Final.takeWhile _).convertOrHalt _)

theorem final_authority : authority.Final :=
  (Final.serial3 final_userinfo.optional final_host final_port.optional).map _

theorem isPathChar_of_isNameChar {n : Nat} (h : isNameChar n = true) : isPathChar n = true := by
  simp [isPathChar, isSegmentChar, h]

/-- **An authority pauses only in unfinished inputs.** -/
theorem pausesIn_authority : authority.PausesIn Unfinished := by
  have hchar := Unfinished.extends_char
  have hnames {isPlain : Nat → Bool} (hplain : ∀ n, isPlain n = true → isPathChar n = true) :
      (repeatAny (eitherOf [percentEncoded, takeSomeWhile fun c => isPlain c.val]) :
        TextGrammar (List Text)).PausesIn Unfinished :=
    .repeatAny (.alt pausesIn_percentEncoded
      (.alt (.takeSomeWhile hchar fun c hc => hplain c.val hc) .noAlternative))
  have huserinfo : userinfo.PausesIn Unfinished := by
    refine .bind (.map (hnames fun n hn => ?_) _) fun _ => (pausesIn_pathChar (by decide)).map _
    rcases Bool.or_eq_true_iff.mp hn with hname | hcolon
    · exact isPathChar_of_isNameChar hname
    · rw [beq_iff_eq.mp hcolon]
      decide
  have haddress : Extends Unfinished IsAddressChar :=
    hchar.mono fun c hc => isPathChar_of_isNameChar hc.isNameChar
  have hhost : host.PausesIn Unfinished :=
    .either (.map (.bind (pausesIn_ipv4Address haddress) fun _ =>
        (pausesIn_endAt hchar.nil _ _).map _) _)
      ((PausesIn.map (hnames fun _ => isPathChar_of_isNameChar) _).map _)
  have hport : port.PausesIn Unfinished :=
    .bind (pausesIn_pathChar (by decide)) fun _ =>
      .judge (.takeWhile haddress fun c hc => .inl hc) _ _
  exact .map (.bind huserinfo.optional fun _ => .bind hhost fun _ => hport.optional.map _) _

/-! ## Paths, queries and fragments -/

theorem final_segment : segment.Final := final_component (by decide) (by decide)

theorem final_relativePath : relativePath.Final :=
  (Final.separatedItems (.satisfy _ _) final_segment.optional).map _

theorem final_absolutePath : absolutePath.Final := .preceded (.satisfy _ _) final_relativePath

theorem pausesIn_absolutePath : absolutePath.PausesIn Unfinished := by
  have hchar := Unfinished.extends_char
  have hpart : segmentPart.PausesIn Unfinished :=
    .alt pausesIn_percentEncoded (.alt ((pausesIn_pathChar (by decide)).map _)
      (.alt (.takeSomeWhile hchar fun c hc => isPathChar_iff.mpr (.inl hc)) .noAlternative))
  exact .bind (pausesIn_pathChar (by decide)) fun _ =>
    .map (.separatedItems (pausesIn_pathChar (by decide)) (.optional (hpart.repeatSome.map _))) _

theorem final_query : query.Final := by
  have htoken : queryToken.Final := final_component (by decide) (by decide)
  have hpair : queryPair.Final :=
    (Final.bind htoken fun _ =>
      (Final.preceded (.satisfy _ _) htoken.optional).optional.map _).map _
  exact .preceded (.satisfy _ _) ((Final.separatedItems (.satisfy _ _) hpair).map _)

theorem final_fragment : fragment.Final :=
  .preceded (.satisfy _ _) ((final_component (by decide) (by decide)).optional.map _)

/-! ## URIs and request targets -/

/-- **Where an authority is cut short so is a path**, or there is no slash before
it. -/
theorem final_hierarchy : hierarchy.Final := by
  have hslashes : (token ['/', '/'] : TextGrammar Text).PausesIn Unfinished := by
    refine .literal Unfinished.extends_char fun c hc => ?_
    have hslash : c = Element.ofAscii '/' := by simpa [Element.piece] using hc
    rw [hslash]
    decide
  have hauthority : ((serial (preceded (token ['/', '/']) authority) (optional absolutePath)).map
      fun v => (some v.1, v.2.getD [])).PausesIn Unfinished :=
    .map (.bind (.bind hslashes fun _ => pausesIn_authority) fun _ =>
      pausesIn_absolutePath.optional.map _) _
  have hrelative {s : Text} (h : Unfinished s) :
      (relativePath.map fun path => ((none : Option Authority), path)).CutShort s :=
    (relativePath_of_unfinished h).map _
  refine .alt_of_waiting ?_ (.alt_of_waiting (final_absolutePath.map _)
    (.alt_of_waiting (final_relativePath.map _) .noAlternative fun _ _ => .inl rfl) ?_) ?_
  · exact (Final.bind (.preceded (.literal _) final_authority) fun _ =>
      final_absolutePath.optional.map _).map _
  · intro s hcut
    have h := (pausesIn_absolutePath.map _).cut s hcut
    exact .inr (.alt_left (hrelative h) (.inl rfl))
  · intro s hcut
    have h := hauthority.cut s hcut
    refine .inr (.alt_right ?_ (.alt_left (hrelative h) (.inl rfl)))
    exact (absolutePath_of_unfinished h).imp (map_of_rejected _) (CutShort.map · _)

theorem final_absoluteUri : absoluteUri.Final :=
  ((Final.serial4 (.terminated final_scheme (.satisfy _ _)) final_hierarchy final_query.optional
    final_fragment.optional).map _).label _

theorem begins_alphaChar : (alphaChar : TextGrammar CodePoint).BeginsWith
    fun c => Charset.isAlpha c.val = true :=
  .satisfy _ _

theorem begins_absoluteUri :
    absoluteUri.BeginsWith fun c => Charset.isAlpha c.val = true :=
  ((((begins_alphaChar.bind _).map _).bind _).bind _ |>.map _).label _

/-- **The three forms of a request target begin differently**: with an asterisk,
with a slash and with a letter. -/
theorem final_requestTarget : requestTarget.Final := by
  have hend : targetEnd.Final := final_endAt _ _
  have hstar : ((ascii '*' : TextGrammar CodePoint).map fun _ => RequestTarget.asterisk).Final :=
    (Final.satisfy _ _).map _
  have horigin : ((serial absolutePath (optional query)).map
      fun v => RequestTarget.origin v.1 v.2).Final :=
    (Final.bind final_absolutePath fun _ => final_query.optional.map _).map _
  have hbeginsStar : (terminated ((ascii '*' : TextGrammar CodePoint).map
      fun _ => RequestTarget.asterisk) targetEnd).BeginsWith fun c => c.val = 0x2A :=
    ((begins_ascii '*').map _).bind _
  have hbeginsOrigin : (terminated ((serial absolutePath (optional query)).map
      fun v => RequestTarget.origin v.1 v.2) targetEnd).BeginsWith fun c => c.val = 0x2F :=
    ((((begins_ascii '/').bind _).bind _).map _).bind _
  have hbeginsUri := ((begins_absoluteUri.map RequestTarget.absolute).bind
    fun a => targetEnd.map fun _ => a).alt .noAlternative
  refine .alt (.terminated hstar hend) (.alt (.terminated horigin hend) (.alt
    (.terminated (final_absoluteUri.map _) hend) .noAlternative
    ((begins_absoluteUri.map _).bind _) .noAlternative fun _ _ h => h) hbeginsOrigin hbeginsUri ?_)
    hbeginsStar (hbeginsOrigin.alt hbeginsUri) ?_
  · intro c hc h
    simp [hc, Charset.isAlpha] at h
  · intro c hc h
    simp [hc, Charset.isAlpha] at h

/-- **What the URI grammar decides it decides for good**: every decision on a
source that may still grow is the decision on every longer source, with the same
value up to the same position. -/
theorem decidesForGood_uri :
    scheme.DecidesForGood ∧ decOctet.DecidesForGood ∧ ipv4Address.DecidesForGood ∧
      regName.DecidesForGood ∧ host.DecidesForGood ∧ port.DecidesForGood ∧
      userinfo.DecidesForGood ∧ authority.DecidesForGood ∧ segment.DecidesForGood ∧
      relativePath.DecidesForGood ∧ absolutePath.DecidesForGood ∧ query.DecidesForGood ∧
      fragment.DecidesForGood ∧ absoluteUri.DecidesForGood ∧ requestTarget.DecidesForGood ∧
      percentEncoded.DecidesForGood :=
  ⟨final_scheme.decidesForGood, final_decOctet.decidesForGood, final_ipv4Address.decidesForGood,
    final_regName.decidesForGood, final_host.decidesForGood, final_port.decidesForGood,
    final_userinfo.decidesForGood, final_authority.decidesForGood, final_segment.decidesForGood,
    final_relativePath.decidesForGood, final_absolutePath.decidesForGood,
    final_query.decidesForGood, final_fragment.decidesForGood, final_absoluteUri.decidesForGood,
    final_requestTarget.decidesForGood, final_percentEncoded.decidesForGood⟩

end StreamGrammar.Uri
