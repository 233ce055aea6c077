import StreamGrammar.Proofs.Entries
import StreamGrammar.Proofs.Text.Ascii
import StreamGrammar.Proofs.Uri.Host

/-!
# URIs are read as they are written

Most components of a URI may hold characters that delimit others, once these are
escaped, and some components may be empty or left out. That nothing is taken for
something else does not follow from the components one by one: the user information is
tried before the host and takes the port along if there is no at sign, a path could
begin with the two slashes of an authority, and an empty segment at its end is dropped.

What keeps the components apart is the first character after each (`NextIsOneOf`). It is
a delimiter of the layout, and none that the component in front of it takes. So the
layout of a URI is one list of marks and components (`AbsoluteUri.layout`), and along it
every component is read up to the mark that follows, whichever of its characters are
escaped (`parseUri_of_renders`).
-/

namespace StreamGrammar.Uri

open Grammar

/-! ## Layouts -/

/-- **A piece of a URI**: a mark, written as it is, or a component, written with escapes. -/
inductive Piece where
  /-- Exactly this text. -/
  | mark (text : Text)
  /-- What is written for this text. -/
  | component (text : Text)

/-- What is written for a piece if nothing is escaped without need. -/
def Piece.write (upper : Bool) : Piece → Text
  | mark text => text
  | component text => Uri.write upper text

/-- **A text that is laid out in pieces**, each component with any of its characters
escaped, but with those all escaped that do not stand for themselves. -/
inductive Fills : List Piece → Text → Prop
  /-- No pieces, no text. -/
  | nil : Fills [] []
  /-- A mark comes first. -/
  | mark (text : Text) {pieces : List Piece} {s : Text} (h : Fills pieces s) :
      Fills (.mark text :: pieces) (text ++ s)
  /-- A component comes first. -/
  | component {t w : Text} (hw : Written isPlain t w) {pieces : List Piece} {s : Text}
      (h : Fills pieces s) : Fills (.component t :: pieces) (w ++ s)

/-- The layout of a host. -/
def Host.layout : Host → List Piece
  | ipv4 address => [.mark address.text]
  | name text => [.component text]

/-- The layout of the user information, if there is any. -/
def userinfoLayout : Option Text → List Piece
  | none => []
  | some userinfo => [.component userinfo, .mark "@"]

/-- The layout of the port, if there is one. -/
def portLayout : Option Nat → List Piece
  | none => []
  | some port => [.mark ":", .mark (Numeral.decimal port)]

/-- The layout of an authority, if there is one. -/
def authorityLayout : Option Authority → List Piece
  | none => []
  | some a => .mark "//" :: (userinfoLayout a.userinfo ++ (a.host.layout ++ portLayout a.port))

/-- **The layout of a path**: a slash, and one more after each segment. -/
def pathLayout (path : List Text) : List Piece :=
  .mark "/" :: path.flatMap fun segment => [.component segment, .mark "/"]

/-- The layout of a parameter. -/
def pairLayout (pair : Text × Text) : List Piece :=
  [.component pair.1, .mark "=", .component pair.2]

/-- The layout of parameters with ampersands between them. -/
def pairsLayout : List (Text × Text) → List Piece
  | [] => []
  | pair :: pairs => pairLayout pair ++ pairs.flatMap fun pair => .mark "&" :: pairLayout pair

/-- The layout of a query, if there is one. -/
def queryLayout : Option (Entries Text Text) → List Piece
  | none => []
  | some entries => .mark "?" :: pairsLayout entries

/-- The layout of a fragment, if there is one. -/
def fragmentLayout : Option Text → List Piece
  | none => []
  | some fragment => [.mark "#", .component fragment]

/-- **The layout of a URI.** -/
def AbsoluteUri.layout (u : AbsoluteUri) : List Piece :=
  .mark u.scheme :: .mark ":" :: (authorityLayout u.authority ++ (pathLayout u.path ++
    (queryLayout u.query ++ fragmentLayout u.fragment)))

/-- **A text that renders a URI.** -/
def AbsoluteUri.Renders (u : AbsoluteUri) (text : Text) : Prop := Fills u.layout text

/-- **The rendering of a URI** in which nothing is escaped without need. -/
def AbsoluteUri.render (upper : Bool) (u : AbsoluteUri) : Text :=
  u.layout.flatMap (Piece.write upper)

/-! ## What can be rendered -/

/-- A character of a scheme in lower case, after its first letter. -/
def isSchemeChar (n : Nat) : Bool :=
  (0x61 ≤ n && n ≤ 0x7A) || Charset.isDigit n || Charset.isOneOf Charset.schemeMarks n

/-- **A scheme in lower case**: a letter, and letters, digits and some marks. -/
def isScheme : Text → Bool
  | [] => false
  | c :: scheme => (0x61 ≤ c.val && c.val ≤ 0x7A) && scheme.all fun c => isSchemeChar c.val

/-- A host that can be rendered: a name is in lower case, and not the text of an
address. -/
def Host.Renderable : Host → Prop
  | ipv4 address => address.IsValid
  | name text =>
    IsEncodable text ∧ text.lower = text ∧ ∀ address : IPv4, address.IsValid → text ≠ address.text

/-- An authority that can be rendered. -/
structure Authority.Renderable (a : Authority) : Prop where
  /-- The user information has no surrogates. -/
  userinfo : ∀ t ∈ a.userinfo, IsEncodable t
  /-- The host can be rendered. -/
  host : a.host.Renderable
  /-- The port is not too great. -/
  port : ∀ n ∈ a.port, n ≤ maxPort

/-- A query that can be rendered: its parameters have different names, none of them
empty. -/
structure QueryRenderable (entries : Entries Text Text) : Prop where
  /-- There are no surrogates, and names are not empty. -/
  pairs : ∀ pair ∈ entries, pair.1 ≠ [] ∧ IsEncodable pair.1 ∧ IsEncodable pair.2
  /-- The names differ. -/
  nodup : (entries.map Prod.fst).Nodup

/-- **A URI that can be rendered.** -/
structure AbsoluteUri.Renderable (u : AbsoluteUri) : Prop where
  /-- The scheme is in lower case. -/
  scheme : isScheme u.scheme = true
  /-- The authority can be rendered. -/
  authority : ∀ a ∈ u.authority, a.Renderable
  /-- The segments of the path have no surrogates. -/
  path : ∀ segment ∈ u.path, IsEncodable segment
  /-- Without an authority the first segment is not empty. -/
  head : u.authority = none → ∀ segment ∈ u.path.head?, segment ≠ []
  /-- The query can be rendered. -/
  query : ∀ entries ∈ u.query, QueryRenderable entries
  /-- The fragment has no surrogates. -/
  fragment : ∀ t ∈ u.fragment, IsEncodable t

theorem fills_write (upper : Bool) {pieces : List Piece}
    (h : ∀ t, .component t ∈ pieces → IsEncodable t) :
    Fills pieces (pieces.flatMap (Piece.write upper)) := by
  induction pieces with
  | nil => exact .nil
  | cons piece pieces ih =>
    rw [List.flatMap_cons]
    have hpieces := ih fun t ht => h t (List.mem_cons_of_mem _ ht)
    cases piece with
    | mark text => exact .mark text hpieces
    | component t => exact .component (written_write upper (h t List.mem_cons_self)) hpieces

theorem encodable_authorityLayout {a : Authority} (ha : a.Renderable) {t : Text}
    (h : .component t ∈ authorityLayout (some a)) : IsEncodable t := by
  simp only [authorityLayout, List.mem_cons, List.mem_append, reduceCtorEq, false_or] at h
  rcases h with h | h | h
  · cases hu : a.userinfo with
    | none => simp [hu, userinfoLayout] at h
    | some u =>
      obtain rfl : t = u := by simpa [hu, userinfoLayout] using h
      exact ha.userinfo t hu
  · have hhost := ha.host
    cases hh : a.host with
    | ipv4 address => simp [hh, Host.layout] at h
    | name text =>
      obtain rfl : t = text := by simpa [hh, Host.layout] using h
      rw [hh] at hhost
      exact hhost.1
  · cases hp : a.port with
    | none => simp [hp, portLayout] at h
    | some port => simp [hp, portLayout] at h

theorem encodable_pairsLayout {pairs : List (Text × Text)}
    (hpairs : ∀ pair ∈ pairs, pair.1 ≠ [] ∧ IsEncodable pair.1 ∧ IsEncodable pair.2) {t : Text}
    (h : .component t ∈ pairsLayout pairs) : IsEncodable t := by
  have hpair {pair : Text × Text} (hmem : pair ∈ pairs) (h : .component t ∈ pairLayout pair) :
      IsEncodable t := by
    obtain ⟨-, hname, hvalue⟩ := hpairs pair hmem
    simp only [pairLayout, List.mem_cons, Piece.component.injEq, reduceCtorEq, false_or,
      List.not_mem_nil, or_false] at h
    rcases h with rfl | rfl
    · exact hname
    · exact hvalue
  cases pairs with
  | nil => cases h
  | cons pair pairs =>
    rcases List.mem_append.mp h with h | h
    · exact hpair List.mem_cons_self h
    · obtain ⟨pair', hmem, h⟩ := List.mem_flatMap.mp h
      rcases List.mem_cons.mp h with h | h
      · cases h
      · exact hpair (List.mem_cons_of_mem _ hmem) h

/-- **The rendering of a URI renders it.** -/
theorem renders_render (upper : Bool) {u : AbsoluteUri} (hu : u.Renderable) :
    u.Renders (u.render upper) := by
  refine fills_write upper fun t ht => ?_
  simp only [AbsoluteUri.layout, List.mem_cons, List.mem_append, reduceCtorEq, false_or] at ht
  rcases ht with ht | ht | ht | ht
  · cases ha : u.authority with
    | none => simp [ha, authorityLayout] at ht
    | some a => exact encodable_authorityLayout (hu.authority a ha) (ha ▸ ht)
  · simp only [pathLayout, List.mem_cons, List.mem_flatMap, reduceCtorEq, false_or,
      Piece.component.injEq, List.not_mem_nil, or_false] at ht
    obtain ⟨segment, hmem, rfl⟩ := ht
    exact hu.path t hmem
  · cases hq : u.query with
    | none => simp [hq, queryLayout] at ht
    | some entries =>
      have hpairs : .component t ∈ pairsLayout entries := by simpa [hq, queryLayout] using ht
      exact encodable_pairsLayout (hu.query entries hq).pairs hpairs
  · cases hf : u.fragment with
    | none => simp [hf, fragmentLayout] at ht
    | some f =>
      obtain rfl : t = f := by simpa [hf, fragmentLayout] using ht
      exact hu.fragment t hf

namespace Fills

variable {pieces pieces' : List Piece} {t s : Text}

theorem eq_nil (h : Fills [] s) : s = [] := by
  cases h
  rfl

theorem of_mark (h : Fills (.mark t :: pieces) s) : ∃ s', s = t ++ s' ∧ Fills pieces s' := by
  cases h with
  | mark _ h => exact ⟨_, rfl, h⟩

theorem of_component (h : Fills (.component t :: pieces) s) :
    ∃ w s', s = w ++ s' ∧ Written isPlain t w ∧ Fills pieces s' := by
  cases h with
  | component hw h => exact ⟨_, _, rfl, hw, h⟩

theorem of_append (h : Fills (pieces ++ pieces') s) :
    ∃ s₁ s₂, s = s₁ ++ s₂ ∧ Fills pieces s₁ ∧ Fills pieces' s₂ := by
  induction pieces generalizing s with
  | nil => exact ⟨[], s, rfl, .nil, h⟩
  | cons piece pieces ih =>
    cases h with
    | mark text h =>
      obtain ⟨s₁, s₂, rfl, h₁, h₂⟩ := ih h
      exact ⟨text ++ s₁, s₂, (List.append_assoc ..).symm, .mark text h₁, h₂⟩
    | component hw h =>
      obtain ⟨s₁, s₂, rfl, h₁, h₂⟩ := ih h
      exact ⟨_ ++ s₁, s₂, (List.append_assoc ..).symm, .component hw h₁, h₂⟩

end Fills

/-! ## What comes next -/

/-- **What comes next is one of some characters**, if anything does. -/
def NextIsOneOf (chars : List Char) (s : Text) : Prop :=
  ∀ c ∈ s.head?, Charset.isOneOf chars c.val = true

theorem nextIsOneOf_nil (chars : List Char) : NextIsOneOf chars [] := nofun

theorem nextIsOneOf_ofChar {chars : List Char} {a : Char} (ha : a ∈ chars) (s : Text) :
    NextIsOneOf chars (CodePoint.ofChar a :: s) := by
  rintro _ ⟨⟩
  exact List.any_eq_true.mpr ⟨a, ha, beq_self_eq_true _⟩

namespace NextIsOneOf

variable {chars chars' : List Char} {s : Text}

theorem mono (h : NextIsOneOf chars s) (hsub : chars ⊆ chars') : NextIsOneOf chars' s := by
  intro c hc
  obtain ⟨a, ha, hca⟩ := List.any_eq_true.mp (h c hc)
  exact List.any_eq_true.mpr ⟨a, hsub ha, hca⟩

/-- What holds of all the characters holds of the next one. -/
theorem forall_head (h : NextIsOneOf chars s) {P : Nat → Prop} [DecidablePred P]
    (hP : chars.all (fun a => decide (P a.toNat)) = true) : ∀ c ∈ s.head?, P c.val := by
  intro c hc
  obtain ⟨a, ha, hca⟩ := List.any_eq_true.mp (h c hc)
  exact beq_iff_eq.mp hca ▸ forall_mem_of_all hP a ha

/-- Another character does not come next. -/
theorem ascii_rejected (h : NextIsOneOf chars s) {a : Char} (ha : a.toNat < 0x80)
    (hne : chars.all (fun b => decide (b.toNat ≠ a.toNat)) = true) :
    (ascii a : TextGrammar CodePoint).verdict true s = .rejected :=
  rejected_ascii ha (fun _ => rfl) (h.forall_head (P := fun n => n ≠ a.toNat) hne)

end NextIsOneOf

/-! ## Scheme -/

theorem isSchemeChar_spec {c : CodePoint} (h : isSchemeChar c.val = true) :
    (Charset.isAlphanumeric c.val || Charset.isOneOf Charset.schemeMarks c.val) = true ∧
      Text.asciiLowerOne c = c := by
  simp only [isSchemeChar, Bool.or_eq_true, Bool.and_eq_true, decide_eq_true_eq] at h
  have hval : ¬(0x41 ≤ c.val ∧ c.val ≤ 0x5A) := by
    simp only [Charset.isDigit, Charset.isOneOf, Charset.schemeMarks, List.any_cons, List.any_nil,
      Bool.or_eq_true, Bool.and_eq_true, beq_iff_eq, decide_eq_true_eq, Char.reduceToNat,
      Bool.false_eq_true, or_false] at h
    omega
  refine ⟨?_, if_neg (by simpa using hval)⟩
  rcases h with (hletter | hdigit) | hmark
  · simp [Charset.isAlphanumeric, Charset.isAlpha, hletter]
  · simp [Charset.isAlphanumeric, hdigit]
  · simp [hmark]

/-- **A scheme in lower case is read as it is.** -/
theorem scheme_of_isScheme {t : Text} (h : isScheme t = true) (rest : Text) :
    (terminated scheme (ascii ':')).verdict true (t ++ (":" ++ rest)) = .matched t rest := by
  cases t with
  | nil => cases h
  | cons c t =>
    obtain ⟨hc, ht⟩ := Bool.and_eq_true_iff.mp h
    simp only [Bool.and_eq_true, decide_eq_true_eq] at hc
    have hspec : ∀ d ∈ c :: t, isSchemeChar d.val = true :=
      List.forall_mem_cons.mpr ⟨by simp [isSchemeChar, hc], List.all_eq_true.mp ht⟩
    have hlower : Text.asciiLower (c :: t) = c :: t :=
      (List.map_congr_left fun d hd => (isSchemeChar_spec (hspec d hd)).2).trans (List.map_id _)
    have hletter : (alphaChar : TextGrammar CodePoint).verdict true
        (c :: t ++ (":" ++ rest)) = .matched c (t ++ (":" ++ rest)) :=
      matched_satisfy.mpr ⟨rfl, by simp [Element.code, hc]⟩
    have hmore : (takeWhile fun c : CodePoint =>
        Charset.isAlphanumeric c.val || Charset.isOneOf Charset.schemeMarks c.val).verdict true
          (t ++ (":" ++ rest)) = .matched t (":" ++ rest) := by
      refine matched_takeWhile.mpr ⟨rfl, fun d hd => ?_, fun _ => rfl, ?_⟩
      · exact (isSchemeChar_spec (hspec d (List.mem_cons_of_mem _ hd))).1
      · rintro _ ⟨⟩
        rfl
    exact matched_terminated.mpr ⟨":" ++ rest, CodePoint.ofChar ':', matched_map.mpr ⟨(c, t),
      matched_bind.mpr ⟨c, _, hletter, matched_map.mpr ⟨t, hmore, rfl⟩⟩, hlower⟩,
      matched_ascii.mpr ⟨rfl, rfl⟩⟩

/-! ## Authority -/

/-- The user information of an authority, in front of its at sign. -/
theorem userinfo_of_written {t w : Text} (h : Written isPlain t w) (rest : Text) :
    userinfo.verdict true (w ++ ("@" ++ rest)) = .matched t rest := by
  have hwritten : Written isUserinfoChar t w :=
    h.mono fun n hn => by simp [isUserinfoChar, isNameChar_of_isPlain hn]
  have hmark : ∀ c ∈ ("@" ++ rest : Text).head?, isUserinfoChar c.val = false ∧ c.val ≠ 0x25 := by
    rintro _ ⟨⟩
    decide
  obtain ⟨parts, hparts, hconcat⟩ := nameParts_of_written (by decide) hwritten hmark
  exact matched_terminated.mpr ⟨"@" ++ rest, CodePoint.ofChar '@',
    matched_map.mpr ⟨parts, hparts, hconcat⟩, matched_ascii.mpr ⟨rfl, rfl⟩⟩

/-- **Host and port could be user information**, but for the at sign. -/
theorem userinfo_of_written_of_next {t w : Text} (h : Written isUserinfoChar t w) {rest : Text}
    (hrest : NextIsOneOf ['/'] rest) : userinfo.verdict true (w ++ rest) = .rejected := by
  obtain ⟨parts, hparts, -⟩ := nameParts_of_written (by decide) h
    (hrest.forall_head (P := fun n => isUserinfoChar n = false ∧ n ≠ 0x25) (by decide))
  have hmark := hrest.ascii_rejected (a := '@') (by decide) (by decide)
  rw [userinfo, terminated, verdict_bind, matched_map.mpr ⟨parts, hparts, rfl⟩, Verdict.andThen,
    map_of_rejected _ hmark]

/-- **A port is read as its number.** -/
theorem port_of_decimal {n : Nat} (hn : n ≤ maxPort) {rest : Text}
    (hrest : NextIsOneOf ['/'] rest) :
    port.verdict true (":" ++ (Numeral.decimal n ++ rest)) = .matched (some n) rest := by
  have hlen : (Numeral.decimal n).length ≤ Numeral.maxDigits :=
    (Numeral.length_decimal_le hn).trans (by decide +kernel)
  have hconvert : portConversion.convert (Numeral.decimal n) = .ok (some n) := by
    have hvalue : digitsValue (Numeral.decimal n) = n := Numeral.ofDigits_decimal n
    have hne : (Numeral.decimal n).isEmpty = false :=
      List.isEmpty_eq_false_iff.mpr (Numeral.decimal_ne_nil n)
    simp only [portConversion, hne, hvalue, Bool.false_eq_true, if_false]
    rw [if_neg (by omega), if_neg (by omega)]
  refine matched_preceded.mpr ⟨CodePoint.ofChar ':', _, matched_ascii.mpr ⟨rfl, rfl⟩,
    matched_convertOrHalt.mpr ⟨_, matched_takeWhile.mpr ⟨rfl, ?_, fun _ => rfl, ?_⟩, hconvert⟩⟩
  · exact fun c hc => Numeral.isDigit_of_mem_decimal hc
  · exact hrest.forall_head (P := fun n => Charset.isDigit n = false) (by decide)

/-- Where only a path can follow there is no port. -/
theorem port_of_next {rest : Text} (hrest : NextIsOneOf ['/'] rest) :
    port.verdict true rest = .rejected :=
  bind_of_rejected _ (hrest.ascii_rejected (by decide) (by decide))

theorem isUserinfoChar_of_isDigit {n : Nat} (h : Charset.isDigit n = true) :
    isUserinfoChar n = true := by
  have hlt : n < 0x110000 := by
    simp only [Charset.isDigit, Bool.and_eq_true, decide_eq_true_eq] at h
    omega
  have hname : isNameChar n = true := IsAddressChar.isNameChar (c := ⟨n, hlt⟩) (.inl h)
  simp [isUserinfoChar, hname]

/-- The port, which may be left out. It could be user information. -/
theorem optional_port_of_fills {n : Option Nat} (hn : ∀ m ∈ n, m ≤ maxPort) {s : Text}
    (h : Fills (portLayout n) s) {rest : Text} (hrest : NextIsOneOf ['/'] rest) :
    (∃ v, (optional port).verdict true (s ++ rest) = .matched v rest ∧ v.join = n) ∧
      NextIsOneOf [':', '/'] (s ++ rest) ∧ Written isUserinfoChar s s := by
  cases n with
  | none =>
    obtain rfl := h.eq_nil
    exact ⟨⟨none, matched_optional.mpr (.inl ⟨port_of_next hrest, rfl, rfl⟩), rfl⟩,
      hrest.mono (by simp), .nil⟩
  | some n =>
    obtain ⟨_, rfl, hnumber⟩ := h.of_mark
    obtain ⟨_, rfl, hnil⟩ := hnumber.of_mark
    obtain rfl := hnil.eq_nil
    rw [List.append_nil]
    refine ⟨⟨some (some n), matched_optional.mpr (.inr ⟨some n, ?_, rfl⟩), rfl⟩,
      nextIsOneOf_ofChar (a := ':') (by simp) _, .of_plain ?_⟩
    · rw [List.append_assoc]
      exact port_of_decimal (hn n rfl) hrest
    · refine List.forall_mem_append.mpr ⟨List.forall_mem_singleton.mpr rfl, fun c hc => ?_⟩
      exact isUserinfoChar_of_isDigit (Numeral.isDigit_of_mem_decimal hc)

/-- A host is read as what it is. It could be user information. -/
theorem host_of_fills {a : Host} (ha : a.Renderable) {s : Text} (h : Fills a.layout s)
    {rest : Text} (hrest : NextIsOneOf [':', '/'] rest) :
    host.verdict true (s ++ rest) = .matched a rest ∧ ∃ t, Written isUserinfoChar t s := by
  have hend := hrest.forall_head (P := fun n => isHostEnd n = true) (by decide)
  cases a with
  | ipv4 ip =>
    obtain ⟨_, rfl, hnil⟩ := h.of_mark
    obtain rfl := hnil.eq_nil
    rw [List.append_nil]
    refine ⟨host_of_address ha hend, ip.text, .of_plain fun c hc => ?_⟩
    simp [isUserinfoChar, (isAddressChar_of_mem_text hc).isNameChar]
  | name t =>
    obtain ⟨w, _, rfl, hw, hnil⟩ := h.of_component
    obtain rfl := hnil.eq_nil
    obtain ⟨-, hlower, hname⟩ := ha
    rw [List.append_nil]
    refine ⟨host_of_name hw hlower hname hend, t, hw.mono fun n hn => ?_⟩
    simp [isUserinfoChar, isNameChar_of_isPlain hn]

/-- **An authority is read as what it is.** -/
theorem authority_of_fills {a : Authority} (ha : a.Renderable) {s : Text}
    (h : Fills (userinfoLayout a.userinfo ++ (a.host.layout ++ portLayout a.port)) s) {rest : Text}
    (hrest : NextIsOneOf ['/'] rest) : authority.verdict true (s ++ rest) = .matched a rest := by
  obtain ⟨s₁, _, rfl, huser, hmore⟩ := h.of_append
  obtain ⟨s₂, s₃, rfl, hhost, hport⟩ := hmore.of_append
  obtain ⟨⟨v, hreadPort, hv⟩, hnext, hplain⟩ := optional_port_of_fills ha.port hport hrest
  obtain ⟨hreadHost, t, ht⟩ := host_of_fills ha.host hhost hnext
  have hreadUser : (optional userinfo).verdict true (s₁ ++ (s₂ ++ (s₃ ++ rest))) =
      .matched a.userinfo (s₂ ++ (s₃ ++ rest)) := by
    cases hu : a.userinfo with
    | none =>
      rw [hu] at huser
      obtain rfl := huser.eq_nil
      have hnot := userinfo_of_written_of_next (ht.append hplain) hrest
      rw [List.append_assoc] at hnot
      exact matched_optional.mpr (.inl ⟨hnot, rfl, rfl⟩)
    | some u =>
      rw [hu] at huser
      obtain ⟨w, _, rfl, hw, hat⟩ := huser.of_component
      obtain ⟨_, rfl, hnil⟩ := hat.of_mark
      obtain rfl := hnil.eq_nil
      refine matched_optional.mpr (.inr ⟨u, ?_, rfl⟩)
      rw [List.append_nil, List.append_assoc]
      exact userinfo_of_written hw _
  rw [List.append_assoc, List.append_assoc]
  refine matched_map.mpr ⟨(a.userinfo, a.host, v), matched_bind.mpr ⟨_, _, hreadUser,
    matched_bind.mpr ⟨_, _, hreadHost, matched_map.mpr ⟨_, hreadPort, rfl⟩⟩⟩, ?_⟩
  rw [hv]

/-! ## Path -/

theorem delimited_of_next {chars : List Char} {test : Nat → Bool} {rest : Text}
    (h : NextIsOneOf chars rest)
    (hchars : chars.all (fun a =>
      decide (test a.toNat = false ∧ a.toNat ≠ 0x25 ∧ a.toNat ≠ 0x2B)) = true) :
    Delimited test rest :=
  h.forall_head (P := fun n => test n = false ∧ n ≠ 0x25 ∧ n ≠ 0x2B) hchars

theorem next_of_path {path : List Text} {s : Text} (h : Fills (pathLayout path) s) (rest : Text) :
    NextIsOneOf ['/'] (s ++ rest) := by
  obtain ⟨s', rfl, -⟩ := h.of_mark
  exact nextIsOneOf_ofChar (a := '/') (by simp) _

/-- **Behind each slash of a path is a segment**, behind the last an empty one. -/
theorem rounds_of_path {path : List Text} {s : Text} (h : Fills (pathLayout path) s) {rest : Text}
    (hrest : NextIsOneOf ['?', '#'] rest) :
    ∃ vs, Verdict.Rounds (Verdict.round ((ascii '/' : TextGrammar CodePoint).verdict true)
        ((optional segment).verdict true)) (s ++ rest) vs rest ∧
      vs.map (fun v => v.getD []) = path ++ [[]] := by
  induction path generalizing s with
  | nil =>
    obtain ⟨_, rfl, hnil⟩ := h.of_mark
    obtain rfl := hnil.eq_nil
    have hnone : (optional segment).verdict true rest = .matched none rest :=
      matched_optional.mpr
        (.inl ⟨component_of_head (delimited_of_next hrest (by decide)), rfl, rfl⟩)
    exact ⟨[none], .more (Verdict.round_eq_matched.mpr ⟨CodePoint.ofChar '/', rest,
      matched_ascii.mpr ⟨rfl, rfl⟩, hnone⟩) (.none rest), rfl⟩
  | cons t path ih =>
    obtain ⟨_, rfl, hsegment⟩ := h.of_mark
    obtain ⟨w, s, rfl, hw, hmore⟩ := hsegment.of_component
    have hpath : Fills (pathLayout path) s := hmore
    obtain ⟨vs, hrounds, hvs⟩ := ih hpath
    have hwritten : Written isSegmentChar t w :=
      hw.mono fun n hn => by simp [isSegmentChar, isNameChar_of_isPlain hn]
    obtain ⟨v, hv, hvt⟩ := optional_component_of_written (by decide) (by decide) hwritten
      (delimited_of_next (next_of_path hpath rest) (by decide))
    refine ⟨v :: vs, .more (Verdict.round_eq_matched.mpr ⟨CodePoint.ofChar '/',
      w ++ (s ++ rest), matched_ascii.mpr ⟨rfl, ?_⟩, hv⟩) hrounds, ?_⟩
    · rw [List.append_assoc, List.append_assoc]
      rfl
    · rw [List.map_cons, hvs, hvt, List.cons_append]

/-- **A path is read as its segments.** -/
theorem absolutePath_of_fills {path : List Text} {s : Text} (h : Fills (pathLayout path) s)
    {rest : Text} (hrest : NextIsOneOf ['?', '#'] rest) :
    absolutePath.verdict true (s ++ rest) = .matched path rest := by
  obtain ⟨vs, hrounds, hvs⟩ := rounds_of_path h hrest
  generalize s ++ rest = source at hrounds ⊢
  cases hrounds with
  | none => simp at hvs
  | @more _ middle _ v vs hround hmore =>
    obtain ⟨mark, past, hmark, hitem⟩ := Verdict.round_eq_matched.mp hround
    have hpath : pathOf (v :: vs) = path := by simp [pathOf, hvs]
    refine matched_preceded.mpr ⟨mark, past, hmark, matched_map.mpr ⟨v :: vs, ?_, hpath⟩⟩
    rw [verdict_separatedItems]
    exact Verdict.separated_of_rounds (fun h => Consumes.satisfy _ _ h)
      (fun h => (rest_suffix h).length_le) hitem hmore
      (hrest.ascii_rejected (by decide) (by decide))

/-! ## Query and fragment -/

theorem isQueryChar_of_isPlain {n : Nat} (h : isPlain n = true) : isQueryChar n = true := by
  have hall : ∀ n < 0x80, isPlain n = true → isQueryChar n = true := by decide
  exact hall n (lt_of_isPlain h) h

/-- A parameter with a name is read as name and value. -/
theorem queryPair_of_fills {pair : Text × Text} (hname : pair.1 ≠ []) {s : Text}
    (h : Fills (pairLayout pair) s) {rest : Text} (hrest : NextIsOneOf ['&', '#'] rest) :
    queryPair.verdict true (s ++ rest) = .matched pair rest := by
  obtain ⟨w, _, rfl, hw, hmark⟩ := h.of_component
  obtain ⟨_, rfl, hvalue⟩ := hmark.of_mark
  obtain ⟨w', _, rfl, hw', hnil⟩ := hvalue.of_component
  obtain rfl := hnil.eq_nil
  have hwritten {t w : Text} (h : Written isPlain t w) : Written isQueryChar t w :=
    h.mono fun n => isQueryChar_of_isPlain
  have hmark : Delimited isQueryChar ("=" ++ (w' ++ rest)) := by
    rintro _ ⟨⟩
    decide
  obtain ⟨v, hv, hvt⟩ := optional_component_of_written (by decide) (by decide) (hwritten hw')
    (delimited_of_next hrest (by decide))
  have hkey := component_of_written (by decide) (by decide) (hwritten hw) hname hmark
  rw [List.append_nil, List.append_assoc, List.append_assoc]
  refine matched_map.mpr ⟨(pair.1, some v), matched_bind.mpr ⟨_, _, hkey, matched_map.mpr ⟨some v,
    matched_optional.mpr (.inr ⟨v, matched_preceded.mpr ⟨CodePoint.ofChar '=', _,
      matched_ascii.mpr ⟨rfl, rfl⟩, hv⟩, rfl⟩), rfl⟩⟩, ?_⟩
  rw [Option.join_some, hvt]

/-- **Behind each ampersand is a parameter.** -/
theorem rounds_of_pairs {pairs : List (Text × Text)} (hnames : ∀ pair ∈ pairs, pair.1 ≠ [])
    {s : Text} (h : Fills (pairs.flatMap fun pair => .mark "&" :: pairLayout pair) s)
    {rest : Text} (hrest : NextIsOneOf ['#'] rest) :
    Verdict.Rounds (Verdict.round ((ascii '&' : TextGrammar CodePoint).verdict true)
        (queryPair.verdict true)) (s ++ rest) pairs rest ∧
      NextIsOneOf ['&', '#'] (s ++ rest) := by
  induction pairs generalizing s with
  | nil =>
    obtain rfl := h.eq_nil
    exact ⟨.none rest, hrest.mono (by simp)⟩
  | cons pair pairs ih =>
    obtain ⟨hname, hnames⟩ := List.forall_mem_cons.mp hnames
    obtain ⟨_, rfl, hmore⟩ := h.of_mark
    obtain ⟨s₁, s₂, rfl, hpair, hpairs⟩ := hmore.of_append
    obtain ⟨hrounds, hnext⟩ := ih hnames hpairs
    refine ⟨.more (Verdict.round_eq_matched.mpr ⟨CodePoint.ofChar '&', s₁ ++ (s₂ ++ rest),
      matched_ascii.mpr ⟨rfl, ?_⟩, queryPair_of_fills hname hpair hnext⟩) hrounds,
      nextIsOneOf_ofChar (a := '&') (by simp) _⟩
    rw [List.append_assoc, List.append_assoc]
    rfl

/-- **A query is read as its parameters.** -/
theorem query_of_fills {entries : Entries Text Text} (hq : QueryRenderable entries) {s : Text}
    (h : Fills (queryLayout (some entries)) s) {rest : Text} (hrest : NextIsOneOf ['#'] rest) :
    query.verdict true (s ++ rest) = .matched entries rest := by
  obtain ⟨s, rfl, hpairs⟩ := h.of_mark
  have hentries : Entries.ofPairs entries = entries := Entries.ofPairs_of_nodup hq.nodup
  rw [List.append_assoc]
  refine matched_preceded.mpr ⟨CodePoint.ofChar '?', s ++ rest, matched_ascii.mpr ⟨rfl, rfl⟩,
    matched_map.mpr ⟨entries, ?_, hentries⟩⟩
  rw [verdict_separatedItems]
  cases entries with
  | nil =>
    obtain rfl := hpairs.eq_nil
    have hnone : queryPair.verdict true rest = .rejected := map_of_rejected _ (bind_of_rejected _
      (component_of_head (delimited_of_next hrest (by decide))))
    rw [List.nil_append, Verdict.separated, hnone]
  | cons pair pairs =>
    obtain ⟨s₁, s₂, rfl, hpair, hmore⟩ := hpairs.of_append
    obtain ⟨hname, hnames⟩ := List.forall_mem_cons.mp fun pair hpair => (hq.pairs pair hpair).1
    obtain ⟨hrounds, hnext⟩ := rounds_of_pairs hnames hmore hrest
    rw [List.append_assoc]
    exact Verdict.separated_of_rounds (fun h => Consumes.satisfy _ _ h)
      (fun h => (rest_suffix h).length_le) (queryPair_of_fills hname hpair hnext) hrounds
      (hrest.ascii_rejected (by decide) (by decide))

/-- **A fragment is read as what it is.** -/
theorem fragment_of_fills {t s : Text} (h : Fills (fragmentLayout (some t)) s) :
    fragment.verdict true s = .matched t [] := by
  obtain ⟨_, rfl, htext⟩ := h.of_mark
  obtain ⟨w, _, rfl, hw, hnil⟩ := htext.of_component
  obtain rfl := hnil.eq_nil
  have hwritten : Written isFragmentChar t w :=
    hw.mono fun n hn => by simp [isFragmentChar, isSegmentChar, isNameChar_of_isPlain hn]
  have hend : Delimited isFragmentChar [] := by
    rintro _ ⟨⟩
  obtain ⟨v, hv, hvt⟩ := optional_component_of_written (by decide) (by decide) hwritten hend
  exact matched_preceded.mpr ⟨CodePoint.ofChar '#', _, matched_ascii.mpr ⟨rfl, rfl⟩,
    matched_map.mpr ⟨v, hv, hvt⟩⟩

/-- The query, which may be left out. -/
theorem optional_query_of_fills {q : Option (Entries Text Text)}
    (hq : ∀ entries ∈ q, QueryRenderable entries) {s : Text} (h : Fills (queryLayout q) s)
    {rest : Text} (hrest : NextIsOneOf ['#'] rest) :
    (optional query).verdict true (s ++ rest) = .matched q rest := by
  cases q with
  | none =>
    obtain rfl := h.eq_nil
    have hnone : query.verdict true rest = .rejected :=
      bind_of_rejected _ (hrest.ascii_rejected (by decide) (by decide))
    exact matched_optional.mpr (.inl ⟨hnone, rfl, rfl⟩)
  | some entries =>
    exact matched_optional.mpr (.inr ⟨entries, query_of_fills (hq entries rfl) h hrest, rfl⟩)

/-- The fragment, which may be left out. -/
theorem optional_fragment_of_fills {f : Option Text} {s : Text} (h : Fills (fragmentLayout f) s) :
    (optional fragment).verdict true s = .matched f [] := by
  cases f with
  | none =>
    obtain rfl := h.eq_nil
    have hnone : fragment.verdict true [] = .rejected :=
      bind_of_rejected _ ((nextIsOneOf_nil []).ascii_rejected (by decide) rfl)
    exact matched_optional.mpr (.inl ⟨hnone, rfl, rfl⟩)
  | some t => exact matched_optional.mpr (.inr ⟨t, fragment_of_fills h, rfl⟩)

/-! ## URIs -/

theorem next_of_fragment {f : Option Text} {s : Text} (h : Fills (fragmentLayout f) s) :
    NextIsOneOf ['#'] s := by
  cases f with
  | none =>
    obtain rfl := h.eq_nil
    exact nextIsOneOf_nil _
  | some f =>
    obtain ⟨_, rfl, -⟩ := h.of_mark
    exact nextIsOneOf_ofChar (a := '#') (by simp) _

theorem next_of_query {q : Option (Entries Text Text)} {s : Text} (h : Fills (queryLayout q) s)
    {rest : Text} (hrest : NextIsOneOf ['#'] rest) : NextIsOneOf ['?', '#'] (s ++ rest) := by
  cases q with
  | none =>
    obtain rfl := h.eq_nil
    exact hrest.mono (by simp)
  | some entries =>
    obtain ⟨_, rfl, -⟩ := h.of_mark
    exact nextIsOneOf_ofChar (a := '?') (by simp) _

/-- After the first slash of a path there is another only if its first segment is
empty. -/
theorem next_ne_slash {path : List Text} (hhead : ∀ segment ∈ path.head?, segment ≠ []) {s : Text}
    (h : Fills (path.flatMap fun segment => [.component segment, .mark "/"]) s) {rest : Text}
    (hrest : NextIsOneOf ['?', '#'] rest) : ∀ c ∈ (s ++ rest).head?, c.val ≠ 0x2F := by
  cases path with
  | nil =>
    obtain rfl := h.eq_nil
    exact hrest.forall_head (P := fun n => n ≠ 0x2F) (by decide)
  | cons t path =>
    obtain ⟨w, s, rfl, hw, -⟩ := h.of_component
    obtain ⟨c, w, rfl⟩ := List.exists_cons_of_ne_nil fun hnil => hhead t rfl (hw.eq_nil hnil)
    rintro _ ⟨⟩ hslash
    rcases hw.head c rfl with hc | hc
    · rw [hslash] at hc
      exact absurd hc (by decide)
    · omega

/-- **Authority and path are told apart** by what follows the first slash. -/
theorem hierarchy_of_fills {a : Option Authority} {path : List Text}
    (ha : ∀ b ∈ a, b.Renderable) (hhead : a = none → ∀ segment ∈ path.head?, segment ≠ [])
    {s₁ s₂ : Text} (h₁ : Fills (authorityLayout a) s₁) (h₂ : Fills (pathLayout path) s₂)
    {rest : Text} (hrest : NextIsOneOf ['?', '#'] rest) :
    hierarchy.verdict true (s₁ ++ (s₂ ++ rest)) = .matched (a, path) rest := by
  have hpath := absolutePath_of_fills h₂ hrest
  cases a with
  | none =>
    obtain rfl := h₁.eq_nil
    obtain ⟨s, rfl, h⟩ := h₂.of_mark
    have hne := next_ne_slash (hhead rfl) h hrest
    have hnot : (token ['/', '/'] : TextGrammar Text).verdict true ("/" ++ s ++ rest) =
        .rejected := by
      rw [token, verdict_literal, if_neg, if_neg (by simp)]
      rintro ⟨tail, htail⟩
      have hmore : s ++ rest = CodePoint.ofChar '/' :: tail :=
        (List.cons.inj (htail.trans (List.append_assoc ..))).2.symm
      exact hne (CodePoint.ofChar '/') (by rw [hmore]; rfl) rfl
    refine (alt_of_rejected _ (map_of_rejected _ (bind_of_rejected _
      (bind_of_rejected _ hnot)))).trans
        (alt_of_matched _ (matched_map.mpr ⟨path, hpath, rfl⟩))
  | some b =>
    obtain ⟨s, rfl, h⟩ := h₁.of_mark
    have hread := authority_of_fills (ha b rfl) h (next_of_path h₂ rest)
    rw [List.append_assoc]
    exact alt_of_matched _ (matched_map.mpr ⟨(b, some path), matched_bind.mpr ⟨b, s₂ ++ rest,
      matched_preceded.mpr ⟨"//", _, matched_literal.mpr ⟨rfl, rfl⟩, hread⟩,
      matched_map.mpr ⟨some path, matched_optional.mpr (.inr ⟨path, hpath, rfl⟩), rfl⟩⟩, rfl⟩)

/-- **Every text that renders a URI is read as that URI**, and its rendering is such a text:
whatever the components hold, none of them is taken for another or loses anything. -/
theorem parseUri_of_renders {u : AbsoluteUri} (hu : u.Renderable) :
    (∀ upper, u.Renders (u.render upper)) ∧
      ∀ text, u.Renders text → parseUri text (some 0) = .ok u := by
  refine ⟨fun upper => renders_render upper hu, fun text h => ?_⟩
  obtain ⟨_, rfl, hcolon⟩ := h.of_mark
  obtain ⟨_, rfl, hparts⟩ := hcolon.of_mark
  obtain ⟨s₁, _, rfl, h₁, hparts⟩ := hparts.of_append
  obtain ⟨s₂, _, rfl, h₂, hparts⟩ := hparts.of_append
  obtain ⟨s₃, s₄, rfl, h₃, h₄⟩ := hparts.of_append
  have hfragmentNext := next_of_fragment h₄
  have hscheme := scheme_of_isScheme hu.scheme (s₁ ++ (s₂ ++ (s₃ ++ s₄)))
  have hhierarchy := hierarchy_of_fills hu.authority hu.head h₁ h₂
    (next_of_query h₃ hfragmentNext)
  have hquery : (optional query).verdict true (s₃ ++ s₄) = .matched u.query s₄ :=
    optional_query_of_fills hu.query h₃ hfragmentNext
  have hfragment : (optional fragment).verdict true s₄ = .matched u.fragment [] :=
    optional_fragment_of_fills h₄
  refine parseAll_eq_ok_iff.mpr ?_
  rw [absoluteUri, verdict_label]
  exact matched_map.mpr ⟨(u.scheme, (u.authority, u.path), u.query, u.fragment),
    matched_bind.mpr ⟨_, _, hscheme, matched_bind.mpr ⟨_, _, hhierarchy, matched_bind.mpr
      ⟨_, _, hquery, matched_map.mpr ⟨_, hfragment, rfl⟩⟩⟩⟩, rfl⟩

/-- A name that begins like an address, reserved characters in path and query, and
components that are there but empty. -/
theorem parseUri_of_renders_reserved :
    parseUri "a+b://@1.2.3.4.x:0/a%2Fb//%C3%A9/?k%3D=%26#" (some 0) =
      .ok ⟨"a+b", some ⟨some [], .name "1.2.3.4.x", some 0⟩, ["a/b", [], "é"],
        some [("k=", "&")], some []⟩ := by
  have hname : Host.Renderable (.name "1.2.3.4.x") := by
    refine ⟨by decide, (Text.lower_of_isAscii (by decide)).trans (by decide), fun ip _ heq => ?_⟩
    have hmem : CodePoint.ofChar 'x' ∈ ip.text := heq ▸ by decide
    have hx := isAddressChar_of_mem_text hmem
    rw [IsAddressChar] at hx
    exact absurd hx (by decide)
  have hu : AbsoluteUri.Renderable ⟨"a+b", some ⟨some [], .name "1.2.3.4.x", some 0⟩,
      ["a/b", [], "é"], some [("k=", "&")], some []⟩ :=
    { scheme := by decide
      authority := by
        rintro _ ⟨⟩
        exact ⟨by decide, hname, by decide⟩
      path := by decide
      head := fun h => by cases h
      query := by
        rintro _ ⟨⟩
        exact ⟨by decide, by decide⟩
      fragment := by decide }
  have hrender : AbsoluteUri.render true ⟨"a+b", some ⟨some [], .name "1.2.3.4.x", some 0⟩,
      ["a/b", [], "é"], some [("k=", "&")], some []⟩ =
        "a+b://@1.2.3.4.x:0/a%2Fb//%C3%A9/?k%3D=%26#" := by decide +kernel
  obtain ⟨hrenders, hparse⟩ := parseUri_of_renders hu
  exact hrender ▸ hparse _ (hrenders true)

end StreamGrammar.Uri
