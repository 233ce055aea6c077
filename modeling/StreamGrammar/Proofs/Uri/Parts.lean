import StreamGrammar.Proofs.Grammar.EndMarks
import StreamGrammar.Proofs.Uri.Escaping
import StreamGrammar.Proofs.Uri.Final

/-!
# The parts of a URI

The grammars of URIs and of request targets are put together from few kinds of leaves:
runs of escapes, characters told by a test, and ends that are looked for and not read.
Whatever test it is, it lets through only characters of a URI (`isUriChar`), and no such
character is one that ends a URI.

So there are properties that all these grammars have for no other reason than that the
leaves have them and that each way to combine grammars hands them on (`HandedOn`). What
the grammars are is gone through once, for all such properties.
-/

namespace StreamGrammar.Uri

open Grammar

/-! ## Characters of a URI -/

/-- The marks that a URI can have in it. -/
def uriMarks : List Char :=
  ['-', '.', '_', '~', '!', '$', '&', '\'', '(', ')', '*', '+', ',', ';', '=', ':', '@', '/', '?',
    '#']

/-- **A character of a URI** other than a percent sign. -/
def isUriChar (n : Nat) : Bool :=
  Charset.isAlphanumeric n || Charset.isUcschar n || Charset.isOneOf uriMarks n

theorem isOneOf_of_subset {chars chars' : List Char} {n : Nat} (hsubset : chars ⊆ chars')
    (h : Charset.isOneOf chars n = true) : Charset.isOneOf chars' n = true := by
  obtain ⟨c, hc, hn⟩ := List.any_eq_true.mp h
  exact List.any_eq_true.mpr ⟨c, hsubset hc, hn⟩

theorem lt_of_isOneOf {chars : List Char} (hchars : Element.areAscii chars = true) {n : Nat}
    (h : Charset.isOneOf chars n = true) : n < 0x80 := by
  obtain ⟨c, hc, hn⟩ := List.any_eq_true.mp h
  rw [← beq_iff_eq.mp hn]
  exact Element.lt_of_areAscii hchars c hc

theorem lt_of_isUriEnd {n : Nat} (h : Charset.isUriEnd n = true) : n < 0x80 := by
  simp only [Charset.isUriEnd, Bool.or_eq_true, decide_eq_true_eq, beq_iff_eq] at h
  rcases h with (h | h) | h
  · omega
  · omega
  · exact lt_of_isOneOf (by decide) h

/-- **A character of a URI does not end one**, and is no surrogate. -/
theorem isUriChar_spec {c : CodePoint} (h : isUriChar c.val = true) :
    Charset.isUriEnd c.val = false ∧ c.isSurrogate = false := by
  constructor
  · have hall : ∀ n < 0x80, isUriChar n = true → Charset.isUriEnd n = false := by decide
    by_cases hc : c.val < 0x80
    · exact hall _ hc h
    · exact Bool.eq_false_iff.mpr (mt lt_of_isUriEnd hc)
  · simp only [CodePoint.isSurrogate, Bool.and_eq_false_iff, decide_eq_false_iff_not]
    simp only [isUriChar, Bool.or_eq_true] at h
    rcases h with (h | h) | h
    · simp only [Charset.isAlphanumeric, Charset.isAlpha, Charset.isDigit, Bool.or_eq_true,
        Bool.and_eq_true, decide_eq_true_eq] at h
      omega
    · have hranges : ∀ r ∈ Charset.ucscharRanges, r.2 < 0xD800 ∨ 0xDFFF < r.1 := by decide
      obtain ⟨r, hr, hin⟩ := List.any_eq_true.mp h
      have hapart := hranges r hr
      simp only [Bool.and_eq_true, decide_eq_true_eq] at hin
      omega
    · have hlt : c.val < 0x80 := lt_of_isOneOf (by decide) h
      omega

theorem isUriChar_of_isAlphanumeric {n : Nat} (h : Charset.isAlphanumeric n = true) :
    isUriChar n = true := by
  simp [isUriChar, h]

theorem isUriChar_of_isDigit {n : Nat} (h : Charset.isDigit n = true) : isUriChar n = true :=
  isUriChar_of_isAlphanumeric (by simp [Charset.isAlphanumeric, h])

theorem isUriChar_of_isOneOf {chars : List Char} (hchars : chars ⊆ uriMarks) {n : Nat}
    (h : Charset.isOneOf chars n = true) : isUriChar n = true := by
  simp [isUriChar, isOneOf_of_subset hchars h]

theorem isUriChar_of_isNameChar {n : Nat} (h : isNameChar n = true) : isUriChar n = true := by
  rw [isNameChar, Charset.isUnreserved, Bool.or_eq_true, Bool.and_eq_true] at h
  rcases h with h | ⟨h, -⟩
  · split at h
    · rcases Bool.or_eq_true_iff.mp h with h | h
      · exact isUriChar_of_isAlphanumeric h
      · exact isUriChar_of_isOneOf (by decide) h
    · simp [isUriChar, h]
  · exact isUriChar_of_isOneOf (by decide) h

theorem isUriChar_of_isSegmentChar {n : Nat} (h : isSegmentChar n = true) :
    isUriChar n = true := by
  rcases Bool.or_eq_true_iff.mp h with h | h
  · exact isUriChar_of_isNameChar h
  · exact isUriChar_of_isOneOf (by decide) h

theorem isUriChar_of_isUserinfoChar {n : Nat} (h : isUserinfoChar n = true) :
    isUriChar n = true := by
  rcases Bool.or_eq_true_iff.mp h with h | h
  · exact isUriChar_of_isNameChar h
  · rw [beq_iff_eq.mp h]
    decide

theorem isUriChar_of_isQueryChar {n : Nat} (h : isQueryChar n = true) : isUriChar n = true := by
  rcases Bool.or_eq_true_iff.mp h with h | h
  · exact isUriChar_of_isSegmentChar (Bool.and_eq_true_iff.mp h).1
  · exact isUriChar_of_isOneOf (by decide) h

theorem isUriChar_of_isFragmentChar {n : Nat} (h : isFragmentChar n = true) :
    isUriChar n = true := by
  rcases Bool.or_eq_true_iff.mp h with h | h
  · exact isUriChar_of_isSegmentChar h
  · exact isUriChar_of_isOneOf (by decide) h

theorem isUriChar_of_isSchemeChar {n : Nat}
    (h : (Charset.isAlphanumeric n || Charset.isOneOf Charset.schemeMarks n) = true) :
    isUriChar n = true := by
  rcases Bool.or_eq_true_iff.mp h with h | h
  · exact isUriChar_of_isAlphanumeric h
  · exact isUriChar_of_isOneOf (by decide) h

/-! ## Properties that are handed on -/

/-- **A property that the grammars of URIs hand on** from their leaves. -/
structure HandedOn (Q : ∀ α : Type, TextGrammar α → Prop) : Prop where
  /-- Runs of escapes have it. -/
  escapes : Q _ percentEncoded
  /-- A test for characters of a URI has it. -/
  satisfy : ∀ {test : CodePoint → Bool} (what : Expectation),
    (∀ c, test c = true → isUriChar c.val = true) → Q _ (.satisfy test what)
  /-- So has a piece made of such characters. -/
  literal : ∀ {expected : Text}, (∀ c ∈ expected, isUriChar c.val = true) → Q _ (.literal expected)
  /-- So has a run of them. -/
  takeWhile : ∀ {test : CodePoint → Bool}, (∀ c, test c = true → isUriChar c.val = true) →
    Q _ (.takeWhile test)
  /-- So has a run that is not empty. -/
  takeSomeWhile : ∀ {test : CodePoint → Bool}, (∀ c, test c = true → isUriChar c.val = true) →
    Q _ (.takeSomeWhile test)
  /-- An end that is looked for has it, if a character that ends a URI is one. -/
  ends : ∀ {test : CodePoint → Bool} (what : Expectation),
    (∀ c, Charset.isUriEnd c.val = true → test c = true) → Q _ (endAt test what)
  noAlternative : ∀ {α : Type}, Q α .noAlternative
  map : ∀ {α β : Type} [Vacancy β] {p : TextGrammar α} (f : α → β), Q _ p → Q _ (p.map f)
  judge : ∀ {α β : Type} {p : TextGrammar α} (refusal : Refusal)
    (accept : α → Except (Nat → Reason) β), Q _ p → Q _ (p.judge refusal accept)
  bind : ∀ {α β : Type} {p : TextGrammar α} {next : α → TextGrammar β}, Q _ p →
    (∀ a, Q _ (next a)) → Q _ (p.bind next)
  optional : ∀ {α : Type} {p : TextGrammar α}, Q _ p → Q _ p.optional
  alt : ∀ {α : Type} {p q : TextGrammar α}, Q _ p → Q _ q → Q _ (p.alt q)
  either : ∀ {α : Type} [Vacancy α] {p q : TextGrammar α}, Q _ p → Q _ q → Q _ (p.either q)
  repeatAny : ∀ {α : Type} {p : TextGrammar α}, Q _ p → Q _ p.repeatAny
  repeatSome : ∀ {α : Type} {p : TextGrammar α}, Q _ p → Q _ p.repeatSome
  separatedItems : ∀ {α σ : Type} {sep : TextGrammar σ} {p : TextGrammar α}, Q _ sep → Q _ p →
    Q _ (separatedItems sep p)
  label : ∀ {α : Type} {p : TextGrammar α} (name : Text), Q _ p → Q _ (p.label name)

namespace HandedOn

variable {Q : ∀ α : Type, TextGrammar α → Prop} {test : Nat → Bool}

theorem ascii (h : HandedOn Q) {a : Char} (ha : isUriChar a.toNat = true) :
    Q _ (ascii a : TextGrammar CodePoint) :=
  h.satisfy _ fun c hc => by
    rw [show c = Element.ofAscii a by simpa using hc]
    exact ha

theorem digits (h : HandedOn Q) {chars : List Char} (hascii : Element.areAscii chars = true)
    (hdigits : chars.all (fun c => Charset.isDigit c.toNat) = true) :
    Q _ (asciiOf chars : TextGrammar CodePoint) :=
  h.satisfy _ fun _ hc => isUriChar_of_isDigit (isDigit_of_contains hascii hdigits hc)

/-! ### Hosts and authorities -/

theorem nameParts (h : HandedOn Q) (htest : ∀ n, test n = true → isUriChar n = true) :
    Q _ (Grammar.repeatAny (namePart test)) :=
  h.repeatAny (h.alt h.escapes (h.alt (h.takeSomeWhile fun c => htest c.val) h.noAlternative))

theorem decOctet (h : HandedOn Q) : Q _ decOctet := by
  have hdigit : Q _ digit := h.satisfy _ fun _ => isUriChar_of_isDigit
  exact h.either (h.map _ (h.bind (h.ascii (by decide)) fun _ =>
      h.bind (h.ascii (by decide)) fun _ => h.map _ (h.digits (by decide) (by decide))))
    (h.either (h.map _ (h.bind (h.ascii (by decide)) fun _ =>
        h.bind (h.digits (by decide) (by decide)) fun _ => h.map _ hdigit))
      (h.either (h.map _ (h.bind (h.ascii (by decide)) fun _ => h.bind hdigit fun _ =>
          h.map _ hdigit))
        (h.either (h.map _ (h.bind (h.digits (by decide) (by decide)) fun _ => h.map _ hdigit))
          (h.map _ hdigit))))

theorem host (h : HandedOn Q) : Q _ host := by
  have hpart : Q _ (terminated Uri.decOctet (Grammar.ascii '.')) :=
    h.bind h.decOctet fun _ => h.map _ (h.ascii (by decide))
  have haddress : Q _ ipv4Address :=
    h.map _ (h.bind hpart fun _ => h.bind hpart fun _ => h.bind hpart fun _ => h.map _ h.decOctet)
  have hend : Q _ hostEnd := h.ends _ fun c hc => by simp [hc]
  exact h.either (h.map _ (h.bind haddress fun _ => h.map _ hend))
    (h.map _ (h.map _ (h.nameParts fun _ => isUriChar_of_isNameChar)))

theorem authority (h : HandedOn Q) : Q _ authority := by
  have huserinfo : Q _ userinfo :=
    h.bind (h.map _ (h.nameParts fun _ => isUriChar_of_isUserinfoChar)) fun _ =>
      h.map _ (h.ascii (by decide))
  have hport : Q _ port :=
    h.bind (h.ascii (by decide)) fun _ =>
      h.judge _ _ (h.takeWhile fun _ => isUriChar_of_isDigit)
  exact h.map _ (h.bind (h.optional huserinfo) fun _ => h.bind h.host fun _ =>
    h.map _ (h.optional hport))

/-! ### Paths, queries and fragments -/

theorem component (h : HandedOn Q) (htest : ∀ n, test n = true → isUriChar n = true) :
    Q _ (component test) :=
  h.map _ (h.repeatSome (h.alt h.escapes (h.alt (h.map _ (h.ascii (by decide)))
    (h.alt (h.takeSomeWhile fun c => htest c.val) h.noAlternative))))

theorem relativePath (h : HandedOn Q) : Q _ relativePath :=
  h.map _ (h.separatedItems (h.ascii (by decide))
    (h.optional (h.component fun _ => isUriChar_of_isSegmentChar)))

theorem absolutePath (h : HandedOn Q) : Q _ absolutePath :=
  h.bind (h.ascii (by decide)) fun _ => h.relativePath

theorem query (h : HandedOn Q) : Q _ query := by
  have htoken : Q _ queryToken := h.component fun _ => isUriChar_of_isQueryChar
  have hpair : Q _ queryPair :=
    h.map _ (h.bind htoken fun _ => h.map _ (h.optional (h.bind (h.ascii (by decide)) fun _ =>
      h.optional htoken)))
  exact h.bind (h.ascii (by decide)) fun _ => h.map _ (h.separatedItems (h.ascii (by decide)) hpair)

theorem fragment (h : HandedOn Q) : Q _ fragment :=
  h.bind (h.ascii (by decide)) fun _ =>
    h.map _ (h.optional (h.component fun _ => isUriChar_of_isFragmentChar))

/-! ### URIs and request targets -/

theorem hierarchy (h : HandedOn Q) : Q _ hierarchy := by
  have hslashes : Q _ (token ['/', '/'] : TextGrammar Text) :=
    h.literal fun c hc => by
      rw [show c = Element.ofAscii '/' by simpa [Element.piece] using hc]
      decide
  exact h.alt (h.map _ (h.bind (h.bind hslashes fun _ => h.authority) fun _ =>
      h.map _ (h.optional h.absolutePath)))
    (h.alt (h.map _ h.absolutePath) (h.alt (h.map _ h.relativePath) h.noAlternative))

/-- **An absolute URI has what its leaves hand on.** -/
theorem absoluteUri (h : HandedOn Q) : Q _ absoluteUri := by
  have hletter : Q _ (alphaChar : TextGrammar CodePoint) := by
    refine h.satisfy _ fun c hc => isUriChar_of_isAlphanumeric ?_
    exact Bool.or_eq_true_iff.mpr (.inl hc)
  have hscheme : Q _ scheme :=
    h.map _ (h.bind hletter fun _ => h.map _ (h.takeWhile fun _ => isUriChar_of_isSchemeChar))
  exact h.label _ (h.map _ (h.bind (h.bind hscheme fun _ => h.map _ (h.ascii (by decide))) fun _ =>
    h.bind h.hierarchy fun _ => h.bind (h.optional h.query) fun _ =>
      h.map _ (h.optional h.fragment)))

/-- **A request target has what its leaves hand on.** -/
theorem requestTarget (h : HandedOn Q) : Q _ requestTarget := by
  have hend : Q _ targetEnd := h.ends _ fun _ hc => hc
  exact h.alt (h.bind (h.map _ (h.ascii (by decide))) fun _ => h.map _ hend)
    (h.alt (h.bind (h.map _ (h.bind h.absolutePath fun _ => h.map _ (h.optional h.query)))
        fun _ => h.map _ hend)
      (h.alt (h.bind (h.map _ h.absoluteUri) fun _ => h.map _ hend) h.noAlternative))

end HandedOn

end StreamGrammar.Uri
