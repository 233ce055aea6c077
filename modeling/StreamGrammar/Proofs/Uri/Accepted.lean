import StreamGrammar.Proofs.Grammar.Passing
import StreamGrammar.Proofs.Uri.Parts
import StreamGrammar.Proofs.Uri.WellEscaped

/-!
# What is accepted has its escapes in order

The components of a URI are decoded one by one, by grammars that stand behind optional
parts and in alternatives that are tried and given up. That an accepted text has no
escape that is malformed, and no character that has no place in a URI, does not depend
on which of them has read which part. A percent sign is read in a run of escapes and
nowhere else, and any other character by a test that lets through only characters of a
URI. Both can be put in front of a text in which all is in order (`passes_percentEncoded`,
`extends_inOrder`), and so can whatever is made of them, in whatever way.
-/

namespace StreamGrammar.Uri

open Grammar

/-- **All is in order**: the escapes, and that there is no character in it that no URI
holds. -/
def InOrder (s : Text) : Prop :=
  WellEscaped s ∧ ∀ c ∈ s, c.val = 0x25 ∨ isUriChar c.val = true

/-- A character of a URI can be put in front. -/
theorem extends_inOrder : Extends InOrder fun c => isUriChar c.val = true := by
  refine ⟨⟨.nil, nofun⟩, fun c s hc hs => ⟨(WellEscaped.cons_iff fun hval => ?_).mpr hs.1,
    List.forall_mem_cons.mpr ⟨.inr hc, hs.2⟩⟩⟩
  rw [hval] at hc
  exact absurd hc (by decide)

/-- **A run of escapes can be put in front**, as it is decoded where it is read. -/
theorem passes_percentEncoded : percentEncoded.Passes true InOrder := by
  intro s rest chars h hrest
  obtain ⟨bytes, e, rfl, he, -, hchars, hhead⟩ := matched_percentEncoded.mp h
  refine ⟨(WellEscaped.append_iff he (not_group_of_head hhead)).mpr ⟨⟨chars, hchars⟩, hrest.1⟩,
    List.forall_mem_append.mpr ⟨fun c hc => ?_, hrest.2⟩⟩
  refine (he.forall_mem c hc).imp_right fun hhex => isUriChar_of_isAlphanumeric ?_
  simp only [Charset.isHexDigit, Charset.isAlphanumeric, Charset.isAlpha, Charset.isDigit,
    Bool.or_eq_true, Bool.and_eq_true, decide_eq_true_eq] at hhex ⊢
  omega

/-- **What the grammars of URIs match can be put in front**, whatever they are made of. -/
theorem handsOn_passes : HandedOn fun _ p => p.Passes true InOrder where
  escapes := passes_percentEncoded
  satisfy what htest := .satisfy extends_inOrder what htest
  literal hexpected := .literal extends_inOrder hexpected
  takeWhile htest := .takeWhile extends_inOrder htest
  takeSomeWhile htest := .takeSomeWhile extends_inOrder htest
  ends _ _ := .alt (.map (.peek _) _) (.alt .endOfInput .noAlternative)
  noAlternative := @fun _ => Passes.noAlternative
  map f hp := .map hp f
  judge refusal accept hp := .judge hp refusal accept
  bind hp hn := .bind hp hn
  optional hp := .optional hp
  alt hp hq := .alt hp hq
  either hp hq := .either hp hq
  repeatAny hp := .repeatAny hp
  repeatSome hp := .repeatSome hp
  separatedItems hsep hp := .separatedItems hsep hp
  label name hp := .label hp name

/-- **No entry accepts a malformed escape.** In a text that is read as a URI or as a request
target every percent sign begins a group, of it and two hexadecimal digits, and the runs
of groups are UTF-8. All other characters are such as a URI can have in it, so that none
ends a URI and none is a surrogate. -/
theorem accepted_texts_are_wellEscaped {text : Text}
    (h : (∃ uri, parseUri text (some 0) = .ok uri) ∨
      ∃ target, parseRequestTarget text (some 0) = .ok target) :
    WellEscaped text ∧ ∀ c ∈ text, (c.val = 0x25 ∨ isUriChar c.val = true) ∧
      Charset.isUriEnd c.val = false ∧ c.isSurrogate = false := by
  have hnil : InOrder [] := extends_inOrder.nil
  obtain ⟨hescapes, hchars⟩ : InOrder text := by
    rcases h with ⟨uri, h⟩ | ⟨target, h⟩
    · exact handsOn_passes.absoluteUri (parseAll_eq_ok_iff.mp h) hnil
    · exact handsOn_passes.requestTarget (parseAll_eq_ok_iff.mp h) hnil
  refine ⟨hescapes, fun c hc => ⟨hchars c hc, ?_⟩⟩
  rcases hchars c hc with hpercent | huri
  · obtain rfl : c = CodePoint.ofChar '%' := CodePoint.ext hpercent
    decide
  · exact isUriChar_spec huri

/-- A character in two escapes, and a value in one. -/
theorem accepted_texts_are_wellEscaped_two_bytes :
    (∃ target, parseRequestTarget "/%C3%a9?a=%26" (some 0) = .ok target) ∧
      WellEscaped "/%C3%a9?a=%26" ∧
      ∀ c ∈ Text.ofString "/%C3%a9?a=%26", (c.val = 0x25 ∨ isUriChar c.val = true) ∧
        Charset.isUriEnd c.val = false ∧ c.isSurrogate = false := by
  have haccepted : ∃ target, parseRequestTarget "/%C3%a9?a=%26" (some 0) = .ok target :=
    ⟨_, by with_unfolding_all rfl⟩
  exact ⟨haccepted, accepted_texts_are_wellEscaped (.inr haccepted)⟩

end StreamGrammar.Uri
