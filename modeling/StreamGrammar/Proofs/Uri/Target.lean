import StreamGrammar.Proofs.Answers
import StreamGrammar.Proofs.Grammar.EndMarks
import StreamGrammar.Proofs.Uri.Rendering

/-!
# Request targets and URIs are read alike

A request target is an asterisk, a path with a query, or a URI, and the grammar tries
them in that order. That a text is read as a URI by the one entry point exactly if it
is read as the absolute form by the other is therefore a statement on what the first two
alternatives leave alone, and it takes no more than the first character
(`matched_requestTarget`). The lookahead for the end of a target makes no difference to
a complete parse, where nothing may be left over in either case.

The other way about, a path with a query is a part of a URI, but one in front of which
there is something to get wrong: the authority could take more than its own, and a
hierarchy whose first form has not matched tries two others at its beginning. Neither
happens if a slash comes next. Up to the slash any authority is read as what it is, and
behind it the first form has either matched or failed for good, so that the hierarchy is
there what the path is, failures included (`hierarchy_of_authority`).
-/

namespace StreamGrammar

open Grammar

/-! ## General facts -/

section General

variable {ε α : Type}

/-- What a grammar matches begins as the grammar does. -/
theorem Grammar.BeginsWith.head [Element ε] {g : Grammar ε α} {first : ε → Prop}
    (hg : g.BeginsWith first) {final : Bool} {s rest : List ε} {value : α}
    (h : g.verdict final s = .matched value rest) : ∀ e ∈ s.head?, first e := by
  cases s with
  | nil => exact nofun
  | cons e s =>
    rintro _ ⟨⟩
    refine Classical.byContradiction fun he => ?_
    rw [hg.cons final e s he] at h
    cases h

end General

namespace Uri

/-! ## The end of a target -/

/-- The end of a target is looked for and not consumed. -/
theorem eq_of_targetEnd {s rest : Text} {mark : Unit}
    (h : targetEnd.verdict true s = .matched mark rest) : rest = s := by
  cases s with
  | nil => cases (endAt_nil _ _).symm.trans h; rfl
  | cons c s =>
    replace h := (endAt_cons _ _ true c s).symm.trans h
    split at h <;> cases h
    rfl

theorem targetEnd_nil : targetEnd.verdict true [] = .matched () [] := endAt_nil _ _

/-- **At the end of a complete text a target ends.** -/
theorem matched_terminated_targetEnd {α : Type} [Vacancy α] {p : TextGrammar α} {s : Text}
    {value : α} :
    (terminated p targetEnd).verdict true s = .matched value [] ↔
      p.verdict true s = .matched value [] := by
  rw [matched_terminated]
  constructor
  · rintro ⟨middle, mark, h, hend⟩
    rw [eq_of_targetEnd hend]
    exact h
  · exact fun h => ⟨[], (), h, targetEnd_nil⟩

/-! ## The forms of a target -/

/-- The path and query of the origin form. -/
def origin : TextGrammar (List Text × Option (Entries Text Text)) :=
  serial absolutePath (optional query)

theorem begins_origin : origin.BeginsWith fun c => c.val = 0x2F :=
  ((begins_ascii '/').bind _).bind _

/-- **A text is a target in one of three ways**, and no form shadows another. -/
theorem matched_requestTarget {s : Text} {target : RequestTarget} :
    requestTarget.verdict true s = .matched target [] ↔
      (target = .asterisk ∧ s = "*") ∨
      (∃ path query, target = .origin path query ∧
        origin.verdict true s = .matched (path, query) []) ∨
      ∃ uri, target = .absolute uri ∧ absoluteUri.verdict true s = .matched uri [] := by
  have hstar (h : ∀ c ∈ s.head?, c.val ≠ 0x2A) :
      (terminated ((ascii '*' : TextGrammar CodePoint).map fun _ => RequestTarget.asterisk)
        targetEnd).verdict true s = .rejected :=
    bind_of_rejected _ (map_of_rejected _ (rejected_ascii (by decide) (fun _ => rfl) h))
  have horigin (h : ∀ c ∈ s.head?, c.val ≠ 0x2F) :
      (terminated (origin.map fun v => RequestTarget.origin v.1 v.2) targetEnd).verdict true s =
        .rejected :=
    bind_of_rejected _ (map_of_rejected _ (bind_of_rejected _ (bind_of_rejected _
      (rejected_ascii (by decide) (fun _ => rfl) h))))
  constructor
  · intro h
    rcases matched_of_alt h with h | h
    · obtain ⟨c, hc, rfl⟩ := matched_map.mp (matched_terminated_targetEnd.mp h)
      exact .inl ⟨rfl, (matched_ascii.mp hc).2⟩
    rcases matched_of_alt h with h | h
    · obtain ⟨v, hv, rfl⟩ := matched_map.mp (matched_terminated_targetEnd.mp h)
      exact .inr (.inl ⟨v.1, v.2, rfl, hv⟩)
    rcases matched_of_alt h with h | h
    · obtain ⟨uri, huri, rfl⟩ := matched_map.mp (matched_terminated_targetEnd.mp h)
      exact .inr (.inr ⟨uri, rfl, huri⟩)
    · cases h
  · rintro (⟨rfl, rfl⟩ | ⟨path, query, rfl, h⟩ | ⟨uri, rfl, h⟩)
    · exact alt_of_matched _ (matched_terminated_targetEnd.mpr
        (matched_map.mpr ⟨CodePoint.ofChar '*', matched_ascii.mpr ⟨rfl, rfl⟩, rfl⟩))
    · have hslash := begins_origin.head h
      refine (alt_of_rejected _ (hstar fun c hc => ?_)).trans (alt_of_matched _
        (matched_terminated_targetEnd.mpr (matched_map.mpr ⟨(path, query), h, rfl⟩)))
      rw [hslash c hc]
      decide
    · have hletter := begins_absoluteUri.head h
      have hne (c : CodePoint) (hc : c ∈ s.head?) : c.val ≠ 0x2A ∧ c.val ≠ 0x2F := by
        have h := hletter c hc
        constructor <;> intro heq <;> simp [heq, Charset.isAlpha] at h
      exact ((alt_of_rejected _ (hstar fun c hc => (hne c hc).1)).trans
        (alt_of_rejected _ (horigin fun c hc => (hne c hc).2))).trans (alt_of_matched _
          (matched_terminated_targetEnd.mpr (matched_map.mpr ⟨uri, h, rfl⟩)))

/-! ## Behind an authority -/

/-- A path that begins with its slash is never rejected. -/
theorem absolutePath_ne_rejected {c : CodePoint} (hc : c.val = 0x2F) (s : Text) :
    absolutePath.verdict true (c :: s) ≠ .rejected := by
  have hslash := matched_ascii_cons (a := '/') (by decide) hc true s
  intro h
  rw [absolutePath, preceded, verdict_bind, hslash, Verdict.andThen, relativePath, verdict_map,
    verdict_separatedItems] at h
  cases hitems : Verdict.separated ((ascii '/' : TextGrammar CodePoint).verdict true)
      ((optional segment).verdict true) s s with
  | rejected => exact Verdict.separated_ne_rejected s s hitems
  | truncated best rest => cases best <;> rw [hitems] at h <;> cases h
  | _ => rw [hitems] at h; cases h

/-- **Behind an authority and in front of a slash the hierarchy is the path.** Where the
path fails the hierarchy does so too, and no other form of it is tried. -/
theorem hierarchy_of_authority {a : Authority} {w t : Text}
    (hauthority : authority.verdict true (w ++ t) = .matched a t)
    (ht : absolutePath.verdict true t ≠ .rejected) :
    hierarchy.verdict true ("//" ++ (w ++ t)) =
      (absolutePath.map fun path => (some a, path)).verdict true t := by
  have hmarked : (preceded (token ['/', '/']) authority).verdict true ("//" ++ (w ++ t)) =
      .matched a t :=
    matched_preceded.mpr ⟨"//", _, matched_literal.mpr ⟨rfl, rfl⟩, hauthority⟩
  rcases guarded_absolutePath.concludes.cases t with ⟨path, rest, hpath⟩ | hpath | hpath
  · have hfirst : (serial (preceded (token ['/', '/']) authority) (optional absolutePath)).verdict
        true ("//" ++ (w ++ t)) = .matched (a, some path) rest :=
      matched_bind.mpr ⟨a, t, hmarked, matched_map.mpr
        ⟨some path, matched_optional.mpr (.inr ⟨path, hpath, rfl⟩), rfl⟩⟩
    exact (alt_of_matched _ (matched_map.mpr ⟨(a, some path), hfirst, rfl⟩)).trans
      (matched_map.mpr ⟨path, hpath, rfl⟩).symm
  · exact absurd hpath ht
  · rw [hierarchy, eitherOf, List.foldr_cons, verdict_alt, verdict_map, serial, verdict_bind,
      hmarked, Verdict.andThen, verdict_map, verdict_optional, hpath, verdict_map, hpath]
    rfl

/-- **A path and a query behind an authority** are read as they are on their own. -/
theorem absoluteUri_of_authority {scheme : Text} (hscheme : isScheme scheme = true)
    {a : Authority} (ha : a.Renderable) {w : Text}
    (hw : Fills (userinfoLayout a.userinfo ++ (a.host.layout ++ portLayout a.port)) w)
    {c : CodePoint} (hc : c.val = 0x2F) {s : Text} {path : List Text}
    {query : Option (Entries Text Text)} :
    absoluteUri.verdict true (scheme ++ (":" ++ ("//" ++ (w ++ c :: s)))) =
        .matched ⟨scheme, some a, path, query, none⟩ [] ↔
      origin.verdict true (c :: s) = .matched (path, query) [] := by
  have hslash : NextIsOneOf ['/'] (c :: s) := by
    rintro _ ⟨⟩
    simp [Charset.isOneOf, hc]
  have hreadScheme := scheme_of_isScheme hscheme ("//" ++ (w ++ c :: s))
  have hhierarchy := hierarchy_of_authority (authority_of_fills ha hw hslash)
    (absolutePath_ne_rejected hc s)
  rw [absoluteUri, verdict_label]
  constructor
  · intro h
    obtain ⟨_, hserial, huri⟩ := matched_map.mp h
    obtain ⟨_, _, hfound, hserial⟩ := matched_bind.mp hserial
    cases hreadScheme.symm.trans hfound
    obtain ⟨_, _, hfound, hserial⟩ := matched_bind.mp hserial
    obtain ⟨_, hpath, rfl⟩ := matched_map.mp (hhierarchy.symm.trans hfound)
    obtain ⟨_, _, hquery, hserial⟩ := matched_bind.mp hserial
    obtain ⟨_, hfragment, rfl⟩ := matched_map.mp hserial
    cases huri
    -- without a fragment the query has to go to the end
    rcases matched_optional.mp hfragment with ⟨-, -, rfl⟩ | ⟨_, -, hnone⟩
    · exact matched_bind.mpr ⟨_, _, hpath, matched_map.mpr ⟨_, hquery, rfl⟩⟩
    · cases hnone
  · intro h
    obtain ⟨_, middle, hpath, hmore⟩ := matched_bind.mp h
    obtain ⟨_, hquery, heq⟩ := matched_map.mp hmore
    cases heq
    have hfragment : (optional fragment).verdict true [] = .matched none [] :=
      optional_fragment_of_fills .nil
    exact matched_map.mpr ⟨(scheme, (some a, path), query, none),
      matched_bind.mpr ⟨_, _, hreadScheme, matched_bind.mpr ⟨_, _,
        hhierarchy.trans (matched_map.mpr ⟨path, hpath, rfl⟩), matched_bind.mpr
          ⟨_, _, hquery, matched_map.mpr ⟨none, hfragment, rfl⟩⟩⟩⟩, rfl⟩

/-! ## Complete parses -/

/-- **Request targets and URIs are read alike.** A URI is the absolute form of a target,
and no other form is taken for one. A text that begins with a slash is the origin form of
a target with the path and the query that it has behind a host. -/
theorem targets_and_uris_agree :
    (∀ (text : Text) (uri : AbsoluteUri), parseUri text (some 0) = .ok uri ↔
      parseRequestTarget text (some 0) = .ok (.absolute uri)) ∧
    ∀ (text : Text) (path : List Text) (query : Option (Entries Text Text)),
      parseRequestTarget (CodePoint.ofChar '/' :: text) (some 0) = .ok (.origin path query) ↔
        parseUri ("http://h" ++ CodePoint.ofChar '/' :: text) (some 0) =
          .ok ⟨"http", some ⟨none, .name "h", none⟩, path, query, none⟩ := by
  refine ⟨fun text uri => ?_, fun text path query => ?_⟩
  · refine parseAll_eq_ok_iff.trans (Iff.trans ?_ parseAll_eq_ok_iff.symm)
    rw [matched_requestTarget]
    simp
  · refine parseAll_eq_ok_iff.trans (Iff.trans ?_ parseAll_eq_ok_iff.symm)
    have hhost : Host.Renderable (.name "h") := by
      refine ⟨by decide, (Text.lower_of_isAscii (by decide)).trans (by decide), fun ip _ heq => ?_⟩
      have hmem : CodePoint.ofChar 'h' ∈ ip.text := heq ▸ by decide
      have hletter := isAddressChar_of_mem_text hmem
      rw [IsAddressChar] at hletter
      exact absurd hletter (by decide)
    have hscheme : isScheme "http" = true := by decide
    have hauthority : Authority.Renderable ⟨none, .name "h", none⟩ :=
      ⟨by decide, hhost, by decide⟩
    have hfills : Fills [.component "h"] "h" := .component (.plain (by decide) .nil) .nil
    rw [matched_requestTarget]
    refine Iff.trans ?_ (absoluteUri_of_authority hscheme hauthority hfills rfl).symm
    simp

end Uri

end StreamGrammar
