import Mathlib.Data.List.Forall2
import StreamGrammar.Proofs.Entries
import StreamGrammar.Proofs.Uri.Decoding
import StreamGrammar.Proofs.Uri.Rendering

/-!
# Delimiters before decoding

A path is cut up at its slashes and a query at its ampersands and equals signs, and what is
cut up is the text as it stands. An escaped slash is three other characters there, so it
becomes part of a component when this is decoded, and never parts two.

The grammars do not cut up and then decode. They decode a component as they come to it, for
as far as it gets, and look for a delimiter where it ends. That both come to the same needs
two things. A component ends at every delimiter: no test lets through the marks at which its
part of the URI is cut up, and a run of escapes ends there too. And the escapes of a text
are in order exactly if those of its pieces are, though it is said of runs that are as long
as they get (`WellEscaped.of_append_mark`): a mark belongs to no group, so every run is one
of a piece.

An empty piece is no component. It is an item all the same, as the loop over the items asks
only that a delimiter was consumed.
-/

namespace StreamGrammar.Uri

open Grammar

variable {p : TextGrammar Text} {test : Nat → Bool} {c : CodePoint} {s t rest : Text}

/-! ## Components as they stand -/

/-- **A text that can stand for a component**: characters that stand for themselves, plus
signs, and escapes that are in order. -/
structure IsRaw (test : Nat → Bool) (s : Text) : Prop where
  /-- There are no other characters. The digits of an escape stand for themselves elsewhere. -/
  chars : ∀ c ∈ s, test c.val = true ∨ c.val = 0x25 ∨ c.val = 0x2B
  /-- The escapes are in order. -/
  escapes : WellEscaped s

theorem IsRaw.decoded (h : IsRaw test s) : ∃ t, Decoded s t := wellEscaped_iff.mp h.escapes

namespace Decoded

/-- Nothing but nothing is decoded to nothing. -/
theorem eq_nil_iff (h : Decoded s t) : s = [] ↔ t = [] := by
  cases h with
  | nil => exact Iff.rfl
  | plain => simp
  | @run bytes e chars s t he hne hchars =>
    obtain ⟨rfl, -⟩ := Utf8.decode_eq_ok_iff.mp hchars
    have hchars : chars ≠ [] := fun hnil => hne (by rw [hnil]; rfl)
    simp [he.ne_nil hne, hchars]

/-- **All characters that stand for themselves and come first**, down to an escape or a plus
sign. -/
theorem plain_first (h : Decoded s t) :
    ∃ run s' t', s = run ++ s' ∧ t = run ++ t' ∧ (∀ c ∈ run, c.val ≠ 0x25 ∧ c.val ≠ 0x2B) ∧
      Decoded s' t' ∧ ∀ c ∈ s'.head?, c.val = 0x25 ∨ c.val = 0x2B := by
  induction h with
  | nil => exact ⟨[], [], [], rfl, rfl, nofun, .nil, nofun⟩
  | @plain c s t hc h ih =>
    by_cases hplus : c.val = 0x2B
    · refine ⟨[], _, _, rfl, rfl, nofun, .plain hc h, ?_⟩
      rintro _ ⟨⟩
      exact .inr hplus
    · obtain ⟨run, s', t', rfl, rfl, hrun, h', hhead⟩ := ih
      refine ⟨c :: run, s', t', rfl, ?_, List.forall_mem_cons.mpr ⟨⟨hc, hplus⟩, hrun⟩, h', hhead⟩
      rw [unescaped, if_neg hplus, List.cons_append]
  | run he hne hchars hs h _ =>
    refine ⟨[], _, _, rfl, rfl, nofun, .run he hne hchars hs h, fun c hc => .inl (he.head c ?_)⟩
    obtain ⟨d, e, rfl⟩ := List.exists_cons_of_ne_nil (he.ne_nil hne)
    exact hc

end Decoded

/-- **A component is read in rounds, as what it decodes to**, where it ends. -/
theorem ReadsRuns.rounds_of_decoded (hp : ReadsRuns p test)
    (hplus : ∀ s, p.verdict true (CodePoint.ofChar '+' :: s) = .matched [CodePoint.ofChar ' '] s)
    (h : Decoded s t) (hs : ∀ c ∈ s, test c.val = true ∨ c.val = 0x25 ∨ c.val = 0x2B)
    (hmark : test 0x2B = false) (hrest : Delimited test rest) :
    ∃ parts, Verdict.Rounds (p.verdict true) (s ++ rest) parts rest ∧ Text.concat parts = t := by
  -- a stretch takes characters of the text, so the rest of it is shorter
  induction hn : s.length using Nat.strongRecOn generalizing s t with
  | _ n ih =>
    obtain ⟨run, s', t', rfl, rfl, hrun, h', hhead⟩ := h.plain_first
    obtain ⟨hplain, hs'⟩ := List.forall_mem_append.mp hs
    by_cases hnil : run = []
    · -- nothing stands for itself here
      subst hnil
      simp only [List.nil_append] at hn ⊢
      cases h' with
      | nil => exact ⟨[], .none rest, rfl⟩
      | @plain c s t hc hmore =>
        have hval : c.val = 0x2B := (hhead c rfl).resolve_left hc
        obtain ⟨parts, hrounds, hconcat⟩ :=
          ih s.length (by rw [← hn]; simp) hmore (List.forall_mem_cons.mp hs').2 rfl
        refine ⟨[CodePoint.ofChar ' '] :: parts, .more ?_ hrounds, ?_⟩
        · rw [show c = CodePoint.ofChar '+' from CodePoint.ext hval]
          exact hplus _
        · rw [unescaped, if_pos hval, ← hconcat]
          rfl
      | @run bytes e chars s t he hne hchars hend hmore =>
        have hlt : s.length < n := by
          have := List.length_pos_iff.mpr (he.ne_nil hne)
          rw [← hn, List.length_append]
          omega
        obtain ⟨parts, hrounds, hconcat⟩ :=
          ih s.length hlt hmore (List.forall_mem_append.mp hs').2 rfl
        obtain ⟨rfl, hencodable⟩ := Utf8.decode_eq_ok_iff.mp hchars
        refine ⟨chars :: parts, .more ?_ hrounds, by rw [← hconcat]; rfl⟩
        rw [List.append_assoc]
        refine hp.escapes (fun hnone => hne (by rw [hnone]; rfl)) hencodable he ?_
        cases s with
        | nil => exact fun c hc => (hrest c hc).2.1
        | cons c s => exact hend
    · have hlt : s'.length < n := by
        have := List.length_pos_iff.mpr hnil
        rw [← hn, List.length_append]
        omega
      obtain ⟨parts, hrounds, hconcat⟩ := ih s'.length hlt h' hs' rfl
      have htest : ∀ c ∈ run, test c.val = true := fun c hc => by
        obtain ⟨hpercent, hnot⟩ := hrun c hc
        exact (hplain c hc).resolve_right (not_or.mpr ⟨hpercent, hnot⟩)
      refine ⟨run :: parts, .more ?_ hrounds, by rw [← hconcat]; rfl⟩
      rw [List.append_assoc]
      refine hp.plain hnil htest ⟨fun _ => rfl, ?_⟩
      cases s' with
      | nil => exact fun c hc => (hrest c hc).1
      | cons c s' =>
        rintro _ ⟨⟩
        rcases hhead c rfl with hval | hval
        · exact (congrArg test hval).trans hp.percent
        · exact (congrArg test hval).trans hmark

/-- A plus sign in a component is a blank. -/
theorem componentPart_plus (s : Text) :
    (componentPart test).verdict true (CodePoint.ofChar '+' :: s) =
      .matched [CodePoint.ofChar ' '] s :=
  (alt_of_rejected _ (percentEncoded_of_ne (by decide) true s)).trans (alt_of_matched _
    (matched_map.mpr ⟨_, matched_ascii.mpr ⟨rfl, rfl⟩, rfl⟩))

/-- **A component that is not empty is read as what it decodes to**, where it ends. -/
theorem component_of_raw (hpercent : test 0x25 = false) (hplus : test 0x2B = false)
    (hs : IsRaw test s) (h : Decoded s t) (hne : s ≠ []) (hrest : Delimited test rest) :
    (component test).verdict true (s ++ rest) = .matched t rest := by
  have hreads := reads_componentPart hpercent hplus
  obtain ⟨parts, hrounds, hconcat⟩ :=
    hreads.rounds_of_decoded componentPart_plus h hs.chars hplus hrest
  have hmany := Verdict.many_of_rounds (fun hm => hreads.consumes hm) hrounds
    (componentPart_of_head hrest)
  refine matched_map.mpr ⟨parts, ?_, hconcat⟩
  rw [verdict_repeatSome, verdict_repeatAny, hmany]
  cases parts with
  | nil => exact absurd (h.eq_nil_iff.mpr hconcat.symm) hne
  | cons part parts => rfl

/-- What is found of a component that may be empty. -/
def found (s t : Text) : Option Text := if s = [] then none else some t

theorem getD_found (h : Decoded s t) : (found s t).getD [] = t := by
  unfold found
  split
  · rename_i hnil
    exact (h.eq_nil_iff.mp hnil).symm
  · rfl

/-- **A component that may be empty.** -/
theorem optional_component_of_raw (hpercent : test 0x25 = false) (hplus : test 0x2B = false)
    (hs : IsRaw test s) (h : Decoded s t) (hrest : Delimited test rest) :
    (optional (component test)).verdict true (s ++ rest) = .matched (found s t) rest := by
  unfold found
  split
  · rename_i hnil
    subst hnil
    exact matched_optional.mpr (.inl ⟨component_of_head hrest, rfl, rfl⟩)
  · rename_i hne
    exact matched_optional.mpr
      (.inr ⟨t, component_of_raw hpercent hplus hs h hne hrest, rfl⟩)

/-! ## Pieces -/

/-- **A mark parts what is decoded**, as it belongs to no escape. -/
theorem Decoded.of_append_mark (hc : c.val ≠ 0x25 ∧ Charset.isHexDigit c.val = false)
    (h : Decoded (s ++ c :: rest) t) : (∃ u, Decoded s u) ∧ ∃ u, Decoded rest u := by
  generalize hwhole : s ++ c :: rest = whole at h
  induction h generalizing s with
  | nil => simp at hwhole
  | @plain d whole t hd h ih =>
    cases s with
    | nil =>
      cases hwhole
      exact ⟨⟨[], .nil⟩, t, h⟩
    | cons d s =>
      cases hwhole
      obtain ⟨⟨u, hu⟩, hrest⟩ := ih rfl
      exact ⟨⟨_, .plain hd hu⟩, hrest⟩
  | @run bytes e chars whole t he hne hchars hs h ih =>
    -- the mark is not in the run, so the run is all in what comes before it
    obtain ⟨s', rfl, rfl⟩ : ∃ s', s = e ++ s' ∧ whole = s' ++ c :: rest := by
      rcases List.append_eq_append_iff.mp hwhole with ⟨more, rfl, hmore⟩ | ⟨s', rfl, hs'⟩
      · cases more with
        | nil => exact ⟨[], by simp, hmore.symm⟩
        | cons d more =>
          cases hmore
          rcases he.forall_mem c (by simp) with hval | hval
          · exact absurd hval hc.1
          · rw [hc.2] at hval
            cases hval
      · exact ⟨s', rfl, hs'⟩
    obtain ⟨⟨u, hu⟩, hrest⟩ := ih rfl
    refine ⟨⟨_, .run he hne hchars (fun d hd => hs d ?_) hu⟩, hrest⟩
    cases s' with
    | nil => cases hd
    | cons d s' => exact hd

theorem WellEscaped.of_append_mark (hc : c.val ≠ 0x25 ∧ Charset.isHexDigit c.val = false)
    (h : WellEscaped (s ++ c :: rest)) : WellEscaped s ∧ WellEscaped rest := by
  obtain ⟨t, ht⟩ := wellEscaped_iff.mp h
  obtain ⟨hs, hrest⟩ := ht.of_append_mark hc
  exact ⟨wellEscaped_iff.mpr hs, wellEscaped_iff.mpr hrest⟩

/-- **Each piece of a raw text is one.** -/
theorem IsRaw.of_mem_pieces (hc : c.val ≠ 0x25 ∧ Charset.isHexDigit c.val = false)
    {pieces : List Text} (h : IsRaw test ([c].intercalate pieces)) :
    ∀ piece ∈ pieces, IsRaw test piece := by
  induction pieces with
  | nil => exact nofun
  | cons piece pieces ih =>
    cases pieces with
    | nil =>
      rw [List.intercalate_singleton] at h
      exact List.forall_mem_singleton.mpr h
    | cons next pieces =>
      rw [List.intercalate_cons_cons, List.append_assoc, List.singleton_append] at h
      obtain ⟨hfirst, hothers⟩ := h.escapes.of_append_mark hc
      obtain ⟨hchars, hmore⟩ := List.forall_mem_append.mp h.chars
      exact List.forall_mem_cons.mpr
        ⟨⟨hchars, hfirst⟩, ih ⟨(List.forall_mem_cons.mp hmore).2, hothers⟩⟩

/-- Pieces with a mark between them are the first one, and the others behind a mark each. -/
theorem intercalate_cons (piece : Text) (pieces : List Text) :
    [c].intercalate (piece :: pieces) = piece ++ pieces.flatMap (c :: ·) :=
  Text.joinWith_cons [c] piece pieces

/-- **A grammar reads a piece as a value**, in front of the mark and where the pieces end. -/
def ReadsPiece {α : Type} (g : TextGrammar α) (a : Char) (piece : Text) (value : α) : Prop :=
  ∀ rest, NextIsOneOf [a] rest → g.verdict true (piece ++ rest) = .matched value rest

theorem next_of_pieces (a : Char) (pieces : List Text) :
    NextIsOneOf [a] (pieces.flatMap (CodePoint.ofChar a :: ·)) := by
  cases pieces with
  | nil => exact nextIsOneOf_nil _
  | cons piece pieces => exact nextIsOneOf_ofChar List.mem_cons_self _

/-- **Items are read piece by piece.** -/
theorem separatedItems_of_pieces {α : Type} {g : TextGrammar α} {a : Char} (ha : a.toNat < 0x80)
    {pieces : List Text} {values : List α} (hne : pieces ≠ [])
    (h : List.Forall₂ (ReadsPiece g a) pieces values) :
    (separatedItems (ascii a) g).verdict true ([CodePoint.ofChar a].intercalate pieces) =
      .matched values [] := by
  have hrounds : ∀ {pieces : List Text} {values : List α},
      List.Forall₂ (ReadsPiece g a) pieces values →
        Verdict.Rounds (Verdict.round ((ascii a : TextGrammar CodePoint).verdict true)
          (g.verdict true)) (pieces.flatMap (CodePoint.ofChar a :: ·)) values [] := by
    intro pieces values h
    induction h with
    | nil => exact .none []
    | @cons piece value pieces values hpiece _ ih =>
      exact .more (Verdict.round_eq_matched.mpr ⟨CodePoint.ofChar a, _,
        matched_ascii.mpr ⟨rfl, rfl⟩, hpiece _ (next_of_pieces a pieces)⟩) ih
  cases h with
  | nil => exact absurd rfl hne
  | @cons piece value pieces values hpiece hpieces =>
    rw [intercalate_cons, verdict_separatedItems]
    exact Verdict.separated_of_rounds (fun h => Consumes.satisfy _ _ h)
      (fun h => (rest_suffix h).length_le) (hpiece _ (next_of_pieces a pieces)) (hrounds hpieces)
      ((nextIsOneOf_nil []).ascii_rejected ha rfl)

/-- No piece has the mark in it. -/
theorem mark_not_mem_pieces (mark : CodePoint) (raw : Text) :
    ∀ piece ∈ raw.splitOn mark, mark ∉ piece := by
  unfold List.splitOn
  induction raw with
  | nil =>
    rw [List.splitOnP_nil]
    exact List.forall_mem_singleton.mpr List.not_mem_nil
  | cons d raw ih =>
    obtain ⟨piece, pieces, hpieces⟩ :=
      List.exists_cons_of_ne_nil (List.splitOnP_ne_nil (fun e => e == mark) raw)
    rw [hpieces] at ih
    rw [List.splitOnP_cons_eq_if_modifyHead, hpieces]
    split
    · exact List.forall_mem_cons.mpr ⟨List.not_mem_nil, ih⟩
    · rename_i hd
      obtain ⟨hpiece, hothers⟩ := List.forall_mem_cons.mp ih
      refine List.forall_mem_cons.mpr ⟨fun hmem => ?_, hothers⟩
      rcases List.mem_cons.mp hmem with rfl | hmem
      · exact hd (beq_self_eq_true mark)
      · exact hpiece hmem

/-- What there is for each piece there is for all of them. -/
theorem exists_forall₂ {α β : Type} {R : α → β → Prop} {xs : List α} (h : ∀ x ∈ xs, ∃ y, R x y) :
    ∃ ys, List.Forall₂ R xs ys := by
  induction xs with
  | nil => exact ⟨[], .nil⟩
  | cons x xs ih =>
    obtain ⟨⟨y, hy⟩, hothers⟩ := List.forall_mem_cons.mp h
    obtain ⟨ys, hys⟩ := ih hothers
    exact ⟨y :: ys, .cons hy hys⟩

/-! ## Paths -/

/-- Pieces without an empty one at the end. -/
def withoutFinalEmpty (pieces : List Text) : List Text :=
  if pieces.getLast? = some [] then pieces.dropLast else pieces

theorem withoutFinalEmpty_cons_cons (piece next : Text) (pieces : List Text) :
    withoutFinalEmpty (piece :: next :: pieces) = piece :: withoutFinalEmpty (next :: pieces) := by
  unfold withoutFinalEmpty
  rw [List.getLast?_cons_cons, List.dropLast_cons_cons, apply_ite (List.cons piece)]

/-- Pieces that are decoded end with an empty one if what they decode to does. -/
theorem decoded_withoutFinalEmpty {pieces values : List Text}
    (h : List.Forall₂ Decoded pieces values) :
    List.Forall₂ Decoded (withoutFinalEmpty pieces) (withoutFinalEmpty values) := by
  induction h with
  | nil => exact .nil
  | @cons piece value pieces values hpiece hpieces ih =>
    cases hpieces with
    | nil =>
      by_cases hnil : piece = []
      · rw [hnil, hpiece.eq_nil_iff.mp hnil]
        exact .nil
      · have hvalue := mt hpiece.eq_nil_iff.mpr hnil
        simp only [withoutFinalEmpty, List.getLast?_singleton, Option.some.injEq, hnil, hvalue,
          if_false]
        exact .cons hpiece .nil
    | cons hnext hothers =>
      rw [withoutFinalEmpty_cons_cons, withoutFinalEmpty_cons_cons]
      exact .cons hpiece ih

/-- Between slashes there is a segment, perhaps an empty one. -/
theorem segment_of_raw {piece : Text} (h : IsRaw isSegmentChar piece) :
    ∃ v, ReadsPiece (optional segment) '/' piece v ∧ Decoded piece (v.getD []) := by
  obtain ⟨t, ht⟩ := h.decoded
  refine ⟨found piece t, fun rest hrest => ?_, (getD_found ht).symm ▸ ht⟩
  exact optional_component_of_raw (by decide) (by decide) h ht (delimited_of_next hrest (by decide))

/-- **A path is read as its pieces between slashes, each decoded on its own.** -/
theorem absolutePath_of_raw {raw : Text} (h : IsRaw isPathChar raw) :
    ∃ path, absolutePath.verdict true (CodePoint.ofChar '/' :: raw) = .matched path [] ∧
      List.Forall₂ Decoded (withoutFinalEmpty (raw.splitOn (CodePoint.ofChar '/'))) path := by
  let slash := CodePoint.ofChar '/'
  have hjoin : [slash].intercalate (raw.splitOn slash) = raw := List.intercalate_splitOn slash
  have hpieces : ∀ piece ∈ raw.splitOn slash, IsRaw isSegmentChar piece := by
    intro piece hpiece
    rw [← hjoin] at h
    obtain ⟨hchars, hescapes⟩ := h.of_mem_pieces (by decide) piece hpiece
    refine ⟨fun c hc => ?_, hescapes⟩
    -- a slash would be where the pieces are parted
    have hslash : c.val ≠ 0x2F := fun hval => by
      rw [show c = slash from CodePoint.ext hval] at hc
      exact mark_not_mem_pieces slash raw piece hpiece hc
    rcases hchars c hc with hpath | hother
    · rcases isPathChar_iff.mp hpath with hsegment | hval | hval
      · exact .inl hsegment
      · exact absurd hval hslash
      · exact .inr (.inr hval)
    · exact .inr hother
  obtain ⟨vs, hvs⟩ := exists_forall₂ fun piece hpiece => segment_of_raw (hpieces piece hpiece)
  have hitems := separatedItems_of_pieces (a := '/') (by decide)
    (List.splitOnP_ne_nil _ raw) (hvs.imp fun _ _ hv => hv.1)
  have hdecoded : List.Forall₂ Decoded (raw.splitOn slash) (vs.map fun v => v.getD []) :=
    List.forall₂_map_right_iff.mpr (hvs.imp fun _ _ hv => hv.2)
  refine ⟨pathOf vs, matched_preceded.mpr ⟨slash, raw, matched_ascii.mpr ⟨rfl, rfl⟩,
    matched_map.mpr ⟨vs, ?_, rfl⟩⟩, decoded_withoutFinalEmpty hdecoded⟩
  rw [← hjoin]
  exact hitems

/-! ## Queries -/

/-- **A parameter as it stands**: a key, and a value behind an equals sign unless it is left
out. -/
structure Param where
  /-- The key. -/
  key : Text
  /-- The value. -/
  value : Option Text
  /-- There is a key. -/
  key_ne_nil : key ≠ []
  /-- The key can stand in a query. It has no equals sign in it, and no ampersand. -/
  key_raw : IsRaw isQueryChar key
  /-- So can the value. -/
  value_raw : ∀ v ∈ value, IsRaw isQueryChar v

namespace Param

/-- The text of a parameter. -/
def text (param : Param) : Text :=
  match param.value with
  | none => param.key
  | some value => param.key ++ CodePoint.ofChar '=' :: value

/-- **A key and a value that a parameter decodes to**, where a value that is left out is
empty. -/
structure Decodes (param : Param) (pair : Text × Text) : Prop where
  /-- The key. -/
  key : Decoded param.key pair.1
  /-- The value. -/
  value : Decoded (param.value.getD []) pair.2

end Param

/-- **A parameter is read as what it decodes to.** -/
theorem queryPair_of_param (param : Param) :
    ∃ pair, ReadsPiece queryPair '&' param.text pair ∧ param.Decodes pair := by
  obtain ⟨key, hkey⟩ := param.key_raw.decoded
  have hreadKey {rest : Text} (hrest : Delimited isQueryChar rest) :
      queryToken.verdict true (param.key ++ rest) = .matched key rest :=
    component_of_raw (by decide) (by decide) param.key_raw hkey param.key_ne_nil hrest
  cases hvalue : param.value with
  | none =>
    refine ⟨(key, []), fun rest hrest => ?_, hkey, hvalue ▸ .nil⟩
    have hnone : (preceded (ascii '=') (optional queryToken)).verdict true rest = .rejected :=
      bind_of_rejected _ (hrest.ascii_rejected (by decide) (by decide))
    rw [Param.text, hvalue]
    exact matched_map.mpr ⟨(key, none), matched_bind.mpr ⟨key, rest,
      hreadKey (delimited_of_next hrest (by decide)), matched_map.mpr
        ⟨none, matched_optional.mpr (.inl ⟨hnone, rfl, rfl⟩), rfl⟩⟩, rfl⟩
  | some v =>
    have hraw := param.value_raw v hvalue
    obtain ⟨value, hv⟩ := hraw.decoded
    refine ⟨(key, value), fun rest hrest => ?_, hkey, hvalue ▸ hv⟩
    have hmark : Delimited isQueryChar (CodePoint.ofChar '=' :: (v ++ rest)) := by
      rintro _ ⟨⟩
      decide
    have hreadValue : (optional queryToken).verdict true (v ++ rest) =
        .matched (found v value) rest :=
      optional_component_of_raw (by decide) (by decide) hraw hv
        (delimited_of_next hrest (by decide))
    rw [Param.text, hvalue, List.append_assoc]
    refine matched_map.mpr ⟨(key, some (found v value)), matched_bind.mpr ⟨key, _, hreadKey hmark,
      matched_map.mpr ⟨some (found v value), matched_optional.mpr (.inr ⟨found v value,
        matched_preceded.mpr ⟨CodePoint.ofChar '=', _, matched_ascii.mpr ⟨rfl, rfl⟩, hreadValue⟩,
        rfl⟩), rfl⟩⟩, ?_⟩
    rw [Option.join_some, getD_found hv]

/-- **A query is read as its parameters, each decoded on its own.** -/
theorem query_of_params {params : List Param} (hne : params ≠ []) :
    ∃ pairs, query.verdict true
        (CodePoint.ofChar '?' :: [CodePoint.ofChar '&'].intercalate (params.map Param.text)) =
          .matched (Entries.ofPairs pairs) [] ∧
      List.Forall₂ Param.Decodes params pairs := by
  obtain ⟨pairs, hpairs⟩ :=
    exists_forall₂ fun param (_ : param ∈ params) => queryPair_of_param param
  have hitems := separatedItems_of_pieces (a := '&') (by decide)
    (fun hnil => hne (List.map_eq_nil_iff.mp hnil))
    (List.forall₂_map_left_iff.mpr (hpairs.imp fun _ _ hpair => hpair.1))
  exact ⟨pairs, matched_preceded.mpr ⟨CodePoint.ofChar '?', _, matched_ascii.mpr ⟨rfl, rfl⟩,
    matched_map.mpr ⟨pairs, hitems, rfl⟩⟩, hpairs.imp fun _ _ hpair => hpair.2⟩

/-! ## Delimiters -/

/-- **Delimiters are recognised before anything is decoded.** A path is cut up at its slashes
and a query at its ampersands and equals signs, all of the text is read, and each piece is
what it decodes to on its own. So no escape has a part in where a component ends. Of a path
an empty piece at the end is dropped; of a query the parameters are gathered under their
keys. -/
theorem split_then_decode :
    (∀ raw : Text, IsRaw isPathChar raw →
      ∃ path remainder,
        absolutePath.run (.complete (CodePoint.ofChar '/' :: raw)) = .matched path remainder ∧
          remainder.rest = [] ∧
          List.Forall₂ Decoded (withoutFinalEmpty (raw.splitOn (CodePoint.ofChar '/'))) path) ∧
      ∀ params : List Param, params ≠ [] →
        ∃ entries remainder pairs,
          query.run (.complete (CodePoint.ofChar '?' ::
              [CodePoint.ofChar '&'].intercalate (params.map Param.text))) =
            .matched entries remainder ∧
          remainder.rest = [] ∧ List.Forall₂ Param.Decodes params pairs ∧
          Entries.Gathers pairs entries := by
  refine ⟨fun raw hraw => ?_, fun params hne => ?_⟩
  · obtain ⟨path, hverdict, hpath⟩ := absolutePath_of_raw hraw
    obtain ⟨remainder, hrun, hrest⟩ := matched_complete.mp hverdict
    exact ⟨path, remainder, hrun, hrest, hpath⟩
  · obtain ⟨pairs, hverdict, hpairs⟩ := query_of_params hne
    obtain ⟨remainder, hrun, hrest⟩ := matched_complete.mp hverdict
    exact ⟨_, remainder, pairs, hrun, hrest, hpairs, Entries.gathers_ofPairs pairs⟩

/-- A text is raw if it can be decoded and its characters allow it. -/
theorem isRaw_of_decodeComponent
    (hs : ∀ c ∈ s, test c.val = true ∨ c.val = 0x25 ∨ c.val = 0x2B)
    (h : decodeComponent s (some 0) = .ok t) : IsRaw test s :=
  ⟨hs, wellEscaped_iff.mpr ⟨t, decodeComponent_eq_ok_iff.mp h⟩⟩

/-- The parameter `a=%26`, with an ampersand for its value. -/
def escapedAmpersand : Param where
  key := "a"
  value := some "%26"
  key_ne_nil := by decide
  key_raw := isRaw_of_decodeComponent (t := "a") (by decide) (by with_unfolding_all rfl)
  value_raw := by
    rintro _ ⟨⟩
    exact isRaw_of_decodeComponent (t := "&") (by decide) (by with_unfolding_all rfl)

/-- The parameter `a=1`. -/
def plainNumber : Param where
  key := "a"
  value := some "1"
  key_ne_nil := by decide
  key_raw := isRaw_of_decodeComponent (t := "a") (by decide) (by with_unfolding_all rfl)
  value_raw := by
    rintro _ ⟨⟩
    exact isRaw_of_decodeComponent (t := "1") (by decide) (by with_unfolding_all rfl)

/-- An escaped slash stays in its segment, and of a key that comes twice the last value
counts. -/
theorem split_then_decode_escaped :
    (∃ path remainder,
      absolutePath.run (.complete (CodePoint.ofChar '/' :: "a%2Fb//c+d/")) =
          .matched path remainder ∧
        remainder.rest = [] ∧
        List.Forall₂ Decoded (["a%2Fb", [], "c+d"] : List Text) path) ∧
      ∃ entries remainder,
        query.run (.complete "?a=1&a=%26") = .matched entries remainder ∧
          remainder.rest = [] ∧ entries = ([("a", "&")] : Entries Text Text) := by
  have hraw : IsRaw isPathChar "a%2Fb//c+d/" :=
    isRaw_of_decodeComponent (t := "a/b//c d/") (by decide) (by with_unfolding_all rfl)
  have hpieces : withoutFinalEmpty (List.splitOn (CodePoint.ofChar '/') "a%2Fb//c+d/") =
      (["a%2Fb", [], "c+d"] : List Text) := by
    decide +kernel
  have htext : CodePoint.ofChar '?' :: [CodePoint.ofChar '&'].intercalate
      ([plainNumber, escapedAmpersand].map Param.text) = ("?a=1&a=%26" : Text) := by
    decide +kernel
  have hread : query.verdict true "?a=1&a=%26" = .matched [("a", "&")] [] := by
    with_unfolding_all rfl
  refine ⟨?_, ?_⟩
  · obtain ⟨path, remainder, hrun, hrest, hpath⟩ := split_then_decode.1 _ hraw
    rw [hpieces] at hpath
    exact ⟨path, remainder, hrun, hrest, hpath⟩
  · obtain ⟨entries, remainder, pairs, hrun, hrest, -⟩ :=
      split_then_decode.2 [plainNumber, escapedAmpersand] (List.cons_ne_nil _ _)
    rw [htext] at hrun
    refine ⟨entries, remainder, hrun, hrest, ?_⟩
    have hverdict : query.verdict true "?a=1&a=%26" = .matched entries remainder.rest :=
      congrArg Outcome.verdict hrun
    rw [hread] at hverdict
    exact (Verdict.matched.inj hverdict).1.symm

end StreamGrammar.Uri
