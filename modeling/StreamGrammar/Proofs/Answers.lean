import StreamGrammar.Http.Reading
import StreamGrammar.Proofs.Conversions
import StreamGrammar.Proofs.Http.Final
import StreamGrammar.Proofs.Json.Lockstep
import StreamGrammar.Proofs.Text.Utf8

/-!
# Entry points answer

An entry point gives a value or one of the library's own failures, provided that its
arguments make sense. Nothing in the entry points sees to that: each hands on whatever
its grammar comes to, and `Failure.unguarded` is among it. So it is shown of the
grammars, that none has a partial function in it which is not judged
(`Grammar.Guarded`), and from there a failure can only be one that a runner makes up.

What that leaves open is whether a grammar has its total functions by right. Where
they stand for partial ones, these are defined at all that they are given; the
statement includes it.

Of a complete source nothing is missing, and a grammar that waits for no more input
does not report any. The head of a request is no such source, since its bytes may
break off anywhere. Its grammars decide finally, and as a failure of a function would
be no decision, none of theirs fails.
-/

namespace StreamGrammar

open Grammar

variable {ε α : Type}

/-- **A value or a failure of the library's own.** -/
def Answers (result : Except Failure α) : Prop :=
  ∀ failure, result = .error failure → failure.isVerdict = true

/-- An answer that is not that input is missing. -/
def AnswersWhole (result : Except Failure α) : Prop :=
  Answers result ∧
    ∀ notice reason fatal, result ≠ .error (.incomplete notice reason fatal)

/-- A limit that can be set: none, or zero for no limit, or more. -/
def IsLimit (value : Option Int) : Prop := ∀ n ∈ value, 0 ≤ n

namespace Answers

theorem ok (value : α) : Answers (.ok value) := nofun

theorem error {failure : Failure} (h : failure.isVerdict = true) :
    Answers (.error failure : Except Failure α) := by
  rintro _ ⟨⟩
  exact h

end Answers

namespace AnswersWhole

theorem ok (value : α) : AnswersWhole (.ok value) := ⟨.ok value, nofun⟩

theorem error {failure : Failure} (h : failure.isVerdict = true)
    (hwhole : ∀ notice reason fatal, failure ≠ .incomplete notice reason fatal) :
    AnswersWhole (.error failure : Except Failure α) := by
  refine ⟨.error h, fun notice reason fatal heq => ?_⟩
  cases heq
  exact hwhole notice reason fatal rfl

end AnswersWhole

/-! ## Complete sources -/

theorem exists_resolve {value : Option Int} (h : IsLimit value) (default : Nat) :
    ∃ limit, Limits.resolve value default = .ok limit := by
  cases value with
  | none => exact ⟨default, rfl⟩
  | some n =>
    obtain ⟨m, rfl⟩ := Int.eq_ofNat_of_zero_le (h n rfl)
    exact ⟨m, rfl⟩

/-- **A guarded grammar answers about a complete source**, under any limit on its size. -/
theorem answersWhole_parseAll [Element ε] {g : Grammar ε α} (hg : g.Guarded False)
    (source : List ε) {settings : ParseSettings} (hsize : IsLimit settings.maxSourceSize) :
    AnswersWhole (g.parseAll source settings) := by
  obtain ⟨limit, hlimit⟩ := exists_resolve hsize Limits.maxSourceSize
  have hends : (g.run (.complete source)).verdict.Ends False :=
    show (g.verdict true source).Ends False from hg.ends (by decide) source
  rw [parseAll, hlimit]
  dsimp only
  cases hadmitted : Limits.checkSourceSize source.length limit with
  | error failure =>
    unfold Limits.checkSourceSize at hadmitted
    split at hadmitted
    · cases hadmitted
      exact .error rfl (by simp)
    · cases hadmitted
  | ok admitted =>
    dsimp only
    cases hrun : g.run (.complete source) with
    | matched value remainder =>
      dsimp only
      split
      · exact .error rfl (by simp)
      · exact .ok value
    | rejected reason => exact .error rfl (by simp)
    | fatal reason => exact .error rfl (by simp)
    | truncated best remainder =>
      rw [hrun] at hends
      exact hends.elim
    | raised fault =>
      rw [hrun] at hends
      exact hends.elim

namespace Uri

theorem guarded_percentEncoded : percentEncoded.Guarded False := ⟨trivial, fun _ => trivial⟩

theorem guarded_component (isPlain : Nat → Bool) : (component isPlain).Guarded False :=
  ⟨guarded_percentEncoded, trivial, trivial, trivial⟩

theorem guarded_decOctet : decOctet.Guarded False := by
  have hthree {p q r : TextGrammar CodePoint} (hp : p.Guarded False) (hq : q.Guarded False)
      (hr : r.Guarded False) : (serial3 p q r).Guarded False := ⟨hp, fun _ => ⟨hq, fun _ => hr⟩⟩
  exact ⟨hthree trivial trivial trivial, hthree trivial trivial trivial,
    hthree trivial trivial trivial, ⟨trivial, fun _ => trivial⟩, trivial⟩

theorem guarded_ipv4Address : ipv4Address.Guarded False := by
  have hdotted : (terminated decOctet (ascii '.')).Guarded False :=
    ⟨guarded_decOctet, fun _ => trivial⟩
  exact ⟨hdotted, fun _ => ⟨hdotted, fun _ => ⟨hdotted, fun _ => guarded_decOctet⟩⟩⟩

theorem guarded_authority : authority.Guarded False := by
  have huserinfo : userinfo.Guarded False :=
    ⟨⟨guarded_percentEncoded, trivial, trivial⟩, fun _ => trivial⟩
  have hhost : host.Guarded False :=
    ⟨⟨guarded_ipv4Address, fun _ => ⟨trivial, trivial, trivial⟩⟩,
      guarded_percentEncoded, trivial, trivial⟩
  exact ⟨huserinfo, fun _ => ⟨hhost, fun _ => ⟨trivial, fun _ => trivial⟩⟩⟩

theorem guarded_relativePath : relativePath.Guarded False := ⟨trivial, guarded_component _⟩

theorem guarded_absolutePath : absolutePath.Guarded False :=
  ⟨trivial, fun _ => guarded_relativePath⟩

theorem guarded_query : query.Guarded False :=
  ⟨trivial, fun _ => ⟨trivial, guarded_component _, fun _ => ⟨trivial, fun _ =>
    guarded_component _⟩⟩⟩

theorem guarded_absoluteUri : absoluteUri.Guarded False := by
  have hscheme : (terminated scheme (ascii ':')).Guarded False :=
    ⟨⟨trivial, fun _ => trivial⟩, fun _ => trivial⟩
  have hhierarchy : hierarchy.Guarded False :=
    ⟨⟨⟨trivial, fun _ => guarded_authority⟩, fun _ => guarded_absolutePath⟩,
      guarded_absolutePath, guarded_relativePath, trivial⟩
  exact ⟨hscheme, fun _ => ⟨hhierarchy, fun _ => ⟨guarded_query, fun _ =>
    ⟨trivial, fun _ => guarded_component _⟩⟩⟩⟩

theorem guarded_requestTarget : requestTarget.Guarded False := by
  have hend : targetEnd.Guarded False := ⟨trivial, trivial, trivial⟩
  exact ⟨⟨trivial, fun _ => hend⟩,
    ⟨⟨guarded_absolutePath, fun _ => guarded_query⟩, fun _ => hend⟩,
    ⟨guarded_absoluteUri, fun _ => hend⟩, trivial⟩

theorem guarded_anyComponent : anyComponent.Guarded False :=
  ⟨guarded_percentEncoded, trivial, trivial, trivial⟩

end Uri

namespace Json

variable [Element ε]

theorem guarded_stringText : (stringText : Grammar ε Text).Guarded False := by
  have hescape : (escape : Grammar ε Text).Guarded False :=
    ⟨trivial, fun _ => ⟨trivial, trivial, fun _ => guarded_unicodeEscape⟩⟩
  exact ⟨trivial, fun _ => ⟨⟨trivial, hescape, trivial⟩, fun _ => trivial⟩⟩

theorem guarded_number : (number : Grammar ε Json).Guarded False := by
  have hinteger : (integer : Grammar ε (List ε)).Guarded False :=
    ⟨trivial, trivial, fun _ => trivial⟩
  exact ⟨trivial, fun _ => ⟨hinteger, fun _ => ⟨⟨trivial, fun _ => trivial⟩, fun _ =>
    ⟨trivial, fun _ => ⟨trivial, fun _ => trivial⟩⟩⟩⟩⟩

theorem guarded_valueWith {container : Grammar ε Json} (h : container.Guarded False) :
    (valueWith container).Guarded False :=
  ⟨guarded_stringText, guarded_number, h, trivial, trivial, trivial, trivial⟩

theorem guarded_spaced [Vacancy α] {p : Grammar ε α} (h : p.Guarded False) :
    (spaced p).Guarded False :=
  ⟨trivial, fun _ => ⟨h, fun _ => trivial⟩⟩

/-- Containers are guarded at every level of nesting. -/
theorem guarded_container (limit levels : Nat) :
    (container limit levels : Grammar ε Json).Guarded False := by
  induction levels with
  | zero => trivial
  | succ levels ih =>
    have helement := guarded_spaced (guarded_valueWith ih)
    have hclosing {c : Char} : (preceded blanks (ascii c) : Grammar ε ε).Guarded False :=
      ⟨trivial, fun _ => trivial⟩
    have hmember : (member (spaced (valueWith (container limit levels))) :
        Grammar ε (Text × Json)).Guarded False :=
      ⟨guarded_spaced guarded_stringText, fun _ => ⟨trivial, fun _ => helement⟩⟩
    exact ⟨⟨trivial, fun _ => ⟨⟨trivial, hmember⟩, fun _ => hclosing⟩⟩,
      ⟨trivial, fun _ => ⟨⟨trivial, helement⟩, fun _ => hclosing⟩⟩, trivial⟩

theorem guarded_text (limit : Nat) : (text limit : Grammar ε Json).Guarded False :=
  guarded_spaced (guarded_valueWith (guarded_container limit limit))

/-- **Parsing JSON answers**, over text and over bytes. -/
theorem answersWhole_parse {maxDepth maxSourceSize : Option Int}
    (hdepth : ∀ depth ∈ maxDepth, 1 ≤ depth) (hsize : IsLimit maxSourceSize)
    (source : List ε) : AnswersWhole (parse source maxDepth maxSourceSize) := by
  have hresolve : ∃ limit, resolveLimit maxDepth = .ok limit := by
    cases maxDepth with
    | none => exact ⟨_, rfl⟩
    | some depth =>
      rw [resolveLimit, Limits.resolveDepth_of_pos (hdepth depth rfl)]
      exact ⟨_, rfl⟩
  obtain ⟨limit, hlimit⟩ := hresolve
  rw [parse, hlimit]
  exact answersWhole_parseAll (guarded_text limit) source hsize

end Json

/-! ## Request heads -/

namespace Reader

variable {r : Reader}

theorem isVerdict_of_oversized {size : Nat} {failure : Failure}
    (h : r.oversized? size = some failure) : failure.isVerdict = true := by
  unfold oversized? at h
  split at h
  · cases h
    rfl
  · cases h

/-- A read fails with a verdict. -/
theorem isVerdict_of_fill {buffer : Bytes} {s after : Session} {failure : Failure}
    (h : r.fill buffer s = (.error failure, after)) : failure.isVerdict = true := by
  unfold fill at h
  split at h
  · cases h
    rfl
  · dsimp only at h
    split at h
    · rename_i hover
      cases h
      exact isVerdict_of_oversized hover
    · cases h

/-- **A phase of a grammar that decides finally answers**, whatever the source brings. -/
theorem answers_attempt {g : Grammar UInt8 α} (hg : g.Final) (template : Option Template)
    (number : Nat) (buffer : Bytes) (short : Bool) (s : Session) :
    Answers (r.attempt g.run template number buffer short s).1 := by
  fun_induction r.attempt g.run template number buffer short s with
  | case1 number buffer short s fault hrun =>
    exact absurd (congrArg Outcome.verdict hrun) (hg.ne_raised fault)
  | case2 number buffer short s value remainder hrun _ failure hover =>
    exact .error (isVerdict_of_oversized hover)
  | case3 => exact .ok _
  | case4 | case5 | case7 => exact .error rfl
  | case6 number buffer short s best remainder hrun asked failure hover =>
    exact .error (isVerdict_of_oversized hover)
  | case8 number buffer short s best remainder hrun asked hover hshort failure after hfill =>
    exact .error (isVerdict_of_fill hfill)
  | case9 number buffer short s best remainder hrun asked hover hshort filled after hfill ih =>
    exact ih

theorem answers_run {g : Grammar UInt8 α} (hg : g.Final) (leftover : Bytes)
    (template : Option Template) (s : Session) : Answers (r.run g leftover template s).1 := by
  rw [Reader.run, phase]
  split
  · split
    · rename_i hfill
      exact .error (isVerdict_of_fill hfill)
    · exact answers_attempt hg template 1 _ _ _
  · exact answers_attempt hg template 1 _ _ _

end Reader

namespace Http

theorem answers_readHeaders (r : Reader) (maxHeaders : Nat) (headers : Entries Text Text)
    (rest : Bytes) (s : Session) : Answers (readHeaders r maxHeaders headers rest s).1 := by
  fun_induction readHeaders r maxHeaders headers rest s with
  | case1 headers rest s failure after hrun =>
    have h := Reader.answers_run (r := r) final_headerEntry rest
      (some fun reason _ => .malformedHeader reason) s
    rw [hrun] at h
    exact .error (h failure rfl)
  | case2 => exact .ok _
  | case3 | case4 => exact .error rfl
  | case5 headers rest s name value leftover after hrun _ _ ih => exact ih

/-- The phases of a head answer one by one, and the first that fails does so for all. -/
theorem answers_readPhases (r : Reader) (maxHeaders : Nat) (leftover : Bytes) (s : Session) :
    Answers (readPhases r maxHeaders leftover s).1 := by
  unfold readPhases
  split
  · rename_i failure after hrun
    have h := Reader.answers_run (r := r) final_requestLine leftover
      (some fun reason _ => .malformedRequestLine reason) (s.record (.reading .requestLine))
    rw [hrun] at h
    exact .error (h failure rfl)
  · rename_i method target version leftover after hrun
    split
    · rename_i failure last hheaders
      have h := answers_readHeaders r maxHeaders [] leftover (after.record (.reading .headers))
      rw [hheaders] at h
      exact .error (h failure rfl)
    · rename_i headers leftover last hheaders
      split
      · rename_i failure stop hdivider
        have h := Reader.answers_run (r := r) final_divider leftover
          (some fun reason _ => .missingDivider reason) (last.record (.reading .divider))
        rw [hdivider] at h
        exact .error (h failure rfl)
      · exact .ok _

/-- **Reading a head from bytes answers**, under any limits. -/
theorem answers_parseRequestHead {settings : HeadSettings}
    (hbuffer : IsLimit settings.maxBufferSize) (hheaders : IsLimit settings.maxHeaders)
    (data : Bytes) : Answers (parseRequestHead settings data).1 := by
  obtain ⟨maxHeaders, hmax⟩ := exists_resolve hheaders Limits.maxHeaderCount
  obtain ⟨maxBuffer, hbuf⟩ := exists_resolve hbuffer Limits.maxBufferSize
  have hpos : 0 < Limits.defaultReadSize := by decide
  have hreader : Reader.ofSettings none settings.maxBufferSize =
      .ok { readSize := Limits.defaultReadSize, maxBufferSize := maxBuffer,
            readSize_pos := hpos } := by
    rw [Reader.ofSettings, Limits.resolve_none]
    dsimp only
    rw [dif_pos hpos, hbuf]
  rw [parseRequestHead, readRequestHead, hmax]
  dsimp only
  rw [hreader]
  exact answers_readPhases _ _ _ _

end Http

/-! ## All entry points -/

/-- **Every entry point answers**, and where its source is complete it never reports that
input is missing. No conversion is run where it is not defined. -/
theorem entries_answer {maxDepth maxSourceSize : Option Int} {settings : Http.HeadSettings}
    (hdepth : ∀ depth ∈ maxDepth, 1 ≤ depth) (hsize : IsLimit maxSourceSize)
    (hbuffer : IsLimit settings.maxBufferSize) (hheaders : IsLimit settings.maxHeaders)
    (source : Text) (data : Bytes) :
    (AnswersWhole (Json.parse source maxDepth maxSourceSize) ∧
        AnswersWhole (Json.parse data maxDepth maxSourceSize) ∧
        AnswersWhole (Uri.parseUri source maxSourceSize) ∧
        AnswersWhole (Uri.parseRequestTarget source maxSourceSize) ∧
        AnswersWhole (Uri.decodeComponent source maxSourceSize)) ∧
      (Answers (Http.parseRequestHead settings data).1 ∧
        ∀ head, (Http.parseRequestHead settings data).1 = .ok head →
          AnswersWhole (Uri.parseRequestTarget head.target none)) ∧
      (Uri.decOctetRead.run = Uri.decOctet.run ∧
        Json.ConversionsDefined CodePoint ∧ Json.ConversionsDefined UInt8 ∧
        (∀ c : Cursor CodePoint, c.countSpan = .ok c.toSpan) ∧
        ∀ c : Cursor UInt8, c.countSpan = .ok c.toSpan) := by
  have htarget (text : Text) {limit : Option Int} (h : IsLimit limit) :
      AnswersWhole (Uri.parseRequestTarget text limit) :=
    answersWhole_parseAll Uri.guarded_requestTarget text h
  refine ⟨⟨Json.answersWhole_parse hdepth hsize source, Json.answersWhole_parse hdepth hsize data,
      answersWhole_parseAll Uri.guarded_absoluteUri source hsize, htarget source hsize,
      answersWhole_parseAll Uri.guarded_anyComponent source hsize⟩,
    ⟨Http.answers_parseRequestHead hbuffer hheaders data, fun head _ => ?_⟩,
    Uri.run_decOctetRead, Json.conversionsDefined, Json.conversionsDefined,
    Cursor.countSpan_eq, Cursor.countSpan_eq⟩
  exact htarget head.target nofun

/-- With all limits set: one container in 20 elements, 40 bytes in a phase, two headers.
The text is an escape that is cut off, and the bytes are a head whose target has an
escape that is none. -/
theorem entries_answer_cut_off :
    (AnswersWhole (Json.parse (Text.ofString "\"\\u00") (some 1) (some 20)) ∧
        AnswersWhole (Json.parse (Utf8.encode "GET /%zz HTTP/1.1\r\n\r\n") (some 1) (some 20)) ∧
        AnswersWhole (Uri.parseUri "\"\\u00" (some 20)) ∧
        AnswersWhole (Uri.parseRequestTarget "\"\\u00" (some 20)) ∧
        AnswersWhole (Uri.decodeComponent "\"\\u00" (some 20))) ∧
      (Answers (Http.parseRequestHead { maxBufferSize := some 40, maxHeaders := some 2 }
          (Utf8.encode "GET /%zz HTTP/1.1\r\n\r\n")).1 ∧
        ∀ head, (Http.parseRequestHead { maxBufferSize := some 40, maxHeaders := some 2 }
            (Utf8.encode "GET /%zz HTTP/1.1\r\n\r\n")).1 = .ok head →
          AnswersWhole (Uri.parseRequestTarget head.target none)) ∧
      (Uri.decOctetRead.run = Uri.decOctet.run ∧
        Json.ConversionsDefined CodePoint ∧ Json.ConversionsDefined UInt8 ∧
        (∀ c : Cursor CodePoint, c.countSpan = .ok c.toSpan) ∧
        ∀ c : Cursor UInt8, c.countSpan = .ok c.toSpan) := by
  have hlimit (n : Nat) : IsLimit (some (n : Int)) := by
    rintro _ ⟨⟩
    exact Int.natCast_nonneg n
  exact entries_answer (by rintro _ ⟨⟩; decide) (hlimit 20) (hlimit 40) (hlimit 2)
    (Text.ofString "\"\\u00") (Utf8.encode "GET /%zz HTTP/1.1\r\n\r\n")

end StreamGrammar
