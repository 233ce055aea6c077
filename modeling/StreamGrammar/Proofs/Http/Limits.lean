import StreamGrammar.Proofs.Entries
import StreamGrammar.Proofs.Http.Reading
import StreamGrammar.Proofs.Stream.Limits

/-!
# Limits on a head only refuse

The number of headers is limited between two other things: a name that comes again is
refused before the headers are counted, and the header is put in after. A limit that is
reached therefore never hides a name that came again within it, and two readings under
different limits have put in the same headers for as long as both go on.

What the count says of a whole head does not follow from what it says of one line. A
header is counted before it is put in, so the loop compares a number that is one less
than what it will be, and it is the entries that must be shown to grow by one with each
line: a name that is put in is a new one.
-/

namespace StreamGrammar.Http

open Reader

variable {r r' : Reader} {maxHeaders maxHeaders' : Nat} {headers found : Entries Text Text}
  {rest leftover : Bytes} {s after : Session}

/-- What the tighter limit lets through the looser one does. -/
theorem not_full_of_tighter (h : Limits.Tighter maxHeaders maxHeaders') {count : Nat}
    (hroom : ¬(maxHeaders ≠ 0 ∧ maxHeaders ≤ count)) :
    ¬(maxHeaders' ≠ 0 ∧ maxHeaders' ≤ count) := by
  rintro ⟨hne, hfull⟩
  rcases h with hzero | ⟨hlimited, hle⟩
  · exact hne hzero
  · exact hroom ⟨hlimited, Nat.le_trans hle hfull⟩

/-! ## Reading under two limits -/

/-- **The loop over the header lines only refuses.** -/
theorem onlyRefuses_readHeaders (hr : r.Tighter r')
    (hlimit : Limits.Tighter maxHeaders maxHeaders') (headers : Entries Text Text)
    (rest : Bytes) (s : Session) :
    OnlyRefuses (readHeaders r maxHeaders headers rest s)
      (readHeaders r' maxHeaders' headers rest s) := by
  have hphase := fun rest s => onlyRefuses_run hr headerEntry rest
    (some fun reason _ => .malformedHeader reason) s
  fun_induction readHeaders r maxHeaders headers rest s with
  | case1 headers rest s failure after hrun =>
    have hrun' := hphase rest s
    rw [hrun] at hrun'
    generalize hloose : r'.run headerEntry rest _ s = loose at hrun'
    cases hrun' with
    | same =>
      rw [readHeaders_of_error hloose]
      exact .same _
    | refused hrefused => exact .refused hrefused after _
  | case2 headers rest s leftover after hrun =>
    rw [readHeaders_of_none ((hphase rest s).of_ok hrun)]
    exact .same _
  | case3 headers rest s name value leftover after hrun hdup =>
    rw [readHeaders_of_some ((hphase rest s).of_ok hrun), if_pos hdup]
    exact .same _
  | case4 headers rest s name value leftover after hrun hdup hfull => exact .refused rfl _ _
  | case5 headers rest s name value leftover after hrun hdup hroom ih =>
    rw [readHeaders_of_some ((hphase rest s).of_ok hrun), if_neg hdup,
      if_neg (not_full_of_tighter hlimit hroom)]
    exact ih

/-- **The phases of a head only refuse.** -/
theorem onlyRefuses_readPhases (hr : r.Tighter r')
    (hlimit : Limits.Tighter maxHeaders maxHeaders') (leftover : Bytes) (s : Session) :
    OnlyRefuses (readPhases r maxHeaders leftover s) (readPhases r' maxHeaders' leftover s) := by
  unfold readPhases
  have hline := onlyRefuses_run hr requestLine leftover
    (some fun reason _ => .malformedRequestLine reason) (s.record (.reading .requestLine))
  generalize r.run requestLine leftover _ _ = tight at hline ⊢
  generalize r'.run requestLine leftover _ _ = loose at hline ⊢
  cases hline with
  | refused hrefused => exact .refused hrefused _ _
  | same =>
    rcases tight with ⟨failure | ⟨⟨method, target, version⟩, rest⟩, s₁⟩
    · exact .same _
    have hheaders := onlyRefuses_readHeaders hr hlimit [] rest (s₁.record (.reading .headers))
    dsimp only
    generalize readHeaders r maxHeaders [] rest _ = tight at hheaders ⊢
    generalize readHeaders r' maxHeaders' [] rest _ = loose at hheaders ⊢
    cases hheaders with
    | refused hrefused => exact .refused hrefused _ _
    | same =>
      rcases tight with ⟨failure | ⟨headers, rest⟩, s₂⟩
      · exact .same _
      have hdivider := onlyRefuses_run hr divider rest
        (some fun reason _ => .missingDivider reason) (s₂.record (.reading .divider))
      dsimp only
      generalize r.run divider rest _ _ = tight at hdivider ⊢
      generalize r'.run divider rest _ _ = loose at hdivider ⊢
      cases hdivider with
      | refused hrefused => exact .refused hrefused _ _
      | same => exact .same _

/-! ## Counting headers -/

/-- A name that is put in is a new one, so there is one header more. -/
theorem length_put {name value : Text} (hnew : ¬(headers.get? name).isSome) :
    (headers.put name value).length = headers.length + 1 := by
  rw [Entries.put_of_not_mem (mt Entries.isSome_get?_iff.mpr hnew), List.length_append,
    List.length_singleton]

/-- The headers that were read already are among those that are found. -/
theorem length_le_of_readHeaders
    (h : readHeaders r maxHeaders headers rest s = (.ok (found, leftover), after)) :
    headers.length ≤ found.length := by
  fun_induction readHeaders r maxHeaders headers rest s with
  | case2 =>
    cases h
    exact Nat.le_refl _
  | case5 headers rest s name value _ _ hrun hdup hroom ih =>
    have hle := ih h
    rw [length_put hdup] at hle
    exact Nat.le_of_succ_le hle
  | _ => cases h

/-- **A limit holds of what is found under it.** -/
theorem length_le_limit (hlimited : maxHeaders ≠ 0) (hstart : headers.length ≤ maxHeaders)
    (h : readHeaders r maxHeaders headers rest s = (.ok (found, leftover), after)) :
    found.length ≤ maxHeaders := by
  fun_induction readHeaders r maxHeaders headers rest s with
  | case2 =>
    cases h
    exact hstart
  | case5 headers rest s name value _ _ hrun hdup hroom ih =>
    refine ih ?_ h
    rw [length_put hdup]
    exact Nat.lt_of_not_le fun hfull => hroom ⟨hlimited, hfull⟩
  | _ => cases h

/-- **Headers that are found without a limit are found under one that they keep.** -/
theorem readHeaders_of_length_le
    (h : readHeaders r 0 headers rest s = (.ok (found, leftover), after))
    (hfit : found.length ≤ maxHeaders) :
    readHeaders r maxHeaders headers rest s = (.ok (found, leftover), after) := by
  fun_induction readHeaders r 0 headers rest s with
  | case2 headers rest s _ _ hrun =>
    rw [readHeaders_of_none hrun]
    exact h
  | case5 headers rest s name value _ _ hrun hdup hroom ih =>
    have hle := length_le_of_readHeaders h
    rw [length_put hdup] at hle
    rw [readHeaders_of_some hrun, if_neg hdup, if_neg (fun hfull => by omega)]
    exact ih h
  | _ => cases h

/-! ## Reading a head -/

/-- Settings with both limits, zero for none. -/
def limitedTo (readSize : Option Int) (maxBufferSize maxHeaders : Nat) : HeadSettings :=
  { readSize, maxBufferSize := some maxBufferSize, maxHeaders := some maxHeaders }

variable {maxBufferSize maxBufferSize' : Nat}

/-- **Reading a head only refuses**, whatever the source does. -/
theorem onlyRefuses_readRequestHead (readSize : Option Int)
    (hbuffer : Limits.Tighter maxBufferSize maxBufferSize')
    (hheaders : Limits.Tighter maxHeaders maxHeaders') (leftover : Bytes) (s : Session) :
    OnlyRefuses (readRequestHead (limitedTo readSize maxBufferSize maxHeaders) leftover s)
      (readRequestHead (limitedTo readSize maxBufferSize' maxHeaders') leftover s) := by
  unfold readRequestHead limitedTo
  rw [Limits.resolve_natCast, Limits.resolve_natCast]
  rcases tighter_of_ofSettings readSize hbuffer with
    ⟨failure, htight, hloose⟩ | ⟨r, r', htight, hloose, hr⟩
  · simp only [htight, hloose]
    exact .same _
  · simp only [htight, hloose]
    exact onlyRefuses_readPhases hr hheaders leftover s

/-- What a head has for headers is what the loop has found. -/
theorem headers_of_readPhases {head : RequestHead}
    (h : readPhases r maxHeaders leftover s = (.ok head, after)) :
    ∃ rest s₁ leftover₂ s₂,
      (∀ limit, readHeaders r limit [] rest s₁ = (.ok (head.headers, leftover₂), s₂) →
        readPhases r limit leftover s = (.ok head, after)) ∧
      readHeaders r maxHeaders [] rest s₁ = (.ok (head.headers, leftover₂), s₂) := by
  unfold readPhases at h
  split at h
  · cases h
  rename_i hline
  split at h
  · cases h
  rename_i hheaders
  split at h
  · cases h
  rename_i hdivider
  cases h
  refine ⟨_, _, _, _, fun limit hlimit => ?_, hheaders⟩
  unfold readPhases
  simp only [hline, hlimit, hdivider]

/-- **The headers of a head keep the limit**, and a head that is read without one is read
under a limit that its headers keep. -/
theorem readPhases_limited_iff {head : RequestHead} (hlimited : maxHeaders ≠ 0)
    (h : readPhases r 0 leftover s = (.ok head, after)) :
    (∃ head' after', readPhases r maxHeaders leftover s = (.ok head', after')) ↔
      head.headers.length ≤ maxHeaders := by
  constructor
  · rintro ⟨head', after', hread⟩
    have hsame := (onlyRefuses_readPhases ⟨rfl, .refl _⟩ (.unlimited maxHeaders) leftover s).of_ok
      hread
    rw [h] at hsame
    cases hsame
    obtain ⟨_, _, _, _, _, hfound⟩ := headers_of_readPhases hread
    exact length_le_limit hlimited (Nat.zero_le _) hfound
  · intro hfit
    obtain ⟨_, _, _, _, hread, hfound⟩ := headers_of_readPhases h
    exact ⟨head, after, hread maxHeaders (readHeaders_of_length_le hfound hfit)⟩

/-- **Limits only refuse, and alter nothing.** Of two pairs of limits, the first at least
as tight as the second: a head that is read under the first is read under the second
too, after the same reads, and a failure under the second is the failure under the first,
unless the first fails by a limit. And a head that is read without a
limit on the headers is read under such a limit just if it has no more headers. -/
theorem limits_only_refuse (hbuffer : Limits.Tighter maxBufferSize maxBufferSize')
    (hheaders : Limits.Tighter maxHeaders maxHeaders') (readSize : Option Int)
    (leftover : Bytes) (s : Session) :
    (∀ head after,
        readRequestHead (limitedTo readSize maxBufferSize maxHeaders) leftover s =
            (.ok head, after) →
          readRequestHead (limitedTo readSize maxBufferSize' maxHeaders') leftover s =
            (.ok head, after)) ∧
      (∀ failure after,
        readRequestHead (limitedTo readSize maxBufferSize' maxHeaders') leftover s =
            (.error failure, after) →
          readRequestHead (limitedTo readSize maxBufferSize maxHeaders) leftover s =
              (.error failure, after) ∨
            ∃ refusal stop,
              readRequestHead (limitedTo readSize maxBufferSize maxHeaders) leftover s =
                (.error refusal, stop) ∧ refusal.kind = .limitExceeded) ∧
      ∀ head after, readRequestHead (limitedTo readSize maxBufferSize 0) leftover s =
          (.ok head, after) →
        ∀ limit, 0 < limit →
          ((∃ head' after', readRequestHead (limitedTo readSize maxBufferSize limit) leftover s =
              (.ok head', after')) ↔ head.headers.length ≤ limit) := by
  have honly := onlyRefuses_readRequestHead readSize hbuffer hheaders leftover s
  refine ⟨fun head after h => honly.of_ok h, fun failure after h => honly.of_error h,
    fun head after h limit hlimit => ?_⟩
  have hphases : ∃ r : Reader, ∀ limit : Nat,
      readRequestHead (limitedTo readSize maxBufferSize limit) leftover s =
        readPhases r limit leftover s := by
    unfold readRequestHead limitedTo at h ⊢
    simp only [Limits.resolve_natCast] at h ⊢
    split at h
    · cases h
    · exact ⟨_, fun _ => rfl⟩
  obtain ⟨r, hr⟩ := hphases
  rw [hr] at h ⊢
  exact readPhases_limited_iff (Nat.pos_iff_ne_zero.mp hlimit) h

/-- A head with two headers that arrives in two pieces. -/
def twoHeaders : Session :=
  .start [.chunk (Element.piece "GET / HTTP/1.1\r\nA: b\r\nC".toList),
    .chunk (Element.piece ": d\r\n\r\n".toList)]

/-- Such a head in which one name comes twice. -/
def twiceNamed : Session :=
  .start [.chunk (Element.piece "GET / HTTP/1.1\r\nA: b\r\nA".toList),
    .chunk (Element.piece ": d\r\n\r\n".toList)]

/-- How a reading ends: the kind of failure, or the number of headers. -/
def ending : Except Failure RequestHead × Session → Failure.Kind ⊕ Nat
  | (.error failure, _) => .inl failure.kind
  | (.ok head, _) => .inr head.headers.length

theorem head_of_ending {ended : Except Failure RequestHead × Session} {n : Nat}
    (h : ending ended = .inr n) :
    ∃ head after, ended = (.ok head, after) ∧ head.headers.length = n := by
  rcases ended with ⟨failure | head, after⟩
  · cases h
  · exact ⟨head, after, rfl, Sum.inr.inj h⟩

theorem failure_of_ending {ended : Except Failure RequestHead × Session} {kind : Failure.Kind}
    (h : ending ended = .inl kind) :
    ∃ failure after, ended = (.error failure, after) ∧ failure.kind = kind := by
  rcases ended with ⟨failure | head, after⟩
  · exact ⟨failure, after, rfl, Sum.inl.inj h⟩
  · cases h

/-- Two headers are read under limits that admit them and so without any, a name that
comes twice is refused without limits and so under them, and a limit of one header
refuses two. -/
theorem limits_only_refuse_two_headers :
    Limits.Tighter 64 0 ∧ Limits.Tighter 2 0 ∧
      (∃ head after,
        readRequestHead (limitedTo (some 24) 64 2) [] twoHeaders = (.ok head, after) ∧
          readRequestHead (limitedTo (some 24) 0 0) [] twoHeaders = (.ok head, after)) ∧
      (∃ failure after,
        readRequestHead (limitedTo (some 24) 0 0) [] twiceNamed = (.error failure, after) ∧
          failure.kind = .duplicateHeader ∧
          (readRequestHead (limitedTo (some 24) 64 2) [] twiceNamed = (.error failure, after) ∨
            ∃ refusal stop,
              readRequestHead (limitedTo (some 24) 64 2) [] twiceNamed = (.error refusal, stop) ∧
                refusal.kind = .limitExceeded)) ∧
      ¬∃ head after,
        readRequestHead (limitedTo (some 24) 64 1) [] twoHeaders = (.ok head, after) := by
  have hbuffer : Limits.Tighter 64 0 := by decide
  have hheaders : Limits.Tighter 2 0 := by decide
  have hsame : ending (readRequestHead (limitedTo (some 24) 64 2) [] twoHeaders) = .inr 2 := by
    decide +kernel
  have hcount : ending (readRequestHead (limitedTo (some 24) 64 0) [] twoHeaders) = .inr 2 := by
    decide +kernel
  have hfail : ending (readRequestHead (limitedTo (some 24) 0 0) [] twiceNamed) =
      .inl .duplicateHeader := by
    decide +kernel
  have hread := limits_only_refuse hbuffer hheaders (some 24) [] twoHeaders
  have hrefuse := limits_only_refuse hbuffer hheaders (some 24) [] twiceNamed
  refine ⟨hbuffer, hheaders, ?_, ?_, ?_⟩
  · obtain ⟨head, after, h, -⟩ := head_of_ending hsame
    exact ⟨head, after, h, hread.1 head after h⟩
  · obtain ⟨failure, after, h, hkind⟩ := failure_of_ending hfail
    exact ⟨failure, after, h, hkind, hrefuse.2.1 failure after h⟩
  · obtain ⟨head, after, h, hlength⟩ := head_of_ending hcount
    rw [hread.2.2 head after h 1 Nat.one_pos, hlength]
    decide

end StreamGrammar.Http
