import StreamGrammar.Proofs.Stream.Phase

/-!
# Limits only refuse

A limit on the buffer is looked at in three places: after a read, where the parser is
undecided, and where it has matched. In each of them the only thing it can do is to end
the phase. What has been read, what is buffered and what the parser makes of it never
depend on it.

So two runs under different limits go the same way, step by step, for as long as the
tighter limit does not refuse, and `OnlyRefuses` is the relation that they stay in: the
tighter run ends as the looser one does, in the same session and hence after the same
reads, or by its limit. It holds in this direction alone. The looser run is not
determined by a refusal, and may itself end by its limit, though later.
-/

namespace StreamGrammar

variable {α β : Type}

/-- **A limit that is at least as tight as another**, where zero is no limit. -/
def Limits.Tighter (limit limit' : Nat) : Prop := limit' = 0 ∨ (limit ≠ 0 ∧ limit ≤ limit')

instance (limit limit' : Nat) : Decidable (Limits.Tighter limit limit') :=
  inferInstanceAs (Decidable (_ ∨ _))

theorem Limits.Tighter.refl (limit : Nat) : Limits.Tighter limit limit := by
  by_cases h : limit = 0
  · exact .inl h
  · exact .inr ⟨h, Nat.le_refl limit⟩

/-- No limit is the loosest. -/
theorem Limits.Tighter.unlimited (limit : Nat) : Limits.Tighter limit 0 := .inl rfl

/-- **How a run under tighter limits may end**, by how it ends under looser ones. -/
inductive OnlyRefuses : Except Failure α × Session → Except Failure α × Session → Prop
  /-- As it does under the looser limits, after the same reads. -/
  | same (ended : Except Failure α × Session) : OnlyRefuses ended ended
  /-- By a limit. -/
  | refused {failure : Failure} (h : failure.kind = .limitExceeded) (after : Session)
      (loose : Except Failure α × Session) : OnlyRefuses (.error failure, after) loose

namespace OnlyRefuses

variable {tight loose : Except Failure α × Session}

/-- A value under the tighter limits is the value under the looser ones. -/
theorem of_ok (h : OnlyRefuses tight loose) {value : α} {after : Session}
    (htight : tight = (.ok value, after)) : loose = (.ok value, after) := by
  cases h with
  | same => exact htight
  | refused => cases htight

/-- A failure under the looser limits is one under the tighter ones, if these do not
refuse. -/
theorem of_error (h : OnlyRefuses tight loose) {failure : Failure} {after : Session}
    (hloose : loose = (.error failure, after)) :
    tight = (.error failure, after) ∨
      ∃ refusal stop, tight = (.error refusal, stop) ∧ refusal.kind = .limitExceeded := by
  cases h with
  | same => exact .inl hloose
  | refused h stop => exact .inr ⟨_, stop, rfl, h⟩

end OnlyRefuses

namespace Reader

/-- **Two readers that ask for as many bytes in one read**, the first under the tighter
limit. -/
structure Tighter (r r' : Reader) : Prop where
  /-- The reads are the same. -/
  readSize : r.readSize = r'.readSize
  /-- The first may hold no more. -/
  buffer : Limits.Tighter r.maxBufferSize r'.maxBufferSize

variable {r r' : Reader}

/-- What the tighter reader may hold the looser one may. -/
theorem oversized?_of_tighter (h : r.Tighter r') {size : Nat} (hsize : r.oversized? size = none) :
    r'.oversized? size = none := by
  have hbuffer := h.buffer
  unfold oversized? at hsize ⊢
  split at hsize
  · cases hsize
  · rename_i hfits
    refine if_neg fun hover => hfits ?_
    rcases hbuffer with hzero | ⟨hne, hle⟩
    · exact absurd hzero hover.1
    · exact ⟨hne, by omega⟩

theorem onlyRefuses_fill (h : r.Tighter r') (buffer : Bytes) (s : Session) :
    OnlyRefuses (r.fill buffer s) (r'.fill buffer s) := by
  unfold fill
  rw [h.readSize]
  rcases s.source.read r'.readSize with ⟨error | chunk, later⟩
  · exact .same _
  · dsimp only
    cases hover : r.oversized? (buffer ++ chunk).length with
    | some failure => exact .refused (kind_of_oversized? hover) _ _
    | none =>
      rw [oversized?_of_tighter h hover]
      exact .same _

variable {p : Parser UInt8 α} {template : Option Template}

/-- How a phase goes on after an attempt that did not decide. -/
theorem attempt_of_truncated {number : Nat} {buffer : Bytes} {s : Session} {best : Option α}
    {remainder : Cursor UInt8} (hrun : p (.streaming buffer) = .truncated best remainder)
    (hsize : r.oversized? buffer.length = none) :
    r.attempt p template number buffer false s =
      match r.fill buffer (s.record (.attempt number buffer.length .truncated)) with
      | (.error failure, after) => (.error failure, after)
      | (.ok filled, after) =>
        r.attempt p template (number + 1) filled.buffer filled.short after := by
  rw [attempt]
  simp only [hrun, hsize]
  rw [dif_neg (by simp)]
  split <;> rename_i hfill <;> rw [hfill]

/-- **The loop of a phase only refuses**: a read brings the same bytes under both
limits, and only the tighter one can be exceeded first. -/
theorem onlyRefuses_attempt (h : r.Tighter r') (number : Nat) (buffer : Bytes) (short : Bool)
    (s : Session) :
    OnlyRefuses (r.attempt p template number buffer short s)
      (r'.attempt p template number buffer short s) := by
  fun_induction r.attempt p template number buffer short s with
  | case1 number buffer short s fault hrun =>
    rw [attempt, hrun]
    exact .same _
  | case2 number buffer short s value remainder hrun _ failure hover =>
    exact .refused (kind_of_oversized? hover) _ _
  | case3 number buffer short s value remainder hrun _ hover =>
    rw [attempt, hrun]
    simp only [oversized?_of_tighter h hover]
    exact .same _
  | case4 number buffer short s reason hrun =>
    rw [attempt, hrun]
    exact .same _
  | case5 number buffer short s reason hrun =>
    rw [attempt, hrun]
    exact .same _
  | case6 number buffer short s best remainder hrun asked failure hover =>
    exact .refused (kind_of_oversized? hover) _ _
  | case7 number buffer s best remainder hrun asked hover =>
    rw [attempt, hrun]
    simp only [oversized?_of_tighter h hover]
    exact .same _
  | case8 number buffer short s best remainder hrun asked hover hshort failure after hfill =>
    obtain rfl := Bool.eq_false_iff.mpr hshort
    rw [attempt_of_truncated hrun (oversized?_of_tighter h hover)]
    have hread := onlyRefuses_fill h buffer asked
    rw [hfill] at hread
    generalize r'.fill buffer asked = loose at hread ⊢
    cases hread with
    | same => exact .same _
    | refused hlimit => exact .refused hlimit after _
  | case9 number buffer short s best remainder hrun asked hover hshort filled after hfill ih =>
    obtain rfl := Bool.eq_false_iff.mpr hshort
    rw [attempt_of_truncated hrun (oversized?_of_tighter h hover)]
    rw [(onlyRefuses_fill h buffer asked).of_ok hfill]
    exact ih

/-- **A phase only refuses.** -/
theorem onlyRefuses_phase (h : r.Tighter r') (leftover : Bytes) (s : Session) :
    OnlyRefuses (r.phase p leftover template s) (r'.phase p leftover template s) := by
  unfold phase
  split
  · have hread := onlyRefuses_fill h leftover s
    generalize r.fill leftover s = tight at hread ⊢
    generalize r'.fill leftover s = loose at hread ⊢
    cases hread with
    | same =>
      rcases tight with ⟨failure | filled, after⟩
      · exact .same _
      · exact onlyRefuses_attempt h 1 filled.buffer filled.short after
    | refused hlimit => exact .refused hlimit _ _
  · exact onlyRefuses_attempt h 1 leftover false s

theorem onlyRefuses_run (h : r.Tighter r') (g : Grammar UInt8 α) (leftover : Bytes)
    (template : Option Template) (s : Session) :
    OnlyRefuses (r.run g leftover template s) (r'.run g leftover template s) :=
  onlyRefuses_phase h leftover s

/-- **Readers made from settings that differ in the limit alone** exist together, and ask
for as many bytes in one read. -/
theorem tighter_of_ofSettings (readSize : Option Int) {limit limit' : Nat}
    (h : Limits.Tighter limit limit') :
    (∃ failure, ofSettings readSize (some limit) = .error failure ∧
        ofSettings readSize (some limit') = .error failure) ∨
      ∃ r r' : Reader, ofSettings readSize (some limit) = .ok r ∧
        ofSettings readSize (some limit') = .ok r' ∧ r.Tighter r' := by
  unfold ofSettings
  rw [Limits.resolve_natCast, Limits.resolve_natCast]
  cases Limits.resolve readSize Limits.defaultReadSize with
  | error failure => exact .inl ⟨failure, rfl, rfl⟩
  | ok size =>
    dsimp only
    split
    · exact .inr ⟨_, _, rfl, rfl, rfl, h⟩
    · exact .inl ⟨_, rfl, rfl⟩

end Reader

end StreamGrammar
