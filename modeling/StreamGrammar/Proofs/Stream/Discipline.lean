import Mathlib.Data.List.Permutation
import StreamGrammar.Http.Head
import StreamGrammar.Proofs.Grammar.Lookahead
import StreamGrammar.Proofs.Stream.Limits

/-!
# When a phase reads

A read may block, so a phase should not make one that it can do without, and against a
peer that never stops sending it should come to an end all the same. Neither can be said
of the value that a phase returns. It is said of the record that the phase keeps: each
attempt to parse and each read is on it, in order, and the reads on it are those that were
made on the source (`Source.Yields`).

The loop of a phase goes round between two points, one where it is about to read and one
where it is about to parse. `Reader.Unfolds` is what it can do at either, and the loop
does nothing else (`Reader.unfolds_phase`). Everything here is an induction on that
relation, and none of it looks at the loop again.

What bounds the reads is not that the source ends. A read that is not the last of a phase
is full, so it adds a fixed number of bytes, and what is buffered when the next read is
made is within the limit. A bound that does not mention the source says little of a source
that never ends, unless what comes after the last read does not matter. It does not
(`Reader.phase_followedBy`): as long as there is something to read, a phase on a source goes
as on any source that goes on after it.
-/

namespace StreamGrammar

variable {α ε : Type}

/-! ## Reads on record -/

namespace Event

/-- What a read on record brought: so many bytes, or a failure. -/
def read? : Event → Option (Except ReadError Nat)
  | read size _ => some (.ok size)
  | readFailed error => some (.error error)
  | _ => none

/-- **The reads on a record**, by what they brought. -/
def reads (record : List Event) : List (Except ReadError Nat) := record.filterMap read?

/-- How many bytes a read brought. -/
def sizeOf : Except ReadError Nat → Nat
  | .ok size => size
  | .error _ => 0

/-- How many bytes reads brought together. -/
def total (answers : List (Except ReadError Nat)) : Nat :=
  answers.foldr (fun answer rest => sizeOf answer + rest) 0

/-- How many bytes came in by the reads on a record. -/
def received (record : List Event) : Nat := total (reads record)

variable {record record' : List Event}

@[simp] theorem reads_nil : reads [] = [] := rfl

@[simp] theorem reads_append : reads (record ++ record') = reads record ++ reads record' :=
  List.filterMap_append

@[simp] theorem reads_attempt {number size : Nat} {kind : OutcomeKind} :
    reads (.attempt number size kind :: record) = reads record := rfl

@[simp] theorem reads_read {size total : Nat} :
    reads (.read size total :: record) = .ok size :: reads record := rfl

@[simp] theorem reads_readFailed {error : ReadError} :
    reads (.readFailed error :: record) = .error error :: reads record := rfl

/-- Where there are no reads, no event is one. -/
theorem read?_eq_none (h : reads record = []) {earlier later : List Event} {e : Event}
    (hsplit : record = earlier ++ e :: later) : e.read? = none :=
  List.filterMap_eq_nil_iff.mp h e (by simp [hsplit])

/-- **What holds of each event on a record**, with what is on record before and after it. -/
theorem forall_split_cons {e : Event} {P : List Event → Event → List Event → Prop} :
    (∀ earlier e' later, e :: record = earlier ++ e' :: later → P earlier e' later) ↔
      P [] e record ∧
        ∀ earlier e' later, record = earlier ++ e' :: later → P (e :: earlier) e' later := by
  constructor
  · intro h
    exact ⟨h [] e record rfl, fun earlier e' later heq => h (e :: earlier) e' later (heq ▸ rfl)⟩
  · rintro ⟨hfirst, hothers⟩ earlier e' later heq
    rcases List.cons_eq_append_iff.mp heq with ⟨rfl, hrest⟩ | ⟨earlier, rfl, hrest⟩
    · cases hrest
      exact hfirst
    · exact hothers earlier e' later hrest

theorem forall_split_nil {P : List Event → Event → List Event → Prop} :
    ∀ earlier e later, [] = earlier ++ e :: later → P earlier e later := by
  intro earlier e later h
  simp at h

@[simp] theorem received_nil : received [] = 0 := rfl

@[simp] theorem received_attempt {number size : Nat} {kind : OutcomeKind} :
    received (.attempt number size kind :: record) = received record := rfl

@[simp] theorem received_read {size total : Nat} :
    received (.read size total :: record) = size + received record := rfl

end Event

namespace Source

/-- **Reads in a row from a source**, by what each of them brings. -/
inductive Yields (n : Nat) : Source → List (Except ReadError Nat) → Source → Prop
  /-- No read takes nothing. -/
  | nil (s : Source) : Yields n s [] s
  /-- A read brings bytes. -/
  | bytes {s later last : Source} {chunk : Bytes} {answers : List (Except ReadError Nat)}
      (h : s.read n = (.ok chunk, later)) (hmore : Yields n later answers last) :
      Yields n s (.ok chunk.length :: answers) last
  /-- A read fails. -/
  | failure {s later last : Source} {error : ReadError} {answers : List (Except ReadError Nat)}
      (h : s.read n = (.error error, later)) (hmore : Yields n later answers last) :
      Yields n s (.error error :: answers) last

variable {n : Nat} {s middle last : Source} {answers answers' : List (Except ReadError Nat)}

theorem Yields.trans (h : Yields n s answers middle) (h' : Yields n middle answers' last) :
    Yields n s (answers ++ answers') last := by
  induction h with
  | nil => exact h'
  | bytes hread _ ih => exact .bytes hread (ih h')
  | failure hread _ ih => exact .failure hread (ih h')

/-- Reads bring the bytes that come first. -/
theorem Yields.bytes_eq (h : Yields n s answers last) :
    ∃ read, s.bytes = read ++ last.bytes ∧ read.length = Event.total answers := by
  induction h with
  | nil => exact ⟨[], rfl, rfl⟩
  | @bytes s later last chunk answers hread _ ih =>
    obtain ⟨read, hbytes, hlength⟩ := ih
    refine ⟨chunk ++ read, ?_, ?_⟩
    · rw [bytes_of_read hread, hbytes, List.append_assoc]
    · rw [List.length_append, hlength]
      rfl
  | failure hread _ ih =>
    obtain ⟨read, hbytes, hlength⟩ := ih
    refine ⟨read, (of_read_error hread).1.trans hbytes, ?_⟩
    rw [hlength]
    exact (Nat.zero_add _).symm

/-- What is to come later does not matter for a read. -/
theorem read_append (n : Nat) (hne : s ≠ []) (more : Source) :
    (s ++ more).read n = ((s.read n).1, (s.read n).2 ++ more) := by
  match s, hne with
  | .failure error :: later, _ => rfl
  | .chunk bytes :: later, _ =>
    simp only [List.cons_append, read]
    split <;> rfl

/-- A read takes one arrival off a source at most. -/
theorem length_le_read (n : Nat) (s : Source) : s.length ≤ (s.read n).2.length + 1 := by
  match s with
  | [] => exact Nat.zero_le _
  | .failure error :: later => exact Nat.le_refl _
  | .chunk bytes :: later =>
    show later.length + 1 ≤ _
    simp only [read]
    split
    · exact Nat.le_refl _
    · exact Nat.le_succ _

end Source

namespace Session

/-- **What a session has on record beyond another one.** -/
def Adds (s after : Session) (record : List Event) : Prop :=
  after.events.toList = s.events.toList ++ record

variable {s middle after : Session} {record record' : List Event}

theorem adds_refl (s : Session) : s.Adds s [] := (List.append_nil _).symm

theorem adds_record (s : Session) (e : Event) : s.Adds (s.record e) [e] := Array.toList_push ..

theorem Adds.trans (h : s.Adds middle record) (h' : middle.Adds after record') :
    s.Adds after (record ++ record') := by
  rw [Adds, h', h, List.append_assoc]

/-- How many reads are on record. -/
def readCount (s : Session) : Nat := (Event.reads s.events.toList).length

theorem Adds.readCount_eq (h : s.Adds after record) :
    after.readCount = s.readCount + (Event.reads record).length := by
  rw [readCount, h, Event.reads_append, List.length_append, readCount]

/-- The session if more is to come after all that is to come in it. -/
def followedBy (s : Session) (more : Source) : Session := { s with source := s.source ++ more }

end Session

/-- **A parser whose remainders lie within the source it is given.** -/
def Parser.StaysWithin (p : Parser ε α) : Prop :=
  ∀ (source : List ε) (value : α) (remainder : Cursor ε),
    p (.streaming source) = .matched value remainder →
      remainder.source = source.toArray ∧ remainder.pos ≤ source.length

theorem Grammar.staysWithin (g : Grammar UInt8 α) : Parser.StaysWithin g.run := by
  intro source value remainder hrun
  have hreaches := (Grammar.looksAhead g).reaches (Cursor.growing_streaming source) hrun
  have hwithin := hreaches.within
  rw [Cursor.Within, hreaches.source_eq] at hwithin
  exact ⟨hreaches.source_eq, hwithin⟩

namespace Reader

/-- So many bytes are within the limit of a phase, if there is one. -/
def Fits (r : Reader) (size : Nat) : Prop := r.maxBufferSize ≠ 0 → size ≤ r.maxBufferSize

variable {r : Reader} {p : Parser UInt8 α} {template : Option Template}

theorem fits_of_oversized? {size : Nat} (h : r.oversized? size = none) : r.Fits size := by
  intro hlimited
  unfold oversized? at h
  split at h
  · cases h
  · rename_i hfits
    exact Nat.le_of_not_lt fun hlt => hfits ⟨hlimited, hlt⟩

/-- **The parser wants more than these bytes**: the last thing on record is that it was
undecided on all of them, and they are within the limit. -/
def WantsMore (r : Reader) (p : Parser UInt8 α) (held : Bytes) (record : List Event) : Prop :=
  (∃ number, record.getLast? = some (.attempt number held.length .truncated)) ∧
    (∃ best remainder, p (.streaming held) = .truncated best remainder) ∧ r.Fits held.length

theorem WantsMore.cons {held : Bytes} {record : List Event} (h : r.WantsMore p held record)
    (e : Event) : r.WantsMore p held (e :: record) := by
  obtain ⟨⟨number, hlast⟩, hmore⟩ := h
  refine ⟨⟨number, ?_⟩, hmore⟩
  rw [List.getLast?_cons, hlast]
  rfl

/-! ## The discipline -/

/-- **Reads are made with discipline**, in a phase that starts from what was left over,
keeps this record, ends so and leaves this source. -/
structure Disciplined (r : Reader) (p : Parser UInt8 α) (leftover : Bytes) (source : Source)
    (record : List Event) (ended : Except Failure (Phase α)) (after : Source) : Prop where
  /-- The reads on record are those that were made, and nothing else was taken off the
  source. -/
  performed : source.Yields r.readSize (Event.reads record) after
  /-- A read is made at the start if nothing was left over, and else only right after the
  parser was undecided on all bytes buffered so far, which are within the limit. -/
  prompted : ∀ earlier e later, record = earlier ++ e :: later → e.read? ≠ none →
    (earlier = [] ∧ leftover = []) ∨
      r.WantsMore p (leftover ++ source.bytes.take (Event.received earlier)) earlier
  /-- A short read is the last one. -/
  short_last : ∀ earlier e later, record = earlier ++ e :: later →
    ∀ size < r.readSize, e.read? = some (.ok size) → Event.reads later = []
  /-- Input is found incomplete only after a short read. -/
  incomplete : ∀ failure, ended = .error failure → failure.kind = .incomplete →
    ∃ size < r.readSize, .ok size ∈ Event.reads record
  /-- A phase fails for a read just if a read has failed. -/
  failed_iff : (∃ failure, ended = .error failure ∧ failure.kind = .sourceRead) ↔
    ∃ error, .error error ∈ Event.reads record
  /-- A phase that returns has matched what was left over and what it read: the match has
  consumed the beginning of that, and the rest is left over. If it has read, all of it is
  within the limit. -/
  returned : ∀ phase, ended = .ok phase → ∃ read remainder consumed,
    source.bytes = read ++ after.bytes ∧ read.length = Event.received record ∧
      p (.streaming (leftover ++ read)) = .matched phase.value remainder ∧
      leftover ++ read = consumed ++ phase.leftover ∧ consumed.length = remainder.pos ∧
      (Event.reads record ≠ [] → r.Fits (leftover ++ read).length)
  /-- Under a limit there are so many reads at most. -/
  bounded : r.maxBufferSize ≠ 0 →
    (Event.reads record).length ≤ r.maxBufferSize / r.readSize + 1

/-! ## How a phase unfolds -/

/-- The points between which the loop of a phase goes round. -/
inductive Point where
  /-- It is about to read. -/
  | reading
  /-- It is about to parse, perhaps after a short read. -/
  | parsing (short : Bool)

/-- **How a phase goes on from a point**, with these bytes buffered: what it puts on record,
how it ends, and what it leaves of the source. -/
inductive Unfolds (r : Reader) (p : Parser UInt8 α) : Point → Bytes → Source → List Event →
    Except Failure (Phase α) → Source → Prop
  /-- The parser matches. -/
  | matched {short : Bool} {held : Bytes} {source : Source} {value : α}
      {remainder : Cursor UInt8} (number : Nat)
      (h : p (.streaming held) = .matched value remainder) :
      Unfolds r p (.parsing short) held source [.attempt number held.length .matched]
        (.ok { value, leftover := remainder.rest }) source
  /-- The parser is undecided, and the last read was short. -/
  | starved {held : Bytes} {source : Source} (number : Nat) (notice : Notice) (reason : Text) :
      Unfolds r p (.parsing true) held source
        [.attempt number held.length .truncated, .exhausted held.length]
        (.error (.incomplete notice reason false)) source
  /-- Without another read the phase fails, for another reason. -/
  | refused {short : Bool} {held : Bytes} {source : Source} {record : List Event}
      {failure : Failure} (hquiet : Event.reads record = [])
      (hkind : failure.kind ≠ .incomplete ∧ failure.kind ≠ .sourceRead) :
      Unfolds r p (.parsing short) held source record (.error failure) source
  /-- The parser is undecided, and the phase goes on to read. -/
  | undecided {held : Bytes} {source after : Source} {best : Option α}
      {remainder : Cursor UInt8} {record : List Event} {ended : Except Failure (Phase α)}
      (number : Nat) (h : p (.streaming held) = .truncated best remainder)
      (hfits : r.Fits held.length) (hmore : Unfolds r p .reading held source record ended after) :
      Unfolds r p (.parsing false) held source
        (.attempt number held.length .truncated :: record) ended after
  /-- A read fails. -/
  | failed {held : Bytes} {source later : Source} {error : ReadError} (notice : Notice)
      (h : source.read r.readSize = (.error error, later)) :
      Unfolds r p .reading held source [.readFailed error] (.error (.sourceRead notice)) later
  /-- A read brings too much. -/
  | overflowed {held chunk : Bytes} {source later : Source} {failure : Failure}
      (h : source.read r.readSize = (.ok chunk, later)) (hkind : failure.kind = .limitExceeded) :
      Unfolds r p .reading held source [.read chunk.length (held ++ chunk).length]
        (.error failure) later
  /-- A read brings bytes, and the phase goes on to parse. -/
  | received {held chunk : Bytes} {source later after : Source} {record : List Event}
      {ended : Except Failure (Phase α)} (h : source.read r.readSize = (.ok chunk, later))
      (hfits : r.Fits (held ++ chunk).length)
      (hmore : Unfolds r p (.parsing (chunk.length < r.readSize)) (held ++ chunk) later record
        ended after) :
      Unfolds r p .reading held source (.read chunk.length (held ++ chunk).length :: record)
        ended after

variable {held leftover : Bytes} {short : Bool} {source later : Source} {record : List Event}
  {s mid after : Session} {ended : Except Failure (Phase α)}

theorem unfolds_of_fill_error (p : Parser UInt8 α) {failure : Failure}
    (h : r.fill held s = (.error failure, after)) :
    ∃ record, s.Adds after record ∧
      Unfolds r p .reading held s.source record (.error failure) after.source := by
  unfold fill at h
  split at h
  · rename_i error later hread
    cases h
    exact ⟨_, Session.adds_record _ _, .failed _ hread⟩
  · rename_i chunk later hread
    dsimp only at h
    split at h
    · rename_i hover
      cases h
      exact ⟨_, Session.adds_record _ _, .overflowed hread (kind_of_oversized? hover)⟩
    · cases h

theorem unfolds_of_fill_ok {filled : Filled} (h : r.fill held s = (.ok filled, mid))
    (hmore : ∃ record, mid.Adds after record ∧
      Unfolds r p (.parsing filled.short) filled.buffer mid.source record ended after.source) :
    ∃ record, s.Adds after record ∧
      Unfolds r p .reading held s.source record ended after.source := by
  obtain ⟨record, hadds, hmore⟩ := hmore
  unfold fill at h
  split at h
  · cases h
  · rename_i chunk later hread
    dsimp only at h
    split at h
    · cases h
    · rename_i hfits
      cases h
      exact ⟨_, (Session.adds_record _ _).trans hadds,
        .received hread (fits_of_oversized? hfits) hmore⟩

/-- **The loop of a phase unfolds**, and does nothing else. -/
theorem unfolds_attempt {number : Nat}
    (h : r.attempt p template number held short s = (ended, after)) :
    ∃ record, s.Adds after record ∧
      Unfolds r p (.parsing short) held s.source record ended after.source := by
  fun_induction r.attempt p template number held short s with
  | case1 number held short s fault hrun =>
    cases h
    exact ⟨[], Session.adds_refl _, .refused rfl (by simp [Failure.kind])⟩
  | case2 number held short s value remainder hrun asked failure hover
  | case6 number held short s best remainder hrun asked failure hover =>
    obtain ⟨rfl, rfl⟩ := Prod.mk.inj h
    have hkind := kind_of_oversized? hover
    exact ⟨_, Session.adds_record _ _, .refused rfl (by simp [hkind])⟩
  | case3 number held short s value remainder hrun asked hfits =>
    obtain ⟨rfl, rfl⟩ := Prod.mk.inj h
    exact ⟨_, Session.adds_record _ _, .matched number hrun⟩
  | case4 number held short s reason hrun | case5 number held short s reason hrun =>
    obtain ⟨rfl, rfl⟩ := Prod.mk.inj h
    exact ⟨_, (Session.adds_record _ _).trans (Session.adds_record _ _),
      .refused rfl (by simp [Failure.kind])⟩
  | case7 number held s best remainder hrun asked hfits =>
    obtain ⟨rfl, rfl⟩ := Prod.mk.inj h
    exact ⟨_, (Session.adds_record _ _).trans (Session.adds_record _ _), .starved number _ _⟩
  | case8 number held short s best remainder hrun asked hfits hshort failure mid hfill =>
    obtain ⟨rfl, rfl⟩ := Prod.mk.inj h
    obtain rfl := Bool.eq_false_iff.mpr hshort
    obtain ⟨record, hadds, hreads⟩ := unfolds_of_fill_error p hfill
    exact ⟨_, (Session.adds_record _ _).trans hadds,
      .undecided number hrun (fits_of_oversized? hfits) hreads⟩
  | case9 number held short s best remainder hrun asked hfits hshort filled mid hfill ih =>
    obtain rfl := Bool.eq_false_iff.mpr hshort
    obtain ⟨record, hadds, hreads⟩ := unfolds_of_fill_ok hfill (ih h)
    exact ⟨_, (Session.adds_record _ _).trans hadds,
      .undecided number hrun (fits_of_oversized? hfits) hreads⟩

/-- Where a phase starts: it reads at once only if nothing was left over. -/
def startOf (leftover : Bytes) : Point := if leftover.isEmpty then .reading else .parsing false

/-- **A phase unfolds from its start.** -/
theorem unfolds_phase (h : r.phase p leftover template s = (ended, after)) :
    ∃ record, s.Adds after record ∧
      Unfolds r p (startOf leftover) leftover s.source record ended after.source := by
  unfold phase at h
  unfold startOf
  split at h
  · rename_i hempty
    rw [if_pos hempty]
    split at h
    · rename_i hfill
      obtain ⟨rfl, rfl⟩ := Prod.mk.inj h
      exact unfolds_of_fill_error p hfill
    · rename_i hfill
      exact unfolds_of_fill_ok hfill (unfolds_attempt h)
  · rename_i hne
    rw [if_neg hne]
    exact unfolds_attempt h

/-! ## What all of it has in common -/

namespace Unfolds

variable {point : Point} {after : Source}

theorem yields (h : Unfolds r p point held source record ended after) :
    source.Yields r.readSize (Event.reads record) after := by
  induction h with
  | refused hquiet =>
    rw [hquiet]
    exact .nil _
  | undecided _ _ _ _ ih => exact ih
  | failed _ hread => exact .failure hread (.nil _)
  | overflowed hread => exact .bytes hread (.nil _)
  | received hread _ _ ih => exact .bytes hread ih
  | _ => exact .nil _

/-- After a short read nothing is read. -/
theorem reads_eq_nil (h : Unfolds r p (.parsing true) held source record ended after) :
    Event.reads record = [] := by
  cases h with
  | refused hquiet => exact hquiet
  | _ => rfl

theorem short_last (h : Unfolds r p point held source record ended after) :
    ∀ earlier e later, record = earlier ++ e :: later →
      ∀ size < r.readSize, e.read? = some (.ok size) → Event.reads later = [] := by
  induction h with
  | matched =>
    exact Event.forall_split_cons.mpr ⟨fun _ _ _ => rfl, Event.forall_split_nil⟩
  | starved =>
    exact Event.forall_split_cons.mpr ⟨fun _ _ _ => rfl,
      Event.forall_split_cons.mpr ⟨fun _ _ _ => rfl, Event.forall_split_nil⟩⟩
  | refused hquiet =>
    intro earlier e later heq size _ he
    rw [Event.read?_eq_none hquiet heq] at he
    cases he
  | undecided number _ _ _ ih =>
    exact Event.forall_split_cons.mpr ⟨nofun, ih⟩
  | failed | overflowed =>
    exact Event.forall_split_cons.mpr ⟨fun _ _ _ => rfl, Event.forall_split_nil⟩
  | received hread _ hmore ih =>
    refine Event.forall_split_cons.mpr ⟨fun size hsize he => ?_, ih⟩
    cases he
    rw [decide_eq_true hsize] at hmore
    exact hmore.reads_eq_nil

/-- **Each read is made at the start or right after the parser was undecided.** -/
theorem prompted (h : Unfolds r p point held source record ended after) :
    ∀ earlier e later, record = earlier ++ e :: later → e.read? ≠ none →
      (earlier = [] ∧ point = .reading) ∨
        r.WantsMore p (held ++ source.bytes.take (Event.received earlier)) earlier := by
  induction h with
  | matched => exact Event.forall_split_cons.mpr ⟨nofun, Event.forall_split_nil⟩
  | starved =>
    exact Event.forall_split_cons.mpr ⟨nofun,
      Event.forall_split_cons.mpr ⟨nofun, Event.forall_split_nil⟩⟩
  | refused hquiet =>
    intro earlier e later heq he
    exact absurd (Event.read?_eq_none hquiet heq) he
  | @undecided held source after best remainder record ended number hrun hfits _ ih =>
    refine Event.forall_split_cons.mpr ⟨nofun, fun earlier e later heq he => .inr ?_⟩
    rw [Event.received_attempt]
    rcases ih earlier e later heq he with ⟨rfl, -⟩ | hwants
    · rw [Event.received_nil, List.take_zero, List.append_nil]
      exact ⟨⟨number, rfl⟩, ⟨best, remainder, hrun⟩, hfits⟩
    · exact hwants.cons _
  | failed | overflowed =>
    exact Event.forall_split_cons.mpr ⟨fun _ => .inl ⟨rfl, rfl⟩, Event.forall_split_nil⟩
  | @received held chunk source later after record ended hread hfits _ ih =>
    refine Event.forall_split_cons.mpr
      ⟨fun _ => .inl ⟨rfl, rfl⟩, fun earlier e rest heq he => .inr ?_⟩
    -- the buffer is what it was, and the bytes of the read
    rw [Event.received_read, Source.bytes_of_read hread, List.take_length_add_append,
      ← List.append_assoc]
    rcases ih earlier e rest heq he with ⟨-, hpoint⟩ | hwants
    · cases hpoint
    · exact hwants.cons _

theorem incomplete (h : Unfolds r p point held source record ended after) :
    ∀ failure, ended = .error failure → failure.kind = .incomplete →
      point = .parsing true ∨ ∃ size < r.readSize, .ok size ∈ Event.reads record := by
  induction h with
  | matched => rintro _ ⟨⟩
  | starved => exact fun _ _ _ => .inl rfl
  | refused _ hkind =>
    rintro _ ⟨⟩ hincomplete
    exact absurd hincomplete hkind.1
  | undecided _ _ _ _ ih =>
    intro failure hended hkind
    rcases ih failure hended hkind with hpoint | hshort
    · cases hpoint
    · exact .inr hshort
  | failed =>
    rintro _ ⟨⟩ hkind
    cases hkind
  | overflowed _ hlimit =>
    rintro _ ⟨⟩ hkind
    rw [hlimit] at hkind
    cases hkind
  | @received held chunk source later after record ended _ _ _ ih =>
    intro failure hended hkind
    rw [Event.reads_read]
    rcases ih failure hended hkind with hpoint | ⟨size, hsize, hmem⟩
    · have hshort : decide (chunk.length < r.readSize) = true := Point.parsing.inj hpoint
      exact .inr ⟨chunk.length, of_decide_eq_true hshort, List.mem_cons_self⟩
    · exact .inr ⟨size, hsize, List.mem_cons_of_mem _ hmem⟩

theorem failed_iff (h : Unfolds r p point held source record ended after) :
    (∃ failure, ended = .error failure ∧ failure.kind = .sourceRead) ↔
      ∃ error, .error error ∈ Event.reads record := by
  induction h with
  | matched => simp
  | starved => simp [Failure.kind, Event.reads, Event.read?]
  | refused hquiet hkind => simp [hquiet, hkind.2]
  | undecided _ _ _ _ ih => exact ih
  | failed => simp [Failure.kind]
  | overflowed _ hlimit => simp [hlimit]
  | received _ _ _ ih => simpa using ih

theorem returned (hp : p.StaysWithin)
    (h : Unfolds r p point held source record ended after) :
    ∀ phase, ended = .ok phase → ∃ read remainder consumed,
      source.bytes = read ++ after.bytes ∧ read.length = Event.received record ∧
        p (.streaming (held ++ read)) = .matched phase.value remainder ∧
        held ++ read = consumed ++ phase.leftover ∧ consumed.length = remainder.pos ∧
        (Event.reads record ≠ [] → r.Fits (held ++ read).length) := by
  induction h with
  | @matched short held source value remainder number hrun =>
    rintro _ ⟨⟩
    obtain ⟨hsource, hpos⟩ := hp held value remainder hrun
    refine ⟨[], remainder, held.take remainder.pos, rfl, rfl, ?_, ?_, ?_, nofun⟩
    · rwa [List.append_nil]
    · rw [Cursor.rest_eq, hsource, List.append_nil, List.take_append_drop]
    · exact List.length_take_of_le hpos
  | undecided _ _ _ _ ih => exact ih
  | @received held chunk source later after record ended hread hfits _ ih =>
    intro phase hended
    obtain ⟨read, remainder, consumed, hbytes, hlength, hrun, hcut, hconsumed, hmore⟩ :=
      ih phase hended
    rw [List.append_assoc] at hrun hcut hmore
    refine ⟨chunk ++ read, remainder, consumed, ?_, ?_, hrun, hcut, hconsumed, fun _ => ?_⟩
    · rw [Source.bytes_of_read hread, hbytes, List.append_assoc]
    · rw [List.length_append, hlength, Event.received_read]
    · by_cases hlast : Event.reads record = []
      · -- this read is the last one, and what it has brought was found to be within the limit
        have hnil : read = [] := by
          rw [Event.received, hlast] at hlength
          exact List.length_eq_zero_iff.mp hlength
        rw [hnil, List.append_nil]
        exact hfits
      · exact hmore hlast
  | _ => exact nofun

/-- **All reads but the last one are full**, so they cannot be many under a limit. -/
theorem reads_mul_le (hlimited : r.maxBufferSize ≠ 0)
    (h : Unfolds r p point held source record ended after)
    (hheld : point = .reading → held.length ≤ r.maxBufferSize) (hreads : Event.reads record ≠ []) :
    (Event.reads record).length * r.readSize + held.length ≤ r.maxBufferSize + r.readSize := by
  induction h with
  | matched | starved => exact absurd rfl hreads
  | refused hquiet => exact absurd hquiet hreads
  | undecided _ _ hfits _ ih => exact ih (fun _ => hfits hlimited) hreads
  | failed | overflowed =>
    have hroom := hheld rfl
    simp only [Event.reads_readFailed, Event.reads_read, Event.reads_nil, List.length_singleton]
    omega
  | @received held chunk source later after record ended hread hfits hmore ih =>
    have hroom := hheld rfl
    rw [Event.reads_read, List.length_cons, Nat.succ_mul]
    by_cases hlast : Event.reads record = []
    · rw [hlast, List.length_nil]
      omega
    · -- another read follows, so that this one was full
      have hfull : r.readSize ≤ chunk.length := by
        refine Nat.le_of_not_lt fun hshort => hlast ?_
        rw [decide_eq_true hshort] at hmore
        exact hmore.reads_eq_nil
      have hbound := ih nofun hlast
      rw [List.length_append] at hbound
      omega

end Unfolds

/-- Where nothing was left over a phase starts by reading, and only there. -/
theorem startOf_eq_reading {leftover : Bytes} : startOf leftover = .reading ↔ leftover = [] := by
  cases leftover <;> simp [startOf]

theorem startOf_ne_parsing_true (leftover : Bytes) : startOf leftover ≠ .parsing true := by
  cases leftover <;> simp [startOf]

/-- **A phase reads with discipline.** -/
theorem Unfolds.disciplined (hp : p.StaysWithin) {leftover : Bytes} {after : Source}
    (h : Unfolds r p (startOf leftover) leftover source record ended after) :
    Disciplined r p leftover source record ended after where
  performed := h.yields
  prompted earlier e later heq he := by
    rw [← startOf_eq_reading]
    exact h.prompted earlier e later heq he
  short_last := h.short_last
  incomplete failure hended hkind :=
    (h.incomplete failure hended hkind).resolve_left (startOf_ne_parsing_true leftover)
  failed_iff := h.failed_iff
  returned := h.returned hp
  bounded hlimited := by
    by_cases hreads : Event.reads record = []
    · rw [hreads]
      exact Nat.zero_le _
    · have hbound := h.reads_mul_le hlimited (fun hstart => by
        rw [startOf_eq_reading.mp hstart]
        exact Nat.zero_le _) hreads
      rw [← Nat.add_div_right _ r.readSize_pos, Nat.le_div_iff_mul_le r.readSize_pos]
      omega

/-! ## Sources that go on -/

/-- A phase that fails in a read, or goes on after it, does so as well if more is to come. -/
theorem fill_followedBy (held : Bytes) (hne : s.source ≠ []) (more : Source) :
    r.fill held (s.followedBy more) =
      ((r.fill held s).1, (r.fill held s).2.followedBy more) := by
  unfold fill Session.followedBy
  dsimp only
  rw [Source.read_append _ hne]
  rcases s.source.read r.readSize with ⟨error | chunk, later⟩
  · rfl
  · dsimp only
    split <;> rfl

/-- A read puts one read on record, and takes one arrival at most. -/
theorem readCount_fill {result : Except Failure Filled} (h : r.fill held s = (result, mid)) :
    mid.readCount = s.readCount + 1 ∧ s.source.length ≤ mid.source.length + 1 := by
  have hlength := Source.length_le_read r.readSize s.source
  unfold fill at h
  split at h
  · rename_i error later hread
    cases h
    rw [hread] at hlength
    exact ⟨(Session.adds_record _ _).readCount_eq, hlength⟩
  · rename_i chunk later hread
    rw [hread] at hlength
    dsimp only at h
    split at h <;> cases h <;> exact ⟨(Session.adds_record _ _).readCount_eq, hlength⟩

/-- **The loop of a phase does not look at what it does not read.** If there was something
to read each time, the loop goes the same way whatever comes after it. -/
theorem attempt_followedBy {number : Nat} (more : Source)
    (h : r.attempt p template number held short s = (ended, after))
    (hreads : after.readCount ≤ s.readCount + s.source.length) :
    r.attempt p template number held short (s.followedBy more) =
      (ended, after.followedBy more) := by
  fun_induction r.attempt p template number held short s with
  | case1 number held short s fault hrun =>
    cases h
    rw [attempt, hrun]
  | case2 number held short s value remainder hrun asked failure hsize
  | case3 number held short s value remainder hrun asked hsize
  | case6 number held short s best remainder hrun asked failure hsize
  | case7 number held s best remainder hrun asked hsize =>
    obtain ⟨rfl, rfl⟩ := Prod.mk.inj h
    rw [attempt, hrun]
    simp only [hsize]
    rfl
  | case4 number held short s reason hrun | case5 number held short s reason hrun =>
    obtain ⟨rfl, rfl⟩ := Prod.mk.inj h
    rw [attempt, hrun]
    rfl
  | case8 number held short s best remainder hrun asked hfits hshort failure mid hfill =>
    obtain ⟨rfl, rfl⟩ := Prod.mk.inj h
    obtain rfl := Bool.eq_false_iff.mpr hshort
    have hasked : asked.readCount = s.readCount :=
      (Session.adds_record s (.attempt number held.length .truncated)).readCount_eq
    obtain ⟨hcount, hlength⟩ := readCount_fill hfill
    have hne : asked.source ≠ [] := fun hnil => by
      have hlength' : s.source.length = 0 := congrArg List.length hnil
      omega
    rw [attempt_of_truncated hrun hfits,
      show (s.followedBy more).record _ = asked.followedBy more from rfl,
      fill_followedBy held hne, hfill]
  | case9 number held short s best remainder hrun asked hfits hshort filled mid hfill ih =>
    obtain rfl := Bool.eq_false_iff.mpr hshort
    have hasked : asked.readCount = s.readCount :=
      (Session.adds_record s (.attempt number held.length .truncated)).readCount_eq
    obtain ⟨hcount, hlength⟩ := readCount_fill hfill
    obtain ⟨record, hadds, -⟩ := unfolds_attempt h
    have hafter := hadds.readCount_eq
    have hne : asked.source ≠ [] := fun hnil => by
      have hlength' : s.source.length = 0 := congrArg List.length hnil
      omega
    have hlength' : s.source.length ≤ mid.source.length + 1 := hlength
    rw [attempt_of_truncated hrun hfits,
      show (s.followedBy more).record _ = asked.followedBy more from rfl,
      fill_followedBy held hne, hfill]
    exact ih h (by omega)

/-- **A phase does not look at what it does not read.** -/
theorem phase_followedBy {leftover : Bytes} (more : Source)
    (h : r.phase p leftover template s = (ended, after))
    (hreads : after.readCount ≤ s.readCount + s.source.length) :
    r.phase p leftover template (s.followedBy more) = (ended, after.followedBy more) := by
  unfold phase at h ⊢
  split at h
  · rename_i hempty
    rw [if_pos hempty]
    rcases hfill : r.fill leftover s with ⟨failure | filled, mid⟩ <;> rw [hfill] at h
    · obtain ⟨rfl, rfl⟩ := Prod.mk.inj h
      obtain ⟨hcount, -⟩ := readCount_fill hfill
      have hne : s.source ≠ [] := fun hnil => by
        rw [hnil, List.length_nil] at hreads
        omega
      rw [fill_followedBy leftover hne, hfill]
    · obtain ⟨hcount, hlength⟩ := readCount_fill hfill
      obtain ⟨record, hadds, -⟩ := unfolds_attempt h
      have hafter := hadds.readCount_eq
      have hne : s.source ≠ [] := fun hnil => by
        rw [hnil, List.length_nil] at hreads
        omega
      rw [fill_followedBy leftover hne, hfill]
      exact attempt_followedBy more h (by dsimp only at hcount hlength ⊢; omega)
  · rename_i hne
    rw [if_neg hne]
    exact attempt_followedBy more h hreads

/-! ## Phases -/

/-- **A phase reads with discipline**, whatever its parser makes of what it is given, and
whatever the source does. Under a limit it has come to its end after so many reads that it
ends in the same way on every source that goes on from there. -/
theorem phase_disciplined (r : Reader) {p : Parser UInt8 α} (hp : p.StaysWithin)
    (leftover : Bytes) (template : Option Template) (s : Session) :
    ∃ record, s.Adds (r.phase p leftover template s).2 record ∧
      r.Disciplined p leftover s.source record (r.phase p leftover template s).1
        (r.phase p leftover template s).2.source ∧
      (r.maxBufferSize ≠ 0 → r.maxBufferSize / r.readSize < s.source.length → ∀ more : Source,
        r.phase p leftover template (s.followedBy more) =
          ((r.phase p leftover template s).1,
            (r.phase p leftover template s).2.followedBy more)) := by
  rcases hphase : r.phase p leftover template s with ⟨ended, after⟩
  obtain ⟨record, hadds, hunfolds⟩ := unfolds_phase hphase
  have hdisciplined := hunfolds.disciplined hp
  refine ⟨record, hadds, hdisciplined, fun hlimited hlong more => phase_followedBy more hphase ?_⟩
  have hbound := hdisciplined.bounded hlimited
  rw [hadds.readCount_eq]
  omega

/-- A source that sends letters, four at once, three times, and then one. -/
def letters : Session :=
  .start [.chunk (Element.piece "abcd".toList), .chunk (Element.piece "efgh".toList),
    .chunk (Element.piece "ijkl".toList), .chunk (Element.piece ['m'])]

/-- Reads of four bytes under a limit of six. -/
def fourOfSix : Reader := { readSize := 4, maxBufferSize := 6, readSize_pos := by decide }

/-- A word and the blank after it. -/
def spacedWord : Parser UInt8 Bytes := (Grammar.terminated Http.word Http.blank).run

/-- A word that does not end is given up after two reads, and would be if the letters went
on. -/
theorem phase_disciplined_letters :
    spacedWord.StaysWithin ∧
      ∃ record, letters.Adds (fourOfSix.phase spacedWord [] none letters).2 record ∧
        fourOfSix.Disciplined spacedWord [] letters.source record
          (fourOfSix.phase spacedWord [] none letters).1
          (fourOfSix.phase spacedWord [] none letters).2.source ∧
        Event.reads record = [.ok 4, .ok 4] ∧
        ∀ more : Source, fourOfSix.phase spacedWord [] none (letters.followedBy more) =
          ((fourOfSix.phase spacedWord [] none letters).1,
            (fourOfSix.phase spacedWord [] none letters).2.followedBy more) := by
  have hp : spacedWord.StaysWithin := Grammar.staysWithin _
  have hreads : Event.reads (fourOfSix.phase spacedWord [] none letters).2.events.toList =
      [.ok 4, .ok 4] := by
    cbv
  obtain ⟨record, hadds, hdisciplined, hmore⟩ :=
    phase_disciplined fourOfSix hp [] none letters
  have hrecord : (fourOfSix.phase spacedWord [] none letters).2.events.toList = record := hadds
  have hlong : fourOfSix.maxBufferSize / fourOfSix.readSize < letters.source.length := by decide
  rw [hrecord] at hreads
  exact ⟨hp, record, hadds, hdisciplined, hreads, hmore (by decide) hlong⟩

end Reader

end StreamGrammar
