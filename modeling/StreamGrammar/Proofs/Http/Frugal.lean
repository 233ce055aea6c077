import StreamGrammar.Proofs.Http.Format
import StreamGrammar.Proofs.Http.Limits
import StreamGrammar.Proofs.Stream.Discipline

/-!
# Reading no further than the head

A client may send a head and then wait for the answer, so a read that the head does not
need may never return. There are two parts to this. If the head is here already, nothing
is read. If it is not, then what was read beyond the head is less than what the last read
brought.

The second part does not follow from the phases being disciplined. A phase that reads was
undecided before, but that says nothing of how much of the read it needs. It needs some of
it if its grammar is prompt (`Grammar.Prompt`): a match that leaves over all that came last
was there before it came. A phase that starts from nothing has no match before, and may
leave over all that it has read, as the loop does when the first byte it sees is that of
the blank line. So between two phases all of a read may be left over, and it is the blank
line that makes it less at the end.
-/

namespace StreamGrammar

variable {α : Type}

/-! ## Reads of a session -/

namespace Session

/-- **The reads that were made** from one session to a later one, by what each of them
brought. -/
def Performs (n : Nat) (s : Session) (answers : List (Except ReadError Nat)) (after : Session) :
    Prop :=
  ∃ record, s.Adds after record ∧ Event.reads record = answers ∧
    s.source.Yields n answers after.source

variable {n : Nat} {s middle after : Session} {answers answers' : List (Except ReadError Nat)}

theorem Performs.trans (h : s.Performs n answers middle)
    (h' : middle.Performs n answers' after) : s.Performs n (answers ++ answers') after := by
  obtain ⟨record, hadds, rfl, hyields⟩ := h
  obtain ⟨record', hadds', rfl, hyields'⟩ := h'
  exact ⟨record ++ record', hadds.trans hadds', Event.reads_append, hyields.trans hyields'⟩

/-- Other events than reads take nothing off the source. -/
theorem performs_record (s : Session) (e : Event) (he : e.read? = none) :
    s.Performs n [] (s.record e) :=
  ⟨[e], s.adds_record e, List.filterMap_cons_none he, .nil s.source⟩

/-- The record shows which reads were made. -/
theorem Performs.unique (h : s.Performs n answers after) (h' : s.Performs n answers' after) :
    answers = answers' := by
  obtain ⟨record, hadds, rfl, -⟩ := h
  obtain ⟨record', hadds', rfl, -⟩ := h'
  rw [List.append_cancel_left (hadds.symm.trans hadds')]

/-- Without a read the source is where it was. -/
theorem Performs.bytes_eq (h : s.Performs n [] after) : after.source.bytes = s.source.bytes := by
  obtain ⟨_, _, _, hyields⟩ := h
  obtain ⟨read, hbytes, hlength⟩ := hyields.bytes_eq
  rw [hbytes, List.length_eq_zero_iff.mp hlength, List.nil_append]

end Session

/-! ## Prompt grammars -/

/-- **A grammar is prompt** if a match that leaves over all of what came last was there
before it came. -/
def Grammar.Prompt (g : Grammar UInt8 α) : Prop :=
  ∀ ⦃s more rest : Bytes⦄ ⦃value : α⦄, s ≠ [] →
    g.verdict false (s ++ more) = .matched value (rest ++ more) →
      g.verdict false s = .matched value rest

namespace Reader

variable {r : Reader} {g : Grammar UInt8 α} {point : Point} {held leftover rest : Bytes}
  {source last : Source} {record : List Event} {template : Option Template} {value : α}
  {phase : Phase α} {s after : Session} {answers : List (Except ReadError Nat)}

/-- Where a phase is about to read, it reads. -/
theorem Unfolds.reads_ne_nil {p : Parser UInt8 α} {ended : Except Failure (Phase α)}
    (h : Unfolds r p .reading held source record ended last) : Event.reads record ≠ [] := by
  cases h with
  | failed | overflowed | received => exact List.cons_ne_nil _ _

/-- A phase that is about to parse and returns without a read has its match at hand. -/
theorem Unfolds.verdict_of_reads_eq_nil {short : Bool}
    (h : Unfolds r g.run (.parsing short) held source record (.ok phase) last)
    (hquiet : Event.reads record = []) :
    g.verdict false held = .matched phase.value phase.leftover := by
  cases h with
  | matched number hrun => exact congrArg Outcome.verdict hrun
  | undecided number _ _ hmore => exact absurd hquiet hmore.reads_ne_nil

/-- A phase that is about to parse and has its match at hand does not read. -/
theorem Unfolds.of_held {short : Bool}
    (h : Unfolds r g.run (.parsing short) held source record (.ok phase) last)
    (hmatched : g.verdict false held = .matched value rest) :
    Event.reads record = [] ∧ phase = { value, leftover := rest } := by
  cases h with
  | matched number hrun =>
    have hphase : g.verdict false held = .matched _ _ := congrArg Outcome.verdict hrun
    rw [hmatched] at hphase
    cases hphase
    exact ⟨rfl, rfl⟩
  | undecided number hrun _ _ =>
    have htruncated : g.verdict false held = .truncated _ _ := congrArg Outcome.verdict hrun
    rw [hmatched] at htruncated
    cases htruncated

/-- **Of the last read all is left over at most**, and then the phase matched on that read
alone. -/
theorem Unfolds.leftover_lt (hg : g.Prompt)
    (h : Unfolds r g.run point held source record (.ok phase) last)
    (hheld : point = .reading →
      held = [] ∨ ∃ best rest, g.verdict false held = .truncated best rest)
    (hreads : Event.reads record ≠ []) :
    ∃ chunk : Bytes, chunk.length ≤ r.readSize ∧
      (phase.leftover.length < chunk.length ∨
        g.verdict false chunk = .matched phase.value phase.leftover) := by
  generalize hended : (.ok phase : Except Failure (Phase α)) = ended at h
  induction h with
  | matched => exact absurd rfl hreads
  | undecided number hrun _ _ ih =>
    exact ih (fun _ => .inr ⟨_, _, congrArg Outcome.verdict hrun⟩) hreads hended
  | @received held chunk source later last record ended hread _ hmore ih =>
    by_cases hlast : Event.reads record = []
    · refine ⟨chunk, Source.length_of_read hread, ?_⟩
      cases hended
      have hmatched := hmore.verdict_of_reads_eq_nil hlast
      by_cases hnil : held = []
      · rw [hnil, List.nil_append] at hmatched
        exact .inr hmatched
      · refine .inl (Nat.lt_of_not_le fun hle => ?_)
        -- nothing of this read was needed, so the match was there without it
        obtain ⟨rest, hrest⟩ := List.suffix_of_suffix_length_le
          (List.suffix_append held chunk) (Grammar.rest_suffix hmatched) hle
        obtain ⟨best, middle, htruncated⟩ := (hheld rfl).resolve_left hnil
        rw [← hrest] at hmatched
        rw [hg hnil hmatched] at htruncated
        cases htruncated
    · exact ih nofun hlast hended
  | _ => cases hended

/-- **Reads that are needed**, from a session with so many bytes at hand to a later one with
so many left over: without a read there are no more than before, and otherwise no more than
one read brings. -/
structure Frugal (r : Reader) (s : Session) (held : Nat) (answers : List (Except ReadError Nat))
    (left : Nat) (after : Session) : Prop where
  /-- The reads. -/
  performed : s.Performs r.readSize answers after
  /-- Without a read nothing is added. -/
  kept : answers = [] → left ≤ held
  /-- With reads the last one is all that may be left over. -/
  brought : answers ≠ [] → left ≤ r.readSize

/-- What is needed of one part after the other is needed of both. -/
theorem Frugal.trans {held middle left : Nat} {between : Session}
    {answers' : List (Except ReadError Nat)} (h : r.Frugal s held answers middle between)
    (h' : r.Frugal between middle answers' left after) :
    r.Frugal s held (answers ++ answers') left after where
  performed := h.performed.trans h'.performed
  kept hnone := by
    obtain ⟨hnone, hnone'⟩ := List.append_eq_nil_iff.mp hnone
    exact Nat.le_trans (h'.kept hnone') (h.kept hnone)
  brought hsome := by
    by_cases hlast : answers' = []
    · rw [hlast, List.append_nil] at hsome
      exact Nat.le_trans (h'.kept hlast) (h.brought hsome)
    · exact h'.brought hlast

/-- Where no more is left over than is allowed for, that much is. -/
theorem Frugal.mono {held left left' : Nat} (h : r.Frugal s held answers left after)
    (hle : left' ≤ left) : r.Frugal s held answers left' after :=
  { h with
    kept := fun hnone => Nat.le_trans hle (h.kept hnone)
    brought := fun hsome => Nat.le_trans hle (h.brought hsome) }

/-- Other events are no reads. -/
theorem Frugal.of_record {e : Event} {held left : Nat} (he : e.read? = none)
    (h : r.Frugal (s.record e) held answers left after) : r.Frugal s held answers left after :=
  { h with performed := (s.performs_record e he).trans h.performed }

/-- **A phase of a prompt grammar is frugal**, and where a match consumes, less is left over
than it might be. -/
theorem run_frugal (hg : g.Prompt) (h : r.run g leftover template s = (.ok phase, after)) :
    ∃ answers left, r.Frugal s leftover.length answers left after ∧
      phase.leftover.length ≤ left ∧ (g.Consumes → phase.leftover.length < left) := by
  obtain ⟨record, hadds, hunfolds⟩ := unfolds_phase h
  have hperformed : s.Performs r.readSize (Event.reads record) after :=
    ⟨record, hadds, rfl, hunfolds.yields⟩
  by_cases hreads : Event.reads record = []
  · have hmatched : g.verdict false leftover = .matched phase.value phase.leftover := by
      cases hstart : startOf leftover with
      | reading =>
        rw [hstart] at hunfolds
        exact absurd hreads hunfolds.reads_ne_nil
      | parsing short =>
        rw [hstart] at hunfolds
        exact hunfolds.verdict_of_reads_eq_nil hreads
    exact ⟨_, leftover.length, ⟨hperformed, fun _ => Nat.le_refl _, absurd hreads⟩,
      (Grammar.rest_suffix hmatched).length_le, fun hconsumes => hconsumes hmatched⟩
  · obtain ⟨chunk, hchunk, hleft⟩ :=
      hunfolds.leftover_lt hg (fun hstart => .inl (startOf_eq_reading.mp hstart)) hreads
    refine ⟨_, chunk.length, ⟨hperformed, fun hnone => absurd hnone hreads, fun _ => hchunk⟩, ?_⟩
    rcases hleft with hlt | hmatched
    · exact ⟨Nat.le_of_lt hlt, fun _ => hlt⟩
    · exact ⟨(Grammar.rest_suffix hmatched).length_le, fun hconsumes => hconsumes hmatched⟩

/-- **A phase that has its match at hand does not read.** -/
theorem run_of_held (hne : leftover ≠ [])
    (hmatched : g.verdict false leftover = .matched value rest)
    (h : r.run g leftover template s = (.ok phase, after)) :
    s.Performs r.readSize [] after ∧ phase = { value, leftover := rest } := by
  obtain ⟨record, hadds, hunfolds⟩ := unfolds_phase h
  have hyields := hunfolds.yields
  rw [startOf, if_neg (by simpa using hne)] at hunfolds
  obtain ⟨hquiet, hphase⟩ := hunfolds.of_held hmatched
  exact ⟨⟨record, hadds, hquiet, hquiet ▸ hyields⟩, hphase⟩

end Reader

namespace Http

open Grammar Reader

/-! ## The lines of a head -/

theorem prompt_requestLine : requestLine.Prompt := by
  intro s more rest parts _ h
  obtain ⟨l, hparts, hbytes⟩ := matched_requestLine.mp h
  rw [← List.append_assoc] at hbytes
  exact matched_requestLine.mpr ⟨l, hparts, List.append_cancel_right hbytes⟩

theorem prompt_divider : divider.Prompt := by
  intro s more rest lineEnd _ h
  obtain ⟨hvalue, hbytes⟩ := matched_literal.mp h
  rw [← List.append_assoc] at hbytes
  exact matched_literal.mpr ⟨hvalue, List.append_cancel_right hbytes⟩

/-- The first byte shows the blank line, and the last one ends a header line. -/
theorem prompt_headerEntry : headerEntry.Prompt := by
  intro s more rest field hne h
  cases field with
  | none =>
    obtain ⟨hhead, hrest⟩ := head_of_headerEntry_none h
    obtain rfl := List.append_cancel_right hrest
    rw [List.head?_append_of_ne_nil _ hne] at hhead
    obtain ⟨s, rfl⟩ := List.head?_eq_some_iff.mp hhead
    exact headerEntry_blank s
  | some field =>
    obtain ⟨f, rfl, hbytes⟩ := matched_headerLine.mp (headerLine_of_headerEntry h)
    rw [← List.append_assoc] at hbytes
    exact headerEntry_of_headerLine
      (matched_headerLine.mpr ⟨f, rfl, List.append_cancel_right hbytes⟩)

theorem consumes_divider : divider.Consumes := by
  intro final s rest lineEnd h
  rw [(matched_literal.mp h).2, List.length_append]
  exact Nat.lt_add_of_pos_left (by decide)

/-! ## Heads -/

variable {r : Reader} {maxHeaders : Nat} {headers found : Entries Text Text}
  {rest leftover body : Bytes} {s after : Session} {head : RequestHead}

/-- **The loop over the header lines is frugal.** -/
theorem readHeaders_frugal
    (h : readHeaders r maxHeaders headers rest s = (.ok (found, leftover), after)) :
    ∃ answers, r.Frugal s rest.length answers leftover.length after := by
  fun_induction readHeaders r maxHeaders headers rest s with
  | case2 headers rest s leftover after hrun =>
    cases h
    obtain ⟨answers, left, hfrugal, hle, -⟩ := run_frugal prompt_headerEntry hrun
    exact ⟨answers, hfrugal.mono hle⟩
  | case5 headers rest s name value leftover after hrun hdup hroom ih =>
    obtain ⟨answers, left, hfrugal, hle, -⟩ := run_frugal prompt_headerEntry hrun
    obtain ⟨answers', hfrugal'⟩ := ih h
    exact ⟨_, (hfrugal.mono hle).trans hfrugal'⟩
  | _ => cases h

/-- **Header lines that are at hand with the blank line after them** are taken without a
read. -/
theorem readHeaders_of_held {fields : List Wire.Field}
    (h : readHeaders r maxHeaders headers
      (fields.flatMap Wire.Field.bytes ++ (Element.piece ['\r', '\n'] ++ body)) s =
        (.ok (found, leftover), after)) :
    s.Performs r.readSize [] after ∧ leftover = Element.piece ['\r', '\n'] ++ body := by
  induction fields generalizing headers s with
  | nil =>
    rw [List.flatMap_nil, List.nil_append] at h
    have hentry : headerEntry.verdict false (Element.piece ['\r', '\n'] ++ body) =
        .matched none (Element.piece ['\r', '\n'] ++ body) := headerEntry_blank _
    rcases hrun : r.run headerEntry (Element.piece ['\r', '\n'] ++ body)
      (some fun reason _ => .malformedHeader reason) s with ⟨failure | phase, middle⟩
    · rw [readHeaders_of_error hrun] at h
      cases h
    · obtain ⟨hquiet, rfl⟩ := run_of_held (List.cons_ne_nil _ _) hentry hrun
      rw [readHeaders_of_none hrun] at h
      cases h
      exact ⟨hquiet, rfl⟩
  | cons f fields ih =>
    rw [List.flatMap_cons, List.append_assoc] at h
    generalize hrest : fields.flatMap Wire.Field.bytes ++ (Element.piece ['\r', '\n'] ++ body) =
      rest at h ih
    have hline : headerLine.verdict false (f.bytes ++ rest) = .matched f.entry rest :=
      matched_headerLine.mpr ⟨f, rfl, rfl⟩
    have hne : f.bytes ++ rest ≠ [] :=
      List.length_pos_iff.mp (Nat.zero_lt_of_lt (consumes_headerLine hline))
    rcases hrun : r.run headerEntry (f.bytes ++ rest)
      (some fun reason _ => .malformedHeader reason) s with ⟨failure | phase, middle⟩
    · rw [readHeaders_of_error hrun] at h
      cases h
    · obtain ⟨hquiet, rfl⟩ := run_of_held hne (headerEntry_of_headerLine hline) hrun
      rw [readHeaders_of_some hrun] at h
      split at h
      · cases h
      · split at h
        · cases h
        · obtain ⟨hmore, hleftover⟩ := ih h
          exact ⟨hquiet.trans hmore, hleftover⟩

/-- **Bytes that begin with a whole head.** -/
def HoldsHead (b : Bytes) : Prop :=
  ∃ head remainder, requestHead.run (.complete b) = .matched head remainder

theorem holdsHead_iff {b : Bytes} : HoldsHead b ↔ ∃ w : Wire.Head, w.bytes = b := by
  have hrun : HoldsHead b ↔ ∃ head rest, requestHead.verdict true b = .matched head rest := by
    simp only [HoldsHead, matched_complete]
    exact ⟨fun ⟨head, remainder, h⟩ => ⟨head, _, remainder, h, rfl⟩,
      fun ⟨head, _, remainder, h, _⟩ => ⟨head, remainder, h⟩⟩
  rw [hrun]
  simp only [matched_requestHead_iff_wire]
  exact ⟨fun ⟨_, _, w, h, _⟩ => ⟨w, h⟩, fun ⟨w, h⟩ => ⟨_, _, w, h, rfl, rfl⟩⟩

/-- **A head that is read**, phase by phase. -/
theorem phases_of_readPhases
    (h : readPhases r maxHeaders leftover s = (.ok head, after)) :
    ∃ line rest headers rest' lineEnd s₁ s₂ s₃,
      r.run requestLine leftover (some fun reason _ => .malformedRequestLine reason)
          (s.record (.reading .requestLine)) = (.ok { value := line, leftover := rest }, s₁) ∧
        readHeaders r maxHeaders [] rest (s₁.record (.reading .headers)) =
          (.ok (headers, rest'), s₂) ∧
        r.run divider rest' (some fun reason _ => .missingDivider reason)
          (s₂.record (.reading .divider)) = (.ok { value := lineEnd, leftover := head.body }, s₃) ∧
        after = s₃.record (.headComplete head.method head.target headers.length) := by
  unfold readPhases at h
  split at h
  · cases h
  rename_i hline
  split at h
  · cases h
  rename_i hheaders
  split at h
  · cases h
  rename_i hdivider
  cases h
  exact ⟨_, _, _, _, _, _, _, _, hline, hheaders, hdivider, rfl⟩

/-- **Less than the last read is left over of a head**, if there was one. -/
theorem readPhases_frugal (h : readPhases r maxHeaders leftover s = (.ok head, after)) :
    ∃ answers, s.Performs r.readSize answers after ∧
      (answers ≠ [] → head.body.length < r.readSize) := by
  obtain ⟨line, rest, headers, rest', lineEnd, s₁, s₂, s₃, hline, hheaders, hdivider, rfl⟩ :=
    phases_of_readPhases h
  obtain ⟨answers₁, left₁, hfrugal₁, hle₁, -⟩ := run_frugal prompt_requestLine hline
  obtain ⟨answers₂, hfrugal₂⟩ := readHeaders_frugal hheaders
  obtain ⟨answers₃, left₃, hfrugal₃, -, hlt⟩ := run_frugal prompt_divider hdivider
  have hall := ((hfrugal₁.of_record rfl).mono hle₁).trans
    ((hfrugal₂.of_record rfl).trans (hfrugal₃.of_record rfl))
  have hperformed := hall.performed.trans
    (s₃.performs_record (.headComplete head.method head.target headers.length) rfl)
  rw [List.append_nil] at hperformed
  exact ⟨_, hperformed, fun hreads =>
    Nat.lt_of_lt_of_le (hlt consumes_divider) (hall.brought hreads)⟩

/-- **A head that is at hand is read without a read.** -/
theorem readPhases_of_held (hholds : HoldsHead leftover)
    (h : readPhases r maxHeaders leftover s = (.ok head, after)) :
    s.Performs r.readSize [] after := by
  obtain ⟨w, rfl⟩ := holdsHead_iff.mp hholds
  obtain ⟨line, rest, headers, rest', lineEnd, s₁, s₂, s₃, hline, hheaders, hdivider, rfl⟩ :=
    phases_of_readPhases h
  have hfirst : requestLine.verdict false w.bytes = .matched w.line.parts _ :=
    matched_requestLine.mpr ⟨w.line, rfl, rfl⟩
  have hblank : divider.verdict false (Element.piece ['\r', '\n'] ++ w.body) = .matched _ w.body :=
    matched_literal.mpr ⟨rfl, rfl⟩
  have hne : w.bytes ≠ [] := by
    rw [Wire.Head.bytes]
    simp [Element.piece]
  obtain ⟨hquiet₁, hphase⟩ := run_of_held hne hfirst hline
  cases hphase
  obtain ⟨hquiet₂, rfl⟩ := readHeaders_of_held hheaders
  obtain ⟨hquiet₃, -⟩ := run_of_held (List.cons_ne_nil _ _) hblank hdivider
  exact (s.performs_record _ rfl).trans (hquiet₁.trans ((s₁.performs_record _ rfl).trans
    (hquiet₂.trans ((s₂.performs_record _ rfl).trans (hquiet₃.trans (s₃.performs_record _ rfl))))))

/-- The reader of a head asks for as much as was set. -/
theorem readPhases_of_readRequestHead {settings : HeadSettings} {readSize : Nat}
    (hsize : Limits.resolve settings.readSize Limits.defaultReadSize = .ok readSize)
    (h : readRequestHead settings leftover s = (.ok head, after)) :
    ∃ (r : Reader) (maxHeaders : Nat), r.readSize = readSize ∧
      readPhases r maxHeaders leftover s = (.ok head, after) := by
  unfold readRequestHead at h
  split at h
  · cases h
  split at h
  · cases h
  rename_i r hr
  refine ⟨r, _, ?_, h⟩
  unfold Reader.ofSettings at hr
  rw [hsize] at hr
  dsimp only at hr
  split at hr
  · split at hr
    · cases hr
    · cases hr
      rfl
  · cases hr

/-- **A head is read no further than it has to be**, whatever is asked for in one read,
however the bytes arrive and whatever is here already. Nothing is read just if there is a
head here already. If there is none, less than one read is left over; so if one byte is
read at a time nothing is left over, and the source is where the grammar of heads stops on
all that was to come. -/
theorem readRequestHead_frugal {settings : HeadSettings} {readSize : Nat}
    (hsize : Limits.resolve settings.readSize Limits.defaultReadSize = .ok readSize)
    (h : readRequestHead settings leftover s = (.ok head, after)) :
    ∃ answers, s.Performs readSize answers after ∧ (HoldsHead leftover ↔ answers = []) ∧
      (¬HoldsHead leftover → head.body.length < readSize) ∧
      (¬HoldsHead leftover → readSize = 1 → head.body = [] ∧
        ∃ remainder, requestHead.run (.complete (leftover ++ s.source.bytes)) =
          .matched head remainder ∧ remainder.rest = after.source.bytes) := by
  obtain ⟨read, hbytes, hborne⟩ := readRequestHead_borneOut settings leftover s
  rw [h] at hbytes hborne
  obtain ⟨r, maxHeaders, rfl, hphases⟩ := readPhases_of_readRequestHead hsize h
  obtain ⟨answers, hperformed, hbody⟩ := readPhases_frugal hphases
  have hiff : HoldsHead leftover ↔ answers = [] := by
    constructor
    · exact fun hholds => hperformed.unique (readPhases_of_held hholds hphases)
    · rintro rfl
      rw [hperformed.bytes_eq] at hbytes
      obtain rfl : read = [] := List.self_eq_append_left.mp hbytes
      obtain ⟨remainder, hrun, -⟩ := hborne []
      rw [List.append_nil, List.append_nil] at hrun
      exact ⟨_, remainder, hrun⟩
  refine ⟨answers, hperformed, hiff, fun hnot => hbody (mt hiff.mpr hnot), fun hnot hone => ?_⟩
  have hnil : head.body = [] := by
    have hlt := hbody (mt hiff.mpr hnot)
    rw [hone] at hlt
    exact List.length_eq_zero_iff.mp (Nat.lt_one_iff.mp hlt)
  obtain ⟨remainder, hrun, hrest⟩ := hborne after.source.bytes
  rw [List.append_assoc, ← hbytes] at hrun
  refine ⟨hnil, remainder, ?_, ?_⟩
  · rw [hrun, ← hnil]
  · rw [hrest, hnil, List.nil_append]

/-- The rest of a head of which two bytes are here already, and what follows it. -/
def brokenInTwo : Session :=
  .start [.chunk (Element.piece "T / HTTP/1.1\r\nA:".toList),
    .chunk (Element.piece " b\r\n\r\nok".toList)]

/-- Reads of one byte. -/
def bytewise : HeadSettings := { readSize := some 1 }

/-- Read byte by byte, a head ends where it ends, and a head that is here already does not
wait for the source. -/
theorem readRequestHead_frugal_broken :
    Limits.resolve bytewise.readSize Limits.defaultReadSize = .ok 1 ∧
      (∃ head after answers,
        readRequestHead bytewise (Element.piece ['G', 'E']) brokenInTwo = (.ok head, after) ∧
          brokenInTwo.Performs 1 answers after ∧ answers ≠ [] ∧ head.body = [] ∧
          after.source.bytes = Element.piece ['o', 'k']) ∧
      ∃ head after, readRequestHead bytewise hostSent.bytes brokenInTwo = (.ok head, after) ∧
        brokenInTwo.Performs 1 [] after := by
  have hsize : Limits.resolve bytewise.readSize Limits.defaultReadSize = .ok 1 := rfl
  have hbroken : ending (readRequestHead bytewise (Element.piece ['G', 'E']) brokenInTwo) =
      .inr 1 := by
    decide +kernel
  have hstop : (readRequestHead bytewise (Element.piece ['G', 'E']) brokenInTwo).2.source.bytes =
      Element.piece ['o', 'k'] := by
    decide +kernel
  have hnot : ¬HoldsHead (Element.piece ['G', 'E']) := by
    have hnone : (requestHead.run (.complete (Element.piece ['G', 'E']))).kind? =
        some .rejected := by
      decide +kernel
    rintro ⟨_, _, hrun⟩
    rw [hrun] at hnone
    cases hnone
  have hsent : ending (readRequestHead bytewise hostSent.bytes brokenInTwo) = .inr 1 := by
    decide +kernel
  refine ⟨hsize, ?_, ?_⟩
  · obtain ⟨head, after, h, -⟩ := head_of_ending hbroken
    obtain ⟨answers, hperformed, hiff, -, hone⟩ := readRequestHead_frugal hsize h
    rw [h] at hstop
    exact ⟨head, after, answers, h, hperformed, mt hiff.mpr hnot, (hone hnot rfl).1, hstop⟩
  · obtain ⟨head, after, h, -⟩ := head_of_ending hsent
    obtain ⟨answers, hperformed, hiff, -⟩ := readRequestHead_frugal hsize h
    rw [hiff.mp (holdsHead_iff.mpr ⟨hostSent, rfl⟩)] at hperformed
    exact ⟨head, after, h, hperformed⟩

end Http

end StreamGrammar
