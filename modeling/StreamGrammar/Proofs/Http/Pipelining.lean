import StreamGrammar.Proofs.Http.Agreement

/-!
# Requests that follow one another

A client may send a request before the answer to the last one, and then the bytes of
both arrive as they please: a read can bring the end of one head with the beginning of
the next, or several heads at once, or stop between two of them. The reader hands back
what it has not used, and the next head is read from there.

That reading agrees with the grammar says what becomes of one head at the start of all
the bytes there are. It is stated of a source that gives as many bytes as it is asked
for, and a second head is read from the same source, in whatever state the first left
it. So one more thing is needed to go on, that the bytes of the source are at hand
still (`Session.AtHand`). With that, the invariant is what is left in the leftover and
in the source together. Reading a head takes just the bytes of the head off it
(`readRequestHead_takes`), wherever the boundary between the two happens to be, and
nothing else is known or needed of the reads.
-/

namespace StreamGrammar.Http

open Grammar Reader

variable {r : Reader} {head : RequestHead} {s : Session} {w more : Bytes}

/-! ## A head and what follows it -/

/-- **A head that is all of some bytes is the head of whatever begins with them**, and
what follows is left over. -/
theorem requestHead_append (h : requestHead.verdict true w = .matched head []) (more : Bytes) :
    requestHead.verdict true (w ++ more) = .matched { head with body := [] } more := by
  have hparse : (parseRequestHead unlimited w).1 = .ok { head with body := [] } :=
    parseRequestHead_eq_ok_iff.mpr ⟨head, [], h, rfl⟩
  obtain ⟨read, hread, hborneOut⟩ :=
    readRequestHead_borneOut { unlimited with readSize := none } w (.start [])
  -- there is no source, so that nothing but these bytes can have been read
  obtain rfl : read = [] := (List.append_eq_nil_iff.mp hread.symm).1
  rw [List.append_nil] at hborneOut
  have hall : BorneOut w (.ok { head with body := [] }) := hparse ▸ hborneOut
  exact matched_complete.mpr (hall more)

/-- Reading a head leaves the bytes that are unread at hand. -/
theorem atHand_readPhases (h : r.maxBufferSize = 0) {maxHeaders : Nat} {leftover : Bytes}
    (hs : s.AtHand) {after : Session}
    (hread : readPhases r maxHeaders leftover s = (.ok head, after)) : after.AtHand := by
  unfold readPhases at hread
  split at hread
  · cases hread
  rename_i hline
  have hafterLine := (run_seen (s := s.record (.reading .requestLine)) _ (fun _ => rfl) h
    final_requestLine leftover hs).2 _ _ hline
  split at hread
  · cases hread
  rename_i hheaders
  have hafterHeaders := (seen_readHeaders h maxHeaders [] _
    (Session.atHand_record.mpr hafterLine)).2 _ _ hheaders
  split at hread
  · cases hread
  rename_i hdivider
  cases hread
  exact Session.atHand_record.mpr ((run_seen _ (fun _ => rfl) h final_divider _
    (Session.atHand_record.mpr hafterHeaders)).2 _ _ hdivider)

/-- Settings under which so many bytes are asked for in one read, and nothing is too
much. -/
def readingBy (readSize : Int) : HeadSettings :=
  { readSize := some readSize, maxBufferSize := some 0, maxHeaders := some 0 }

/-- **Reading a head takes the bytes of the head** off the leftover and the source, and
leaves those that follow, in part for the body and in part unread. -/
theorem readRequestHead_takes {readSize : Int} (hsize : 1 ≤ readSize) {leftover : Bytes}
    (hs : s.AtHand) (hhead : requestHead.verdict true w = .matched head [])
    (hbytes : leftover ++ s.source.bytes = w ++ more) :
    ∃ body after, readRequestHead (readingBy readSize) leftover s =
        (.ok { head with body }, after) ∧
      body ++ after.source.bytes = more ∧ after.AtHand := by
  obtain ⟨r, hr, hunlimited⟩ := ofSettings_unlimited hsize
  have hphases : readRequestHead (readingBy readSize) leftover s = readPhases r 0 leftover s := by
    have hlimit : Limits.resolve (some 0) Limits.maxHeaderCount = .ok 0 := rfl
    simp only [readRequestHead, readingBy, hlimit, hr]
  have hwhole : headIn 0 (w ++ more) = .ok { head with body := more } := by
    have hagree := headIn_agrees (w ++ more)
    rw [requestHead_append hhead more] at hagree
    generalize headIn 0 (w ++ more) = found at hagree ⊢
    cases hagree with
    | head h => rw [h]
  have hseen := seen_readPhases hunlimited 0 leftover hs
  rw [hbytes, hwhole] at hseen
  rw [hphases]
  rcases hread : readPhases r 0 leftover s with ⟨failure | found, after⟩
  · rw [hread] at hseen
    cases hseen
  · rw [hread] at hseen
    have hfound : found.whole after.source.bytes = { head with body := more } :=
      Except.ok.inj hseen
    refine ⟨found.body, after, ?_, congrArg RequestHead.body hfound,
      atHand_readPhases hunlimited hs hread⟩
    cases found
    cases hfound
    rfl

/-! ## Heads one after another -/

/-- **Reads so many heads from one source**, each from what the one before has left for
its body. -/
def readRequestHeads (settings : HeadSettings) : Nat → Bytes → Session →
    Except Failure (List RequestHead × Bytes) × Session
  | 0, leftover, s => (.ok ([], leftover), s)
  | n + 1, leftover, s =>
    match readRequestHead settings leftover s with
    | (.error failure, after) => (.error failure, after)
    | (.ok head, after) =>
      match readRequestHeads settings n head.body after with
      | (.error failure, last) => (.error failure, last)
      | (.ok (heads, body), last) => (.ok (head :: heads, body), last)

/-- **What a head says**: method, target, version and headers, whatever follows them. -/
def RequestHead.content (head : RequestHead) : Text × Text × Text × Entries Text Text :=
  (head.method, head.target, head.version, head.headers)

/-- **Heads are read in step with the bytes**, from any place in the source at which they
begin. -/
theorem readRequestHeads_takes {readSize : Int} (hsize : 1 ≤ readSize)
    {requests : List (Bytes × RequestHead)}
    (hrequests : ∀ q ∈ requests, requestHead.verdict true q.1 = .matched q.2 [])
    {leftover tail : Bytes} (hs : s.AtHand)
    (hbytes : leftover ++ s.source.bytes = (requests.map Prod.fst).flatten ++ tail) :
    ∃ heads body after, readRequestHeads (readingBy readSize) requests.length leftover s =
        (.ok (heads, body), after) ∧
      heads.map RequestHead.content = requests.map (fun q => q.2.content) ∧
      body ++ after.source.bytes = tail := by
  induction requests generalizing leftover s with
  | nil => exact ⟨[], leftover, s, rfl, rfl, hbytes⟩
  | cons q requests ih =>
    obtain ⟨hq, hrequests⟩ := List.forall_mem_cons.mp hrequests
    rw [List.map_cons, List.flatten_cons, List.append_assoc] at hbytes
    obtain ⟨body, after, hread, hrest, hafter⟩ := readRequestHead_takes hsize hs hq hbytes
    obtain ⟨heads, last, stop, hmore, hheads, htail⟩ := ih hrequests hafter hrest
    refine ⟨{ q.2 with body } :: heads, last, stop, ?_, ?_, htail⟩
    · rw [List.length_cons, readRequestHeads, hread]
      simp only [hmore]
    · rw [List.map_cons, List.map_cons, hheads]
      rfl

/-- **Pipelined requests stay in step.** From the bytes of some heads, one after another
and with a tail behind them, the heads are read in order, each as the grammar matches it
on its own, and the tail is left. It matters neither where the bytes that are here
already end and the source begins, nor how many are asked for in one read. -/
theorem pipelined_requests_stay_in_step {requests : List (Bytes × RequestHead)}
    (hrequests : ∀ q ∈ requests, ∃ remainder,
      requestHead.run (.complete q.1) = .matched q.2 remainder ∧ remainder.rest = [])
    {leftover data tail : Bytes}
    (hbytes : leftover ++ data = (requests.map Prod.fst).flatten ++ tail)
    {readSize : Int} (hsize : 1 ≤ readSize) :
    ∃ heads body after,
      readRequestHeads { readSize := some readSize, maxBufferSize := some 0, maxHeaders := some 0 }
          requests.length leftover (.start (.ofBytes data)) = (.ok (heads, body), after) ∧
        heads.map RequestHead.content = requests.map (fun q => q.2.content) ∧
        body ++ after.source.bytes = tail := by
  have hsource : (Session.start (.ofBytes data)).AtHand ∧
      (Session.start (.ofBytes data)).source.bytes = data := Session.atHand_of_eq rfl
  exact readRequestHeads_takes hsize (fun q hq => matched_complete.mpr (hrequests q hq)) hsource.1
    (by rw [hsource.2, hbytes])

/-- Two requests and a body, of which the beginning of the first line is here and the
rest is read three bytes at a time. -/
theorem pipelined_requests_stay_in_step_get_put :
    ∃ heads body after,
      readRequestHeads { readSize := some 3, maxBufferSize := some 0, maxHeaders := some 0 } 2
          (Element.piece "GET /".toList) (.start (.ofBytes (Element.piece
            "a HTTP/1.1\r\n\r\nPUT /b HTTP/1.1\r\nHost: c\r\n\r\nbody".toList))) =
          (.ok (heads, body), after) ∧
        heads.map RequestHead.content =
          [(.ofString "get", .ofString "/a", .ofString "1.1", []),
            (.ofString "put", .ofString "/b", .ofString "1.1",
              [(.ofString "host", .ofString "c")])] ∧
        body ++ after.source.bytes = Element.piece "body".toList := by
  have hget : ∃ remainder,
      requestHead.run (.complete (Element.piece "GET /a HTTP/1.1\r\n\r\n".toList)) =
        .matched { method := "get", target := "/a", version := "1.1", headers := [], body := [] }
          remainder ∧ remainder.rest = [] := by
    refine ⟨{ source := (Element.piece "GET /a HTTP/1.1\r\n\r\n".toList).toArray, pos := 19,
              final := true }, ?_, by decide⟩
    with_unfolding_all rfl
  have hput : ∃ remainder,
      requestHead.run (.complete (Element.piece "PUT /b HTTP/1.1\r\nHost: c\r\n\r\n".toList)) =
        .matched { method := "put", target := "/b", version := "1.1",
                   headers := [(.ofString "host", .ofString "c")], body := [] }
          remainder ∧ remainder.rest = [] := by
    refine ⟨{ source := (Element.piece "PUT /b HTTP/1.1\r\nHost: c\r\n\r\n".toList).toArray,
              pos := 28, final := true }, ?_, by decide⟩
    with_unfolding_all rfl
  have hrequests : ∀ q ∈ [(_, _), (_, _)], ∃ remainder,
      requestHead.run (.complete q.1) = .matched q.2 remainder ∧ remainder.rest = [] :=
    List.forall_mem_cons.mpr ⟨hget, List.forall_mem_singleton.mpr hput⟩
  exact pipelined_requests_stay_in_step hrequests (by decide) (by decide)

end StreamGrammar.Http
