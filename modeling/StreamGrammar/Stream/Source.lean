import StreamGrammar.Text.Numeral

/-!
# Byte sources

A source hands out bytes as they arrive: each read gives at most as many as
were asked for, and never joins what arrived apart. It is described by what
will arrive, chunks and failures in order. After the last of them every read
comes back empty.
-/

namespace StreamGrammar

/-- Why a read failed. -/
inductive ReadError where
  /-- A message alone. -/
  | plain (message : Text)
  /-- A message with the number of the error. -/
  | numbered (number : Int) (message : Text)
deriving DecidableEq

/-- What a failed read says. -/
def ReadError.message : ReadError → Text
  | .plain message => message
  | .numbered number message =>
    Text.concat ["[Errno ", Numeral.signed number, "] ", message]

/-- What arrives at once. -/
inductive Arrival where
  /-- Bytes, possibly none. -/
  | chunk (bytes : Bytes)
  /-- A failure. -/
  | failure (error : ReadError)
deriving DecidableEq

/-- **A byte source**, by what has not been read of it. -/
abbrev Source := List Arrival

namespace Source

/-- Reads at most `n` bytes: those of the next arrival, whose other bytes stay
for later. -/
def read (n : Nat) : Source → Except ReadError Bytes × Source
  | [] => (.ok [], [])
  | .failure error :: later => (.error error, later)
  | .chunk bytes :: later =>
    (.ok (bytes.take n),
      if (bytes.drop n).isEmpty then later else .chunk (bytes.drop n) :: later)

/-- The bytes that are still to come. -/
def bytes : Source → Bytes
  | [] => []
  | .failure _ :: later => bytes later
  | .chunk b :: later => b ++ bytes later

/-- How many bytes and arrivals are still to come. -/
def weight : Source → Nat
  | [] => 0
  | .failure _ :: later => 1 + weight later
  | .chunk b :: later => 1 + b.length + weight later

@[simp] theorem read_nil (n : Nat) : read n [] = (.ok [], []) := rfl

/-- A read of at least one byte takes something off a source that is not at
its end. -/
theorem weight_read {n : Nat} (hn : 0 < n) {s : Source} (hs : s ≠ []) :
    (s.read n).2.weight < s.weight := by
  match s, hs with
  | .failure e :: later, _ => simp [read, weight]
  | .chunk b :: later, _ =>
    simp only [read]
    split
    · simp only [weight]
      omega
    · rename_i h
      have : b.drop n ≠ [] := by simpa using h
      have : n < b.length := by simpa [List.drop_eq_nil_iff] using this
      simp only [weight, List.length_drop]
      omega

theorem length_of_read {n : Nat} {s later : Source} {b : Bytes}
    (h : s.read n = (.ok b, later)) : b.length ≤ n := by
  match s with
  | [] => simp only [read, Prod.mk.injEq, Except.ok.injEq] at h; simp [← h.1]
  | .failure e :: _ => simp [read] at h
  | .chunk c :: _ =>
    simp only [read, Prod.mk.injEq, Except.ok.injEq] at h
    rw [← h.1, List.length_take]
    exact Nat.min_le_left _ _

/-- A read takes its bytes off the front of those still to come. -/
theorem bytes_of_read {n : Nat} {s later : Source} {b : Bytes}
    (h : s.read n = (.ok b, later)) : s.bytes = b ++ later.bytes := by
  match s with
  | [] =>
    simp only [read, Prod.mk.injEq, Except.ok.injEq] at h
    simp [← h.1, ← h.2]
  | .failure e :: _ => simp [read] at h
  | .chunk c :: rest =>
    simp only [read, Prod.mk.injEq, Except.ok.injEq] at h
    rw [← h.1, ← h.2]
    split
    · rename_i hd
      have hd : c.drop n = [] := by simpa using hd
      have : c.take n = c := by
        have := List.take_append_drop n c
        simpa [hd] using this
      simp [bytes, this]
    · simp only [bytes]
      rw [← List.append_assoc, List.take_append_drop]

end Source

end StreamGrammar
