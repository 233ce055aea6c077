import StreamGrammar.Failure
import StreamGrammar.Event
import StreamGrammar.Diagnostic.Template

/-!
# Limits

Untrusted input is bounded in three ways: how large it is, how much of it is
buffered, and how deep it nests. Every limit has a default and can be set, and
zero switches a limit on size off. Depth is bounded by the stack as well,
which bears so many frames, so a depth that needs more is lowered.
-/

namespace StreamGrammar

namespace Limits

/-! ## Defaults -/

/-- Bytes asked for in one read. -/
def defaultReadSize : Nat := 1024

/-- Bytes that one phase may accumulate. -/
def maxBufferSize : Nat := 64 * 1024

/-- Elements of a complete source. -/
def maxSourceSize : Nat := 10 * 1024 * 1024

/-- Headers of a request head. -/
def maxHeaderCount : Nat := 100

/-- Nested JSON containers. -/
def maxJsonDepth : Nat := 32

/-- Stack frames that one nested JSON container takes to parse. -/
def framesPerJsonLevel : Nat := 20

/-- Stack frames that there are, unless the stack is given another size. -/
def stackFrames : Nat := 1000

/-- Stack frames that are kept free. -/
def reservedFrames : Nat := 50

/-! ## Resolving -/

/-- A limit as it was set, if it was. -/
def override? (value : Option Int) : Except Failure (Option Nat) :=
  match value with
  | none => .ok none
  | some (.ofNat n) => .ok (some n)
  | some v => .error (.invalidArgument (.negativeLimit v))

/-- A limit as it was set, or its default. -/
def resolve (value : Option Int) (default : Nat) : Except Failure Nat :=
  (override? value).map fun set => set.getD default

@[simp] theorem resolve_none (default : Nat) : resolve none default = .ok default := rfl

@[simp] theorem resolve_natCast (n default : Nat) :
    resolve (some (n : Int)) default = .ok n := rfl

/-- Refuses an input larger than a limit that is not zero. -/
def checkSourceSize (size limit : Nat) : Except Failure Unit :=
  if 0 < limit ∧ limit < size then
    .error (.limitExceeded (.diagnosed (.sourceSizeExceeded size limit)) limit)
  else .ok ()

/-! ## Depth -/

/-- The greatest depth that the stack bears; at least one. -/
def safeDepth (framesPerLevel reserve : Int) (frames : Nat := stackFrames) : Int :=
  max 1 (((frames : Int) - reserve).fdiv framesPerLevel)

/-- **A depth lowered to what the stack bears.** -/
def clampDepth (requested framesPerLevel reserve : Int) (frames : Nat := stackFrames) : Int :=
  min requested (safeDepth framesPerLevel reserve frames)

/-- What is recorded of a depth that had to be lowered. -/
def clampEvents (requested framesPerLevel reserve : Int) (frames : Nat := stackFrames) :
    List Event :=
  let granted := clampDepth requested framesPerLevel reserve frames
  if granted < requested then [.depthClamped requested granted frames] else []

/-- A nesting depth as it was set, or its default. It admits one container at
least. -/
def resolveDepth (maxDepth : Option Int) : Except Failure Nat :=
  match resolve maxDepth maxJsonDepth with
  | .error failure => .error failure
  | .ok depth => if depth < 1 then .error (.invalidArgument (.depthBelowOne depth)) else .ok depth

theorem resolveDepth_of_pos {maxDepth : Int} (h : 1 ≤ maxDepth) :
    resolveDepth (some maxDepth) = .ok maxDepth.toNat := by
  obtain ⟨n, rfl⟩ := Int.eq_ofNat_of_zero_le (show 0 ≤ maxDepth by omega)
  have hn : ¬n < 1 := by omega
  rw [resolveDepth, resolve_natCast, Int.toNat_natCast]
  exact if_neg hn

/-- A limit that is refused is an invalid argument. -/
theorem invalidArgument_of_resolve {value : Option Int} {default : Nat} {failure : Failure}
    (h : resolve value default = .error failure) : ∃ why, failure = .invalidArgument why := by
  unfold resolve override? at h
  split at h
  · cases h
  · cases h
  · cases h
    exact ⟨_, rfl⟩

theorem invalidArgument_of_resolveDepth {maxDepth : Option Int} {failure : Failure}
    (h : resolveDepth maxDepth = .error failure) : ∃ why, failure = .invalidArgument why := by
  unfold resolveDepth at h
  split at h
  · rename_i hresolve
    cases h
    exact invalidArgument_of_resolve hresolve
  · split at h <;> cases h
    exact ⟨_, rfl⟩

end Limits

/-! ## Counting depth -/

/-- **A counter of open containers.** Entering is refused at the greatest
depth, and a refused entry changes nothing. -/
structure DepthGuard where
  /-- The greatest depth. -/
  maxDepth : Int
  /-- How many containers are open. -/
  depth : Int
deriving DecidableEq

namespace DepthGuard

/-- A guard with nothing open, for a depth that the stack bears. -/
def ofDepth (maxDepth : Int) (frames : Nat := Limits.stackFrames) : DepthGuard :=
  { maxDepth := Limits.clampDepth maxDepth 1 Limits.reservedFrames frames, depth := 0 }

/-- How an entry is refused. -/
def refusal (g : DepthGuard) : Failure :=
  .limitExceeded (.diagnosed (.jsonDepthExceeded g.maxDepth none none)) g.maxDepth

/-- **Opens a container** if there is room for one. The depth is looked at before it
is counted up, so a guard that refuses is the guard that it was. -/
def tryEnter (g : DepthGuard) : Except Failure Unit × DepthGuard :=
  if g.maxDepth ≤ g.depth then (.error g.refusal, g)
  else (.ok (), { g with depth := g.depth + 1 })

/-- The guard inside the container, for those who do not go on after a refusal. -/
def enter (g : DepthGuard) : Except Failure DepthGuard :=
  match g.tryEnter with
  | (.ok _, inside) => .ok inside
  | (.error failure, _) => .error failure

/-- Closes a container. -/
def exit (g : DepthGuard) : DepthGuard := { g with depth := g.depth - 1 }

@[simp] theorem maxDepth_exit (g : DepthGuard) : g.exit.maxDepth = g.maxDepth := rfl

@[simp] theorem depth_exit (g : DepthGuard) : g.exit.depth = g.depth - 1 := rfl

theorem tryEnter_of_lt {g : DepthGuard} (h : g.depth < g.maxDepth) :
    g.tryEnter = (.ok (), { g with depth := g.depth + 1 }) := by
  rw [tryEnter, if_neg (by omega)]

theorem tryEnter_of_le {g : DepthGuard} (h : g.maxDepth ≤ g.depth) :
    g.tryEnter = (.error g.refusal, g) := by
  rw [tryEnter, if_pos h]

theorem enter_of_lt {g : DepthGuard} (h : g.depth < g.maxDepth) :
    g.enter = .ok { g with depth := g.depth + 1 } := by
  rw [enter, tryEnter_of_lt h]

theorem enter_of_le {g : DepthGuard} (h : g.maxDepth ≤ g.depth) :
    g.enter = .error g.refusal := by
  rw [enter, tryEnter_of_le h]

theorem enter_eq_ok {g inside : DepthGuard} (h : g.enter = .ok inside) :
    g.depth < g.maxDepth ∧ inside = { g with depth := g.depth + 1 } := by
  by_cases hlt : g.depth < g.maxDepth
  · rw [enter_of_lt hlt] at h
    exact ⟨hlt, (Except.ok.inj h).symm⟩
  · rw [enter_of_le (by omega)] at h
    cases h

theorem enter_eq_error {g : DepthGuard} {failure : Failure} (h : g.enter = .error failure) :
    failure = g.refusal := by
  by_cases hlt : g.depth < g.maxDepth
  · rw [enter_of_lt hlt] at h
    cases h
  · rw [enter_of_le (by omega)] at h
    exact (Except.error.inj h).symm

end DepthGuard

end StreamGrammar
