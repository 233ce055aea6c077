import Mathlib.Data.List.Infix
import Mathlib.Data.List.Induction
import StreamGrammar.Limits

/-!
# What a depth guard counts

A guard is entered and left many times while a value is written, and some entries are refused.
If a refused entry were counted, or were followed by an exit all the same, the depth would be
wrong from then on, and it would show in values that come later and nest less deep.

Which entries are refused cannot be told from what was asked for. It depends on the depth, and
that on the answers before. So what is counted are the answers of the guard: one action changes
the depth by what its answer says (`depth_act`), and a run of actions by what all its answers
say (`depth_after`). That the depth stays below its limit holds of any run. That it does not
fall below zero is not the guard's doing, since nothing is checked at an exit. It is due to
those who use it (`Paired`).
-/

namespace StreamGrammar.DepthGuard

/-! ## Runs -/

/-- What is asked of a guard. -/
inductive Action where
  /-- A container is opened. -/
  | enter
  /-- A container is closed. -/
  | exit
deriving DecidableEq

/-- **What a guard answers.** -/
inductive Answer where
  /-- A container is open. -/
  | entered
  /-- No more containers may be open. -/
  | refused (failure : Failure)
  /-- A container is closed. -/
  | exited

/-- Whether an entry succeeded. -/
def Answer.isEntered : Answer → Bool
  | .entered => true
  | _ => false

/-- Whether there was an exit. -/
def Answer.isExited : Answer → Bool
  | .exited => true
  | _ => false

/-- **One action on a guard**: the answer, and the guard as it is then. -/
def act (g : DepthGuard) : Action → Answer × DepthGuard
  | .enter =>
    match g.tryEnter with
    | (.ok _, after) => (.entered, after)
    | (.error failure, after) => (.refused failure, after)
  | .exit => (.exited, g.exit)

/-- The guard after some actions. -/
def after (g : DepthGuard) : List Action → DepthGuard
  | [] => g
  | action :: actions => after (g.act action).2 actions

/-- The answers to some actions. -/
def answers (g : DepthGuard) : List Action → List Answer
  | [] => []
  | action :: actions => (g.act action).1 :: answers (g.act action).2 actions

/-- How many entries succeeded. -/
def entries (given : List Answer) : Nat := given.countP Answer.isEntered

/-- How many exits there were. -/
def exits (given : List Answer) : Nat := given.countP Answer.isExited

variable {g : DepthGuard} {actions actions' : List Action}

@[simp] theorem after_nil : g.after [] = g := rfl

@[simp] theorem answers_nil : g.answers [] = [] := rfl

@[simp] theorem after_append :
    g.after (actions ++ actions') = (g.after actions).after actions' := by
  induction actions generalizing g with
  | nil => rfl
  | cons action actions ih => exact ih

@[simp] theorem answers_append :
    g.answers (actions ++ actions') = g.answers actions ++ (g.after actions).answers actions' := by
  induction actions generalizing g with
  | nil => rfl
  | cons action actions ih => exact congrArg ((g.act action).1 :: ·) ih

@[simp] theorem entries_append (given given' : List Answer) :
    entries (given ++ given') = entries given + entries given' := List.countP_append

@[simp] theorem exits_append (given given' : List Answer) :
    exits (given ++ given') = exits given + exits given' := List.countP_append

@[simp] theorem entries_singleton (answer : Answer) :
    entries [answer] = if answer.isEntered then 1 else 0 := List.countP_singleton

@[simp] theorem exits_singleton (answer : Answer) :
    exits [answer] = if answer.isExited then 1 else 0 := List.countP_singleton

/-! ## One action -/

theorem act_enter_of_lt (h : g.depth < g.maxDepth) :
    g.act .enter = (.entered, { g with depth := g.depth + 1 }) := by
  rw [act, tryEnter_of_lt h]

theorem act_enter_of_le (h : g.maxDepth ≤ g.depth) :
    g.act .enter = (.refused g.refusal, g) := by
  rw [act, tryEnter_of_le h]

/-- **What an action does**: it opens a container below the limit, is refused at the limit and
does nothing, or closes a container. -/
theorem act_cases (g : DepthGuard) (action : Action) :
    (action = .enter ∧ g.depth < g.maxDepth ∧
        g.act action = (.entered, { g with depth := g.depth + 1 })) ∨
      (action = .enter ∧ g.maxDepth ≤ g.depth ∧ g.act action = (.refused g.refusal, g)) ∨
      (action = .exit ∧ g.act action = (.exited, g.exit)) := by
  cases action with
  | enter =>
    by_cases h : g.depth < g.maxDepth
    · exact .inl ⟨rfl, h, act_enter_of_lt h⟩
    · have hle : g.maxDepth ≤ g.depth := Int.not_lt.mp h
      exact .inr (.inl ⟨rfl, hle, act_enter_of_le hle⟩)
  | exit => exact .inr (.inr ⟨rfl, rfl⟩)

@[simp] theorem maxDepth_act (g : DepthGuard) (action : Action) :
    (g.act action).2.maxDepth = g.maxDepth := by
  obtain ⟨-, -, h⟩ | ⟨-, -, h⟩ | ⟨-, h⟩ := act_cases g action <;> rw [h]
  rfl

/-- **An action changes the depth by what its answer says.** -/
theorem depth_act (g : DepthGuard) (action : Action) :
    (g.act action).2.depth =
      g.depth + entries [(g.act action).1] - exits [(g.act action).1] := by
  obtain ⟨-, -, h⟩ | ⟨-, -, h⟩ | ⟨-, h⟩ := act_cases g action <;> rw [h] <;>
    simp [Answer.isEntered, Answer.isExited]

/-- No action leads past the limit. -/
theorem depth_act_le (h : g.depth ≤ max 0 g.maxDepth) (action : Action) :
    (g.act action).2.depth ≤ max 0 g.maxDepth := by
  obtain ⟨-, hlt, hact⟩ | ⟨-, -, hact⟩ | ⟨-, hact⟩ := act_cases g action <;> rw [hact]
  · dsimp only
    omega
  · exact h
  · rw [depth_exit]
    omega

/-! ## Any actions -/

@[simp] theorem maxDepth_after (g : DepthGuard) (actions : List Action) :
    (g.after actions).maxDepth = g.maxDepth := by
  induction actions generalizing g with
  | nil => rfl
  | cons action actions ih => exact (ih _).trans (maxDepth_act g action)

/-- **Actions change the depth by what their answers say.** -/
theorem depth_after (g : DepthGuard) (actions : List Action) :
    (g.after actions).depth =
      g.depth + entries (g.answers actions) - exits (g.answers actions) := by
  induction actions using List.reverseRecOn with
  | nil => simp [entries, exits]
  | append_singleton actions action ih =>
    have hlast := depth_act (g.after actions) action
    simp only [after_append, answers_append, entries_append, exits_append, after, answers]
    omega

/-- No actions lead past the limit. -/
theorem depth_after_le (h : g.depth ≤ max 0 g.maxDepth) :
    (g.after actions).depth ≤ max 0 g.maxDepth := by
  induction actions generalizing g with
  | nil => exact h
  | cons action actions ih =>
    have hact := depth_act_le h action
    rw [← maxDepth_act g action] at hact ⊢
    exact ih hact

/-! ## Exits that have their entries -/

/-- **Each exit has an entry before it that succeeded** and that no other exit has. -/
def Paired (g : DepthGuard) (actions : List Action) : Prop :=
  ∀ done, done ++ [.exit] <+: actions → exits (g.answers done) < entries (g.answers done)

instance : Decidable (g.Paired actions) :=
  decidable_of_iff (∀ done ∈ actions.inits, done ++ [.exit] <+: actions →
      exits (g.answers done) < entries (g.answers done))
    ⟨fun h done hdone => h done ((List.mem_inits _ _).mpr ((List.prefix_append _ _).trans hdone))
      hdone, fun h done _ => h done⟩

/-- There are never more exits than entries. -/
theorem Paired.exits_le (h : g.Paired actions) {done : List Action} (hdone : done <+: actions) :
    exits (g.answers done) ≤ entries (g.answers done) := by
  induction done using List.reverseRecOn with
  | nil => exact Nat.le_refl 0
  | append_singleton done action ih =>
    have hbefore := ih ((List.prefix_append _ _).trans hdone)
    simp only [answers_append, entries_append, exits_append, answers, entries_singleton,
      exits_singleton]
    obtain ⟨-, -, hact⟩ | ⟨-, -, hact⟩ | ⟨rfl, hact⟩ := act_cases (g.after done) action <;>
      rw [hact]
    · exact Nat.le_succ_of_le hbefore
    · exact hbefore
    · exact h done hdone

/-- **What it means that a guard does not drift** in the course of some actions, where so many
containers may be open: all of this holds after each beginning of them. -/
structure Keeps (g : DepthGuard) (limit : Int) (actions : List Action) : Prop where
  /-- The depth is how many entries succeeded, less how many exits there were. -/
  depth_eq : ∀ done, done <+: actions →
    (g.after done).depth = entries (g.answers done) - exits (g.answers done)
  /-- The depth is within its bounds. -/
  within : ∀ done, done <+: actions →
    0 ≤ (g.after done).depth ∧ (g.after done).depth ≤ max 0 limit
  /-- An entry succeeds exactly below the limit. -/
  enter_iff : ∀ done, done ++ [.enter] <+: actions →
    ((∃ inside, (g.after done).enter = .ok inside) ↔ (g.after done).depth < limit)
  /-- An entry that fails is refused because of the limit, and the guard is what it was. -/
  refused : ∀ done failure, done ++ [.enter] <+: actions →
    (g.after done).enter = .error failure →
      failure = .limitExceeded (.diagnosed (.jsonDepthExceeded limit none none)) limit ∧
        g.after (done ++ [.enter]) = g.after done

/-- A guard with nothing open does not drift if exits have their entries. -/
theorem keeps_of_paired (hopen : g.depth = 0) (h : g.Paired actions) :
    g.Keeps g.maxDepth actions where
  depth_eq done _ := by
    rw [depth_after, hopen, Int.zero_add]
  within done hdone := by
    have hexits := h.exits_le hdone
    have hdepth := depth_after g done
    exact ⟨by omega, depth_after_le (by omega)⟩
  enter_iff done _ := by
    rw [← maxDepth_after g done]
    generalize g.after done = now
    by_cases hlt : now.depth < now.maxDepth
    · simp [enter_of_lt hlt, hlt]
    · simp [enter_of_le (Int.not_lt.mp hlt), hlt]
  refused done failure _ hfailure := by
    rw [after_append, ← maxDepth_after g done]
    generalize g.after done = now at hfailure ⊢
    have hle : now.maxDepth ≤ now.depth := Int.not_lt.mp fun hlt => by
      rw [enter_of_lt hlt] at hfailure
      cases hfailure
    exact ⟨enter_eq_error hfailure, congrArg Prod.snd (act_enter_of_le hle)⟩

/-- A stack bears an open container for each frame that is not kept free. -/
theorem maxDepth_ofDepth (maxDepth : Int) (frames : Nat) :
    (ofDepth maxDepth frames).maxDepth = min maxDepth (max 1 (frames - 50)) := by
  show min maxDepth (max 1 (((frames : Int) - 50).fdiv 1)) = _
  rw [Int.fdiv_one]

end StreamGrammar.DepthGuard
