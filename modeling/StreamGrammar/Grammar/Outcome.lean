import StreamGrammar.Cursor
import StreamGrammar.Grammar.Reason

/-!
# Outcomes

Running a parser at a cursor ends in one of four ways that the input decides
on, and they differ in what may happen next. After a match parsing goes on at
the remainder. After a rejection another alternative may be tried at the same
place. After a fatal outcome nothing may: the input is malformed whichever
alternative was meant. And a truncated outcome says that the input ran out
before any of this could be known, so a reader should fetch more and ask again.

The fifth way is no verdict on the input. A conversion that a grammar does not
guard may fail all the same, and that ends the whole run.
-/

namespace StreamGrammar

/-- **How a run of a parser ends.** -/
inductive Outcome (ε α : Type) where
  /-- The parser recognised a beginning of the input. -/
  | matched (value : α) (remainder : Cursor ε)
  /-- The parser does not match here; an alternative may. -/
  | rejected (reason : Reason)
  /-- The input is malformed, and no alternative is tried. -/
  | fatal (reason : Reason)
  /-- The input ran out before the parser could decide. What it recognised so
  far may be usable as a partial result. -/
  | truncated (best : Option α) (remainder : Cursor ε)
  /-- An unguarded conversion failed. -/
  | raised (fault : Fault)

/-- **A parser**, by what it makes of every place of a source. -/
abbrev Parser (ε α : Type) := Cursor ε → Outcome ε α

/-- The four verdicts on the input. -/
inductive OutcomeKind where
  /-- Recognised. -/
  | matched
  /-- Does not match here. -/
  | rejected
  /-- Malformed. -/
  | fatal
  /-- Not decided yet. -/
  | truncated
deriving DecidableEq

/-- The name of a verdict. -/
def OutcomeKind.name : OutcomeKind → String
  | .matched => "matched"
  | .rejected => "rejected"
  | .fatal => "fatal"
  | .truncated => "truncated"

/-- How a parser turns down what it matched. -/
inductive Refusal where
  /-- By rejecting it: alternatives remain. -/
  | rejected
  /-- For good. -/
  | fatal
deriving DecidableEq

/-- The outcome of a refusal. -/
def Refusal.outcome {ε α : Type} : Refusal → Reason → Outcome ε α
  | .rejected, reason => .rejected reason
  | .fatal, reason => .fatal reason

/-- **Values that stand for no value.** What a parser recognised before it was cut
short is a partial result only if it is a value at all, and a value that stands
for none is none. Most types have no such value. -/
class Vacancy (α : Type) where
  /-- Whether a value stands for none. -/
  isVacant : α → Bool := fun _ => false

namespace Vacancy

variable {α β : Type}

/-- A value that is there stands for none if it says so itself. -/
instance [Vacancy α] : Vacancy (Option α) := ⟨fun a => a.all isVacant⟩

instance : Vacancy Datum := ⟨Datum.isNull⟩

instance : Vacancy (List α) where

instance : Vacancy (α × β) where

instance : Vacancy (Except α β) where

instance : Vacancy Nat where

instance : Vacancy Unit where

/-- A value as a partial result. -/
def toPartial [Vacancy α] (a : α) : Option α := if isVacant a then none else some a

/-- A partial result is the value that it is made of. -/
theorem toPartial_eq [Vacancy α] (a : α) : toPartial a = none ∨ toPartial a = some a := by
  unfold toPartial
  split
  · exact .inl rfl
  · exact .inr rfl

/-- A list is a value, even the empty one. -/
@[simp] theorem toPartial_list (a : List α) : toPartial a = some a := rfl

end Vacancy

namespace Outcome

variable {ε α β : Type}

/-- The verdict on the input, if the run ended with one. -/
def kind? : Outcome ε α → Option OutcomeKind
  | matched _ _ => some .matched
  | rejected _ => some .rejected
  | fatal _ => some .fatal
  | truncated _ _ => some .truncated
  | raised _ => none

/-- Whether the outcome is a verdict that does not wait for more input. -/
def isDecided : Outcome ε α → Bool
  | truncated _ _ => false
  | _ => true

/-- The outcome with its value read through a function, and a partial result
likewise. -/
def map [Vacancy β] (f : α → β) : Outcome ε α → Outcome ε β
  | matched value remainder => .matched (f value) remainder
  | rejected reason => .rejected reason
  | fatal reason => .fatal reason
  | truncated best remainder => .truncated (best.bind fun a => Vacancy.toPartial (f a)) remainder
  | raised fault => .raised fault

end Outcome

end StreamGrammar
