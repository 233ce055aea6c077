import StreamGrammar.Grammar.Outcome

/-!
# Choices

Where one parser does not match, another may be tried at the same place. What
that means is clear as long as the first has decided. Where it was cut short,
the second decides with less than the whole input before it, and the two rules
here draw the line differently: `either` demotes a match of the second to a
partial result and lets the second refuse, while `eitherOf` remembers that an
alternative was cut short until another one matches or fails for good.
-/

namespace StreamGrammar.Choice

variable {ε α : Type}

/-- The first parser, or the second where the first rejects. Where the first is
cut short without a partial result the second runs as well, and its match is
only tentative. -/
def either [Vacancy α] (first second : Parser ε α) : Parser ε α := fun c =>
  match first c with
  | .rejected _ => second c
  | .truncated none _ =>
    match second c with
    | .matched value remainder => .truncated (Vacancy.toPartial value) remainder
    | other => other
  | outcome => outcome

/-- The first parser, or the second where the first does not match yet. The
first is remembered as truncated unless the second decides otherwise. -/
def alt (first second : Parser ε α) : Parser ε α := fun c =>
  match first c with
  | .rejected _ => second c
  | .truncated best remainder =>
    match second c with
    | .rejected _ => .truncated best remainder
    | other => other
  | outcome => outcome

/-- No alternative is left. -/
def noAlternative : Parser ε α := fun c => .rejected (.noAlternative c.pos)

/-- The first of some parsers that matches; failing that, the last that was cut
short. -/
def eitherOf (choices : List (Parser ε α)) : Parser ε α := choices.foldr alt noAlternative

end StreamGrammar.Choice
