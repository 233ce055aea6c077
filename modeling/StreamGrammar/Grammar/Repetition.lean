import StreamGrammar.Grammar.Outcome

/-!
# Repetition

A parser is run again and again, each time at the remainder of the last run.
One that matches without consuming would go on for ever, so such a match ends
the repetition. What makes the loops below end is the same rule seen from the
other side: each round brings the cursor closer to the end of the source, and
where a round does not, the loop stops.
-/

namespace StreamGrammar.Repetition

variable {ε α σ : Type}

/-- Runs a parser at a cursor and then at every remainder, after the values
already collected (the latest first). -/
def collect (step : Cursor ε → Outcome ε α) (values : List α) (c : Cursor ε) :
    Outcome ε (List α) :=
  match step c with
  | .matched value remainder =>
    if remainder.distance < c.distance then collect step (value :: values) remainder
    else .matched values.reverse c
  | .rejected _ => .matched values.reverse c
  | .fatal reason => .fatal reason
  | .truncated best remainder =>
    .truncated (some (best.toList ++ values).reverse) remainder
  | .raised fault => .raised fault
termination_by c.distance

/-- Runs two parsers by turns, an item and a separator, after the items already
collected (the latest first). The position after the last item is kept,
because a separator that no item follows is left alone. -/
def collectSeparated (separator : Cursor ε → Outcome ε σ) (item : Cursor ε → Outcome ε α)
    (items : List α) (c afterItem : Cursor ε) : Outcome ε (List α) :=
  match item c with
  | .matched value remainder =>
    match separator remainder with
    | .matched _ past =>
      if past.distance < remainder.distance ∧ past.distance < c.distance then
        collectSeparated separator item (value :: items) past remainder
      else .matched (value :: items).reverse remainder
    | .rejected _ => .matched (value :: items).reverse remainder
    | .fatal reason => .fatal reason
    | .truncated _ _ => .truncated (some (value :: items).reverse) remainder
    | .raised fault => .raised fault
  | .rejected _ => .matched items.reverse afterItem
  | .fatal reason => .fatal reason
  | .truncated best remainder =>
    .truncated (some (best.toList ++ items).reverse) remainder
  | .raised fault => .raised fault
termination_by c.distance
decreasing_by omega

end StreamGrammar.Repetition
