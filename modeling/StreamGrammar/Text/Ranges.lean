/-!
# Sets of numbers as ranges

A property of code points is a set of some hundred ranges. A number has the
property when it lies in one of them.
-/

namespace StreamGrammar

/-- Ranges of numbers, both ends included. -/
abbrev Ranges := List (Nat × Nat)

/-- Whether a number lies in one of the ranges. -/
def Ranges.contains (table : Ranges) (n : Nat) : Bool :=
  table.any fun r => r.1 ≤ n && n ≤ r.2

end StreamGrammar
