import StreamGrammar.Element
import StreamGrammar.Span

/-!
# Cursors

A cursor is a position in a source, together with the knowledge whether the
source is all there will ever be. What a parser sees of it is the list of
elements from the position on, `Cursor.rest`; every look at the input is a
function of that list, and the lemmas of this module say which. Only the
positions that a reason quotes, and the lines counted for a span, look back.

A position past the end of the source is allowed. Nothing is left there, and
moving on from it goes to the end.
-/

namespace StreamGrammar

/-- **A position in a source.** -/
structure Cursor (ε : Type) where
  /-- All elements received. -/
  source : Array ε
  /-- How many elements lie before the cursor. -/
  pos : Nat
  /-- Whether no element will be added to the source. -/
  final : Bool

namespace Cursor

variable {ε : Type}

/-- The start of input that may still grow. -/
def streaming (source : List ε) : Cursor ε := { source := source.toArray, pos := 0, final := false }

/-- The start of input that is complete. -/
def complete (source : List ε) : Cursor ε := { source := source.toArray, pos := 0, final := true }

/-! ## Looking ahead -/

/-- The elements from the cursor on. -/
def rest (c : Cursor ε) : List ε := (c.source.extract c.pos c.source.size).toList

/-- How many elements are left. -/
def remaining (c : Cursor ε) : Nat := c.source.size - c.pos

/-- Whether no element is left. -/
def atEnd (c : Cursor ε) : Bool := c.source.size ≤ c.pos

/-- The element at a distance from the cursor. -/
def peek? (c : Cursor ε) (offset : Nat) : Option ε := c.source[c.pos + offset]?

/-- The next element. -/
def current? (c : Cursor ε) : Option ε := c.source[c.pos]?

/-- The elements from the cursor up to an offset of the source. -/
def sliceTo (c : Cursor ε) (stop : Nat) : List ε := (c.source.extract c.pos stop).toList

/-- The next elements, fewer where the source ends. -/
def sliceAhead (c : Cursor ε) (n : Nat) : List ε := c.sliceTo (c.pos + n)

/-- The cursor moved on, at most to the end of the source. -/
def advance (c : Cursor ε) (n : Nat) : Cursor ε :=
  { c with pos := min (c.pos + n) c.source.size }

/-- The first offset from `i` on whose element fails the test, or the end of
the source. -/
def scanFrom (test : ε → Bool) (source : Array ε) (i : Nat) : Nat :=
  if h : i < source.size then
    if test source[i] then scanFrom test source (i + 1) else i
  else i
termination_by source.size - i

/-- The first offset at or after the cursor whose element fails the test; the
cursor's own where nothing is left. -/
def scan (test : ε → Bool) (c : Cursor ε) : Nat := scanFrom test c.source c.pos

/-- How far the cursor is from the end of the source, on either side. -/
def distance (c : Cursor ε) : Nat := (c.source.size - c.pos) + (c.pos - c.source.size)

/-! ### What is seen is a function of the rest -/

theorem rest_eq (c : Cursor ε) : c.rest = c.source.toList.drop c.pos := by
  rw [rest, Array.toList_extract, List.extract_eq_take_drop]
  exact List.take_of_length_le (by simp)

@[simp] theorem rest_streaming (source : List ε) : (streaming source).rest = source := by
  simp [rest_eq, streaming]

@[simp] theorem rest_complete (source : List ε) : (complete source).rest = source := by
  simp [rest_eq, complete]

theorem atEnd_iff (c : Cursor ε) : c.atEnd = true ↔ c.rest = [] := by
  simp [atEnd, rest_eq, List.drop_eq_nil_iff]

theorem current?_eq (c : Cursor ε) : c.current? = c.rest.head? := by
  simp [current?, rest_eq, List.head?_drop]

theorem sliceAhead_eq (c : Cursor ε) (n : Nat) : c.sliceAhead n = c.rest.take n := by
  simp [sliceAhead, sliceTo, rest_eq, Array.toList_extract, List.extract_eq_take_drop]

theorem sliceTo_eq (c : Cursor ε) (stop : Nat) :
    c.sliceTo stop = c.rest.take (stop - c.pos) := by
  simp [sliceTo, rest_eq, Array.toList_extract, List.extract_eq_take_drop]

@[simp] theorem rest_advance (c : Cursor ε) (n : Nat) :
    (c.advance n).rest = c.rest.drop n := by
  simp only [rest_eq, advance, List.drop_drop]
  by_cases h : c.pos + n ≤ c.source.size
  · rw [Nat.min_eq_left h]
  · rw [Nat.min_eq_right (by omega), List.drop_eq_nil_of_le (by simp),
      List.drop_eq_nil_of_le (by simp; omega)]

@[simp] theorem final_advance (c : Cursor ε) (n : Nat) : (c.advance n).final = c.final := rfl

@[simp] theorem source_advance (c : Cursor ε) (n : Nat) : (c.advance n).source = c.source := rfl

theorem scanFrom_eq (test : ε → Bool) (source : Array ε) (i : Nat) :
    scanFrom test source i = i + ((source.toList.drop i).takeWhile test).length := by
  induction h : source.size - i generalizing i with
  | zero =>
    rw [scanFrom, dif_neg (by omega), List.drop_eq_nil_of_le (by simp; omega)]
    rfl
  | succ n ih =>
    have hi : i < source.size := by omega
    have hd : source.toList.drop i = source[i] :: source.toList.drop (i + 1) := by
      simp [List.drop_eq_getElem_cons, hi]
    rw [scanFrom, dif_pos hi, hd]
    by_cases ht : test source[i] = true
    · rw [if_pos ht, ih (i + 1) (by omega), List.takeWhile_cons_of_pos ht, List.length_cons]
      omega
    · rw [if_neg ht, List.takeWhile_cons_of_neg ht]
      rfl

/-- **Scanning ahead takes the longest run that passes the test.** -/
theorem scan_eq (test : ε → Bool) (c : Cursor ε) :
    c.scan test = c.pos + (c.rest.takeWhile test).length := by
  rw [scan, scanFrom_eq, rest_eq]

/-! ## Lines and columns -/

variable [Element ε]

/-- The elements before the cursor. -/
def before (c : Cursor ε) : List ε := (c.source.extract 0 c.pos).toList

/-- How many line feeds lie before the cursor. -/
def newlinesBefore (c : Cursor ε) : Nat := c.before.count Element.newline

/-- The offset after the last line feed before the cursor: where its line
starts. -/
def lineStart (c : Cursor ε) : Nat :=
  c.before.length - (c.before.reverse.takeWhile (fun e => e != Element.newline)).length

/-- The line and the column of the cursor, both counted from one. -/
def lineColumn (c : Cursor ε) : Nat × Nat :=
  (c.newlinesBefore + 1, c.pos - c.lineStart + 1)

/-- **The place of the cursor**, an empty span; past the end, the end. -/
def toSpan (c : Cursor ε) : Span :=
  let pos := min c.pos c.source.size
  let (line, column) := { c with pos }.lineColumn
  { start := pos, stop := pos, line, column }

end Cursor

end StreamGrammar
