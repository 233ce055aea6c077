import StreamGrammar.Binary64.Basic
import StreamGrammar.Text.Numeral

/-!
# Doubles and decimal numbers

A decimal number `digits · 10 ^ exponent` is read as the nearest double. The
other way there is a choice, because many decimal numbers read back as one
double; the numeral chosen has the fewest digits, and is the nearest of
those. `Binary64.shortest` searches for it by length, and tests each
candidate by *reading it*, so that what it returns reads back by the way it
was found.
-/

namespace StreamGrammar.Binary64

/-! ## Reading -/

/-- A decimal number `digits · 10 ^ exponent`. -/
structure Decimal where
  /-- The digits, as one number. -/
  digits : Nat
  /-- The power of ten they are multiplied by. -/
  exponent : Int
deriving DecidableEq

/-- The value of a decimal number. -/
def Decimal.ratio (d : Decimal) : Ratio := (Ratio.ofNat d.digits).scale .ten d.exponent

/-- **The double nearest to a decimal number** `digits · 10 ^ exponent`. An
exponent above 400, or one so far below zero that the digits cannot make up
for it, is decided without computing the power. -/
def ofDecimal (negative : Bool) (d : Decimal) : Binary64 :=
  if d.digits = 0 then zero negative
  else if 400 < d.exponent then infinity negative
  else if d.exponent < -401 - (d.digits.log2 : Int) then zero negative
  else ofRatio negative d.ratio

/-! ## The shortest numeral -/

/-- A decimal number without zeros at its end. -/
def Decimal.trim (d : Decimal) : Decimal :=
  if _h : d.digits ≠ 0 ∧ d.digits % 10 = 0 then
    Decimal.trim { digits := d.digits / 10, exponent := d.exponent + 1 }
  else d
termination_by d.digits
decreasing_by omega

/-- Whether a decimal number reads back as the absolute value of a double. -/
def readsBack (x : Binary64) (d : Decimal) : Bool :=
  ofDecimal false d = { x with negative := false }

/-- The multiples of ten to the `exponent` on either side of a double, the
nearer first, and the one with the even last digit first if they are equally
near. -/
def neighbours (x : Binary64) (exponent : Int) : List Decimal :=
  let scaled := x.ratio.scale .ten (-exponent)
  let below : Decimal := { digits := scaled.floor, exponent }
  let above : Decimal := { digits := scaled.floor + 1, exponent }
  if scaled.round = scaled.floor then [below, above] else [above, below]

/-- A decimal number that reads back as the double, looked for on seventeen
ever finer grids. -/
def shortest? (x : Binary64) (coarsest : Int) : Option Decimal :=
  (List.range 17).findSome? fun (k : Nat) =>
    ((x.neighbours (coarsest - k)).map Decimal.trim).find? x.readsBack

/-- A double written out in full: every binary fraction ends. -/
def exact (x : Binary64) : Decimal :=
  match x.power with
  | .ofNat k => { digits := x.significand * Nat.pow 2 k, exponent := 0 }
  | .negSucc k => { digits := x.significand * Nat.pow 5 (k + 1), exponent := .negSucc k }

/-- **The shortest decimal number that reads back as a finite double**, and
the nearest of those of its length. Seventeen digits always suffice; were
there a double that they did not tell apart, its full expansion would. -/
def shortest (x : Binary64) : Decimal :=
  if x.significand = 0 then { digits := 0, exponent := 0 }
  else (x.shortest? x.ratio.floorLog10).getD x.exact

/-! ## Numerals

The numeral of a finite double always shows that it is no integer: it has a
point or an exponent. -/

/-- The digits of a numeral with the point put after the first `whole` of
them, and zeros filled in where there are none; a zero stands on either side
of the point if nothing else does. -/
def positional (digits : Text) (whole : Int) : Text :=
  match whole with
  | .ofNat 0 => Text.concat ["0.", digits]
  | .negSucc k => Text.concat ["0.", List.replicate (k + 1) (Numeral.digit 0), digits]
  | .ofNat k =>
    if digits.length ≤ k then
      Text.concat [digits, List.replicate (k - digits.length) (Numeral.digit 0), ".0"]
    else Text.concat [digits.take k, ".", digits.drop k]

/-- The digits of a numeral with the point after the first of them, if there
are more, and the exponent with its sign and at least two digits. -/
def scientific (digits : Text) (exponent : Int) : Text :=
  let fraction := digits.drop 1
  let size := Numeral.decimal exponent.natAbs
  Text.concat [digits.take 1, if fraction.isEmpty then [] else "." ++ fraction,
    if exponent < 0 then "e-" else "e+",
    if size.length < 2 then Numeral.digit 0 :: size else size]

/-- **The numeral of a double.** From `10 ^ -4` on and below `10 ^ 16` it is
positional; elsewhere it has an exponent. -/
def numeral (x : Binary64) : Text :=
  if x.isFinite then
    let d := x.shortest
    let digits := Numeral.decimal d.digits
    let leading : Int := d.exponent + digits.length - 1
    let unsigned :=
      if -4 ≤ leading ∧ leading < 16 then positional digits (leading + 1)
      else scientific digits leading
    if x.negative then CodePoint.ofChar '-' :: unsigned else unsigned
  else if x.isInfinite then (if x.negative then "-inf" else "inf")
  else "nan"

end StreamGrammar.Binary64
