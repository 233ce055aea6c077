import StreamGrammar.Text.CodePoint

/-!
# Numerals

A number is written with the fewest decimal digits and read back digit by
digit; `ofDigits_digits` says that reading undoes writing. Numerals longer
than `maxDigits` are refused in both directions, because converting between
decimal and binary costs time that grows with the square of the length.
-/

namespace StreamGrammar.Numeral

/-! ## Decimal digits -/

/-- The decimal digits of a number, put in front of the digits that follow. -/
def digitsBefore (n : Nat) (after : List Nat) : List Nat :=
  if n < 10 then n :: after else digitsBefore (n / 10) (n % 10 :: after)

/-- The decimal digits of a number, the most significant first and none of
them superfluous. -/
def digits (n : Nat) : List Nat := digitsBefore n []

/-- The number that a list of decimal digits denotes. -/
def ofDigits (ds : List Nat) : Nat := ds.foldl (fun n d => 10 * n + d) 0

theorem digitsBefore_eq (n : Nat) (after : List Nat) :
    digitsBefore n after = digits n ++ after := by
  induction n using Nat.strongRecOn generalizing after with
  | _ n ih =>
    unfold digits
    rw [digitsBefore.eq_1 n after, digitsBefore.eq_1 n []]
    split
    · rfl
    · have h : n / 10 < n := by omega
      rw [ih _ h, ih _ h [n % 10]]
      simp

theorem digits_of_lt {n : Nat} (h : n < 10) : digits n = [n] := by
  rw [digits, digitsBefore, if_pos h]

theorem digits_of_le {n : Nat} (h : 10 ≤ n) : digits n = digits (n / 10) ++ [n % 10] := by
  rw [digits, digitsBefore, if_neg (by omega), digitsBefore_eq]

@[simp] theorem ofDigits_append (ds : List Nat) (d : Nat) :
    ofDigits (ds ++ [d]) = 10 * ofDigits ds + d := by
  simp [ofDigits]

/-- **Reading undoes writing.** -/
@[simp] theorem ofDigits_digits (n : Nat) : ofDigits (digits n) = n := by
  induction n using Nat.strongRecOn with
  | _ n ih =>
    by_cases h : n < 10
    · simp [digits_of_lt h, ofDigits]
    · rw [digits_of_le (by omega), ofDigits_append, ih _ (by omega)]
      omega

theorem digits_lt {n d : Nat} (h : d ∈ digits n) : d < 10 := by
  induction n using Nat.strongRecOn with
  | _ n ih =>
    by_cases hn : n < 10
    · simp only [digits_of_lt hn, List.mem_singleton] at h
      omega
    · rw [digits_of_le (by omega), List.mem_append] at h
      rcases h with h | h
      · exact ih _ (by omega) h
      · simp only [List.mem_singleton] at h
        omega

/-! ## Numerals as text -/

/-- The code point that writes a decimal digit. -/
def digit (d : Nat) : CodePoint := CodePoint.ofNat (48 + d)

/-- The decimal numeral of a number. -/
def decimal (n : Nat) : Text := (digits n).map digit

/-- The decimal numeral of an integer, with a minus sign below zero. -/
def signed : Int → Text
  | .ofNat n => decimal n
  | .negSucc n => CodePoint.ofChar '-' :: decimal (n + 1)

/-- A comma after every third element, counted from the front. -/
def commas : Text → Text
  | a :: b :: c :: d :: rest => a :: b :: c :: CodePoint.ofChar ',' :: commas (d :: rest)
  | short => short

/-- The decimal numeral of an integer with its thousands set off by commas. -/
def grouped : Int → Text
  | .ofNat n => (commas (decimal n).reverse).reverse
  | .negSucc n => CodePoint.ofChar '-' :: (commas (decimal (n + 1)).reverse).reverse

/-- The code point that writes a hexadecimal digit, in lower case or upper. -/
def hexDigit (upper : Bool) (d : Nat) : CodePoint :=
  CodePoint.ofNat (if d < 10 then 48 + d else if upper then 55 + d else 87 + d)

/-- The last `width` hexadecimal digits of a number. -/
def hex (upper : Bool) : (width : Nat) → Nat → Text
  | 0, _ => []
  | width + 1, n => hex upper width (n / 16) ++ [hexDigit upper (n % 16)]

@[simp] theorem length_hex (upper : Bool) (width n : Nat) :
    (hex upper width n).length = width := by
  induction width generalizing n with
  | zero => rfl
  | succ w ih => simp [hex, ih]

/-! ## The longest numeral -/

/-- The longest decimal numeral that is read or written. -/
def maxDigits : Nat := 4300

/-- Whether a number has a decimal numeral of at most `maxDigits` digits. -/
def isWritable (n : Nat) : Bool := n < Nat.pow 10 maxDigits

end StreamGrammar.Numeral
