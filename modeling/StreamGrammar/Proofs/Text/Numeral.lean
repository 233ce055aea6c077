import StreamGrammar.Charset
import StreamGrammar.Text.Numeral

/-!
# Numerals digit by digit

What a numeral consists of is known from its end: without its last digit it is the
numeral of a tenth of the number (`decimal_of_le`). So numerals get longer only as their
numbers get greater. Reading a numeral back tells the number, and no two numbers have the
same one.
-/

namespace StreamGrammar.Numeral

/-! ## Digits -/

theorem val_digit {d : Nat} (h : d < 10) : (digit d).val = 48 + d :=
  CodePoint.val_ofNat (by omega)

theorem decimal_of_lt {d : Nat} (h : d < 10) : decimal d = [digit d] := by
  rw [decimal, digits_of_lt h]
  rfl

/-- **The last digit of a numeral**, and the numeral before it. -/
theorem decimal_of_le {n : Nat} (h : 10 ≤ n) :
    decimal n = decimal (n / 10) ++ [digit (n % 10)] := by
  rw [decimal, digits_of_le h, List.map_append]
  rfl

theorem decimal_two {n : Nat} (h : 10 ≤ n) (h' : n ≤ 99) :
    decimal n = [digit (n / 10), digit (n % 10)] := by
  rw [decimal_of_le h, decimal_of_lt (by omega)]
  rfl

theorem decimal_three {n : Nat} (h : 100 ≤ n) (h' : n ≤ 999) :
    decimal n = [digit (n / 100), digit (n / 10 % 10), digit (n % 10)] := by
  rw [decimal_of_le (by omega), decimal_two (by omega) (by omega), Nat.div_div_eq_div_mul]
  rfl

theorem isDigit_of_mem_decimal {n : Nat} {c : CodePoint} (h : c ∈ decimal n) :
    Charset.isDigit c.val = true := by
  obtain ⟨d, hd, rfl⟩ := List.mem_map.mp h
  have hlt := digits_lt hd
  rw [val_digit hlt]
  simp only [Charset.isDigit, Bool.and_eq_true, decide_eq_true_eq]
  omega

/-- **The numeral of a greater number is not shorter.** -/
theorem length_decimal_le {m n : Nat} (h : m ≤ n) : (decimal m).length ≤ (decimal n).length := by
  induction n using Nat.strongRecOn generalizing m with
  | _ n ih =>
    by_cases hm : m < 10
    · by_cases hn : n < 10
      · rw [decimal_of_lt hm, decimal_of_lt hn]
        exact Nat.le_refl _
      · rw [decimal_of_lt hm, decimal_of_le (n := n) (by omega), List.length_append]
        exact Nat.le_add_left ..
    · have hdiv : (decimal (m / 10)).length ≤ (decimal (n / 10)).length :=
        ih _ (by omega) (by omega)
      rw [decimal_of_le (n := m) (by omega), decimal_of_le (n := n) (by omega),
        List.length_append, List.length_append]
      exact Nat.add_le_add_right hdiv 1

theorem decimal_ne_nil (n : Nat) : decimal n ≠ [] := by
  refine List.length_pos_iff.mp (Nat.lt_of_lt_of_le ?_ (length_decimal_le (Nat.zero_le n)))
  rw [decimal_of_lt (by omega)]
  exact Nat.one_pos

/-! ## Reading back -/

/-- **Reading the characters of a numeral** gives the number. -/
theorem ofDigits_decimal (n : Nat) : ofDigits ((decimal n).map fun c => c.val - 48) = n := by
  have hmap : (decimal n).map (fun c => c.val - 48) = digits n := by
    rw [decimal, List.map_map]
    refine (List.map_congr_left fun d hd => ?_).trans (List.map_id _)
    show (digit d).val - 48 = d
    rw [val_digit (digits_lt hd)]
    omega
  rw [hmap, ofDigits_digits]

theorem decimal_injective {m n : Nat} (h : decimal m = decimal n) : m = n := by
  rw [← ofDigits_decimal m, h, ofDigits_decimal]

end StreamGrammar.Numeral
