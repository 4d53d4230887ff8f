import Mathlib.Data.Nat.Digits.Lemmas

/-! Positional numerals, most significant digit first. Zero has the one digit 0. -/
namespace ArduinoAT90USB.Foundation.Numeral
variable {b n : Nat}

def numeral (b n : Nat) : List Nat := if n = 0 then [0] else (Nat.digits b n).reverse

/-- Horner's rule. -/
def value (b : Nat) (digits : List Nat) : Nat := digits.foldl (fun v d => v * b + d) 0

theorem numeral_of_lt (h : n < b) : numeral b n = [n] := by
  unfold numeral
  split_ifs with hn
  · rw [hn]
  · rw [Nat.digits_of_lt b n hn h]
    rfl

/-- The last digit is the remainder; the quotient's numeral stands before it. -/
theorem numeral_of_le (hb : 1 < b) (h : b ≤ n) : numeral b n = numeral b (n / b) ++ [n % b] := by
  have hq : n / b ≠ 0 := Nat.ne_of_gt (Nat.div_pos h (by omega))
  rw [numeral, if_neg (by omega), numeral, if_neg hq, Nat.digits_def' hb (by omega), List.reverse_cons]

theorem numeral_ne_nil (b n : Nat) : numeral b n ≠ [] := by
  unfold numeral
  split_ifs with hn
  · exact List.cons_ne_nil _ _
  · exact List.reverse_ne_nil_iff.mpr (Nat.digits_ne_nil_iff_ne_zero.mpr hn)

theorem numeral_lt_base (hb : 1 < b) {d : Nat} (h : d ∈ numeral b n) : d < b := by
  unfold numeral at h
  split_ifs at h with hn
  · rw [List.mem_singleton.mp h]
    omega
  · exact Nat.digits_lt_base hb (List.mem_reverse.mp h)

theorem numeral_length_le (hb : 1 < b) {k : Nat} (hk : k ≠ 0) (h : n < b ^ k) : (numeral b n).length ≤ k := by
  unfold numeral
  split_ifs with hn
  · exact Nat.one_le_iff_ne_zero.mpr hk
  · rw [List.length_reverse]
    exact (Nat.digits_length_le_iff hb n).mpr h

private theorem value_reverse (digits : List Nat) : value b digits.reverse = Nat.ofDigits b digits := by
  rw [value, List.foldl_reverse, Nat.ofDigits_eq_foldr]
  simp only [Nat.cast_id, Nat.add_comm, Nat.mul_comm]

theorem value_numeral (b n : Nat) : value b (numeral b n) = n := by
  unfold numeral
  split_ifs with hn
  · simp [value, hn]
  · rw [value_reverse, Nat.ofDigits_digits]

/-- What makes digits the numeral of a number. -/
structure IsNumeral (b n : Nat) (digits : List Nat) : Prop where
  nonempty : digits ≠ []
  below : ∀ d ∈ digits, d < b
  leading : digits.head? = some 0 → digits = [0]
  value : value b digits = n

theorem numeral_isNumeral (hb : 1 < b) (n : Nat) : IsNumeral b n (numeral b n) where
  nonempty := numeral_ne_nil b n
  below := fun _ hd => numeral_lt_base hb hd
  leading := by
    unfold numeral
    split_ifs with hn
    · exact fun _ => rfl
    · intro hzero
      have hlast := Nat.getLast_digit_ne_zero b hn
      rw [List.head?_reverse, List.getLast?_eq_getLast_of_ne_nil (Nat.digits_ne_nil_iff_ne_zero.mpr hn)] at hzero
      exact absurd (Option.some.inj hzero) hlast
  value := value_numeral b n

theorem IsNumeral.unique (hb : 1 < b) {digits : List Nat} (h : IsNumeral b n digits) : digits = numeral b n := by
  by_cases hzero : digits.head? = some 0
  · have hn := h.value
    rw [h.leading hzero] at hn ⊢
    obtain rfl : n = 0 := by simpa [Numeral.value] using hn.symm
    exact (if_pos rfl).symm
  · have hlast : ∀ hne : digits.reverse ≠ [], digits.reverse.getLast hne ≠ 0 := by
      intro hne h0
      rw [List.getLast_reverse] at h0
      exact hzero (h0 ▸ List.head?_eq_some_head (List.reverse_ne_nil_iff.mp hne))
    have hdigits := Nat.digits_ofDigits b hb digits.reverse (fun d hd => h.below d (List.mem_reverse.mp hd)) hlast
    rw [← value_reverse, List.reverse_reverse, h.value] at hdigits
    have hn : n ≠ 0 := by
      rintro rfl
      rw [Nat.digits_zero] at hdigits
      exact h.nonempty (List.reverse_eq_nil_iff.mp hdigits.symm)
    rw [numeral, if_neg hn, hdigits, List.reverse_reverse]

end ArduinoAT90USB.Foundation.Numeral
