import ArduinoAT90USB.Foundation.Numeral
import Mathlib.Data.List.TakeWhile

/-! Integer output of `Print.cpp`. A result `none` is a write below the start of the local
buffer, which a base of two or more never reaches. -/
namespace ArduinoAT90USB.Core
open Foundation.Numeral

namespace Print

/-- `c < 10 ? c + '0' : c + 'A' - 10`; the core is compiled with `-funsigned-char`. -/
def digitChar (c : UInt8) : UInt8 := if c < 10 then c + '0'.toUInt8 else c + 'A'.toUInt8 - 10

/-- The `do` loop of `printNumber`; `room` characters of the buffer lie below `str`. -/
def printNumberLoop (base : UInt8) : Nat → UInt32 → List UInt8 → Option (List UInt8)
  | 0, _, _ => none
  | room+1, m, str =>
    let n := m / base.toUInt32
    let c := (m - base.toUInt32 * n).toUInt8
    if n ≠ 0 then printNumberLoop base room n (digitChar c :: str) else some (digitChar c :: str)

/-- What `write(str)` sends: the characters before the first NUL. -/
def writeString (str : List UInt8) : List UInt8 := str.takeWhile (· ≠ 0)

def printNumber (n : UInt32) (base : UInt8) : Option (List UInt8) :=
  let base := if base < 2 then 10 else base
  (printNumberLoop base (8 * 4) n []).map writeString

/-- `print(long n, int base)`; base 0 sends the low byte. -/
def printLong (n : Int32) (base : Int16) : Option (List UInt8) :=
  if base = 0 then some [n.toUInt32.toUInt8]
  else if base = 10 then
    if n < 0 then (printNumber (-n).toUInt32 10).map ('-'.toUInt8 :: ·) else printNumber n.toUInt32 10
  else printNumber n.toUInt32 base.toUInt16.toUInt8

/-- The character of a digit below 36. -/
def numeralChar (d : Nat) : UInt8 := UInt8.ofNat (if d < 10 then d + 48 else d + 55)

private theorem digitChar_of_lt : ∀ d < 36, digitChar (UInt8.ofNat d) = numeralChar d := by decide

private theorem numeralChar_ne_zero : ∀ d < 36, numeralChar d ≠ 0 := by decide

private theorem remainder (base : UInt8) (m : UInt32) :
    m - base.toUInt32 * (m / base.toUInt32) = UInt32.ofNat (m.toNat % base.toNat) := by
  have hm := m.toNat_lt
  have hdiv := Nat.div_add_mod m.toNat base.toNat
  have hle : base.toNat * (m.toNat / base.toNat) ≤ m.toNat := Nat.mul_div_le _ _
  have hq : (base.toUInt32 * (m / base.toUInt32)).toNat = base.toNat * (m.toNat / base.toNat) := by
    rw [UInt32.toNat_mul, UInt32.toNat_div, UInt8.toNat_toUInt32, Nat.mod_eq_of_lt (by omega)]
  apply UInt32.toNat.inj
  rw [UInt32.toNat_sub_of_le _ _ (UInt32.le_iff_toNat_le.mpr (hq ▸ hle)), hq, UInt32.toNat_ofNat',
    Nat.mod_eq_of_lt (by omega)]
  omega

private theorem loop_char {base : UInt8} (hb : 2 ≤ base.toNat) (hb' : base.toNat ≤ 36) (m : UInt32) :
    digitChar (m - base.toUInt32 * (m / base.toUInt32)).toUInt8 = numeralChar (m.toNat % base.toNat) := by
  have hmod : m.toNat % base.toNat < 36 := Nat.lt_of_lt_of_le (Nat.mod_lt _ (by omega)) hb'
  rw [remainder, ← digitChar_of_lt _ hmod, UInt32.toUInt8_ofNat']

private theorem quotient_toNat (base : UInt8) (m : UInt32) : (m / base.toUInt32).toNat = m.toNat / base.toNat := by
  rw [UInt32.toNat_div, UInt8.toNat_toUInt32]

private theorem quotient_eq_zero {base : UInt8} (hb : 2 ≤ base.toNat) (m : UInt32) :
    m / base.toUInt32 = 0 ↔ m.toNat < base.toNat := by
  rw [← UInt32.toNat_inj, quotient_toNat]
  exact Nat.div_eq_zero_iff_lt (by omega)

private theorem printNumberLoop_numeral {base : UInt8} (hb : 2 ≤ base.toNat) (hb' : base.toNat ≤ 36) (room : Nat)
    (m : UInt32) (str : List UInt8) (h : m.toNat < base.toNat ^ (room+1)) :
    printNumberLoop base (room+1) m str = some ((numeral base.toNat m.toNat).map numeralChar ++ str) := by
  induction room generalizing m str with
  | zero =>
    have hlt : m.toNat < base.toNat := by simpa using h
    rw [printNumberLoop, if_neg (not_not_intro ((quotient_eq_zero hb m).mpr hlt)), loop_char hb hb',
      numeral_of_lt hlt, Nat.mod_eq_of_lt hlt]
    rfl
  | succ room ih =>
    rw [printNumberLoop, loop_char hb hb']
    by_cases hlt : m.toNat < base.toNat
    · rw [if_neg (not_not_intro ((quotient_eq_zero hb m).mpr hlt)), numeral_of_lt hlt, Nat.mod_eq_of_lt hlt]
      rfl
    · have hquot : (m / base.toUInt32).toNat < base.toNat ^ (room+1) := by
        rw [quotient_toNat]
        exact Nat.div_lt_of_lt_mul (Nat.pow_succ' ▸ h)
      rw [if_pos (fun hz => hlt ((quotient_eq_zero hb m).mp hz)), ih _ _ hquot, quotient_toNat,
        numeral_of_le (by omega) (Nat.le_of_not_lt hlt), List.map_append, List.append_assoc]
      rfl

theorem printNumber_numeral (n : UInt32) {base : UInt8} (hb : 2 ≤ base.toNat) (hb' : base.toNat ≤ 36) :
    printNumber n base = some ((numeral base.toNat n.toNat).map numeralChar) := by
  have hbase : ¬ base < 2 := by
    rw [UInt8.lt_iff_toNat_lt]
    exact Nat.not_lt.mpr hb
  have hroom : n.toNat < base.toNat ^ 32 := Nat.lt_of_lt_of_le n.toNat_lt (Nat.pow_le_pow_left hb 32)
  rw [printNumber, if_neg hbase, printNumberLoop_numeral hb hb' 31 n [] hroom, List.append_nil]
  -- No digit is a NUL, so nothing is cut off.
  refine congrArg some (List.takeWhile_eq_self_iff.mpr fun c hc => ?_)
  obtain ⟨d,hd,rfl⟩ := List.mem_map.mp hc
  simpa using numeralChar_ne_zero d (Nat.lt_of_lt_of_le (numeral_lt_base (by omega) hd) hb')

/-- The base in which `printNumber` writes. -/
def numeralBase (base : UInt8) : Nat := if base < 2 then 10 else base.toNat

theorem printNumber_small (n : UInt32) {base : UInt8} (hbase : base < 2) : printNumber n base = printNumber n 10 := by
  rw [printNumber, printNumber, if_pos hbase, if_neg (by decide)]

/-- The digit of a character, as a reader of the number takes it. -/
def charDigit (c : UInt8) : Nat := if c < 'A'.toUInt8 then c.toNat - '0'.toNat else c.toNat - 'A'.toNat + 10

private theorem charDigit_numeralChar : ∀ d < 36, charDigit (numeralChar d) = d := by decide

private theorem numeralBase_range {base : UInt8} (hbase : base.toNat ≤ 36) :
    2 ≤ numeralBase base ∧ numeralBase base ≤ 36 := by
  unfold numeralBase
  split_ifs with hsmall
  · decide
  · exact ⟨Nat.le_of_not_lt fun h => hsmall (UInt8.lt_iff_toNat_lt.mpr h),hbase⟩

private theorem printNumber_numeralBase (n : UInt32) {base : UInt8} (hbase : base.toNat ≤ 36) :
    printNumber n base = some ((numeral (numeralBase base) n.toNat).map numeralChar) := by
  have hrange := numeralBase_range hbase
  unfold numeralBase at hrange ⊢
  split_ifs at hrange ⊢ with hsmall
  · rw [printNumber_small n hsmall]
    exact printNumber_numeral n (by decide) (by decide)
  · exact printNumber_numeral n hrange.1 hrange.2

/-- `printNumber` writes the one numeral of the number, within its buffer. -/
theorem printNumber_positional (n : UInt32) (base : UInt8) (hbase : base.toNat ≤ 36) :
    ∃ digits text, printNumber n base = some text ∧ text = digits.map numeralChar ∧ text.length ≤ 32 ∧
      IsNumeral (numeralBase base) n.toNat digits ∧
      (∀ other, IsNumeral (numeralBase base) n.toNat other → other = digits) ∧
      value (numeralBase base) (text.map charDigit) = n.toNat := by
  obtain ⟨hlow,hhigh⟩ := numeralBase_range hbase
  have hnumeral := numeral_isNumeral (by omega : 1 < numeralBase base) n.toNat
  have hlength : (numeral (numeralBase base) n.toNat).length ≤ 32 :=
    numeral_length_le hlow (by decide) (Nat.lt_of_lt_of_le n.toNat_lt (Nat.pow_le_pow_left hlow 32))
  refine ⟨_,_,printNumber_numeralBase n hbase,rfl,?_,hnumeral,fun other h => h.unique hlow,?_⟩
  · rwa [List.length_map]
  · have hdigit : ∀ d ∈ numeral (numeralBase base) n.toNat, (charDigit ∘ numeralChar) d = id d :=
      fun d hd => charDigit_numeralChar d (Nat.lt_of_lt_of_le (hnumeral.below d hd) hhigh)
    rw [List.map_map, List.map_congr_left hdigit, List.map_id]
    exact hnumeral.value

/-- The largest number in base 2 fills the buffer. -/
theorem printNumber_positional_widest :
    ∃ digits text, printNumber 4294967295 2 = some text ∧ text = digits.map numeralChar ∧ text.length ≤ 32 ∧
      IsNumeral (numeralBase 2) 4294967295 digits ∧
      (∀ other, IsNumeral (numeralBase 2) 4294967295 other → other = digits) ∧
      value (numeralBase 2) (text.map charDigit) = 4294967295 :=
  printNumber_positional 4294967295 2 (by decide)

/-- The sign and the magnitude that `print(n, 10)` writes out; `-n` wraps at the least `long`. -/
theorem printLong_decimal (n : Int32) :
    printLong n 10 = some (if n < 0 then '-'.toUInt8 :: (numeral 10 (-n).toUInt32.toNat).map numeralChar
      else (numeral 10 n.toUInt32.toNat).map numeralChar) := by
  have hten (u : UInt32) : printNumber u 10 = some ((numeral 10 u.toNat).map numeralChar) :=
    printNumber_numeral u (by decide) (by decide)
  rw [printLong, if_neg (by decide), if_pos rfl, hten, hten]
  split_ifs <;> rfl

end Print

end ArduinoAT90USB.Core
