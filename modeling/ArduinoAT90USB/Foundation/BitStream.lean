import Mathlib.Data.Nat.Bitwise
import Mathlib.Data.Nat.Digits.Defs
import Mathlib.Tactic.Common

/-! Bytes as a stream of bits, the lowest bit of the first byte first: the bit at a position, and
a window of the stream as a number. -/
namespace ArduinoAT90USB.Foundation.BitStream

/-- The bit at position `m`; behind the last byte there are zeros. -/
def bitAt (bytes : List UInt8) (m : Nat) : Bool := (bytes.getD (m / 8) 0).toNat.testBit (m % 8)

/-- The bytes as a little-endian number. -/
def number (bytes : List UInt8) : Nat := Nat.ofDigits 256 (bytes.map UInt8.toNat)

/-- The `n` bits from position `start` on. -/
def window (bytes : List UInt8) (start n : Nat) : Nat := number bytes / 2 ^ start % 2 ^ n

theorem testBit_number (bytes : List UInt8) (m : Nat) : (number bytes).testBit m = bitAt bytes m := by
  induction bytes generalizing m with
  | nil => simp [number,bitAt]
  | cons b rest ih =>
    have hcons : number (b :: rest) = 2 ^ 8 * number rest + b.toNat := by
      rw [number,List.map_cons,Nat.ofDigits_cons,Nat.add_comm]
      rfl
    rw [hcons,Nat.testBit_two_pow_mul_add _ b.toNat_lt]
    split
    case isTrue hlt => rw [bitAt,Nat.div_eq_of_lt hlt,Nat.mod_eq_of_lt hlt,List.getD_cons_zero]
    case isFalse hge =>
      obtain ⟨k,rfl⟩ : ∃ k, m = k + 8 := ⟨m - 8,by omega⟩
      rw [Nat.add_sub_cancel,ih,bitAt,bitAt,Nat.add_div_right k (by decide),Nat.add_mod_right,List.getD_cons_succ]

theorem testBit_window (bytes : List UInt8) (start n k : Nat) :
    (window bytes start n).testBit k = (decide (k < n) && bitAt bytes (start + k)) := by
  rw [window,Nat.testBit_mod_two_pow,← Nat.shiftRight_eq_div_pow,Nat.testBit_shiftRight,testBit_number]

/-- A test with a shifted one. -/
theorem and_shift_ne_zero (x i : Nat) : x &&& 1 <<< i ≠ 0 ↔ x.testBit i = true := by
  rw [Nat.one_shiftLeft,Nat.and_two_pow]
  cases x.testBit i with
  | true => simp
  | false => simp

end ArduinoAT90USB.Foundation.BitStream
