import Mathlib.Algebra.Ring.Nat
import Mathlib.Tactic.Common

/-! Integer conversions of AVR C, where `int` has sixteen bits: a byte is promoted to a
nonnegative `int`, shifts drop high bits, and widening to `uint32_t` extends the sign. -/
namespace ArduinoAT90USB.Foundation.AvrInt

/-- Integer promotion of a `uint8_t`. -/
def promote (b : UInt8) : BitVec 16 := b.toBitVec.setWidth 16

/-- Conversion of an `int` to `uint16_t`. -/
def toUInt16 (x : BitVec 16) : UInt16 := UInt16.ofBitVec x

/-- Conversion of an `int` to `uint32_t`. -/
def toUInt32 (x : BitVec 16) : UInt32 := UInt32.ofBitVec (x.signExtend 32)

theorem promote_toNat (b : UInt8) : (promote b).toNat = b.toNat := by
  have h := b.toNat_lt
  simp [promote, Nat.mod_eq_of_lt (show b.toNat < 65536 by omega)]

theorem promote_shift_toNat (b : UInt8) (k : Nat) :
    (promote b <<< k).toNat = b.toNat * 2^k % 65536 := by
  rw [BitVec.toNat_shiftLeft, promote_toNat, Nat.shiftLeft_eq]

/-- High byte first, as both the command stream and the page buffer compose words. -/
theorem word_toNat (hi lo : UInt8) :
    (toUInt16 (promote hi <<< 8 ||| promote lo)).toNat = 256 * hi.toNat + lo.toNat := by
  have hh := hi.toNat_lt
  have hl := lo.toNat_lt
  change (promote hi <<< 8 ||| promote lo).toNat = _
  rw [BitVec.toNat_or, promote_shift_toNat, promote_toNat, Nat.mod_eq_of_lt (by omega),
    Nat.mul_comm, ← Nat.two_pow_add_eq_or_of_lt (by omega)]

theorem high_toNat (w : UInt16) : (w >>> 8).toUInt8.toNat = w.toNat / 256 := by
  have hw := w.toNat_lt
  rw [UInt16.toNat_toUInt8, UInt16.toNat_shiftRight]
  simp only [UInt16.reduceToNat, Nat.reduceMod, Nat.shiftRight_eq_div_pow]
  omega

theorem word_low (hi lo : UInt8) :
    (toUInt16 (promote hi <<< 8 ||| promote lo)).toUInt8 = lo := by
  apply UInt8.toNat_inj.mp
  have hl := lo.toNat_lt
  rw [UInt16.toNat_toUInt8, word_toNat]
  omega

theorem word_high (hi lo : UInt8) :
    (toUInt16 (promote hi <<< 8 ||| promote lo) >>> 8).toUInt8 = hi := by
  apply UInt8.toNat_inj.mp
  have hl := lo.toNat_lt
  rw [high_toNat, word_toNat]
  omega

theorem word_ext_iff (v w : UInt16) : v.toUInt8 = w.toUInt8 ∧ (v >>> 8).toUInt8 = (w >>> 8).toUInt8 ↔ v = w := by
  constructor
  · rintro ⟨hlow,hhigh⟩
    apply UInt16.toNat_inj.mp
    have hl := congrArg UInt8.toNat hlow
    have hh := congrArg UInt8.toNat hhigh
    rw [high_toNat, high_toNat] at hh
    rw [UInt16.toNat_toUInt8, UInt16.toNat_toUInt8] at hl
    omega
  · rintro rfl
    exact ⟨rfl,rfl⟩

theorem word_join (w : UInt16) : toUInt16 (promote (w >>> 8).toUInt8 <<< 8 ||| promote w.toUInt8) = w :=
  (word_ext_iff _ w).mp ⟨word_low _ _,word_high _ _⟩

theorem masked_toUInt8 (w : UInt16) : (w &&& 0xFF).toUInt8 = w.toUInt8 := by
  apply UInt8.toNat_inj.mp
  rw [UInt16.toNat_toUInt8, UInt16.toNat_toUInt8, UInt16.toNat_and]
  change (w.toNat &&& (2^8 - 1)) % 256 = _
  rw [Nat.and_two_pow_sub_one_eq_mod]
  omega

/-- Widening is exact below the sign bit and adds the sign's weight above it. -/
theorem toUInt32_toNat (x : BitVec 16) :
    (toUInt32 x).toNat = if x.toNat < 32768 then x.toNat else x.toNat + 4294901760 := by
  have hx := x.isLt
  change (x.signExtend 32).toNat = _
  rw [BitVec.toNat_signExtend]
  have hm : (x.setWidth 32).toNat = x.toNat := by
    rw [BitVec.toNat_setWidth]
    omega
  rw [hm, BitVec.msb_eq_decide]
  by_cases h : x.toNat < 32768
  · simp [h, show ¬ 32768 ≤ x.toNat by omega]
  · simp [h, show 32768 ≤ x.toNat by omega]

theorem toInt16_toInt (x : UInt16) : x.toInt16.toInt = if x.toNat < 32768 then (x.toNat : Int) else x.toNat - 65536 := by
  have h := BitVec.toInt_eq_toNat_cond x.toBitVec
  have hx : x.toInt16.toInt = x.toBitVec.toInt := rfl
  have hn : x.toBitVec.toNat = x.toNat := rfl
  rw [hx,h,hn]
  split <;> split <;> omega

theorem toInt16_neg_iff (x : UInt16) : x.toInt16 < 0 ↔ 32768 ≤ x.toNat := by
  have hlt := x.toNat_lt
  have h0 : (0 : Int16).toInt = 0 := rfl
  rw [Int16.lt_iff_toInt_lt,toInt16_toInt]
  split <;> omega

theorem toInt16_eq_zero_iff (x : UInt16) : x.toInt16 = 0 ↔ x = 0 := by
  constructor
  · intro h
    exact congrArg Int16.toUInt16 h
  · rintro rfl
    rfl

/-- The sign of a difference of `unsigned int`s that is kept in an `int`. -/
theorem sub_toInt16_neg_iff (a b : UInt16) : (a - b).toInt16 < 0 ↔
    (a.toNat < b.toNat ∧ b.toNat ≤ a.toNat + 32768) ∨ b.toNat + 32768 ≤ a.toNat := by
  have ha := a.toNat_lt
  have hb := b.toNat_lt
  rw [toInt16_neg_iff,UInt16.toNat_sub]
  omega

theorem sub_toInt16_eq_zero_iff (a b : UInt16) : (a - b).toInt16 = 0 ↔ a = b := by
  rw [toInt16_eq_zero_iff]
  constructor
  · intro h
    rw [← UInt16.sub_add_cancel a b,h,UInt16.zero_add]
  · rintro rfl
    exact UInt16.sub_self a

/-- A number that fits into an `int` is not negative, and is the same as an `unsigned int`. -/
theorem int16_ofNat {n : Nat} (hn : n < 32768) :
    ¬ Int16.ofNat n < 0 ∧ (Int16.ofNat n).toUInt16.toNat = n ∧ (Int16.ofNat n).toInt = n := by
  have hint : (Int16.ofNat n).toInt = n := Int16.toInt_ofNat_of_lt hn
  have h0 : (0 : Int16).toInt = 0 := rfl
  refine ⟨?_,?_,hint⟩
  · rw [Int16.lt_iff_toInt_lt,hint]
    omega
  · rw [Int16.toUInt16_ofNat',UInt16.toNat_ofNat_of_lt' (Nat.lt_trans hn (by decide))]

/-- From the sign bit on a position comes out negative. -/
theorem int16_ofNat_toInt {n : Nat} (hn : n < 65536) :
    (Int16.ofNat n).toInt = if n < 32768 then (n : Int) else n - 65536 := by
  have h := toInt16_toInt (UInt16.ofNat n)
  rwa [UInt16.toNat_ofNat_of_lt' hn] at h

theorem int16_ofNat_pred (n : Nat) : Int16.ofNat (n + 1) - 1 = Int16.ofNat n := by
  rw [Int16.ofNat_add]
  exact Int16.add_sub_cancel _ _

def InLong (n : Int) : Prop := -2147483648 ≤ n ∧ n < 2147483648

instance (n : Int) : Decidable (InLong n) := inferInstanceAs (Decidable (_ ∧ _))

theorem inLong_toInt (a : Int32) : InLong a.toInt := ⟨Int32.le_toInt a,Int32.toInt_lt a⟩

theorem inLong_bmod (n : Int) : InLong (n.bmod (2^32)) :=
  ⟨Int.le_bmod (by decide),Int.bmod_lt (by decide)⟩

theorem bmod_inLong {n : Int} (h : InLong n) : n.bmod (2^32) = n :=
  Int.bmod_eq_of_le h.1 h.2

/-- A value is known in a `long` from its remainder. -/
theorem inLong_inj {m n : Int} (hm : InLong m) (hn : InLong n) (h : (4294967296 : Int) ∣ m - n) : m = n := by
  have hm₁ := hm.1
  have hm₂ := hm.2
  have hn₁ := hn.1
  have hn₂ := hn.2
  omega

theorem bmod_dvd (n : Int) : (4294967296 : Int) ∣ n - n.bmod (2^32) := Int.dvd_self_sub_bmod

theorem long_add {a b : Int32} (h : InLong (a.toInt + b.toInt)) : (a + b).toInt = a.toInt + b.toInt := by
  rw [Int32.toInt_add,bmod_inLong h]

theorem long_sub {a b : Int32} (h : InLong (a.toInt - b.toInt)) : (a - b).toInt = a.toInt - b.toInt := by
  rw [Int32.toInt_sub,bmod_inLong h]

theorem long_mul {a b : Int32} (h : InLong (a.toInt * b.toInt)) : (a * b).toInt = a.toInt * b.toInt := by
  rw [Int32.toInt_mul,bmod_inLong h]

/-- A product that wraps is off by whole words. -/
theorem long_mul_wrap (a b : Int32) : (4294967296 : Int) ∣ a.toInt * b.toInt - (a * b).toInt := by
  rw [Int32.toInt_mul]
  exact bmod_dvd _

/-- Only `LONG_MIN / -1` overflows. -/
theorem long_div {a b : Int32} (h : 0 < b.toInt) : (a / b).toInt = a.toInt.tdiv b.toInt := by
  apply Int32.toInt_div_of_ne_right
  rintro rfl
  exact absurd h (by decide)

def InInt (n : Int) : Prop := -32768 ≤ n ∧ n < 32768

theorem int_add {a b : Int16} (h : InInt (a.toInt + b.toInt)) : (a + b).toInt = a.toInt + b.toInt := by
  rw [Int16.toInt_add]
  exact Int.bmod_eq_of_le h.1 h.2

theorem int_sub {a b : Int16} (h : InInt (a.toInt - b.toInt)) : (a - b).toInt = a.toInt - b.toInt := by
  rw [Int16.toInt_sub]
  exact Int.bmod_eq_of_le h.1 h.2

theorem int_mul {a b : Int16} (h : InInt (a.toInt * b.toInt)) : (a * b).toInt = a.toInt * b.toInt := by
  rw [Int16.toInt_mul]
  exact Int.bmod_eq_of_le h.1 h.2

theorem toInt16_long {x : Int32} (h : InInt x.toInt) : x.toInt16.toInt = x.toInt := by
  rw [Int32.toInt_toInt16]
  exact Int.bmod_eq_of_le h.1 h.2

theorem toUInt16_toNat {x : Int16} (h : 0 ≤ x.toInt) : (x.toUInt16.toNat : Int) = x.toInt := by
  rw [Int16.toNat_toUInt16_of_le (Int16.le_iff_toInt_le.mpr h)]
  exact Int.toNat_of_nonneg h

theorem long_toUInt32_toNat {x : Int32} (h : 0 ≤ x.toInt) : (x.toUInt32.toNat : Int) = x.toInt := by
  rw [Int32.toNat_toUInt32_of_le (Int32.le_iff_toInt_le.mpr h)]
  exact Int.toNat_of_nonneg h

theorem toInt32_toInt {x : UInt32} (h : x.toNat < 2147483648) : x.toInt32.toInt = x.toNat :=
  BitVec.toInt_eq_toNat_of_lt (Nat.mul_lt_mul_of_pos_left h (Nat.zero_lt_succ 1))

end ArduinoAT90USB.Foundation.AvrInt
