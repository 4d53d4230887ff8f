import Mathlib.Tactic.Common

/-! Bits of a byte register, written and tested through masks: what a write does to the bits
under its mask and that it leaves the others. -/
namespace ArduinoAT90USB.Foundation.Bits

def setBits (x mask : UInt8) : UInt8 := x ||| mask
def clearBits (x mask : UInt8) : UInt8 := x &&& ~~~mask
def toggleBits (x mask : UInt8) : UInt8 := x ^^^ mask

def testBits (x mask : UInt8) : Bool := x &&& mask != 0

def bv (i : Fin 8) : UInt8 := 1 <<< UInt8.ofNat i

variable {x mask other : UInt8}

theorem bv_ne_zero : ∀ i, bv i ≠ 0 := by decide

theorem bv_disjoint : ∀ i j, i ≠ j → bv i &&& bv j = 0 := by decide

private theorem bv_toBitVec : ∀ i : Fin 8, (bv i).toBitVec = BitVec.twoPow 8 i := by decide

private theorem and_bv (x : UInt8) (i : Fin 8) : x &&& bv i = 0 ∨ x &&& bv i = bv i := by
  have h : (x &&& bv i).toBitVec = if x.toBitVec.getLsbD i then (bv i).toBitVec else 0#8 := by
    rw [UInt8.toBitVec_and,bv_toBitVec,BitVec.and_twoPow]
  by_cases hbit : x.toBitVec.getLsbD i = true
  · rw [if_pos hbit] at h
    exact Or.inr (UInt8.toBitVec_inj.mp h)
  · rw [if_neg hbit] at h
    exact Or.inl (UInt8.toBitVec_inj.mp h)

/-- A write that changes no bit outside its mask cannot be seen through another mask. -/
private theorem testBits_other {y : UInt8} (h : mask &&& other = 0)
    (hy : ∀ i (hi : i < 8), mask.toBitVec[i] = false → y.toBitVec[i] = x.toBitVec[i]) : testBits y other = testBits x other := by
  have hand : y &&& other = x &&& other := by
    apply UInt8.toBitVec_inj.mp
    have hb := congrArg UInt8.toBitVec h
    ext i hi
    have hbit := congrArg (fun v => v[i]) hb
    have hi' := hy i hi
    simp at hbit ⊢
    grind
  rw [testBits,hand,testBits]

theorem setBits_other (h : mask &&& other = 0) : testBits (setBits x mask) other = testBits x other :=
  testBits_other h fun i hi hmask => by simp [setBits,hmask]

theorem clearBits_other (h : mask &&& other = 0) : testBits (clearBits x mask) other = testBits x other :=
  testBits_other h fun i hi hmask => by simp [clearBits,hmask]

theorem toggleBits_other (h : mask &&& other = 0) : testBits (toggleBits x mask) other = testBits x other :=
  testBits_other h fun i hi hmask => by simp [toggleBits,hmask]

theorem setBits_self (x : UInt8) (h : mask ≠ 0) : testBits (setBits x mask) mask = true := by
  have hself : setBits x mask &&& mask = mask := by
    apply UInt8.toBitVec_inj.mp
    ext i hi
    simp [setBits]
    grind
  rw [testBits,hself]
  exact bne_iff_ne.mpr h

theorem clearBits_self (x mask : UInt8) : testBits (clearBits x mask) mask = false := by
  have hself : clearBits x mask &&& mask = 0 := by
    apply UInt8.toBitVec_inj.mp
    ext i hi
    simp [clearBits]
  rw [testBits,hself]
  rfl

theorem toggleBits_self (x : UInt8) (i : Fin 8) : testBits (toggleBits x (bv i)) (bv i) = !testBits x (bv i) := by
  have hself : toggleBits x (bv i) &&& bv i = (x &&& bv i) ^^^ bv i := by
    apply UInt8.toBitVec_inj.mp
    ext j hj
    simp [toggleBits]
    grind
  rw [testBits,testBits,hself]
  have hne : (bv i != 0) = true := bne_iff_ne.mpr (bv_ne_zero i)
  rcases and_bv x i with h | h
  · rw [h,UInt8.zero_xor,hne]
    rfl
  · rw [h,UInt8.xor_self,hne]
    rfl

end ArduinoAT90USB.Foundation.Bits
