import Mathlib.Algebra.Order.Ring.Int
import Mathlib.Tactic.Linarith

/-! Counters that go round a circle of `n` positions by comparison with the ends, and how they
are seen through a second modulus. -/
namespace ArduinoAT90USB.Foundation.Circular

def next (n r : Int) : Int := if r + 1 = n then 0 else r + 1

def prev (n r : Int) : Int := (if r = 0 then n else r) - 1

variable {n : Int}

theorem next_emod (hn : 0 < n) (z : Int) : next n (z % n) = (z + 1) % n := by
  have hdiv := Int.mul_ediv_add_emod z n
  have hnonneg := Int.emod_nonneg z (Int.ne_of_gt hn)
  have hlt := Int.emod_lt_of_pos z hn
  unfold next
  split
  case isTrue hend =>
    refine ((Int.ediv_emod_unique (q := z / n + 1) hn).mpr ⟨?_,by omega,by omega⟩).2.symm
    rw [Int.mul_add,Int.mul_one]
    omega
  case isFalse hend => exact ((Int.ediv_emod_unique (q := z / n) hn).mpr ⟨by omega,by omega,by omega⟩).2.symm

theorem prev_emod (hn : 0 < n) (z : Int) : prev n (z % n) = (z - 1) % n := by
  have hdiv := Int.mul_ediv_add_emod z n
  have hnonneg := Int.emod_nonneg z (Int.ne_of_gt hn)
  have hlt := Int.emod_lt_of_pos z hn
  unfold prev
  split
  case isTrue hend =>
    refine ((Int.ediv_emod_unique (q := z / n - 1) hn).mpr ⟨?_,by omega,by omega⟩).2.symm
    rw [Int.mul_sub,Int.mul_one]
    omega
  case isFalse hend => exact ((Int.ediv_emod_unique (q := z / n) hn).mpr ⟨by omega,by omega,by omega⟩).2.symm

/-- A move by one stays on the same round or goes to a neighbouring one. -/
theorem ediv_near (hn : 0 < n) {z z' : Int} (hle : z' ≤ z + 1) (hge : z - 1 ≤ z') :
    z / n - 1 ≤ z' / n ∧ z' / n ≤ z / n + 1 := by
  constructor
  · have hmono := Int.ediv_le_ediv hn (show z - n ≤ z' by omega)
    rwa [Int.sub_ediv_of_dvd _ (Int.dvd_refl n),Int.ediv_self (Int.ne_of_gt hn)] at hmono
  · have hmono := Int.ediv_le_ediv hn (show z' ≤ z + n by omega)
    rwa [Int.add_ediv_of_dvd_right (Int.dvd_refl n),Int.ediv_self (Int.ne_of_gt hn)] at hmono

/-- Modulo `m` a move by one shows as one exactly if it stays on its round, or `m` divides the
circle. -/
theorem residue_step_iff (hn : 0 < n) (m : Int) {z z' : Int} (hle : z' ≤ z + 1) (hge : z - 1 ≤ z') :
    m ∣ (z' % n - z % n) - (z' - z) ↔ z' / n = z / n ∨ m ∣ n := by
  obtain ⟨hlow,hhigh⟩ := ediv_near hn hle hge
  have hz := Int.mul_ediv_add_emod z n
  have hz' := Int.mul_ediv_add_emod z' n
  have hgap : (z' % n - z % n) - (z' - z) = n * (z / n - z' / n) := by linarith [Int.mul_sub n (z / n) (z' / n)]
  rw [hgap]
  rcases (by omega : z' / n = z / n ∨ z' / n = z / n + 1 ∨ z' / n = z / n - 1) with h | h | h
  · simp [h]
  · rw [h,show z / n - (z / n + 1) = -1 by omega,Int.mul_neg_one,Int.dvd_neg]
    exact ⟨Or.inr,fun hor => hor.resolve_left (by omega)⟩
  · rw [h,show z / n - (z / n - 1) = 1 by omega,Int.mul_one]
    exact ⟨Or.inr,fun hor => hor.resolve_left (by omega)⟩

end ArduinoAT90USB.Foundation.Circular
