import Mathlib.Order.Monotone.Basic
import Mathlib.Tactic.Common

/-! `delay` of `wiring.c` over the readings of `micros()`. It compares the low sixteen bits of
each reading with a start that it moves on by a millisecond at a time. -/
namespace ArduinoAT90USB.Core
namespace Delay

/-- The body of the loop after a reading: the milliseconds left, and `start`. -/
def turn (now : UInt32) (p : UInt32 × UInt16) : UInt32 × UInt16 :=
  if now.toUInt16 - p.2 ≥ 1000 then (p.1 - 1, p.2 + 1000) else p

/-- The `while` loop after reading number `k`; the result is the number of the last reading. -/
def loop (micros : Nat → UInt32) : Nat → Nat → UInt32 × UInt16 → Option Nat
  | 0, _, _ => none
  | fuel+1, k, p => if p.1 > 0 then loop micros fuel (k+1) (turn (micros (k+1)) p) else some k

end Delay

def delay (micros : Nat → UInt32) (ms : UInt32) (fuel : Nat) : Option Nat :=
  Delay.loop micros fuel 0 (ms, (micros 0).toUInt16)

namespace Delay
variable {t : Nat → Nat} {ms : UInt32} {k : Nat} {p : UInt32 × UInt16}

/-- The moment up to which time has been counted. -/
def due (t : Nat → Nat) (ms : UInt32) (p : UInt32 × UInt16) : Nat := t 0 + 1000 * (ms.toNat - p.1.toNat)

/-- After reading number `k`: `start` is the moment up to which time has been counted, which
has been reached. -/
structure Waited (t : Nat → Nat) (ms : UInt32) (k : Nat) (p : UInt32 × UInt16) : Prop where
  left : p.1.toNat ≤ ms.toNat
  start : p.2.toNat = due t ms p % 65536
  reached : due t ms p ≤ t k

/-- Less than a millisecond has passed since that moment. -/
def Recent (t : Nat → Nat) (ms : UInt32) (k : Nat) (p : UInt32 × UInt16) : Prop := t k < due t ms p + 1000

theorem due_first (t : Nat → Nat) (ms : UInt32) (start : UInt16) : due t ms (ms,start) = t 0 := by
  rw [due, Nat.sub_self, Nat.mul_zero, Nat.add_zero]

theorem waited_first (t : Nat → Nat) (ms : UInt32) : Waited t ms 0 (ms, (UInt32.ofNat (t 0)).toUInt16) where
  left := Nat.le_refl _
  start := by
    rw [UInt32.toNat_toUInt16, UInt32.toNat_ofNat', due_first]
    exact Nat.mod_mod_of_dvd _ (by decide)
  reached := Nat.le_of_eq (due_first t ms _)

private theorem due_counted (hleft : p.1 > 0) (hle : p.1.toNat ≤ ms.toNat) (start : UInt16) :
    (p.1 - 1).toNat ≤ ms.toNat ∧ due t ms (p.1 - 1,start) = due t ms p + 1000 := by
  have hpos : 1 ≤ p.1.toNat := UInt32.lt_iff_toNat_lt.mp hleft
  have hless : (p.1 - 1).toNat = p.1.toNat - 1 := UInt32.toNat_sub_of_le _ _ (UInt32.le_iff_toNat_le.mpr hpos)
  rw [due, due, hless]
  omega

/-- The sixteen-bit difference is the time since that moment up to whole turns of the clock. -/
private theorem difference_toNat (h : Waited t ms k p) {now : Nat} (hnow : due t ms p ≤ now) :
    ((UInt32.ofNat now).toUInt16 - p.2).toNat = (now - due t ms p) % 65536 := by
  rw [UInt16.toNat_sub, UInt32.toNat_toUInt16, UInt32.toNat_ofNat', h.start]
  omega

private theorem thousand_le {d : UInt16} : d ≥ 1000 ↔ 1000 ≤ d.toNat := UInt16.le_iff_toNat_le

/-- A millisecond is counted only after it has passed. -/
theorem Waited.turn (h : Waited t ms k p) (hleft : p.1 > 0) (hnext : t k ≤ t (k+1)) :
    Waited t ms (k+1) (Delay.turn (UInt32.ofNat (t (k+1))) p) := by
  have hreached := Nat.le_trans h.reached hnext
  have hdiff := difference_toNat h hreached
  unfold Delay.turn
  split_ifs with hpassed
  · -- The difference is at most the time that has passed, however often the clock has wrapped.
    rw [thousand_le, hdiff] at hpassed
    obtain ⟨hle,hdue⟩ := due_counted (t := t) hleft h.left (p.2 + 1000)
    have hstart : (p.2 + 1000).toNat = (p.2.toNat + 1000) % 65536 := UInt16.toNat_add p.2 1000
    refine ⟨hle,?_,?_⟩
    · rw [hdue, hstart, h.start, Nat.mod_add_mod]
    · rw [hdue]
      omega
  · exact ⟨h.left,h.start,hreached⟩

/-- With readings at most a millisecond apart none is passed over. -/
theorem Recent.turn (hrecent : Recent t ms k p) (h : Waited t ms k p) (hleft : p.1 > 0) (hnext : t k ≤ t (k+1))
    (hgap : t (k+1) ≤ t k + 1000) : Recent t ms (k+1) (Delay.turn (UInt32.ofNat (t (k+1))) p) := by
  have hdiff := difference_toNat h (Nat.le_trans h.reached hnext)
  unfold Recent at hrecent
  -- Less than two milliseconds have passed, so the sixteen-bit difference is exact.
  rw [Nat.mod_eq_of_lt (by omega)] at hdiff
  unfold Delay.turn
  split_ifs with hpassed
  · rw [Recent, (due_counted (t := t) hleft h.left (p.2 + 1000)).2]
    omega
  · rw [thousand_le, hdiff] at hpassed
    unfold Recent
    omega

/-- With no milliseconds left, the time to wait has passed. -/
private theorem Waited.passed (h : Waited t ms k p) (hleft : ¬ p.1 > 0) : 1000 * ms.toNat ≤ t k - t 0 := by
  have hzero : p.1.toNat = 0 := Nat.eq_zero_of_not_pos fun hpos => hleft (UInt32.lt_iff_toNat_lt.mpr hpos)
  have hreached := h.reached
  rw [due, hzero] at hreached
  omega

/-- With milliseconds left it has not, if no more than the last one is uncounted. -/
private theorem Recent.short (hrecent : Recent t ms k p) (h : Waited t ms k p) (hleft : p.1 > 0) :
    t k - t 0 < 1000 * ms.toNat := by
  have hpos : 1 ≤ p.1.toNat := UInt32.lt_iff_toNat_lt.mp hleft
  have hle := h.left
  rw [Recent, due] at hrecent
  omega

theorem loop_never_early (hmono : Monotone t) {fuel last : Nat} (h : Waited t ms k p)
    (hloop : loop (fun i => UInt32.ofNat (t i)) fuel k p = some last) : 1000 * ms.toNat ≤ t last - t 0 := by
  induction fuel generalizing k p with
  | zero => cases hloop
  | succ fuel ih =>
    rw [loop] at hloop
    split_ifs at hloop with hleft
    · exact ih (h.turn hleft (hmono (Nat.le_succ k))) hloop
    · obtain rfl : k = last := Option.some.inj hloop
      exact h.passed hleft

/-- The first of the readings from number `k` on by which the time to wait has passed. -/
structure FirstPast (t : Nat → Nat) (ms : UInt32) (k last : Nat) : Prop where
  starts : k ≤ last
  passed : 1000 * ms.toNat ≤ t last - t 0
  before : ∀ j, k ≤ j → j < last → t j - t 0 < 1000 * ms.toNat

theorem loop_exact (hmono : Monotone t) (hgap : ∀ i, t (i+1) ≤ t i + 1000) {fuel last : Nat} (h : Waited t ms k p)
    (hrecent : Recent t ms k p) :
    loop (fun i => UInt32.ofNat (t i)) fuel k p = some last ↔ last < k + fuel ∧ FirstPast t ms k last := by
  induction fuel generalizing k p with
  | zero =>
    constructor
    · intro hloop
      cases hloop
    · rintro ⟨hlt,hfirst⟩
      exact absurd hfirst.starts (by omega)
  | succ fuel ih =>
    rw [loop]
    split_ifs with hleft
    · have hshort := hrecent.short h hleft
      have hnext := hmono (Nat.le_succ k)
      rw [ih (h.turn hleft hnext) (hrecent.turn h hleft hnext (hgap k))]
      constructor
      · rintro ⟨hlt,hfrom,hpast,hbefore⟩
        refine ⟨by omega,by omega,hpast,fun j hj hjl => ?_⟩
        rcases Nat.eq_or_lt_of_le hj with rfl | hj
        · exact hshort
        · exact hbefore j hj hjl
      · rintro ⟨hlt,hfrom,hpast,hbefore⟩
        have hne : k ≠ last := by
          rintro rfl
          omega
        exact ⟨by omega,by omega,hpast,fun j hj hjl => hbefore j (by omega) hjl⟩
    · have hpast := h.passed hleft
      constructor
      · intro hloop
        obtain rfl : k = last := Option.some.inj hloop
        exact ⟨by omega,Nat.le_refl k,hpast,fun j hj hjl => absurd hjl (by omega)⟩
      · rintro ⟨_,hfrom,_,hbefore⟩
        rcases Nat.eq_or_lt_of_le hfrom with rfl | hlt
        · rfl
        · exact absurd (hbefore k (Nat.le_refl k) hlt) (by omega)

end Delay

/-- `delay` never returns early, whatever the gaps between the readings; and with gaps of a
millisecond at most it returns at the first reading by which the time has passed. -/
theorem delay_exact (t : Nat → Nat) (hmono : Monotone t) (ms : UInt32) :
    (∀ fuel k, delay (fun i => UInt32.ofNat (t i)) ms fuel = some k → 1000 * ms.toNat ≤ t k - t 0) ∧
    ((∀ i, t (i+1) ≤ t i + 1000) → ∀ fuel k, delay (fun i => UInt32.ofNat (t i)) ms fuel = some k ↔
      k < fuel ∧ 1000 * ms.toNat ≤ t k - t 0 ∧ ∀ j < k, t j - t 0 < 1000 * ms.toNat) := by
  have hfirst := Delay.waited_first t ms
  refine ⟨fun fuel k => Delay.loop_never_early hmono hfirst,fun hgap fuel k => ?_⟩
  have hrecent : Delay.Recent t ms 0 (ms, (UInt32.ofNat (t 0)).toUInt16) := by
    rw [Delay.Recent, Delay.due_first]
    omega
  refine (Delay.loop_exact hmono hgap hfirst hrecent).trans ?_
  constructor
  · rintro ⟨hfuel,_,hpast,hbefore⟩
    exact ⟨by omega,hpast,fun j => hbefore j (Nat.zero_le j)⟩
  · rintro ⟨hfuel,hpast,hbefore⟩
    exact ⟨by omega,Nat.zero_le k,hpast,fun j _ => hbefore j⟩

/-- Readings 700 microseconds apart across the wrap of the clock: two milliseconds have
passed at the third one after the start. -/
theorem delay_exact_wrapping :
    delay (fun i => UInt32.ofNat (4294967000 + 700 * i)) 2 10 = some 3 := by
  have hmono : Monotone fun i => 4294967000 + 700 * i := fun i j h => by
    dsimp only
    omega
  refine ((delay_exact _ hmono 2).2 (fun i => by omega) 10 3).mpr ⟨by decide,by decide,fun j hj => ?_⟩
  have htwo : (2 : UInt32).toNat = 2 := rfl
  omega

end ArduinoAT90USB.Core
