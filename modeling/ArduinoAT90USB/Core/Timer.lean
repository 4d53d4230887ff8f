import Mathlib.Logic.Function.Iterate
import Mathlib.Algebra.Ring.Nat

/-! The time base of `wiring.c`: timer 0 ticks every 64 clock cycles and its overflow
interrupt keeps a count, the milliseconds and their fraction in units of 8 microseconds. -/
namespace ArduinoAT90USB.Core

/-- The clock speeds the fraction is made for. -/
inductive Clock
  | mhz8
  | mhz16

namespace Clock

def fCpu : Clock → Nat
  | mhz8 => 8000000
  | mhz16 => 16000000

def clockCyclesPerMicrosecond (c : Clock) : Nat := c.fCpu / 1000000
def microsecondsPerTimer0Overflow (c : Clock) : Nat := 64 * 256 / c.clockCyclesPerMicrosecond
def millisInc (c : Clock) : Nat := c.microsecondsPerTimer0Overflow / 1000
def fractInc (c : Clock) : Nat := (c.microsecondsPerTimer0Overflow % 1000) >>> 3
def fractMax : Nat := 1000 >>> 3

end Clock

structure Timer0 where
  timer0OverflowCount : UInt32
  timer0Millis : UInt32
  timer0Fract : UInt8

namespace Timer0

def reset : Timer0 := ⟨0,0,0⟩

/-- `SIGNAL(TIMER0_OVF_vect)`. -/
def overflow (clock : Clock) (t : Timer0) : Timer0 :=
  let m := t.timer0Millis + UInt32.ofNat clock.millisInc
  let f := t.timer0Fract + UInt8.ofNat clock.fractInc
  if f.toNat ≥ Clock.fractMax then ⟨t.timer0OverflowCount + 1,m + 1,f - UInt8.ofNat Clock.fractMax⟩
  else ⟨t.timer0OverflowCount + 1,m,f⟩

/-- `millis()`: the copy is made with interrupts disabled. -/
def millis (t : Timer0) : UInt32 := t.timer0Millis

/-- The two accumulators together hold the time of `n` overflows, without loss. -/
structure Exact (clock : Clock) (n : Nat) (t : Timer0) : Prop where
  below : t.timer0Fract.toNat < Clock.fractMax
  time : ∃ m, t.timer0Millis = UInt32.ofNat m ∧
    1000 * m + 8 * t.timer0Fract.toNat = n * clock.microsecondsPerTimer0Overflow

end Timer0

/-- The shift by three loses nothing at these speeds, and the sum fits into a byte. -/
private theorem clock_parts (c : Clock) :
    c.microsecondsPerTimer0Overflow = 1000 * c.millisInc + 8 * c.fractInc ∧ c.fractInc < Clock.fractMax := by
  cases c <;> decide

private theorem fract_add (clock : Clock) {t : Timer0} (h : t.timer0Fract.toNat < Clock.fractMax) :
    (t.timer0Fract + UInt8.ofNat clock.fractInc).toNat = t.timer0Fract.toNat + clock.fractInc := by
  have hinc := (clock_parts clock).2
  have hmax : Clock.fractMax = 125 := rfl
  rw [UInt8.toNat_add, UInt8.toNat_ofNat']
  omega

namespace Timer0
variable {clock : Clock} {n : Nat} {t : Timer0}

theorem Exact.overflow (h : t.Exact clock n) : (t.overflow clock).Exact clock (n+1) := by
  obtain ⟨hbelow,m,hm,htime⟩ := h
  obtain ⟨hus,hinc⟩ := clock_parts clock
  have hmax : Clock.fractMax = 125 := rfl
  have hf := fract_add clock hbelow
  have hnext : (n+1) * clock.microsecondsPerTimer0Overflow =
      n * clock.microsecondsPerTimer0Overflow + (1000 * clock.millisInc + 8 * clock.fractInc) := by
    rw [Nat.succ_mul, ← hus]
  unfold Timer0.overflow
  dsimp only
  split_ifs with hcarry
  · have hle : UInt8.ofNat Clock.fractMax ≤ t.timer0Fract + UInt8.ofNat clock.fractInc :=
      UInt8.le_iff_toNat_le.mpr hcarry
    have hsub : (t.timer0Fract + UInt8.ofNat clock.fractInc - UInt8.ofNat Clock.fractMax).toNat =
        t.timer0Fract.toNat + clock.fractInc - 125 := by
      rw [UInt8.toNat_sub_of_le _ _ hle, hf]
      rfl
    refine ⟨by rw [hsub]; omega,m + clock.millisInc + 1,?_,?_⟩
    · rw [hm, UInt32.ofNat_add, UInt32.ofNat_add]
      rfl
    · rw [hsub, hnext]
      omega
  · refine ⟨Nat.lt_of_not_le hcarry,m + clock.millisInc,?_,?_⟩
    · rw [hm, UInt32.ofNat_add]
    · rw [hf, hnext]
      omega

theorem exact_iterate (clock : Clock) (n : Nat) : ((overflow clock)^[n] reset).Exact clock n := by
  induction n with
  | zero => exact ⟨show 0 < 125 by decide,0,rfl,(Nat.zero_mul _).symm⟩
  | succ n ih =>
    rw [Function.iterate_succ_apply']
    exact ih.overflow

/-- What `millis()` returns, and that the fraction has room for the next increment. -/
structure MillisExact (clock : Clock) (n : Nat) (t : Timer0) : Prop where
  value : t.millis = UInt32.ofNat (n * 64 * 256 * 1000 / clock.fCpu)
  below : t.timer0Fract.toNat < Clock.fractMax
  fits : (t.timer0Fract + UInt8.ofNat clock.fractInc).toNat = t.timer0Fract.toNat + clock.fractInc

end Timer0

/-- After `n` overflows since reset. -/
theorem millis_exact (clock : Clock) (n : Nat) :
    ((Timer0.overflow clock)^[n] .reset).MillisExact clock n := by
  obtain ⟨hbelow,m,hm,htime⟩ := Timer0.exact_iterate clock n
  refine ⟨?_,hbelow,fract_add clock hbelow⟩
  have hmax : Clock.fractMax = 125 := rfl
  have hfloor : m = n * 64 * 256 * 1000 / clock.fCpu := by
    cases clock with
    | mhz8 =>
      have hus : Clock.mhz8.microsecondsPerTimer0Overflow = 2048 := rfl
      have hcpu : Clock.mhz8.fCpu = 8000000 := rfl
      rw [hus] at htime
      rw [hcpu]
      omega
    | mhz16 =>
      have hus : Clock.mhz16.microsecondsPerTimer0Overflow = 1024 := rfl
      have hcpu : Clock.mhz16.fCpu = 16000000 := rfl
      rw [hus] at htime
      rw [hcpu]
      omega
  rw [Timer0.millis, hm, hfloor]

end ArduinoAT90USB.Core
