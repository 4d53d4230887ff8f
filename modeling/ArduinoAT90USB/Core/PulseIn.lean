import ArduinoAT90USB.Core.Digital
import Mathlib.Algebra.Ring.Nat
import Mathlib.Data.Nat.Find

/-! `pulseIn`: three waits on the samples of a port, which share one budget of passes. -/
namespace ArduinoAT90USB.Core

def clockCyclesPerMicrosecond : UInt32 := fCpu / 1000000
def clockCyclesToMicroseconds (a : UInt32) : UInt32 := a / clockCyclesPerMicrosecond
def microsecondsToClockCycles (a : UInt32) : UInt32 := a * clockCyclesPerMicrosecond

/-- The variables of `pulseIn`, and how often it has read the port. -/
structure PulseState where
  reads : Nat
  numloops : UInt32
  width : UInt32

/-- How a wait ends. -/
inductive Wait
  | timedOut (s : PulseState)
  | passed (s : PulseState)

def Wait.next (w : Wait) (k : PulseState → Option Wait) : Option Wait :=
  match w with
  | .timedOut s => some (.timedOut s)
  | .passed s => k s

@[simp] theorem Wait.next_timedOut (s : PulseState) (k : PulseState → Option Wait) : (timedOut s).next k = some (timedOut s) := rfl
@[simp] theorem Wait.next_passed (s : PulseState) (k : PulseState → Option Wait) : (passed s).next k = k s := rfl

/-- What `pulseIn` returns, with the number of reads. -/
def Wait.result : Wait → UInt32 × Nat
  | .timedOut s => (0,s.reads)
  | .passed s => (clockCyclesToMicroseconds (s.width * 21 + 16),s.reads)

section Waits
variable (port : Nat → UInt8) (maxloops : UInt32)

/-- A `while` loop of `pulseIn`, on the samples of the port; `tick` is 1 where `width` is counted. -/
def waitLoop (waits : UInt8 → Bool) (tick : UInt32) : Nat → PulseState → Option Wait
  | 0, _ => none
  | fuel+1, s =>
    if waits (port s.reads) then
      if s.numloops = maxloops then some (.timedOut ⟨s.reads + 1,s.numloops + 1,s.width⟩)
      else waitLoop waits tick fuel ⟨s.reads + 1,s.numloops + 1,s.width + tick⟩
    else some (.passed ⟨s.reads + 1,s.numloops,s.width⟩)

end Waits

/-- `(*portInputRegister(port) & bit) == stateMask` -/
def inState (pin state sample : UInt8) : Bool :=
  let bit := digitalPinToBitMask pin
  let stateMask := if state ≠ 0 then bit else 0
  sample &&& bit == stateMask

/-- `maxloops` -/
def pulseLoops (timeout : UInt32) : UInt32 := microsecondsToClockCycles timeout / 16

/-- The result and the number of reads; `port i` is what the read `i` of the port gives. -/
def pulseIn (port : Nat → UInt8) (pin state : UInt8) (timeout : UInt32) (fuel : Nat) : Option (UInt32 × Nat) := do
  let maxloops := pulseLoops timeout
  -- any previous pulse ends, the pulse starts, the pulse stops
  let w ← waitLoop port maxloops (inState pin state) 0 fuel ⟨0,0,0⟩
  let w ← w.next (waitLoop port maxloops (fun x => !inState pin state x) 0 fuel)
  let w ← w.next (waitLoop port maxloops (inState pin state) 1 fuel)
  return w.result

section Waits
variable {port : Nat → UInt8} {maxloops tick : UInt32} {waits : UInt8 → Bool}

theorem waitLoop_waits (s : PulseState) (hfirst : waits (port s.reads) = true) (hbudget : s.numloops.toNat < maxloops.toNat)
    (fuel : Nat) : waitLoop port maxloops waits tick (fuel + 1) s =
      waitLoop port maxloops waits tick fuel ⟨s.reads + 1,s.numloops + 1,s.width + tick⟩ := by
  have hne : s.numloops ≠ maxloops := by
    rintro rfl
    exact absurd hbudget (Nat.lt_irrefl _)
  rw [waitLoop,if_pos hfirst,if_neg hne]

private theorem numloops_succ {s : PulseState} (maxloops : UInt32) (h : s.numloops.toNat < maxloops.toNat) :
    (s.numloops + 1).toNat = s.numloops.toNat + 1 := by
  have hlt := maxloops.toNat_lt
  rw [UInt32.toNat_add,UInt32.toNat_one]
  omega

theorem waitLoop_passed {d fuel : Nat} (s : PulseState) (hwaits : ∀ i < d, waits (port (s.reads + i)) = true)
    (hends : waits (port (s.reads + d)) = false) (hbudget : s.numloops.toNat + d ≤ maxloops.toNat) (hfuel : d < fuel) :
    waitLoop port maxloops waits tick fuel s =
      some (.passed ⟨s.reads + d + 1,s.numloops + UInt32.ofNat d,s.width + UInt32.ofNat d * tick⟩) := by
  induction d generalizing s fuel with
  | zero =>
    obtain ⟨fuel,rfl⟩ : ∃ n, fuel = n + 1 := ⟨fuel - 1,by omega⟩
    rw [Nat.add_zero] at hends
    simp [waitLoop,hends]
  | succ d ih =>
    obtain ⟨fuel,rfl⟩ : ∃ n, fuel = n + 1 := ⟨fuel - 1,by omega⟩
    rw [waitLoop_waits s (hwaits 0 (Nat.succ_pos d)) (by omega),ih]
    · have hreads : s.reads + 1 + d + 1 = s.reads + (d + 1) + 1 := by omega
      have hloops : s.numloops + 1 + UInt32.ofNat d = s.numloops + UInt32.ofNat (d + 1) := by
        rw [UInt32.ofNat_add,UInt32.add_assoc,UInt32.add_comm 1]
        rfl
      have hwidth : s.width + tick + UInt32.ofNat d * tick = s.width + UInt32.ofNat (d + 1) * tick := by
        rw [UInt32.ofNat_add,UInt32.add_mul,UInt32.add_assoc,UInt32.add_comm tick]
        simp
      rw [hreads,hloops,hwidth]
    · intro i hi
      have := hwaits (i + 1) (by omega)
      rwa [Nat.add_comm i,← Nat.add_assoc] at this
    · rwa [Nat.add_comm d,← Nat.add_assoc] at hends
    · change (s.numloops + 1).toNat + d ≤ _
      rw [numloops_succ maxloops (by omega)]
      omega
    · omega

/-- The samples keep it waiting until the budget is spent. -/
theorem waitLoop_timedOut {d fuel : Nat} (s : PulseState) (hwaits : ∀ i ≤ d, waits (port (s.reads + i)) = true)
    (hbudget : s.numloops.toNat + d = maxloops.toNat) (hfuel : d < fuel) :
    ∃ s', waitLoop port maxloops waits tick fuel s = some (.timedOut s') ∧ s'.reads = s.reads + d + 1 := by
  induction d generalizing s fuel with
  | zero =>
    obtain ⟨fuel,rfl⟩ : ∃ n, fuel = n + 1 := ⟨fuel - 1,by omega⟩
    have hfirst := hwaits 0 (Nat.le_refl 0)
    have hspent : s.numloops = maxloops := UInt32.toNat_inj.mp hbudget
    rw [Nat.add_zero] at hfirst
    exact ⟨⟨s.reads + 1,s.numloops + 1,s.width⟩,by rw [waitLoop,if_pos hfirst,if_pos hspent],rfl⟩
  | succ d ih =>
    obtain ⟨fuel,rfl⟩ : ∃ n, fuel = n + 1 := ⟨fuel - 1,by omega⟩
    rw [waitLoop_waits s (hwaits 0 (Nat.zero_le _)) (by omega)]
    obtain ⟨s',hloop,hreads⟩ := ih ⟨s.reads + 1,s.numloops + 1,s.width + tick⟩
      (by
        intro i hi
        have := hwaits (i + 1) (by omega)
        rwa [Nat.add_comm i,← Nat.add_assoc] at this)
      (by
        change (s.numloops + 1).toNat + d = _
        rw [numloops_succ maxloops (by omega)]
        omega)
      (show d < fuel by omega)
    exact ⟨s',hloop,by dsimp only at hreads; omega⟩

/-- Within a budget a wait either meets its end or only waits. -/
theorem first_or_all (p : Nat → Bool) (n : Nat) :
    (∃ d ≤ n, (∀ i < d, p i = true) ∧ p d = false) ∨ ∀ i ≤ n, p i = true := by
  by_cases h : ∃ d, d ≤ n ∧ p d = false
  · obtain ⟨hle,hat⟩ := Nat.find_spec h
    refine .inl ⟨Nat.find h,hle,?_,hat⟩
    intro i hi
    apply Bool.of_not_eq_false
    exact fun hfalse => Nat.find_min h hi ⟨Nat.le_trans (Nat.le_of_lt hi) hle,hfalse⟩
  · refine .inr fun i hi => ?_
    apply Bool.of_not_eq_false
    exact fun hfalse => h ⟨i,hi,hfalse⟩

theorem waitLoop_cases (port : Nat → UInt8) (maxloops : UInt32) (waits : UInt8 → Bool) (tick : UInt32) {fuel : Nat}
    (s : PulseState) (hle : s.numloops.toNat ≤ maxloops.toNat) (hfuel : maxloops.toNat < fuel) :
    (∃ d s', waitLoop port maxloops waits tick fuel s = some (.passed s') ∧
      (∀ i < d, waits (port (s.reads + i)) = true) ∧ waits (port (s.reads + d)) = false ∧
      s.numloops.toNat + d ≤ maxloops.toNat ∧
      s'.reads = s.reads + d + 1 ∧ s'.numloops.toNat = s.numloops.toNat + d ∧ s'.width = s.width + UInt32.ofNat d * tick) ∨
    (∃ s', waitLoop port maxloops waits tick fuel s = some (.timedOut s') ∧
      (∀ i ≤ maxloops.toNat - s.numloops.toNat, waits (port (s.reads + i)) = true) ∧
      s'.reads = s.reads + (maxloops.toNat - s.numloops.toNat) + 1) := by
  have hlt := maxloops.toNat_lt
  rcases first_or_all (fun i => waits (port (s.reads + i))) (maxloops.toNat - s.numloops.toNat) with ⟨d,hd,hwaits,hends⟩ | hwaits
  · refine .inl ⟨d,_,waitLoop_passed s hwaits hends (by omega) (by omega),hwaits,hends,by omega,rfl,?_,rfl⟩
    rw [UInt32.toNat_add,UInt32.toNat_ofNat_of_lt' (by simp [UInt32.size]; omega)]
    omega
  · obtain ⟨s',hloop,hreads⟩ := waitLoop_timedOut s hwaits (show _ = maxloops.toNat by omega) (show _ < fuel by omega)
    exact .inr ⟨s',hloop,hwaits,hreads⟩

end Waits

theorem after_sample {port : Nat → UInt8} {f : UInt8 → Bool} {x : Bool} {b d : Nat} (h : ∀ k < d, f (port (b + 1 + k)) = x)
    {i : Nat} (hlow : b < i) (hhigh : i < b + 1 + d) : f (port i) = x := by
  obtain ⟨k,rfl⟩ := Nat.exists_eq_add_of_le (Nat.succ_le_of_lt hlow)
  exact h k (by omega)

/-- The first complete pulse in the samples: the state has ended at `a`, begins at `b` and ends at `c`. -/
structure FirstPulse (m : Nat → Bool) (a b c : Nat) : Prop where
  before : ∀ i < a, m i = true
  ended : m a = false
  idle : ∀ i, a < i → i < b → m i = false
  begun : a < b ∧ m b = true
  lasts : ∀ i, b < i → i < c → m i = true
  stopped : b < c ∧ m c = false

/-- The conversion of the timeout does not wrap up to three minutes. -/
theorem pulseLoops_toNat {timeout : UInt32} (h : timeout.toNat ≤ 180000000) : pulseLoops timeout = timeout := by
  apply UInt32.toNat_inj.mp
  have hsixteen : clockCyclesPerMicrosecond.toNat = 16 := rfl
  rw [pulseLoops,UInt32.toNat_div,microsecondsToClockCycles,UInt32.toNat_mul,hsixteen,Nat.mod_eq_of_lt (by omega)]
  exact Nat.mul_div_cancel _ (by decide)

namespace FirstPulse
variable {m : Nat → Bool} {a a' b b' c n : Nat}

theorem ended_unique (h : FirstPulse m a' b c) (hbefore : ∀ i < a, m i = true) (hended : m a = false) : a' = a := by
  rcases Nat.lt_trichotomy a' a with hlt | heq | hgt
  · exact absurd ((hbefore a' hlt).symm.trans h.ended) Bool.noConfusion
  · exact heq
  · exact absurd ((h.before a hgt).symm.trans hended) Bool.noConfusion

theorem begun_unique (h : FirstPulse m a b' c) (hidle : ∀ i, a < i → i < b → m i = false) (hab : a < b) (hbegun : m b = true) :
    b' = b := by
  rcases Nat.lt_trichotomy b' b with hlt | heq | hgt
  · exact absurd (h.begun.2.symm.trans (hidle b' h.begun.1 hlt)) Bool.noConfusion
  · exact heq
  · exact absurd (hbegun.symm.trans (h.idle b hab hgt)) Bool.noConfusion

/-- No pulse is complete within `n + 2` samples: the state does not end, -/
theorem late_of_state (h : FirstPulse m a b c) (hall : ∀ i ≤ n, m i = true) : n + 2 < c := by
  have hab := h.begun.1
  have hbc := h.stopped.1
  rcases Nat.lt_or_ge n a with hlt | hge
  · omega
  · exact absurd ((hall a hge).symm.trans h.ended) Bool.noConfusion

/-- or it does not begin, -/
theorem late_of_idle (h : FirstPulse m a b c) (hall : ∀ i, a < i → i ≤ n + 1 → m i = false) : n + 2 < c := by
  have hbc := h.stopped.1
  rcases Nat.lt_or_ge (n + 1) b with hlt | hge
  · omega
  · exact absurd (h.begun.2.symm.trans (hall b h.begun.1 hge)) Bool.noConfusion

/-- or it does not end again. -/
theorem late_of_pulse (h : FirstPulse m a b c) (hall : ∀ i, b < i → i ≤ n + 2 → m i = true) : n + 2 < c := by
  rcases Nat.lt_or_ge (n + 2) c with hlt | hge
  · exact hlt
  · exact absurd ((hall c h.stopped.1 hge).symm.trans h.stopped.2) Bool.noConfusion

end FirstPulse

/-- What a measurement in `n` passes has to be: 0 if no pulse is complete within them, and otherwise the counted
samples of the first, those after the one it begins with. -/
def Measured (m : Nat → Bool) (n : Nat) (r : UInt32 × Nat) : Prop :=
  r.2 ≤ n + 3 ∧
    ((r.1 = 0 ∧ ∀ a b c, FirstPulse m a b c → n + 2 < c) ∨
      ∃ a b c, FirstPulse m a b c ∧ c ≤ n + 2 ∧ 21 * (c - b - 1) + 16 < 2^32 ∧ r.1.toNat = (21 * (c - b - 1) + 16) / 16)

/-- The width, at most of three minutes in loops of 21 cycles. -/
theorem pulse_width_toNat {w : Nat} (hw : w ≤ 180000000) :
    21 * w + 16 < 2^32 ∧ (clockCyclesToMicroseconds (UInt32.ofNat w * 21 + 16)).toNat = (21 * w + 16) / 16 := by
  have hsixteen : clockCyclesPerMicrosecond.toNat = 16 := rfl
  have hofNat : (UInt32.ofNat w).toNat = w := UInt32.toNat_ofNat_of_lt' (by simp [UInt32.size]; omega)
  refine ⟨by omega,?_⟩
  rw [clockCyclesToMicroseconds,UInt32.toNat_div,UInt32.toNat_add,UInt32.toNat_mul,hofNat,hsixteen]
  simp only [UInt32.reduceToNat]
  omega

section Phases
variable {port : Nat → UInt8} {pin state : UInt8} {timeout : UInt32} {fuel a b : Nat} (h : timeout.toNat ≤ 180000000)
  (hfuel : timeout.toNat < fuel) (hbefore : ∀ i < a, inState pin state (port i) = true)
  (hended : inState pin state (port a) = false)
include h hfuel hbefore hended

theorem measured_stop (hidle : ∀ i, a < i → i < b → inState pin state (port i) = false) (hab : a < b)
    (hbegun : inState pin state (port b) = true) (s : PulseState) (hreads : s.reads = b + 1)
    (hnum : s.numloops.toNat + 1 = b) (hle : s.numloops.toNat ≤ timeout.toNat) (hwidth : s.width = 0) :
    ∃ w, waitLoop port timeout (inState pin state) 1 fuel s = some w ∧
      Measured (fun i => inState pin state (port i)) timeout.toNat w.result := by
  rcases waitLoop_cases port timeout (inState pin state) 1 s hle hfuel with
    ⟨d,s',hw,hlasts,hstopped,hbudget,hreads',-,hwidth'⟩ | ⟨s',hw,hall,hreads'⟩
  · have hpulse : FirstPulse (fun i => inState pin state (port i)) a b (b + 1 + d) := by
      rw [hreads] at hlasts hstopped
      exact ⟨hbefore,hended,hidle,⟨hab,hbegun⟩,fun i => after_sample hlasts,by omega,hstopped⟩
    have hcount : b + 1 + d - b - 1 = d := by omega
    obtain ⟨hexact,hresult⟩ := pulse_width_toNat (show d ≤ 180000000 by omega)
    refine ⟨_,hw,by rw [Wait.result]; omega,.inr ⟨a,b,_,hpulse,by omega,?_,?_⟩⟩
    · rw [hcount]
      exact hexact
    · rw [hcount,Wait.result,hwidth',hwidth,UInt32.zero_add,UInt32.mul_one]
      exact hresult
  · refine ⟨_,hw,by rw [Wait.result]; omega,.inl ⟨rfl,?_⟩⟩
    intro a' b' c hpulse
    obtain rfl := hpulse.ended_unique hbefore hended
    obtain rfl := hpulse.begun_unique hidle hab hbegun
    rw [hreads] at hall
    apply hpulse.late_of_pulse
    intro i hlow hhigh
    exact after_sample (d := timeout.toNat + 1 - s.numloops.toNat) (fun k hk => hall k (by omega)) hlow (by omega)

theorem measured_start (s : PulseState) (hreads : s.reads = a + 1) (hnum : s.numloops.toNat = a) (hle : a ≤ timeout.toNat)
    (hwidth : s.width = 0) :
    ∃ w w', waitLoop port timeout (fun x => !inState pin state x) 0 fuel s = some w ∧
      w.next (waitLoop port timeout (inState pin state) 1 fuel) = some w' ∧
      Measured (fun i => inState pin state (port i)) timeout.toNat w'.result := by
  rcases waitLoop_cases port timeout (fun x => !inState pin state x) 0 s (by omega) hfuel with
    ⟨d,s',hw,hwaits,hends,hbudget,hreads',hnum',hwidth'⟩ | ⟨s',hw,hall,hreads'⟩
  · have hidle : ∀ i, a < i → i < a + 1 + d → inState pin state (port i) = false := by
      rw [hreads] at hwaits
      simp only [Bool.not_eq_true'] at hwaits
      exact fun i => after_sample hwaits
    have hbegun : inState pin state (port (a + 1 + d)) = true := by
      rw [hreads] at hends
      simpa using hends
    obtain ⟨w',hw',hmeasured⟩ := measured_stop h hfuel hbefore hended hidle (by omega) hbegun s' (by omega) (by omega)
      (by omega) (by rw [hwidth',hwidth,UInt32.mul_zero,UInt32.zero_add])
    exact ⟨_,w',hw,hw',hmeasured⟩
  · refine ⟨_,_,hw,rfl,by rw [Wait.result]; omega,.inl ⟨rfl,?_⟩⟩
    intro a' b c hpulse
    obtain rfl := hpulse.ended_unique hbefore hended
    rw [hreads] at hall
    simp only [Bool.not_eq_true'] at hall
    apply hpulse.late_of_idle
    intro i hlow hhigh
    exact after_sample (d := timeout.toNat + 1 - s.numloops.toNat) (fun k hk => hall k (by omega)) hlow (by omega)

end Phases

/-- The waits end within the budget, and the conversions of the timeout and of the width do not wrap. -/
theorem pulseIn_in_budget (port : Nat → UInt8) (pin state : UInt8) (timeout : UInt32) (h : timeout.toNat ≤ 180000000)
    (fuel : Nat) (hfuel : timeout.toNat + 3 ≤ fuel) :
    pulseLoops timeout = timeout ∧
    ∃ r, pulseIn port pin state timeout fuel = some r ∧ Measured (fun i => inState pin state (port i)) timeout.toNat r := by
  have hloops := pulseLoops_toNat h
  have hlt : timeout.toNat < fuel := by omega
  refine ⟨hloops,?_⟩
  rw [pulseIn,hloops]
  rcases waitLoop_cases port timeout (inState pin state) 0 ⟨0,0,0⟩ (Nat.zero_le _) hlt with
    ⟨a,s,hw,hbefore,hended,hbudget,hreads,hnum,hwidth⟩ | ⟨s,hw,hall,hreads⟩
  · simp only [Nat.zero_add,UInt32.toNat_zero,UInt32.zero_add,UInt32.mul_zero] at hbefore hended hbudget hreads hnum hwidth
    obtain ⟨w,w',hw₂,hw₃,hmeasured⟩ := measured_start h hlt hbefore hended s hreads hnum hbudget hwidth
    exact ⟨w'.result,by simp [hw,hw₂,hw₃],hmeasured⟩
  · simp only [Nat.zero_add,UInt32.toNat_zero,Nat.sub_zero] at hall hreads
    refine ⟨(Wait.timedOut s).result,by simp [hw],by rw [Wait.result]; omega,.inl ⟨rfl,?_⟩⟩
    intro a b c hpulse
    exact hpulse.late_of_state hall

/-- High for the three samples after the first, on a pin of port A. -/
theorem pulseIn_three : ∃ r, pulseIn (fun i => if 1 ≤ i ∧ i ≤ 3 then 1 else 0) 0 1 1000 1003 = some r ∧
    Measured (fun i => inState 0 1 (if 1 ≤ i ∧ i ≤ 3 then 1 else 0)) 1000 r :=
  (pulseIn_in_budget (fun i => if 1 ≤ i ∧ i ≤ 3 then 1 else 0) 0 1 1000 (by decide) 1003 (by decide)).2

example : pulseIn (fun i => if 1 ≤ i ∧ i ≤ 3 then 1 else 0) 0 1 1000 10 = some (3,5) := by decide

end ArduinoAT90USB.Core
