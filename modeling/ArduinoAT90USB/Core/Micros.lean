import ArduinoAT90USB.Foundation.Runs
import ArduinoAT90USB.Core.Timer

/-! `micros()` reads the overflow count, `TCNT0` and `TOV0` one after the other while the
timer runs on. The flag says whether the count is one behind, and `t < 255` whether the
overflow came before `TCNT0` was read. -/
namespace ArduinoAT90USB.Core
open Foundation.Runs

/-- The timer hardware with the interrupt's variables; `ticks` counts since reset. -/
structure TimerSystem where
  timer : Timer0
  ticks : Nat
  tov0 : Bool

namespace TimerSystem

def tcnt0 (s : TimerSystem) : UInt8 := UInt8.ofNat s.ticks

def tick (s : TimerSystem) : TimerSystem :=
  {s with ticks := s.ticks + 1, tov0 := s.tov0 || decide ((s.ticks + 1) % 256 = 0)}

def interrupt (clock : Clock) (s : TimerSystem) : TimerSystem :=
  if s.tov0 then {s with timer := s.timer.overflow clock, tov0 := false} else s

/-- `micros()` with interrupts disabled, and the ticks that fall before `TCNT0` is read,
between that and `TIFR0`, and after. -/
def micros (clock : Clock) (before between after : Nat) (s : TimerSystem) : UInt32 × TimerSystem :=
  let m := s.timer.timer0OverflowCount
  let sampled := tick^[before] s
  let t := sampled.tcnt0
  let checked := tick^[between] sampled
  let m := if checked.tov0 ∧ t < 255 then m + 1 else m
  (((m <<< 8) + t.toUInt32) * UInt32.ofNat (64 / clock.clockCyclesPerMicrosecond),tick^[after] checked)

/-- At most one overflow is uncounted, and it occurred fewer than 255 ticks ago. -/
structure Ready (s : TimerSystem) : Prop where
  counted : ∃ k, s.timer.timer0OverflowCount = UInt32.ofNat k ∧ s.ticks / 256 = k + if s.tov0 then 1 else 0
  recent : s.tov0 = true → s.ticks % 256 < 255

end TimerSystem

/-- A call of `micros()`: the ticks at its entry and exit and what it returned. -/
structure Reading where
  entry : Nat
  exit : Nat
  value : UInt32

inductive TimerEvent
  | tick
  | interrupt
  | micros (before between after : Nat)

/-- The timer and the calls made so far, newest first. -/
structure Watch where
  system : TimerSystem
  readings : List Reading

namespace Watch

def step (clock : Clock) (w : Watch) : TimerEvent → Watch
  | .tick => {w with system := w.system.tick}
  | .interrupt => {w with system := w.system.interrupt clock}
  | .micros before between after =>
    let r := w.system.micros clock before between after
    ⟨r.2,⟨w.system.ticks,r.2.ticks,r.1⟩ :: w.readings⟩

/-- The timer is ready when `TCNT0` is read, and at most one tick falls before `TIFR0` is. -/
def Timely (w : Watch) : TimerEvent → Prop
  | .tick | .interrupt => True
  | .micros before between _ => (TimerSystem.tick^[before] w.system).Ready ∧ between ≤ 1

end Watch

/-- The call returned four times the tick `t`. -/
structure Reading.Shows (r : Reading) (t : Nat) : Prop where
  entry : r.entry ≤ t
  exit : t ≤ r.exit
  value : r.value = UInt32.ofNat (4 * t)

/-- Every call shows a tick between its entry and its exit, and no call goes back behind an
earlier one: it is ahead by at most the time that has passed. -/
structure Watch.MicrosExact (w : Watch) : Prop where
  exact : ∀ r ∈ w.readings, ∃ t, r.Shows t
  monotone : w.readings.Pairwise fun later earlier =>
    ∃ d, d ≤ later.exit - earlier.entry ∧ later.value = earlier.value + UInt32.ofNat (4 * d)

namespace TimerSystem
variable {s : TimerSystem}

private theorem iterate_tick (s : TimerSystem) (n : Nat) :
    (tick^[n] s).ticks = s.ticks + n ∧ (tick^[n] s).timer = s.timer := by
  induction n with
  | zero => exact ⟨rfl,rfl⟩
  | succ n ih =>
    rw [Function.iterate_succ_apply']
    exact ⟨congrArg (· + 1) ih.1,ih.2⟩

private theorem micros_ticks (clock : Clock) (before between after : Nat) (s : TimerSystem) :
    (s.micros clock before between after).2.ticks = s.ticks + before + between + after := by
  simp only [micros, iterate_tick]

/-- The count is corrected exactly if an overflow is pending when `TCNT0` is read. -/
private theorem corrected_iff {between : Nat} (h : s.Ready) (hb : between ≤ 1) :
    ((tick^[between] s).tov0 = true ∧ s.tcnt0 < 255) ↔ s.tov0 = true := by
  have ht : s.tcnt0 < 255 ↔ s.ticks % 256 < 255 := by
    rw [UInt8.lt_iff_toNat_lt, tcnt0, UInt8.toNat_ofNat']
    exact Iff.rfl
  rw [ht]
  constructor
  · rintro ⟨hflag,hlt⟩
    obtain rfl | rfl := Nat.le_one_iff_eq_zero_or_eq_one.mp hb
    · exact hflag
    · -- A tick between the two reads overflows only from `TCNT0 = 255`.
      rcases Bool.or_eq_true _ _ |>.mp hflag with hset | hwrap
      · exact hset
      · have := of_decide_eq_true hwrap
        omega
  · intro hset
    refine ⟨?_,h.recent hset⟩
    obtain rfl | rfl := Nat.le_one_iff_eq_zero_or_eq_one.mp hb
    · exact hset
    · exact Bool.or_eq_true _ _ |>.mpr (.inl hset)

private theorem count_shift (k t : Nat) (h : t / 256 = k) :
    (UInt32.ofNat k <<< 8 + (UInt8.ofNat t).toUInt32) * UInt32.ofNat 4 = UInt32.ofNat (4 * t) := by
  have h8 : (UInt8.ofNat t).toNat = t % 256 := UInt8.toNat_ofNat'
  have hpow : 2 ^ (UInt32.toNat 8 % 32) = 256 := rfl
  apply UInt32.toNat.inj
  simp only [UInt32.toNat_mul, UInt32.toNat_add, UInt32.toNat_shiftLeft, UInt32.toNat_ofNat', UInt8.toNat_toUInt32,
    Nat.shiftLeft_eq, h8, hpow]
  omega

theorem micros_shows {before between : Nat} (h : (tick^[before] s).Ready) (hb : between ≤ 1) (after : Nat) :
    Reading.Shows ⟨s.ticks,(s.micros .mhz16 before between after).2.ticks,
      (s.micros .mhz16 before between after).1⟩ (s.ticks + before) := by
  refine ⟨Nat.le_add_right _ _,?_,?_⟩
  · rw [micros_ticks, Nat.add_assoc]
    exact Nat.le_add_right _ _
  · obtain ⟨hticks,htimer⟩ := iterate_tick s before
    obtain ⟨k,hk,hcount⟩ := h.counted
    rw [htimer] at hk
    rw [hticks] at hcount
    have hfour : 64 / Clock.mhz16.clockCyclesPerMicrosecond = 4 := rfl
    dsimp only [micros]
    rw [if_congr (corrected_iff h hb) rfl rfl, tcnt0, hticks, hk, hfour]
    split_ifs at hcount ⊢
    · have hinc : UInt32.ofNat k + 1 = UInt32.ofNat (k + 1) := (UInt32.ofNat_add k 1).symm
      rw [hinc]
      exact count_shift _ _ hcount
    · exact count_shift _ _ hcount

end TimerSystem

/-- The calls made so far follow one another, and each shows a tick of its own time. -/
private structure Watch.Ordered (w : Watch) : Prop where
  past : ∀ r ∈ w.readings, r.exit ≤ w.system.ticks
  exact : ∀ r ∈ w.readings, ∃ t, r.Shows t
  order : w.readings.Pairwise fun later earlier => earlier.exit ≤ later.entry

private theorem ordered_step (w : Watch) (e : TimerEvent) (h : w.Ordered) (hok : w.Timely e) :
    (w.step .mhz16 e).Ordered := by
  cases e with
  | tick => exact ⟨fun r hr => Nat.le_succ_of_le (h.past r hr),h.exact,h.order⟩
  | interrupt =>
    refine ⟨fun r hr => ?_,h.exact,h.order⟩
    have hticks : (w.system.interrupt .mhz16).ticks = w.system.ticks := by
      unfold TimerSystem.interrupt
      split_ifs <;> rfl
    exact hticks.symm ▸ h.past r hr
  | micros before between after =>
    have hnew := TimerSystem.micros_shows hok.1 hok.2 after
    have hpast := TimerSystem.micros_ticks .mhz16 before between after w.system
    refine ⟨?_,?_,List.pairwise_cons.mpr ⟨h.past,h.order⟩⟩
    · intro r hr
      rcases List.mem_cons.mp hr with rfl | hr
      · exact Nat.le_refl _
      · have := h.past r hr
        have hsys : (w.step .mhz16 (.micros before between after)).system.ticks = _ := hpast
        omega
    · intro r hr
      rcases List.mem_cons.mp hr with rfl | hr
      · exact ⟨_,hnew⟩
      · exact h.exact r hr

private theorem ordered_exact {w : Watch} (h : w.Ordered) : w.MicrosExact := by
  refine ⟨h.exact,h.order.imp_of_mem ?_⟩
  intro later earlier hlater hearlier hle
  obtain ⟨t,ht⟩ := h.exact later hlater
  obtain ⟨u,hu⟩ := h.exact earlier hearlier
  have hut := Nat.le_trans hu.exit (Nat.le_trans hle ht.entry)
  refine ⟨t - u,?_,?_⟩
  · have := ht.exit
    have := hu.entry
    omega
  · rw [ht.value, hu.value, ← UInt32.ofNat_add]
    congr 1
    omega

/-- Over any interleaving of ticks, overflow interrupts and calls. -/
theorem micros_exact (s : TimerSystem) (events : List TimerEvent)
    (h : Admits (Watch.step .mhz16) Watch.Timely ⟨s,[]⟩ events) :
    (events.foldl (Watch.step .mhz16) ⟨s,[]⟩).MicrosExact :=
  ordered_exact (h.always ordered_step ⟨by simp,by simp,List.Pairwise.nil⟩).last

/-- The overflow was 254 ticks old when the call was entered, and a tick older when `TCNT0` was read. -/
theorem micros_stale_overflow :
    TimerSystem.Ready ⟨.reset,510,true⟩ ∧ ((TimerSystem.mk .reset 510 true).micros .mhz16 1 0 0).1 = 1020 ∧
      ¬ (Watch.step .mhz16 ⟨⟨.reset,510,true⟩,[]⟩ (.micros 1 0 0)).MicrosExact := by
  refine ⟨⟨⟨0,rfl,rfl⟩,by decide⟩,by decide,?_⟩
  intro h
  obtain ⟨t,hentry,hexit,hvalue⟩ := h.exact _ List.mem_cons_self
  change 510 ≤ t at hentry
  change t ≤ 511 at hexit
  obtain rfl | rfl : t = 510 ∨ t = 511 := by omega
  all_goals exact absurd hvalue (by decide)

/-- A call during which the timer overflows, one before the interrupt and one after it. -/
theorem micros_exact_overflow :
    Admits (Watch.step .mhz16) Watch.Timely ⟨⟨.reset,255,false⟩,[]⟩
        [.micros 0 1 0,.micros 0 0 0,.interrupt,.micros 0 0 0] ∧
      ([.micros 0 1 0,.micros 0 0 0,.interrupt,.micros 0 0 0].foldl (Watch.step .mhz16)
        ⟨⟨.reset,255,false⟩,[]⟩).MicrosExact := by
  have h : Admits (Watch.step .mhz16) Watch.Timely ⟨⟨.reset,255,false⟩,[]⟩
      [.micros 0 1 0,.micros 0 0 0,.interrupt,.micros 0 0 0] :=
    ⟨⟨⟨⟨0,rfl,rfl⟩,by decide⟩,by decide⟩,⟨⟨⟨0,rfl,rfl⟩,by decide⟩,by decide⟩,trivial,
      ⟨⟨⟨1,rfl,rfl⟩,by decide⟩,by decide⟩,trivial⟩
  exact ⟨h,micros_exact _ _ h⟩

end ArduinoAT90USB.Core
