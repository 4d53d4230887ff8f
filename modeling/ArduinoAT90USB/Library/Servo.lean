import Mathlib.Tactic.Common
import ArduinoAT90USB.Core.Digital
import ArduinoAT90USB.Core.WMath
import ArduinoAT90USB.Foundation.Runs

/-! The servo library on one 16-bit timer: the compare interrupt raises the pins of the timer's
servos one after the other, and each pin is to be lowered by the interrupt after the one that raised it. -/
namespace ArduinoAT90USB.Library
open Core Foundation.Runs

def servosPerTimer : Nat := 12

/-- `_Nbr_16timers`: `Servo.h` does not name the parts of the boards, the at90usb1287 and the at90usb647, and
falls back on timer 1. -/
abbrev nbr16timers : Nat := 1

def maxServos : Nat := nbr16timers * servosPerTimer

def minPulseWidth : Int16 := 544
def maxPulseWidth : Int16 := 2400
def defaultPulseWidth : Int32 := 1500
def refreshInterval : Int32 := 20000
def trimDuration : Int16 := 2

/-- Microseconds to timer counts, at 16 clock cycles a microsecond and a prescaler of 8. -/
def usToTicks (us : Int32) : Int32 := 16 * us / 8

def toTicks (us : Int32) : UInt16 := (usToTicks us).toInt16.toUInt16

def servoIndex {timers : Nat} (timer : Fin timers) (channel : Int) : Int := timer.val * servosPerTimer + channel

/-- An entry of `servos`, with the limits the `Servo` object of that entry keeps. -/
structure ServoSlot where
  nbr : UInt8
  isActive : Bool
  ticks : UInt16
  min : Int8
  max : Int8

namespace ServoSlot

def servoMin (s : ServoSlot) : Int16 := minPulseWidth - s.min.toInt16 * 4

def servoMax (s : ServoSlot) : Int16 := maxPulseWidth - s.max.toInt16 * 4

def writeMicroseconds (s : ServoSlot) (value : Int16) : ServoSlot :=
  let value := if value < s.servoMin then s.servoMin else if value > s.servoMax then s.servoMax else value
  {s with ticks := toTicks (value - trimDuration).toInt32}

def write (s : ServoSlot) (value : Int16) : ServoSlot :=
  if value < minPulseWidth then
    let angle := if value < 0 then 0 else if value > 180 then 180 else value
    s.writeMicroseconds (map angle.toInt32 0 180 s.servoMin.toInt32 s.servoMax.toInt32).toInt16
  else s.writeMicroseconds value

end ServoSlot

/-- A pulse begun by the interrupt: its pin, the timer's count then, and the counts it is to last. -/
structure Pulse where
  pin : UInt8
  start : UInt16
  width : UInt16

/-- The library's variables and registers for one timer. `channel` stays between -1 and 12, so that it never
wraps. `attaching` is the servo whose `attach` the program is in, `pulse` the pulse the last interrupt began,
and `restarted` tells whether the count has been cleared since. -/
structure ServoTimer where
  servoCount : Nat
  servos : Nat → ServoSlot
  channel : Int
  ocr : UInt16
  enabled : Bool
  pins : Pins
  attaching : Option Nat
  pulse : Option Pulse
  restarted : Bool

namespace ServoTimer

/-- `SERVO(timer,Channel[timer])` -/
def current (s : ServoTimer) : ServoSlot := s.servos s.channel.toNat

def setSlot (s : ServoTimer) (channel : Nat) (slot : ServoSlot) : ServoTimer :=
  {s with servos := Function.update s.servos channel slot}

def isTimerActive (s : ServoTimer) : Bool :=
  (List.range servosPerTimer).any fun channel => (s.servos channel).isActive

def initISR (s : ServoTimer) : ServoTimer := {s with enabled := true,restarted := true}

section Interrupt
variable {timers : Nat} (timer : Fin timers)

/-- The first half of `handle_interrupts` lowers the pin of the channel that ends. -/
def lowerPin (s : ServoTimer) : ServoTimer :=
  -- the refresh interval is over: the count starts again, as the value read next shows
  if s.channel < 0 then s
  else if servoIndex timer s.channel < s.servoCount ∧ s.current.isActive = true then
    {s with pins := s.pins.digitalWrite s.current.nbr false}
  else s

/-- The second half begins the next channel, or waits out the refresh interval. `tcnt` and `later` are what the
two reads of the count give. -/
def raiseNext (s : ServoTimer) (tcnt later : UInt16) : ServoTimer :=
  let s : ServoTimer := {s with channel := s.channel + 1}
  if servoIndex timer s.channel < s.servoCount ∧ s.channel < (servosPerTimer : Int) then
    let s : ServoTimer := {s with ocr := tcnt + s.current.ticks}
    if s.current.isActive then
      {s with
        pins := s.pins.digitalWrite s.current.nbr true
        pulse := some ⟨s.current.nbr,tcnt,s.current.ticks⟩
        restarted := false}
    else {s with pulse := none}
  else
    let ocr := if (tcnt + 4).toUInt32.toInt32 < usToTicks refreshInterval then toTicks refreshInterval else later + 4
    {s with ocr := ocr,channel := -1,pulse := none}

def handleInterrupts (s : ServoTimer) (tcnt later : UInt16) : ServoTimer :=
  (s.lowerPin timer).raiseNext timer tcnt later

end Interrupt

/-- The pin is stored in six bits. -/
def assignPin (s : ServoTimer) (channel : Nat) (pin : UInt8) (min max : Int16) : ServoTimer :=
  let s : ServoTimer := {s with pins := s.pins.pinModeOutput pin}
  s.setSlot channel {s.servos channel with
    nbr := pin % 64
    min := ((minPulseWidth - min) / 4).toInt8
    max := ((maxPulseWidth - max) / 4).toInt8}

/-- `attach` as far as `initISR`; the interrupt may still come before `isActive` is set. -/
def attach (s : ServoTimer) (channel : Nat) (pin : UInt8) (min max : Int16) : ServoTimer :=
  let s := s.assignPin channel pin min max
  let s := if s.isTimerActive then s else s.initISR
  {s with attaching := some channel}

/-- The end of `attach` sets `isActive`. -/
def endAttach (s : ServoTimer) : ServoTimer :=
  match s.attaching with
  | none => s
  | some channel => {s.setSlot channel {s.servos channel with isActive := true} with attaching := none}

def detach (s : ServoTimer) (channel : Nat) : ServoTimer :=
  s.setSlot channel {s.servos channel with isActive := false}

/-- The constructor, which takes the next entry of any timer. -/
def construct {timers : Nat} (timer : Fin timers) (s : ServoTimer) : ServoTimer :=
  if s.servoCount < timers * servosPerTimer then
    let channel := s.servoCount % servosPerTimer
    let s' : ServoTimer := {s with servoCount := s.servoCount + 1}
    if s.servoCount / servosPerTimer = timer.val then
      s'.setSlot channel {s.servos channel with ticks := toTicks defaultPulseWidth}
    else s'
  else s

/-- Before the first servo is constructed, with the pins as reset leaves them. -/
def reset : ServoTimer where
  servoCount := 0
  servos := fun _ => ⟨0,false,0,0,0⟩
  channel := 0
  ocr := 0
  enabled := false
  pins := ⟨fun _ => 0,fun _ => 0,0,0,0,0⟩
  attaching := none
  pulse := none
  restarted := false

end ServoTimer

structure AttachRequest where
  channel : Fin 12
  pin : UInt8
  min : Int16
  max : Int16
  onBoard : pin.toNat < 48

inductive ServoAction
  | construct
  | attach (r : AttachRequest)
  | endAttach
  | detach (channel : Fin 12)
  | write (channel : Fin 12) (value : Int16)
  | writeMicroseconds (channel : Fin 12) (value : Int16)
  | compareInterrupt (tcnt later : UInt16)

namespace ServoTimer
variable {timers : Nat} (timer : Fin timers)

/-- A member function is called on a servo that has been constructed, and not from within `attach`. -/
def call (s : ServoTimer) (channel : Nat) (f : ServoTimer → ServoTimer) : ServoTimer :=
  if s.attaching = none ∧ servoIndex timer channel < s.servoCount then f s else s

/-- Calls on the servos of one timer and its interrupt, which comes only once it is enabled. -/
def step (s : ServoTimer) : ServoAction → ServoTimer
  | .construct => if s.attaching = none then s.construct timer else s
  | .attach r => s.call timer r.channel fun s => s.attach r.channel r.pin r.min r.max
  | .endAttach => s.endAttach
  | .detach channel => s.call timer channel fun s => s.detach channel
  | .write channel value => s.call timer channel fun s => s.setSlot channel ((s.servos channel).write value)
  | .writeMicroseconds channel value =>
    s.call timer channel fun s => s.setSlot channel ((s.servos channel).writeMicroseconds value)
  | .compareInterrupt tcnt later => if s.enabled then s.handleInterrupts timer tcnt later else s

/-- Whenever the next interrupt comes it lowers the pin that is pulsed, no other pin is high, and the compare
value still is the width of the pulse ahead of its start. -/
structure EndsPulse (s : ServoTimer) : Prop where
  lowers : ∀ q, s.pulse = some q → (s.lowerPin timer).pins.level q.pin = false
  single : ∀ pin : UInt8, pin.toNat < 48 → s.pins.level pin = true → ∃ q, s.pulse = some q ∧ q.pin = pin
  width : ∀ q, s.pulse = some q → s.ocr = q.start + q.width ∧ s.restarted = false

/-- The servo whose pulse is on is not detached, nor attached to another pin. -/
def LeavesPulse (s : ServoTimer) : ServoAction → Prop
  | .attach r => s.attaching = none → ∀ q, s.pulse = some q → s.channel = r.channel.val → r.pin = q.pin
  | .detach channel => s.attaching = none → ∀ q, s.pulse = some q → s.channel ≠ channel.val
  | _ => True

/-- A pulse that the next interrupt will end: its servo is the current one, still active and on the same pin. -/
structure Pulsing (s : ServoTimer) (q : Pulse) : Prop where
  begun : 0 ≤ s.channel
  counted : servoIndex timer s.channel < s.servoCount
  active : s.current.isActive = true
  pin : s.current.nbr = q.pin
  high : s.pins.level q.pin = true
  ahead : s.ocr = q.start + q.width
  running : s.restarted = false

structure Paced (s : ServoTimer) : Prop where
  bounds : -1 ≤ s.channel ∧ s.channel < 12
  onBoard : ∀ channel, (s.servos channel).nbr.toNat < 48
  pulsing : ∀ q, s.pulse = some q → s.Pulsing timer q
  single : ∀ pin : UInt8, pin.toNat < 48 → s.pins.level pin = true → ∃ q, s.pulse = some q ∧ q.pin = pin

variable {timer} {s s' : ServoTimer} {q : Pulse}

section Lowering

private theorem lowerPin_pins (timer : Fin timers) (s : ServoTimer) : ∃ pins, s.lowerPin timer = {s with pins := pins} := by
  unfold lowerPin
  split
  · exact ⟨s.pins,rfl⟩
  · split
    · exact ⟨_,rfl⟩
    · exact ⟨s.pins,rfl⟩

/-- The first half of the interrupt raises no pin. -/
private theorem lowerPin_high (hboard : s.current.nbr.toNat < 48) {pin : UInt8} (hpin : pin.toNat < 48)
    (h : (s.lowerPin timer).pins.level pin = true) : s.pins.level pin = true := by
  unfold lowerPin at h
  split at h
  · exact h
  · split at h
    · by_cases heq : s.current.nbr = pin
      · rw [← heq,Pins.digitalWrite_self hboard] at h
        exact absurd h Bool.false_ne_true
      · rwa [Pins.digitalWrite_other hboard hpin heq] at h
    · exact h

theorem Pulsing.lowered (h : s.Pulsing timer q) (hboard : s.current.nbr.toNat < 48) :
    (s.lowerPin timer).pins.level q.pin = false := by
  rw [lowerPin,if_neg (Int.not_lt.mpr h.begun),if_pos ⟨h.counted,h.active⟩,← h.pin]
  exact Pins.digitalWrite_self hboard false

/-- A pulse whose servo is inactive or on another pin is not ended. -/
private theorem lowerPin_stuck (hboard : s.current.nbr.toNat < 48) (hpin : q.pin.toNat < 48)
    (hhigh : s.pins.level q.pin = true) (h : s.current.isActive = false ∨ s.current.nbr ≠ q.pin) :
    (s.lowerPin timer).pins.level q.pin = true := by
  unfold lowerPin
  split
  · exact hhigh
  · split
    · rename_i hactive
      have hne : s.current.nbr ≠ q.pin := h.resolve_left (by rw [hactive.2]; decide)
      exact (Pins.digitalWrite_other hboard hpin hne false).trans hhigh
    · exact hhigh

end Lowering

theorem Paced.pin_onBoard (h : s.Paced timer) (hq : s.pulse = some q) : q.pin.toNat < 48 := by
  rw [← (h.pulsing q hq).pin]
  exact h.onBoard _

theorem Paced.endsPulse (h : s.Paced timer) : s.EndsPulse timer where
  lowers q hq := (h.pulsing q hq).lowered (h.onBoard _)
  single := h.single
  width q hq := ⟨(h.pulsing q hq).ahead,(h.pulsing q hq).running⟩

section Interrupt

private theorem Paced.all_low (h : s.Paced timer) {pin : UInt8} (hpin : pin.toNat < 48) :
    (s.lowerPin timer).pins.level pin = false := by
  apply Bool.eq_false_iff.mpr
  intro hhigh
  obtain ⟨q,hq,rfl⟩ := h.single pin hpin (lowerPin_high (h.onBoard _) hpin hhigh)
  exact Bool.false_ne_true ((h.endsPulse.lowers q hq).symm.trans hhigh)

private theorem raiseNext_paced (hbounds : -1 ≤ s.channel ∧ s.channel < 12)
    (hboard : ∀ channel, (s.servos channel).nbr.toNat < 48)
    (hlow : ∀ pin : UInt8, pin.toNat < 48 → s.pins.level pin = false) (tcnt later : UInt16) :
    (s.raiseNext timer tcnt later).Paced timer := by
  have hidle (pin : UInt8) (hpin : pin.toNat < 48) (hhigh : s.pins.level pin = true) :
      ∃ q, (none : Option Pulse) = some q ∧ q.pin = pin :=
    absurd ((hlow pin hpin).symm.trans hhigh) Bool.false_ne_true
  unfold raiseNext
  dsimp only
  split
  · rename_i hnext
    have hchannel : -1 ≤ s.channel + 1 ∧ s.channel + 1 < 12 := ⟨by omega,hnext.2⟩
    split
    · rename_i hactive
      refine ⟨hchannel,hboard,?_,?_⟩
      · rintro q ⟨rfl⟩
        exact ⟨by dsimp only; omega,hnext.1,hactive,rfl,Pins.digitalWrite_self (hboard _) true,rfl,rfl⟩
      · intro pin hpin hhigh
        refine ⟨_,rfl,?_⟩
        apply Classical.byContradiction
        intro hne
        have hsame := (Pins.digitalWrite_other (hboard _) hpin hne true).symm.trans hhigh
        exact Bool.false_ne_true ((hlow pin hpin).symm.trans hsame)
    · exact ⟨hchannel,hboard,fun q hq => absurd hq (by simp),hidle⟩
  · exact ⟨⟨Int.le_refl _,(by decide : (-1 : Int) < 12)⟩,hboard,fun q hq => absurd hq (by simp),hidle⟩

private theorem Paced.handleInterrupts (h : s.Paced timer) (tcnt later : UInt16) :
    (s.handleInterrupts timer tcnt later).Paced timer := by
  have hlow := fun (pin : UInt8) (hpin : pin.toNat < 48) => h.all_low hpin
  rw [ServoTimer.handleInterrupts]
  obtain ⟨pins,hpins⟩ := lowerPin_pins timer s
  rw [hpins] at hlow ⊢
  exact raiseNext_paced (s := {s with pins := pins}) h.bounds h.onBoard hlow tcnt later

end Interrupt

section Calls

private theorem Paced.current_kept (h : s.Paced timer) (q : Pulse) (hq : s.pulse = some q) :
    s.current.isActive = true ∧ s.current.nbr = q.pin :=
  ⟨(h.pulsing q hq).active,(h.pulsing q hq).pin⟩

private theorem Paced.frame (h : s.Paced timer) (hchannel : s'.channel = s.channel) (hocr : s'.ocr = s.ocr)
    (hpulse : s'.pulse = s.pulse) (hcount : s.servoCount ≤ s'.servoCount)
    (hlevel : ∀ pin, s'.pins.level pin = s.pins.level pin) (hboard : ∀ channel, (s'.servos channel).nbr.toNat < 48)
    (hcurrent : ∀ q, s.pulse = some q → s'.current.isActive = true ∧ s'.current.nbr = q.pin)
    (hrunning : ∀ q, s.pulse = some q → s'.restarted = s.restarted) : s'.Paced timer where
  bounds := by rw [hchannel]; exact h.bounds
  onBoard := hboard
  pulsing q hq := by
    rw [hpulse] at hq
    have hp := h.pulsing q hq
    have hcounted := hp.counted
    refine ⟨?_,?_,(hcurrent q hq).1,(hcurrent q hq).2,?_,?_,?_⟩
    · rw [hchannel]
      exact hp.begun
    · rw [hchannel]
      omega
    · rw [hlevel]
      exact hp.high
    · rw [hocr]
      exact hp.ahead
    · rw [hrunning q hq]
      exact hp.running
  single pin hpin hhigh := by
    rw [hpulse]
    exact h.single pin hpin ((hlevel pin).symm.trans hhigh)

private theorem current_eq {n : Nat} (h : s.channel = n) : s.current = s.servos n := by
  rw [current,h,Int.toNat_natCast]

private theorem setSlot_self (s : ServoTimer) (n : Nat) (slot : ServoSlot) : (s.setSlot n slot).servos n = slot := by
  dsimp only [setSlot]
  rw [Function.update_self]

private theorem setSlot_other (s : ServoTimer) {n channel : Nat} (slot : ServoSlot) (h : channel ≠ n) :
    (s.setSlot n slot).servos channel = s.servos channel := by
  dsimp only [setSlot]
  rw [Function.update_of_ne h]

private theorem setSlot_onBoard (hboard : ∀ channel, (s.servos channel).nbr.toNat < 48) (n : Nat) {slot : ServoSlot}
    (hslot : slot.nbr.toNat < 48) (channel : Nat) : ((s.setSlot n slot).servos channel).nbr.toNat < 48 := by
  by_cases heq : channel = n
  · rw [heq,setSlot_self]
    exact hslot
  · rw [setSlot_other s slot heq]
    exact hboard channel

/-- Writing one entry keeps the pace, if the servo being pulsed stays active on its pin. -/
private theorem Paced.setSlot (h : s.Paced timer) (n : Nat) {slot : ServoSlot} (hboard : slot.nbr.toNat < 48)
    (hslot : ∀ q, s.pulse = some q → s.channel = n → slot.isActive = true ∧ slot.nbr = q.pin) :
    (s.setSlot n slot).Paced timer := by
  refine h.frame rfl rfl rfl (Nat.le_refl _) (fun _ => rfl) (setSlot_onBoard h.onBoard n hboard) ?_ (fun _ _ => rfl)
  intro q hq
  have hp := h.pulsing q hq
  change ((s.setSlot n slot).servos s.channel.toNat).isActive = true ∧
    ((s.setSlot n slot).servos s.channel.toNat).nbr = q.pin
  by_cases heq : s.channel.toNat = n
  · rw [heq,setSlot_self]
    have := hp.begun
    exact hslot q hq (by omega)
  · rw [setSlot_other s slot heq]
    exact ⟨hp.active,hp.pin⟩

private theorem Paced.setSlot_same (h : s.Paced timer) (n : Nat) {slot : ServoSlot}
    (hactive : slot.isActive = (s.servos n).isActive) (hnbr : slot.nbr = (s.servos n).nbr) :
    (s.setSlot n slot).Paced timer := by
  refine h.setSlot n (by rw [hnbr]; exact h.onBoard n) ?_
  intro q hq hchannel
  have hp := h.pulsing q hq
  rw [hactive,hnbr,← current_eq hchannel]
  exact ⟨hp.active,hp.pin⟩

private theorem Paced.isTimerActive (h : s.Paced timer) (hq : s.pulse = some q) : s.isTimerActive = true := by
  have hp := h.pulsing q hq
  have := hp.begun
  have := h.bounds
  rw [ServoTimer.isTimerActive,List.any_eq_true]
  exact ⟨s.channel.toNat,List.mem_range.mpr (by rw [servosPerTimer]; omega),hp.active⟩

private theorem pin_stored {pin : UInt8} (h : pin.toNat < 48) : pin % 64 = pin := by
  apply UInt8.toNat_inj.mp
  rw [UInt8.toNat_mod]
  exact Nat.mod_eq_of_lt (Nat.lt_trans h (by decide))

private theorem pinModeOutput_level (p : Pins) (pin other : UInt8) :
    (p.pinModeOutput pin).level other = p.level other := by
  apply Pins.level_out
  unfold Pins.pinModeOutput
  split <;> rfl

/-- The pin of a servo may be set, unless that servo is being pulsed on another pin. -/
private theorem Paced.assignPin (h : s.Paced timer) (n : Nat) {pin : UInt8} (hboard : pin.toNat < 48)
    (min max : Int16) (hpin : ∀ q, s.pulse = some q → s.channel = n → pin = q.pin) :
    (s.assignPin n pin min max).Paced timer := by
  have hmode : {s with pins := s.pins.pinModeOutput pin}.Paced timer :=
    h.frame rfl rfl rfl (Nat.le_refl _) (pinModeOutput_level s.pins pin) h.onBoard h.current_kept (fun _ _ => rfl)
  refine hmode.setSlot n (by dsimp only; rwa [pin_stored hboard]) ?_
  intro q hq hchannel
  refine ⟨?_,(pin_stored hboard).trans (hpin q hq hchannel)⟩
  dsimp only
  rw [← current_eq (show s.channel = n from hchannel)]
  exact (h.pulsing q hq).active

private theorem Paced.attach (h : s.Paced timer) (n : Nat) {pin : UInt8} (hboard : pin.toNat < 48)
    (min max : Int16) (hpin : ∀ q, s.pulse = some q → s.channel = n → pin = q.pin) :
    (s.attach n pin min max).Paced timer := by
  have hset := h.assignPin n hboard min max hpin
  rw [ServoTimer.attach]
  by_cases hactive : (s.assignPin n pin min max).isTimerActive = true
  · rw [if_pos hactive]
    exact hset.frame rfl rfl rfl (Nat.le_refl _) (fun _ => rfl) hset.onBoard hset.current_kept (fun _ _ => rfl)
  · -- the timer is started afresh only while no pulse is on
    rw [if_neg hactive]
    exact hset.frame rfl rfl rfl (Nat.le_refl _) (fun _ => rfl) hset.onBoard
      (fun q hq => absurd (hset.isTimerActive hq) hactive) (fun q hq => absurd (hset.isTimerActive hq) hactive)

private theorem Paced.endAttach (h : s.Paced timer) : s.endAttach.Paced timer := by
  unfold ServoTimer.endAttach
  cases hattaching : s.attaching with
  | none => exact h
  | some n =>
    have hset : (s.setSlot n {s.servos n with isActive := true}).Paced timer := by
      refine h.setSlot n (h.onBoard n) ?_
      intro q hq hchannel
      refine ⟨rfl,?_⟩
      have hpin := (h.pulsing q hq).pin
      rwa [current_eq hchannel] at hpin
    exact hset.frame rfl rfl rfl (Nat.le_refl _) (fun _ => rfl) hset.onBoard hset.current_kept (fun _ _ => rfl)

private theorem Paced.construct (h : s.Paced timer) : (s.construct timer).Paced timer := by
  have hcounted : {s with servoCount := s.servoCount + 1}.Paced timer :=
    h.frame rfl rfl rfl (Nat.le_succ _) (fun _ => rfl) h.onBoard h.current_kept (fun _ _ => rfl)
  unfold ServoTimer.construct
  split
  · dsimp only
    split
    · exact hcounted.setSlot_same _ rfl rfl
    · exact hcounted
  · exact h

private theorem Paced.call (h : s.Paced timer) {n : Nat} {f : ServoTimer → ServoTimer}
    (hf : s.attaching = none → (f s).Paced timer) : (s.call timer n f).Paced timer := by
  unfold ServoTimer.call
  split
  · rename_i hcall
    exact hf hcall.1
  · exact h

private theorem write_kept (slot : ServoSlot) (value : Int16) :
    (slot.write value).isActive = slot.isActive ∧ (slot.write value).nbr = slot.nbr := by
  unfold ServoSlot.write
  split <;> exact ⟨rfl,rfl⟩

end Calls

theorem Paced.step {a : ServoAction} (h : s.Paced timer) (hok : s.LeavesPulse a) : (s.step timer a).Paced timer := by
  cases a with
  | construct =>
    rw [ServoTimer.step]
    split
    · exact h.construct
    · exact h
  | attach r =>
    rw [ServoTimer.step]
    refine h.call ?_
    intro hfree
    exact h.attach _ r.onBoard r.min r.max (hok hfree)
  | endAttach => exact h.endAttach
  | detach channel =>
    rw [ServoTimer.step]
    refine h.call ?_
    intro hfree
    refine h.setSlot _ (h.onBoard _) ?_
    intro q hq hchannel
    exact absurd hchannel (hok hfree q hq)
  | write channel value =>
    rw [ServoTimer.step]
    refine h.call ?_
    intro _
    exact h.setSlot_same _ (write_kept _ value).1 (write_kept _ value).2
  | writeMicroseconds channel value =>
    rw [ServoTimer.step]
    refine h.call ?_
    intro _
    exact h.setSlot_same _ rfl rfl
  | compareInterrupt tcnt later =>
    rw [ServoTimer.step]
    split
    · exact h.handleInterrupts tcnt later
    · exact h

theorem reset_paced (timer : Fin timers) : reset.Paced timer where
  bounds := ⟨by decide,by decide⟩
  onBoard _ := (by decide : (0 : UInt8).toNat < 48)
  pulsing q hq := absurd hq (by simp [reset])
  single pin _ hhigh := by
    have hlow : reset.pins.level pin = false := by
      rw [Pins.level]
      split
      · rfl
      · exact bne_eq_false_iff_eq.mpr (UInt8.zero_and)
    exact absurd (hlow.symm.trans hhigh) Bool.false_ne_true

private theorem stuck_not_endsPulse (hboard : s.current.nbr.toNat < 48) (hpin : q.pin.toNat < 48)
    (hq : s.pulse = some q) (hhigh : s.pins.level q.pin = true)
    (hslot : s.current.isActive = false ∨ s.current.nbr ≠ q.pin) : ¬ s.EndsPulse timer := by
  intro h
  exact Bool.false_ne_true ((h.lowers q hq).symm.trans (lowerPin_stuck hboard hpin hhigh hslot))

private theorem Pulsing.call (h : s.Pulsing timer q) (hfree : s.attaching = none) {n : Nat} (hchannel : s.channel = n)
    (f : ServoTimer → ServoTimer) : s.call timer n f = f s := by
  have hcounted := h.counted
  rw [hchannel] at hcounted
  exact if_pos ⟨hfree,hcounted⟩

private theorem attach_frame (s : ServoTimer) (n : Nat) (pin : UInt8) (min max : Int16) :
    (s.attach n pin min max).pulse = s.pulse ∧ (s.attach n pin min max).channel = s.channel ∧
      (s.attach n pin min max).pins = s.pins.pinModeOutput pin ∧
        (s.attach n pin min max).servos = (s.assignPin n pin min max).servos := by
  unfold attach
  dsimp only
  split <;> exact ⟨rfl,rfl,rfl,rfl⟩

/-- Detaching the servo being pulsed, or attaching it to another pin, leaves its pin high. -/
theorem Paced.disturbed {a : ServoAction} (h : s.Paced timer) (hbad : ¬ s.LeavesPulse a) :
    ¬ (s.step timer a).EndsPulse timer := by
  cases a with
  | construct | endAttach | write | writeMicroseconds | compareInterrupt => exact absurd trivial hbad
  | attach r =>
    simp only [LeavesPulse,not_forall] at hbad
    obtain ⟨hfree,q,hq,hchannel,hne⟩ := hbad
    have hp := h.pulsing q hq
    obtain ⟨hpulse,hkept,hpins,hservos⟩ := attach_frame s r.channel r.pin r.min r.max
    rw [ServoTimer.step,hp.call hfree hchannel]
    have hcurrent : (s.attach r.channel r.pin r.min r.max).current.nbr = r.pin % 64 := by
      rw [current_eq (hkept.trans hchannel),hservos,ServoTimer.assignPin,setSlot_self]
    rw [pin_stored r.onBoard] at hcurrent
    refine stuck_not_endsPulse ?_ (h.pin_onBoard hq) (hpulse.trans hq) ?_ ?_
    · rw [hcurrent]
      exact r.onBoard
    · rw [hpins,pinModeOutput_level]
      exact hp.high
    · rw [hcurrent]
      exact .inr hne
  | detach channel =>
    simp only [LeavesPulse,not_forall,not_not] at hbad
    obtain ⟨hfree,q,hq,hchannel⟩ := hbad
    have hp := h.pulsing q hq
    rw [ServoTimer.step,hp.call hfree hchannel]
    have hcurrent : (s.detach channel).current = {s.servos channel with isActive := false} := by
      rw [current_eq (show (s.detach channel).channel = channel.val from hchannel)]
      exact setSlot_self s channel _
    refine stuck_not_endsPulse ?_ (h.pin_onBoard hq) hq hp.high ?_
    · rw [hcurrent]
      exact h.onBoard channel
    · rw [hcurrent]
      exact .inl rfl

end ServoTimer

/-- Every pulse is ended by the next interrupt, at its width and with no other pin high, in every run that
neither detaches the servo being pulsed nor attaches it to another pin, and in no other. -/
theorem servo_pulses_end_iff {timers : Nat} (timer : Fin timers) (actions : List ServoAction) :
    Always (ServoTimer.step timer) (ServoTimer.EndsPulse timer) ServoTimer.reset actions ↔
      Admits (ServoTimer.step timer) ServoTimer.LeavesPulse ServoTimer.reset actions := by
  refine always_iff_admits (I := ServoTimer.Paced timer) ?_ ?_ ?_ (ServoTimer.reset_paced timer) actions
  · intro s a h hok
    exact h.step hok
  · intro s h
    exact h.endsPulse
  · intro s a h hbad
    exact h.disturbed hbad

/-- A servo on pin 9 is pulsed by the second interrupt and then detached; the next interrupts leave it high. -/
theorem detached_pulse_stays_high :
    ¬ Always (ServoTimer.step (0 : Fin 1)) (ServoTimer.EndsPulse (0 : Fin 1)) ServoTimer.reset
        [.construct,.attach ⟨0,9,544,2400,by decide⟩,.endAttach,.compareInterrupt 0 0,.compareInterrupt 0 0,.detach 0] ∧
      ([.construct,.attach ⟨0,9,544,2400,by decide⟩,.endAttach,.compareInterrupt 0 0,.compareInterrupt 0 0,.detach 0,
        .compareInterrupt 3000 3000,.compareInterrupt 0 0].foldl (ServoTimer.step (0 : Fin 1)) ServoTimer.reset).pins.level 9 = true := by
  refine ⟨?_,by decide⟩
  intro hall
  have hlow := hall.last.lowers ⟨9,0,3000⟩ rfl
  exact absurd hlow (by decide)

end ArduinoAT90USB.Library
