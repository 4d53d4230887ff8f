import ArduinoAT90USB.Core.Digital

/-! `tone` and `noTone`: one slot, timer 2, and a compare interrupt that toggles the pin of the
slot. The slot, the port and mask the interrupt uses and the interrupt enable bit are separate
variables; calls and interrupts keep them in step. -/
namespace ArduinoAT90USB.Core
open Foundation.Bits

/-- The variables of `Tone.cpp` and timer 2's registers; `TCCR2A` is among the registers of the
pins. `tonePin` is `tone_pins[0]`, 255 for a free slot. -/
structure ToneState where
  tonePin : UInt8
  pinPort : Option IoPort
  pinMask : UInt8
  toggleCount : Int32
  pins : Pins
  tccr2b : UInt8
  ocr2a : UInt8
  timsk2 : UInt8

-- the bits of TCCR2A, TCCR2B and TIMSK2 that are written
def wgm20 : UInt8 := 0x01
def wgm21 : UInt8 := 0x02
def cs20 : UInt8 := 0x01
def cs22 : UInt8 := 0x04
def ocie2a : UInt8 := 0x02

/-- The compare value and the prescaler bits `tone` finds for timer 2. -/
def prescale (frequency : UInt16) : UInt32 × UInt8 :=
  let half := fCpu / frequency.toUInt32 / 2
  if half - 1 ≤ 255 then (half - 1,1)
  else if half / 8 - 1 ≤ 255 then (half / 8 - 1,2)
  else if half / 32 - 1 ≤ 255 then (half / 32 - 1,3)
  else if half / 64 - 1 ≤ 255 then (half / 64 - 1,4)
  else if half / 128 - 1 ≤ 255 then (half / 128 - 1,5)
  else if half / 256 - 1 ≤ 255 then (half / 256 - 1,6)
  else (half / 1024 - 1,7)

namespace ToneState

/-- The slot is free and the interrupt off; the other registers hold what `init` wrote. -/
def reset (pins : Pins) (tccr2b ocr2a : UInt8) : ToneState := ⟨255,none,0,0,pins,tccr2b,ocr2a,0⟩

def enabled (s : ToneState) : Bool := testBits s.timsk2 ocie2a

/-- `toneBegin`, `none` for -1; the only timer of `tone_pin_to_timer_PGM` is 2. -/
def toneBegin (s : ToneState) (pin : UInt8) : Option ToneState :=
  if s.tonePin = pin then some s
  else if s.tonePin = 255 then
    some {s with
      tonePin := pin
      pins := {s.pins with tccr2a := setBits 0 wgm21}
      tccr2b := setBits 0 cs20
      pinPort := digitalPinToPort pin
      pinMask := digitalPinToBitMask pin}
  else none

/-- `2 * frequency` has the sixteen bits of `unsigned int`, the rest is `unsigned long`. -/
def toggles (frequency : UInt16) (duration : UInt32) : Int32 :=
  if duration > 0 then ((2 * frequency).toUInt32 * duration / 1000).toInt32 else -1

def tone (s : ToneState) (pin : UInt8) (frequency : UInt16) (duration : UInt32) : ToneState :=
  match s.toneBegin pin with
  | none => s
  | some s =>
    {s with
      pins := s.pins.pinModeOutput pin
      tccr2b := (prescale frequency).2
      ocr2a := (prescale frequency).1.toUInt8
      toggleCount := toggles frequency duration
      timsk2 := setBits s.timsk2 ocie2a}

def disableTimer (s : ToneState) : ToneState :=
  {s with
    timsk2 := clearBits s.timsk2 ocie2a
    pins := {s.pins with tccr2a := wgm20}
    tccr2b := (s.tccr2b &&& 0xf8) ||| cs22
    ocr2a := 0}

/-- For a pin that has not the slot the timer number stays -1, which `disableTimer` ignores. -/
def noTone (s : ToneState) (pin : UInt8) : ToneState :=
  let s := if s.tonePin = pin then {s with tonePin := 255}.disableTimer else s
  {s with pins := s.pins.digitalWrite pin false}

/-- `ISR(TIMER2_COMPA_vect)`. -/
def compareInterrupt (s : ToneState) : ToneState :=
  if s.toggleCount ≠ 0 then
    {s with
      -- through a null pointer no port is written
      pins := s.pinPort.elim s.pins fun port => s.pins.writePort port (toggleBits · s.pinMask)
      toggleCount := if s.toggleCount > 0 then s.toggleCount - 1 else s.toggleCount}
  else s.noTone s.tonePin

end ToneState

structure ToneRequest where
  pin : UInt8
  frequency : UInt16
  duration : UInt32
  onBoard : pin.toNat < 48
  nonzero : frequency ≠ 0

inductive ToneAction
  | tone (r : ToneRequest)
  | noTone (pin : UInt8) (onBoard : pin.toNat < 48)
  | compareInterrupt

/-- The interrupt comes only while it is enabled. -/
def ToneState.step (s : ToneState) : ToneAction → ToneState
  | .tone r => s.tone r.pin r.frequency r.duration
  | .noTone pin _ => s.noTone pin
  | .compareInterrupt => if s.enabled then s.compareInterrupt else s

/-- Nothing of the tone that is playing changes, neither its variables and registers nor its pin. -/
structure ToneState.SameTone (s t : ToneState) : Prop where
  tonePin : t.tonePin = s.tonePin
  pinPort : t.pinPort = s.pinPort
  pinMask : t.pinMask = s.pinMask
  toggleCount : t.toggleCount = s.toggleCount
  tccr2a : t.pins.tccr2a = s.pins.tccr2a
  tccr2b : t.tccr2b = s.tccr2b
  ocr2a : t.ocr2a = s.ocr2a
  timsk2 : t.timsk2 = s.timsk2
  level : t.pins.level s.tonePin = s.pins.level s.tonePin
  mode : t.pins.mode = s.pins.mode

/-- The slot holds a pin of the board, and the port and mask are that pin's. -/
structure ToneState.Designates (s : ToneState) : Prop where
  onBoard : s.tonePin.toNat < 48
  port : s.pinPort = digitalPinToPort s.tonePin
  mask : s.pinMask = digitalPinToBitMask s.tonePin

/-- The pin of the slot has its level toggled or lowered, no other pin changes. -/
structure ToneState.OwnPinOnly (s t : ToneState) : Prop where
  own : t.pins.level s.tonePin = !s.pins.level s.tonePin ∨ t.pins.level s.tonePin = false
  others : ∀ pin : UInt8, pin.toNat < 48 → pin ≠ s.tonePin → t.pins.level pin = s.pins.level pin
  mode : t.pins.mode = s.pins.mode

/-- A free slot has the interrupt off, a taken one has it on and timer 2 without outputs. -/
inductive ToneState.Owned (s : ToneState) : Prop
  | free (slot : s.tonePin = 255) (off : s.enabled = false)
  | taken (slot : s.Designates) (on : s.enabled = true) (timer : s.pins.tccr2a = wgm21)

namespace ToneState
variable {s : ToneState} {pin : UInt8}

theorem Owned.playing (h : s.Owned) (hon : s.enabled = true) : s.Designates ∧ s.pins.tccr2a = wgm21 := by
  cases h with
  | free slot off => exact absurd (off.symm.trans hon) Bool.false_ne_true
  | taken slot on timer => exact ⟨slot,timer⟩

private theorem onBoard_ne_free (h : pin.toNat < 48) : pin ≠ 255 := by
  rintro rfl
  exact absurd h (by decide)

private theorem pinModeOutput_tccr2a (p : Pins) (pin : UInt8) : (p.pinModeOutput pin).tccr2a = p.tccr2a := by
  unfold Pins.pinModeOutput
  cases digitalPinToPort pin <;> rfl

private theorem enable (x : UInt8) : testBits (setBits x ocie2a) ocie2a = true := setBits_self x (by decide)

theorem tone_second (h : s.Designates) (hne : pin ≠ s.tonePin) (frequency : UInt16) (duration : UInt32) :
    s.tone pin frequency duration = s := by
  rw [tone,toneBegin,if_neg hne.symm,if_neg (onBoard_ne_free h.onBoard)]

theorem tone_owned (h : s.Owned) (hpin : pin.toNat < 48) (frequency : UInt16) (duration : UInt32) :
    (s.tone pin frequency duration).Owned := by
  cases h with
  | free slot off =>
    have hne : s.tonePin ≠ pin := fun he => onBoard_ne_free hpin (he.symm.trans slot)
    rw [tone,toneBegin,if_neg hne,if_pos slot]
    exact .taken ⟨hpin,rfl,rfl⟩ (enable s.timsk2) (pinModeOutput_tccr2a _ pin)
  | taken slot on timer =>
    by_cases heq : s.tonePin = pin
    · rw [tone,toneBegin,if_pos heq]
      exact .taken ⟨slot.onBoard,slot.port,slot.mask⟩ (enable s.timsk2) ((pinModeOutput_tccr2a _ pin).trans timer)
    · rw [tone_second slot (Ne.symm heq)]
      exact .taken slot on timer

private theorem digitalWrite_wgm21 {p : Pins} (h : p.tccr2a = wgm21) (pin : UInt8) (high : Bool) :
    (p.digitalWrite pin high).tccr2a = p.tccr2a :=
  Pins.digitalWrite_tccr2a pin high (by rw [h]; decide) (by rw [h]; decide)

/-- Timer 2 drives no pin while it counts for a tone, so lowering another pin leaves it alone. -/
theorem noTone_other (h : s.Designates) (htimer : s.pins.tccr2a = wgm21) (hpin : pin.toNat < 48)
    (hne : pin ≠ s.tonePin) : s.SameTone (s.noTone pin) := by
  rw [noTone,if_neg hne.symm]
  exact ⟨rfl,rfl,rfl,rfl,digitalWrite_wgm21 htimer pin false,rfl,rfl,rfl,
    Pins.digitalWrite_other hpin h.onBoard hne false,Pins.digitalWrite_mode s.pins pin false⟩

private theorem noTone_own : (s.noTone s.tonePin).Owned := by
  rw [noTone,if_pos rfl]
  exact .free rfl (clearBits_self s.timsk2 ocie2a)

private theorem noTone_owned (h : s.Owned) (hpin : pin.toNat < 48) : (s.noTone pin).Owned := by
  by_cases heq : s.tonePin = pin
  · rw [← heq]
    exact noTone_own
  · cases h with
    | free slot off =>
      rw [noTone,if_neg heq]
      exact .free slot off
    | taken slot on timer =>
      have hsame := noTone_other slot timer hpin (Ne.symm heq)
      refine .taken ⟨?_,?_,?_⟩ ?_ (hsame.tccr2a.trans timer)
      · rw [hsame.tonePin]
        exact slot.onBoard
      · rw [hsame.pinPort,hsame.tonePin]
        exact slot.port
      · rw [hsame.pinMask,hsame.tonePin]
        exact slot.mask
      · rw [enabled,hsame.timsk2]
        exact on

private theorem compareInterrupt_owned (h : s.Owned) : s.compareInterrupt.Owned := by
  unfold compareInterrupt
  split
  · cases h with
    | free slot off => exact .free slot off
    | taken slot on timer =>
      refine .taken ⟨slot.onBoard,slot.port,slot.mask⟩ on ?_
      cases s.pinPort <;> exact timer
  · exact noTone_own

/-- The pin of the slot goes to the other level, and stays with the slot. -/
theorem compareInterrupt_toggles (h : s.Designates) (hcount : s.toggleCount ≠ 0) :
    s.compareInterrupt.pins.level s.tonePin = !s.pins.level s.tonePin := by
  obtain ⟨port,hport⟩ := pin_port h.onBoard
  rw [compareInterrupt,if_pos hcount,h.port,hport,h.mask]
  dsimp only [Option.elim]
  rw [Pins.writePort_self hport,Pins.level_port hport,pin_mask h.onBoard]
  exact toggleBits_self _ _

theorem compareInterrupt_stops (h : s.Designates) (hcount : s.toggleCount = 0) :
    s.compareInterrupt.pins.level s.tonePin = false ∧ s.compareInterrupt.tonePin = 255 ∧ s.compareInterrupt.enabled = false := by
  rw [compareInterrupt,if_neg (not_not.mpr hcount),noTone,if_pos rfl]
  exact ⟨Pins.digitalWrite_self h.onBoard false,rfl,clearBits_self s.timsk2 ocie2a⟩

theorem compareInterrupt_own (h : s.Designates) : s.OwnPinOnly s.compareInterrupt := by
  obtain ⟨port,hport⟩ := pin_port h.onBoard
  by_cases hcount : s.toggleCount = 0
  · refine ⟨Or.inr (compareInterrupt_stops h hcount).1,?_,?_⟩
    all_goals
      rw [compareInterrupt,if_neg (not_not.mpr hcount),noTone,if_pos rfl]
      dsimp only [disableTimer]
    · intro pin hpin hne
      rw [Pins.digitalWrite_other h.onBoard hpin hne.symm false]
      exact Pins.level_out rfl pin
    · exact Pins.digitalWrite_mode _ _ false
  · refine ⟨Or.inl (compareInterrupt_toggles h hcount),?_,?_⟩
    all_goals
      rw [compareInterrupt,if_pos hcount,h.port,hport,h.mask]
      dsimp only [Option.elim]
    · intro pin hpin hne
      exact Pins.writePort_other h.onBoard hpin hne.symm hport fun x mask hmask => toggleBits_other hmask
    · rfl

private theorem step_owned (h : s.Owned) (a : ToneAction) : (s.step a).Owned := by
  cases a with
  | tone r => exact tone_owned h r.onBoard r.frequency r.duration
  | noTone pin onBoard => exact noTone_owned h onBoard
  | compareInterrupt =>
    rw [step]
    split
    · exact compareInterrupt_owned h
    · exact h

theorem run_owned (h : s.Owned) (actions : List ToneAction) : (actions.foldl step s).Owned := by
  induction actions generalizing s with
  | nil => exact h
  | cons a rest ih => exact ih (step_owned h a)

theorem reset_owned (pins : Pins) (tccr2b ocr2a : UInt8) : (reset pins tccr2b ocr2a).Owned :=
  .free rfl (show testBits 0 ocie2a = false by decide)

end ToneState

private def silent : ToneState := .reset ⟨fun _ => 0,fun _ => 0,0,0,0,0⟩ 0 0

end ArduinoAT90USB.Core
