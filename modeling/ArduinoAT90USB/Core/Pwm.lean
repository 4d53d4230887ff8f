import ArduinoAT90USB.Core.Digital

/-! `_analogWrite`, and what `digitalWrite` leaves of it: a timer's compare output overrides the
port bit of its pin as long as the timer's control register connects it. -/
namespace ArduinoAT90USB.Core
open Foundation.Bits

/-- The compare outputs of the timers. -/
inductive CompareOutput
  | oc0A
  | oc0B
  | oc1A
  | oc1B
  | oc1C
  | oc2A
  | oc2B
  | oc3A
  | oc3B
  | oc3C
  deriving DecidableEq

namespace CompareOutput

/-- `COMnx1` -/
def com1 : CompareOutput → UInt8
  | .oc0A | .oc1A | .oc2A | .oc3A => 0x80
  | .oc0B | .oc1B | .oc2B | .oc3B => 0x20
  | .oc1C | .oc3C => 0x08

/-- `COMnx0` -/
def com0 : CompareOutput → UInt8
  | .oc0A | .oc1A | .oc2A | .oc3A => 0x40
  | .oc0B | .oc1B | .oc2B | .oc3B => 0x10
  | .oc1C | .oc3C => 0x04

def timer : CompareOutput → Nat
  | .oc0A | .oc0B => 0
  | .oc1A | .oc1B | .oc1C => 1
  | .oc2A | .oc2B => 2
  | .oc3A | .oc3B | .oc3C => 3

end CompareOutput

/-- The output that `turnOffPWM` disconnects. -/
def PwmTimer.output : PwmTimer → CompareOutput
  | .timer0A => .oc0A
  | .timer0B => .oc0B
  | .timer1A => .oc1A
  | .timer1B => .oc1B
  | .timer2A => .oc2A
  | .timer2B => .oc2B
  | .timer3A => .oc3A
  | .timer3B => .oc3B
  | .timer3C => .oc3C

namespace Pins

def tccr (p : Pins) : CompareOutput → UInt8
  | .oc0A | .oc0B => p.tccr0a
  | .oc1A | .oc1B | .oc1C => p.tccr1a
  | .oc2A | .oc2B => p.tccr2a
  | .oc3A | .oc3B | .oc3C => p.tccr3a

/-- `sbi(TCCRnA, COMnx1)` -/
def turnOnPWM (p : Pins) (o : CompareOutput) : Pins :=
  match o with
  | .oc0A | .oc0B => {p with tccr0a := setBits p.tccr0a o.com1}
  | .oc1A | .oc1B | .oc1C => {p with tccr1a := setBits p.tccr1a o.com1}
  | .oc2A | .oc2B => {p with tccr2a := setBits p.tccr2a o.com1}
  | .oc3A | .oc3B | .oc3C => {p with tccr3a := setBits p.tccr3a o.com1}

def connected (p : Pins) (o : CompareOutput) : Bool := testBits (p.tccr o) o.com1 || testBits (p.tccr o) o.com0

/-- `pinMode`: `INPUT` is 0 and `INPUT_PULLUP` is 2. -/
def pinMode (p : Pins) (pin mode : UInt8) : Pins :=
  match digitalPinToPort pin with
  | none => p
  | some port =>
    if mode = 0 then
      {p with mode := Function.update p.mode port (clearBits (p.mode port) (digitalPinToBitMask pin))}.writePort port
        fun x => clearBits x (digitalPinToBitMask pin)
    else if mode = 2 then
      {p with mode := Function.update p.mode port (clearBits (p.mode port) (digitalPinToBitMask pin))}.writePort port
        fun x => setBits x (digitalPinToBitMask pin)
    else p.pinModeOutput pin

end Pins

/-- The pins and the compare registers, of which those of timers 0 and 2 have eight bits. -/
structure PwmBoard where
  pins : Pins
  ocr : CompareOutput → UInt16

/-- The cases of the switch in `_analogWrite`. -/
def pwmCase (pin : UInt8) : Option CompareOutput :=
  if pin = 24 then some .oc0B
  else if pin = 13 then some .oc1A
  else if pin = 14 then some .oc1B
  else if pin = 15 then some .oc1C
  else if pin = 12 then some .oc2A
  else if pin = 25 then some .oc2B
  else if pin = 22 then some .oc3A
  else if pin = 21 then some .oc3B
  else if pin = 20 then some .oc3C
  else none

namespace PwmBoard

/-- The assignment to `OCRnx`. -/
def compare (b : PwmBoard) (o : CompareOutput) (val : Int16) : PwmBoard :=
  {b with ocr := Function.update b.ocr o (if o.timer = 0 ∨ o.timer = 2 then val.toUInt16 &&& 0xFF else val.toUInt16)}

def analogWrite (b : PwmBoard) (pin : UInt8) (val : Int16) : PwmBoard :=
  let b : PwmBoard := {b with pins := b.pins.pinModeOutput pin}
  match pwmCase pin with
  | some o =>
    -- only the case of pin 24 has a branch for 0
    if pin = 24 ∧ val = 0 then {b with pins := (b.pins.writePort .d fun x => clearBits x 0x01).turnOffPWM .timer0B}
    else {b.compare o val with pins := b.pins.turnOnPWM o}
  | none => {b with pins := b.pins.digitalWrite pin (128 ≤ val)}

end PwmBoard

inductive PinCall
  | pinMode (pin mode : UInt8)
  | analogWrite (pin : UInt8) (val : Int16)
  | digitalWrite (pin : UInt8) (high : Bool)

def PwmBoard.step (b : PwmBoard) : PinCall → PwmBoard
  | .pinMode pin mode => {b with pins := b.pins.pinMode pin mode}
  | .analogWrite pin val => b.analogWrite pin val
  | .digitalWrite pin high => {b with pins := b.pins.digitalWrite pin high}

/-- The pins that compare outputs come out on. -/
def wiredOutputs : List (UInt8 × CompareOutput) :=
  [(15,.oc0A),(15,.oc1C),(24,.oc0B),(13,.oc1A),(14,.oc1B),(12,.oc2A),(25,.oc2B),(22,.oc3A),(21,.oc3B),(20,.oc3C)]

/-- `_analogWrite` on pin 15. -/
def PinCall.connects15 : PinCall → Bool
  | .analogWrite pin _ => pin = 15
  | .pinMode _ _ | .digitalWrite _ _ => false

section Registers
variable {o o' : CompareOutput}

theorem com1_disjoint (ht : o.timer = o'.timer) (hne : o ≠ o') : o.com1 &&& o'.com1 = 0 := by
  cases o <;> cases o' <;> first | exact absurd rfl hne | rfl | cases ht

theorem com1_com0 (o o' : CompareOutput) : o.com1 &&& o'.com0 = 0 := by
  cases o <;> cases o' <;> rfl

namespace Pins
variable (p : Pins)

theorem tccr_turnOffPWM (t : PwmTimer) (o : CompareOutput) :
    (p.turnOffPWM t).tccr o = if t.output.timer = o.timer then clearBits (p.tccr o) t.output.com1 else p.tccr o := by
  cases t <;> cases o <;> rfl

theorem tccr_turnOnPWM (o' o : CompareOutput) :
    (p.turnOnPWM o').tccr o = if o'.timer = o.timer then setBits (p.tccr o) o'.com1 else p.tccr o := by
  cases o' <;> cases o <;> rfl

theorem com0_turnOffPWM (t : PwmTimer) (o : CompareOutput) :
    testBits ((p.turnOffPWM t).tccr o) o.com0 = testBits (p.tccr o) o.com0 := by
  rw [tccr_turnOffPWM]
  split
  · exact clearBits_other (com1_com0 _ _)
  · rfl

theorem com0_turnOnPWM (o' o : CompareOutput) :
    testBits ((p.turnOnPWM o').tccr o) o.com0 = testBits (p.tccr o) o.com0 := by
  rw [tccr_turnOnPWM]
  split
  · exact setBits_other (com1_com0 _ _)
  · rfl

theorem com1_turnOffPWM (t : PwmTimer) (o : CompareOutput) :
    testBits ((p.turnOffPWM t).tccr o) o.com1 = (testBits (p.tccr o) o.com1 && t.output ≠ o) := by
  rw [tccr_turnOffPWM]
  by_cases heq : t.output = o
  · rw [if_pos (congrArg _ heq),heq,clearBits_self]
    simp
  · split
    case isTrue ht =>
      rw [clearBits_other (com1_disjoint ht heq)]
      simp [heq]
    case isFalse => simp [heq]

theorem com1_turnOnPWM (o' o : CompareOutput) :
    testBits ((p.turnOnPWM o').tccr o) o.com1 = (testBits (p.tccr o) o.com1 || o' = o) := by
  rw [tccr_turnOnPWM]
  by_cases heq : o' = o
  · have hne : o.com1 ≠ 0 := by cases o <;> decide
    rw [if_pos (congrArg _ heq),heq,setBits_self _ hne]
    simp
  · split
    case isTrue ht =>
      rw [setBits_other (com1_disjoint ht heq)]
      simp [heq]
    case isFalse => simp [heq]

theorem tccr_pinModeOutput (pin : UInt8) : (p.pinModeOutput pin).tccr = p.tccr := by
  unfold pinModeOutput
  split <;> rfl

theorem tccr_pinMode (pin mode : UInt8) : (p.pinMode pin mode).tccr = p.tccr := by
  unfold pinMode
  split
  · rfl
  · split
    · rfl
    · split
      · rfl
      · exact p.tccr_pinModeOutput pin

theorem tccr_writePort (port : IoPort) (write : UInt8 → UInt8) : (p.writePort port write).tccr = p.tccr := rfl

theorem tccr_digitalWrite (pin : UInt8) (high : Bool) : (p.digitalWrite pin high).tccr = p.tccr ∨
    ∃ t, digitalPinToTimer pin = some t ∧ (p.digitalWrite pin high).tccr = (p.turnOffPWM t).tccr := by
  unfold digitalWrite
  cases digitalPinToPort pin with
  | none => exact .inl rfl
  | some port =>
    cases digitalPinToTimer pin with
    | none => exact .inl rfl
    | some t => exact .inr ⟨t,rfl,rfl⟩

theorem tccr_digitalWrite_timer {pin : UInt8} (h : pin.toNat < 48) {t : PwmTimer} (ht : digitalPinToTimer pin = some t)
    (high : Bool) : (p.digitalWrite pin high).tccr = (p.turnOffPWM t).tccr := by
  obtain ⟨port,hport⟩ := pin_port h
  rw [digitalWrite,hport,ht]
  rfl

theorem com0_digitalWrite (pin : UInt8) (high : Bool) (o : CompareOutput) :
    testBits ((p.digitalWrite pin high).tccr o) o.com0 = testBits (p.tccr o) o.com0 := by
  rcases p.tccr_digitalWrite pin high with h | ⟨t,-,h⟩
  · rw [h]
  · rw [h,com0_turnOffPWM]

/-- No timer of the table is that of `OC1C`. -/
theorem com1_oc1C_turnOffPWM (t : PwmTimer) :
    testBits ((p.turnOffPWM t).tccr .oc1C) CompareOutput.oc1C.com1 = testBits (p.tccr .oc1C) CompareOutput.oc1C.com1 := by
  have hne : t.output ≠ .oc1C := by cases t <;> decide
  simp [com1_turnOffPWM,hne]

theorem com1_oc1C_digitalWrite (pin : UInt8) (high : Bool) :
    testBits ((p.digitalWrite pin high).tccr .oc1C) CompareOutput.oc1C.com1 =
      testBits (p.tccr .oc1C) CompareOutput.oc1C.com1 := by
  rcases p.tccr_digitalWrite pin high with h | ⟨t,-,h⟩
  · rw [h]
  · rw [h,com1_oc1C_turnOffPWM]

end Pins
end Registers

section Calls

theorem pwmCase_oc1C (pin : UInt8) : pwmCase pin = some .oc1C ↔ pin = 15 := by
  constructor
  · intro h
    simp [pwmCase,ite_eq_iff] at h
    exact h.2.2.2
  · rintro rfl
    rfl

namespace PwmBoard
variable (b : PwmBoard)

theorem com0_step (call : PinCall) (o : CompareOutput) :
    testBits ((b.step call).pins.tccr o) o.com0 = testBits (b.pins.tccr o) o.com0 := by
  cases call with
  | pinMode pin mode => rw [step,Pins.tccr_pinMode]
  | digitalWrite pin high => exact b.pins.com0_digitalWrite pin high o
  | analogWrite pin val =>
    rw [step,analogWrite]
    cases pwmCase pin with
    | none => rw [Pins.com0_digitalWrite,Pins.tccr_pinModeOutput]
    | some o' =>
      dsimp only
      split
      · rw [Pins.com0_turnOffPWM,Pins.tccr_writePort,Pins.tccr_pinModeOutput]
      · rw [Pins.com0_turnOnPWM,Pins.tccr_pinModeOutput]

/-- `COM1C1` is set by `_analogWrite` on pin 15 and never cleared. -/
theorem com1_oc1C_step (call : PinCall) :
    testBits ((b.step call).pins.tccr .oc1C) CompareOutput.oc1C.com1 =
      (testBits (b.pins.tccr .oc1C) CompareOutput.oc1C.com1 || call.connects15) := by
  cases call with
  | pinMode pin mode => rw [step,Pins.tccr_pinMode,PinCall.connects15,Bool.or_false]
  | digitalWrite pin high => rw [step,Pins.com1_oc1C_digitalWrite,PinCall.connects15,Bool.or_false]
  | analogWrite pin val =>
    have hcase := pwmCase_oc1C pin
    rw [step,analogWrite,PinCall.connects15]
    cases hpin : pwmCase pin with
    | none =>
      have hne : pin ≠ 15 := by
        rw [Ne,← hcase,hpin]
        nofun
      simp [Pins.com1_oc1C_digitalWrite,Pins.tccr_pinModeOutput,hne]
    | some o' =>
      dsimp only
      rw [hpin,Option.some_inj] at hcase
      split
      case isTrue h =>
        rw [Pins.com1_oc1C_turnOffPWM,Pins.tccr_writePort,Pins.tccr_pinModeOutput]
        simp [h.1]
      case isFalse h => simp [Pins.com1_turnOnPWM,Pins.tccr_pinModeOutput,hcase]

theorem com0_run (calls : List PinCall) (o : CompareOutput) :
    testBits ((calls.foldl step b).pins.tccr o) o.com0 = testBits (b.pins.tccr o) o.com0 := by
  induction calls generalizing b with
  | nil => rfl
  | cons call rest ih => exact (ih (b.step call)).trans (b.com0_step call o)

theorem com1_oc1C_run (calls : List PinCall) :
    testBits ((calls.foldl step b).pins.tccr .oc1C) CompareOutput.oc1C.com1 =
      (testBits (b.pins.tccr .oc1C) CompareOutput.oc1C.com1 || calls.any PinCall.connects15) := by
  induction calls generalizing b with
  | nil => simp
  | cons call rest ih => rw [List.foldl_cons,ih,com1_oc1C_step,List.any_cons,Bool.or_assoc]

end PwmBoard

theorem wired_timer {pin : UInt8} {o : CompareOutput} (h : (pin,o) ∈ wiredOutputs) :
    o = .oc1C ∧ pin = 15 ∨ ∃ t, digitalPinToTimer pin = some t ∧ t.output = o := by
  simp only [wiredOutputs,List.mem_cons,Prod.mk.injEq,List.not_mem_nil,or_false] at h
  rcases h with ⟨rfl,rfl⟩ | ⟨rfl,rfl⟩ | ⟨rfl,rfl⟩ | ⟨rfl,rfl⟩ | ⟨rfl,rfl⟩ | ⟨rfl,rfl⟩ | ⟨rfl,rfl⟩ | ⟨rfl,rfl⟩ | ⟨rfl,rfl⟩ | ⟨rfl,rfl⟩
  · exact .inr ⟨.timer0A,rfl,rfl⟩
  · exact .inl ⟨rfl,rfl⟩
  · exact .inr ⟨.timer0B,rfl,rfl⟩
  · exact .inr ⟨.timer1A,rfl,rfl⟩
  · exact .inr ⟨.timer1B,rfl,rfl⟩
  · exact .inr ⟨.timer2A,rfl,rfl⟩
  · exact .inr ⟨.timer2B,rfl,rfl⟩
  · exact .inr ⟨.timer3A,rfl,rfl⟩
  · exact .inr ⟨.timer3B,rfl,rfl⟩
  · exact .inr ⟨.timer3C,rfl,rfl⟩

theorem any_connects15_iff (calls : List PinCall) :
    calls.any PinCall.connects15 = true ↔ ∃ val, PinCall.analogWrite 15 val ∈ calls := by
  rw [List.any_eq_true]
  constructor
  · rintro ⟨call,hmem,hcall⟩
    cases call with
    | analogWrite pin val =>
      obtain rfl : pin = 15 := of_decide_eq_true hcall
      exact ⟨val,hmem⟩
    | pinMode _ _ | digitalWrite _ _ => cases hcall
  · rintro ⟨val,hmem⟩
    exact ⟨_,hmem,rfl⟩

end Calls

section Disconnect
variable {b : PwmBoard} (hb : ∀ o, b.pins.connected o = false) (calls : List PinCall) (pin : UInt8) (high : Bool)
include hb

/-- From a board with nothing connected only `COMnx1` can connect. -/
theorem connected_run (o : CompareOutput) :
    (((calls.foldl PwmBoard.step b).step (.digitalWrite pin high)).pins.connected o) =
      testBits (((calls.foldl PwmBoard.step b).pins.digitalWrite pin high).tccr o) o.com1 := by
  have hcom0 := (Bool.or_eq_false_iff.mp (hb o)).2
  rw [Pins.connected,PwmBoard.com0_step,PwmBoard.com0_run,hcom0,Bool.or_false]
  rfl

theorem connected_timer {pin : UInt8} (hpin : pin.toNat < 48) {t : PwmTimer} (ht : digitalPinToTimer pin = some t) :
    ((calls.foldl PwmBoard.step b).step (.digitalWrite pin high)).pins.connected t.output = false := by
  rw [connected_run hb,Pins.tccr_digitalWrite_timer _ hpin ht,Pins.com1_turnOffPWM]
  simp

theorem connected_oc1C :
    ((calls.foldl PwmBoard.step b).step (.digitalWrite pin high)).pins.connected .oc1C = calls.any PinCall.connects15 := by
  have hcom1 := (Bool.or_eq_false_iff.mp (hb .oc1C)).1
  rw [connected_run hb,Pins.com1_oc1C_digitalWrite,PwmBoard.com1_oc1C_run,hcom1,Bool.false_or]

end Disconnect

/-- Pin 15 is on `OC1C` for `_analogWrite` and on `OC0A` for `digitalWrite`; every other pin is disconnected. -/
theorem digitalWrite_wins_iff (b : PwmBoard) (hb : ∀ o, b.pins.connected o = false) (calls : List PinCall) (pin : UInt8)
    (hpin : pin.toNat < 48) (high : Bool) :
    let b' := (calls.foldl PwmBoard.step b).step (.digitalWrite pin high)
    ((∀ o, (pin,o) ∈ wiredOutputs → b'.pins.connected o = false) ∧ b'.pins.level pin = high) ↔
      (pin = 15 → ∀ val, PinCall.analogWrite 15 val ∉ calls) := by
  have hoc1C := connected_oc1C hb calls pin high
  constructor
  · rintro ⟨hall,-⟩ rfl val hmem
    have hany := (any_connects15_iff calls).mpr ⟨val,hmem⟩
    rw [hall .oc1C (by simp [wiredOutputs]),hany] at hoc1C
    cases hoc1C
  · intro hno
    refine ⟨?_,Pins.digitalWrite_self hpin high⟩
    intro o ho
    rcases wired_timer ho with ⟨rfl,h15⟩ | ⟨t,ht,rfl⟩
    · rw [hoc1C,Bool.eq_false_iff,Ne,any_connects15_iff]
      rintro ⟨val,hmem⟩
      exact hno h15 val hmem
    · exact connected_timer hb calls high hpin ht

/-- The registers after `init`. -/
def PwmBoard.initial : PwmBoard := ⟨⟨fun _ => 0,fun _ => 0,0x03,0x01,0x01,0x01⟩,fun _ => 0⟩

theorem initial_disconnected (o : CompareOutput) : PwmBoard.initial.pins.connected o = false := by
  cases o <;> rfl

/-- Pin 13, after PWM on it and on pin 15. -/
theorem digitalWrite_wins_13 :
    let b := ([PinCall.analogWrite 13 100,.analogWrite 15 100].foldl PwmBoard.step .initial).step (.digitalWrite 13 true)
    b.pins.connected .oc1A = false ∧ b.pins.level 13 = true := by
  have h := (digitalWrite_wins_iff .initial initial_disconnected [.analogWrite 13 100,.analogWrite 15 100] 13 (by decide)
    true).mpr nofun
  exact ⟨h.1 .oc1A (by simp [wiredOutputs]),h.2⟩

/-- Pin 15 stays on `OC1C`. -/
theorem digitalWrite_15_connected :
    (15,CompareOutput.oc1C) ∈ wiredOutputs ∧
    (([PinCall.analogWrite 15 100].foldl PwmBoard.step .initial).step (.digitalWrite 15 false)).pins.connected .oc1C = true := by
  constructor
  · simp [wiredOutputs]
  · rw [connected_oc1C initial_disconnected]
    rfl

end ArduinoAT90USB.Core
