import ArduinoAT90USB.Foundation.Bits
import Mathlib.Logic.Function.Basic

/-! The digital pins of `wiring_digital.c`: 48 pins on the ports A to F, eight on each, some of
them also outputs of a timer. A write touches the port bit of its own pin only. -/
namespace ArduinoAT90USB.Core
open Foundation.Bits

def fCpu : UInt32 := 16000000

inductive IoPort
  | a
  | b
  | c
  | d
  | e
  | f
  deriving DecidableEq

inductive PwmTimer
  | timer0A
  | timer0B
  | timer1A
  | timer1B
  | timer2A
  | timer2B
  | timer3A
  | timer3B
  | timer3C
  deriving DecidableEq

/-- `digital_pin_to_port_PGM`. -/
def digitalPinToPortTable : List IoPort := [IoPort.a,.b,.c,.d,.e,.f].flatMap (List.replicate 8)

/-- `digital_pin_to_bit_mask_PGM`. -/
def digitalPinToBitMaskTable : List UInt8 := (List.replicate 6 [bv 0,bv 1,bv 2,bv 3,bv 4,bv 5,bv 6,bv 7]).flatten

/-- `digital_pin_to_timer_PGM`. -/
def digitalPinToTimerTable : List (Option PwmTimer) :=
  [List.replicate 8 none,
   [none,none,none,none,some .timer2A,some .timer1A,some .timer1B,some .timer0A],
   [none,none,none,none,some .timer3C,some .timer3B,some .timer3A,none],
   [some .timer0B,some .timer2B,none,none,none,none,none,none],
   List.replicate 16 none].flatten

/-- A number past the table has no port. -/
def digitalPinToPort (pin : UInt8) : Option IoPort := digitalPinToPortTable[pin.toNat]?
def digitalPinToBitMask (pin : UInt8) : UInt8 := digitalPinToBitMaskTable.getD pin.toNat 0
def digitalPinToTimer (pin : UInt8) : Option PwmTimer := digitalPinToTimerTable.getD pin.toNat none

/-- The registers behind the pins: `PORTx`, `DDRx` and the timers' control registers A. -/
structure Pins where
  out : IoPort → UInt8
  mode : IoPort → UInt8
  tccr0a : UInt8
  tccr1a : UInt8
  tccr2a : UInt8
  tccr3a : UInt8

namespace Pins

/-- `turnOffPWM`; the bits are `COMnA1`, `COMnB1` and `COM3C1`. -/
def turnOffPWM (p : Pins) : PwmTimer → Pins
  | .timer0A => {p with tccr0a := clearBits p.tccr0a (bv 7)}
  | .timer0B => {p with tccr0a := clearBits p.tccr0a (bv 5)}
  | .timer1A => {p with tccr1a := clearBits p.tccr1a (bv 7)}
  | .timer1B => {p with tccr1a := clearBits p.tccr1a (bv 5)}
  | .timer2A => {p with tccr2a := clearBits p.tccr2a (bv 7)}
  | .timer2B => {p with tccr2a := clearBits p.tccr2a (bv 5)}
  | .timer3A => {p with tccr3a := clearBits p.tccr3a (bv 7)}
  | .timer3B => {p with tccr3a := clearBits p.tccr3a (bv 5)}
  | .timer3C => {p with tccr3a := clearBits p.tccr3a (bv 3)}

/-- Applies `write` to a port register. -/
def writePort (p : Pins) (port : IoPort) (write : UInt8 → UInt8) : Pins :=
  {p with out := Function.update p.out port (write (p.out port))}

/-- `pinMode(pin, OUTPUT)`. -/
def pinModeOutput (p : Pins) (pin : UInt8) : Pins :=
  match digitalPinToPort pin with
  | none => p
  | some port => {p with mode := Function.update p.mode port (setBits (p.mode port) (digitalPinToBitMask pin))}

/-- `digitalWrite`, `high` for any value but `LOW`. -/
def digitalWrite (p : Pins) (pin : UInt8) (high : Bool) : Pins :=
  match digitalPinToPort pin with
  | none => p
  | some port =>
    let p := (digitalPinToTimer pin).elim p p.turnOffPWM
    p.writePort port fun x =>
      if high then setBits x (digitalPinToBitMask pin) else clearBits x (digitalPinToBitMask pin)

def level (p : Pins) (pin : UInt8) : Bool :=
  match digitalPinToPort pin with
  | none => false
  | some port => testBits (p.out port) (digitalPinToBitMask pin)

end Pins

section Tables
variable {pin other : UInt8}

private def portAt (i : Fin 6) : IoPort := [IoPort.a,.b,.c,.d,.e,.f].get i

private theorem port_table : ∀ n : Fin 48, digitalPinToPortTable[n.val]? = some (portAt ⟨n / 8,by omega⟩) := by decide

private theorem mask_table : ∀ n : Fin 48, digitalPinToBitMaskTable.getD n 0 = bv ⟨n % 8,by omega⟩ := by decide

theorem pin_port (h : pin.toNat < 48) : ∃ port, digitalPinToPort pin = some port :=
  ⟨_,port_table ⟨pin.toNat,h⟩⟩

theorem pin_mask (h : pin.toNat < 48) : digitalPinToBitMask pin = bv ⟨pin.toNat % 8,by omega⟩ :=
  mask_table ⟨pin.toNat,h⟩

theorem pin_mask_ne_zero (h : pin.toNat < 48) : digitalPinToBitMask pin ≠ 0 := by
  rw [pin_mask h]
  exact bv_ne_zero _

private theorem portAt_injective : ∀ i j, portAt i = portAt j → i = j := by decide

theorem pin_masks_disjoint (h : pin.toNat < 48) (ho : other.toNat < 48) (hne : pin ≠ other)
    (hport : digitalPinToPort pin = digitalPinToPort other) :
    digitalPinToBitMask pin &&& digitalPinToBitMask other = 0 := by
  have heq := (port_table ⟨pin.toNat,h⟩).symm.trans (hport.trans (port_table ⟨other.toNat,ho⟩))
  have hdiv := Fin.mk.inj (portAt_injective _ _ (Option.some.inj heq))
  rw [pin_mask h,pin_mask ho]
  apply bv_disjoint
  intro hmod
  have := Fin.mk.inj hmod
  exact hne (UInt8.toNat_inj.mp (by dsimp only at hdiv; omega))

end Tables

namespace Pins
variable {pin other : UInt8} {port : IoPort} {p : Pins}

theorem turnOffPWM_out (p : Pins) (t : PwmTimer) : (p.turnOffPWM t).out = p.out := by
  cases t <;> rfl

theorem turnOffPWM_mode (p : Pins) (t : PwmTimer) : (p.turnOffPWM t).mode = p.mode := by
  cases t <;> rfl

/-- Without its output bits timer 2 is left as it is. -/
theorem turnOffPWM_tccr2a (t : PwmTimer) (ha : clearBits p.tccr2a (bv 7) = p.tccr2a)
    (hb : clearBits p.tccr2a (bv 5) = p.tccr2a) : (p.turnOffPWM t).tccr2a = p.tccr2a := by
  cases t with
  | timer2A => exact ha
  | timer2B => exact hb
  | timer0A | timer0B | timer1A | timer1B | timer3A | timer3B | timer3C => rfl

theorem level_port (hport : digitalPinToPort pin = some port) :
    p.level pin = testBits (p.out port) (digitalPinToBitMask pin) := by
  rw [level,hport]

/-- A write under the mask of one pin leaves the level of every other pin. -/
theorem writePort_other {write : UInt8 → UInt8} (h : pin.toNat < 48) (ho : other.toNat < 48) (hne : pin ≠ other)
    (hport : digitalPinToPort pin = some port)
    (hwrite : ∀ x mask, digitalPinToBitMask pin &&& mask = 0 → testBits (write x) mask = testBits x mask) :
    (p.writePort port write).level other = p.level other := by
  obtain ⟨port',hport'⟩ := pin_port ho
  rw [level_port hport',level_port hport']
  dsimp only [writePort]
  by_cases heq : port' = port
  · subst heq
    rw [Function.update_self]
    exact hwrite _ _ (pin_masks_disjoint h ho hne (hport.trans hport'.symm))
  · rw [Function.update_of_ne heq]

theorem writePort_self {write : UInt8 → UInt8} (hport : digitalPinToPort pin = some port) :
    (p.writePort port write).level pin = testBits (write (p.out port)) (digitalPinToBitMask pin) := by
  rw [level_port hport]
  dsimp only [writePort]
  rw [Function.update_self]

theorem level_out {q : Pins} (h : q.out = p.out) (pin : UInt8) : q.level pin = p.level pin := by
  rw [level,level,h]

private theorem pwmOff_out (p : Pins) (t : Option PwmTimer) : (t.elim p p.turnOffPWM).out = p.out := by
  cases t with
  | none => rfl
  | some t => exact turnOffPWM_out p t

theorem digitalWrite_self (h : pin.toNat < 48) (high : Bool) : (p.digitalWrite pin high).level pin = high := by
  obtain ⟨port,hport⟩ := pin_port h
  rw [digitalWrite,hport]
  dsimp only
  rw [writePort_self hport]
  cases high with
  | true => exact setBits_self _ (pin_mask_ne_zero h)
  | false => exact clearBits_self _ _

theorem digitalWrite_other (h : pin.toNat < 48) (ho : other.toNat < 48) (hne : pin ≠ other) (high : Bool) :
    (p.digitalWrite pin high).level other = p.level other := by
  obtain ⟨port,hport⟩ := pin_port h
  rw [digitalWrite,hport]
  dsimp only
  rw [writePort_other h ho hne hport,level_out (pwmOff_out p _)]
  intro x mask hmask
  cases high with
  | true => exact setBits_other hmask
  | false => exact clearBits_other hmask

theorem digitalWrite_mode (p : Pins) (pin : UInt8) (high : Bool) : (p.digitalWrite pin high).mode = p.mode := by
  unfold digitalWrite
  cases digitalPinToPort pin with
  | none => rfl
  | some port =>
    cases digitalPinToTimer pin with
    | none => rfl
    | some t => exact turnOffPWM_mode p t

theorem digitalWrite_tccr2a (pin : UInt8) (high : Bool) (ha : clearBits p.tccr2a (bv 7) = p.tccr2a)
    (hb : clearBits p.tccr2a (bv 5) = p.tccr2a) : (p.digitalWrite pin high).tccr2a = p.tccr2a := by
  unfold digitalWrite
  cases digitalPinToPort pin with
  | none => rfl
  | some port =>
    cases digitalPinToTimer pin with
    | none => rfl
    | some t => exact turnOffPWM_tccr2a t ha hb

end Pins
end ArduinoAT90USB.Core
