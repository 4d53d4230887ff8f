import ArduinoAT90USB.Core.Digital
import ArduinoAT90USB.Foundation.AvrInt
import Mathlib.Data.Rat.Floor
import Mathlib.Tactic.FieldSimp

/-! The two `begin` of `HardwareSerial.cpp`: the search for the baud rate divisor, the registers it
ends up in, and the variables that one overload sets and the other leaves. -/
namespace ArduinoAT90USB.Core
open Foundation.Bits Foundation.AvrInt

/-- The registers of USART1 and the variables that `begin` works on. Of `UCSR1A` only the bits that
keep what is written are recorded; `SER_CLEAR_TM` is a function of the baud rate. -/
structure HardwareSerial (τ : Type) where
  ubrrh : UInt8
  ubrrl : UInt8
  ucsra : UInt8
  ucsrb : UInt8
  ucsrc : UInt8
  pin : UInt8
  transmitting : Bool
  serClearTm : τ

-- the bits of UCSR1A and UCSR1B
def u2x : UInt8 := 0x02
def txen : UInt8 := 0x08
def rxen : UInt8 := 0x10
def udrie : UInt8 := 0x20
def rxcie : UInt8 := 0x80

def serial8N1 : UInt8 := 0x06

/-- `(F_CPU / 4 / baud - 1) / 2` and `(F_CPU / 8 / baud - 1) / 2`, in `unsigned long` until the assignment. -/
def baudSetting (useU2x : Bool) (baud : UInt32) : UInt16 :=
  (((if useU2x then fCpu / 4 else fCpu / 8) / baud - 1) / 2).toUInt16

namespace HardwareSerial
variable {τ : Type}

/-- From the label `try_again` on; `fuel` counts how often it is passed. -/
def tryAgain (baud : UInt32) : Nat → Bool → HardwareSerial τ → Option (UInt16 × HardwareSerial τ)
  | 0, _, _ => none
  | fuel+1, useU2x, s =>
    let s := {s with ucsra := if useU2x then u2x else 0}
    if baudSetting useU2x baud > 4095 ∧ useU2x = true then tryAgain baud fuel false s
    else some (baudSetting useU2x baud, s)

/-- `*_ubrrh = baud_setting >> 8; *_ubrrl = baud_setting;` -/
def assignBaud (setting : UInt16) (s : HardwareSerial τ) : HardwareSerial τ :=
  {s with ubrrh := (setting >>> 8).toUInt8, ubrrl := setting.toUInt8}

/-- The `sbi` and `cbi` at the end of both. -/
def enable (s : HardwareSerial τ) : HardwareSerial τ :=
  {s with ucsrb := clearBits (setBits (setBits (setBits s.ucsrb rxen) txen) rxcie) udrie}

def begin (clearTime : UInt32 → τ) (fuel : Nat) (baud : UInt32) (s : HardwareSerial τ) : Option (HardwareSerial τ) := do
  let s := {s with pin := 0, serClearTm := clearTime baud}
  let (setting, s) ← tryAgain baud fuel (baud ≠ 57600) s
  let s := s.assignBaud setting
  return {s with transmitting := false}.enable

/-- `begin(unsigned long, byte)`. -/
def beginConfig (fuel : Nat) (baud : UInt32) (config : UInt8) (s : HardwareSerial τ) : Option (HardwareSerial τ) := do
  let s := {s with pin := 0}
  let (setting, s) ← tryAgain baud fuel (baud ≠ 57600) s
  let s := s.assignBaud setting
  return {s with ucsrc := config}.enable

/-- The twelve bits of the baud rate register, with whatever is above them. -/
def ubrr (s : HardwareSerial τ) : Nat := 256 * s.ubrrh.toNat + s.ubrrl.toNat

def doubleSpeed (s : HardwareSerial τ) : Bool := testBits s.ucsra u2x

/-- Clock cycles per count of the divisor and bit. -/
def cycles (s : HardwareSerial τ) : Nat := if s.doubleSpeed then 8 else 16

end HardwareSerial

/-- The best value of `UBRR + 1` for a rate, at eight or sixteen cycles a count. -/
def nearestDivisor (cycles : Nat) (baud : UInt32) : ℤ := ⌊(fCpu.toNat : ℚ) / (cycles * baud.toNat) + 1/2⌋

def settledU2x (baud : UInt32) : Bool := decide (baud ≠ 57600) && !decide (baudSetting true baud > 4095)

section Search
variable {τ : Type} (baud : UInt32)

theorem tryAgain_settles (fuel : Nat) (s : HardwareSerial τ) :
    s.tryAgain baud (fuel+2) (baud ≠ 57600) =
      some (baudSetting (settledU2x baud) baud, {s with ucsra := if settledU2x baud then u2x else 0}) := by
  by_cases hspecial : baud = 57600
  · simp [HardwareSerial.tryAgain, settledU2x, hspecial]
  · by_cases hlarge : baudSetting true baud > 4095
    · simp [HardwareSerial.tryAgain, settledU2x, hspecial, hlarge]
    · simp [HardwareSerial.tryAgain, settledU2x, hspecial, hlarge]

theorem begin_settles (clearTime : UInt32 → τ) (fuel : Nat) (s : HardwareSerial τ) :
    s.begin clearTime (fuel+2) baud = some (HardwareSerial.enable
      {s.assignBaud (baudSetting (settledU2x baud) baud) with
        ucsra := if settledU2x baud then u2x else 0, pin := 0, transmitting := false, serClearTm := clearTime baud}) := by
  rw [HardwareSerial.begin, tryAgain_settles]
  rfl

theorem beginConfig_settles (config : UInt8) (fuel : Nat) (s : HardwareSerial τ) :
    s.beginConfig (fuel+2) baud config = some (HardwareSerial.enable
      {s.assignBaud (baudSetting (settledU2x baud) baud) with
        ucsra := if settledU2x baud then u2x else 0, pin := 0, ucsrc := config}) := by
  rw [HardwareSerial.beginConfig, tryAgain_settles]
  rfl

end Search

/-- Two truncating divisions and a subtraction round to the nearest integer. -/
theorem nearest_of_truncated {a b : Nat} (hb : 0 < b) (ha : b ≤ a) :
    (((a / b - 1) / 2 + 1 : Nat) : ℤ) = ⌊(a : ℚ) / (2 * b) + 1/2⌋ := by
  have hpos : 0 < a / b := Nat.div_pos ha hb
  have hnat : (a / b - 1) / 2 + 1 = (a + b) / (b * 2) := by
    rw [← Nat.div_div_eq_div_mul, Nat.add_div_right a hb]
    omega
  have hbq : (b : ℚ) ≠ 0 := by exact_mod_cast hb.ne'
  have hrat : (a : ℚ) / (2 * b) + 1/2 = ((a + b : Nat) : ℚ) / ((b * 2 : Nat) : ℚ) := by
    push_cast
    field_simp
  rw [hnat, hrat, Rat.floor_natCast_div_natCast]
  exact Int.natCast_div _ _

section Divisor
variable {baud : UInt32}

private theorem baudSetting_toNat (useU2x : Bool) (hlow : 250 ≤ baud.toNat) (hhigh : baud.toNat ≤ 2000000) :
    (baudSetting useU2x baud).toNat = ((if useU2x then 4000000 else 2000000) / baud.toNat - 1) / 2 := by
  have hquotient (quarter : UInt32) (hle : baud.toNat ≤ quarter.toNat) (hbound : quarter.toNat ≤ 4000000) :
      ((quarter / baud - 1) / 2).toUInt16.toNat = (quarter.toNat / baud.toNat - 1) / 2 := by
    have hpos : 0 < quarter.toNat / baud.toNat := Nat.div_pos hle (by omega)
    have hsmall : quarter.toNat / baud.toNat ≤ 16000 :=
      (Nat.div_le_div hbound hlow (by omega)).trans (by decide)
    have hsub : (quarter / baud - 1).toNat = quarter.toNat / baud.toNat - 1 := by
      rw [UInt32.toNat_sub_of_le _ _ (UInt32.le_iff_toNat_le.mpr (by rw [UInt32.toNat_div]; exact hpos)), UInt32.toNat_div]
      rfl
    rw [UInt32.toNat_toUInt16, UInt32.toNat_div, hsub]
    change (quarter.toNat / baud.toNat - 1) / 2 % 65536 = _
    omega
  cases useU2x with
  | true => exact hquotient (fCpu / 4) (hhigh.trans (by decide)) (by decide)
  | false => exact hquotient (fCpu / 8) (hhigh.trans (by decide)) (by decide)

private theorem nearestDivisor_eq (useU2x : Bool) (hlow : 250 ≤ baud.toNat) (hhigh : baud.toNat ≤ 2000000) :
    ((baudSetting useU2x baud).toNat : ℤ) + 1 = nearestDivisor (if useU2x then 8 else 16) baud := by
  have hb : 0 < baud.toNat := by omega
  have hbq : (baud.toNat : ℚ) ≠ 0 := by exact_mod_cast hb.ne'
  have hcpu : (fCpu.toNat : ℚ) = 16000000 := by
    rw [show fCpu.toNat = 16000000 from rfl]
    norm_num
  rw [baudSetting_toNat useU2x hlow hhigh, nearestDivisor, hcpu]
  cases useU2x with
  | true =>
    refine (nearest_of_truncated hb (a := 4000000) (by omega)).trans ?_
    congr 2
    push_cast
    field_simp
    norm_num
  | false =>
    refine (nearest_of_truncated hb (a := 2000000) (by omega)).trans ?_
    congr 2
    push_cast
    field_simp
    norm_num

end Divisor

/-- `UBRR` and `U2X` serve the rate as well as they can. -/
structure HardwareSerial.ServesRate {τ : Type} (baud : UInt32) (s : HardwareSerial τ) : Prop where
  fits : s.ubrr < 4096
  single : s.doubleSpeed = false → baud = 57600 ∨ 4096 < nearestDivisor 8 baud
  nearest : (s.ubrr : ℤ) + 1 = nearestDivisor s.cycles baud

section Rate
variable {τ : Type} {baud : UInt32}

private theorem settled_fits (hlow : 250 ≤ baud.toNat) (hhigh : baud.toNat ≤ 2000000) :
    (baudSetting (settledU2x baud) baud).toNat < 4096 := by
  cases hu : settledU2x baud with
  | true =>
    have hsmall : ¬ baudSetting true baud > 4095 := by
      intro hlarge
      simp [settledU2x, hlarge] at hu
    exact Nat.lt_succ_of_le (UInt16.le_iff_toNat_le.mp (UInt16.not_lt.mp hsmall))
  | false =>
    have hquotient : 2000000 / baud.toNat ≤ 8000 := (Nat.div_le_div_left hlow (by decide)).trans (by decide)
    rw [baudSetting_toNat false hlow hhigh]
    simp only [Bool.false_eq_true, if_false]
    omega

private theorem servesRate_of_settled (hlow : 250 ≤ baud.toNat) (hhigh : baud.toNat ≤ 2000000) {s : HardwareSerial τ}
    (hu : s.ucsra = if settledU2x baud then u2x else 0) (hubrr : s.ubrr = (baudSetting (settledU2x baud) baud).toNat) :
    s.ServesRate baud := by
  have hspeed : s.doubleSpeed = settledU2x baud := by
    rw [HardwareSerial.doubleSpeed, hu]
    cases settledU2x baud <;> decide
  refine ⟨hubrr ▸ settled_fits hlow hhigh,fun hsingle => ?_,?_⟩
  · rw [hspeed] at hsingle
    by_cases hspecial : baud = 57600
    · exact Or.inl hspecial
    · have hlarge : baudSetting true baud > 4095 := by simpa [settledU2x, hspecial] using hsingle
      have hdouble := nearestDivisor_eq true hlow hhigh
      have hlarge : 4095 < (baudSetting true baud).toNat := UInt16.lt_iff_toNat_lt.mp hlarge
      rw [if_pos rfl] at hdouble
      exact Or.inr (by omega)
  · rw [hubrr, HardwareSerial.cycles, hspeed]
    exact nearestDivisor_eq (settledU2x baud) hlow hhigh

theorem assignBaud_ubrr (setting : UInt16) (s : HardwareSerial τ) : (s.assignBaud setting).ubrr = setting.toNat := by
  change 256 * (setting >>> 8).toUInt8.toNat + setting.toUInt8.toNat = _
  rw [high_toNat, UInt16.toNat_toUInt8]
  exact Nat.div_add_mod setting.toNat 256

end Rate

/-- Both `begin` return after at most two passes of `try_again`, with the nearest divisor for the
rate in `UBRR` and the same speed and divisor. -/
theorem baud_divisor_nearest {τ : Type} (clearTime : UInt32 → τ) (baud : UInt32) (hlow : 250 ≤ baud.toNat)
    (hhigh : baud.toNat ≤ 2000000) (config : UInt8) (s : HardwareSerial τ) (fuel : Nat) :
    ∃ a b, s.begin clearTime (fuel+2) baud = some a ∧ s.beginConfig (fuel+2) baud config = some b ∧
      a.ServesRate baud ∧ b.ServesRate baud ∧ a.doubleSpeed = b.doubleSpeed ∧ a.ubrr = b.ubrr := by
  refine ⟨_,_,begin_settles baud clearTime fuel s,beginConfig_settles baud config fuel s,?_,?_,rfl,rfl⟩
  · exact servesRate_of_settled hlow hhigh rfl (assignBaud_ubrr _ s)
  · exact servesRate_of_settled hlow hhigh rfl (assignBaud_ubrr _ s)

/-- 300 baud, which takes the second pass. -/
theorem baud_divisor_nearest_slow : ∃ a b,
    (⟨0, 0, 0, 0, 0, 0, false, ()⟩ : HardwareSerial Unit).begin (fun _ => ()) 2 300 = some a ∧
      (⟨0, 0, 0, 0, 0, 0, false, ()⟩ : HardwareSerial Unit).beginConfig 2 300 serial8N1 = some b ∧
      a.ServesRate 300 ∧ b.ServesRate 300 ∧ a.doubleSpeed = b.doubleSpeed ∧ a.ubrr = b.ubrr :=
  baud_divisor_nearest (fun _ => ()) 300 (by decide) (by decide) serial8N1 ⟨0, 0, 0, 0, 0, 0, false, ()⟩ 0

/-- The calls that work on the driver's state, each taken to its return. -/
inductive SerialCall
  | begin (baud : UInt32)
  | beginConfig (baud : UInt32) (config : UInt8)
  | write
  | flush
  | setPin (pin : Int16)

namespace HardwareSerial
variable {τ : Type} (clearTime : UInt32 → τ)

/-- As constructed, over the registers after reset. -/
def reset (serClearTm : τ) : HardwareSerial τ := ⟨0,0,0,0,0x06,0,false,serClearTm⟩

def call (s : HardwareSerial τ) : SerialCall → HardwareSerial τ
  | .begin baud => (s.begin clearTime 2 baud).getD s
  | .beginConfig baud config => (s.beginConfig 2 baud config).getD s
  | .write => {s with ucsrb := setBits s.ucsrb udrie, transmitting := true}
  | .flush => {s with transmitting := false}
  | .setPin pin => {s with pin := pin.toUInt16.toUInt8}

/-- What the two `begin` are meant to leave the same. -/
structure SameDriver (a b : HardwareSerial τ) : Prop where
  ubrr : a.ubrr = b.ubrr
  doubleSpeed : a.doubleSpeed = b.doubleSpeed
  ucsrb : a.ucsrb = b.ucsrb
  pin : a.pin = b.pin
  transmitting : a.transmitting = b.transmitting
  serClearTm : a.serClearTm = b.serClearTm

end HardwareSerial

namespace SerialCall
variable {τ : Type}

/-- Bytes have been written and neither flushed nor forgotten by a `begin`. -/
def unflushed (pending : Bool) : SerialCall → Bool
  | .write => true
  | .begin _ | .flush => false
  | .beginConfig _ _ | .setPin _ => pending

/-- The turnaround time that was set last. -/
def turnaround (clearTime : UInt32 → τ) (time : τ) : SerialCall → τ
  | .begin baud => clearTime baud
  | _ => time

end SerialCall

section Calls
variable {τ : Type} (clearTime : UInt32 → τ)

private theorem call_frame (s : HardwareSerial τ) (c : SerialCall) :
    (s.call clearTime c).transmitting = c.unflushed s.transmitting ∧
      (s.call clearTime c).serClearTm = c.turnaround clearTime s.serClearTm := by
  cases c with
  | begin baud =>
    rw [HardwareSerial.call, begin_settles baud clearTime 0 s]
    exact ⟨rfl,rfl⟩
  | beginConfig baud config =>
    rw [HardwareSerial.call, beginConfig_settles baud config 0 s]
    exact ⟨rfl,rfl⟩
  | write | flush | setPin => exact ⟨rfl,rfl⟩

theorem calls_frame (calls : List SerialCall) (s : HardwareSerial τ) :
    (calls.foldl (HardwareSerial.call clearTime) s).transmitting = calls.foldl SerialCall.unflushed s.transmitting ∧
      (calls.foldl (HardwareSerial.call clearTime) s).serClearTm =
        calls.foldl (SerialCall.turnaround clearTime) s.serClearTm := by
  induction calls generalizing s with
  | nil => exact ⟨rfl,rfl⟩
  | cons c rest ih =>
    obtain ⟨htransmitting,htime⟩ := call_frame clearTime s c
    rw [List.foldl_cons, List.foldl_cons, List.foldl_cons, ← htransmitting, ← htime]
    exact ih _

end Calls

/-- After any calls, `begin(baud, SERIAL_8N1)` and `begin(baud)` set the same registers and pin. The
driver states are the same exactly if no written byte is still unflushed and the turnaround time
is the one of this rate already. -/
theorem begin_overloads {τ : Type} (clearTime : UInt32 → τ) (s₀ : HardwareSerial τ) (calls : List SerialCall) (baud : UInt32)
    (fuel : Nat) :
    let s := calls.foldl (HardwareSerial.call clearTime) s₀
    ∃ a b, s.begin clearTime (fuel+2) baud = some a ∧ s.beginConfig (fuel+2) baud serial8N1 = some b ∧
      (a.ubrr = b.ubrr ∧ a.doubleSpeed = b.doubleSpeed ∧ a.ucsrb = b.ucsrb ∧ a.pin = b.pin) ∧
      (a.SameDriver b ↔ calls.foldl SerialCall.unflushed s₀.transmitting = false ∧
        calls.foldl (SerialCall.turnaround clearTime) s₀.serClearTm = clearTime baud) := by
  intro s
  obtain ⟨htransmitting,htime⟩ := calls_frame clearTime calls s₀
  refine ⟨_,_,begin_settles baud clearTime fuel s,beginConfig_settles baud serial8N1 fuel s,⟨rfl,rfl,rfl,rfl⟩,?_⟩
  rw [← htransmitting, ← htime]
  constructor
  · intro h
    exact ⟨h.transmitting.symm,h.serClearTm.symm⟩
  · rintro ⟨hflushed,hsame⟩
    exact ⟨rfl,rfl,rfl,rfl,hflushed.symm,hsame.symm⟩

/-- A byte written at 9600 baud, then another rate: the old turnaround time stays, and the byte counts
as being sent. -/
theorem begin_overloads_differ :
    ¬ ∀ (calls : List SerialCall) (baud : UInt32), ∃ a b,
      (calls.foldl (HardwareSerial.call id) (.reset 0)).begin id 2 baud = some a ∧
        (calls.foldl (HardwareSerial.call id) (.reset 0)).beginConfig 2 baud serial8N1 = some b ∧ a.SameDriver b := by
  intro h
  obtain ⟨a,b,ha,hb,hsame⟩ := h [.begin 9600, .write] 115200
  rw [begin_settles 115200 id 0] at ha
  rw [beginConfig_settles 115200 serial8N1 0] at hb
  cases ha
  cases hb
  exact absurd hsame.transmitting (by decide)

end ArduinoAT90USB.Core
