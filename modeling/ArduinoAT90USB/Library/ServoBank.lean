import ArduinoAT90USB.Foundation.Table
import ArduinoAT90USB.Library.Servo

/-! The servo library as a whole: any number of `Servo` objects over the 12 entries of `servos`, which the
member functions and the timer's interrupt access by index. -/
namespace ArduinoAT90USB.Library
open Core Foundation.Memory Foundation.Runs Foundation.Table

def invalidServo : UInt8 := 255

/-- `servo_t` -/
structure ServoEntry where
  nbr : UInt8
  isActive : Bool
  ticks : UInt16

/-- A `Servo` object. -/
structure ServoObject where
  servoIndex : UInt8
  min : Int8
  max : Int8

/-- The object's limits, on an entry that holds nothing yet. -/
def ServoObject.limits (o : ServoObject) : ServoSlot := ⟨0,false,0,o.min,o.max⟩

/-- `min` and `max` in steps of 4 microseconds. -/
def ServoObject.withLimits (o : ServoObject) (min max : Int16) : ServoObject :=
  {o with min := ((minPulseWidth - min) / 4).toInt8,max := ((maxPulseWidth - max) / 4).toInt8}

/-- The library's variables and registers; the one timer is `_timer1`. -/
structure ServoBank where
  servoCount : UInt8
  servos : Vector ServoEntry maxServos
  channel : Fin nbr16timers → Int8
  ocr : Fin nbr16timers → UInt16
  enabled : Fin nbr16timers → Bool
  pins : Pins
  objects : List ServoObject

namespace ServoBank

def entry (b : ServoBank) (i : Nat) : Checked ServoEntry := fetch b.servos i

/-- An index the interrupt computes, which a channel of -1 could make negative. -/
def entryAt (b : ServoBank) (index : Int) : Checked ServoEntry :=
  if index < 0 then .error .bounds else b.entry index.toNat

def modifyEntry (b : ServoBank) (i : Nat) (f : ServoEntry → ServoEntry) : Checked ServoBank := do
  let servos ← modify b.servos i f
  return {b with servos := servos}

/-- The number of the timer is that of the index, also of an invalid one. -/
def isTimerActive (b : ServoBank) (timer : Nat) : Checked Bool :=
  (List.range servosPerTimer).anyM fun channel => do
    let e ← b.entry (timer * servosPerTimer + channel)
    return e.isActive

def initISR (b : ServoBank) (timer : Nat) : ServoBank :=
  if timer = 0 then {b with pins := {b.pins with tccr1a := 0},enabled := Function.update b.enabled 0 true}
  else b

/-- The timer is initialized with its first servo. -/
def startTimer (b : ServoBank) (timer : Nat) : Checked ServoBank := do
  let active ← b.isTimerActive timer
  return if active then b else b.initISR timer

/-- The constructor leaves `min` and `max` as they are found. -/
def construct (b : ServoBank) (min max : Int8) : Checked ServoBank :=
  if b.servoCount.toNat < maxServos then do
    let index := b.servoCount
    let b ← {b with servoCount := index + 1}.modifyEntry index.toNat fun e => {e with ticks := toTicks defaultPulseWidth}
    return {b with objects := b.objects ++ [⟨index,min,max⟩]}
  else return {b with objects := b.objects ++ [⟨invalidServo,min,max⟩]}

section Object
variable (b : ServoBank) (o : ServoObject)

/-- `attach(pin, min, max)` on the object that is kept at `j`. -/
def attach (j : Nat) (pin min max : Int16) : Checked ServoBank :=
  if o.servoIndex.toNat < maxServos then do
    let b : ServoBank := {b with pins := b.pins.pinModeOutput pin.toUInt16.toUInt8}
    let b ← b.modifyEntry o.servoIndex.toNat fun e => {e with nbr := pin.toUInt16.toUInt8 % 64}
    let b : ServoBank := {b with objects := b.objects.set j (o.withLimits min max)}
    let b ← b.startTimer (o.servoIndex.toNat / servosPerTimer)
    b.modifyEntry o.servoIndex.toNat fun e => {e with isActive := true}
  else return b

def detach : Checked ServoBank := do
  let b ← b.modifyEntry o.servoIndex.toNat fun e => {e with isActive := false}
  let _ ← b.isTimerActive (o.servoIndex.toNat / servosPerTimer)
  return b

def storeTicks (ticks : UInt16) : Checked ServoBank :=
  if o.servoIndex.toNat < maxServos then b.modifyEntry o.servoIndex.toNat fun e => {e with ticks := ticks}
  else return b

def writeMicroseconds (value : Int16) : Checked ServoBank := b.storeTicks o (o.limits.writeMicroseconds value).ticks

def write (value : Int16) : Checked ServoBank := b.storeTicks o (o.limits.write value).ticks

/-- Timer counts back to microseconds: an `unsigned int` product. -/
def ticksToUs (ticks : UInt16) : Int32 := (ticks * 8).toUInt32.toInt32 / 16

def readMicroseconds : Checked Int16 :=
  if o.servoIndex ≠ invalidServo then do
    let e ← b.entry o.servoIndex.toNat
    return (ticksToUs e.ticks + trimDuration.toInt32).toUInt32.toUInt16.toInt16
  else return 0

def read : Checked Int16 := do
  let us ← b.readMicroseconds o
  return (map (us + 1).toInt32 o.limits.servoMin.toInt32 o.limits.servoMax.toInt32 0 180).toInt16

def attached : Checked Bool := do
  let e ← b.entry o.servoIndex.toNat
  return e.isActive

end Object

section Interrupt
variable (b : ServoBank) (timer : Fin nbr16timers)

/-- `SERVO_INDEX(timer,Channel[timer])` -/
def currentIndex : Int := servoIndex timer (b.channel timer).toInt

def lowerPin : Checked ServoBank :=
  if b.channel timer < 0 then return b
  else if b.currentIndex timer < b.servoCount.toNat then do
    let e ← b.entryAt (b.currentIndex timer)
    return if e.isActive then {b with pins := b.pins.digitalWrite e.nbr false} else b
  else return b

/-- `tcnt` and `later` are what the two reads of the count give. -/
def raiseNext (tcnt later : UInt16) : Checked ServoBank :=
  let b : ServoBank := {b with channel := Function.update b.channel timer (b.channel timer + 1)}
  if b.currentIndex timer < b.servoCount.toNat ∧ (b.channel timer).toInt < servosPerTimer then do
    let e ← b.entryAt (b.currentIndex timer)
    let b : ServoBank := {b with ocr := Function.update b.ocr timer (tcnt + e.ticks)}
    return if e.isActive then {b with pins := b.pins.digitalWrite e.nbr true} else b
  else
    let ocr := if (tcnt + 4).toUInt32.toInt32 < usToTicks refreshInterval then toTicks refreshInterval else later + 4
    return {b with ocr := Function.update b.ocr timer ocr,channel := Function.update b.channel timer (-1)}

def handleInterrupts (tcnt later : UInt16) : Checked ServoBank := do
  let b ← b.lowerPin timer
  b.raiseNext timer tcnt later

end Interrupt

/-- Before the first servo is constructed. -/
def reset (pins : Pins) : ServoBank where
  servoCount := 0
  servos := Vector.replicate maxServos ⟨0,false,0⟩
  channel := fun _ => 0
  ocr := fun _ => 0
  enabled := fun _ => false
  pins := pins
  objects := []

end ServoBank

/-- Calls on the objects, in the order they were constructed in, and the timer's interrupt. -/
inductive ServoCall
  | construct (min max : Int8)
  | attach (j : Nat) (pin min max : Int16)
  | detach (j : Nat)
  | write (j : Nat) (value : Int16)
  | writeMicroseconds (j : Nat) (value : Int16)
  | read (j : Nat)
  | readMicroseconds (j : Nat)
  | attached (j : Nat)
  | compareInterrupt (timer : Fin nbr16timers) (tcnt later : UInt16)

def ServoCall.target : ServoCall → Option Nat
  | .attach j _ _ _ | .detach j | .write j _ | .writeMicroseconds j _ | .read j | .readMicroseconds j
  | .attached j => some j
  | .construct _ _ | .compareInterrupt _ _ _ => none

namespace ServoBank

/-- There is nothing to call on an object that has not been constructed. -/
def onObject (b : ServoBank) (j : Nat) (f : ServoObject → Checked ServoBank) : Checked ServoBank :=
  match b.objects[j]? with
  | some o => f o
  | none => return b

def step (b : ServoBank) : ServoCall → Checked ServoBank
  | .construct min max => b.construct min max
  | .attach j pin min max => b.onObject j fun o => b.attach o j pin min max
  | .detach j => b.onObject j b.detach
  | .write j value => b.onObject j fun o => b.write o value
  | .writeMicroseconds j value => b.onObject j fun o => b.writeMicroseconds o value
  | .read j => b.onObject j fun o => do
    let _ ← b.read o
    return b
  | .readMicroseconds j => b.onObject j fun o => do
    let _ ← b.readMicroseconds o
    return b
  | .attached j => b.onObject j fun o => do
    let _ ← b.attached o
    return b
  | .compareInterrupt timer tcnt later => if b.enabled timer then b.handleInterrupts timer tcnt later else return b

/-- `detach` and `attached` are called on objects that have an entry. -/
def Guarded (b : ServoBank) : ServoCall → Prop
  | .detach j | .attached j => j < b.objects.length → j < maxServos
  | _ => True

/-- What decides which entries are accessed. -/
structure SameIndices (b b' : ServoBank) : Prop where
  count : b'.servoCount = b.servoCount
  channel : b'.channel = b.channel
  objects : b'.objects.map (·.servoIndex) = b.objects.map (·.servoIndex)

/-- The first 12 objects have the entries in turn, and the channels stay on their timer. -/
structure InRange (b : ServoBank) : Prop where
  counted : b.servoCount.toNat = min b.objects.length maxServos
  numbered : ∀ {j o}, b.objects[j]? = some o → o.servoIndex.toNat = if j < maxServos then j else 255
  channel : ∀ timer, -1 ≤ (b.channel timer).toInt ∧ (b.channel timer).toInt < servosPerTimer

variable {b b' : ServoBank} {o : ServoObject} {i j : Nat}

theorem InRange.of_same (h : b.InRange) (hsame : SameIndices b b') : b'.InRange where
  counted := by
    have hlen := congrArg List.length hsame.objects
    rw [List.length_map,List.length_map] at hlen
    rw [hsame.count,hlen]
    exact h.counted
  numbered := by
    intro j o ho
    have hget := congrArg (fun l => l[j]?) hsame.objects
    simp only [List.getElem?_map,ho,Option.map_some] at hget
    obtain ⟨o₀,ho₀,hindex⟩ := Option.map_eq_some_iff.mp hget.symm
    rw [← hindex]
    exact h.numbered ho₀
  channel := by
    rw [hsame.channel]
    exact h.channel

section Accesses

theorem modifyEntry_inside (b : ServoBank) (f : ServoEntry → ServoEntry) (h : i < maxServos) :
    b.modifyEntry i f = .ok {b with servos := b.servos.set i (f b.servos[i]) h} := by
  rw [modifyEntry,modify_inside b.servos f h]
  rfl

theorem modifyEntry_outside (b : ServoBank) (f : ServoEntry → ServoEntry) (h : maxServos ≤ i) :
    b.modifyEntry i f = .error .bounds := by
  rw [modifyEntry,modify_outside b.servos f h]
  rfl

theorem isTimerActive_inside (b : ServoBank) (h : i < maxServos) : ∃ r, b.isTimerActive (i / servosPerTimer) = .ok r := by
  apply anyM_ok
  intro channel hchannel
  have hlt : i / servosPerTimer * servosPerTimer + channel < maxServos := by
    simp only [servosPerTimer,maxServos,nbr16timers,List.mem_range] at *
    omega
  rw [entry,fetch_inside b.servos hlt]
  exact ⟨_,rfl⟩

end Accesses

section Effects

theorem initISR_registers (b : ServoBank) (timer : Nat) :
    ∃ pins enabled, b.initISR timer = {b with pins := pins,enabled := enabled} := by
  unfold initISR
  split
  · exact ⟨_,_,rfl⟩
  · exact ⟨b.pins,b.enabled,rfl⟩

theorem startTimer_ok (b : ServoBank) (h : i < maxServos) :
    ∃ pins enabled, b.startTimer (i / servosPerTimer) = .ok {b with pins := pins,enabled := enabled} := by
  obtain ⟨active,hactive⟩ := b.isTimerActive_inside h
  rw [startTimer,hactive,ok_bind]
  cases active with
  | true => exact ⟨b.pins,b.enabled,rfl⟩
  | false =>
    obtain ⟨pins,enabled,hinit⟩ := b.initISR_registers (i / servosPerTimer)
    exact ⟨pins,enabled,congrArg Except.ok hinit⟩

theorem attach_ok (h : o.servoIndex.toNat < maxServos) (j : Nat) (pin min max : Int16) :
    ∃ pins enabled, b.attach o j pin min max = .ok {b with
      pins := pins
      enabled := enabled
      servos := b.servos.set o.servoIndex.toNat
        {b.servos[o.servoIndex.toNat] with nbr := pin.toUInt16.toUInt8 % 64,isActive := true}
      objects := b.objects.set j (o.withLimits min max)} := by
  simp only [attach,if_pos h,modifyEntry_inside _ _ h,ok_bind]
  obtain ⟨pins,enabled,hstart⟩ := startTimer_ok {b with
      pins := b.pins.pinModeOutput pin.toUInt16.toUInt8
      servos := b.servos.set o.servoIndex.toNat
        {b.servos[o.servoIndex.toNat] with nbr := pin.toUInt16.toUInt8 % 64}
      objects := b.objects.set j (o.withLimits min max)} h
  rw [hstart,ok_bind]
  refine ⟨pins,enabled,?_⟩
  simp only [Vector.set_set,Vector.getElem_set_self]

theorem detach_ok (h : o.servoIndex.toNat < maxServos) : b.detach o = .ok {b with
    servos := b.servos.set o.servoIndex.toNat {b.servos[o.servoIndex.toNat] with isActive := false}} := by
  rw [detach,modifyEntry_inside _ _ h,ok_bind]
  obtain ⟨active,hactive⟩ := isTimerActive_inside {b with
    servos := b.servos.set o.servoIndex.toNat {b.servos[o.servoIndex.toNat] with isActive := false}} h
  rw [hactive,ok_bind]
  rfl

theorem storeTicks_ok (h : o.servoIndex.toNat < maxServos) (ticks : UInt16) : b.storeTicks o ticks = .ok {b with
    servos := b.servos.set o.servoIndex.toNat {b.servos[o.servoIndex.toNat] with ticks := ticks}} := by
  rw [storeTicks,if_pos h,modifyEntry_inside _ _ h]

theorem readMicroseconds_ok (h : o.servoIndex.toNat < maxServos) : b.readMicroseconds o =
    .ok (ticksToUs b.servos[o.servoIndex.toNat].ticks + trimDuration.toInt32).toUInt32.toUInt16.toInt16 := by
  have hvalid : o.servoIndex ≠ invalidServo := by
    intro hinvalid
    rw [hinvalid] at h
    exact absurd h (by decide)
  rw [readMicroseconds,if_pos hvalid,entry,fetch_inside b.servos h]
  rfl

theorem construct_ok (b : ServoBank) (min max : Int8) (h : b.servoCount.toNat < maxServos) :
    b.construct min max = .ok {b with
      servoCount := b.servoCount + 1
      servos := b.servos.set b.servoCount.toNat {b.servos[b.servoCount.toNat] with ticks := toTicks defaultPulseWidth}
      objects := b.objects ++ [⟨b.servoCount,min,max⟩]} := by
  simp only [construct,if_pos h,modifyEntry_inside _ _ h,ok_bind]
  rfl

theorem InRange.count_le (h : b.InRange) : b.servoCount.toNat ≤ maxServos := by
  rw [h.counted]
  exact Nat.min_le_right _ _

theorem entryAt_current (hle : b.servoCount.toNat ≤ maxServos) {timer : Fin nbr16timers} (hnonneg : 0 ≤ (b.channel timer).toInt)
    (hcount : b.currentIndex timer < b.servoCount.toNat) : ∃ e, b.entryAt (b.currentIndex timer) = .ok e := by
  have hpos : 0 ≤ b.currentIndex timer := by
    simp only [currentIndex,servoIndex,servosPerTimer]
    omega
  have hlt : (b.currentIndex timer).toNat < maxServos := by omega
  rw [entryAt,if_neg (Int.not_lt.mpr hpos),entry,fetch_inside b.servos hlt]
  exact ⟨_,rfl⟩

theorem lowerPin_ok (h : b.InRange) (timer : Fin nbr16timers) : ∃ pins, b.lowerPin timer = .ok {b with pins := pins} := by
  unfold lowerPin
  split
  case isTrue hneg => exact ⟨b.pins,rfl⟩
  case isFalse hneg =>
    split
    case isTrue hcount =>
      have hnonneg : 0 ≤ (b.channel timer).toInt := by
        rw [Int8.lt_iff_toInt_lt,Int8.toInt_zero] at hneg
        omega
      obtain ⟨e,he⟩ := entryAt_current h.count_le hnonneg hcount
      rw [he,ok_bind]
      split
      · exact ⟨_,rfl⟩
      · exact ⟨b.pins,rfl⟩
    case isFalse hcount => exact ⟨b.pins,rfl⟩

theorem next_channel {c : Int8} (h : -1 ≤ c.toInt ∧ c.toInt < servosPerTimer) : (c + 1).toInt = c.toInt + 1 := by
  obtain ⟨hlow,hhigh⟩ := h
  simp only [servosPerTimer] at hhigh
  rw [Int8.toInt_add]
  exact Int.bmod_eq_of_le (by simp; omega) (by simp; omega)

theorem raiseNext_ok (h : b.InRange) (timer : Fin nbr16timers) (tcnt later : UInt16) :
    ∃ pins ocr channel, b.raiseNext timer tcnt later =
      .ok {b with pins := pins,ocr := ocr,channel := Function.update b.channel timer channel} ∧
        -1 ≤ channel.toInt ∧ channel.toInt < servosPerTimer := by
  obtain ⟨hlow,hhigh⟩ := h.channel timer
  have hnext := next_channel ⟨hlow,hhigh⟩
  have hself : Function.update b.channel timer (b.channel timer + 1) timer = b.channel timer + 1 :=
    Function.update_self _ _ _
  simp only [raiseNext,hself]
  split
  case isTrue hcount =>
    have hnonneg : 0 ≤ (Function.update b.channel timer (b.channel timer + 1) timer).toInt := by
      rw [hself,hnext]
      omega
    obtain ⟨e,he⟩ := entryAt_current (b := {b with channel := Function.update b.channel timer (b.channel timer + 1)})
      h.count_le hnonneg hcount.1
    rw [he,ok_bind]
    split
    · exact ⟨_,_,b.channel timer + 1,rfl,by omega,hcount.2⟩
    · exact ⟨_,_,b.channel timer + 1,rfl,by omega,hcount.2⟩
  case isFalse hcount =>
    simp only [Function.update_idem]
    exact ⟨b.pins,_,-1,rfl,by decide,by decide⟩

theorem handleInterrupts_ok (h : b.InRange) (timer : Fin nbr16timers) (tcnt later : UInt16) :
    ∃ pins ocr channel, b.handleInterrupts timer tcnt later =
      .ok {b with pins := pins,ocr := ocr,channel := Function.update b.channel timer channel} ∧
        -1 ≤ channel.toInt ∧ channel.toInt < servosPerTimer := by
  obtain ⟨pins,hlower⟩ := lowerPin_ok h timer
  have hlowered : InRange {b with pins := pins} := h.of_same ⟨rfl,rfl,rfl⟩
  rw [handleInterrupts,hlower,ok_bind]
  exact raiseNext_ok hlowered timer tcnt later

end Effects

section Step

theorem InRange.index_lt (h : b.InRange) (ho : b.objects[j]? = some o) (hj : j < maxServos) :
    o.servoIndex.toNat < maxServos := by
  rw [h.numbered ho,if_pos hj]
  exact hj

theorem InRange.surplus (h : b.InRange) (ho : b.objects[j]? = some o) (hj : ¬ j < maxServos) : o.servoIndex = invalidServo := by
  apply UInt8.toNat_inj.mp
  rw [h.numbered ho,if_neg hj]
  rfl

/-- A store into `servos` moves no index. -/
theorem InRange.stored (h : b.InRange) (servos : Vector ServoEntry maxServos) : InRange {b with servos := servos} :=
  h.of_same ⟨rfl,rfl,rfl⟩

theorem onObject_ok {f : ServoObject → Checked ServoBank} (h : b.InRange)
    (hf : ∀ o, b.objects[j]? = some o → ∃ b', f o = .ok b' ∧ b'.InRange) : ∃ b', b.onObject j f = .ok b' ∧ b'.InRange := by
  unfold onObject
  split
  case h_1 o ho => exact hf o ho
  case h_2 => exact ⟨b,rfl,h⟩

theorem onObject_cases {f : ServoObject → Checked ServoBank} (h : b.onObject j f = .ok b') :
    b' = b ∨ ∃ o, b.objects[j]? = some o ∧ f o = .ok b' := by
  unfold onObject at h
  split at h
  case h_1 o ho => exact .inr ⟨o,ho,h⟩
  case h_2 => exact .inl (Except.ok.inj h).symm

theorem attach_inRange (h : b.InRange) (ho : b.objects[j]? = some o) (pin min max : Int16) :
    ∃ b', b.attach o j pin min max = .ok b' ∧ b'.InRange := by
  by_cases hindex : o.servoIndex.toNat < maxServos
  · obtain ⟨pins,enabled,hattach⟩ := attach_ok hindex j pin min max
    refine ⟨_,hattach,h.of_same ⟨rfl,rfl,?_⟩⟩
    obtain ⟨hj,hself⟩ : ∃ h : j < (b.objects.map (·.servoIndex)).length, (b.objects.map (·.servoIndex))[j] = o.servoIndex := by
      apply List.getElem?_eq_some_iff.mp
      rw [List.getElem?_map,ho,Option.map_some]
    rw [List.map_set]
    change (b.objects.map (·.servoIndex)).set j o.servoIndex = _
    rw [← hself,List.set_getElem_self]
  · exact ⟨b,if_neg hindex,h⟩

theorem storeTicks_inRange (h : b.InRange) (o : ServoObject) (ticks : UInt16) :
    ∃ b', b.storeTicks o ticks = .ok b' ∧ b'.InRange := by
  by_cases hindex : o.servoIndex.toNat < maxServos
  · exact ⟨_,storeTicks_ok hindex ticks,h.stored _⟩
  · exact ⟨b,if_neg hindex,h⟩

theorem readMicroseconds_inRange (h : b.InRange) (ho : b.objects[j]? = some o) : ∃ us, b.readMicroseconds o = .ok us := by
  by_cases hj : j < maxServos
  · exact ⟨_,readMicroseconds_ok (h.index_lt ho hj)⟩
  · exact ⟨0,if_neg (not_not.mpr (h.surplus ho hj))⟩

theorem numbered_append (h : b.InRange) {o : ServoObject}
    (ho : o.servoIndex.toNat = if b.objects.length < maxServos then b.objects.length else 255) {j : Nat} {p : ServoObject}
    (hp : (b.objects ++ [o])[j]? = some p) : p.servoIndex.toNat = if j < maxServos then j else 255 := by
  by_cases hj : j < b.objects.length
  · rw [List.getElem?_append_left hj] at hp
    exact h.numbered hp
  · rw [List.getElem?_append_right (Nat.le_of_not_lt hj)] at hp
    obtain ⟨hlt,rfl⟩ := List.getElem?_eq_some_iff.mp hp
    rw [List.length_singleton] at hlt
    obtain rfl : j = b.objects.length := by omega
    simpa using ho

theorem construct_inRange (h : b.InRange) (min max : Int8) : ∃ b', b.construct min max = .ok b' ∧ b'.InRange := by
  have hcounted := h.counted
  by_cases hcount : b.servoCount.toNat < maxServos
  · refine ⟨_,construct_ok b min max hcount,?_,?_,h.channel⟩
    · have hone : (b.servoCount + 1).toNat = b.servoCount.toNat + 1 := by
        simp only [maxServos,nbr16timers,servosPerTimer] at hcount
        rw [UInt8.toNat_add,UInt8.toNat_one]
        omega
      rw [hone,List.length_append,List.length_singleton]
      omega
    · exact numbered_append h (by rw [if_pos (by omega)]; change b.servoCount.toNat = _; omega)
  · refine ⟨_,if_neg hcount,?_,?_,h.channel⟩
    · change b.servoCount.toNat = _
      rw [List.length_append,List.length_singleton]
      omega
    · exact numbered_append h (by rw [if_neg (by omega)]; rfl)

theorem step_ok (h : b.InRange) (call : ServoCall) (hguard : b.Guarded call) : ∃ b', b.step call = .ok b' ∧ b'.InRange := by
  cases call with
  | construct min max => exact construct_inRange h min max
  | attach j pin min max => exact onObject_ok h fun o ho => attach_inRange h ho pin min max
  | detach j =>
    apply onObject_ok h
    intro o ho
    have hj := hguard (List.getElem?_eq_some_iff.mp ho).1
    exact ⟨_,detach_ok (h.index_lt ho hj),h.stored _⟩
  | write j value => exact onObject_ok h fun o _ => storeTicks_inRange h o _
  | writeMicroseconds j value => exact onObject_ok h fun o _ => storeTicks_inRange h o _
  | read j =>
    apply onObject_ok h
    intro o ho
    obtain ⟨us,hus⟩ := readMicroseconds_inRange h ho
    refine ⟨b,?_,h⟩
    rw [read,hus]
    rfl
  | readMicroseconds j =>
    apply onObject_ok h
    intro o ho
    obtain ⟨us,hus⟩ := readMicroseconds_inRange h ho
    refine ⟨b,?_,h⟩
    rw [hus]
    rfl
  | attached j =>
    apply onObject_ok h
    intro o ho
    have hj := hguard (List.getElem?_eq_some_iff.mp ho).1
    refine ⟨b,?_,h⟩
    rw [attached,entry,fetch_inside b.servos (h.index_lt ho hj)]
    rfl
  | compareInterrupt timer tcnt later =>
    rw [step]
    split
    · obtain ⟨pins,ocr,channel,hstep,hlow,hhigh⟩ := handleInterrupts_ok h timer tcnt later
      refine ⟨_,hstep,h.counted,h.numbered,?_⟩
      apply (Function.forall_update_iff b.channel fun _ c => -1 ≤ c.toInt ∧ c.toInt < servosPerTimer).mpr
      exact ⟨⟨hlow,hhigh⟩,fun t _ => h.channel t⟩
    · exact ⟨b,rfl,h⟩

/-- Nothing keeps `detach` and `attached` from entry 255. -/
theorem step_fault (h : b.InRange) (call : ServoCall) (hguard : ¬ b.Guarded call) : b.step call = .error .bounds := by
  have hindex : ∀ {j}, j < b.objects.length → ¬ j < maxServos → ∃ o, b.objects[j]? = some o ∧ maxServos ≤ o.servoIndex.toNat := by
    intro j hlen hj
    refine ⟨b.objects[j],List.getElem?_eq_getElem hlen,?_⟩
    rw [h.surplus (List.getElem?_eq_getElem hlen) hj]
    decide
  cases call with
  | detach j =>
    obtain ⟨hlen,hj⟩ := Classical.not_imp.mp hguard
    obtain ⟨o,ho,hout⟩ := hindex hlen hj
    rw [step,onObject,ho]
    dsimp only
    rw [detach,modifyEntry_outside b _ hout]
    rfl
  | attached j =>
    obtain ⟨hlen,hj⟩ := Classical.not_imp.mp hguard
    obtain ⟨o,ho,hout⟩ := hindex hlen hj
    rw [step,onObject,ho]
    dsimp only
    rw [attached,entry,fetch_outside b.servos hout]
    rfl
  | _ => exact absurd trivial hguard

theorem step_surplus (h : b.InRange) {call : ServoCall} (hcall : call.target = some j) (hj : ¬ j < maxServos)
    (hstep : b.step call = .ok b') : b' = b := by
  have hsurplus : ∀ f, (∀ o, o.servoIndex = invalidServo → ∀ c, f o = .ok c → c = b) → b.onObject j f = .ok b' → b' = b := by
    intro f hf hb
    rcases onObject_cases hb with hsame | ⟨o,ho,hcall⟩
    · exact hsame
    · exact hf o (h.surplus ho hj) b' hcall
  have hout : ¬ invalidServo.toNat < maxServos := by decide
  have hstore : ∀ o ticks, o.servoIndex = invalidServo → ∀ c, b.storeTicks o ticks = .ok c → c = b := by
    intro o ticks ho c hc
    rw [storeTicks,ho,if_neg hout] at hc
    exact (Except.ok.inj hc).symm
  cases call <;> cases hcall
  case attach pin min max =>
    apply hsurplus _ _ hstep
    intro o ho c hc
    rw [attach,ho,if_neg hout] at hc
    exact (Except.ok.inj hc).symm
  case detach =>
    apply hsurplus _ _ hstep
    intro o ho c hc
    rw [detach,ho,modifyEntry_outside b _ (Nat.le_of_not_lt hout)] at hc
    cases hc
  case write value => exact hsurplus _ (fun o => hstore o _) hstep
  case writeMicroseconds value => exact hsurplus _ (fun o => hstore o _) hstep
  all_goals
    apply hsurplus _ _ hstep
    intro o ho c hc
    obtain ⟨x,-,hx⟩ := bind_eq_ok hc
    exact (Except.ok.inj hx).symm

theorem reset_inRange (pins : Pins) : (reset pins).InRange where
  counted := rfl
  numbered := by
    intro j o ho
    cases ho
  channel := fun _ => show -1 ≤ (0 : Int8).toInt ∧ (0 : Int8).toInt < servosPerTimer by decide

theorem step_inRange {call : ServoCall} (h : b.InRange) (hstep : b.step call = .ok b') : b'.InRange := by
  by_cases hguard : b.Guarded call
  · obtain ⟨c,hc,hrange⟩ := step_ok h call hguard
    rw [hstep] at hc
    cases hc
    exact hrange
  · rw [step_fault h call hguard] at hstep
    cases hstep

theorem run_completes_iff (h : b.InRange) (calls : List ServoCall) :
    (∃ b', calls.foldlM step b = .ok b') ↔ AdmitsAll step Guarded b calls :=
  completes_iff_admits (fun _ call h => step_ok h call) (fun _ call h hguard => ⟨.bounds,step_fault h call hguard⟩) h calls

theorem run_inRange {pins : Pins} {calls : List ServoCall} (h : calls.foldlM step (.reset pins) = .ok b) : b.InRange :=
  completed_invariant (fun _ _ _ _ => step_inRange) h (reset_inRange pins)

end Step
end ServoBank

/-- Every access to `servos` is inside exactly as long as no surplus object is asked to `detach` or whether it
is `attached`; what else is called on a surplus object changes nothing. -/
theorem servo_indices_in_range_iff (pins : Pins) (calls : List ServoCall) :
    ((∃ b, calls.foldlM ServoBank.step (.reset pins) = .ok b) ↔
      AdmitsAll ServoBank.step ServoBank.Guarded (.reset pins) calls) ∧
    ∀ b, calls.foldlM ServoBank.step (.reset pins) = .ok b →
      ∀ call j, ServoCall.target call = some j → maxServos ≤ j → ∀ b', b.step call = .ok b' → b' = b := by
  constructor
  · exact ServoBank.run_completes_iff (ServoBank.reset_inRange pins) calls
  · intro b hrun call j hcall hj b' hstep
    exact ServoBank.step_surplus (ServoBank.run_inRange hrun) hcall (Nat.not_lt.mpr hj) hstep

/-- One servo, attached, moved and detached. -/
theorem servo_indices_single : ∃ b, [ServoCall.construct 0 0,.attach 0 9 544 2400,.write 0 90,.detach 0].foldlM
    ServoBank.step (.reset ServoTimer.reset.pins) = .ok b := by
  apply (servo_indices_in_range_iff _ _).1.mpr
  refine ⟨trivial,fun _ _ => ⟨trivial,fun _ _ => ⟨trivial,fun _ _ => ⟨fun _ => ?_,fun _ _ => trivial⟩⟩⟩⟩
  decide

/-- The 13th object is constructed with index 255, which `detach` stores to. -/
theorem servo_detach_surplus : (List.replicate 13 (ServoCall.construct 0 0) ++ [ServoCall.detach 12]).foldlM
    ServoBank.step (.reset ServoTimer.reset.pins) = .error .bounds := by
  rfl

end ArduinoAT90USB.Library
