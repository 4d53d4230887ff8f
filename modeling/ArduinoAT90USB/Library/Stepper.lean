import ArduinoAT90USB.Core.Digital
import ArduinoAT90USB.Foundation.AvrInt
import ArduinoAT90USB.Foundation.Circular

/-! The stepper library: `step` counts the steps of a revolution, and the coils are driven by
the count modulo 4. -/
namespace ArduinoAT90USB.Library
open Core Foundation.AvrInt Foundation.Circular

/-- A call of `stepMotor`, with the direction it was made in. -/
structure MotorStep where
  forward : Bool
  thisStep : Int16

/-- Two wires or four. -/
inductive PinCount
  | two
  | four

/-- A `Stepper` object, the pins, and the call of `step` the program is in: `stepsLeft` is not positive outside.
`taken` are the calls of `stepMotor`, the latest first. -/
structure Stepper where
  numberOfSteps : Int16
  stepNumber : Int16
  direction : Int16
  stepDelay : UInt32
  lastStepTime : Int32
  pinCount : PinCount
  motorPins : List UInt8
  stepsLeft : Int16
  pins : Pins
  taken : List MotorStep

namespace Stepper

/-- The levels of the motor pins for a step. -/
def coils : PinCount → Int → List Bool
  | .two, 0 => [false,true]
  | .two, 1 => [true,true]
  | .two, 2 => [true,false]
  | .two, 3 => [false,false]
  | .four, 0 => [true,false,true,false]
  | .four, 1 => [false,true,true,false]
  | .four, 2 => [false,true,false,true]
  | .four, 3 => [true,false,false,true]
  | _, _ => []

def stepMotor (s : Stepper) (thisStep : Int16) : Stepper :=
  let levels := coils s.pinCount thisStep.toInt
  {s with
    pins := (s.motorPins.zip levels).foldl (fun p (pin,high) => p.digitalWrite pin high) s.pins
    taken := ⟨s.direction = 1,thisStep⟩ :: s.taken}

/-- Both constructors; `delay` is what is found in `step_delay`. -/
def construct (numberOfSteps : Int16) (pinCount : PinCount) (motorPins : List UInt8) (delay : UInt32) (pins : Pins) : Stepper where
  numberOfSteps := numberOfSteps
  stepNumber := 0
  direction := 0
  stepDelay := delay
  lastStepTime := 0
  pinCount := pinCount
  motorPins := motorPins
  stepsLeft := 0
  pins := motorPins.foldl Pins.pinModeOutput pins
  taken := []

def setSpeed (s : Stepper) (whatSpeed : Int32) : Stepper :=
  {s with stepDelay := (60 * 1000 / s.numberOfSteps.toInt32 / whatSpeed).toUInt32}

/-- The beginning of `step`, up to its loop. -/
def beginStep (s : Stepper) (stepsToMove : Int16) : Stepper :=
  {s with
    -- the macro `abs`
    stepsLeft := if stepsToMove > 0 then stepsToMove else -stepsToMove
    direction := if stepsToMove > 0 then 1 else if stepsToMove < 0 then 0 else s.direction}

/-- The step number one step on in the current direction. -/
def turned (s : Stepper) : Int16 :=
  if s.direction = 1 then
    if s.stepNumber + 1 = s.numberOfSteps then 0 else s.stepNumber + 1
  else (if s.stepNumber = 0 then s.numberOfSteps else s.stepNumber) - 1

/-- A pass of the loop of `step`; `now` and `stamp` are what the two calls of `millis` return. -/
def pass (s : Stepper) (now stamp : UInt32) : Stepper :=
  if now - s.lastStepTime.toUInt32 ≥ s.stepDelay then
    let s : Stepper := {s with lastStepTime := stamp.toInt32,stepNumber := s.turned,stepsLeft := s.stepsLeft - 1}
    s.stepMotor (s.stepNumber % 4)
  else s

end Stepper

/-- What the program calls, and the passes of the loop it is in. A speed of 0 would be divided by. -/
inductive StepperInput
  | setSpeed (whatSpeed : Int32) (nonzero : whatSpeed ≠ 0)
  | step (stepsToMove : Int16)
  | pass (now stamp : UInt32)

namespace Stepper

/-- A member function is called once the last `step` has returned. -/
def input (s : Stepper) : StepperInput → Stepper
  | .setSpeed whatSpeed _ => if s.stepsLeft > 0 then s else s.setSpeed whatSpeed
  | .step stepsToMove => if s.stepsLeft > 0 then s else s.beginStep stepsToMove
  | .pass now stamp => if s.stepsLeft > 0 then s.pass now stamp else s

end Stepper

def netSteps : List MotorStep → Int
  | [] => 0
  | m :: earlier => netSteps earlier + if m.forward then 1 else -1

/-- Each argument of `stepMotor` follows the one before by one modulo 4, in its direction. -/
def Advances (taken : List MotorStep) : Prop :=
  taken.IsChain fun m earlier => (4 : Int) ∣ (m.thisStep.toInt - earlier.thisStep.toInt) - if m.forward then 1 else -1

/-- Since its first step the motor has been on one revolution. -/
def OneRevolution (n : Int) (taken : List MotorStep) : Prop :=
  ∀ earlier, earlier ≠ [] → earlier <:+ taken → netSteps earlier / n = netSteps taken / n

/-- Every argument is the net number of steps, modulo the revolution and modulo 4. -/
def Tracks (n : Int) : List MotorStep → Prop
  | [] => True
  | m :: earlier => m.thisStep.toInt = netSteps (m :: earlier) % n % 4 ∧ Tracks n earlier

theorem oneRevolution_cons {n : Int} {m m' : MotorStep} {earlier : List MotorStep} :
    OneRevolution n (m :: m' :: earlier) ↔
      netSteps (m :: m' :: earlier) / n = netSteps (m' :: earlier) / n ∧ OneRevolution n (m' :: earlier) := by
  constructor
  · intro h
    have hhead := h (m' :: earlier) (List.cons_ne_nil _ _) (List.suffix_cons m _)
    refine ⟨hhead.symm,?_⟩
    intro t ht hsuffix
    exact (h t ht (hsuffix.trans (List.suffix_cons m _))).trans hhead.symm
  · rintro ⟨hhead,htail⟩ t ht hsuffix
    rcases List.suffix_cons_iff.mp hsuffix with rfl | hearlier
    · rfl
    · exact (htail t ht hearlier).trans hhead.symm

theorem oneRevolution_single (n : Int) (m : MotorStep) : OneRevolution n [m] := by
  intro t ht hsuffix
  rcases List.suffix_cons_iff.mp hsuffix with rfl | hnil
  · rfl
  · exact absurd (List.suffix_nil.mp hnil) ht

/-- Of two arguments in turn, the second follows the first if the count did not wrap, or 4 divides the
number of steps. -/
theorem follows_iff {n : Int} (hn : 0 < n) {m m' : MotorStep} {earlier : List MotorStep}
    (h : Tracks n (m :: m' :: earlier)) :
    (4 : Int) ∣ (m.thisStep.toInt - m'.thisStep.toInt) - (if m.forward then 1 else -1) ↔
      (4 : Int) ∣ n ∨ netSteps (m :: m' :: earlier) / n = netSteps (m' :: earlier) / n := by
  have hmove : netSteps (m :: m' :: earlier) = netSteps (m' :: earlier) + if m.forward then 1 else -1 := rfl
  rw [h.1,h.2.1]
  generalize netSteps (m :: m' :: earlier) = z' at hmove ⊢
  generalize netSteps (m' :: earlier) = z at hmove ⊢
  rw [or_comm,← residue_step_iff hn 4 (by split at hmove <;> omega) (by split at hmove <;> omega)]
  generalize z' % n = x'
  generalize z % n = x
  constructor <;> intro hdvd <;> omega

theorem advances_iff {n : Int} (hn : 0 < n) {taken : List MotorStep} (h : Tracks n taken) :
    Advances taken ↔ (4 : Int) ∣ n ∨ OneRevolution n taken := by
  induction taken with
  | nil => exact iff_of_true List.IsChain.nil (.inr fun t ht hsuffix => absurd (List.suffix_nil.mp hsuffix) ht)
  | cons m earlier ih =>
    cases earlier with
    | nil => exact iff_of_true (List.IsChain.singleton m) (.inr (oneRevolution_single n m))
    | cons m' earlier =>
      have htail := ih h.2
      rw [Advances] at htail ⊢
      rw [List.isChain_cons_cons,follows_iff hn h,htail,oneRevolution_cons,or_and_left]

namespace Stepper

/-- The step number is the net number of steps, modulo a revolution. -/
structure OnCourse (n : Int16) (s : Stepper) : Prop where
  steps : s.numberOfSteps = n
  number : s.stepNumber.toInt = netSteps s.taken % n.toInt
  tracks : Tracks n.toInt s.taken

variable {n : Int16} {s : Stepper}

theorem OnCourse.range (h : s.OnCourse n) (hn : 1 ≤ n) : 0 ≤ s.stepNumber.toInt ∧ s.stepNumber.toInt < n.toInt := by
  have hpos : 0 < n.toInt := Int16.le_iff_toInt_le.mp hn
  rw [h.number]
  exact ⟨Int.emod_nonneg _ (Int.ne_of_gt hpos),Int.emod_lt_of_pos _ hpos⟩

theorem turned_toInt (h : s.OnCourse n) (hn : 1 ≤ n) :
    s.turned.toInt = if s.direction = 1 then next n.toInt s.stepNumber.toInt else prev n.toInt s.stepNumber.toInt := by
  obtain ⟨hlow,hhigh⟩ := h.range hn
  have hmax := Int16.toInt_lt n
  have hone : (1 : Int16).toInt = 1 := rfl
  have hnext : (s.stepNumber + 1).toInt = s.stepNumber.toInt + 1 := int_add ⟨by omega,by omega⟩
  unfold turned
  split
  · have hend : s.stepNumber + 1 = n ↔ s.stepNumber.toInt + 1 = n.toInt := by rw [← hnext,Int16.toInt_inj]
    rw [next,h.steps,apply_ite Int16.toInt,hnext]
    exact if_congr hend rfl rfl
  · have hzero : s.stepNumber = 0 ↔ s.stepNumber.toInt = 0 := by rw [← Int16.toInt_inj,Int16.toInt_zero]
    have hback : (if s.stepNumber = 0 then n else s.stepNumber).toInt =
        if s.stepNumber.toInt = 0 then n.toInt else s.stepNumber.toInt := by
      rw [apply_ite Int16.toInt]
      exact if_congr hzero rfl rfl
    rw [prev,h.steps,int_sub,hback,hone]
    rw [hback,hone]
    exact ⟨by split <;> omega,by split <;> omega⟩

theorem pass_onCourse (h : s.OnCourse n) (hn : 1 ≤ n) (now stamp : UInt32) : (s.pass now stamp).OnCourse n := by
  unfold pass
  split
  case isFalse => exact h
  case isTrue =>
    have hpos : 0 < n.toInt := Int16.le_iff_toInt_le.mp hn
    have hnumber : s.turned.toInt = netSteps (⟨s.direction = 1,s.turned % 4⟩ :: s.taken) % n.toInt := by
      rw [turned_toInt h hn,h.number,next_emod hpos,prev_emod hpos]
      by_cases hdir : s.direction = 1
      · simp [netSteps,hdir]
      · simp [netSteps,hdir,Int.sub_eq_add_neg]
    refine ⟨h.steps,hnumber,?_,h.tracks⟩
    change (s.turned % 4).toInt = netSteps (⟨s.direction = 1,s.turned % 4⟩ :: s.taken) % n.toInt % 4
    rw [← hnumber,Int16.toInt_mod]
    apply Int.tmod_eq_emod_of_nonneg
    rw [hnumber]
    exact Int.emod_nonneg _ (Int.ne_of_gt hpos)

theorem input_onCourse (h : s.OnCourse n) (hn : 1 ≤ n) (i : StepperInput) : (s.input i).OnCourse n := by
  cases i with
  | setSpeed whatSpeed nonzero =>
    rw [input]
    split
    · exact h
    · exact ⟨h.steps,h.number,h.tracks⟩
  | step stepsToMove =>
    rw [input]
    split
    · exact h
    · exact ⟨h.steps,h.number,h.tracks⟩
  | pass now stamp =>
    rw [input]
    split
    · exact pass_onCourse h hn now stamp
    · exact h

theorem inputs_onCourse (h : s.OnCourse n) (hn : 1 ≤ n) (inputs : List StepperInput) : (inputs.foldl input s).OnCourse n := by
  induction inputs generalizing s with
  | nil => exact h
  | cons i rest ih => exact ih (input_onCourse h hn i)

end Stepper

/-- The phases advance one at a time as long as the count does not wrap, and always if 4 divides the number of
steps; the step number is right in either case. -/
theorem stepper_phases_iff (n : Int16) (hn : 1 ≤ n) (pinCount : PinCount) (motorPins : List UInt8) (delay : UInt32) (pins : Pins)
    (inputs : List StepperInput) :
    let s := inputs.foldl Stepper.input (.construct n pinCount motorPins delay pins)
    (0 ≤ s.stepNumber ∧ s.stepNumber < n) ∧ s.stepNumber.toInt = netSteps s.taken % n.toInt ∧
      (Advances s.taken ↔ (4 : Int) ∣ n.toInt ∨ OneRevolution n.toInt s.taken) := by
  have hpos : 0 < n.toInt := Int16.le_iff_toInt_le.mp hn
  have hstart : (Stepper.construct n pinCount motorPins delay pins).OnCourse n := ⟨rfl,(Int.zero_emod _).symm,trivial⟩
  have h := Stepper.inputs_onCourse hstart hn inputs
  obtain ⟨hlow,hhigh⟩ := h.range hn
  exact ⟨⟨Int16.le_iff_toInt_le.mpr hlow,Int16.lt_iff_toInt_lt.mpr hhigh⟩,h.number,advances_iff hpos h.tracks⟩

/-- A motor of 200 steps a revolution, over its end and back. -/
theorem stepper_phases_200 :
    Advances ([StepperInput.step (-1),.pass 0 0,.step 2,.pass 0 0,.pass 1 1].foldl Stepper.input
      (.construct 200 .four [8,9,10,11] 0 ⟨fun _ => 0,fun _ => 0,0,0,0,0⟩)).taken :=
  (stepper_phases_iff 200 (by decide) .four [8,9,10,11] 0 ⟨fun _ => 0,fun _ => 0,0,0,0,0⟩ _).2.2.mpr (.inl (by decide))

/-- With 50 steps a revolution the step back from number 0 is to number 49, from phase 0 to phase 1. -/
theorem stepper_phases_50 :
    ¬ Advances ([StepperInput.step 1,.pass 0 0,.step (-2),.pass 0 0,.pass 0 0].foldl Stepper.input
      (.construct 50 .four [8,9,10,11] 0 ⟨fun _ => 0,fun _ => 0,0,0,0,0⟩)).taken := by
  intro h
  exact absurd (List.isChain_cons_cons.mp h).1 (by decide)

end ArduinoAT90USB.Library
