import ArduinoAT90USB.Core.SerialTransmit
import ArduinoAT90USB.Foundation.Runs
import Mathlib.Logic.Function.Iterate

/-! The RS485 driver pin. The handler raises it, stores a byte and lowers it when it sees
`TXC`, but only `write` clears `TXC`: a flag left over from the byte before makes the handler
lower the pin over a byte that is still going out. -/
namespace ArduinoAT90USB.Core
open Foundation Foundation.Runs

namespace Transmitter

def setPin (pin : Int16) (s : Transmitter) : Transmitter := {s with pin := pin.toUInt16.toUInt8, driver := false}

/-- A byte in `UDR1` or in the shift register finds the driver on. -/
def Covered (s : Transmitter) : Prop := s.udr ≠ none ∨ s.shift ≠ none → s.driver = true

/-- The same now and while the handler goes on, however slow the line is. -/
def CoveredOn (n : BufferSize) (s : Transmitter) : Prop := ∀ k, ((fun t => step n t .handler)^[k] s).Covered

/-- The interrupt finds a byte queued. -/
structure Fires (s : Transmitter) (a : TransmitStep) : Prop where
  step : a = .interrupt
  handler : s.handler = .off
  udrie : s.udrie = true
  udr : s.udr = none
  queued : s.txBuffer.head ≠ s.txBuffer.tail

/-- A pin is set, and no completion is left over, when the interrupt finds a byte queued. -/
def Fresh (s : Transmitter) (a : TransmitStep) : Prop := s.Fires a → s.txc = false ∧ s.pin > 0

def Idle (s : Transmitter) : Prop := s.udr = none ∧ s.shift = none

end Transmitter

/-- Where the line and the driver stand at each point of the handler, if every byte was fresh. -/
def HandlerPc.Drives (s : Transmitter) : HandlerPc → Prop
  | .off | .disabling | .lowering => s.Idle
  | .testing => s.Idle ∧ (s.txBuffer.head ≠ s.txBuffer.tail → s.txc = false ∧ s.pin > 0)
  | .raising => s.Idle ∧ s.txc = false ∧ s.pin > 0
  | .taking | .advancing _ | .loading _ => s.Idle ∧ s.txc = false ∧ s.driver = true
  | .draining => s.driver = true ∧ (s.txc = true → s.Idle)

structure Transmitter.Driven (s : Transmitter) : Prop where
  handler : s.handler.Drives s
  unset : s.pin = 0 → s.driver = false

section Steps
variable {n : BufferSize} {s : Transmitter}

theorem Transmitter.Driven.covered (h : s.Driven) : s.Covered := by
  have hk := h.handler
  have hidle (hi : s.Idle) : s.Covered := by
    rintro (hne | hne)
    · exact absurd hi.1 hne
    · exact absurd hi.2 hne
  cases hpc : s.handler with
  | draining =>
    rw [hpc] at hk
    exact fun _ => hk.1
  | off | disabling | lowering =>
    rw [hpc] at hk
    exact hidle hk
  | testing | raising | taking | advancing | loading =>
    rw [hpc] at hk
    exact hidle hk.1

theorem Transmitter.Driven.handlerStep (h : s.Driven) : (s.handlerStep n).Driven := by
  have hk := h.handler
  have hu := h.unset
  rw [Transmitter.handlerStep]
  cases hpc : s.handler with
  | off => exact h
  | testing =>
    rw [hpc] at hk
    dsimp only
    split_ifs with hempty
    · exact ⟨hk.1,hu⟩
    · exact ⟨⟨hk.1,hk.2 hempty⟩,hu⟩
  | disabling =>
    rw [hpc] at hk
    exact ⟨hk,hu⟩
  | raising =>
    rw [hpc] at hk
    obtain ⟨hidle,htxc,hpin⟩ := hk
    dsimp only
    rw [if_pos hpin]
    exact ⟨⟨hidle,htxc,rfl⟩,fun h0 => absurd hpin (by rw [h0]; decide)⟩
  | taking =>
    rw [hpc] at hk
    exact ⟨hk,hu⟩
  | advancing c =>
    rw [hpc] at hk
    exact ⟨hk,hu⟩
  | loading c =>
    rw [hpc] at hk
    obtain ⟨-,htxc,hdriver⟩ := hk
    exact ⟨⟨hdriver,fun ht => absurd (htxc.symm.trans ht) Bool.false_ne_true⟩,hu⟩
  | draining =>
    rw [hpc] at hk
    dsimp only
    split_ifs with htxc
    · exact ⟨hk.2 htxc,hu⟩
    · exact h
  | lowering =>
    rw [hpc] at hk
    refine ⟨hk,fun h0 => ?_⟩
    dsimp only at h0 ⊢
    rw [h0] at hu ⊢
    exact hu rfl

private theorem driven_of_off (hoff : s.handler = .off) (hi : s.Idle) (hu : s.pin = 0 → s.driver = false) : s.Driven := by
  refine ⟨?_,hu⟩
  rw [hoff]
  exact hi

private theorem idle_of_off (h : s.Driven) (hoff : s.handler = .off) : s.Idle := by
  have hk := h.handler
  rw [hoff] at hk
  exact hk

/-- Bytes go out only while the handler waits for `TXC`, with the driver on. -/
private theorem draining_of_busy (h : s.Driven) (hbusy : ¬ s.Idle) :
    s.handler = .draining ∧ s.driver = true ∧ s.txc = false := by
  have hk := h.handler
  cases hpc : s.handler with
  | draining =>
    rw [hpc] at hk
    exact ⟨rfl,hk.1,Bool.eq_false_iff.mpr fun ht => hbusy (hk.2 ht)⟩
  | off | disabling | lowering =>
    rw [hpc] at hk
    exact absurd hk hbusy
  | testing | raising | taking | advancing | loading =>
    rw [hpc] at hk
    exact absurd hk.1 hbusy

private theorem programStep_line (n : BufferSize) (s : Transmitter) :
    ((s.programStep n).handler = s.handler ∧ (s.programStep n).udr = s.udr ∧ (s.programStep n).shift = s.shift) ∧
      (s.programStep n).pin = s.pin ∧ (s.programStep n).driver = s.driver := by
  rw [Transmitter.programStep]
  split <;> try split_ifs
  all_goals exact ⟨⟨rfl,rfl,rfl⟩,rfl,rfl⟩

theorem Transmitter.Driven.step (h : s.Driven) (a : TransmitStep) (hfresh : s.Fresh a) : (s.step n a).Driven := by
  cases a with
  | write c =>
    rw [Transmitter.step]
    split
    · rename_i _ hoff
      have hidle := idle_of_off h hoff
      exact driven_of_off hoff hidle h.unset
    · exact h
  | flush =>
    rw [Transmitter.step]
    split
    · rename_i _ hoff
      have hidle := idle_of_off h hoff
      exact driven_of_off hoff hidle h.unset
    · exact h
  | program =>
    rw [Transmitter.step]
    split
    · rename_i hoff
      obtain ⟨⟨hh,hudr,hshift⟩,hpin,hdriver⟩ := programStep_line n s
      refine driven_of_off (hh.trans hoff) ?_ ?_
      · rw [Transmitter.Idle, hudr, hshift]
        exact idle_of_off h hoff
      · rw [hpin, hdriver]
        exact h.unset
    · exact h
  | interrupt =>
    rw [Transmitter.step]
    split
    · rename_i hoff hudrie hudr
      have hidle := idle_of_off h hoff
      exact ⟨⟨hidle,fun hne => hfresh ⟨rfl,hoff,hudrie,hudr,hne⟩⟩,h.unset⟩
    · exact h
  | handler => exact h.handlerStep
  | shiftIn =>
    rw [Transmitter.step]
    split
    · rename_i c hudr _
      obtain ⟨hpc,hdriver,htxc⟩ := draining_of_busy h fun hi => by rw [hi.1] at hudr; cases hudr
      refine ⟨?_,h.unset⟩
      dsimp only
      rw [hpc]
      exact ⟨hdriver,fun ht => absurd (htxc.symm.trans ht) Bool.false_ne_true⟩
    · exact h
  | shiftOut =>
    rw [Transmitter.step]
    split
    · rename_i c hshift
      obtain ⟨hpc,hdriver,htxc⟩ := draining_of_busy h fun hi => by rw [hi.2] at hshift; cases hshift
      refine ⟨?_,h.unset⟩
      dsimp only
      rw [hpc]
      refine ⟨hdriver,fun hdone => ⟨?_,rfl⟩⟩
      simpa [htxc] using hdone
    · exact h

theorem Transmitter.Driven.coveredOn (h : s.Driven) : s.CoveredOn n := by
  intro k
  have hk : ((fun t => Transmitter.step n t .handler)^[k] s).Driven := by
    induction k with
    | zero => exact h
    | succ k ih =>
      rw [Function.iterate_succ_apply']
      exact ih.handlerStep
  exact hk.covered

/-- Left to itself, the handler loads the byte; with a stale `TXC` it lowers the pin at once. -/
theorem Transmitter.Driven.not_coveredOn {a : TransmitStep} (h : s.Driven) (hstale : ¬ s.Fresh a) :
    ¬ (s.step n a).CoveredOn n := by
  obtain ⟨⟨rfl,hoff,hudrie,hudr,hne⟩,hbad⟩ := Classical.not_imp.mp hstale
  rw [show s.step n .interrupt = {s with handler := .testing} by simp [Transmitter.step, hoff, hudrie, hudr]]
  intro hcov
  by_cases hpin : s.pin > 0
  · have htxc : s.txc = true := by simpa [hpin] using hbad
    have hlow := hcov 7
    simp [Transmitter.step, Transmitter.handlerStep, Transmitter.Covered, hne, hpin, htxc, hudr] at hlow
  · have hdriver := h.unset (by simpa using hpin)
    have hload := hcov 5
    simp [Transmitter.step, Transmitter.handlerStep, Transmitter.Covered, hne, hpin, hudr, hdriver] at hload

end Steps

/-- The driver is on while a byte goes out, in every state of a run and however the handler
goes on from there, exactly if every interrupt that finds a byte queued also finds a pin set
and `TXC` clear. -/
theorem driver_covers (n : BufferSize) (pin : Int16) (steps : List TransmitStep) :
    Always (Transmitter.step n) (Transmitter.CoveredOn n) ((Transmitter.initial 0).setPin pin) steps ↔
      Admits (Transmitter.step n) Transmitter.Fresh ((Transmitter.initial 0).setPin pin) steps := by
  have hstart : ((Transmitter.initial 0).setPin pin).Driven := ⟨⟨rfl,rfl⟩,fun _ => rfl⟩
  refine always_iff_admits (fun s a h hok => ?_) (fun s h => ?_) (fun s a h hstale => ?_) hstart steps
  · exact h.step a hok
  · exact h.coveredOn
  · exact h.not_coveredOn hstale

/-- Two bytes buffered while interrupts are off, and then their interrupts. -/
private def bufferedPair : List TransmitStep :=
  [[.write 1], List.replicate 7 .program, [.write 2], List.replicate 7 .program, [.interrupt], List.replicate 5 .handler,
    [.shiftIn, .shiftOut, .handler, .handler, .interrupt], List.replicate 7 .handler].flatten

/-- The first byte leaves `TXC` set for the second. -/
theorem driver_drops :
    ¬ ∀ (n : BufferSize) (pin : Int16), 0 < pin → ∀ steps : List TransmitStep,
      Always (Transmitter.step n) Transmitter.Covered ((Transmitter.initial 0).setPin pin) steps := by
  intro h
  have hlast := (h serialBufferSize 4 (by decide) bufferedPair).last
  have hdriver := hlast (.inl (by decide))
  revert hdriver
  decide

end ArduinoAT90USB.Core
