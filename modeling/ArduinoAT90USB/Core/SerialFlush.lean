import ArduinoAT90USB.Core.SerialTransmit
import ArduinoAT90USB.Foundation.Runs

/-! `HardwareSerial::flush` waits for `TXC`. The handler blocks until its byte has been sent,
so the byte of a `write` can be on the line before that `write` clears `TXC`; nothing sets the
flag again, and the next `flush` waits for ever. -/
namespace ArduinoAT90USB.Core
open Foundation Foundation.Runs

namespace Transmitter

/-- Nothing is queued, on its way or being written. -/
structure Quiet (n : BufferSize) (s : Transmitter) : Prop where
  ring : s.txBuffer.contents n = []
  held : s.handler.held = []
  udr : s.udr = none
  shift : s.shift = none
  program : s.program.writing = false

/-- A quiet transmitter lets `flush` go. -/
structure FlushReady (n : BufferSize) (s : Transmitter) : Prop where
  complete : s.Quiet n → s.transmitting = false ∨ s.txc = true
  returns : s.Quiet n → s.handler = .off → s.program = .flushing → (s.step n .program).program = .flushed

/-- `write` is about to clear `TXC` although everything has been sent already. -/
structure ClearsLate (n : BufferSize) (s : Transmitter) (a : TransmitStep) : Prop where
  step : a = .program
  handler : s.handler = .off
  program : s.program = .clearing
  ring : s.txBuffer.contents n = []
  udr : s.udr = none
  shift : s.shift = none

end Transmitter

/-- The byte has been handed over and `TXC` not been cleared for it yet. -/
def ProgramPc.published : ProgramPc → Bool
  | .enabling | .marking | .clearing => true
  | _ => false

/-- Unless `flush` has been told that nothing was written, there is a byte left to be sent or
`TXC` says that the last one was. -/
structure Transmitter.Accounted (n : BufferSize) (s : Transmitter) : Prop where
  sound : s.Sound n
  marked : s.program = .clearing → s.transmitting = true
  complete : s.transmitting = true ∨ s.program.published = true → s.txc = true ∨ s.sent ≠ s.handed n

namespace Transmitter
variable {n : BufferSize} {s : Transmitter}

private theorem handed_eq (h : s.Sound n) :
    s.handed n = s.sent ++ (s.shift.toList ++ s.udr.toList ++ (s.handler.held ++ s.txBuffer.contents n)) := by
  rw [Transmitter.handed, h.wire]
  simp only [List.append_assoc]

theorem sent_eq_handed_iff (h : s.Sound n) : s.sent = s.handed n ↔
    s.txBuffer.contents n = [] ∧ s.handler.held = [] ∧ s.udr = none ∧ s.shift = none := by
  rw [handed_eq h, List.self_eq_append_right]
  simp only [List.append_eq_nil_iff, Option.toList_eq_nil_iff]
  tauto

private theorem sent_ne_push (h : s.Sound n) (c : UInt8) : s.sent ≠ s.handed n ++ [c] := by
  rw [handed_eq h, List.append_assoc]
  intro he
  cases List.append_eq_nil_iff.mp (List.self_eq_append_right.mp he) with
  | intro _ hc => cases hc

theorem initial_accounted (n : BufferSize) (pin : UInt8) : (initial pin).Accounted n where
  sound := initial_sound n pin
  marked := nofun
  complete := nofun

theorem Accounted.programStep (h : s.Accounted n) (hoff : s.handler = .off)
    (hclear : s.program = .clearing → s.sent ≠ s.handed n) : (s.programStep n).Accounted n := by
  have hs := h.sound.programStep hoff
  have hc := h.complete
  have hk := h.sound.program
  rw [Transmitter.programStep] at hs ⊢
  cases hpc : s.program with
  | idle => exact h
  | computing c =>
    rw [hpc] at hs
    exact ⟨hs,ProgramPc.noConfusion,fun ht => hc (.inl (ht.resolve_right Bool.false_ne_true))⟩
  | waiting c i =>
    rw [hpc] at hs
    dsimp only at hs ⊢
    split_ifs at hs ⊢
    · exact h
    · exact ⟨hs,ProgramPc.noConfusion,fun ht => hc (.inl (ht.resolve_right Bool.false_ne_true))⟩
  | storing c i =>
    rw [hpc] at hs
    refine ⟨hs,ProgramPc.noConfusion,fun ht => ?_⟩
    rw [Transmitter.handed, h.sound.bounded.contents_store]
    exact hc (.inl (ht.resolve_right Bool.false_ne_true))
  | publishing c i =>
    rw [hpc] at hs hk
    obtain ⟨⟨hi,hne⟩,-⟩ := hk
    refine ⟨hs,ProgramPc.noConfusion,fun _ => .inr ?_⟩
    rw [Transmitter.handed, h.sound.bounded.contents_publish hi hne, ← List.append_assoc, ← List.append_assoc,
      List.append_assoc s.loaded]
    exact sent_ne_push h.sound _
  | enabling =>
    rw [hpc] at hs
    exact ⟨hs,ProgramPc.noConfusion,fun _ => hc (.inr (by rw [hpc]; rfl))⟩
  | marking =>
    rw [hpc] at hs
    exact ⟨hs,fun _ => rfl,fun _ => hc (.inr (by rw [hpc]; rfl))⟩
  | clearing =>
    rw [hpc] at hs
    exact ⟨hs,ProgramPc.noConfusion,fun _ => .inr (hclear hpc)⟩
  | flushing =>
    rw [hpc] at hs
    dsimp only at hs ⊢
    split_ifs at hs ⊢
    · exact h
    · exact ⟨hs,ProgramPc.noConfusion,fun ht => hc (.inl (ht.resolve_right Bool.false_ne_true))⟩
  | flushed =>
    rw [hpc] at hs
    exact ⟨hs,ProgramPc.noConfusion,fun ht => absurd (ht.resolve_right Bool.false_ne_true) Bool.false_ne_true⟩

private theorem handlerStep_frame (n : BufferSize) (s : Transmitter) :
    (s.handlerStep n).program = s.program ∧ (s.handlerStep n).transmitting = s.transmitting ∧
      (s.handlerStep n).txc = s.txc ∧ (s.handlerStep n).sent = s.sent := by
  rw [Transmitter.handlerStep]
  split <;> try split_ifs
  all_goals exact ⟨rfl,rfl,rfl,rfl⟩

theorem Accounted.handlerStep (h : s.Accounted n) : (s.handlerStep n).Accounted n := by
  obtain ⟨hprogram,htransmitting,htxc,hsent⟩ := handlerStep_frame n s
  refine ⟨h.sound.handlerStep,?_,?_⟩
  · rw [hprogram, htransmitting]
    exact h.marked
  · rw [hprogram, htransmitting, htxc, hsent, handed_handlerStep h.sound]
    exact h.complete

/-- Every step keeps the account, except a clearing of `TXC` that comes too late. -/
theorem Accounted.step (h : s.Accounted n) (a : TransmitStep) (hlate : ¬ s.ClearsLate n a) :
    (s.step n a).Accounted n := by
  have hs := (h.sound.step a).1
  cases a with
  | write c =>
    rw [Transmitter.step] at hs ⊢
    split at hs
    · exact ⟨hs,ProgramPc.noConfusion,fun ht => h.complete (.inl (ht.resolve_right Bool.false_ne_true))⟩
    · exact h
  | flush =>
    rw [Transmitter.step] at hs ⊢
    split at hs
    · exact ⟨hs,ProgramPc.noConfusion,fun ht => h.complete (.inl (ht.resolve_right Bool.false_ne_true))⟩
    · exact h
  | program =>
    rw [Transmitter.step]
    split
    · rename_i hoff
      refine h.programStep hoff fun hpc he => hlate ?_
      obtain ⟨hring,-,hudr,hshift⟩ := (sent_eq_handed_iff h.sound).mp he
      exact ⟨rfl,hoff,hpc,hring,hudr,hshift⟩
    · exact h
  | interrupt =>
    rw [Transmitter.step] at hs ⊢
    split at hs
    · rename_i hoff _ _
      refine ⟨hs,h.marked,fun ht => ?_⟩
      have hc := h.complete ht
      rw [Transmitter.handed, hoff] at hc
      exact hc
    · exact h
  | handler => exact h.handlerStep
  | shiftIn =>
    rw [Transmitter.step] at hs ⊢
    split at hs
    · exact ⟨hs,h.marked,h.complete⟩
    · exact h
  | shiftOut =>
    rw [Transmitter.step] at hs ⊢
    split at hs
    · refine ⟨hs,h.marked,fun _ => ?_⟩
      cases hudr : s.udr with
      | none => exact .inl (Bool.or_true _)
      | some d =>
        refine .inr fun he => ?_
        have hempty := ((sent_eq_handed_iff hs).mp he).2.2.1
        rw [hudr] at hempty
        cases hempty
    · exact h

theorem Accounted.flushReady (h : s.Accounted n) : s.FlushReady n := by
  have hready (hq : s.Quiet n) : s.transmitting = false ∨ s.txc = true := by
    cases ht : s.transmitting with
    | false => exact .inl rfl
    | true =>
      have hsent := (sent_eq_handed_iff h.sound).mpr ⟨hq.ring,hq.held,hq.udr,hq.shift⟩
      exact .inr ((h.complete (.inl ht)).resolve_right fun hne => hne hsent)
  refine ⟨hready,fun hq hoff hpc => ?_⟩
  have hwait : (s.transmitting && !s.txc) = false := by
    rcases hready hq with ht | ht <;> simp [ht]
  simp [Transmitter.step, Transmitter.programStep, hoff, hpc, hwait]

theorem Accounted.not_flushReady {a : TransmitStep} (h : s.Accounted n) (hlate : s.ClearsLate n a) :
    ¬ (s.step n a).FlushReady n := by
  obtain ⟨rfl,hoff,hpc,hring,hudr,hshift⟩ := hlate
  have ht := h.marked hpc
  intro hready
  simp only [Transmitter.step, Transmitter.programStep, hoff, hpc] at hready
  rcases hready.complete ⟨hring,rfl,hudr,hshift,rfl⟩ with hf | hf
  · rw [ht] at hf
    cases hf
  · cases hf

/-- `flush` waits for a flag that nothing will set. -/
structure Stalled (n : BufferSize) (s : Transmitter) : Prop where
  program : s.program = .flushing
  transmitting : s.transmitting = true
  txc : s.txc = false
  empty : s.txBuffer.head = s.txBuffer.tail
  udr : s.udr = none
  shift : s.shift = none
  handler : s.handler = .off ∨ s.handler = .testing ∨ s.handler = .disabling

theorem Stalled.step (h : s.Stalled n) (a : TransmitStep) : (s.step n a).Stalled n := by
  obtain ⟨hpc,ht,htxc,hempty,hudr,hshift,hh⟩ := h
  have hsame : s.Stalled n := ⟨hpc,ht,htxc,hempty,hudr,hshift,hh⟩
  cases a with
  | write c => simpa [Transmitter.step, hpc] using hsame
  | flush => simpa [Transmitter.step, hpc] using hsame
  | program =>
    rw [Transmitter.step]
    split
    · simpa [Transmitter.programStep, hpc, ht, htxc] using hsame
    · exact hsame
  | interrupt =>
    rw [Transmitter.step]
    split
    · exact ⟨hpc,ht,htxc,hempty,hudr,hshift,.inr (.inl rfl)⟩
    · exact hsame
  | handler =>
    rw [Transmitter.step, Transmitter.handlerStep]
    rcases hh with hh | hh | hh <;> rw [hh]
    · exact hsame
    · dsimp only
      rw [if_pos hempty]
      exact ⟨hpc,ht,htxc,hempty,hudr,hshift,.inr (.inr rfl)⟩
    · exact ⟨hpc,ht,htxc,hempty,hudr,hshift,.inl rfl⟩
  | shiftIn => simpa [Transmitter.step, hudr] using hsame
  | shiftOut => simpa [Transmitter.step, hshift] using hsame

/-- A `flush` that is called after a late clear never returns, whatever happens. -/
theorem ClearsLate.flush_hangs {a : TransmitStep} (h : s.Accounted n) (hlate : s.ClearsLate n a)
    (steps : List TransmitStep) : (s.run n (a :: .flush :: steps)).program = .flushing := by
  obtain ⟨rfl,hoff,hpc,hring,hudr,hshift⟩ := hlate
  have hempty := h.sound.bounded.contents_nil_iff.mp hring
  have hstalled : ((s.step n .program).step n .flush).Stalled n := by
    simp only [Transmitter.step, Transmitter.programStep, hoff, hpc]
    exact ⟨rfl,h.marked hpc,rfl,hempty,hudr,hshift,.inl rfl⟩
  have hrun (t : Transmitter) (ht : t.Stalled n) : (t.run n steps).Stalled n := by
    induction steps generalizing t with
    | nil => exact ht
    | cons b rest ih => exact ih _ (ht.step b)
  exact (hrun _ hstalled).program

end Transmitter

/-- In every state of a run `flush` can return once all is sent, exactly if no `write` clears
`TXC` after its byte has gone out. -/
theorem flush_ready (n : BufferSize) (pin : UInt8) (steps : List TransmitStep) :
    Always (Transmitter.step n) (Transmitter.FlushReady n) (.initial pin) steps ↔
      Admits (Transmitter.step n) (fun s a => ¬ s.ClearsLate n a) (.initial pin) steps := by
  refine always_iff_admits (I := Transmitter.Accounted n) (fun s a h => h.step a) (fun s h => h.flushReady) ?_
    (Transmitter.initial_accounted n pin) steps
  intro s a h hlate
  exact h.not_flushReady (Classical.not_not.mp hlate)

/-- One byte, with the interrupt taken as soon as `write` enables it. -/
theorem flush_not_ready :
    ¬ ∀ (n : BufferSize) (pin : UInt8) (steps : List TransmitStep),
      Always (Transmitter.step n) (Transmitter.FlushReady n) (.initial pin) steps := by
  intro h
  have hlast := (h serialBufferSize 0 [[.write 1], List.replicate 5 .program, [.interrupt], List.replicate 5 .handler,
    [.shiftIn, .shiftOut, .handler, .handler, .program, .program]].flatten).last
  have hready := hlast.complete ⟨by decide,by decide,by decide,by decide,by decide⟩
  revert hready
  decide

end ArduinoAT90USB.Core
