import ArduinoAT90USB.Core.RingBuffer
import ArduinoAT90USB.Foundation.Runs

/-! The transmit path of `HardwareSerial.cpp`: `write` and `flush`, the data register empty
interrupt with its RS485 driver pin, and the USART that takes bytes from `UDR1`. The program
stands still while the handler runs; the USART does not. -/
namespace ArduinoAT90USB.Core
open Foundation Foundation.Runs

/-- Where the program is inside `write` or `flush`. -/
inductive ProgramPc
  | idle
  | computing (c : UInt8)
  | waiting (c i : UInt8)
  | storing (c i : UInt8)
  | publishing (c i : UInt8)
  | enabling
  | marking
  | clearing
  | flushing
  | flushed

/-- Where the handler of `USART1_UDRE_vect` is. -/
inductive HandlerPc
  | off
  | testing
  | disabling
  | raising
  | taking
  | advancing (c : UInt8)
  | loading (c : UInt8)
  | draining
  | lowering

/-- The transmit side, with the bytes passed to `write`, stored to `UDR1` and shifted out. -/
structure Transmitter where
  txBuffer : RingBuffer
  udrie : Bool
  transmitting : Bool
  txc : Bool
  udr : Option UInt8
  shift : Option UInt8
  pin : UInt8
  driver : Bool
  program : ProgramPc
  handler : HandlerPc
  written : List UInt8
  loaded : List UInt8
  sent : List UInt8

inductive TransmitStep
  | write (c : UInt8)
  | flush
  | program
  | interrupt
  | handler
  | shiftIn
  | shiftOut

/-- Steps that need nothing of the program. -/
def TransmitStep.unattended : TransmitStep → Bool
  | .interrupt | .handler | .shiftIn | .shiftOut => true
  | .write _ | .flush | .program => false

/-- Steps that carry on what has been called. -/
def TransmitStep.carriesOn : TransmitStep → Bool
  | .program | .interrupt | .handler | .shiftIn | .shiftOut => true
  | .write _ | .flush => false

theorem TransmitStep.carriesOn_of_unattended {a : TransmitStep} (h : a.unattended = true) : a.carriesOn = true := by
  cases a <;> first | rfl | cases h

namespace Transmitter

/-- The state `begin` leaves, with the pin that `setPin` chose. -/
def initial (pin : UInt8) : Transmitter :=
  ⟨.empty,false,false,false,none,none,pin,false,.idle,.off,[],[],[]⟩

/-- The next step of `write` or `flush`. A one written to `TXC` clears it. -/
def programStep (n : BufferSize) (s : Transmitter) : Transmitter := match s.program with
  | .idle => s
  | .computing c => {s with program := .waiting c (intNext n s.txBuffer.head)}
  | .waiting c i => if i = s.txBuffer.tail then s else {s with program := .storing c i}
  | .storing c i => {s with txBuffer := s.txBuffer.store c, program := .publishing c i}
  | .publishing _ i => {s with txBuffer := {s.txBuffer with head := i}, program := .enabling}
  | .enabling => {s with udrie := true, program := .marking}
  | .marking => {s with transmitting := true, program := .clearing}
  | .clearing => {s with txc := false, program := .idle}
  | .flushing => if s.transmitting && !s.txc then s else {s with program := .flushed}
  | .flushed => {s with transmitting := false, program := .idle}

/-- The next step of the handler. The USART ignores a store to a full `UDR1`. -/
def handlerStep (n : BufferSize) (s : Transmitter) : Transmitter := match s.handler with
  | .off => s
  | .testing => if s.txBuffer.head = s.txBuffer.tail then {s with handler := .disabling} else {s with handler := .raising}
  | .disabling => {s with udrie := false, handler := .off}
  | .raising => {s with driver := if s.pin > 0 then true else s.driver, handler := .taking}
  | .taking => {s with handler := .advancing (s.txBuffer.buffer s.txBuffer.tail.toNat)}
  | .advancing c => {s with txBuffer := {s.txBuffer with tail := intNext n s.txBuffer.tail}, handler := .loading c}
  | .loading c => {s with udr := s.udr.or (some c), loaded := s.loaded ++ [c], handler := .draining}
  | .draining => if s.txc then {s with handler := .lowering} else s
  | .lowering => {s with driver := if s.pin > 0 then false else s.driver, handler := .off}

def step (n : BufferSize) (s : Transmitter) : TransmitStep → Transmitter
  | .write c => match s.program, s.handler with
    | .idle, .off => {s with program := .computing c, written := s.written ++ [c]}
    | _, _ => s
  | .flush => match s.program, s.handler with
    | .idle, .off => {s with program := .flushing}
    | _, _ => s
  | .program => match s.handler with
    | .off => s.programStep n
    | _ => s
  | .interrupt => match s.handler, s.udrie, s.udr with
    | .off, true, none => {s with handler := .testing}
    | _, _, _ => s
  | .handler => s.handlerStep n
  | .shiftIn => match s.udr, s.shift with
    | some c, none => {s with udr := none, shift := some c}
    | _, _ => s
  -- transmission is complete when no further byte waits in the data register
  | .shiftOut => match s.shift with
    | some c => {s with shift := none, sent := s.sent ++ [c], txc := s.txc || s.udr.isNone}
    | none => s

def run (n : BufferSize) (s : Transmitter) : List TransmitStep → Transmitter
  | [] => s
  | a :: rest => (s.step n a).run n rest

end Transmitter

/-- The byte that `write` has not handed over yet. -/
def ProgramPc.pending : ProgramPc → List UInt8
  | .computing c | .waiting c _ | .storing c _ | .publishing c _ => [c]
  | _ => []

def ProgramPc.writing : ProgramPc → Bool
  | .idle | .flushing | .flushed => false
  | _ => true

/-- The byte that is out of the buffer but not in `UDR1`. -/
def HandlerPc.held : HandlerPc → List UInt8
  | .loading c => [c]
  | _ => []

/-- The bytes `write` has handed over so far. -/
def Transmitter.handed (n : BufferSize) (s : Transmitter) : List UInt8 :=
  s.loaded ++ (s.handler.held ++ s.txBuffer.contents n)

/-- What the program knows of the buffer at each point. -/
def ProgramPc.Knows (n : BufferSize) (b : RingBuffer) : ProgramPc → Prop
  | .waiting _ i => i.toNat = Ring.next n.size b.head.toNat
  | .storing _ i => i.toNat = Ring.next n.size b.head.toNat ∧ i ≠ b.tail
  | .publishing c i => (i.toNat = Ring.next n.size b.head.toNat ∧ i ≠ b.tail) ∧ b.buffer b.head.toNat = c
  | _ => True

/-- What the handler knows at each point; in particular its wait for `TXC` will end. -/
def HandlerPc.Knows (s : Transmitter) : HandlerPc → Prop
  | .off | .lowering => True
  | .testing | .loading _ => s.udr = none
  | .disabling => s.txBuffer.head = s.txBuffer.tail
  | .raising | .taking => s.udr = none ∧ s.txBuffer.head ≠ s.txBuffer.tail
  | .advancing c => (s.udr = none ∧ s.txBuffer.head ≠ s.txBuffer.tail) ∧ s.txBuffer.buffer s.txBuffer.tail.toNat = c
  | .draining => s.txc = true ∨ s.udr ≠ none ∨ s.shift ≠ none

/-- Every written byte is in one place, and nothing is queued with the interrupt off except
just before `write` turns it on. -/
structure Transmitter.Sound (n : BufferSize) (s : Transmitter) : Prop where
  bounded : s.txBuffer.Bounded n
  account : s.written = s.handed n ++ s.program.pending
  wire : s.loaded = s.sent ++ (s.shift.toList ++ s.udr.toList)
  program : s.program.Knows n s.txBuffer
  handler : s.handler.Knows s
  awake : s.program ≠ .enabling → s.txBuffer.head ≠ s.txBuffer.tail → s.udrie = true

section Steps
variable {n : BufferSize} {s : Transmitter} {b : RingBuffer}

/-- The handler frees room and leaves the head alone, so what `write` found out stays true. -/
private theorem knows_release {pc : ProgramPc} (h : b.Bounded n) (hne : b.head ≠ b.tail) (hk : pc.Knows n b) :
    pc.Knows n {b with tail := intNext n b.tail} := by
  have ht := intNext_toNat h.tail
  have hpop := congrArg List.length (h.contents_release ht hne)
  have hlt := h.contents_length_lt
  -- the ring is one byte shorter now, so the next head cannot have reached the tail
  have hroom : ∀ i : UInt8, i.toNat = Ring.next n.size b.head.toNat → i ≠ intNext n b.tail := by
    intro i hi he
    have hfull := ((h.release ht).full_iff hi).mp he
    rw [List.length_cons] at hpop
    omega
  cases pc with
  | storing c i => exact ⟨hk.1,hroom i hk.1⟩
  | publishing c i => exact ⟨⟨hk.1.1,hroom i hk.1.1⟩,hk.2⟩
  | _ => exact hk

theorem handed_handlerStep (h : s.Sound n) : (s.handlerStep n).handed n = s.handed n := by
  have hk := h.handler
  rw [Transmitter.handlerStep]
  cases hpc : s.handler with
  | testing =>
    dsimp only
    split_ifs <;> simp [Transmitter.handed, hpc, HandlerPc.held]
  | advancing c =>
    rw [hpc] at hk
    obtain ⟨⟨-,hne⟩,rfl⟩ := hk
    have hpop := h.bounded.contents_release (intNext_toNat h.bounded.tail) hne
    simp [Transmitter.handed, hpc, HandlerPc.held, hpop]
  | loading c => simp [Transmitter.handed, hpc, HandlerPc.held]
  | draining =>
    dsimp only
    split_ifs <;> simp [Transmitter.handed, hpc, HandlerPc.held]
  | _ => simp [Transmitter.handed, hpc, HandlerPc.held]

/-- Publishing the head hands the pending byte over; no other step of `write` does. -/
theorem handed_programStep (h : s.Sound n) :
    ((s.programStep n).handed n = s.handed n ∧ (s.programStep n).program.pending = s.program.pending) ∨
      ((s.programStep n).handed n = s.handed n ++ s.program.pending ∧ (s.programStep n).program.pending = []) := by
  have hk := h.program
  rw [Transmitter.programStep]
  cases hpc : s.program with
  | waiting c i =>
    left
    dsimp only
    split_ifs <;> simp [Transmitter.handed, hpc, ProgramPc.pending]
  | storing c i =>
    left
    simp [Transmitter.handed, ProgramPc.pending, h.bounded.contents_store]
  | publishing c i =>
    right
    rw [hpc] at hk
    obtain ⟨⟨hi,hne⟩,rfl⟩ := hk
    simp [Transmitter.handed, ProgramPc.pending, h.bounded.contents_publish hi hne]
  | flushing =>
    left
    dsimp only
    split_ifs <;> simp [Transmitter.handed, hpc, ProgramPc.pending]
  | _ =>
    left
    simp [Transmitter.handed, hpc, ProgramPc.pending]

theorem Transmitter.initial_sound (n : BufferSize) (pin : UInt8) : (Transmitter.initial pin).Sound n where
  bounded := RingBuffer.empty_bounded n
  account := by
    change [] = [] ++ ([] ++ RingBuffer.empty.contents n) ++ []
    rw [RingBuffer.contents_empty]
    rfl
  wire := rfl
  program := trivial
  handler := trivial
  awake := fun _ h => absurd rfl h

private theorem knows_off (h : s.handler = .off) : s.handler.Knows s := by
  rw [h]
  trivial

private theorem sound_program {pc : ProgramPc} {t x : Bool} (h : s.Sound n) (hoff : s.handler = .off)
    (hp : s.program ≠ .enabling) (hpending : pc.pending = s.program.pending) (hk : pc.Knows n s.txBuffer) :
    ({s with program := pc, transmitting := t, txc := x} : Transmitter).Sound n := by
  refine ⟨h.bounded,?_,h.wire,hk,knows_off hoff,fun _ => h.awake hp⟩
  have hacc := h.account
  rw [← hpending] at hacc
  exact hacc

private theorem sound_handler {pc : HandlerPc} {d : Bool} (h : s.Sound n) (hheld : pc.held = s.handler.held)
    (hk : pc.Knows {s with handler := pc, driver := d}) :
    ({s with handler := pc, driver := d} : Transmitter).Sound n := by
  refine ⟨h.bounded,?_,h.wire,h.program,hk,h.awake⟩
  have hacc := h.account
  rw [Transmitter.handed, ← hheld] at hacc
  exact hacc

theorem Transmitter.Sound.programStep (h : s.Sound n) (hoff : s.handler = .off) : (s.programStep n).Sound n := by
  have hacc : (s.programStep n).handed n ++ (s.programStep n).program.pending = s.written := by
    rw [h.account]
    rcases handed_programStep h with ⟨hh,hp⟩ | ⟨hh,hp⟩
    · rw [hh, hp]
    · rw [hh, hp, List.append_nil]
  have hk := h.program
  rw [Transmitter.programStep] at hacc ⊢
  cases hpc : s.program with
  | idle => exact h
  | computing c =>
    refine sound_program h hoff ?_ ?_ (intNext_toNat h.bounded.head) <;> rw [hpc]
    · nofun
    · rfl
  | waiting c i =>
    rw [hpc] at hk
    dsimp only
    split_ifs with hfull
    · exact h
    · refine sound_program h hoff ?_ ?_ ⟨hk,hfull⟩ <;> rw [hpc]
      · nofun
      · rfl
  | storing c i =>
    have hon := h.awake (by rw [hpc]; nofun)
    rw [hpc] at hacc hk
    have hcell : (s.txBuffer.store c).buffer s.txBuffer.head.toNat = c := Function.update_self ..
    exact ⟨⟨h.bounded.head,h.bounded.tail⟩,hacc.symm,h.wire,⟨hk,hcell⟩,knows_off hoff,fun _ => hon⟩
  -- the one point where a byte may be queued with the interrupt off
  | publishing c i =>
    rw [hpc] at hacc hk
    exact ⟨h.bounded.publish hk.1.1,hacc.symm,h.wire,trivial,knows_off hoff,fun he => absurd rfl he⟩
  | enabling =>
    rw [hpc] at hacc
    exact ⟨h.bounded,hacc.symm,h.wire,trivial,knows_off hoff,fun _ _ => rfl⟩
  | flushing =>
    dsimp only
    split_ifs
    · exact h
    · refine sound_program h hoff ?_ ?_ trivial <;> rw [hpc]
      · nofun
      · rfl
  | marking | clearing | flushed =>
    refine sound_program h hoff ?_ ?_ trivial <;> rw [hpc]
    · nofun
    · rfl

theorem Transmitter.Sound.handlerStep (h : s.Sound n) : (s.handlerStep n).Sound n := by
  have hacc : s.written = (s.handlerStep n).handed n ++ s.program.pending := by
    rw [handed_handlerStep h]
    exact h.account
  have hk := h.handler
  rw [Transmitter.handlerStep] at hacc ⊢
  cases hpc : s.handler with
  | off => exact h
  | testing =>
    rw [hpc] at hk
    dsimp only
    split_ifs with hempty
    · exact sound_handler h (by rw [hpc]; rfl) hempty
    · exact sound_handler h (by rw [hpc]; rfl) ⟨hk,hempty⟩
  | disabling =>
    rw [hpc] at hacc hk
    exact ⟨h.bounded,hacc,h.wire,h.program,trivial,fun _ hne => absurd hk hne⟩
  | raising =>
    rw [hpc] at hk
    exact sound_handler h (by rw [hpc]; rfl) hk
  | taking =>
    rw [hpc] at hk
    exact sound_handler h (by rw [hpc]; rfl) ⟨hk,rfl⟩
  | advancing c =>
    rw [hpc] at hacc hk
    obtain ⟨⟨hudr,hne⟩,-⟩ := hk
    exact ⟨h.bounded.release (intNext_toNat h.bounded.tail),hacc,h.wire,knows_release h.bounded hne h.program,hudr,
      fun hp _ => h.awake hp hne⟩
  | loading c =>
    rw [hpc] at hacc hk
    change s.udr = none at hk
    refine ⟨h.bounded,hacc,?_,h.program,.inr (.inl ?_),h.awake⟩
    · simp [h.wire, hk]
    · simp [hk]
  | draining =>
    dsimp only
    split_ifs
    · exact sound_handler h (by rw [hpc]; rfl) trivial
    · exact h
  | lowering => exact sound_handler h (by rw [hpc]; rfl) trivial

private theorem knows_shiftIn (pc : HandlerPc) (h : pc.Knows s) (c : UInt8) :
    pc.Knows {s with udr := none, shift := some c} := by
  cases pc with
  | testing => exact rfl
  | raising => exact ⟨rfl,h.2⟩
  | taking => exact ⟨rfl,h.2⟩
  | advancing c => exact ⟨⟨rfl,h.1.2⟩,h.2⟩
  | loading c => exact rfl
  | draining => exact .inr (.inr nofun)
  | _ => exact h

private theorem knows_shiftOut (pc : HandlerPc) (h : pc.Knows s) (c : UInt8) :
    pc.Knows {s with shift := none, sent := s.sent ++ [c], txc := s.txc || s.udr.isNone} := by
  cases pc with
  | draining =>
    cases hudr : s.udr with
    | none => exact .inl (Bool.or_true _)
    | some d => exact .inr (.inl nofun)
  | _ => exact h

/-- One step keeps the invariant, and takes back nothing that `write` has handed over. -/
theorem Transmitter.Sound.step (h : s.Sound n) (a : TransmitStep) :
    (s.step n a).Sound n ∧ s.handed n <+: (s.step n a).handed n := by
  cases a with
  | write c =>
    rw [Transmitter.step]
    split
    · rename_i hpc hoff
      have hon := h.awake (by rw [hpc]; nofun)
      have hacc := h.account
      rw [hpc] at hacc
      refine ⟨⟨h.bounded,?_,h.wire,trivial,knows_off hoff,fun _ => hon⟩,List.prefix_rfl⟩
      exact congrArg (· ++ [c]) (hacc.trans (List.append_nil _))
    · exact ⟨h,List.prefix_rfl⟩
  | flush =>
    rw [Transmitter.step]
    split
    · rename_i hpc hoff
      refine ⟨sound_program h hoff ?_ ?_ trivial,List.prefix_rfl⟩ <;> rw [hpc]
      · nofun
      · rfl
    · exact ⟨h,List.prefix_rfl⟩
  | program =>
    rw [Transmitter.step]
    split
    · rename_i hoff
      refine ⟨h.programStep hoff,?_⟩
      rcases handed_programStep h with ⟨hh,-⟩ | ⟨hh,-⟩
      · exact hh ▸ List.prefix_rfl
      · exact hh ▸ List.prefix_append _ _
    · exact ⟨h,List.prefix_rfl⟩
  | interrupt =>
    rw [Transmitter.step]
    split
    · rename_i hoff _ hudr
      have hheld : HandlerPc.testing.held = s.handler.held := by rw [hoff]; rfl
      refine ⟨sound_handler h hheld hudr,?_⟩
      rw [Transmitter.handed, ← hheld]
      exact List.prefix_rfl
    · exact ⟨h,List.prefix_rfl⟩
  | handler => exact ⟨h.handlerStep,(handed_handlerStep h).symm ▸ List.prefix_rfl⟩
  | shiftIn =>
    rw [Transmitter.step]
    split
    · rename_i c hudr hshift
      have hwire := h.wire
      rw [hudr, hshift] at hwire
      exact ⟨⟨h.bounded,h.account,hwire,h.program,knows_shiftIn s.handler h.handler c,h.awake⟩,List.prefix_rfl⟩
    · exact ⟨h,List.prefix_rfl⟩
  | shiftOut =>
    rw [Transmitter.step]
    split
    · rename_i c hshift
      have hwire := h.wire
      rw [hshift] at hwire
      refine ⟨⟨h.bounded,h.account,?_,h.program,knows_shiftOut s.handler h.handler c,h.awake⟩,List.prefix_rfl⟩
      simpa using hwire
    · exact ⟨h,List.prefix_rfl⟩

theorem Transmitter.Sound.run (h : s.Sound n) (steps : List TransmitStep) : (s.run n steps).Sound n := by
  induction steps generalizing s with
  | nil => exact h
  | cons a rest ih => exact ih (h.step a).1

end Steps

/-- How many steps the handler has before it could take the next byte. -/
def HandlerPc.rank (udrie : Bool) : HandlerPc → Nat
  | .loading _ => 10
  | .draining => 6
  | .lowering => 5
  | .off => if udrie then 4 else 0
  | .testing => 3
  | .raising => 2
  | .taking | .disabling => 1
  | .advancing _ => 0

/-- How many steps the program has to its return. -/
def ProgramPc.rank : ProgramPc → Nat
  | .computing _ => 7
  | .waiting _ _ => 6
  | .storing _ _ => 5
  | .publishing _ _ => 4
  | .enabling => 3
  | .marking | .flushing => 2
  | .clearing | .flushed => 1
  | .idle => 0

/-- A bound on the steps until everything is sent. -/
def Transmitter.work (n : BufferSize) (s : Transmitter) : Nat :=
  32 * s.program.rank + 16 * (s.txBuffer.contents n).length + s.handler.rank s.udrie + 2 * s.udr.toList.length +
    s.shift.toList.length

section Finish
variable {n : BufferSize} {s : Transmitter}

private theorem rank_off (udrie : Bool) : (if udrie = true then 4 else 0) < 5 := by
  cases udrie <;> decide

private theorem step_unattended {a : TransmitStep} (ha : a.unattended = true) :
    (s.step n a).program = s.program ∧ (s.step n a).written = s.written := by
  cases a with
  | interrupt =>
    rw [Transmitter.step]
    split <;> exact ⟨rfl,rfl⟩
  | handler =>
    rw [Transmitter.step, Transmitter.handlerStep]
    split <;> try split_ifs
    all_goals exact ⟨rfl,rfl⟩
  | shiftIn =>
    rw [Transmitter.step]
    split <;> exact ⟨rfl,rfl⟩
  | shiftOut =>
    rw [Transmitter.step]
    split <;> exact ⟨rfl,rfl⟩
  | write c => cases ha
  | flush => cases ha
  | program => cases ha

private theorem sent_of_done (h : s.Sound n) (hquiet : s.program.writing = false) (hshift : s.shift = none)
    (hudr : s.udr = none) (hempty : s.txBuffer.head = s.txBuffer.tail) (hheld : s.handler.held = []) :
    s.sent = s.written := by
  have hpending : s.program.pending = [] := by
    cases hpc : s.program <;> rw [hpc] at hquiet <;> first | rfl | cases hquiet
  have hwire := h.wire
  rw [hshift, hudr] at hwire
  rw [h.account, Transmitter.handed, h.bounded.contents_nil_iff.mpr hempty, hheld, hpending, hwire]
  simp

/-- A byte is published at the expense of two steps of the program. -/
private theorem programStep_falls (h : s.Sound n) : s.programStep n = s ∨ (s.programStep n).work n < s.work n := by
  have hk := h.program
  rw [Transmitter.programStep]
  cases hpc : s.program with
  | idle => exact .inl rfl
  | waiting c i =>
    dsimp only
    split_ifs
    · exact .inl rfl
    · exact .inr (by simp [Transmitter.work, ProgramPc.rank, hpc])
  | storing c i => exact .inr (by simp [Transmitter.work, ProgramPc.rank, hpc, h.bounded.contents_store])
  | publishing c i =>
    rw [hpc] at hk
    obtain ⟨⟨hi,hne⟩,-⟩ := hk
    right
    simp only [Transmitter.work, ProgramPc.rank, hpc, h.bounded.contents_publish hi hne, List.length_append, List.length_singleton]
    omega
  | enabling =>
    right
    have hrank : s.handler.rank true ≤ s.handler.rank s.udrie + 4 := by
      cases s.handler <;> simp [HandlerPc.rank]
    simp only [Transmitter.work, ProgramPc.rank, hpc]
    omega
  | flushing =>
    dsimp only
    split_ifs
    · exact .inl rfl
    · exact .inr (by simp [Transmitter.work, ProgramPc.rank, hpc])
  | _ => exact .inr (by simp [Transmitter.work, ProgramPc.rank, hpc])

private theorem handlerStep_falls (h : s.Sound n) : s.handlerStep n = s ∨ (s.handlerStep n).work n < s.work n := by
  have hk := h.handler
  rw [Transmitter.handlerStep]
  cases hpc : s.handler with
  | off => exact .inl rfl
  | testing =>
    dsimp only
    split_ifs <;> exact .inr (by simp [Transmitter.work, HandlerPc.rank, hpc])
  | advancing c =>
    rw [hpc] at hk
    have hpop := congrArg List.length (h.bounded.contents_release (intNext_toNat h.bounded.tail) hk.1.2)
    rw [List.length_cons] at hpop
    right
    simp only [Transmitter.work, hpc, HandlerPc.rank]
    omega
  | loading c =>
    rw [hpc] at hk
    change s.udr = none at hk
    exact .inr (by simp [Transmitter.work, HandlerPc.rank, hpc, hk])
  | draining =>
    dsimp only
    split_ifs
    · exact .inr (by simp [Transmitter.work, HandlerPc.rank, hpc])
    · exact .inl rfl
  | lowering =>
    right
    simp only [Transmitter.work, HandlerPc.rank, hpc]
    have := rank_off s.udrie
    omega
  | _ => exact .inr (by simp [Transmitter.work, HandlerPc.rank, hpc])

theorem Transmitter.Sound.falls (h : s.Sound n) {a : TransmitStep} (ha : a.carriesOn = true) :
    s.step n a = s ∨ (s.step n a).work n < s.work n := by
  cases a with
  | write c => cases ha
  | flush => cases ha
  | program =>
    rw [Transmitter.step]
    split
    · exact programStep_falls h
    · exact .inl rfl
  | interrupt =>
    rw [Transmitter.step]
    split
    · rename_i hoff hon _
      exact .inr (by simp [Transmitter.work, HandlerPc.rank, hoff, hon])
    · exact .inl rfl
  | handler => exact handlerStep_falls h
  | shiftIn =>
    rw [Transmitter.step]
    split
    · rename_i c hudr hshift
      exact .inr (by simp [Transmitter.work, hudr, hshift])
    · exact .inl rfl
  | shiftOut =>
    rw [Transmitter.step]
    split
    · rename_i c hshift
      exact .inr (by simp [Transmitter.work, hshift])
    · exact .inl rfl

private theorem handler_moves (h : s.Sound n) (hentered : s.handler ≠ .off) (hshift : s.shift = none) (hudr : s.udr = none) :
    s.handlerStep n ≠ s := by
  have hk := h.handler
  intro hstill
  have hpc := congrArg Transmitter.handler hstill
  rw [Transmitter.handlerStep] at hpc
  cases hpc' : s.handler with
  | off => exact hentered hpc'
  | testing =>
    rw [hpc'] at hpc
    dsimp only at hpc
    split_ifs at hpc
  | draining =>
    rw [hpc'] at hk hpc
    have htxc : s.txc = true := by simpa [HandlerPc.Knows, hudr, hshift] using hk
    dsimp only at hpc
    rw [if_pos htxc] at hpc
    cases hpc
  | _ =>
    rw [hpc'] at hpc
    cases hpc

/-- A write that cannot go on waits for room in a ring that holds bytes. -/
private theorem program_moves (h : s.Sound n) (hwriting : s.program.writing = true) :
    s.programStep n ≠ s ∨ s.program ≠ .enabling ∧ s.txBuffer.head ≠ s.txBuffer.tail := by
  have hk := h.program
  by_cases hstill : s.programStep n = s
  · have hpc := congrArg Transmitter.program hstill
    rw [Transmitter.programStep] at hpc
    cases hpc' : s.program with
    | idle | flushing | flushed =>
      rw [hpc'] at hwriting
      cases hwriting
    | waiting c i =>
      rw [hpc'] at hk hpc
      dsimp only at hpc
      split_ifs at hpc with htail
      refine .inr ⟨fun he => ProgramPc.noConfusion he,?_⟩
      have hfull := (h.bounded.full_iff hk).mp htail
      intro hempty
      rw [h.bounded.contents_nil_iff.mpr hempty, List.length_nil] at hfull
      have := n.low
      omega
    | _ =>
      rw [hpc'] at hpc
      cases hpc
  · exact .inl hstill

private theorem interrupt_moves (hoff : s.handler = .off) (hon : s.udrie = true) (hudr : s.udr = none) :
    s.step n .interrupt ≠ s := by
  intro hstill
  have hpc := congrArg Transmitter.handler hstill
  simp [Transmitter.step, hoff, hon, hudr] at hpc

def Transmitter.Finished (s : Transmitter) : Prop := s.program.writing = false ∧ s.sent = s.written

/-- Something moves on, without the program if no write is in progress. -/
theorem Transmitter.Sound.moves (h : s.Sound n) (hleft : ¬ s.Finished) : ∃ a, TransmitStep.carriesOn a = true ∧
    s.step n a ≠ s ∧ (s.program.writing = false → a.unattended = true) := by
  cases hshift : s.shift with
  | some c =>
    refine ⟨.shiftOut,rfl,fun hstill => ?_,fun _ => rfl⟩
    have := congrArg Transmitter.shift hstill
    simp [Transmitter.step, hshift] at this
  | none =>
    cases hudr : s.udr with
    | some c =>
      refine ⟨.shiftIn,rfl,fun hstill => ?_,fun _ => rfl⟩
      have := congrArg Transmitter.shift hstill
      simp [Transmitter.step, hudr, hshift] at this
    | none =>
      by_cases hoff : s.handler = .off
      · have hqueued : s.program ≠ .enabling → s.txBuffer.head ≠ s.txBuffer.tail → s.step n .interrupt ≠ s :=
          fun hp hne => interrupt_moves hoff (h.awake hp hne) hudr
        cases hwriting : s.program.writing with
        | true =>
          rcases program_moves h hwriting with hmoves | ⟨hp,hne⟩
          · refine ⟨.program,rfl,?_,fun hquiet => Bool.noConfusion hquiet⟩
            simpa only [Transmitter.step, hoff] using hmoves
          · exact ⟨.interrupt,rfl,hqueued hp hne,fun _ => rfl⟩
        | false =>
          refine ⟨.interrupt,rfl,hqueued ?_ ?_,fun _ => rfl⟩
          · intro he
            rw [he] at hwriting
            cases hwriting
          · intro hempty
            exact hleft ⟨hwriting,sent_of_done h hwriting hshift hudr hempty (by rw [hoff]; rfl)⟩
      · exact ⟨.handler,rfl,handler_moves h hoff hshift hudr,fun _ => rfl⟩

/-- Once no write is in progress, the handler and the USART alone send everything. -/
theorem Transmitter.Sound.drain (h : s.Sound n) (hquiet : s.program.writing = false) :
    ∃ steps : List TransmitStep, (∀ a ∈ steps, a.unattended = true) ∧ (s.run n steps).sent = s.written := by
  induction hw : s.work n using Nat.strongRecOn generalizing s with
  | _ w ih =>
    by_cases hdone : s.sent = s.written
    · exact ⟨[],nofun,hdone⟩
    obtain ⟨a,-,hmoves,hun⟩ := h.moves fun hfin => hdone hfin.2
    have ha := hun hquiet
    have hless := (h.falls (TransmitStep.carriesOn_of_unattended ha)).resolve_left hmoves
    obtain ⟨hprogram,hwritten⟩ := step_unattended (s := s) (n := n) ha
    obtain ⟨steps,hsteps,hsent⟩ := ih _ (hw ▸ hless) (h.step a).1 (hprogram ▸ hquiet) rfl
    exact ⟨a :: steps,List.forall_mem_cons.mpr ⟨ha,hsteps⟩,hsent.trans hwritten⟩

/-- What carries on neither writes nor takes back what is sent. -/
private theorem step_carriesOn {a : TransmitStep} (ha : a.carriesOn = true) :
    (s.step n a).written = s.written ∧ s.sent <+: (s.step n a).sent := by
  cases a with
  | write c => cases ha
  | flush => cases ha
  | program =>
    rw [Transmitter.step]
    split
    · rw [Transmitter.programStep]
      split <;> try split_ifs
      all_goals exact ⟨rfl,List.prefix_rfl⟩
    · exact ⟨rfl,List.prefix_rfl⟩
  | interrupt =>
    rw [Transmitter.step]
    split <;> exact ⟨rfl,List.prefix_rfl⟩
  | handler =>
    rw [Transmitter.step, Transmitter.handlerStep]
    split <;> try split_ifs
    all_goals exact ⟨rfl,List.prefix_rfl⟩
  | shiftIn =>
    rw [Transmitter.step]
    split <;> exact ⟨rfl,List.prefix_rfl⟩
  | shiftOut =>
    rw [Transmitter.step]
    split
    · exact ⟨rfl,List.prefix_append _ _⟩
    · exact ⟨rfl,List.prefix_rfl⟩

private theorem quiet_step {a : TransmitStep} (ha : a.carriesOn = true) (hquiet : s.program.writing = false) :
    (s.step n a).program.writing = false := by
  by_cases hun : a.unattended = true
  · rw [(step_unattended hun).1]
    exact hquiet
  · cases a with
    | program =>
      rw [Transmitter.step]
      split
      · rw [Transmitter.programStep]
        cases hpc : s.program <;> rw [hpc] at hquiet <;> try cases hquiet
        · rw [hpc]
          rfl
        · dsimp only
          split_ifs
          · rw [hpc]
            rfl
          · rfl
        · rfl
      · exact hquiet
    | write | flush => cases ha
    | interrupt | handler | shiftIn | shiftOut => exact absurd rfl hun

theorem Transmitter.Sound.sent_le (h : s.Sound n) : s.sent.length ≤ s.written.length := by
  rw [h.account, Transmitter.handed, h.wire]
  simp only [List.length_append]
  omega

theorem Transmitter.Sound.loaded_of_sent (h : s.Sound n) (hsent : s.sent = s.written) : s.loaded = s.written := by
  have hlen := congrArg List.length h.account
  rw [Transmitter.handed, List.append_assoc, List.length_append] at hlen
  have hwire := h.wire
  have hwirelen := congrArg List.length hwire
  rw [List.length_append, hsent] at hwirelen
  have hpre : s.sent <+: s.loaded := hwire ▸ List.prefix_append _ _
  exact (hpre.eq_of_length_le (by rw [hsent]; omega)).symm.trans hsent

theorem Transmitter.Sound.stays (h : s.Sound n) {a : TransmitStep} (ha : a.carriesOn = true) (hs : s.Finished) :
    (s.step n a).Finished := by
  obtain ⟨hquiet,hsent⟩ := hs
  obtain ⟨hwritten,hpre⟩ := step_carriesOn (n := n) (s := s) ha
  have hle := (h.step a).1.sent_le
  refine ⟨quiet_step ha hquiet,?_⟩
  rw [hwritten] at hle ⊢
  rw [← hpre.eq_of_length_le (by rw [hsent]; exact hle), hsent]

theorem Transmitter.run_eq_foldl (n : BufferSize) (s : Transmitter) (steps : List TransmitStep) :
    s.run n steps = steps.foldl (Transmitter.step n) s := by
  induction steps generalizing s with
  | nil => rfl
  | cons a rest ih => exact ih (s.step n a)

/-- Rounds of the program, the handler and the USART end a write in progress and send everything. -/
theorem Transmitter.Sound.finish (h : s.Sound n) {rounds : List (List TransmitStep)}
    (hrounds : ∀ r ∈ rounds, Round (TransmitStep.carriesOn · = true) r) (henough : s.work n ≤ rounds.length) :
    (s.run n rounds.flatten).Finished ∧ (s.run n rounds.flatten).written = s.written := by
  rw [Transmitter.run_eq_foldl]
  refine rounds_reach (I := fun t => t.Sound n ∧ t.written = s.written) (G := fun t => t.Finished ∧ t.written = s.written)
    ?_ ?_ ?_ ?_ hrounds ⟨h,rfl⟩ henough
  · intro t a ht ha
    exact ⟨(ht.1.step a).1,(step_carriesOn ha).1.trans ht.2⟩
  · intro t a ht ha
    exact ht.1.falls ha
  · intro t a ht ha hgoal
    exact ⟨ht.1.stays ha hgoal.1,(step_carriesOn ha).1.trans ht.2⟩
  · intro t ht hgoal
    obtain ⟨a,ha,hmoves,-⟩ := ht.1.moves fun hfin => hgoal ⟨hfin,ht.2⟩
    exact ⟨a,ha,hmoves⟩

end Finish

/-- The transmit path loses nothing. -/
structure TransmitLossless (n : BufferSize) (s : Transmitter) : Prop where
  called : ∀ c, s.program = .idle → s.handler = .off → (s.step n (.write c)).written = s.written ++ [c]
  /-- Each written byte is, in order, stored to `UDR1`, on its way there or pending in `write`. -/
  account : s.written = s.loaded ++ s.handler.held ++ s.txBuffer.contents n ++ s.program.pending
  wire : s.loaded = s.sent ++ s.shift.toList ++ s.udr.toList
  kept : ∀ a, s.handed n <+: (s.step n a).handed n
  register : ∀ c, s.handler = .loading c → s.udr = none
  awake : s.txBuffer.contents n ≠ [] → s.program.writing = false → s.udrie = true
  drains : s.program.writing = false →
    ∃ steps : List TransmitStep, (∀ a ∈ steps, a.unattended = true) ∧ (s.run n steps).sent = s.written
  /-- However the program, the handler and the USART take turns, `write` returns with its byte stored, and what
  was written is loaded and sent. -/
  finishes : ∃ k, ∀ rounds : List (List TransmitStep), (∀ r ∈ rounds, Round (TransmitStep.carriesOn · = true) r) →
    k ≤ rounds.length → (s.run n rounds.flatten).program.writing = false ∧
      (s.run n rounds.flatten).loaded = s.written ∧ (s.run n rounds.flatten).sent = s.written

theorem transmit_lossless (n : BufferSize) (pin : UInt8) (steps : List TransmitStep) :
    TransmitLossless n ((Transmitter.initial pin).run n steps) := by
  have h := (Transmitter.initial_sound n pin).run steps
  generalize (Transmitter.initial pin).run n steps = s at h
  refine ⟨?_,?_,?_,fun a => (h.step a).2,?_,?_,h.drain,⟨s.work n,?_⟩⟩
  · intro c hidle hoff
    simp only [Transmitter.step, hidle, hoff]
  · simpa only [Transmitter.handed, List.append_assoc] using h.account
  · simpa only [List.append_assoc] using h.wire
  · intro c hpc
    have hk := h.handler
    rwa [hpc] at hk
  · intro hqueue hquiet
    refine h.awake ?_ (mt h.bounded.contents_nil_iff.mpr hqueue)
    intro he
    rw [he] at hquiet
    cases hquiet
  · intro rounds hrounds henough
    obtain ⟨⟨hquiet,hsent⟩,hwritten⟩ := h.finish hrounds henough
    have hloaded := (h.run rounds.flatten).loaded_of_sent hsent
    rw [hwritten] at hsent hloaded
    exact ⟨hquiet,hloaded,hsent⟩

end ArduinoAT90USB.Core
