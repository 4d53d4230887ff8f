import ArduinoAT90USB.Bootloader.Simulation

/-! Block commands with an unknown memory type. The header is refused before the payload has been
read; the end of the task releases the packet that holds the memory type, and every byte of the
payload outside that packet is left to the next task, which takes it for a command. -/
namespace ArduinoAT90USB.Bootloader
open Foundation Foundation.TaskLogic

/-- The next turn takes its command from in front of the packets `back`. -/
def Boot.Misreads (back : List (List UInt8)) (s : Boot) : Prop := ∃ c more, s.usb.out.flatten = c :: more ++ back.flatten

section Present
variable {u : Usb} (h : u.fuse = none)
include h

theorem Usb.writeNextResponseByte_present (b : UInt8) :
    (u.writeNextResponseByte b).fuse = none ∧ (u.writeNextResponseByte b).out = u.out := by
  unfold Usb.writeNextResponseByte
  split
  · exact ⟨h,rfl⟩
  · rw [Usb.awaitIn_present (u.clearIn_fuse.trans h)]
    exact ⟨u.clearIn_fuse.trans h,u.clearIn_out⟩

theorem Usb.finishResponse_present : u.finishResponse.fuse = none ∧ u.finishResponse.out = u.out.tail := by
  have hsent := u.clearIn_fuse.trans h
  unfold Usb.finishResponse
  cases u.isInAllowed with
  | true =>
    simp only [Bool.not_true, Bool.false_eq_true, if_false, Usb.awaitIn_present hsent]
    exact ⟨hsent,congrArg List.tail u.clearIn_out⟩
  | false =>
    simp only [Bool.not_false, if_true, Usb.awaitIn_present hsent]
    have htwice := (Usb.clearIn_fuse {u.clearIn with inReady := true}).trans hsent
    rw [Usb.awaitIn_present htwice]
    exact ⟨htwice,congrArg List.tail ((Usb.clearIn_out _).trans u.clearIn_out)⟩

end Present

/-- The host stays and nothing but the end of `bytes` is still to be read. -/
def Boot.Behind (bytes : List UInt8) (s : Boot) : Prop := s.usb.fuse = none ∧ s.usb.out.flatten <:+ bytes

theorem behind_closed (bytes : List UInt8) : FullyClosed (Boot.Behind bytes) (Boot.Behind bytes) where
  fetch := by
    constructor
    rintro s ⟨hfuse,hout⟩
    cases hn : PacketQueue.next s.usb.out with
    | none =>
      rw [fetch_waits hn hfuse]
      exact ⟨hfuse,List.nil_suffix⟩
    | some taken =>
      rw [fetch_byte hn]
      rw [PacketQueue.next_flatten hn] at hout
      exact ⟨hfuse,(List.suffix_cons _ _).trans hout⟩
  respond b := by
    constructor
    rintro s ⟨hfuse,hout⟩
    obtain ⟨hstays,hsame⟩ := Usb.writeNextResponseByte_present hfuse b
    exact ⟨hstays,by rw [hsame]; exact hout⟩
  assign _ _ := ⟨fun _ h => h⟩
  rwwEnable := ⟨fun _ h => h⟩
  perform _ _ _ _ _ := ⟨fun _ h => h⟩
  observe _ _ _ := ⟨fun _ h => h⟩
  paging _ _ _ := ⟨fun _ h => h⟩

theorem cdcTask_behind {bytes : List UInt8} {s : Boot} (h : s.Behind bytes) : (final (cdcTask s)).Behind bytes := by
  have hclosed := behind_closed bytes
  refine cdcTask_final h (fun _ => (keeps_bind hclosed.fetch hclosed.command).ends s h) ?_
  rintro t ⟨hfuse,hout⟩
  obtain ⟨hstays,htail⟩ := Usb.finishResponse_present hfuse
  refine ⟨hstays,List.IsSuffix.trans ?_ hout⟩
  change t.usb.finishResponse.out.flatten <:+ _
  rw [htail]
  cases t.usb.out with
  | nil => exact List.suffix_refl _
  | cons p rest => exact List.suffix_append p rest.flatten

theorem runTasks_behind {bytes : List UInt8} (k : Nat) {s : Boot} (h : s.Behind bytes) : (runTasks k s).Behind bytes := by
  induction k generalizing s with
  | zero => exact h
  | succ k ih =>
    rw [runTasks_succ]
    exact ih (cdcTask_behind h)

private theorem fetch_later (d : Device) (u : Usb) {q : List (List UInt8)} {b : UInt8} {more : List UInt8}
    (h : q.flatten = b :: more) :
    ∃ left, left.flatten = more ∧ (∀ k, PacketQueue.later (k+1) q = PacketQueue.later k left) ∧
      ∀ log, fetchNextCommandByte ⟨d, {u with out := q}, log⟩ = .ok b ⟨d, {u with out := left}, .fetch (some b) :: log⟩ := by
  obtain ⟨left,_,hleft,hn⟩ := PacketQueue.next_cons h
  exact ⟨left,hleft,PacketQueue.later_next hn,fun log => fetch_byte hn⟩

theorem cdcTask_rejected {s : Boot} (hi : s.usb.Idle) (read : Bool) (high low t : UInt8)
    (ht : t ≠ 'E'.toUInt8 ∧ t ≠ 'F'.toUInt8) {payload : List UInt8}
    (hf : s.usb.out.flatten = (Command.badBlock read high low t ht).encode ++ payload) :
    ∃ log, cdcTask s = .ok () ⟨s.dev,
      {s.usb with out := PacketQueue.later 4 s.usb.out, sent := s.usb.sent ++ [['?'.toUInt8]]}, log⟩ := by
  have hout : s.usb.out ≠ [] := by
    intro hnil
    simp [hnil, Command.encode] at hf
  have hdispatch : processCommand (Command.badBlock read high low t ht).head =
      readWriteMemoryBlock (Command.badBlock read high low t ht).head := by
    cases read <;> rfl
  obtain ⟨q₁,h₁,hl₁,hs₁⟩ := fetch_later s.dev s.usb hf
  obtain ⟨q₂,h₂,hl₂,hs₂⟩ := fetch_later s.dev s.usb h₁
  obtain ⟨q₃,h₃,hl₃,hs₃⟩ := fetch_later s.dev s.usb h₂
  obtain ⟨q₄,_,hl₄,hs₄⟩ := fetch_later s.dev s.usb h₃
  have hlater : PacketQueue.later 4 s.usb.out = q₄.tail := by
    rw [hl₁, hl₂, hl₃, hl₄, PacketQueue.later_zero]
  have hidle : Usb.Idle {s.usb with out := q₄} := ⟨hi.present,hi.ready,hi.empty⟩
  obtain ⟨packets,hp,hfinish⟩ := hidle.transfer ['?'.toUInt8]
  rw [hp.single (by decide)] at hfinish
  have hrun : ∃ log, (fetchNextCommandByte >>= processCommand) s =
      .ok () ⟨s.dev, Usb.writeAll ['?'.toUInt8] {s.usb with out := q₄}, log⟩ := by
    rw [bind_ok (hs₁ s.log), hdispatch, readWriteMemoryBlock, bind_ok (hs₂ _), bind_ok (hs₃ _), bind_ok (hs₄ _), if_pos ht]
    exact ⟨_,rfl⟩
  obtain ⟨log,hrun⟩ := hrun
  refine ⟨log,?_⟩
  rw [cdcTask_busy hout, bind_ok hrun, hlater]
  simp only [finishResponse, hfinish]

/-- A block command with an unknown memory type, in any packets: the device is untouched, the
answer is one byte, and no byte of the payload is ever taken for a command exactly if none
lies outside the packet that holds the memory type. -/
theorem rejected_block (read : Bool) (high low t : UInt8) (ht : t ≠ 'E'.toUInt8 ∧ t ≠ 'F'.toUInt8) (s : Boot)
    {front back : List (List UInt8)} {payload : List UInt8} (ho : s.usb.out = front ++ back)
    (hf : front.flatten = (Command.badBlock read high low t ht).encode ++ payload) :
    (final (cdcTask s)).dev = s.dev ∧
      (s.usb.Idle → (final (cdcTask s)).usb.sent = s.usb.sent ++ [['?'.toUInt8]] ∧
        ((∀ k, ¬ (runTasks k (final (cdcTask s))).Misreads back) ↔ (PacketQueue.later 4 front).flatten = [])) := by
  have hbytes : s.usb.out.flatten = (Command.badBlock read high low t ht).encode ++ (payload ++ back.flatten) := by
    rw [ho, List.flatten_append, hf, List.append_assoc]
  refine ⟨cdcTask_device (.badBlock read high low t ht) hbytes,fun hi => ?_⟩
  obtain ⟨log,hrun⟩ := cdcTask_rejected hi read high low t ht hbytes
  rw [hrun, final_ok]
  refine ⟨rfl,?_⟩
  have hfront : front ≠ [] := by
    rintro rfl
    simp [Command.encode] at hf
  have hheader : 4 ≤ front.flatten.length := by
    rw [hf]
    simp [Command.encode, Command.operands]
  have hout : (PacketQueue.later 4 s.usb.out).flatten = (PacketQueue.later 4 front).flatten ++ back.flatten := by
    rw [ho, PacketQueue.later_append hfront hheader, List.flatten_append]
  constructor
  · intro hnever
    cases hleft : (PacketQueue.later 4 front).flatten with
    | nil => rfl
    | cons c more =>
      rw [hleft] at hout
      exact absurd ⟨c,more,hout⟩ (hnever 0)
  · rintro hnone k ⟨c,more,htaken⟩
    rw [hnone, List.nil_append] at hout
    -- what is left to read only ever shrinks
    have hstart : Boot.Behind back.flatten ⟨s.dev,
        {s.usb with out := PacketQueue.later 4 s.usb.out, sent := s.usb.sent ++ [['?'.toUInt8]]}, log⟩ :=
      ⟨hi.present,⟨[],hout⟩⟩
    have hbehind := (runTasks_behind k hstart).2.length_le
    rw [htaken, List.length_append, List.length_cons] at hbehind
    omega

/-- The whole payload in the header's packet. -/
theorem rejected_block_released :
    (final (cdcTask (Boot.start [['B'.toUInt8, 0, 1, 'X'.toUInt8, 'e'.toUInt8]]))).dev = (Boot.start []).dev ∧
      ∀ k, ¬ (runTasks k (final (cdcTask (Boot.start [['B'.toUInt8, 0, 1, 'X'.toUInt8, 'e'.toUInt8]])))).Misreads [] := by
  have hrejected := rejected_block false 0 1 'X'.toUInt8 (by decide)
    (Boot.start [['B'.toUInt8, 0, 1, 'X'.toUInt8, 'e'.toUInt8]]) (List.append_nil _).symm
    (show _ = _ ++ ['e'.toUInt8] from rfl)
  exact ⟨hrejected.1,(hrejected.2 ⟨rfl,rfl,rfl⟩).2.mpr rfl⟩

/-- The same payload in a packet of its own is the next command, a chip erase. -/
theorem rejected_block_erases :
    ¬ ∀ (high low t : UInt8) (payload : List UInt8), t ≠ 'E'.toUInt8 → t ≠ 'F'.toUInt8 →
      ∀ k, ¬ (runTasks k (final (cdcTask (Boot.start [['B'.toUInt8, high, low, t], payload])))).Misreads [] := by
  intro h
  exact h 0 1 'X'.toUInt8 ['e'.toUInt8] (by decide) (by decide) 0 ⟨'e'.toUInt8,[],by decide⟩

end ArduinoAT90USB.Bootloader
