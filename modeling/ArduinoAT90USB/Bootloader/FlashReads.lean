import ArduinoAT90USB.Bootloader.FlashSection

/-! Reads of the application section while it is being programmed. A block read enables the
section first; the word read of `'R'` does not, so it returns flash contents only where no
page has been erased or written since the last block read. -/
namespace ArduinoAT90USB.Bootloader
open Foundation Foundation.TaskLogic

/-- A flash read below the boot section finds `rwwBusy` clear. -/
def Event.readable : Event → Bool
  | .flashRead a busy => !busy || decide (bootStartAddr ≤ a.toNat)
  | _ => true

def Readable (log : List Event) : Prop := ∀ e ∈ log, e.readable = true

/-- The next command reads a word of the application section. -/
def Boot.ReadsWord (s : Boot) : Prop :=
  s.usb.out.flatten.head? = some 'R'.toUInt8 ∧ s.dev.currAddress.toNat < bootStartAddr

private theorem Readable.cons {log : List Event} (h : Readable log) {e : Event} (he : e.readable = true) :
    Readable (e :: log) := by
  intro x hx
  rcases List.mem_cons.mp hx with rfl | hx
  · exact he
  · exact h x hx

private theorem readable_of_programs {e : Event} (h : e.programs = true) : e.readable = true := by
  cases e <;> first | rfl | cases h

theorem readable_traffic : Traffic (fun s => Readable s.log) (fun s => Readable s.log) where
  fetch := by
    constructor
    intro s hs
    unfold fetchNextCommandByte
    split
    · exact hs.cons rfl
    · split
      · exact hs
      · exact hs.cons rfl
  respond _ := ⟨fun _ hs => hs.cons rfl⟩
  assign _ _ := ⟨fun _ hs => hs⟩
  eepromRead _ := ⟨fun _ hs => hs.cons rfl⟩

private theorem readable_perform (e : Event) (f : Device → Device) (he : e.programs = true) :
    Keeps (fun s : Boot => Readable s.log) (fun s => Readable s.log) (perform e f) :=
  ⟨fun _ hs => hs.cons (readable_of_programs he)⟩

/-- What a block read establishes before its loop and keeps through it. -/
private def Enabled (s : Boot) : Prop := Readable s.log ∧ s.dev.rwwBusy = false

private theorem enabled_read (a : UInt32) : Keeps Enabled Enabled (pgmReadByteFar a) := by
  constructor
  rintro s ⟨hlog,hbusy⟩
  exact ⟨hlog.cons (by simp [Event.readable, hbusy]),hbusy⟩

private theorem enabled_advance (highByte : Bool) : Keeps Enabled Enabled (advanceIf highByte) :=
  keeps_ite (fun _ => ⟨fun _ h => h⟩) fun _ => keeps_pure _

theorem readFlashLoop_enabled (n : Nat) (highByte : Bool) : Keeps Enabled Enabled (readFlashLoop n highByte) := by
  induction n generalizing highByte with
  | zero => exact keeps_pure _
  | succ n ih =>
    refine keeps_bind keeps_getDevice fun d => keeps_bind (enabled_read _) fun b => ?_
    exact keeps_seq ⟨fun _ h => ⟨h.1.cons rfl,h.2⟩⟩ (keeps_seq (enabled_advance _) (ih _))

theorem readBlock_readable (blockSize : UInt16) (memoryType : UInt8) :
    Keeps (fun s => Readable s.log) (fun s => Readable s.log) (readBlock blockSize memoryType) := by
  constructor
  intro s hs
  have henabled : Enabled {s with dev := s.dev.bootRwwEnable, log := .rwwEnable :: s.log} := ⟨hs.cons rfl,rfl⟩
  by_cases ht : memoryType = 'F'.toUInt8
  · rw [readBlock, if_pos ht]
    exact ((readFlashLoop_enabled _ false).ends _ henabled).mono (fun _ h => h.1) fun _ h => h.1
  · rw [readBlock, if_neg ht]
    exact (readable_traffic.readEepromLoop _).ends _ henabled.1

theorem readFlashWord_readable {s : Boot} (h : Readable s.log)
    (ha : s.dev.currAddress.toNat < bootStartAddr → s.dev.rwwBusy = false) :
    Ends (fun s => Readable s.log) (fun s => Readable s.log) (readFlashWord s) := by
  refine (readable_traffic.respondAll _).ends _ (h.cons ?_)
  by_cases hlow : s.dev.currAddress.toNat < bootStartAddr
  · simp [Event.readable, ha hlow]
  · simp [Event.readable, Nat.le_of_not_lt hlow]

theorem opens_readFlashWord (d : Device) {bytes : List UInt8} :
    Opens readFlashWord d bytes (.flashRead d.currAddress d.rwwBusy) :=
  opens_getDevice (opens_observe fun _ l => (logged_closed l).traffic.respondAll _)

theorem cdcTask_readable (s : Boot) :
    Readable (final (cdcTask s)).log ↔ Readable s.log ∧ (s.ReadsWord → s.dev.rwwBusy = false) := by
  constructor
  · intro h
    refine ⟨fun e he => h e ((cdcTask_extends s).mem he),fun ⟨hr,hlow⟩ => ?_⟩
    obtain ⟨rest,hf⟩ := List.head?_eq_some_iff.mp hr
    obtain ⟨quiet,_,hlog⟩ := @cdcTask_opens s 'R'.toUInt8 [] rest _ (opens_readFlashWord s.dev) hf
    have hread := h _ (hlog.mem List.mem_cons_self)
    simpa [Event.readable, Nat.not_le.mpr hlow] using hread
  · rintro ⟨h,hs⟩
    refine cdcTask_final (I := fun s => Readable s.log) h (fun _ => ?_) fun t ht => ht
    refine ends_fetch (fun t hd hf hl _ _ => ?_) fun t _ hl _ _ => by rw [hl]; exact h
    have ht : Readable t.log := by rw [hl]; exact h.cons rfl
    by_cases hr : s.usb.out.flatten.head?.getD 0 = 'R'.toUInt8
    · rw [hr]
      refine readFlashWord_readable ht fun hlow => ?_
      rw [hd] at hlow ⊢
      exact hs ⟨head_of_getD (by decide) hr,hlow⟩
    · exact (readable_traffic.command readable_perform _ (fun _ => readBlock_readable) fun h => absurd h hr).ends t ht

/-- Whole runs: every read of the application section is meaningful exactly if, before each word read
of it, a block read has followed the last command that replaced pages. -/
theorem flash_reads_readable (n : Nat) (s : Boot) :
    Readable (runTasks n s).log ↔ Readable s.log ∧ ∀ k < n, (runTasks k s).ReadsWord → s.EnabledBefore k := by
  rw [runTasks_iff (J := fun _ => True) (P := fun s => Readable s.log) (fun _ _ => trivial)
    (fun s _ => cdcTask_readable s) n trivial]
  simp only [runTasks_rwwBusy]

/-- A page write followed by a word read. -/
theorem flash_read_while_busy :
    ¬ ∀ (packets : List (List UInt8)) (n : Nat), Readable (runTasks n (Boot.start packets)).log := by
  intro h
  have hbad := h [['m'.toUInt8], ['R'.toUInt8]] 2 (.flashRead 0 true) (by decide)
  exact absurd hbad (by decide)

end ArduinoAT90USB.Bootloader
