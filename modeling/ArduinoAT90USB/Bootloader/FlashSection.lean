import ArduinoAT90USB.Bootloader.SelfWrite
import ArduinoAT90USB.Foundation.Runs

/-! What the commands do to the application section. A page erase or a page write makes it
unreadable, and only a block read makes it readable again, so after any number of tasks the order
of the commands says which it is. -/
namespace ArduinoAT90USB.Bootloader
open Foundation Foundation.TaskLogic

/-- The next command erases or writes pages: `'e'`, `'m'`, or `'B'` for the flash. -/
def Boot.ReplacesPages (s : Boot) : Prop :=
  s.usb.out.flatten.head? = some 'e'.toUInt8 ∨ programsPage s.usb.out.flatten = true

/-- The next command is a block read of a memory there is. -/
def Boot.EnablesSection (s : Boot) : Prop :=
  s.usb.out.flatten.head? = some 'g'.toUInt8 ∧
    (s.usb.out.flatten[3]? = some 'E'.toUInt8 ∨ s.usb.out.flatten[3]? = some 'F'.toUInt8)

/-- Among the first `k` commands a block read follows each one that replaces pages; so it does the
start, if that finds the section unreadable. -/
structure Boot.EnabledBefore (s : Boot) (k : Nat) : Prop where
  after : ∀ j < k, (runTasks j s).ReplacesPages → ∃ i, j < i ∧ i < k ∧ (runTasks i s).EnablesSection
  start : s.dev.rwwBusy = true → ∃ i < k, (runTasks i s).EnablesSection

abbrev Busy (b : Bool) (s : Boot) : Prop := s.dev.rwwBusy = b

section Kept
variable (b : Bool)

theorem busy_traffic : Traffic (Busy b) (Busy b) where
  fetch := by
    constructor
    intro s hs
    unfold fetchNextCommandByte
    split
    · exact hs
    · split <;> exact hs
  respond _ := ⟨fun _ hs => hs⟩
  assign _ hf := ⟨fun s hs => (hf s.dev).trans hs⟩
  eepromRead _ := ⟨fun _ hs => hs⟩

private theorem busy_program (e : Event) (f : Device → Device) (_ : e.programs = true) (_ : e.page? = none)
    (hf : KeepsSection f) : Keeps (Busy b) (Busy b) (perform e f) :=
  ⟨fun s hs => (hf s.dev).trans hs⟩

theorem busy_readFlashLoop (n : Nat) (highByte : Bool) : Keeps (Busy b) (Busy b) (readFlashLoop n highByte) := by
  induction n generalizing highByte with
  | zero => exact keeps_pure _
  | succ n ih =>
    refine keeps_bind keeps_getDevice fun d => keeps_bind ⟨fun _ hs => hs⟩ fun v => ?_
    exact keeps_seq ⟨fun _ hs => hs⟩ (keeps_seq ((busy_traffic b).advanceIf _) (ih _))

theorem busy_readFlashWord : Keeps (Busy b) (Busy b) readFlashWord :=
  keeps_bind keeps_getDevice fun _ => keeps_bind ⟨fun _ hs => hs⟩ fun _ => (busy_traffic b).respondAll _

theorem busy_writeEeprom (n : Nat) : Keeps (Busy b) (Busy b) (writeEepromLoop n) :=
  (busy_traffic b).writeEepromLoop (busy_program b) n

end Kept

theorem applicationPages_ne_nil : applicationPages ≠ [] := by
  unfold applicationPages
  simp [bootStartAddr, spmPageSize]

private theorem pages_busy (pages : List UInt32) :
    Keeps (Busy true) (Busy true) (pages.forM fun a => do bootPageErase a; bootPageWrite a) :=
  keeps_forM pages _ fun _ _ => keeps_seq ⟨fun _ _ => rfl⟩ ⟨fun _ _ => rfl⟩

theorem eraseApplication_sets (s : Boot) : Ends (Busy true) (Busy true) (eraseApplication s) := by
  refine ends_bind (J := Busy true) ?_ fun _ => ((busy_traffic true).respond _).ends
  obtain ⟨a,rest,hpages⟩ := List.exists_cons_of_ne_nil applicationPages_ne_nil
  rw [hpages]
  exact (pages_busy rest).ends _ rfl

theorem writeFlashBlock_sets (blockSize : UInt16) (s : Boot) :
    Ends (Busy true) (Busy true) (writeBlock blockSize 'F'.toUInt8 s) := by
  refine ends_bind (J := Busy true) ?_ fun _ => ((busy_traffic true).respond _).ends
  have hloop := (busy_traffic true).writeFlashLoop (busy_program true) blockSize.toNat false 0
  have hwrite : Keeps (Busy true) (Busy true) (bootPageWrite s.dev.currAddress) := ⟨fun _ _ => rfl⟩
  exact (keeps_seq hloop hwrite).ends ⟨s.dev.bootPageErase s.dev.currAddress, s.usb, .erase s.dev.currAddress :: s.log⟩ rfl

theorem readBlock_clears (blockSize : UInt16) (memoryType : UInt8) (s : Boot) :
    Ends (Busy false) (Busy false) (readBlock blockSize memoryType s) := by
  have hread : Keeps (Busy false) (Busy false) (if memoryType = 'F'.toUInt8 then readFlashLoop blockSize.toNat false
      else readEepromLoop blockSize.toNat) :=
    keeps_ite (fun _ => busy_readFlashLoop false _ _) fun _ => (busy_traffic false).readEepromLoop _
  exact hread.ends ⟨s.dev.bootRwwEnable, s.usb, .rwwEnable :: s.log⟩ rfl

theorem block_section {s : Boot} {b : Bool} {command : UInt8}
    (hbad : BadHeader s.usb.out.flatten → s.dev.rwwBusy = b)
    (hrun : ∀ high low t payload u, s.usb.out.flatten = high :: low :: t :: payload →
      t = 'E'.toUInt8 ∨ t = 'F'.toUInt8 → u.dev = s.dev →
      Ends (Busy b) (Busy b) ((if command = 'g'.toUInt8 then
          readBlock (AvrInt.toUInt16 (AvrInt.promote high <<< 8 ||| AvrInt.promote low)) t
        else writeBlock (AvrInt.toUInt16 (AvrInt.promote high <<< 8 ||| AvrInt.promote low)) t) u)) :
    Ends (Busy b) (Busy b) (readWriteMemoryBlock command s) := by
  refine ends_block (Q := fun _ => True) (fun _ _ h => h) trivial ?_ ?_ ?_
  · exact fun h _ t _ hd => (congrArg Device.rwwBusy hd).trans (hbad h)
  · exact fun h t _ hd => ((busy_traffic b).respond _).ends t ((congrArg Device.rwwBusy hd).trans (hbad h))
  · intro high low t payload u hbytes ht _ hd _ _
    exact hrun high low t payload u hbytes (by rwa [or_iff_not_and_not]) hd

section Tasks
variable {s : Boot}

theorem head_of_getD {bytes : List UInt8} {c : UInt8} (hc : c ≠ 0) (h : bytes.head?.getD 0 = c) :
    bytes.head? = some c := by
  cases bytes with
  | nil => exact absurd h.symm hc
  | cons x rest => exact congrArg some h

private theorem cdcTask_section {b : Bool} (hidle : s.usb.out.flatten = [] → s.dev.rwwBusy = b)
    (hrun : ∀ t : Boot, t.dev = s.dev → t.usb.out.flatten = s.usb.out.flatten.tail →
      Ends (Busy b) (Busy b) (processCommand (s.usb.out.flatten.head?.getD 0) t)) :
    (final (cdcTask s)).dev.rwwBusy = b := by
  by_cases hout : s.usb.out = []
  · rw [cdcTask_idle hout]
    exact hidle (by rw [hout]; rfl)
  · rw [cdcTask_busy hout]
    refine Ends.final (I := Busy b) (ends_bind (J := Busy b) ?_ fun _ t ht => ht)
    refine ends_fetch (fun t hd hf _ _ _ => hrun t hd hf) fun t hd _ hf _ => ?_
    exact (congrArg Device.rwwBusy hd).trans (hidle hf)

private theorem header_of_third {bytes : List UInt8} {c : UInt8} (h : bytes[2]? = some c) :
    ∃ high low payload, bytes = high :: low :: c :: payload := by
  rcases bytes with _ | ⟨high,_ | ⟨low,_ | ⟨third,payload⟩⟩⟩
  · cases h
  · cases h
  · cases h
  · obtain rfl := Option.some.inj h
    exact ⟨high,low,payload,rfl⟩

theorem cdcTask_sets (h : s.ReplacesPages) : (final (cdcTask s)).dev.rwwBusy = true := by
  simp only [Boot.ReplacesPages, programsPage, Bool.or_eq_true, Bool.and_eq_true, decide_eq_true_eq] at h
  refine cdcTask_section (fun hnil => ?_) fun t _ hf => ?_
  · rw [hnil] at h
    simp at h
  rcases h with he | hm | ⟨hb,hF⟩
  · rw [he]
    exact eraseApplication_sets t
  · rw [hm]
    rfl
  · have htype : t.usb.out.flatten[2]? = some 'F'.toUInt8 := by
      rw [hf, List.getElem?_tail, hF]
    rw [hb]
    refine @block_section t _ 'B'.toUInt8 (fun hbad => ?_) fun high low c payload u hbytes _ _ => ?_
    · obtain ⟨high,low,payload,hbytes⟩ := header_of_third htype
      exact absurd rfl (hbad high low _ payload hbytes).2
    · rw [hbytes] at htype
      cases htype
      exact writeFlashBlock_sets _ u

theorem cdcTask_clears (h : s.EnablesSection) : (final (cdcTask s)).dev.rwwBusy = false := by
  obtain ⟨hg,htype⟩ := h
  refine cdcTask_section (fun hnil => ?_) fun t _ hf => ?_
  · rw [hnil] at hg
    cases hg
  have htype : t.usb.out.flatten[2]? = some 'E'.toUInt8 ∨ t.usb.out.flatten[2]? = some 'F'.toUInt8 := by
    rwa [hf, List.getElem?_tail]
  rw [hg]
  refine @block_section t _ 'g'.toUInt8 (fun hbad => ?_) fun high low c payload u _ _ _ => readBlock_clears _ c u
  rcases htype with htype | htype
  · obtain ⟨high,low,payload,hbytes⟩ := header_of_third htype
    exact absurd rfl (hbad high low _ payload hbytes).1
  · obtain ⟨high,low,payload,hbytes⟩ := header_of_third htype
    exact absurd rfl (hbad high low _ payload hbytes).2

theorem cdcTask_leaves (hreplace : ¬ s.ReplacesPages) (henable : ¬ s.EnablesSection) :
    (final (cdcTask s)).dev.rwwBusy = s.dev.rwwBusy := by
  simp only [Boot.ReplacesPages, programsPage, Bool.or_eq_true, Bool.and_eq_true, decide_eq_true_eq, not_or] at hreplace
  obtain ⟨he,hm,hb⟩ := hreplace
  refine cdcTask_section (fun _ => rfl) fun t hd hf => ?_
  have ht : Busy s.dev.rwwBusy t := congrArg Device.rwwBusy hd
  have htype (high low c : UInt8) (payload : List UInt8) (h : t.usb.out.flatten = high :: low :: c :: payload) :
      s.usb.out.flatten[3]? = some c := by
    rw [← List.getElem?_tail, ← hf, h]
    rfl
  by_cases hcommand : s.usb.out.flatten.head?.getD 0 = 'g'.toUInt8
  · rw [hcommand]
    refine @block_section t _ 'g'.toUInt8 (fun _ => ht) fun high low c payload u hbytes hc _ => ?_
    refine absurd ⟨head_of_getD (by decide) hcommand,?_⟩ henable
    rw [htype high low c payload hbytes]
    exact hc.imp (congrArg some) (congrArg some)
  by_cases hblock : s.usb.out.flatten.head?.getD 0 = 'B'.toUInt8
  · rw [hblock]
    refine @block_section t _ 'B'.toUInt8 (fun _ => ht) fun high low c payload u hbytes hc hu => ?_
    have heeprom : c ≠ 'F'.toUInt8 := fun hF =>
      hb ⟨head_of_getD (by decide) hblock,(htype high low c payload hbytes).trans (congrArg some hF)⟩
    rw [if_neg (by decide), writeBlock, writePayload, if_neg heeprom]
    exact (keeps_seq (busy_writeEeprom _ _) ((busy_traffic _).respond _)).ends u ((congrArg Device.rwwBusy hu).trans ht)
  have htraffic := busy_traffic s.dev.rwwBusy
  have hprogram := busy_program s.dev.rwwBusy
  refine (htraffic.dispatch _ (fun h => absurd h hcommand) (fun _ => busy_readFlashWord _) ?_ (fun h => absurd h hblock) ?_
    (fun _ => htraffic.setLockBits hprogram) (fun _ => htraffic.fillHighByte hprogram)
    (fun _ => htraffic.fillLowByte hprogram) fun _ => htraffic.writeEepromByte hprogram).ends t ht
  · exact fun h => absurd (head_of_getD (by decide) h) he
  · exact fun h => absurd (head_of_getD (by decide) h) hm

end Tasks

/-- After `k` tasks the section is readable exactly if the commands have enabled it. -/
theorem runTasks_rwwBusy (k : Nat) (s : Boot) : (runTasks k s).dev.rwwBusy = false ↔ s.EnabledBefore k := by
  have hstep (k : Nat) : runTasks (k+1) s = final (cdcTask (runTasks k s)) := by
    rw [runTasks_add, runTasks_succ]
    rfl
  have hlatch := @Runs.latch_clear (fun k => (runTasks k s).dev.rwwBusy) (fun k => (runTasks k s).ReplacesPages)
    (fun k => (runTasks k s).EnablesSection)
    (fun k h => by rw [hstep]; exact cdcTask_sets h) (fun k h => by rw [hstep]; exact cdcTask_clears h)
    (fun k h h' => by rw [hstep]; exact cdcTask_leaves h h') k
  exact hlatch.trans ⟨fun h => ⟨h.1,h.2⟩,fun h => ⟨h.after,h.start⟩⟩

end ArduinoAT90USB.Bootloader
