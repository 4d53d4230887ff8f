import ArduinoAT90USB.Bootloader.Packets

/-! The chip erase `'e'`. Its loop writes every page right after erasing it, and the first of
these writes commits whatever the page buffer still holds from `'C'` and `'c'`. -/
namespace ArduinoAT90USB.Bootloader
open Foundation Foundation.PagedMemory Foundation.TaskLogic

namespace Device

/-- Erasing and writing pages from an empty page buffer leaves them blank. -/
theorem eraseAll_spec (pages : List UInt32) {d : Device} (h : d.pageBuffer = fun _ => 0xFFFF) :
    (pages.foldl (fun d a => (d.bootPageErase a).bootPageWrite a) d).flash =
      (pages.map UInt32.toNat).foldl (fun m a => setPage spmPageSize a (fun _ => 0xFF) m) d.flash := by
  induction pages generalizing d with
  | nil => rfl
  | cons a rest ih =>
    have hpage : ((d.bootPageErase a).bootPageWrite a).flash = setPage spmPageSize a.toNat (fun _ => 0xFF) d.flash := by
      have hbuffer : (d.bootPageErase a).bufferByte = fun _ => 0xFF := bufferByte_clear h
      simp only [bootPageWrite, hbuffer]
      exact setPage_same rfl _ (fun _ => 0xFF) d.flash
    rw [List.foldl_cons, List.map_cons, List.foldl_cons, ih rfl, hpage]

theorem eraseAll_frame (pages : List UInt32) (d : Device) :
    let e := pages.foldl (fun d a => (d.bootPageErase a).bootPageWrite a) d
    e.eeprom = d.eeprom ∧ e.currAddress = d.currAddress := by
  induction pages generalizing d with
  | nil => exact ⟨rfl,rfl⟩
  | cons a rest ih => exact ih _

private def laterPages : List UInt32 := (List.range 495).map fun k => UInt32.ofNat ((k+1) * spmPageSize)

private theorem applicationPages_eq : applicationPages = 0 :: laterPages := by
  have hcount : bootStartAddr / spmPageSize = 495 + 1 := rfl
  unfold applicationPages laterPages
  rw [hcount, List.range_succ_eq_map, List.map_cons, List.map_map]
  rfl

private theorem mem_laterPages (x : Nat) :
    (∃ a ∈ laterPages.map UInt32.toNat, x / spmPageSize = a / spmPageSize) ↔ spmPageSize ≤ x ∧ x < bootStartAddr := by
  have hsize : spmPageSize = 256 := rfl
  have hboot : bootStartAddr = 126976 := rfl
  have hpage (k : Nat) (hk : k < 495) : (UInt32.ofNat ((k+1) * spmPageSize)).toNat = (k+1) * spmPageSize := by
    rw [UInt32.toNat_ofNat', hsize]
    omega
  simp only [laterPages, List.map_map, List.mem_map, List.mem_range, Function.comp_apply]
  constructor
  · rintro ⟨a,⟨k,hk,rfl⟩,hx⟩
    rw [hpage k hk, hsize] at hx
    rw [hsize, hboot]
    omega
  · rintro ⟨hlow,hhigh⟩
    rw [hsize] at hlow
    rw [hboot] at hhigh
    refine ⟨_,⟨x / 256 - 1,by omega,rfl⟩,?_⟩
    rw [hpage _ (by omega), hsize]
    omega

/-- What the chip erase leaves in flash: the page buffer in the first page, blanks in the others. -/
theorem eraseApplication_flash (d : Device) (x : Nat) : d.eraseApplication.flash x =
    if x < spmPageSize then d.bufferByte x else if x < bootStartAddr then 0xFF else d.flash x := by
  have hrest := foldl_setPage (p := spmPageSize) (laterPages.map UInt32.toNat) (fun _ => (0xFF : UInt8))
    ((d.bootPageErase 0).bootPageWrite 0).flash x
  rw [eraseApplication, applicationPages_eq, List.foldl_cons, eraseAll_spec laterPages rfl]
  rw [mem_laterPages] at hrest
  by_cases hx : x < spmPageSize
  · have hfirst : x / spmPageSize = (0 : UInt32).toNat / spmPageSize := by
      rw [Nat.div_eq_of_lt hx]
      rfl
    rw [hrest.2 (by omega), if_pos hx]
    simp only [bootPageWrite, setPage, hfirst, if_true, Nat.mod_eq_of_lt hx]
    rfl
  · rw [if_neg hx]
    by_cases hboot : x < bootStartAddr
    · rw [hrest.1 ⟨by omega,hboot⟩, if_pos hboot]
    · have hother : x / spmPageSize ≠ (0 : UInt32).toNat / spmPageSize := by
        have hsize : spmPageSize = 256 := rfl
        change x / spmPageSize ≠ 0 / spmPageSize
        rw [hsize] at hx ⊢
        omega
      rw [hrest.2 (by omega), if_neg hboot]
      simp only [bootPageWrite, bootPageErase, setPage, hother, if_false]

theorem eraseApplication_blank_iff (d : Device) :
    (∀ x < bootStartAddr, d.eraseApplication.flash x = 0xFF) ↔ ∀ i < spmPageSize / 2, d.pageBuffer i = 0xFFFF := by
  have hle : spmPageSize ≤ bootStartAddr := by decide
  have hblank := bufferByte_eq_iff d reset
  rw [bufferByte_clear (d := reset) rfl] at hblank
  refine Iff.trans ⟨fun h x hx => ?_,fun h x hx => ?_⟩ hblank
  · have hcell := h x (Nat.lt_of_lt_of_le hx hle)
    rwa [eraseApplication_flash, if_pos hx] at hcell
  · rw [eraseApplication_flash, if_pos hx]
    split
    · exact h x ‹_›
    · rfl

theorem readFlash_pageBuffer (n : Nat) (highByte : Bool) (d : Device) : (d.readFlash n highByte).1.pageBuffer = d.pageBuffer := by
  induction n generalizing highByte d with
  | zero => rfl
  | succ n ih =>
    rw [readFlash]
    cases highByte <;> exact ih _ _

theorem readEeprom_pageBuffer (n : Nat) (d : Device) : (d.readEeprom n).1.pageBuffer = d.pageBuffer := by
  induction n generalizing d with
  | zero => rfl
  | succ n ih => exact ih d.advance

theorem writeEeprom_pageBuffer (payload : List UInt8) (d : Device) : (d.writeEeprom payload).pageBuffer = d.pageBuffer := by
  induction payload generalizing d with
  | nil => rfl
  | cons b rest ih => exact ih _

theorem eraseApplication_pageBuffer (d : Device) : d.eraseApplication.pageBuffer = fun _ => 0xFFFF := by
  have hlast (pages : List UInt32) (d : Device) (h : d.pageBuffer = fun _ => 0xFFFF) :
      (pages.foldl (fun d a => (d.bootPageErase a).bootPageWrite a) d).pageBuffer = fun _ => 0xFFFF := by
    induction pages generalizing d with
    | nil => exact h
    | cons a rest ih => exact ih _ rfl
  rw [eraseApplication, applicationPages_eq, List.foldl_cons]
  exact hlast laterPages _ rfl

end Device

/-- Whether the page buffer holds a word that no page write has committed, after the command. -/
def Command.uncommitted (before : Bool) : Command → Bool
  | .fillHighByte _ | .fillLowByte _ => true
  | .writeBlock .flash _ _ => false
  | .plain c _ => if c = 'm'.toUInt8 ∨ c = 'e'.toUInt8 then false else before
  | _ => before

/-- The page buffer holds a word just when one is said to be uncommitted. -/
structure Device.Buffers (d : Device) (uncommitted : Bool) : Prop where
  word : uncommitted = true → ∃ i < spmPageSize / 2, d.pageBuffer i ≠ 0xFFFF
  clear : uncommitted = false → d.pageBuffer = fun _ => 0xFFFF

section Histories
variable {d e : Device} {uncommitted : Bool}

private theorem Device.Buffers.of_eq (h : d.Buffers uncommitted) (he : e.pageBuffer = d.pageBuffer) : e.Buffers uncommitted := by
  obtain ⟨hword,hclear⟩ := h
  rw [← he] at hword hclear
  exact ⟨hword,hclear⟩

private theorem buffers_clear (h : d.pageBuffer = fun _ => 0xFFFF) : d.Buffers false := ⟨nofun,fun _ => h⟩

/-- A byte alone never makes up a blank word. -/
private theorem buffers_fill (a : UInt32) (b : UInt8) (d : Device) : (d.bootPageFill a b.toUInt16).Buffers true := by
  refine ⟨fun _ => ⟨Device.slot a,?_,?_⟩,nofun⟩
  · have hsize : spmPageSize = 256 := rfl
    rw [Device.slot, hsize]
    omega
  · intro hblank
    simp only [Device.bootPageFill, if_true] at hblank
    have hword := congrArg UInt16.toNat hblank
    have hb := b.toNat_lt
    rw [UInt8.toNat_toUInt16] at hword
    change b.toNat = 65535 at hword
    omega

private theorem execPlain_pageBuffer {c : UInt8} (hm : c ≠ 'm'.toUInt8) (he : c ≠ 'e'.toUInt8) (d : Device) :
    (Command.execPlain c d).1.pageBuffer = d.pageBuffer := by
  simp only [Command.execPlain, if_neg hm, if_neg he, apply_ite Prod.fst, apply_ite Device.pageBuffer, Device.advance, ite_self]

private theorem plain_buffers (h : d.Buffers uncommitted) {c : UInt8} (hc : takesOperands c = false) :
    (Command.execPlain c d).1.Buffers ((Command.plain c hc).uncommitted uncommitted) := by
  rw [Command.uncommitted]
  split
  next hpage =>
    apply buffers_clear
    rcases hpage with rfl | rfl
    · rfl
    · exact d.eraseApplication_pageBuffer
  next hpage =>
    rw [not_or] at hpage
    exact h.of_eq (execPlain_pageBuffer hpage.1 hpage.2 d)

private theorem exec_buffers (h : d.Buffers uncommitted) (c : Command) : (c.exec d).1.Buffers (c.uncommitted uncommitted) := by
  cases c with
  | plain c hc => exact plain_buffers h hc
  | selectDevice b => exact h
  | setAddress high low => exact h.of_eq rfl
  | setLockBits b => exact h.of_eq rfl
  | fillHighByte b => exact buffers_fill _ b d
  | fillLowByte b => exact (buffers_fill _ b d).of_eq rfl
  | writeEepromByte b => exact h.of_eq rfl
  | readBlock t n hn =>
    cases t with
    | flash => exact h.of_eq (Device.readFlash_pageBuffer n false _)
    | eeprom => exact h.of_eq (Device.readEeprom_pageBuffer n _)
  | writeBlock t payload hp =>
    cases t with
    | flash => exact buffers_clear rfl
    | eeprom => exact h.of_eq (Device.writeEeprom_pageBuffer payload d)
  | badBlock read high low t ht => exact h

theorem execAll_buffers (h : d.Buffers uncommitted) (cs : List Command) :
    (Command.execAll cs d).1.Buffers (cs.foldl Command.uncommitted uncommitted) := by
  induction cs generalizing d uncommitted with
  | nil => exact h
  | cons c rest ih => exact ih (exec_buffers h c)

theorem Device.Buffers.clear_iff (h : d.Buffers uncommitted) :
    (∀ i < spmPageSize / 2, d.pageBuffer i = 0xFFFF) ↔ uncommitted = false := by
  constructor
  · intro hblank
    rw [← Bool.not_eq_true]
    intro ht
    obtain ⟨i,hi,hne⟩ := h.word ht
    exact hne (hblank i hi)
  · intro hf i _
    rw [h.clear hf]

end Histories

/-- After any commands, sent in any packets, `'e'` leaves the application section blank exactly
if no `'C'` or `'c'` among them is still waiting for a page write; EEPROM, counter and the boot
section stay as they were. -/
theorem chip_erase (cs : List Command) (s : Boot) (hi : s.usb.Idle) (hclear : s.dev.pageBuffer = fun _ => 0xFFFF)
    {q : List (List UInt8)} (hq : Cut cs q) {n : Nat} (hn : cs.length < n) {more : List (List UInt8)} {rest : List UInt8}
    (hmore : more.flatten = 'e'.toUInt8 :: rest) :
    let before := (runTasks n (s.receive q)).dev
    let after := (final (cdcTask ((runTasks n (s.receive q)).receive more))).dev
    ((∀ a < bootStartAddr, after.flash a = 0xFF) ↔ cs.foldl Command.uncommitted false = false) ∧
      after.eeprom = before.eeprom ∧ after.currAddress = before.currAddress ∧
      ∀ a, bootStartAddr ≤ a → after.flash a = before.flash a := by
  intro before after
  have hbefore : before = (Command.execAll cs s.dev).1 := (carriedOut_of_cut hq hi hn).device
  have hafter : after = before.eraseApplication := cdcTask_device (s := (runTasks n (s.receive q)).receive more) .chipErase hmore
  have hbuffers : before.Buffers (cs.foldl Command.uncommitted false) := by
    rw [hbefore]
    exact execAll_buffers (buffers_clear hclear) cs
  rw [hafter, Device.eraseApplication_blank_iff, hbuffers.clear_iff]
  refine ⟨Iff.rfl,(Device.eraseAll_frame _ before).1,(Device.eraseAll_frame _ before).2,fun a ha => ?_⟩
  have hsize : spmPageSize ≤ bootStartAddr := by decide
  rw [Device.eraseApplication_flash, if_neg (by omega), if_neg (by omega)]

private def filledAndCommitted : List Command := [.fillHighByte 0x12, .commitPage]

private theorem filledAndCommitted_cut : Cut filledAndCommitted [['C'.toUInt8, 0x12], ['m'.toUInt8]] :=
  Cut.single filledAndCommitted

theorem chip_erase_committed :
    (final (cdcTask ((runTasks 3 ((Boot.start []).receive [['C'.toUInt8, 0x12], ['m'.toUInt8]])).receive
      [['e'.toUInt8]]))).dev.flash 0 = 0xFF :=
  (chip_erase filledAndCommitted (Boot.start []) ⟨rfl,rfl,rfl⟩ rfl filledAndCommitted_cut (by decide)
    (show [['e'.toUInt8]].flatten = 'e'.toUInt8 :: [] from rfl)).1.mpr (by decide) 0 (by decide)

/-- A byte filled in and never committed turns up at the start of the erased flash. -/
theorem chip_erase_leaves :
    ¬ ∀ (packets : List (List UInt8)) (n a : Nat), a < bootStartAddr →
      (final (cdcTask ((runTasks n (Boot.start packets)).receive [['e'.toUInt8]]))).dev.flash a = 0xFF := by
  intro h
  have hcell := h [['C'.toUInt8, 0x12]] 1 0 (by decide)
  have hdev : (final (cdcTask ((runTasks 1 (Boot.start [['C'.toUInt8, 0x12]])).receive [['e'.toUInt8]]))).dev =
      (runTasks 1 (Boot.start [['C'.toUInt8, 0x12]])).dev.eraseApplication :=
    cdcTask_device (s := (runTasks 1 _).receive [['e'.toUInt8]]) .chipErase
      (show [['e'.toUInt8]].flatten = Command.chipErase.encode ++ [] from rfl)
  rw [hdev, Device.eraseApplication_flash, if_pos (by decide)] at hcell
  exact absurd hcell (by decide)

end ArduinoAT90USB.Bootloader
