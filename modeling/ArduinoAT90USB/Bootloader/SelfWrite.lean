import ArduinoAT90USB.Bootloader.Trace

/-! Which pages the bootloader erases and writes. The chip-erase loop is bounded by the
boot section; the page commands `'m'` and `'B'` trust the address the host has set, so the
boot section is safe exactly while the host keeps the counter below it. -/
namespace ArduinoAT90USB.Bootloader
open Foundation Foundation.TaskLogic

/-- A page erase or page write lies wholly below the boot section. -/
def Event.inApplication (e : Event) : Bool :=
  match e.page? with
  | some a => decide ((a.toNat / spmPageSize + 1) * spmPageSize ≤ bootStartAddr)
  | none => true

def Harmless (log : List Event) : Prop := ∀ e ∈ log, e.inApplication = true

/-- The bytes start with a command that replaces the page at the address counter. -/
def programsPage (bytes : List UInt8) : Bool :=
  bytes.head? = some 'm'.toUInt8 || (bytes.head? = some 'B'.toUInt8 && bytes[3]? = some 'F'.toUInt8)

/-- The next command, if it replaces a page, finds the counter below the boot section. -/
def Boot.Sheltered (s : Boot) : Prop :=
  programsPage s.usb.out.flatten = true → s.dev.currAddress.toNat < bootStartAddr

private theorem page_inside (a : UInt32) :
    (a.toNat / spmPageSize + 1) * spmPageSize ≤ bootStartAddr ↔ a.toNat < bootStartAddr := by
  have hsize : spmPageSize = 256 := rfl
  have hboot : bootStartAddr = 126976 := rfl
  rw [hsize, hboot]
  omega

theorem inApplication_erase (a : UInt32) : (Event.erase a).inApplication = true ↔ a.toNat < bootStartAddr := by
  simp [Event.inApplication, Event.page?, page_inside]

theorem inApplication_write (a : UInt32) : (Event.write a).inApplication = true ↔ a.toNat < bootStartAddr := by
  simp [Event.inApplication, Event.page?, page_inside]

private theorem Harmless.cons {log : List Event} (h : Harmless log) {e : Event} (he : e.inApplication = true) :
    Harmless (e :: log) := by
  intro x hx
  rcases List.mem_cons.mp hx with rfl | hx
  · exact he
  · exact h x hx

private theorem inApplication_of_page {e : Event} (h : e.page? = none) : e.inApplication = true := by
  simp [Event.inApplication, h]

theorem harmless_closed : Closed (fun s => Harmless s.log) (fun s => Harmless s.log) :=
  closed_of_log fun _ _ hp h => h.cons (inApplication_of_page hp)

abbrev KeepsHarmless (m : Task Unit) : Prop := Keeps (fun s : Boot => Harmless s.log) (fun s => Harmless s.log) m

private theorem keeps_erase {a : UInt32} (h : a.toNat < bootStartAddr) : KeepsHarmless (bootPageErase a) :=
  ⟨fun _ hs => hs.cons ((inApplication_erase a).mpr h)⟩

private theorem keeps_write {a : UInt32} (h : a.toNat < bootStartAddr) : KeepsHarmless (bootPageWrite a) :=
  ⟨fun _ hs => hs.cons ((inApplication_write a).mpr h)⟩

theorem applicationPages_bound {a : UInt32} (h : a ∈ applicationPages) : a.toNat < bootStartAddr := by
  unfold applicationPages at h
  obtain ⟨k,hk,rfl⟩ := List.mem_map.mp h
  have hk : k < 496 := List.mem_range.mp hk
  have hsize : spmPageSize = 256 := rfl
  have hboot : bootStartAddr = 126976 := rfl
  rw [UInt32.toNat_ofNat', hsize, hboot]
  omega

theorem eraseApplication_harmless : KeepsHarmless eraseApplication := by
  refine keeps_seq (keeps_forM _ _ fun a ha => ?_) (harmless_closed.respond _)
  exact keeps_seq (keeps_erase (applicationPages_bound ha)) (keeps_write (applicationPages_bound ha))

theorem commitPage_harmless {s : Boot} (h : Harmless s.log) (ha : s.dev.currAddress.toNat < bootStartAddr) :
    Ends (fun s => Harmless s.log) (fun s => Harmless s.log) (commitPage s) :=
  (keeps_seq (keeps_write ha) (harmless_closed.respond _)).ends s h

/-- A block is harmless if it goes to the EEPROM, or to flash with the counter low enough. -/
theorem writeBlock_harmless {s : Boot} (h : Harmless s.log) (blockSize : UInt16) (memoryType : UInt8)
    (ha : memoryType = 'F'.toUInt8 → s.dev.currAddress.toNat < bootStartAddr) :
    Ends (fun s => Harmless s.log) (fun s => Harmless s.log) (writeBlock blockSize memoryType s) := by
  refine ends_bind ?_ fun _ => (harmless_closed.respond _).ends
  by_cases ht : memoryType = 'F'.toUInt8
  · rw [writePayload, if_pos ht]
    exact (keeps_seq (keeps_erase (ha ht)) (keeps_seq (harmless_closed.traffic.writeFlashLoop harmless_closed.program _ _ _)
      (keeps_write (ha ht)))).ends s h
  · rw [writePayload, if_neg ht]
    exact (harmless_closed.traffic.writeEepromLoop harmless_closed.program _).ends s h

theorem block_harmless {s : Boot} (h : Harmless s.log)
    (ha : s.usb.out.flatten[2]? = some 'F'.toUInt8 → s.dev.currAddress.toNat < bootStartAddr) :
    Ends (fun s => Harmless s.log) (fun s => Harmless s.log) (readWriteMemoryBlock 'B'.toUInt8 s) := by
  refine ends_block (Q := Harmless) (fun b log hlog => hlog.cons rfl) h (fun _ _ _ ht _ => ht) ?_ ?_
  · exact fun _ t ht _ => (harmless_closed.respond _).ends t ht
  · intro high low t payload u hbytes _ hu hd _ _
    rw [if_neg (by decide)]
    refine writeBlock_harmless hu _ _ fun hF => ?_
    rw [hd]
    exact ha (by rw [hbytes, hF]; rfl)

theorem cdcTask_harmless (s : Boot) : Harmless (final (cdcTask s)).log ↔ Harmless s.log ∧ s.Sheltered := by
  constructor
  · intro h
    constructor
    · intro e he
      exact h e ((cdcTask_extends s).mem he)
    · intro hp
      have hmem {e : Event} {c : UInt8} (operands : List UInt8) {rest : List UInt8}
          (ho : s.usb.out.flatten = c :: operands ++ rest) (hopen : Opens (processCommand c) s.dev operands e) :
          e.inApplication = true := by
        obtain ⟨quiet,_,hs⟩ := cdcTask_opens hopen ho
        exact h e (hs.mem List.mem_cons_self)
      simp only [programsPage, Bool.or_eq_true, Bool.and_eq_true, decide_eq_true_eq] at hp
      rcases hp with hm | ⟨hb,hF⟩
      · obtain ⟨rest,hf⟩ := List.head?_eq_some_iff.mp hm
        exact (inApplication_write _).mp (hmem [] hf (opens_commitPage s.dev))
      · match hf : s.usb.out.flatten, hb, hF with
        | _ :: high :: low :: _ :: rest, rfl, rfl =>
          exact (inApplication_erase _).mp (hmem [high, low, 'F'.toUInt8] hf
            (opens_writeFlashBlock high low s.dev))
  · rintro ⟨h,hs⟩
    refine cdcTask_final (I := fun s => Harmless s.log) h (fun _ => ?_) fun t ht => ht
    refine ends_fetch (fun t hd hf hl _ _ => ?_) fun t _ hl _ _ => by rw [hl]; exact h
    have ht : Harmless t.log := by rw [hl]; exact h.cons rfl
    cases hx : s.usb.out.flatten.head? with
    | none =>
      refine (harmless_closed.processCommand 0 ?_ ?_ ?_).ends t ht
      · exact fun _ => eraseApplication_harmless
      · exact fun h => absurd h (by decide)
      · exact fun h => absurd h (by decide)
    | some c =>
      change Ends _ _ (processCommand c t)
      by_cases hm : c = 'm'.toUInt8
      · subst hm
        exact commitPage_harmless ht (by rw [hd]; exact hs (by simp [programsPage, hx]))
      · by_cases hb : c = 'B'.toUInt8
        · subst hb
          refine block_harmless ht fun hF => ?_
          rw [hd]
          rw [hf, List.getElem?_tail] at hF
          exact hs (by simp [programsPage, hx, hF])
        · exact (harmless_closed.processCommand c (fun _ => eraseApplication_harmless)
            (fun h => absurd h hb) fun h => absurd h hm).ends t ht

/-- Whole runs: every page erased or written in the course of `n` turns lies below the
boot section exactly if every turn starts sheltered. -/
theorem self_write_safety (n : Nat) (s : Boot) :
    Harmless (runTasks n s).log ↔ Harmless s.log ∧ ∀ k < n, (runTasks k s).Sheltered :=
  runTasks_iff (J := fun _ => True) (P := fun s => Harmless s.log) (fun _ _ => trivial)
    (fun s _ => cdcTask_harmless s) n trivial

/-- Nothing stops the host: the address command followed by a page write. -/
theorem self_write_unguarded :
    ¬ ∀ (packets : List (List UInt8)) (n : Nat), Harmless (runTasks n (Boot.start packets)).log := by
  intro h
  have hlog := h [['A'.toUInt8, 0xFC, 0x00], ['m'.toUInt8]] 2
  have hbad := hlog (.write 0xFFFFF800) (by decide)
  exact absurd hbad (by decide)

end ArduinoAT90USB.Bootloader
