import ArduinoAT90USB.Bootloader.EepromBlocks
import ArduinoAT90USB.Bootloader.Upload

/-! Blocks of any length. The flash loops keep a half-word phase that is forgotten at the end of
the command, while the counter advances on whole words only: a block read of odd length leaves the
next one a byte behind, and a block write of odd length does not commit its last byte. -/
namespace ArduinoAT90USB.Bootloader
open Foundation Foundation.AvrInt Foundation.PagedMemory

/-- Byte `i` of a flash block that starts with the counter at `a`. -/
def flashCell (a : UInt32) (i : Nat) : UInt32 := (a + UInt32.ofNat (2 * (i / 2))) ||| UInt32.ofNat (i % 2)

theorem flashCell_add {m : Nat} (a : UInt32) (i : Nat) (h : m % 2 = 0) :
    flashCell a (m + i) = flashCell (a + UInt32.ofNat m) i := by
  rw [flashCell, flashCell, UInt32.add_assoc, ← UInt32.ofNat_add, show 2 * ((m + i) / 2) = m + 2 * (i / 2) by omega,
    show (m + i) % 2 = i % 2 by omega]

private theorem words_toNat {a : UInt32} {n : Nat} (h : a.toNat + n < 4294967296) :
    (a + UInt32.ofNat (2 * (n / 2))).toNat = a.toNat + 2 * (n / 2) := by
  rw [UInt32.toNat_add, UInt32.toNat_ofNat_of_lt' (by change _ < 4294967296; omega)]
  exact Nat.mod_eq_of_lt (by omega)

theorem flashCell_word {a : UInt32} {i : Nat} (h : a.toNat + i < 4294967296) :
    (flashCell a i).toNat / 2 = a.toNat / 2 + i / 2 := by
  have hphase : (UInt32.ofNat (i % 2)).toNat = i % 2 := UInt32.toNat_ofNat_of_lt' (by change _ < 4294967296; omega)
  rw [flashCell, UInt32.toNat_or, Nat.or_div_two, words_toNat h, hphase, show i % 2 / 2 = 0 by omega, Nat.or_zero]
  omega

namespace Device

theorem readFlash_eq (n : Nat) (highByte : Bool) (d : Device) :
    d.readFlash n highByte = (d.setCurrAddress (d.currAddress + UInt32.ofNat (2 * ((n + highByte.toNat) / 2))),
      (List.range n).map fun i => d.pgmReadByteFar (flashCell d.currAddress (i + highByte.toNat))) := by
  induction n generalizing highByte d with
  | zero =>
    cases highByte <;> simp [readFlash, setCurrAddress]
  | succ n ih =>
    rw [List.range_succ_eq_map, List.map_cons, List.map_map]
    cases highByte with
    | false =>
      change ((d.readFlash n true).1,_ :: (d.readFlash n true).2) = _
      rw [ih]
      refine Prod.ext rfl (congrArg₂ List.cons ?_ rfl)
      simp [flashCell]
    | true =>
      change ((d.advance.readFlash n false).1,_ :: (d.advance.readFlash n false).2) = _
      rw [ih]
      refine Prod.ext ?_ (congrArg₂ List.cons ?_ (List.map_congr_left fun i _ => ?_))
      · change d.setCurrAddress (d.currAddress + 2 + UInt32.ofNat (2 * (n / 2))) =
          d.setCurrAddress (d.currAddress + UInt32.ofNat (2 * ((n + 2) / 2)))
        rw [show 2 * ((n + 2) / 2) = 2 + 2 * (n / 2) by omega, UInt32.ofNat_add, UInt32.add_assoc]
        rfl
      · simp [flashCell]
      · change d.pgmReadByteFar (flashCell (d.currAddress + UInt32.ofNat 2) i) = d.pgmReadByteFar (flashCell d.currAddress (i + 2))
        rw [Nat.add_comm i, flashCell_add _ _ (by rfl)]

theorem readEeprom_append (m n : Nat) (d : Device) :
    d.readEeprom (m + n) = (((d.readEeprom m).1.readEeprom n).1,(d.readEeprom m).2 ++ ((d.readEeprom m).1.readEeprom n).2) := by
  induction m generalizing d with
  | zero => rw [Nat.zero_add]; rfl
  | succ m ih =>
    rw [Nat.add_right_comm]
    change ((d.advance.readEeprom (m + n)).1,_ :: (d.advance.readEeprom (m + n)).2) = _
    rw [ih]
    rfl

end Device

def blockReads (t : MemoryType) : (lengths : List Nat) → lengths.sum < 65536 → List Command
  | [], _ => []
  | n :: rest, h => .readBlock t n (by rw [List.sum_cons] at h; omega) ::
    blockReads t rest (by rw [List.sum_cons] at h; omega)

theorem blockReads_length (t : MemoryType) (lengths : List Nat) (h : lengths.sum < 65536) :
    (blockReads t lengths h).length = lengths.length := by
  induction lengths with
  | nil => rfl
  | cons n rest ih => exact congrArg (· + 1) (ih _)

def splitCells : UInt32 → List Nat → List UInt32
  | _, [] => []
  | a, n :: rest => (List.range n).map (flashCell a) ++ splitCells (a + UInt32.ofNat (2 * (n / 2))) rest

def splitEnd : UInt32 → List Nat → UInt32
  | a, [] => a
  | a, n :: rest => splitEnd (a + UInt32.ofNat (2 * (n / 2))) rest

theorem execAll_flashReads (lengths : List Nat) (h : lengths.sum < 65536) (d : Device) :
    (Command.execAll (blockReads .flash lengths h) d).1.currAddress = splitEnd d.currAddress lengths ∧
      (Command.execAll (blockReads .flash lengths h) d).2.flatten = (splitCells d.currAddress lengths).map d.pgmReadByteFar := by
  induction lengths generalizing d with
  | nil => exact ⟨rfl,rfl⟩
  | cons n rest ih =>
    have hrest : rest.sum < 65536 := by
      rw [List.sum_cons] at h
      omega
    have hread := d.bootRwwEnable.readFlash_eq n false
    obtain ⟨haddress,hanswers⟩ := ih hrest (d.bootRwwEnable.readFlash n false).1
    refine ⟨haddress.trans ?_,?_⟩
    · rw [hread]
      rfl
    · change (d.bootRwwEnable.readFlash n false).2 ++
        (Command.execAll (blockReads .flash rest hrest) (d.bootRwwEnable.readFlash n false).1).2.flatten = _
      rw [hanswers, hread, splitCells, List.map_append, List.map_map]
      rfl

theorem execAll_eepromReads (lengths : List Nat) (h : lengths.sum < 65536) (d : Device) :
    (Command.execAll (blockReads .eeprom lengths h) d).1.currAddress = (d.readEeprom lengths.sum).1.currAddress ∧
      (Command.execAll (blockReads .eeprom lengths h) d).2.flatten = (d.readEeprom lengths.sum).2 := by
  induction lengths generalizing d with
  | nil => exact ⟨rfl,rfl⟩
  | cons n rest ih =>
    have hrest : rest.sum < 65536 := by
      rw [List.sum_cons] at h
      omega
    obtain ⟨haddress,hanswers⟩ := ih hrest (d.bootRwwEnable.readEeprom n).1
    rw [readEeprom_bootRwwEnable, readEeprom_bootRwwEnable] at haddress hanswers
    rw [List.sum_cons, Device.readEeprom_append]
    refine ⟨?_,?_⟩
    · change (Command.execAll (blockReads .eeprom rest hrest) (d.bootRwwEnable.readEeprom n).1).1.currAddress = _
      rw [readEeprom_bootRwwEnable, haddress]
      rfl
    · change (d.bootRwwEnable.readEeprom n).2 ++
        (Command.execAll (blockReads .eeprom rest hrest) (d.bootRwwEnable.readEeprom n).1).2.flatten = _
      rw [readEeprom_bootRwwEnable, hanswers]

/-- Only the last block that is not empty may be odd. -/
def WordBlocks : List Nat → Prop
  | [] => True
  | n :: rest => (n % 2 = 0 ∨ rest.sum = 0) ∧ WordBlocks rest

instance wordBlocksDecidable : (lengths : List Nat) → Decidable (WordBlocks lengths)
  | [] => isTrue trivial
  | _ :: rest => @instDecidableAnd _ _ _ (wordBlocksDecidable rest)

section Split
variable {a : UInt32} {lengths : List Nat}

theorem split_of_sum (h : lengths.sum = 0) (a : UInt32) : splitCells a lengths = [] ∧ splitEnd a lengths = a := by
  induction lengths with
  | nil => exact ⟨rfl,rfl⟩
  | cons n rest ih =>
    rw [List.sum_cons] at h
    obtain rfl : n = 0 := by omega
    have ha : a + UInt32.ofNat (2 * (0 / 2)) = a := UInt32.add_zero a
    rw [splitCells, splitEnd, ha]
    exact ih (by omega)

/-- No block gets ahead of the number of bytes read before. -/
theorem split_behind (h : a.toNat + lengths.sum < 4294967296) :
    (∀ c ∈ splitCells a lengths, c.toNat / 2 ≤ a.toNat / 2 + (lengths.sum - 1) / 2) ∧
      (splitEnd a lengths).toNat ≤ a.toNat + 2 * (lengths.sum / 2) := by
  induction lengths generalizing a with
  | nil => exact ⟨fun c hc => absurd hc List.not_mem_nil,Nat.le_add_right _ _⟩
  | cons n rest ih =>
    rw [List.sum_cons] at h ⊢
    have hstep := words_toNat (show a.toNat + n < 4294967296 by omega)
    obtain ⟨hcells,hend⟩ := ih (show (a + UInt32.ofNat (2 * (n / 2))).toNat + rest.sum < _ by omega)
    constructor
    · intro c hc
      rcases List.mem_append.mp hc with hc | hc
      · obtain ⟨i,hi,rfl⟩ := List.mem_map.mp hc
        have hi := List.mem_range.mp hi
        rw [flashCell_word (by omega)]
        omega
      · have hbound := hcells c hc
        have hpos : rest.sum ≠ 0 := by
          intro hzero
          rw [(split_of_sum hzero _).1] at hc
          exact absurd hc List.not_mem_nil
        omega
    · rw [splitEnd]
      omega

/-- The cells and the counter of one block of length `n`. -/
private def AsOne (a : UInt32) (n : Nat) (lengths : List Nat) : Prop :=
  splitCells a lengths = (List.range n).map (flashCell a) ∧ splitEnd a lengths = a + UInt32.ofNat (2 * (n / 2))

private theorem asOne_empty (h : lengths.sum = 0) (a : UInt32) (n : Nat) : AsOne a (n + lengths.sum) (n :: lengths) := by
  constructor
  · rw [splitCells, (split_of_sum h _).1, h, List.append_nil, Nat.add_zero]
  · rw [splitEnd, (split_of_sum h _).2, h, Nat.add_zero]

/-- Behind whole words the blocks start afresh. -/
private theorem asOne_even {n : Nat} (heven : n % 2 = 0) :
    AsOne a (n + lengths.sum) (n :: lengths) ↔ AsOne (a + UInt32.ofNat n) lengths.sum lengths := by
  have hcells : (List.range (n + lengths.sum)).map (flashCell a) =
      (List.range n).map (flashCell a) ++ (List.range lengths.sum).map (flashCell (a + UInt32.ofNat n)) := by
    rw [List.range_add, List.map_append, List.map_map]
    exact congrArg _ (List.map_congr_left fun i _ => flashCell_add a i heven)
  have hend : a + UInt32.ofNat (2 * ((n + lengths.sum) / 2)) =
      a + UInt32.ofNat n + UInt32.ofNat (2 * (lengths.sum / 2)) := by
    rw [UInt32.add_assoc, ← UInt32.ofNat_add, show 2 * ((n + lengths.sum) / 2) = n + 2 * (lengths.sum / 2) by omega]
  unfold AsOne
  rw [splitCells, splitEnd, hcells, hend, show 2 * (n / 2) = n by omega, List.append_cancel_left_eq]

private theorem not_asOne_odd {n : Nat} (hodd : n % 2 = 1) (hrest : lengths.sum ≠ 0)
    (h : a.toNat + (n + lengths.sum) < 4294967296) : ¬ AsOne a (n + lengths.sum) (n :: lengths) := by
  rintro ⟨hcells,hend⟩
  have hstep := words_toNat (show a.toNat + n < 4294967296 by omega)
  have hfinal := words_toNat h
  obtain ⟨hbehind,hbehindEnd⟩ := split_behind (show (a + UInt32.ofNat (2 * (n / 2))).toNat + lengths.sum < _ by omega)
  have hlast : flashCell a (n + lengths.sum - 1) ∈ splitCells a (n :: lengths) := by
    rw [hcells]
    exact List.mem_map_of_mem (List.mem_range.mpr (by omega))
  have hword := flashCell_word (a := a) (i := n + lengths.sum - 1) (by omega)
  rw [splitEnd] at hend
  rw [← hend] at hfinal
  rcases List.mem_append.mp hlast with hmem | hmem
  · obtain ⟨i,hi,heq⟩ := List.mem_map.mp hmem
    have hi := List.mem_range.mp hi
    have hearly := flashCell_word (a := a) (i := i) (by omega)
    rw [heq] at hearly
    omega
  · have hlate := hbehind _ hmem
    omega

/-- The blocks read what one block of their total length reads just when no odd block is
followed by a byte. -/
theorem split_iff (h : a.toNat + lengths.sum < 4294967296) :
    splitCells a lengths = (List.range lengths.sum).map (flashCell a) ∧
      splitEnd a lengths = a + UInt32.ofNat (2 * (lengths.sum / 2)) ↔ WordBlocks lengths := by
  change AsOne a lengths.sum lengths ↔ _
  induction lengths generalizing a with
  | nil => exact iff_of_true ⟨rfl,(UInt32.add_zero a).symm⟩ trivial
  | cons n rest ih =>
    rw [List.sum_cons] at h ⊢
    rcases Nat.mod_two_eq_zero_or_one n with heven | hodd
    · have hstep := words_toNat (show a.toNat + n < 4294967296 by omega)
      rw [show 2 * (n / 2) = n by omega] at hstep
      rw [asOne_even heven, ih (by omega)]
      exact (and_iff_right (Or.inl heven)).symm
    · by_cases hzero : rest.sum = 0
      · have hrest := (ih (a := a) (by omega)).mp (by
          rw [hzero]
          exact split_of_sum hzero a |>.imp_right (·.trans (UInt32.add_zero a).symm))
        exact iff_of_true (asOne_empty hzero a n) ⟨Or.inr hzero,hrest⟩
      · exact iff_of_false (not_asOne_odd hodd hzero h) fun hwords => hwords.1.elim (by omega) hzero

end Split

namespace Device

/-- A last byte without a partner stays in the loop's variable. -/
theorem writeFlash_odd {front : List UInt8} (h : front.length % 2 = 0) (b lowByte : UInt8) (d : Device) :
    d.writeFlash (front ++ [b]) false lowByte = d.writeFlash front false lowByte := by
  induction front using List.twoStepInduction generalizing lowByte d with
  | nil => rfl
  | singleton c => simp at h
  | cons_cons low high rest ih _ =>
    simp only [List.length_cons] at h
    exact ih (by omega) _ _

/-- The whole words of the payload are in the page buffer, and nothing else is. -/
theorem writeFlash_buffer {payload : List UInt8} {d : Device} {page : Nat} (ha : d.currAddress.toNat = page * spmPageSize)
    (hl : payload.length ≤ spmPageSize) (hb : page * spmPageSize + spmPageSize < 4294967296) (lowByte : UInt8) (i : Nat) :
    (d.writeFlash payload false lowByte).bufferByte i =
      ((payload.take (2 * (payload.length / 2)))[i]?).getD (d.bufferByte i) := by
  have hwords : d.writeFlash payload false lowByte = d.writeFlash (payload.take (2 * (payload.length / 2))) false lowByte := by
    rcases Nat.mod_two_eq_zero_or_one payload.length with heven | hodd
    · rw [List.take_of_length_le (by omega)]
    · have hcut := List.take_append_drop (2 * (payload.length / 2)) payload
      obtain ⟨b,hlast⟩ := List.length_eq_one_iff.mp
        (show (payload.drop (2 * (payload.length / 2))).length = 1 by rw [List.length_drop]; omega)
      rw [hlast] at hcut
      conv_lhs => rw [← hcut]
      exact writeFlash_odd (by rw [List.length_take]; omega) b lowByte d
  have hfilled := writeFlash_filled (payload.take (2 * (payload.length / 2))) lowByte d page 0
    (ha.trans (Nat.add_zero _).symm) (Nat.zero_mod 2) (by rw [List.length_take]; omega) (by rw [List.length_take]; omega) hb
  rw [hwords, hfilled.buffer, if_pos (Nat.zero_le i), Nat.sub_zero]

/-- `n` bytes from the counter on lie in the memory. -/
def Inside (d : Device) : MemoryType → Nat → Prop
  | .flash, n => d.currAddress.toNat + n ≤ flashSize
  | .eeprom, n => d.InEeprom n

def byteAt (d : Device) (a : UInt32) : MemoryType → Nat → UInt8
  | .flash, i => d.flash (a.toNat + i)
  | .eeprom, i => d.eeprom ((a >>> 1).toUInt16 + UInt16.ofNat i)

/-- What a flash block of any length commits. -/
theorem writeBlock_commits_iff {payload : List UInt8} (h : payload.length < 65536) {d : Device} (hl : payload.length ≤ spmPageSize)
    (ha : d.currAddress.toNat % spmPageSize = 0) (hin : d.Inside .flash payload.length) :
    (∀ i (hi : i < payload.length), ((Command.writeBlock .flash payload h).exec d).1.byteAt d.currAddress .flash i = payload[i]) ↔
      payload.length % 2 = 0 ∨ payload[payload.length - 1]? = some (d.bufferByte (payload.length - 1)) := by
  have hsize : spmPageSize = 256 := rfl
  have hin : d.currAddress.toNat + payload.length ≤ 131072 := hin
  have hpage : d.currAddress.toNat = d.currAddress.toNat / spmPageSize * spmPageSize :=
    (Nat.div_mul_cancel (Nat.dvd_of_mod_eq_zero ha)).symm
  have hcell (i : Nat) (hi : i < payload.length) : ((Command.writeBlock .flash payload h).exec d).1.byteAt d.currAddress .flash i =
      ((payload.take (2 * (payload.length / 2)))[i]?).getD (d.bufferByte i) := by
    have hbuffer := writeFlash_buffer (d := d.bootPageErase d.currAddress) hpage hl (by omega) 0 i
    refine Eq.trans ?_ hbuffer
    change setPage spmPageSize d.currAddress.toNat _ _ (d.currAddress.toNat + i) = _
    rw [hpage, setPage_inside (by omega)]
  constructor
  · intro hall
    rcases Nat.mod_two_eq_zero_or_one payload.length with heven | hodd
    · exact Or.inl heven
    · right
      have hlast := hall (payload.length - 1) (by omega)
      rw [hcell _ (by omega), List.getElem?_eq_none (by rw [List.length_take]; omega)] at hlast
      rw [List.getElem?_eq_getElem (by omega), ← hlast]
      rfl
  · intro hwords i hi
    rw [hcell i hi]
    by_cases hword : i < 2 * (payload.length / 2)
    · rw [List.getElem?_take_of_lt hword, List.getElem?_eq_getElem hi]
      rfl
    · obtain rfl : i = payload.length - 1 := by omega
      rw [List.getElem?_eq_none (by rw [List.length_take]; omega)]
      rcases hwords with heven | hsame
      · omega
      · rw [List.getElem?_eq_getElem hi] at hsame
        exact (Option.some.inj hsame).symm

theorem writeBlock_commits_eeprom {payload : List UInt8} (h : payload.length < 65536) (d : Device) (i : Nat)
    (hi : i < payload.length) :
    ((Command.writeBlock .eeprom payload h).exec d).1.byteAt d.currAddress .eeprom i = payload[i] := by
  change (d.writeEeprom payload).eeprom (d.eepromPointer + UInt16.ofNat i) = _
  rw [writeEeprom_offset (Nat.le_of_lt h) hi]

end Device

/-- The same bootloader over another flash. -/
def Boot.withFlash (f : Nat → UInt8) (s : Boot) : Boot := {s with dev := {s.dev with flash := f}}

section Flash
variable (f : Nat → UInt8) (s : Boot) {lengths : List Nat} (h : lengths.sum < 65536)

private theorem flashReads_withFlash :
    (Command.execAll (blockReads .flash lengths h) (s.withFlash f).dev).1.currAddress = splitEnd s.dev.currAddress lengths ∧
      (Command.execAll (blockReads .flash lengths h) (s.withFlash f).dev).2.flatten =
        (splitCells s.dev.currAddress lengths).map fun c => f c.toNat :=
  execAll_flashReads lengths h (s.withFlash f).dev

private theorem flashRead_withFlash :
    (Command.execAll [.readBlock .flash lengths.sum h] (s.withFlash f).dev).1.currAddress =
        s.dev.currAddress + UInt32.ofNat (2 * (lengths.sum / 2)) ∧
      (Command.execAll [.readBlock .flash lengths.sum h] (s.withFlash f).dev).2.flatten =
        ((List.range lengths.sum).map (flashCell s.dev.currAddress)).map fun c => f c.toNat := by
  have hread := (s.withFlash f).dev.bootRwwEnable.readFlash_eq lengths.sum false
  refine ⟨congrArg (fun r => r.1.currAddress) hread,?_⟩
  change ((s.withFlash f).dev.bootRwwEnable.readFlash lengths.sum false).2 ++ [] = _
  rw [hread, List.append_nil, List.map_map]
  rfl

end Flash

/-- Blocks of any length, sent in any packets. Reads in several blocks return the bytes of one block
and leave its counter, whatever the flash holds, exactly if the memory is the EEPROM or no odd block
is followed by another byte. A write commits its payload exactly if the memory is the EEPROM, the
length is even, or the last byte happens to be what the page buffer held at its place. -/
theorem block_lengths (t : MemoryType) (s : Boot) (hi : s.usb.Idle) :
    (∀ (lengths : List Nat) (hlen : lengths.sum < 65536), s.dev.Inside t lengths.sum → ∀ q₁ q₂,
      Cut (blockReads t lengths hlen) q₁ → Cut [.readBlock t lengths.sum hlen] q₂ → ∀ n > lengths.length + 1,
      ((∀ f, let split := runTasks n ((s.withFlash f).receive q₁)
          let single := runTasks n ((s.withFlash f).receive q₂)
          split.usb.sent.flatten = single.usb.sent.flatten ∧ split.dev.currAddress = single.dev.currAddress) ↔
        t = .eeprom ∨ WordBlocks lengths)) ∧
    ∀ (payload : List UInt8) (hlen : payload.length < 65536), payload.length ≤ spmPageSize →
      s.dev.currAddress.toNat % spmPageSize = 0 → s.dev.Inside t payload.length → ∀ q,
      Cut [.writeBlock t payload hlen] q → ∀ n > 1,
      ((∀ i (hi : i < payload.length), (runTasks n (s.receive q)).dev.byteAt s.dev.currAddress t i = payload[i]) ↔
        t = .eeprom ∨ payload.length % 2 = 0 ∨
          payload[payload.length - 1]? = some (s.dev.bufferByte (payload.length - 1))) := by
  constructor
  · intro lengths hlen hin q₁ q₂ h₁ h₂ n hn
    have hsplit (f : Nat → UInt8) := carriedOut_of_cut h₁ (s := s.withFlash f) hi (n := n) (by rw [blockReads_length]; omega)
    have hsingle (f : Nat → UInt8) := carriedOut_of_cut h₂ (s := s.withFlash f) hi (show 1 < n by omega)
    simp only [(hsplit _).answers, (hsplit _).device, (hsingle _).answers, (hsingle _).device, List.append_cancel_left_eq]
    cases t with
    | eeprom =>
      refine iff_of_true (fun f => ?_) (Or.inl rfl)
      obtain ⟨haddress,hanswers⟩ := execAll_eepromReads lengths hlen (s.withFlash f).dev
      rw [haddress, hanswers]
      change _ = ((s.withFlash f).dev.bootRwwEnable.readEeprom lengths.sum).2 ++ [] ∧
        _ = ((s.withFlash f).dev.bootRwwEnable.readEeprom lengths.sum).1.currAddress
      rw [readEeprom_bootRwwEnable, List.append_nil]
      exact ⟨rfl,rfl⟩
    | flash =>
      have hin : s.dev.currAddress.toNat + lengths.sum ≤ 131072 := hin
      rw [← split_iff (show s.dev.currAddress.toNat + lengths.sum < 4294967296 by omega)]
      simp only [flashReads_withFlash, flashRead_withFlash, reduceCtorEq, false_or]
      constructor
      · intro hall
        refine ⟨addresses_of_reads (show (0 : UInt8) ≠ 1 by decide) fun m => ?_,(hall s.dev.flash).2⟩
        simpa using (hall fun x => m (UInt32.ofNat x)).1
      · rintro ⟨hcells,hend⟩ f
        rw [hcells, hend]
        exact ⟨rfl,rfl⟩
  · intro payload hlen hl ha hin q hq n hn
    have hdevice := (carriedOut_of_cut hq hi hn).device
    rw [hdevice]
    cases t with
    | eeprom => exact iff_of_true (Device.writeBlock_commits_eeprom hlen s.dev) (Or.inl rfl)
    | flash =>
      refine (Device.writeBlock_commits_iff hlen hl ha hin).trans ?_
      simp

theorem block_lengths_words :
    (runTasks 4 ((Boot.start []).receive [['g'.toUInt8, 0, 2, 'F'.toUInt8], ['g'.toUInt8, 0, 1, 'F'.toUInt8]])).usb.sent.flatten =
      (runTasks 4 ((Boot.start []).receive [['g'.toUInt8, 0, 3, 'F'.toUInt8]])).usb.sent.flatten :=
  (((block_lengths .flash (Boot.start []) ⟨rfl,rfl,rfl⟩).1 [2, 1] (by decide) (show 0 + 3 ≤ flashSize by decide) _ _
    (Cut.single _) (Cut.single _) 4 (by decide)).mpr (Or.inr (by decide)) fun _ => 0xFF).1

/-- Two reads of one byte return the same byte twice; a single byte written is not committed. -/
theorem block_lengths_odd :
    (¬ ∀ (t : MemoryType) (lengths : List Nat) (hlen : lengths.sum < 65536), (Boot.start []).dev.Inside t lengths.sum →
      ∀ n > lengths.length + 1,
        (runTasks n (Boot.start ((blockReads t lengths hlen).map Command.encode))).dev.currAddress =
          (runTasks n (Boot.start [(Command.readBlock t lengths.sum hlen).encode])).dev.currAddress) ∧
    ¬ ∀ (payload : List UInt8) (hlen : payload.length < 65536), payload.length ≤ spmPageSize → ∀ n > 1,
      ∀ i (hi : i < payload.length),
        (runTasks n (Boot.start [(Command.writeBlock .flash payload hlen).encode])).dev.flash i = payload[i] := by
  have hrun (cs : List Command) {n : Nat} (hn : cs.length < n) :
      (runTasks n (Boot.start (cs.map Command.encode))).dev = (Command.execAll cs (Boot.start []).dev).1 :=
    (carriedOut_of_cut (Cut.single cs) (s := Boot.start []) ⟨rfl,rfl,rfl⟩ hn).device
  constructor
  · intro h
    have hcounter := h .flash [1, 1] (by decide) (show 0 + 2 ≤ flashSize by decide) 4 (by decide)
    rw [hrun (blockReads .flash [1, 1] (by decide)) (by decide)] at hcounter
    have hsingle := hrun [.readBlock .flash 2 (by decide)] (show 1 < 4 by decide)
    exact absurd (hcounter.trans (congrArg Device.currAddress hsingle)) (by decide)
  · intro h
    have hcells := h [0x12] (by decide) (by decide) 2 (by decide)
    have hblock := hrun [.writeBlock .flash [0x12] (by decide)] (show 1 < 2 by decide)
    have hcell := (congrArg (fun d => d.flash 0) hblock).symm.trans (hcells 0 (by decide))
    exact absurd hcell (by decide)

end ArduinoAT90USB.Bootloader
