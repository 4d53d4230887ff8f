import ArduinoAT90USB.Bootloader.Packets

/-! EEPROM in blocks and EEPROM byte by byte. The address counter is doubled and shifted back at
each access; both paths advance it by two, so that they visit the same cells in the same order. -/
namespace ArduinoAT90USB.Bootloader
open Foundation

namespace Device

theorem eepromPointer_advance (d : Device) : d.advance.eepromPointer = d.eepromPointer + 1 := by
  apply UInt16.toNat_inj.mp
  have hhalf (a : UInt32) : (a >>> 1).toUInt16.toNat = a.toNat / 2 % 65536 := by
    rw [UInt32.toNat_toUInt16, UInt32.toNat_shiftRight]
    rfl
  have hd := d.currAddress.toNat_lt
  rw [UInt16.toNat_add, eepromPointer, eepromPointer, hhalf, hhalf, advance, UInt32.toNat_add]
  change (d.currAddress.toNat + 2) % 4294967296 / 2 % 65536 = (d.currAddress.toNat / 2 % 65536 + 1) % 65536
  omega

/-- The cells after a payload: each byte is as far from the pointer as it is into the payload. -/
theorem writeEeprom_cell (payload : List UInt8) (d : Device) (h : payload.length ≤ 65536) (p : UInt16) :
    (d.writeEeprom payload).eeprom p = (payload[(p - d.eepromPointer).toNat]?).getD (d.eeprom p) := by
  induction payload generalizing d with
  | nil => rfl
  | cons b rest ih =>
    rw [List.length_cons] at h
    have hp := p.toNat_lt
    have hd := d.eepromPointer.toNat_lt
    have hpointer : (d.eepromWriteByte d.eepromPointer b).advance.eepromPointer = d.eepromPointer + 1 :=
      eepromPointer_advance _
    have hstep := UInt16.toNat_add d.eepromPointer 1
    change (d.eepromPointer + 1).toNat = (d.eepromPointer.toNat + 1) % 65536 at hstep
    rw [writeEeprom, ih _ (by omega), hpointer]
    change _ = ((b :: rest)[_]?).getD _
    by_cases hfirst : p = d.eepromPointer
    · -- the pointer does not come back to the first cell
      have hlast : rest.length ≤ (p - (d.eepromPointer + 1)).toNat := by
        rw [UInt16.toNat_sub, hstep, hfirst]
        omega
      rw [List.getElem?_eq_none hlast, hfirst, UInt16.sub_self]
      exact if_pos rfl
    · have hne : p.toNat ≠ d.eepromPointer.toNat := fun he => hfirst (UInt16.toNat_inj.mp he)
      have hsucc : (p - d.eepromPointer).toNat = (p - (d.eepromPointer + 1)).toNat + 1 := by
        rw [UInt16.toNat_sub, UInt16.toNat_sub, hstep]
        omega
      rw [hsucc, List.getElem?_cons_succ]
      congr 1
      exact if_neg hfirst

theorem readEeprom_cells (payload : List UInt8) (d : Device)
    (h : ∀ i (hi : i < payload.length), d.eeprom (d.eepromPointer + UInt16.ofNat i) = payload[i]) :
    (d.readEeprom payload.length).2 = payload := by
  induction payload generalizing d with
  | nil => rfl
  | cons b rest ih =>
    have hfirst : d.eeprom d.eepromPointer = b := by
      simpa using h 0 (Nat.zero_lt_succ _)
    have hrest := ih d.advance fun i hi => by
      have hcell := h (i+1) (Nat.succ_lt_succ hi)
      rw [UInt16.ofNat_add, UInt16.add_comm (UInt16.ofNat i), ← UInt16.add_assoc] at hcell
      rw [eepromPointer_advance]
      exact hcell
    change d.eeprom d.eepromPointer :: (d.advance.readEeprom rest.length).2 = _
    rw [hfirst, hrest]

theorem writeEeprom_offset {payload : List UInt8} {d : Device} (h : payload.length ≤ 65536) {i : Nat} (hi : i < payload.length) :
    (d.writeEeprom payload).eeprom (d.eepromPointer + UInt16.ofNat i) = payload[i] := by
  rw [writeEeprom_cell payload d h, UInt16.add_comm, UInt16.add_sub_cancel,
    UInt16.toNat_ofNat_of_lt' (by change i < 65536; omega), List.getElem?_eq_getElem hi]
  rfl

theorem writeEeprom_reads_back {payload : List UInt8} {d e : Device} (h : payload.length ≤ 65536)
    (heeprom : e.eeprom = (d.writeEeprom payload).eeprom) (haddress : e.currAddress = d.currAddress) :
    (e.readEeprom payload.length).2 = payload := by
  refine readEeprom_cells payload e fun i hi => ?_
  have hpointer : e.eepromPointer = d.eepromPointer := by
    rw [eepromPointer, haddress, eepromPointer]
  rw [heeprom, hpointer, writeEeprom_offset h hi]

def InEeprom (d : Device) (n : Nat) : Prop := d.eepromPointer.toNat + n ≤ eepromSize

theorem InEeprom.lt {d : Device} {n : Nat} (h : d.InEeprom n) : n < 65536 := by
  have hsize : eepromSize = 4096 := rfl
  rw [InEeprom, hsize] at h
  omega

theorem InEeprom.frame {d : Device} {payload : List UInt8} (h : d.InEeprom payload.length) {p : UInt16}
    (hp : p.toNat < d.eepromPointer.toNat ∨ d.eepromPointer.toNat + payload.length ≤ p.toNat) :
    (d.writeEeprom payload).eeprom p = d.eeprom p := by
  have hsize : eepromSize = 4096 := rfl
  have hlt := p.toNat_lt
  rw [InEeprom, hsize] at h
  have hout : payload.length ≤ (p - d.eepromPointer).toNat := by
    rw [UInt16.toNat_sub]
    omega
  rw [writeEeprom_cell payload d (by omega), List.getElem?_eq_none hout]
  rfl

end Device

theorem execAll_writeEepromByte (payload : List UInt8) (d : Device) :
    (Command.execAll (payload.map .writeEepromByte) d).1 = d.writeEeprom payload := by
  induction payload generalizing d with
  | nil => rfl
  | cons b rest ih => exact ih _

/-- Byte reads answer as the block read does and leave its counter; they do not enable the flash. -/
theorem execAll_readEepromByte (n : Nat) (d : Device) :
    (Command.execAll (List.replicate n Command.readEepromByte) d).1 = (d.readEeprom n).1 ∧
      (Command.execAll (List.replicate n Command.readEepromByte) d).2.flatten = (d.readEeprom n).2 := by
  induction n generalizing d with
  | zero => exact ⟨rfl,rfl⟩
  | succ n ih =>
    obtain ⟨hdevice,hanswers⟩ := ih d.advance
    exact ⟨hdevice,congrArg (d.eeprom d.eepromPointer :: ·) hanswers⟩

theorem readEeprom_bootRwwEnable (n : Nat) (d : Device) :
    d.bootRwwEnable.readEeprom n = ((d.readEeprom n).1.bootRwwEnable,(d.readEeprom n).2) := by
  induction n generalizing d with
  | zero => rfl
  | succ n ih =>
    change ((d.advance.bootRwwEnable.readEeprom n).1,_ :: (d.advance.bootRwwEnable.readEeprom n).2) = _
    rw [ih]
    rfl

/-- The same bootloader with the address counter at `a`. -/
def Boot.rewindTo (a : UInt32) (s : Boot) : Boot := {s with dev := s.dev.setCurrAddress a}

/-- A block of EEPROM against its bytes, both sent in any packets: the same cells and the same
counter after writing, the same answers and the same counter after reading. The bytes written are
read back from the same start, and no other cell has changed. -/
theorem eeprom_blocks_bytes (s : Boot) (hi : s.usb.Idle) (payload : List UInt8) (hin : s.dev.InEeprom payload.length)
    {q₁ q₂ q₃ q₄ : List (List UInt8)} (h₁ : Cut [.writeBlock .eeprom payload hin.lt] q₁)
    (h₂ : Cut (payload.map .writeEepromByte) q₂) (h₃ : Cut [.readBlock .eeprom payload.length hin.lt] q₃)
    (h₄ : Cut (List.replicate payload.length Command.readEepromByte) q₄) {n : Nat} (hn : payload.length + 1 < n) :
    let block := runTasks n (s.receive q₁)
    let bytes := runTasks n (s.receive q₂)
    let blockRead := runTasks n (s.receive q₃)
    let bytesRead := runTasks n (s.receive q₄)
    (block.dev.eeprom = bytes.dev.eeprom ∧ block.dev.currAddress = bytes.dev.currAddress) ∧
      (blockRead.usb.sent.flatten = bytesRead.usb.sent.flatten ∧ blockRead.dev.currAddress = bytesRead.dev.currAddress) ∧
      (runTasks n ((block.rewindTo s.dev.currAddress).receive q₃)).usb.sent.flatten = block.usb.sent.flatten ++ payload ∧
      (runTasks n ((bytes.rewindTo s.dev.currAddress).receive q₄)).usb.sent.flatten = bytes.usb.sent.flatten ++ payload ∧
      ∀ p : UInt16, p.toNat < s.dev.eepromPointer.toNat ∨ s.dev.eepromPointer.toNat + payload.length ≤ p.toNat →
        block.dev.eeprom p = s.dev.eeprom p := by
  intro block bytes blockRead bytesRead
  have hblock := carriedOut_of_cut h₁ hi (show 1 < n by omega)
  have hbytes := carriedOut_of_cut h₂ hi (n := n) (by rw [List.length_map]; omega)
  have hblockRead := carriedOut_of_cut h₃ hi (show 1 < n by omega)
  have hbytesRead := carriedOut_of_cut h₄ hi (n := n) (by rw [List.length_replicate]; omega)
  have hdevice : block.dev = s.dev.writeEeprom payload := hblock.device
  have hsame : bytes.dev = s.dev.writeEeprom payload := hbytes.device.trans (execAll_writeEepromByte payload s.dev)
  have hanswers : (s.dev.bootRwwEnable.readEeprom payload.length).2 = (s.dev.readEeprom payload.length).2 := by
    rw [readEeprom_bootRwwEnable]
  have haddress : (s.dev.bootRwwEnable.readEeprom payload.length).1.currAddress =
      (s.dev.readEeprom payload.length).1.currAddress := by
    rw [readEeprom_bootRwwEnable]
    rfl
  obtain ⟨hreads,hbyteAnswers⟩ := execAll_readEepromByte payload.length s.dev
  refine ⟨by rw [hdevice, hsame]; exact ⟨rfl,rfl⟩,⟨?_,?_⟩,?_,?_,fun p hp => ?_⟩
  · rw [hblockRead.answers, hbytesRead.answers, hbyteAnswers]
    exact congrArg _ ((List.append_nil _).trans hanswers)
  · rw [hblockRead.device, hbytesRead.device, hreads]
    exact haddress
  · have hback := carriedOut_of_cut h₃ (s := block.rewindTo s.dev.currAddress) hblock.ready (show 1 < n by omega)
    rw [hback.answers]
    refine congrArg _ ((List.append_nil _).trans ?_)
    refine Device.writeEeprom_reads_back (Nat.le_of_lt hin.lt) (d := s.dev) ?_ rfl
    change block.dev.eeprom = _
    rw [hdevice]
  · have hback := carriedOut_of_cut h₄ (s := bytes.rewindTo s.dev.currAddress) hbytes.ready (n := n)
      (by rw [List.length_replicate]; omega)
    rw [hback.answers, (execAll_readEepromByte _ _).2]
    refine congrArg _ (Device.writeEeprom_reads_back (Nat.le_of_lt hin.lt) (d := s.dev) ?_ rfl)
    change bytes.dev.eeprom = _
    rw [hsame]
  · rw [hdevice]
    exact hin.frame hp

private theorem twoBytes_inEeprom : (Boot.start []).dev.InEeprom [0xAA, 0x55].length := by
  change 0 + 2 ≤ eepromSize
  decide

private theorem twoBytes_block : Cut [.writeBlock .eeprom [0xAA, 0x55] twoBytes_inEeprom.lt]
    [['B'.toUInt8, 0, 2, 'E'.toUInt8], [0xAA, 0x55]] := by
  have h : Cut [.writeBlock .eeprom [0xAA, 0x55] twoBytes_inEeprom.lt]
      ([['B'.toUInt8, 0, 2, 'E'.toUInt8], [0xAA, 0x55]] ++ []) := .command rfl (.done (by simp))
  exact h

private theorem twoBytes_bytes : Cut ([0xAA, 0x55].map .writeEepromByte) [['D'.toUInt8, 0xAA], ['D'.toUInt8, 0x55]] :=
  Cut.single ([0xAA, 0x55].map .writeEepromByte)

/-- Two bytes at the start of EEPROM, in a block and one by one. -/
theorem eeprom_blocks_bytes_two :
    (runTasks 4 ((Boot.start []).receive [['B'.toUInt8, 0, 2, 'E'.toUInt8], [0xAA, 0x55]])).dev.eeprom =
      (runTasks 4 ((Boot.start []).receive [['D'.toUInt8, 0xAA], ['D'.toUInt8, 0x55]])).dev.eeprom :=
  (eeprom_blocks_bytes (Boot.start []) ⟨rfl,rfl,rfl⟩ [0xAA, 0x55] twoBytes_inEeprom twoBytes_block twoBytes_bytes (Cut.single _)
    (Cut.single _) (show 3 < 4 by decide)).1.1

end ArduinoAT90USB.Bootloader
