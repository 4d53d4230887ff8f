import ArduinoAT90USB.Foundation.AvrInt
import ArduinoAT90USB.Foundation.PagedMemory

/-! The memories of the AT90USB128x as avr-libc lets a boot section drive them, together
with the bootloader's own variables. The instruction set's self-programming operations
are the hardware half of the model; nothing here knows about USB. -/
namespace ArduinoAT90USB.Bootloader
open Foundation.PagedMemory

/-- `SPM_PAGESIZE`, in bytes. -/
def spmPageSize : Nat := 256

/-- `BOOT_START_ADDR`: 128 KiB of flash less the 4 KiB boot section, as the makefile computes it. -/
def bootStartAddr : Nat := (128 - 4) * 1024

/-- The bytes of flash and of EEPROM. -/
def flashSize : Nat := 128 * 1024

def eepromSize : Nat := 4 * 1024

structure Device where
  currAddress : UInt32
  finished : Bool
  flash : Nat → UInt8
  pageBuffer : Nat → UInt16
  eeprom : UInt16 → UInt8
  rwwBusy : Bool
  lockBits : UInt8
  lowFuseBits : UInt8
  highFuseBits : UInt8
  extendedFuseBits : UInt8

/-- An erased part in reset: blank memories and an empty page buffer. -/
def Device.reset : Device where
  currAddress := 0
  finished := false
  flash := fun _ => 0xFF
  pageBuffer := fun _ => 0xFFFF
  eeprom := fun _ => 0xFF
  rwwBusy := false
  lockBits := 0xFF
  lowFuseBits := 0xDE
  highFuseBits := 0x99
  extendedFuseBits := 0xF3

namespace Device

/-- The page-buffer word selected by a byte address. -/
def slot (a : UInt32) : Nat := a.toNat % spmPageSize / 2

def bootPageErase (a : UInt32) (d : Device) : Device :=
  {d with flash := setPage spmPageSize a.toNat (fun _ => 0xFF) d.flash, rwwBusy := true}

def bootPageFill (a : UInt32) (w : UInt16) (d : Device) : Device :=
  {d with pageBuffer := fun i => if i = slot a then w else d.pageBuffer i}

/-- Byte `i` of the page buffer; words are little-endian in flash. -/
def bufferByte (d : Device) (i : Nat) : UInt8 :=
  if i % 2 = 0 then (d.pageBuffer (i / 2)).toUInt8 else (d.pageBuffer (i / 2) >>> 8).toUInt8

def bootPageWrite (a : UInt32) (d : Device) : Device :=
  {d with
    flash := setPage spmPageSize a.toNat d.bufferByte d.flash
    pageBuffer := fun _ => 0xFFFF
    rwwBusy := true}

def bootRwwEnable (d : Device) : Device := {d with rwwBusy := false}

def pgmReadByteFar (a : UInt32) (d : Device) : UInt8 := d.flash a.toNat

def pgmReadWordFar (a : UInt32) (d : Device) : UInt16 :=
  (d.flash (a.toNat + 1)).toUInt16 <<< 8 ||| (d.flash a.toNat).toUInt16

/-- `(uint8_t*)(intptr_t)(CurrAddress >> 1)`: the counter is doubled and pointers have 16 bits. -/
def eepromPointer (d : Device) : UInt16 := (d.currAddress >>> 1).toUInt16

def eepromWriteByte (p : UInt16) (b : UInt8) (d : Device) : Device :=
  {d with eeprom := fun q => if q = p then b else d.eeprom q}

/-- A one in the mask programs the lock bit, that is, clears it. -/
def bootLockBitsSet (mask : UInt8) (d : Device) : Device := {d with lockBits := d.lockBits &&& ~~~mask}

def setCurrAddress (a : UInt32) (d : Device) : Device := {d with currAddress := a}

/-- `CurrAddress += 2`. -/
def advance (d : Device) : Device := {d with currAddress := d.currAddress + 2}

theorem bufferByte_clear {d : Device} (h : d.pageBuffer = fun _ => 0xFFFF) : d.bufferByte = fun _ => 0xFF := by
  funext i
  simp only [bufferByte, h]
  split <;> rfl

theorem bufferByte_word (d : Device) (i : Nat) (w : UInt16) :
    d.bufferByte (2*i) = w.toUInt8 ∧ d.bufferByte (2*i + 1) = (w >>> 8).toUInt8 ↔ d.pageBuffer i = w := by
  have hlow : d.bufferByte (2*i) = (d.pageBuffer i).toUInt8 := by
    rw [bufferByte, if_pos (by omega), show 2*i / 2 = i by omega]
  have hhigh : d.bufferByte (2*i + 1) = (d.pageBuffer i >>> 8).toUInt8 := by
    rw [bufferByte, if_neg (by omega), show (2*i + 1) / 2 = i by omega]
  rw [hlow, hhigh, Foundation.AvrInt.word_ext_iff]

theorem bufferByte_eq_iff (d e : Device) : (∀ i < spmPageSize, d.bufferByte i = e.bufferByte i) ↔
    ∀ i < spmPageSize / 2, d.pageBuffer i = e.pageBuffer i := by
  have hsize : spmPageSize = 256 := rfl
  have hword (i : Nat) : d.bufferByte (2*i) = e.bufferByte (2*i) ∧ d.bufferByte (2*i + 1) = e.bufferByte (2*i + 1) ↔
      d.pageBuffer i = e.pageBuffer i := by
    have he := (bufferByte_word e i _).mpr rfl
    rw [he.1, he.2, bufferByte_word]
  constructor
  · intro h i hi
    rw [hsize] at h hi
    exact (hword i).mp ⟨h _ (by omega),h _ (by omega)⟩
  · intro h i hi
    rw [hsize] at h hi
    obtain ⟨hlow,hhigh⟩ := (hword (i / 2)).mpr (h (i / 2) (by omega))
    rcases Nat.mod_two_eq_zero_or_one i with hp | hp
    · rwa [show 2 * (i / 2) = i by omega] at hlow
    · rwa [show 2 * (i / 2) + 1 = i by omega] at hhigh

end Device

end ArduinoAT90USB.Bootloader
