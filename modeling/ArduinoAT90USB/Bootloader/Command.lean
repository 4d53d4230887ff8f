import ArduinoAT90USB.Bootloader.Task

/-! The AVR910 commands as a host means them: the bytes of a command, its effect on the
device and its answer. Neither packets nor endpoints occur at this level. -/
namespace ArduinoAT90USB.Bootloader
open Foundation.AvrInt

inductive MemoryType
  | eeprom
  | flash
deriving DecidableEq

def MemoryType.code : MemoryType → UInt8
  | .eeprom => 'E'.toUInt8
  | .flash => 'F'.toUInt8

namespace Device

def readFlash : Nat → Bool → Device → Device × List UInt8
  | 0, _, d => (d, [])
  | n+1, highByte, d =>
    let rest := readFlash n (!highByte) (if highByte then d.advance else d)
    (rest.1, d.pgmReadByteFar (d.currAddress ||| (if highByte then 1 else 0)) :: rest.2)

def readEeprom : Nat → Device → Device × List UInt8
  | 0, d => (d, [])
  | n+1, d =>
    let rest := readEeprom n d.advance
    (rest.1, d.eeprom d.eepromPointer :: rest.2)

/-- Payload bytes go to the page buffer in pairs, low byte first. -/
def writeFlash : List UInt8 → Bool → UInt8 → Device → Device
  | [], _, _, d => d
  | b :: rest, true, lowByte, d =>
    writeFlash rest false lowByte
      (d.bootPageFill d.currAddress (toUInt16 (promote b <<< 8 ||| promote lowByte))).advance
  | b :: rest, false, _, d => writeFlash rest true b d

def writeEeprom : List UInt8 → Device → Device
  | [], d => d
  | b :: rest, d => writeEeprom rest (d.eepromWriteByte d.eepromPointer b).advance

def eraseApplication (d : Device) : Device :=
  applicationPages.foldl (fun d a => (d.bootPageErase a).bootPageWrite a) d

end Device

/-- The command bytes that are followed by operands. -/
def takesOperands (c : UInt8) : Bool :=
  ['T', 'A', 'l', 'B', 'g', 'C', 'c', 'D'].any fun k => c == k.toUInt8

/-- A complete command. A block with an unknown memory type has no payload: none is read. -/
inductive Command
  | plain (c : UInt8) (h : takesOperands c = false)
  | selectDevice (b : UInt8)
  | setAddress (high low : UInt8)
  | setLockBits (b : UInt8)
  | fillHighByte (b : UInt8)
  | fillLowByte (b : UInt8)
  | writeEepromByte (b : UInt8)
  | readBlock (t : MemoryType) (n : Nat) (h : n < 65536)
  | writeBlock (t : MemoryType) (payload : List UInt8) (h : payload.length < 65536)
  | badBlock (read : Bool) (high low t : UInt8) (h : t ≠ 'E'.toUInt8 ∧ t ≠ 'F'.toUInt8)

def sizeBytes (n : Nat) : List UInt8 := [UInt8.ofNat (n / 256), UInt8.ofNat n]

namespace Command

def head : Command → UInt8
  | plain c _ => c
  | selectDevice _ => 'T'.toUInt8
  | setAddress _ _ => 'A'.toUInt8
  | setLockBits _ => 'l'.toUInt8
  | fillHighByte _ => 'C'.toUInt8
  | fillLowByte _ => 'c'.toUInt8
  | writeEepromByte _ => 'D'.toUInt8
  | readBlock _ _ _ => 'g'.toUInt8
  | writeBlock _ _ _ => 'B'.toUInt8
  | badBlock read _ _ _ _ => if read then 'g'.toUInt8 else 'B'.toUInt8

def operands : Command → List UInt8
  | plain _ _ => []
  | selectDevice b => [b]
  | setAddress high low => [high, low]
  | setLockBits b => [b]
  | fillHighByte b => [b]
  | fillLowByte b => [b]
  | writeEepromByte b => [b]
  | readBlock t n _ => sizeBytes n ++ [t.code]
  | writeBlock t payload _ => sizeBytes payload.length ++ t.code :: payload
  | badBlock _ high low t _ => [high, low, t]

def encode (c : Command) : List UInt8 := c.head :: c.operands

def execPlain (c : UInt8) (d : Device) : Device × List UInt8 :=
  if c = 'E'.toUInt8 then ({d with finished := true}, ['\r'.toUInt8])
  else if c = 'L'.toUInt8 ∨ c = 'P'.toUInt8 then (d, ['\r'.toUInt8])
  else if c = 't'.toUInt8 then (d, [0x44, 0x00])
  else if c = 'a'.toUInt8 then (d, ['Y'.toUInt8])
  else if c = 'p'.toUInt8 then (d, ['S'.toUInt8])
  else if c = 'S'.toUInt8 then (d, softwareIdentifier)
  else if c = 'V'.toUInt8 then
    (d, ['0'.toUInt8 + bootloaderVersionMajor, '0'.toUInt8 + bootloaderVersionMinor])
  else if c = 's'.toUInt8 then (d, avrSignature)
  else if c = 'e'.toUInt8 then (d.eraseApplication, ['\r'.toUInt8])
  else if c = 'r'.toUInt8 then (d, [d.lockBits])
  else if c = 'F'.toUInt8 then (d, [d.lowFuseBits])
  else if c = 'N'.toUInt8 then (d, [d.highFuseBits])
  else if c = 'Q'.toUInt8 then (d, [d.extendedFuseBits])
  else if c = 'b'.toUInt8 then
    (d, ['Y'.toUInt8, (spmPageSize >>> 8).toUInt8, (spmPageSize &&& 0xFF).toUInt8])
  else if c = 'm'.toUInt8 then (d.bootPageWrite d.currAddress, ['\r'.toUInt8])
  else if c = 'R'.toUInt8 then
    (d, [(d.pgmReadWordFar d.currAddress >>> 8).toUInt8, (d.pgmReadWordFar d.currAddress &&& 0xFF).toUInt8])
  else if c = 'd'.toUInt8 then (d.advance, [d.eeprom d.eepromPointer])
  else if c ≠ 27 then (d, ['?'.toUInt8])
  else (d, [])

/-- The device after the command, and the bytes answered. -/
def exec : Command → Device → Device × List UInt8
  | plain c _, d => execPlain c d
  | selectDevice _, d => (d, ['\r'.toUInt8])
  | setAddress high low, d =>
    (d.setCurrAddress (toUInt32 (promote high <<< 9) ||| toUInt32 (promote low <<< 1)), ['\r'.toUInt8])
  | setLockBits b, d => (d.bootLockBitsSet b, ['\r'.toUInt8])
  | fillHighByte b, d => (d.bootPageFill d.currAddress b.toUInt16, ['\r'.toUInt8])
  | fillLowByte b, d => ((d.bootPageFill (d.currAddress ||| 1) b.toUInt16).advance, ['\r'.toUInt8])
  | writeEepromByte b, d => ((d.eepromWriteByte d.eepromPointer b).advance, ['\r'.toUInt8])
  | readBlock .flash n _, d => d.bootRwwEnable.readFlash n false
  | readBlock .eeprom n _, d => d.bootRwwEnable.readEeprom n
  | writeBlock .flash payload _, d =>
    (((d.bootPageErase d.currAddress).writeFlash payload false 0).bootPageWrite d.currAddress, ['\r'.toUInt8])
  | writeBlock .eeprom payload _, d => (d.writeEeprom payload, ['\r'.toUInt8])
  | badBlock _ _ _ _ _, d => (d, ['?'.toUInt8])

-- the plain commands that work on the memories
def chipErase : Command := .plain 'e'.toUInt8 (by decide)
def commitPage : Command := .plain 'm'.toUInt8 (by decide)
def readWord : Command := .plain 'R'.toUInt8 (by decide)
def readEepromByte : Command := .plain 'd'.toUInt8 (by decide)

def execAll : List Command → Device → Device × List (List UInt8)
  | [], d => (d, [])
  | c :: rest, d =>
    let first := c.exec d
    let last := execAll rest first.1
    (last.1, first.2 :: last.2)

theorem execAll_append (front back : List Command) (d : Device) : execAll (front ++ back) d =
    ((execAll back (execAll front d).1).1,(execAll front d).2 ++ (execAll back (execAll front d).1).2) := by
  induction front generalizing d with
  | nil => rfl
  | cons c rest ih => simp only [List.cons_append, execAll, ih]

end Command

theorem sizeBytes_word {n : Nat} (h : n < 65536) :
    (toUInt16 (promote (UInt8.ofNat (n / 256)) <<< 8 ||| promote (UInt8.ofNat n))).toNat = n := by
  rw [word_toNat]
  simp only [UInt8.toNat_ofNat']
  omega

end ArduinoAT90USB.Bootloader
