import ArduinoAT90USB.Bootloader.Device
import ArduinoAT90USB.Bootloader.Endpoint
import ArduinoAT90USB.Foundation.TaskLogic

/-! `BootloaderCDC.c`: fetching command bytes, the AVR910 command dispatcher and the block
transfers. A program stops with `error` where the C code polls for a packet that a
host which stays attached never sends. The log records, newest first, every byte taken
from or given to the host and every access to a memory; no code reads it. -/
namespace ArduinoAT90USB.Bootloader
open Foundation Foundation.AvrInt

inductive Event
  | fetch (b : Option UInt8)
  | respond (b : UInt8)
  | erase (a : UInt32)
  | fill (a : UInt32) (w : UInt16)
  | write (a : UInt32)
  | rwwEnable
  | flashRead (a : UInt32) (busy : Bool)
  | eepromRead (p : UInt16)
  | eepromWrite (p : UInt16) (b : UInt8)
  | lockBitsSet (b : UInt8)
deriving DecidableEq, Repr

structure Boot where
  dev : Device
  usb : Usb
  log : List Event

/-- Power-on with a host that delivers `packets` and stays. -/
def Boot.start (packets : List (List UInt8)) : Boot := ⟨.reset, .attached packets, []⟩

abbrev Task := EStateM Unit Boot

/-- Read the device, recording the access. -/
def observe {α : Type} (e : Device → Event) (f : Device → α) : Task α :=
  fun s => .ok (f s.dev) {s with log := e s.dev :: s.log}

/-- Change the device, recording the access. -/
def perform (e : Event) (f : Device → Device) : Task Unit :=
  fun s => .ok () {s with dev := f s.dev, log := e :: s.log}

def getDevice : Task Device := fun s => .ok s.dev s

/-- Assignments to the bootloader's own variables. -/
def assign (f : Device → Device) : Task Unit := fun s => .ok () {s with dev := f s.dev}

def bootPageErase (a : UInt32) : Task Unit := perform (.erase a) (Device.bootPageErase a)
def bootPageFill (a : UInt32) (w : UInt16) : Task Unit := perform (.fill a w) (Device.bootPageFill a w)
def bootPageWrite (a : UInt32) : Task Unit := perform (.write a) (Device.bootPageWrite a)
def bootRwwEnable : Task Unit := perform .rwwEnable Device.bootRwwEnable
def bootLockBitsSet (b : UInt8) : Task Unit := perform (.lockBitsSet b) (Device.bootLockBitsSet b)
def eepromWriteByte (p : UInt16) (b : UInt8) : Task Unit :=
  perform (.eepromWrite p b) (Device.eepromWriteByte p b)
def eepromReadByte (p : UInt16) : Task UInt8 := observe (fun _ => .eepromRead p) (fun d => d.eeprom p)
def pgmReadByteFar (a : UInt32) : Task UInt8 :=
  observe (fun d => .flashRead a d.rwwBusy) (Device.pgmReadByteFar a)
def pgmReadWordFar (a : UInt32) : Task UInt16 :=
  observe (fun d => .flashRead a d.rwwBusy) (Device.pgmReadWordFar a)

/-- Exhausted packets are released until one holds a byte. With none left the poll either
goes on for ever or sees `DEVICE_STATE_Unattached`, and then returns 0 in band. -/
def fetchNextCommandByte : Task UInt8 := fun s =>
  match PacketQueue.next s.usb.out with
  | some (b, out) => .ok b {s with usb := {s.usb with out := out}, log := .fetch (some b) :: s.log}
  | none => match s.usb.fuse with
    | none => .error () {s with usb := {s.usb with out := []}}
    | some _ => .ok 0 {s with usb := {s.usb with out := [], fuse := some 0}, log := .fetch none :: s.log}

theorem fetch_byte {s : Boot} {b : UInt8} {out : List (List UInt8)}
    (h : PacketQueue.next s.usb.out = some (b, out)) : fetchNextCommandByte s =
      .ok b {s with usb := {s.usb with out := out}, log := .fetch (some b) :: s.log} := by
  simp [fetchNextCommandByte, h]

theorem fetch_waits {s : Boot} (h : PacketQueue.next s.usb.out = none) (hf : s.usb.fuse = none) :
    fetchNextCommandByte s = .error () {s with usb := {s.usb with out := []}} := by
  simp [fetchNextCommandByte, h, hf]

theorem fetch_unattached {s : Boot} {n : Nat} (h : PacketQueue.next s.usb.out = none)
    (hf : s.usb.fuse = some n) : fetchNextCommandByte s =
      .ok 0 {s with usb := {s.usb with out := [], fuse := some 0}, log := .fetch none :: s.log} := by
  simp [fetchNextCommandByte, h, hf]

def writeNextResponseByte (b : UInt8) : Task Unit :=
  fun s => .ok () {s with usb := s.usb.writeNextResponseByte b, log := .respond b :: s.log}

/-- `if (HighByte) CurrAddress += 2;` -/
def advanceIf (highByte : Bool) : Task Unit := if highByte then assign .advance else pure ()

/-- `while (BlockSize--)` of a flash read. -/
def readFlashLoop : Nat → Bool → Task Unit
  | 0, _ => pure ()
  | n+1, highByte => do
    let d ← getDevice
    let b ← pgmReadByteFar (d.currAddress ||| (if highByte then 1 else 0))
    writeNextResponseByte b
    advanceIf highByte
    readFlashLoop n (!highByte)

def readEepromLoop : Nat → Task Unit
  | 0 => pure ()
  | n+1 => do
    let d ← getDevice
    let b ← eepromReadByte d.eepromPointer
    writeNextResponseByte b
    assign .advance
    readEepromLoop n

/-- `while (BlockSize--)` of a flash write. -/
def writeFlashLoop : Nat → Bool → UInt8 → Task Unit
  | 0, _, _ => pure ()
  | n+1, true, lowByte => do
    let b ← fetchNextCommandByte
    let d ← getDevice
    bootPageFill d.currAddress (toUInt16 (promote b <<< 8 ||| promote lowByte))
    assign .advance
    writeFlashLoop n false lowByte
  | n+1, false, _ => do
    let b ← fetchNextCommandByte
    writeFlashLoop n true b

def writeEepromLoop : Nat → Task Unit
  | 0 => pure ()
  | n+1 => do
    let b ← fetchNextCommandByte
    let d ← getDevice
    eepromWriteByte d.eepromPointer b
    assign .advance
    writeEepromLoop n

def readBlock (blockSize : UInt16) (memoryType : UInt8) : Task Unit := do
  bootRwwEnable
  if memoryType = 'F'.toUInt8 then readFlashLoop blockSize.toNat false
  else readEepromLoop blockSize.toNat

/-- The flash page addressed at the start of the block is erased first and committed last. -/
def writeFlashBlock (blockSize : UInt16) : Task Unit := do
  let pageStart ← getDevice
  bootPageErase pageStart.currAddress
  writeFlashLoop blockSize.toNat false 0
  bootPageWrite pageStart.currAddress

def writePayload (blockSize : UInt16) (memoryType : UInt8) : Task Unit :=
  if memoryType = 'F'.toUInt8 then writeFlashBlock blockSize else writeEepromLoop blockSize.toNat

def writeBlock (blockSize : UInt16) (memoryType : UInt8) : Task Unit := do
  writePayload blockSize memoryType
  writeNextResponseByte '\r'.toUInt8

def readWriteMemoryBlock (command : UInt8) : Task Unit := do
  let high ← fetchNextCommandByte
  let low ← fetchNextCommandByte
  let memoryType ← fetchNextCommandByte
  let blockSize := toUInt16 (promote high <<< 8 ||| promote low)
  if memoryType ≠ 'E'.toUInt8 ∧ memoryType ≠ 'F'.toUInt8 then writeNextResponseByte '?'.toUInt8
  else if command = 'g'.toUInt8 then readBlock blockSize memoryType
  else writeBlock blockSize memoryType

/-- `CDC_Task`'s `'A'`: each shift is an `int`, widened only by the assignment. -/
def setAddress : Task Unit := do
  let high ← fetchNextCommandByte
  assign (.setCurrAddress (toUInt32 (promote high <<< 9)))
  let low ← fetchNextCommandByte
  let d ← getDevice
  assign (.setCurrAddress (d.currAddress ||| toUInt32 (promote low <<< 1)))
  writeNextResponseByte '\r'.toUInt8

/-- The page addresses visited by the chip-erase loop, too many to unfold by accident. -/
@[irreducible] def applicationPages : List UInt32 :=
  (List.range (bootStartAddr / spmPageSize)).map fun k => UInt32.ofNat (k * spmPageSize)

def eraseApplication : Task Unit := do
  applicationPages.forM fun a => do
    bootPageErase a
    bootPageWrite a
  writeNextResponseByte '\r'.toUInt8

def respondAll (bytes : List UInt8) : Task Unit := bytes.forM writeNextResponseByte

def bootloaderVersionMajor : UInt8 := 0x01
def bootloaderVersionMinor : UInt8 := 0x00
def softwareIdentifier : List UInt8 := "LUFACDC".toList.map Char.toUInt8

/-- `AVR_SIGNATURE_3`, `AVR_SIGNATURE_2`, `AVR_SIGNATURE_1` of the AT90USB1287. -/
def avrSignature : List UInt8 := [0x82, 0x97, 0x1E]

/-- The `'C'` command: the byte alone makes up the page-buffer word. -/
def fillHighByte : Task Unit := do
  let b ← fetchNextCommandByte
  let d ← getDevice
  bootPageFill d.currAddress b.toUInt16
  writeNextResponseByte '\r'.toUInt8

def fillLowByte : Task Unit := do
  let b ← fetchNextCommandByte
  let d ← getDevice
  bootPageFill (d.currAddress ||| 0x01) b.toUInt16
  assign .advance
  writeNextResponseByte '\r'.toUInt8

def writeEepromByte : Task Unit := do
  let b ← fetchNextCommandByte
  let d ← getDevice
  eepromWriteByte d.eepromPointer b
  assign .advance
  writeNextResponseByte '\r'.toUInt8

def readEepromByte : Task Unit := do
  let d ← getDevice
  let b ← eepromReadByte d.eepromPointer
  writeNextResponseByte b
  assign .advance

def commitPage : Task Unit := do
  let d ← getDevice
  bootPageWrite d.currAddress
  writeNextResponseByte '\r'.toUInt8

def readFlashWord : Task Unit := do
  let d ← getDevice
  let programWord ← pgmReadWordFar d.currAddress
  respondAll [(programWord >>> 8).toUInt8, (programWord &&& 0xFF).toUInt8]

def setLockBits : Task Unit := do
  let b ← fetchNextCommandByte
  bootLockBitsSet b
  writeNextResponseByte '\r'.toUInt8

/-- The `else if` chain of `CDC_Task`. -/
def processCommand (command : UInt8) : Task Unit :=
  if command = 'E'.toUInt8 then do
    writeNextResponseByte '\r'.toUInt8
    assign fun d => {d with finished := true}
  else if command = 'T'.toUInt8 then do
    let _ ← fetchNextCommandByte
    writeNextResponseByte '\r'.toUInt8
  else if command = 'L'.toUInt8 ∨ command = 'P'.toUInt8 then writeNextResponseByte '\r'.toUInt8
  else if command = 't'.toUInt8 then respondAll [0x44, 0x00]
  else if command = 'a'.toUInt8 then writeNextResponseByte 'Y'.toUInt8
  else if command = 'A'.toUInt8 then setAddress
  else if command = 'p'.toUInt8 then writeNextResponseByte 'S'.toUInt8
  else if command = 'S'.toUInt8 then respondAll softwareIdentifier
  else if command = 'V'.toUInt8 then
    respondAll ['0'.toUInt8 + bootloaderVersionMajor, '0'.toUInt8 + bootloaderVersionMinor]
  else if command = 's'.toUInt8 then respondAll avrSignature
  else if command = 'e'.toUInt8 then eraseApplication
  else if command = 'l'.toUInt8 then setLockBits
  else if command = 'r'.toUInt8 then do writeNextResponseByte (← getDevice).lockBits
  else if command = 'F'.toUInt8 then do writeNextResponseByte (← getDevice).lowFuseBits
  else if command = 'N'.toUInt8 then do writeNextResponseByte (← getDevice).highFuseBits
  else if command = 'Q'.toUInt8 then do writeNextResponseByte (← getDevice).extendedFuseBits
  else if command = 'b'.toUInt8 then
    respondAll ['Y'.toUInt8, (spmPageSize >>> 8).toUInt8, (spmPageSize &&& 0xFF).toUInt8]
  else if command = 'B'.toUInt8 ∨ command = 'g'.toUInt8 then readWriteMemoryBlock command
  else if command = 'C'.toUInt8 then fillHighByte
  else if command = 'c'.toUInt8 then fillLowByte
  else if command = 'm'.toUInt8 then commitPage
  else if command = 'R'.toUInt8 then readFlashWord
  else if command = 'D'.toUInt8 then writeEepromByte
  else if command = 'd'.toUInt8 then readEepromByte
  else if command ≠ 27 then writeNextResponseByte '?'.toUInt8
  else pure ()

def finishResponse : Task Unit := fun s => .ok () {s with usb := s.usb.finishResponse}

/-- `CDC_Task`, called over and over by `main`. -/
def cdcTask : Task Unit := fun s =>
  if s.usb.isOutReceived then
    (do
      let command ← fetchNextCommandByte
      processCommand command
      finishResponse : Task Unit) s
  else .ok () s

/-- `n` turns of the main loop; a call that waits for ever is the last one. -/
def runTasks : Nat → Boot → Boot
  | 0, s => s
  | n+1, s => match cdcTask s with
    | .ok _ t => runTasks n t
    | .error _ t => t

end ArduinoAT90USB.Bootloader
