import ArduinoAT90USB.Usb.ConfigDescriptors

/-! `HID_Host_ConfigurePipes`: the host driver looks in the configuration descriptor of a device for
an interface of the HID class, and opens pipes to its endpoints. -/
namespace ArduinoAT90USB.Usb
open Foundation.Memory Foundation.Cursor

def dtypeConfiguration : UInt8 := 2
def dtypeInterface : UInt8 := 4
def dtypeEndpoint : UInt8 := 5
def hidDtypeHID : UInt8 := 0x21
def hidClass : UInt8 := 3
def nonBootProtocol : UInt8 := 0
/-- `ENDPOINT_DIR_MASK`, and also `ENDPOINT_DIR_IN` and `PIPE_DIR_IN`. -/
def dirIn : UInt8 := 0x80
def epTypeControl : UInt8 := 0
def epTypeInterrupt : UInt8 := 3
def epNumMask : UInt8 := 0x0F
def pipeTotalPipes : Nat := 7
def pipeMaxSize : UInt16 := 256

/-- The registers of one pipe; `configured` is `CFGOK`. -/
structure PipeRegisters where
  upcfg0x : UInt8
  upcfg1x : UInt8
  upcfg2x : UInt8
  upienx : UInt8
  configured : Bool

/-- `Pipe_GetBoundEndpointAddress`: the direction is taken from the lowest bit of the endpoint's
number, since `PEPNUM1` is the number of a bit and not its mask. -/
def PipeRegisters.boundEndpointAddress (r : PipeRegisters) : UInt8 :=
  (r.upcfg0x &&& epNumMask) ||| if r.upcfg0x &&& 1 ≠ 0 then 0 else dirIn

abbrev Pipes := Vector PipeRegisters pipeTotalPipes

def Pipes.isEndpointBound (pipes : Pipes) (endpointAddress : UInt8) : Bool :=
  pipes.toList.any fun r => r.configured && r.boundEndpointAddress = endpointAddress

/-- `USB_Pipe_Table_t`. -/
structure PipeTable where
  address : UInt8
  size : UInt16
  endpointAddress : UInt8
  type : UInt8
  banks : UInt8

section Pipes
-- whether the chip finds room for the pipe
variable (cfgOk : Pipes → Nat → Bool)

/-- The loop of `Pipe_BytesToEPSizeMask`: `checkBytes` is doubled at most five times. -/
def maskTurns (bytes : UInt16) : Nat → UInt8 → UInt16 → UInt8
  | 0, maskVal, _ => maskVal
  | turns+1, maskVal, checkBytes =>
    if checkBytes < bytes ∧ checkBytes < pipeMaxSize then maskTurns bytes turns (maskVal + 1) (checkBytes <<< 1)
    else maskVal

def bytesToEPSizeMask (bytes : UInt16) : UInt8 := maskTurns bytes 5 0 8 <<< 4

def alloc : UInt8 := 2

/-- The loop of `Pipe_ConfigurePipe` over the pipes from `number` on. -/
def Pipes.configureFrom (number : Nat) (r : PipeRegisters) : List (Fin pipeTotalPipes) → Pipes → Bool × Pipes
  | [], pipes => (true,pipes)
  | n :: rest, pipes =>
    let r' := if n.val = number then r else pipes.get n
    if r'.upcfg1x &&& alloc = 0 then configureFrom number r rest pipes
    else
      let pipes := pipes.set n r'
      let configured := cfgOk pipes n
      let pipes := pipes.set n {r' with configured := configured}
      if configured then configureFrom number r rest pipes else (false,pipes)

def Pipes.configurePipe (t : PipeTable) (pipes : Pipes) : Bool × Pipes :=
  let number := (t.address &&& epNumMask).toNat
  let token : UInt8 := if t.type = epTypeControl then 0 else if t.address &&& dirIn ≠ 0 then 0x10 else 0x20
  if pipeTotalPipes ≤ number then (false,pipes)
  else
    let upcfg0x := (t.type <<< 6) ||| token ||| (t.endpointAddress &&& epNumMask)
    let upcfg1x := alloc ||| t.banks ||| bytesToEPSizeMask t.size
    pipes.configureFrom cfgOk number ⟨upcfg0x,upcfg1x,0,0,false⟩ ((List.finRange pipeTotalPipes).drop number)

/-- `Pipe_ConfigurePipeTable` for a table of one entry. -/
def Pipes.configurePipeTable (t : PipeTable) (pipes : Pipes) : Bool × Pipes :=
  if t.address = 0 then (true,pipes) else pipes.configurePipe cfgOk t

end Pipes

/-- `HID_Host_EnumerationFailure_ErrorCodes_t`. -/
inductive HidEnumError
  | noError
  | invalidConfigDescriptor
  | noCompatibleInterfaceFound
  | pipeConfigurationFailed
  deriving DecidableEq

/-- `USB_ClassInfo_HID_Host_t.State`. -/
structure HidHostState where
  isActive : Bool
  interfaceNumber : UInt8
  supportsBootProtocol : Bool
  deviceUsesOUTPipe : Bool
  usingBootProtocol : Bool
  hidReportSize : UInt16
  largestReportSize : UInt8

def HidHostState.clear : HidHostState := ⟨false,0,false,false,false,0,0⟩

/-- `USB_ClassInfo_HID_Host_t`. -/
structure HidHost where
  dataINPipe : PipeTable
  dataOUTPipe : PipeTable
  hidInterfaceProtocol : UInt8
  state : HidHostState

section Comparators
variable (b : Block)

def nextHIDInterface (loc : Nat) : Checked Verdict := do
  if (← descriptorType b loc) = dtypeInterface then
    if (← load b (loc + 5)) = hidClass then return .found
  pure .notFound

def nextHIDDescriptor (loc : Nat) : Checked Verdict := do
  let type ← descriptorType b loc
  if type = hidDtypeHID then pure .found
  else if type = dtypeInterface then pure .fail
  else pure .notFound

def nextHIDInterfaceEndpoint (pipes : Pipes) (loc : Nat) : Checked Verdict := do
  let type ← descriptorType b loc
  if type = dtypeEndpoint then
    if ¬ pipes.isEndpointBound (← load b (loc + 2)) then return .found
  else if type = dtypeInterface then return .fail
  pure .notFound

end Comparators

/-- The variables of `HID_Host_ConfigurePipes`: its position and four pointers. -/
structure HidSearch where
  pos : ConfigPos
  dataINEndpoint : Option Nat
  dataOUTEndpoint : Option Nat
  hidInterface : Option Nat
  hidDescriptor : Option Nat

section Search
variable (b : Block) (protocol : UInt8) (pipes : Pipes) (limit : Nat)

/-- The `do` loop: the next HID interface, with the protocol if one is asked for. -/
def nextInterface : Nat → ConfigPos → Checked (Option ConfigPos)
  | 0, _ => .error .hang
  | fuel+1, p => do
    let (code,q) ← getNextDescriptorComp b (nextHIDInterface b) limit p
    if code ≠ .found then return none
    if protocol ≠ 0 then
      if (← load b (q.loc + 7)) ≠ protocol then return ← nextInterface fuel q
    pure (some q)

/-- The block that looks for the next interface and its HID descriptor. -/
def enterInterface (p : ConfigPos) : Checked (Except HidEnumError HidSearch) := do
  match ← nextInterface b protocol limit limit p with
  | none => pure (.error .noCompatibleInterfaceFound)
  | some i =>
    let (code,h) ← getNextDescriptorComp b (nextHIDDescriptor b) limit i
    if code ≠ .found then return .error .noCompatibleInterfaceFound
    pure (.ok ⟨h,none,none,some i.loc,some h.loc⟩)

/-- The condition of the loop's `if`: without an interface no endpoint is looked for. -/
def nextEndpoint (s : HidSearch) : Checked (SearchComp × ConfigPos) :=
  if s.hidInterface.isNone then pure (.endOfDescriptor,s.pos)
  else getNextDescriptorComp b (nextHIDInterfaceEndpoint b pipes) limit s.pos

/-- The `while` loop; it is left with a code or with the descriptors that were chosen. -/
def searchEndpoints : Nat → HidSearch → Checked (Except HidEnumError HidSearch)
  | 0, _ => .error .hang
  | fuel+1, s => do
    if s.dataINEndpoint.isSome ∧ s.dataOUTEndpoint.isSome then return .ok s
    let (code,q) ← nextEndpoint b pipes limit s
    if code = .found then
      if (← load b (q.loc + 2)) &&& dirIn = dirIn then searchEndpoints fuel {s with pos := q, dataINEndpoint := some q.loc}
      else searchEndpoints fuel {s with pos := q, dataOUTEndpoint := some q.loc}
    else if s.dataINEndpoint.isSome then return .ok {s with pos := q}
    else
      match ← enterInterface b protocol limit q with
      | .error code => pure (.error code)
      | .ok s => searchEndpoints fuel s

end Search

def load16 (b : Block) (loc : Nat) : Checked UInt16 := do
  let low ← load b loc
  let high ← load b (loc + 1)
  pure (low.toUInt16 ||| high.toUInt16 <<< 8)

def pointer (p : Option Nat) : Checked Nat :=
  match p with
  | some loc => .ok loc
  | none => .error .null

section Driver
variable (cfgOk : Pipes → Nat → Bool) (b : Block)

/-- An entry of the driver's table, for the endpoint that was found. -/
def bindPipe (t : PipeTable) (loc : Nat) : Checked PipeTable := do
  let size ← load16 b (loc + 4)
  let endpointAddress ← load b (loc + 2)
  pure {t with size := size, endpointAddress := endpointAddress, type := epTypeInterrupt}

/-- The block for the OUT pipe, which a device need not have. -/
def openOUTPipe (h : HidHost) (pipes : Pipes) : Option Nat → Checked (Bool × HidHost × Pipes)
  | none => pure (true,h,pipes)
  | some loc => do
    let outPipe ← bindPipe b h.dataOUTPipe loc
    let (good,pipes) := pipes.configurePipeTable cfgOk outPipe
    pure (good,{h with dataOUTPipe := outPipe},pipes)

/-- The assignments to `HIDInterfaceInfo->State`. -/
def activate (h : HidHost) (s : HidSearch) : Checked HidHost := do
  let interface ← pointer s.hidInterface
  let interfaceNumber ← load b (interface + 2)
  let hidReportSize ← load16 b ((← pointer s.hidDescriptor) + 7)
  let subClass ← load b (interface + 6)
  let state :=
    {h.state with
      interfaceNumber := interfaceNumber
      hidReportSize := hidReportSize
      supportsBootProtocol := subClass != nonBootProtocol
      largestReportSize := 8
      isActive := true}
  pure {h with state := state}

/-- The part of `HID_Host_ConfigurePipes` behind the search. A pipe that cannot be configured makes
it return `false`, which is `HID_ENUMERROR_NoError`. -/
def openPipes (h : HidHost) (pipes : Pipes) (s : HidSearch) : Checked (HidEnumError × HidHost × Pipes) := do
  let inPipe ← bindPipe b h.dataINPipe (← pointer s.dataINEndpoint)
  let h := {h with dataINPipe := inPipe}
  let (good,pipes) := pipes.configurePipeTable cfgOk inPipe
  if ¬ good then return (.noError,h,pipes)
  let (good,h,pipes) ← openOUTPipe cfgOk b h pipes s.dataOUTEndpoint
  if ¬ good then return (.noError,h,pipes)
  pure (.noError,← activate b h s,pipes)

/-- `HID_Host_ConfigurePipes`; no loop of it takes more than `limit` turns. -/
def configurePipes (limit : Nat) (configDescriptorSize : UInt16) (h : HidHost) (pipes : Pipes) :
    Checked (HidEnumError × HidHost × Pipes) := do
  let h := {h with state := .clear}
  if (← descriptorType b 0) ≠ dtypeConfiguration then return (.invalidConfigDescriptor,h,pipes)
  match ← searchEndpoints b h.hidInterfaceProtocol pipes limit limit ⟨⟨configDescriptorSize,0⟩,none,none,none,none⟩ with
  | .error code => pure (code,h,pipes)
  | .ok s => openPipes cfgOk b h pipes s

end Driver

end ArduinoAT90USB.Usb
