import ArduinoAT90USB.Foundation.Surroundings

/-! The sending side of `USBSerial_`: the IN endpoint of the CDC class driver with its one bank,
and a host that polls it when it likes. The processor fills the bank and hands it over with
`Endpoint_ClearIN`; it may write again when the host has taken the packet. -/
namespace ArduinoAT90USB.Core
open Foundation.Surroundings

def cdcTxrxEpsize : Nat := 16

def usbStreamTimeoutMs : UInt8 := 100

/-- `USB_Device_States_t`. -/
inductive DeviceState
  | unattached
  | powered
  | default
  | addressed
  | configured
  | suspended
  deriving DecidableEq

/-- `Endpoint_WaitUntilReady_ErrorCodes_t`, and the codes of the stream functions with the same values. -/
inductive ReadyWait
  | noError
  | endpointStalled
  | deviceDisconnected
  | busSuspended
  | timeout
  deriving DecidableEq

/-- What a control request waits for. -/
inductive ControlWait
  /-- Nothing: the host has done its part in the data and status stages, or no handler knows the request. -/
  | done
  /-- The host, while the device is attached. -/
  | attached
  /-- The host; the last loop of `USB_Device_SetAddress` does not look at the device state. -/
  | always
  deriving DecidableEq

/-- The endpoint, the packets the host has taken from it, and what the driver looks at besides: a
`setup` packet that came, and the `request` the driver is at. -/
structure CdcIn where
  bank : List UInt8
  busy : Bool
  taken : List (List UInt8)
  frameNumber : UInt16
  deviceState : DeviceState
  isStalled : Bool
  baudRateBPS : UInt32
  setup : Option ControlWait
  request : ControlWait

inductive HostEvent
  | poll
  | frame
  | device (state : DeviceState)
  /-- SET_FEATURE or CLEAR_FEATURE of ENDPOINT_HALT. -/
  | stall (stalled : Bool)
  | lineEncoding (baudRateBPS : UInt32)
  /-- `CDC_Device_ConfigureEndpoints`. -/
  | configure
  /-- A control request begins. -/
  | setup (wait : ControlWait)
  /-- The host ends its part in the data and status stages of the request the driver is at. -/
  | serve

namespace CdcIn

/-- A device that was configured and whose line encoding has been set. -/
def opened (baudRateBPS : UInt32) : CdcIn := ⟨[],false,[],0,.configured,false,baudRateBPS,none,.done⟩

def happen (l : CdcIn) : HostEvent → CdcIn
  | .poll => if l.busy && !l.isStalled then {l with taken := l.taken ++ [l.bank], bank := [], busy := false} else l
  | .frame => {l with frameNumber := (l.frameNumber + 1) % 2048}
  | .device state => {l with deviceState := state}
  | .stall true => {l with isStalled := true}
  -- `Endpoint_ResetEndpoint` empties the bank
  | .stall false => {l with bank := [], busy := false, isStalled := false}
  | .lineEncoding baudRateBPS => {l with baudRateBPS := baudRateBPS}
  | .configure => {l with bank := [], busy := false, isStalled := false, baudRateBPS := 0}
  | .setup wait => {l with setup := some wait}
  | .serve => {l with request := .done}

def allowed (l : CdcIn) : Bool := !l.busy && decide (l.bank.length < cdcTxrxEpsize)

abbrev Driver := Program CdcIn HostEvent

def get {α : Type} (f : CdcIn → α) : Driver α := access happen fun l => (f l,l)

def set (f : CdcIn → CdcIn) : Driver Unit := access happen fun l => ((),f l)

def isInReady : Driver Bool := get fun l => !l.busy

def isReadWriteAllowed : Driver Bool := get allowed

def bytesInEndpoint : Driver Nat := get fun l => l.bank.length

def clearIn : Driver Unit := set fun l => {l with busy := true}

/-- `Endpoint_Write_8`; a byte that is not allowed is lost. -/
def write8 (x : UInt8) : Driver Unit := set fun l => if l.allowed then {l with bank := l.bank ++ [x]} else l

def requestTurn (_ : Unit) : Driver (Unit ⊕ Unit) := do
  let wait ← get request
  if wait ≠ .done then do
    let state ← get deviceState
    if state = .unattached ∧ wait = .attached then pure (.inl ()) else pure (.inr ())
  else pure (.inl ())

/-- `USB_Device_ProcessControlRequest`: its loops have no timeout. They stand here as one loop that
ends with the last of them; what the request does is up to the surroundings. -/
def processControlRequest : Driver Unit := do
  set fun l => {l with setup := none, request := l.setup.getD .done}
  loop requestTurn ()

/-- `USB_USBTask` in device mode. -/
def usbUsbTask : Driver Unit := do
  let state ← get deviceState
  if state = .unattached then pure ()
  else do
    let received ← get fun l => l.setup.isSome
    if received then processControlRequest else pure ()

/-- One turn of the loop in `Endpoint_WaitUntilReady`, with `TimeoutMSRem` and `PreviousFrameNumber`. -/
def waitTurn (v : UInt8 × UInt16) : Driver (ReadyWait ⊕ (UInt8 × UInt16)) := do
  let ready ← isInReady
  if ready then pure (.inl .noError)
  else do
    let state ← get deviceState
    if state = .unattached then pure (.inl .deviceDisconnected)
    else if state = .suspended then pure (.inl .busSuspended)
    else do
      let stalled ← get isStalled
      if stalled then pure (.inl .endpointStalled)
      else do
        let current ← get frameNumber
        if current ≠ v.2 then
          if v.1 = 0 then pure (.inl .timeout) else pure (.inr (v.1 - 1,current))
        else pure (.inr v)

def waitUntilReady : Driver ReadyWait := do
  let previous ← get frameNumber
  loop waitTurn (usbStreamTimeoutMs,previous)

def isOpen : Driver Bool := do
  let state ← get deviceState
  if state ≠ .configured then pure false
  else do
    let rate ← get baudRateBPS
    pure (rate != 0)

def sendByte (x : UInt8) : Driver ReadyWait := do
  let opened ← isOpen
  if opened then do
    let room ← isReadWriteAllowed
    if room then do
      write8 x
      pure .noError
    else do
      clearIn
      let code ← waitUntilReady
      if code = .noError then do
        write8 x
        pure .noError
      else pure code
  else pure .deviceDisconnected

/-- One turn of the loop in `Endpoint_Write_Stream_LE`, with the bytes that are left. -/
def streamTurn : List UInt8 → Driver (ReadyWait ⊕ List UInt8)
  | [] => pure (.inl .noError)
  | x :: rest => do
    let room ← isReadWriteAllowed
    if room then do
      write8 x
      pure (.inr rest)
    else do
      clearIn
      usbUsbTask
      let code ← waitUntilReady
      if code = .noError then pure (.inr (x :: rest)) else pure (.inl code)

/-- `Endpoint_Write_Stream_LE` without a `BytesProcessed`. -/
def writeStream (data : List UInt8) : Driver ReadyWait := do
  let code ← waitUntilReady
  if code = .noError then loop streamTurn data else pure code

def sendData (data : List UInt8) : Driver ReadyWait := do
  let opened ← isOpen
  if opened then writeStream data else pure .deviceDisconnected

def deviceFlush : Driver ReadyWait := do
  let opened ← isOpen
  if opened then do
    let bytes ← bytesInEndpoint
    if bytes = 0 then pure .noError
    else do
      let room ← isReadWriteAllowed
      clearIn
      if room then pure .noError
      else do
        let code ← waitUntilReady
        if code = .noError then do
          clearIn
          pure .noError
        else pure code
  else pure .deviceDisconnected

def deviceUsbTask : Driver Unit := do
  let opened ← isOpen
  if opened then do
    let ready ← isInReady
    if ready then do
      let _ ← deviceFlush
      pure ()
    else pure ()
  else pure ()

def doTasks : Driver Unit := do
  deviceUsbTask
  usbUsbTask

/-- `USBSerial_::write`. -/
def write (x : UInt8) : Driver UInt16 := do
  doTasks
  let state ← get deviceState
  if state ≠ .configured then pure 0
  else do
    let code ← sendByte x
    pure (if code = .noError then 1 else 0)

/-- `USBSerial_::flush`. -/
def flush : Driver Unit := do
  doTasks
  let _ ← deviceFlush
  pure ()

end CdcIn
end ArduinoAT90USB.Core
