import ArduinoAT90USB.Foundation.Runs

/-! The port-open flag of `USBSerial_`: a static copy of the DTR bit, set by the control-line
callback. The class driver's own state is cleared on every configuration change and nothing
clears the copy, neither then nor on a disconnect. -/
namespace ArduinoAT90USB.Core
open Foundation.Runs

/-- `CDC_LineEncoding_t`. -/
structure LineEncoding where
  baudRateBPS : UInt32
  charFormat : UInt8
  parityType : UInt8
  dataBits : UInt8

/-- `VirtualSerial_CDC_Interface.State`. -/
structure CdcState where
  hostToDevice : UInt16
  deviceToHost : UInt16
  lineEncoding : LineEncoding

/-- `USB_ControlRequest`; `data` is the packet of a data stage, `none` if the device is
unattached before it comes. -/
structure ControlRequest where
  setupReceived : Bool
  bmRequestType : UInt8
  bRequest : UInt8
  wValue : UInt16
  wIndex : UInt16
  data : Option LineEncoding

inductive UsbEvent
  | connect
  | disconnect
  | configurationChanged
  | controlRequest (r : ControlRequest)

/-- The variables the event handlers touch. No code reads `asserted`: the host has asserted
DTR since the device was last detached or configured. -/
structure LinePort where
  state : CdcState
  mLineState : UInt8
  asserted : Bool

def controlLineOutDTR : UInt16 := 1
def controlInterfaceNumber : UInt16 := 0
def cdcReqSetLineEncoding : UInt8 := 0x20
def cdcReqSetControlLineState : UInt8 := 0x22

/-- `REQDIR_HOSTTODEVICE | REQTYPE_CLASS | REQREC_INTERFACE`. -/
def classRequestOut : UInt8 := 0x21

def CdcState.clear : CdcState := ⟨0,0,⟨0,0,0,0⟩⟩

namespace LinePort

def reset : LinePort := ⟨.clear,0,false⟩

/-- `EVENT_CDC_Device_ControLineStateChanged`. -/
def controlLineStateChanged (p : LinePort) : LinePort :=
  {p with mLineState := (p.state.hostToDevice &&& controlLineOutDTR).toUInt8}

/-- `CDC_Device_ProcessControlRequest`. The requests it only answers change nothing here. -/
def processControlRequest (r : ControlRequest) (p : LinePort) : LinePort :=
  if ¬ r.setupReceived then p
  else if r.wIndex ≠ controlInterfaceNumber then p
  else if r.bRequest = cdcReqSetLineEncoding ∧ r.bmRequestType = classRequestOut then
    match r.data with
    | none => p
    | some encoding => {p with state := {p.state with lineEncoding := encoding}}
  else if r.bRequest = cdcReqSetControlLineState ∧ r.bmRequestType = classRequestOut then
    controlLineStateChanged
      {p with
        state := {p.state with hostToDevice := r.wValue}
        asserted := p.asserted || r.wValue &&& controlLineOutDTR != 0}
  else p

/-- `CDC_Device_ConfigureEndpoints`: the state is cleared before any endpoint is set up. -/
def configureEndpoints (p : LinePort) : LinePort := {p with state := .clear}

/-- The `EVENT_USB_Device_*` handlers. -/
def step (p : LinePort) : UsbEvent → LinePort
  | .connect => p
  | .disconnect => {p with asserted := false}
  | .configurationChanged => {p.configureEndpoints with asserted := false}
  | .controlRequest r => p.processControlRequest r

/-- `operator bool`. -/
def toBool (p : LinePort) : Bool := p.mLineState != 0

/-- The flag agrees with the driver's DTR bit, and the port is closed until DTR is asserted. -/
structure Mirrors (p : LinePort) : Prop where
  dtr : p.mLineState ≠ 0 ↔ p.state.hostToDevice &&& controlLineOutDTR ≠ 0
  closed : p.asserted = false → p.toBool = false

/-- The device is neither detached nor configured anew while the port is open. -/
def Orderly (p : LinePort) : UsbEvent → Prop
  | .disconnect | .configurationChanged => p.mLineState = 0
  | .connect | .controlRequest _ => True

end LinePort

private theorem dtr_copy (w : UInt16) : (w &&& controlLineOutDTR).toUInt8 ≠ 0 ↔ w &&& controlLineOutDTR ≠ 0 := by
  have hbit : (w &&& controlLineOutDTR).toNat < 2 := by
    rw [UInt16.toNat_and]
    exact Nat.lt_of_le_of_lt Nat.and_le_right (by decide)
  rw [ne_eq, ne_eq, ← UInt8.toNat_inj, ← UInt16.toNat_inj, UInt16.toNat_toUInt8,
    Nat.mod_eq_of_lt (by omega)]
  exact Iff.rfl

namespace LinePort

private theorem mirrors_request (p : LinePort) (r : ControlRequest) (h : p.Mirrors) :
    (p.processControlRequest r).Mirrors := by
  unfold processControlRequest
  split_ifs
  · exact h
  · split
    · exact h
    · exact ⟨h.dtr,h.closed⟩
  · refine ⟨dtr_copy _,fun hclosed => ?_⟩
    have hlow := (Bool.or_eq_false_iff.mp hclosed).2
    have hzero : r.wValue &&& controlLineOutDTR = 0 := by simpa using hlow
    have hflag : (r.wValue &&& controlLineOutDTR).toUInt8 = 0 := by rw [hzero]; rfl
    exact bne_eq_false_iff_eq.mpr hflag
  · exact h
  · exact h

private theorem mirrors_step (p : LinePort) (e : UsbEvent) (h : p.Mirrors) (hok : p.Orderly e) :
    (p.step e).Mirrors := by
  cases e with
  | connect => exact h
  | disconnect => exact ⟨h.dtr,fun _ => bne_eq_false_iff_eq.mpr hok⟩
  | configurationChanged =>
    have hclear : CdcState.clear.hostToDevice &&& controlLineOutDTR = 0 := rfl
    exact ⟨iff_of_false (fun hne => hne hok) fun hne => hne hclear,fun _ => bne_eq_false_iff_eq.mpr hok⟩
  | controlRequest r => exact mirrors_request p r h

private theorem stale_step (p : LinePort) (e : UsbEvent) (_ : p.Mirrors) (hbad : ¬ p.Orderly e) :
    ¬ (p.step e).Mirrors := by
  intro h
  cases e with
  | connect | controlRequest => exact hbad trivial
  | disconnect | configurationChanged => exact hbad (bne_eq_false_iff_eq.mp (h.closed rfl))

end LinePort

/-- The flag mirrors the device over a whole run exactly if the host drops DTR before every
disconnect and every configuration change. -/
theorem line_state_mirrors (events : List UsbEvent) :
    Always LinePort.step LinePort.Mirrors .reset events ↔ Admits LinePort.step LinePort.Orderly .reset events :=
  always_iff_admits LinePort.mirrors_step (fun _ h => h) LinePort.stale_step
    ⟨iff_of_false (fun h => h rfl) fun h => h rfl,fun _ => rfl⟩ events

/-- DTR is asserted and the cable pulled: the port is still reported open. -/
theorem line_state_stale : ¬ ∀ events, Always LinePort.step LinePort.Mirrors .reset events := by
  intro h
  have hlast := (h [.controlRequest ⟨true,classRequestOut,cdcReqSetControlLineState,1,0,none⟩,.disconnect]).last
  exact absurd (hlast.closed rfl) (by decide)

end ArduinoAT90USB.Core
