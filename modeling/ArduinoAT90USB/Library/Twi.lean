import ArduinoAT90USB.Foundation.Memory

/-! The two-wire interface of `twi.c`, software and hardware. The interrupt handler reacts to
the status codes the interface reports; what it writes into `TWCR` decides which codes can
follow. The program waits inside a call while the interrupts go on. -/
namespace ArduinoAT90USB.Library
open Foundation.Memory

def twiBufferLength : Nat := 32

/-- `TW_STATUS`; a lost arbitration has one code for both master modes. -/
inductive TwiStatus
  | start
  | repStart
  | mtSlaAck
  | mtSlaNack
  | mtDataAck
  | mtDataNack
  | arbLost
  | mrSlaAck
  | mrSlaNack
  | mrDataAck
  | mrDataNack
  | srSlaAck
  | srArbLostSlaAck
  | srGcallAck
  | srArbLostGcallAck
  | srDataAck
  | srDataNack
  | srGcallDataAck
  | srGcallDataNack
  | srStop
  | stSlaAck
  | stArbLostSlaAck
  | stDataAck
  | stDataNack
  | stLastData
  | noInfo
  | busError
  deriving DecidableEq

inductive TwiState
  | ready
  | mrx
  | mtx
  | srx
  | stx
  deriving DecidableEq

/-- What is written into `TWCR`: `TWEA`, `TWSTA`, `TWSTO` and `TWIE`. -/
structure TwiControl where
  ack : Bool
  start : Bool
  stop : Bool
  interrupt : Bool

/-- The data of a call, whose length is an `uint8_t`. -/
structure TwiMessage where
  data : List UInt8
  short : data.length < 256

/-- The variables of `twi.c` and the registers it writes. `twi_error` is 0xff for none. -/
structure Twi where
  state : TwiState
  slarw : UInt8
  sendStop : Bool
  inRepStart : Bool
  masterBuffer : Vector UInt8 twiBufferLength
  masterBufferIndex : UInt8
  masterBufferLength : UInt8
  txBuffer : Vector UInt8 twiBufferLength
  txBufferIndex : UInt8
  txBufferLength : UInt8
  rxBuffer : Vector UInt8 twiBufferLength
  rxBufferIndex : UInt8
  error : UInt8
  twcr : TwiControl
  twdr : UInt8

namespace Twi

/-- `twi_init`. -/
def init : Twi :=
  ⟨.ready,0,true,false,Vector.replicate _ 0,0,0,Vector.replicate _ 0,0,0,Vector.replicate _ 0,0,0,⟨true,false,false,true⟩,0⟩

/-- `twi_reply`. -/
def reply (ack : Bool) (s : Twi) : Twi := {s with twcr := ⟨ack,false,false,true⟩}

/-- `twi_stop`. -/
def stop (s : Twi) : Twi := {s with twcr := ⟨true,false,true,true⟩, state := .ready}

def releaseBus (s : Twi) : Twi := {s with twcr := ⟨true,false,false,true⟩, state := .ready}

/-- The end of a master transfer: a stop, or a start whose interrupt is left to the next call. -/
def endTransfer (s : Twi) : Twi :=
  if s.sendStop then s.stop
  else {s with inRepStart := true, twcr := ⟨false,true,false,false⟩, state := .ready}

def transmit (s : Twi) (m : TwiMessage) : Checked (UInt8 × Twi) :=
  if twiBufferLength < m.data.length then .ok (1,s)
  else if s.state ≠ .stx then .ok (2,s)
  else do
    let b ← copyInto m.data 0 s.txBuffer
    .ok (0,{s with txBufferLength := UInt8.ofNat m.data.length, txBuffer := b})

/-- `twi_onSlaveTransmit`: a callback that makes these calls of `twi_transmit`. -/
def onSlaveTransmit : List TwiMessage → Twi → Checked Twi
  | [], s => .ok s
  | m :: rest, s => do
    let r ← s.transmit m
    onSlaveTransmit rest r.2

/-- The next byte of a slave transmitter, acknowledged if it is not the last. -/
def sendNext (s : Twi) : Checked Twi := do
  let x ← loadAt s.txBuffer s.txBufferIndex.toNat
  let s := {s with twdr := x, txBufferIndex := s.txBufferIndex + 1}
  .ok (s.reply (s.txBufferIndex < s.txBufferLength))

/-- A byte received as master goes into the buffer. -/
def storeMaster (s : Twi) : Checked Twi := do
  let b ← storeAt s.masterBuffer s.masterBufferIndex.toNat s.twdr
  .ok {s with masterBuffer := b, masterBufferIndex := s.masterBufferIndex + 1}

def replyMaster (s : Twi) : Twi := s.reply (s.masterBufferIndex < s.masterBufferLength)

/-- The next byte of a master transmitter, or the end. -/
def sendMaster (s : Twi) : Checked Twi :=
  if s.masterBufferIndex < s.masterBufferLength then do
    let x ← loadAt s.masterBuffer s.masterBufferIndex.toNat
    .ok ({s with twdr := x, masterBufferIndex := s.masterBufferIndex + 1}.reply true)
  else .ok s.endTransfer

/-- A byte received as slave goes into the buffer if there is room. -/
def storeSlave (s : Twi) : Checked Twi :=
  if s.rxBufferIndex.toNat < twiBufferLength then do
    let b ← storeAt s.rxBuffer s.rxBufferIndex.toNat s.twdr
    .ok ({s with rxBuffer := b, rxBufferIndex := s.rxBufferIndex + 1}.reply true)
  else .ok (s.reply false)

/-- `TW_SR_STOP` up to its callback: a NUL if there is room, then `twi_stop`, from which on the
interface answers to its address again. -/
def closeSlave (s : Twi) : Checked Twi := do
  let b ← if s.rxBufferIndex.toNat < twiBufferLength then storeAt s.rxBuffer s.rxBufferIndex.toNat 0 else .ok s.rxBuffer
  .ok {s with rxBuffer := b}.stop

/-- `TW_SR_STOP` after its callback, which has found the state `TWI_READY`, where `twi_transmit` refuses. -/
def leaveSlave (s : Twi) : Twi := {s with rxBufferIndex := 0}.releaseBus

/-- A slave transmitter that was given nothing to send sends one NUL. -/
def orNul (s : Twi) : Checked Twi :=
  if s.txBufferLength = 0 then do
    let b ← storeAt s.txBuffer 0 0
    .ok {s with txBufferLength := 1, txBuffer := b}
  else .ok s

def beginSlaveTransmit (calls : List TwiMessage) (s : Twi) : Checked Twi := do
  let s ← onSlaveTransmit calls {s with state := .stx, txBufferIndex := 0, txBufferLength := 0}
  let s ← s.orNul
  s.sendNext

section SlaveBuffer
variable (s : Twi) (calls : List TwiMessage)

theorem transmit_only (m : TwiMessage) : ∃ r b n,
    s.transmit m = .ok (r,{s with txBuffer := b, txBufferLength := n}) ∧ (n = s.txBufferLength ∨ n.toNat ≤ 32) := by
  unfold transmit
  by_cases hlong : twiBufferLength < m.data.length
  · exact ⟨1,s.txBuffer,s.txBufferLength,if_pos hlong,.inl rfl⟩
  · rw [if_neg hlong]
    by_cases hstate : s.state ≠ .stx
    · exact ⟨2,s.txBuffer,s.txBufferLength,if_pos hstate,.inl rfl⟩
    · obtain ⟨b,hb,_⟩ := copyInto_inside s.txBuffer m.data (i := 0) (by omega)
      rw [if_neg hstate,hb]
      refine ⟨0,b,UInt8.ofNat m.data.length,rfl,.inr ?_⟩
      rw [UInt8.toNat_ofNat',Nat.mod_eq_of_lt m.short]
      exact Nat.not_lt.mp hlong

theorem onSlaveTransmit_only : ∃ b n,
    onSlaveTransmit calls s = .ok {s with txBuffer := b, txBufferLength := n} ∧ (n = s.txBufferLength ∨ n.toNat ≤ 32) := by
  induction calls generalizing s with
  | nil => exact ⟨s.txBuffer,s.txBufferLength,rfl,.inl rfl⟩
  | cons m rest ih =>
    obtain ⟨r,b,n,hm,hn⟩ := s.transmit_only m
    obtain ⟨b',n',hrest,hn'⟩ := ih {s with txBuffer := b, txBufferLength := n}
    refine ⟨b',n',?_,hn'.elim (fun hsame => hsame ▸ hn) .inr⟩
    rw [onSlaveTransmit,hm,ok_bind]
    exact hrest

theorem orNul_only : ∃ b n,
    s.orNul = .ok {s with txBuffer := b, txBufferLength := n} ∧ (n = s.txBufferLength ∨ n.toNat ≤ 32) := by
  rw [orNul]
  split
  · rw [storeAt_inside (by decide : 0 < twiBufferLength)]
    exact ⟨_,1,rfl,.inr (by decide)⟩
  · exact ⟨s.txBuffer,s.txBufferLength,rfl,.inl rfl⟩

/-- A slave transmitter sends the first byte of what its callback has left in the buffer. -/
theorem beginSlaveTransmit_only : ∃ b n, n.toNat ≤ 32 ∧ s.beginSlaveTransmit calls =
    ({s with state := .stx, txBufferIndex := 0, txBufferLength := n, txBuffer := b} : Twi).sendNext := by
  obtain ⟨b,n,hcalls,hn⟩ := onSlaveTransmit_only {s with state := .stx, txBufferIndex := 0, txBufferLength := 0} calls
  obtain ⟨b',n',hnul,hn'⟩ :=
    orNul_only {s with state := .stx, txBufferIndex := 0, txBufferLength := n, txBuffer := b}
  refine ⟨b',n',?_,?_⟩
  · rcases hn' with rfl | hshort
    · rcases hn with rfl | hshort
      · exact Nat.zero_le 32
      · exact hshort
    · exact hshort
  · rw [beginSlaveTransmit,hcalls,ok_bind,hnul,ok_bind]

end SlaveBuffer

/-- `ISR(TWI_vect)`, for `TW_SR_STOP` up to its callback; `calls` are the calls the slave transmit callback makes. -/
def handler (s : Twi) (calls : List TwiMessage) : TwiStatus → Checked Twi
  | .start | .repStart => .ok ({s with twdr := s.slarw}.reply true)
  | .mtSlaAck | .mtDataAck => s.sendMaster
  | .mtSlaNack => .ok {s with error := 0x20}.stop
  | .mtDataNack => .ok {s with error := 0x30}.stop
  | .arbLost => .ok {s with error := 0x38}.releaseBus
  | .mrDataAck => do
    let s ← s.storeMaster
    .ok s.replyMaster
  | .mrSlaAck => .ok s.replyMaster
  | .mrDataNack => do
    let s ← s.storeMaster
    .ok s.endTransfer
  | .mrSlaNack => .ok s.stop
  | .srSlaAck | .srGcallAck | .srArbLostSlaAck | .srArbLostGcallAck =>
    .ok ({s with state := .srx, rxBufferIndex := 0}.reply true)
  | .srDataAck | .srGcallDataAck => s.storeSlave
  | .srStop => s.closeSlave
  | .srDataNack | .srGcallDataNack => .ok (s.reply false)
  | .stSlaAck | .stArbLostSlaAck => s.beginSlaveTransmit calls
  | .stDataAck => s.sendNext
  | .stDataNack | .stLastData => .ok {s.reply true with state := .ready}
  | .noInfo => .ok s
  | .busError => .ok {s with error := 0x00}.stop

/-- The common end of the two master calls up to their waiting loops. -/
def begin (s : Twi) : Twi :=
  if s.inRepStart then {s with inRepStart := false, twdr := s.slarw, twcr := ⟨true,false,false,true⟩}
  else {s with twcr := ⟨true,true,false,true⟩}

/-- The assignments of `twi_readFrom` between the one to `twi_state` and the end. -/
def prepareRead (s : Twi) (address length : UInt8) (sendStop : Bool) : Twi :=
  {s with
    sendStop := sendStop
    error := 0xff
    masterBufferIndex := 0
    masterBufferLength := length - 1
    slarw := (1 : UInt8) ||| address <<< 1}

/-- The assignments of `twi_writeTo` between the one to `twi_state` and the end. -/
def prepareWrite (s : Twi) (address : UInt8) (m : TwiMessage) (sendStop : Bool) : Checked Twi := do
  let b ← copyInto m.data 0 s.masterBuffer
  .ok {s with
    sendStop := sendStop
    error := 0xff
    masterBufferIndex := 0
    masterBufferLength := UInt8.ofNat m.data.length
    masterBuffer := b
    slarw := address <<< 1}

/-- `twi_readFrom` from `TWI_READY` to its waiting loop, without an interrupt. -/
def beginRead (s : Twi) (address length : UInt8) (sendStop : Bool) : Twi :=
  ({s with state := .mrx}.prepareRead address length sendStop).begin

/-- `twi_writeTo` from `TWI_READY` to its waiting loop, without an interrupt. -/
def beginWrite (s : Twi) (address : UInt8) (m : TwiMessage) (sendStop : Bool) : Checked Twi := do
  let t ← {s with state := .mtx}.prepareWrite address m sendStop
  .ok t.begin

/-- `SLA+W` has its last bit clear. -/
theorem write_address (address : UInt8) : address <<< 1 &&& 1 ≠ 1 := by
  intro h
  have hn := congrArg UInt8.toNat h
  simp [UInt8.toNat_shiftLeft, Nat.shiftLeft_eq, Nat.and_one_is_mod] at hn

/-- What `twi_writeTo` returns. -/
def writeResult (s : Twi) : UInt8 :=
  if s.error = 0xff then 0 else if s.error = 0x20 then 2 else if s.error = 0x30 then 3 else 4

end Twi

/-- What the interface is doing on the bus. -/
inductive TwiPhase
  /-- Nothing; with `ack` it answers to its own address. -/
  | idle (ack : Bool)
  /-- Waiting for the bus to send a start. -/
  | starting
  /-- A repeated start is out and the interrupt off until the next call. -/
  | restarted
  /-- The address byte is going out, for a transfer that reads or writes. -/
  | address (read : Bool)
  | masterTransmit
  | masterReceive (ack : Bool)
  | slaveReceive (ack : Bool)
  | slaveTransmit (ack : Bool)
  /-- The handler is in the callback of `TW_SR_STOP` and the interface listens; an address it has
  acknowledged meanwhile, for reading or for writing, is not reported. -/
  | closing (missed : Option Bool)
  deriving DecidableEq

namespace TwiStatus

def addressed : TwiStatus → Bool
  | .srSlaAck | .srGcallAck | .stSlaAck => true
  | _ => false

/-- The arbitration was lost to a master that addresses this interface. -/
def lostAndAddressed : TwiStatus → Bool
  | .srArbLostSlaAck | .srArbLostGcallAck | .stArbLostSlaAck => true
  | _ => false

def received : TwiStatus → Bool
  | .mrDataAck | .mrDataNack | .srDataAck | .srDataNack | .srGcallDataAck | .srGcallDataNack => true
  | _ => false

end TwiStatus

namespace TwiPhase

/-- The status codes that can come next. -/
def allows (status : TwiStatus) : TwiPhase → Bool
  | .restarted | .closing _ => false
  | .idle ack => status = .busError || (ack && status.addressed)
  | .starting => status = .busError || status = .start || status.addressed
  | .address read => status = .busError || status = .arbLost || status.lostAndAddressed ||
    (if read then status = .mrSlaAck || status = .mrSlaNack else status = .mtSlaAck || status = .mtSlaNack)
  | .masterTransmit => status = .busError || status = .arbLost || status = .mtDataAck || status = .mtDataNack
  | .masterReceive ack => status = .busError || status = .arbLost || status = if ack then .mrDataAck else .mrDataNack
  | .slaveReceive ack => status = .busError || status = .srStop ||
    (if ack then status = .srDataAck || status = .srGcallDataAck else status = .srDataNack || status = .srGcallDataNack)
  | .slaveTransmit ack => status = .busError || status = .stDataNack || status = if ack then .stDataAck else .stLastData

/-- The address byte `SLA+R` has its last bit set. -/
def ofAddress (twdr : UInt8) : TwiPhase := .address (twdr &&& 1 = 1)

/-- What the handler's answer to a status starts. -/
def respond (c : TwiControl) (twdr : UInt8) : TwiStatus → TwiPhase
  | .start | .repStart => ofAddress twdr
  | .mtSlaAck | .mtDataAck => if c.stop then .idle c.ack else if c.start then .restarted else .masterTransmit
  | .mrSlaAck | .mrDataAck => .masterReceive c.ack
  | .mrDataNack => if c.start then .restarted else .idle c.ack
  | .srSlaAck | .srArbLostSlaAck | .srGcallAck | .srArbLostGcallAck | .srDataAck | .srGcallDataAck => .slaveReceive c.ack
  | .stSlaAck | .stArbLostSlaAck | .stDataAck => .slaveTransmit c.ack
  | .srStop => .closing none
  | .mtSlaNack | .mtDataNack | .arbLost | .mrSlaNack | .srDataNack | .srGcallDataNack | .stDataNack
  | .stLastData | .noInfo | .busError => .idle c.ack

def command (c : TwiControl) (twdr : UInt8) : TwiPhase → TwiPhase
  | .idle _ | .starting | .restarted => if c.start then .starting else ofAddress twdr
  | .address read => .address read
  | .masterTransmit => .masterTransmit
  | .masterReceive _ => .masterReceive c.ack
  | .slaveReceive _ => .slaveReceive c.ack
  | .slaveTransmit _ => .slaveTransmit c.ack
  | .closing missed => .closing missed

/-- The end of the callback: `twi_releaseBus` clears the flag of an address that was acknowledged
meanwhile, and the transfer goes on. -/
def released (c : TwiControl) : Option Bool → TwiPhase
  | none => .idle c.ack
  | some true => .slaveTransmit c.ack
  | some false => .slaveReceive c.ack

/-- The handler is running, and the program is not. -/
def inCallback : TwiPhase → Bool
  | .closing _ => true
  | _ => false

def all : List TwiPhase :=
  [.idle true,.idle false,.starting,.restarted,.address true,.address false,.masterTransmit,.masterReceive true,
    .masterReceive false,.slaveReceive true,.slaveReceive false,.slaveTransmit true,.slaveTransmit false,.closing none,
    .closing (some true),.closing (some false)]

theorem mem_all (p : TwiPhase) : p ∈ all := by
  cases p with
  | idle ack => cases ack <;> decide
  | address read => cases read <;> decide
  | masterReceive ack => cases ack <;> decide
  | slaveReceive ack => cases ack <;> decide
  | slaveTransmit ack => cases ack <;> decide
  | closing missed =>
    cases missed with
    | none => decide
    | some read => cases read <;> decide
  | starting | restarted | masterTransmit => decide

end TwiPhase

/-- A status the interface reports, the byte it received before, and the calls of the slave
transmit callback. -/
structure TwiEvent where
  status : TwiStatus
  byte : UInt8
  calls : List TwiMessage

/-- Software and interface. -/
structure TwiLink where
  twi : Twi
  phase : TwiPhase

namespace TwiLink

def init : TwiLink := ⟨.init,.idle true⟩

/-- The handler runs on a status that can come; any other does not happen. -/
def interrupt (s : TwiLink) (e : TwiEvent) : Checked TwiLink :=
  if s.phase.allows e.status then do
    let t ← {s.twi with twdr := if e.status.received then e.byte else s.twi.twdr}.handler e.calls e.status
    .ok ⟨t,.respond t.twcr t.twdr e.status⟩
  else .ok s

/-- The interrupt for an event. -/
def react (l : TwiLink) (e : TwiEvent) : TwiLink :=
  match l.interrupt e with
  | .ok l' => l'
  | .error _ => l

theorem interrupt_ignored {l : TwiLink} {e : TwiEvent} (h : ¬ l.phase.allows e.status = true) : l.interrupt e = .ok l := if_neg h

theorem interrupt_eq {l : TwiLink} {e : TwiEvent} {t : Twi} (hallows : l.phase.allows e.status = true)
    (h : {l.twi with twdr := if e.status.received then e.byte else l.twi.twdr}.handler e.calls e.status = .ok t) :
    l.interrupt e = .ok ⟨t,.respond t.twcr t.twdr e.status⟩ := by
  rw [interrupt,if_pos hallows,h]
  rfl

theorem react_eq {l : TwiLink} {e : TwiEvent} {t : Twi} (hallows : l.phase.allows e.status = true)
    (h : {l.twi with twdr := if e.status.received then e.byte else l.twi.twdr}.handler e.calls e.status = .ok t) :
    l.react e = ⟨t,.respond t.twcr t.twdr e.status⟩ := by
  rw [react,interrupt_eq hallows h]

/-- An address is acknowledged, for reading or for writing, during the callback of `TW_SR_STOP`. -/
def overhear (s : TwiLink) (read : Bool) : TwiLink :=
  match s.phase with
  | .closing none => {s with phase := .closing (some read)}
  | _ => s

/-- The callback of `TW_SR_STOP` returns. -/
def release (s : TwiLink) : TwiLink :=
  match s.phase with
  | .closing missed => ⟨s.twi.leaveSlave,.released s.twi.leaveSlave.twcr missed⟩
  | _ => s

/-- A master call writes `TWCR` and leaves `t` behind. -/
def call (s : TwiLink) (t : Twi) : TwiLink := ⟨t,s.phase.command t.twcr t.twdr⟩

/-- No other master has addressed the interface. -/
def free (t : Twi) : TwiLink := ⟨t,if t.inRepStart then .restarted else .idle true⟩

end TwiLink

/-- What the interface and the handler do next to the program. -/
inductive TwiHappening
  | interrupt (e : TwiEvent)
  | overhear (read : Bool)
  | release

def TwiLink.happen (s : TwiLink) : TwiHappening → Checked TwiLink
  | .interrupt e => s.interrupt e
  | .overhear read => .ok (s.overhear read)
  | .release => .ok s.release

/-- A call of `twi_readFrom` or `twi_writeTo`. -/
inductive TwiCall
  | readFrom (address length : UInt8) (sendStop : Bool)
  | writeTo (address : UInt8) (m : TwiMessage) (wait sendStop : Bool)

namespace TwiCall

def length : TwiCall → Nat
  | .readFrom _ length _ => length.toNat
  | .writeTo _ m _ _ => m.data.length

/-- What it makes of `twi_state`. -/
def state : TwiCall → TwiState
  | .readFrom _ _ _ => .mrx
  | .writeTo _ _ _ _ => .mtx

def prepare (t : Twi) : TwiCall → Checked Twi
  | .readFrom address length sendStop => .ok (t.prepareRead address length sendStop)
  | .writeTo address m _ sendStop => t.prepareWrite address m sendStop

end TwiCall

/-- How far a call is. Interrupts come at any of these points. -/
inductive TwiStage
  /-- It has found `TWI_READY`. -/
  | tested
  /-- It has assigned `twi_state`. -/
  | claimed
  /-- It has assigned the other variables. -/
  | prepared
  /-- It has written `TWCR` and looks at `twi_state` again and again. -/
  | waiting
  deriving DecidableEq

def TwiStage.next : TwiStage → TwiStage
  | .tested => .claimed
  | .claimed => .prepared
  | .prepared | .waiting => .waiting

/-- What the program does at this point. -/
def TwiLink.perform (s : TwiLink) (c : TwiCall) : TwiStage → Checked TwiLink
  | .tested => .ok {s with twi := {s.twi with state := c.state}}
  | .claimed => do
    let t ← c.prepare s.twi
    .ok {s with twi := t}
  | .prepared => .ok (s.call s.twi.begin)
  | .waiting => .ok s

/-- The program goes on with its call, unless the handler is running. -/
def TwiLink.proceed (s : TwiLink) (c : TwiCall) (stage : TwiStage) : Checked (TwiLink × TwiStage) :=
  if s.phase.inCallback then .ok (s,stage)
  else do
    let l ← s.perform c stage
    .ok (l,stage.next)

namespace TwiLink
variable {l : TwiLink}

theorem release_cases (l : TwiLink) :
    l.phase.inCallback = false ∧ l.release = l ∨ ∃ missed, l.phase = .closing missed ∧
      l.release = ⟨l.twi.leaveSlave,.released l.twi.leaveSlave.twcr missed⟩ := by
  cases hphase : l.phase with
  | closing missed => exact .inr ⟨missed,rfl,by rw [release,hphase]⟩
  | idle _ | starting | restarted | address _ | masterTransmit | masterReceive _ | slaveReceive _ | slaveTransmit _ =>
    exact .inl ⟨rfl,by rw [release,hphase]⟩

theorem overhear_cases (l : TwiLink) (read : Bool) :
    l.overhear read = l ∨ l.phase = .closing none ∧ l.overhear read = ⟨l.twi,.closing (some read)⟩ := by
  cases hphase : l.phase with
  | closing missed =>
    cases missed with
    | none => exact .inr ⟨rfl,by rw [overhear,hphase]⟩
    | some _ => exact .inl (by rw [overhear,hphase])
  | idle _ | starting | restarted | address _ | masterTransmit | masterReceive _ | slaveReceive _ | slaveTransmit _ =>
    exact .inl (by rw [overhear,hphase])

theorem release_quiet (h : l.phase.inCallback = false) : l.release = l := by
  rcases l.release_cases with ⟨-,hsame⟩ | ⟨missed,hphase,-⟩
  · exact hsame
  · rw [hphase] at h
    cases h

theorem overhear_quiet (h : l.phase.inCallback = false) (read : Bool) : l.overhear read = l := by
  rcases l.overhear_cases read with hsame | ⟨hphase,-⟩
  · exact hsame
  · rw [hphase] at h
    cases h

theorem released_quiet (c : TwiControl) (missed : Option Bool) : (TwiPhase.released c missed).inCallback = false := by
  rcases missed with _ | _ | _ <;> rfl

theorem quiet_of_release (l : TwiLink) : l.release.phase.inCallback = false := by
  rcases l.release_cases with ⟨hquiet,hsame⟩ | ⟨missed,-,hrelease⟩
  · rw [hsame]
    exact hquiet
  · rw [hrelease]
    exact released_quiet _ missed

theorem command_quiet (c : TwiControl) (twdr : UInt8) {p : TwiPhase} (h : p.inCallback = false) :
    (p.command c twdr).inCallback = false := by
  have hstart : (if c.start then TwiPhase.starting else .ofAddress twdr).inCallback = false := by split <;> rfl
  cases p with
  | idle _ | starting | restarted => exact hstart
  | closing missed => cases h
  | address _ | masterTransmit | masterReceive _ | slaveReceive _ | slaveTransmit _ => rfl

theorem prepare_quiet {c : TwiCall} (hfits : c.length ≤ twiBufferLength) (t : Twi) : ∃ t', c.prepare t = .ok t' := by
  cases c with
  | readFrom address length sendStop => exact ⟨_,rfl⟩
  | writeTo address m wait sendStop =>
    obtain ⟨b,hb,_⟩ := copyInto_inside t.masterBuffer m.data (i := 0) (by rw [Nat.zero_add]; exact hfits)
    rw [TwiCall.prepare,Twi.prepareWrite,hb]
    exact ⟨_,rfl⟩

theorem perform_quiet {c : TwiCall} (hfits : c.length ≤ twiBufferLength) (h : l.phase.inCallback = false) (stage : TwiStage) :
    ∃ l', l.perform c stage = .ok l' ∧ l'.phase.inCallback = false := by
  cases stage with
  | tested | waiting => exact ⟨_,rfl,h⟩
  | prepared => exact ⟨_,rfl,command_quiet _ _ h⟩
  | claimed =>
    obtain ⟨t',ht'⟩ := prepare_quiet hfits l.twi
    refine ⟨{l with twi := t'},?_,h⟩
    rw [perform,ht']
    rfl

end TwiLink

end ArduinoAT90USB.Library
