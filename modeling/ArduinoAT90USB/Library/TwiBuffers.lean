import ArduinoAT90USB.Library.TwiWrite

/-! The buffers of `twi.c` under any calls and any status codes. A master receiver stores
without a test: the index stays inside because the byte before was acknowledged only below
`length - 1`, which for a read of length 0 is 255. A slave transmitter loads without a test, from an
index that is set when its address is reported: after an address that is not reported it is stale. -/
namespace ArduinoAT90USB.Library
open Foundation.Memory Foundation.Runs

/-- Where the program is: it makes its calls from outside the interrupts and stays in one until
it returns. -/
inductive TwiCaller
  | free
  | calling (c : TwiCall) (stage : TwiStage)

namespace TwiCaller

def isFree : TwiCaller → Bool
  | .free => true
  | .calling _ _ => false

/-- What may be reported while a call is being made: no address for reading before its write to
`TWCR`, and no end of a reception after its assignment to `twi_state`. -/
def admits (status : TwiStatus) : TwiCaller → Bool
  | .calling _ .tested => status ≠ .stSlaAck
  | .calling _ .claimed | .calling _ .prepared => status ≠ .stSlaAck && status ≠ .srStop && status ≠ .busError
  | .free | .calling _ .waiting => true

end TwiCaller

structure TwiSystem where
  link : TwiLink
  caller : TwiCaller

inductive TwiAction
  /-- A call that finds `TWI_READY`. -/
  | call (c : TwiCall)
  /-- The program goes on with its call. -/
  | proceed
  | transmit (m : TwiMessage)
  | happen (h : TwiHappening)

/-- The end of `twi_readFrom`: as many bytes as came. -/
def TwiSystem.finishRead (t : Twi) (length : UInt8) : Checked (List UInt8) :=
  copyFrom t.masterBuffer (if t.masterBufferIndex < length then t.masterBufferIndex else length).toNat

namespace TwiCall

def Nonempty : TwiCall → Prop
  | .readFrom _ length _ => length ≠ 0
  | .writeTo _ _ _ _ => True

def waits (t : Twi) : TwiCall → Bool
  | .readFrom _ _ _ => t.state = .mrx
  | .writeTo _ _ wait _ => wait && t.state = .mtx

/-- The accesses to a buffer after the loop. -/
def finish (t : Twi) : TwiCall → Checked (List UInt8)
  | .readFrom _ length _ => TwiSystem.finishRead t length
  | .writeTo _ _ _ _ => .ok []

end TwiCall

namespace TwiSystem

def init : TwiSystem := ⟨.init,.free⟩

/-- The call is made, not refused for its length, and finds `TWI_READY`. -/
def takes (s : TwiSystem) (c : TwiCall) : Prop :=
  s.caller.isFree = true ∧ c.length ≤ twiBufferLength ∧ s.link.twi.state = .ready ∧ s.link.phase.inCallback = false

instance (s : TwiSystem) (c : TwiCall) : Decidable (s.takes c) := inferInstanceAs (Decidable (_ ∧ _ ∧ _ ∧ _))

def proceed (s : TwiSystem) (c : TwiCall) (stage : TwiStage) : Checked TwiSystem :=
  if stage = .waiting then
    if s.link.phase.inCallback || c.waits s.link.twi then .ok s
    else do
      let _ ← c.finish s.link.twi
      .ok {s with caller := .free}
  else do
    let r ← s.link.proceed c stage
    .ok ⟨r.1,.calling c r.2⟩

def enter (s : TwiSystem) (c : TwiCall) : TwiSystem := {s with caller := .calling c .tested}

/-- An access outside a buffer is an error. -/
def step (s : TwiSystem) : TwiAction → Checked TwiSystem
  | .call c => .ok (if s.takes c then s.enter c else s)
  | .proceed =>
    match s.caller with
    | .free => .ok s
    | .calling c stage => s.proceed c stage
  | .transmit m =>
    if s.caller.isFree then do
      let r ← s.link.twi.transmit m
      .ok {s with link := {s.link with twi := r.2}}
    else .ok s
  | .happen h => do
    let l ← s.link.happen h
    .ok {s with link := l}

/-- No read is for no bytes, no address for reading is acknowledged while a call is being made or
during the callback of `TW_SR_STOP`, and no reception ends between the two writes of a call. -/
def Undisturbed (s : TwiSystem) : TwiAction → Prop
  | .call c => c.Nonempty
  | .happen (.interrupt e) => s.link.phase.allows e.status = true → s.caller.admits e.status = true
  | .happen (.overhear read) => s.link.phase = .closing none → read = false
  | .proceed | .transmit _ | .happen .release => True

end TwiSystem

/-- The lengths stay inside the buffers. -/
structure Twi.Sized (t : Twi) : Prop where
  masterLength : t.masterBufferLength.toNat ≤ 32
  readLength : t.slarw &&& 1 = 1 → t.masterBufferLength.toNat ≤ 31
  txLength : t.txBufferLength.toNat ≤ 32

/-- With a transfer under way no call finds `TWI_READY`, and the acknowledgement leaves room for
the byte it asks for. -/
def TwiPhase.Bounds (t : Twi) : TwiPhase → Prop
  | .starting => t.state ≠ .ready ∧ t.masterBufferIndex = 0
  | .address read => t.state ≠ .ready ∧ t.masterBufferIndex = 0 ∧ (read = true → t.slarw &&& 1 = 1)
  | .masterTransmit => t.state ≠ .ready
  | .masterReceive ack => t.state ≠ .ready ∧ t.slarw &&& 1 = 1 ∧ t.masterBufferIndex.toNat ≤ 31 ∧
    (ack = true → t.masterBufferIndex < t.masterBufferLength)
  | .slaveTransmit ack => t.state ≠ .ready ∧ (ack = true → t.txBufferIndex.toNat < 32)
  | .closing missed => missed ≠ some true
  | .idle _ | .restarted | .slaveReceive _ => True

structure TwiLink.Bounded (l : TwiLink) : Prop where
  sized : l.twi.Sized
  phase : l.phase.Bounds l.twi

namespace Twi
variable {t : Twi}

theorem Sized.setTx (h : t.Sized) (b : Vector UInt8 twiBufferLength) {n : UInt8}
    (hn : n = t.txBufferLength ∨ n.toNat ≤ 32) : Sized {t with txBuffer := b, txBufferLength := n} :=
  ⟨h.masterLength,h.readLength,hn.elim (fun hsame => hsame ▸ h.txLength) id⟩

/-- The byte is there, and another is asked for only if it is there too. -/
theorem sendNext_sized (h : t.Sized) (hi : t.txBufferIndex.toNat < 32) :
    ∃ t', t.sendNext = .ok t' ∧ t'.Sized ∧ t'.state = t.state ∧ (t'.twcr.ack = true → t'.txBufferIndex.toNat < 32) := by
  unfold sendNext
  rw [loadAt_inside (show t.txBufferIndex.toNat < twiBufferLength from hi),ok_bind]
  refine ⟨_,rfl,⟨h.masterLength,h.readLength,h.txLength⟩,rfl,?_⟩
  intro hack
  have hlt : t.txBufferIndex + 1 < t.txBufferLength := of_decide_eq_true hack
  have hlen := h.txLength
  have := UInt8.lt_iff_toNat_lt.mp hlt
  change (t.txBufferIndex + 1).toNat < 32
  omega

theorem storeMaster_inside (hi : t.masterBufferIndex.toNat ≤ 31) :
    ∃ b, t.storeMaster = .ok {t with masterBuffer := b, masterBufferIndex := t.masterBufferIndex + 1} := by
  have hlt : t.masterBufferIndex.toNat < twiBufferLength := Nat.lt_succ_of_le hi
  rw [storeMaster,storeAt_inside hlt]
  exact ⟨_,rfl⟩

theorem endTransfer_sized (h : t.Sized) : t.endTransfer.Sized := by
  unfold endTransfer
  split <;> exact ⟨h.masterLength,h.readLength,h.txLength⟩

end Twi

namespace TwiPhase

variable {p : TwiPhase}

theorem allows_start (h : p.allows .start = true) : p = .starting :=
  (by decide : ∀ p ∈ all, p.allows .start = true → p = .starting) p p.mem_all h

theorem not_allows_repStart : p.allows .repStart ≠ true :=
  (by decide : ∀ p ∈ all, p.allows .repStart ≠ true) p p.mem_all

theorem allows_mtSlaAck (h : p.allows .mtSlaAck = true) : p = .address false :=
  (by decide : ∀ p ∈ all, p.allows .mtSlaAck = true → p = .address false) p p.mem_all h

theorem allows_mtDataAck (h : p.allows .mtDataAck = true) : p = .masterTransmit :=
  (by decide : ∀ p ∈ all, p.allows .mtDataAck = true → p = .masterTransmit) p p.mem_all h

theorem allows_mrSlaAck (h : p.allows .mrSlaAck = true) : p = .address true :=
  (by decide : ∀ p ∈ all, p.allows .mrSlaAck = true → p = .address true) p p.mem_all h

theorem allows_mrDataAck (h : p.allows .mrDataAck = true) : p = .masterReceive true :=
  (by decide : ∀ p ∈ all, p.allows .mrDataAck = true → p = .masterReceive true) p p.mem_all h

theorem allows_mrDataNack (h : p.allows .mrDataNack = true) : p = .masterReceive false :=
  (by decide : ∀ p ∈ all, p.allows .mrDataNack = true → p = .masterReceive false) p p.mem_all h

theorem allows_stDataAck (h : p.allows .stDataAck = true) : p = .slaveTransmit true :=
  (by decide : ∀ p ∈ all, p.allows .stDataAck = true → p = .slaveTransmit true) p p.mem_all h

end TwiPhase

section Handler
variable {t : Twi} {p : TwiPhase}

private theorem sendMaster_sized (h : t.Sized) (hm : t.state ≠ .ready) : ∃ t', t.sendMaster = .ok t' ∧ t'.Sized ∧
    TwiPhase.Bounds t' (if t'.twcr.stop then .idle t'.twcr.ack else if t'.twcr.start then .restarted else .masterTransmit) := by
  unfold Twi.sendMaster
  by_cases hlt : t.masterBufferIndex < t.masterBufferLength
  · have hload : t.masterBufferIndex.toNat < twiBufferLength :=
      Nat.lt_of_lt_of_le (UInt8.lt_iff_toNat_lt.mp hlt) h.masterLength
    rw [if_pos hlt,loadAt_inside hload,ok_bind]
    exact ⟨_,rfl,⟨h.masterLength,h.readLength,h.txLength⟩,hm⟩
  · rw [if_neg hlt]
    refine ⟨_,rfl,Twi.endTransfer_sized h,?_⟩
    unfold Twi.endTransfer
    split <;> trivial

private theorem storeSlave_sized (h : t.Sized) : ∃ t', t.storeSlave = .ok t' ∧ t'.Sized := by
  unfold Twi.storeSlave
  split
  next hlt =>
    rw [storeAt_inside hlt,ok_bind]
    exact ⟨_,rfl,h.masterLength,h.readLength,h.txLength⟩
  next => exact ⟨_,rfl,h.masterLength,h.readLength,h.txLength⟩

private theorem closeSlave_sized (h : t.Sized) : ∃ t', t.closeSlave = .ok t' ∧ t'.Sized := by
  unfold Twi.closeSlave
  split
  next hlt =>
    rw [storeAt_inside hlt,ok_bind]
    exact ⟨_,rfl,h.masterLength,h.readLength,h.txLength⟩
  next => exact ⟨_,rfl,h.masterLength,h.readLength,h.txLength⟩

private theorem beginSlaveTransmit_sized (h : t.Sized) (calls : List TwiMessage) :
    ∃ t', t.beginSlaveTransmit calls = .ok t' ∧ t'.Sized ∧ t'.state ≠ .ready ∧
      (t'.twcr.ack = true → t'.txBufferIndex.toNat < 32) := by
  obtain ⟨b,n,hn,hbegin⟩ := t.beginSlaveTransmit_only calls
  rw [hbegin]
  obtain ⟨t',ht',hsized,hstate,hack⟩ := Twi.sendNext_sized
    (t := {t with state := .stx, txBufferIndex := 0, txBufferLength := n, txBuffer := b})
    ⟨h.masterLength,h.readLength,hn⟩ (by decide : (0 : UInt8).toNat < 32)
  exact ⟨t',ht',hsized,hstate ▸ TwiState.noConfusion,hack⟩

private theorem released_bounds (c : TwiControl) : TwiPhase.Bounds t (if c.start then .restarted else .idle c.ack) := by
  split <;> trivial

/-- No access of the handler leaves a buffer, and the next byte has its place. -/
theorem handler_sized (h : t.Sized) (hp : p.Bounds t) (calls : List TwiMessage) {status : TwiStatus}
    (hallows : p.allows status = true) : ∃ t', t.handler calls status = .ok t' ∧ t'.Sized ∧
      (TwiPhase.respond t'.twcr t'.twdr status).Bounds t' := by
  have hsame := h
  obtain ⟨hlength,hread,htxLength⟩ := hsame
  cases status with
  | start =>
    rw [TwiPhase.allows_start hallows] at hp
    exact ⟨_,rfl,⟨hlength,hread,htxLength⟩,hp.1,hp.2,fun hr => of_decide_eq_true hr⟩
  | repStart => exact absurd hallows TwiPhase.not_allows_repStart
  | mtSlaAck =>
    rw [TwiPhase.allows_mtSlaAck hallows] at hp
    exact sendMaster_sized h hp.1
  | mtDataAck =>
    rw [TwiPhase.allows_mtDataAck hallows] at hp
    exact sendMaster_sized h hp
  | mrSlaAck =>
    rw [TwiPhase.allows_mrSlaAck hallows] at hp
    have hzero : t.masterBufferIndex.toNat ≤ 31 := by
      rw [hp.2.1]
      decide
    exact ⟨_,rfl,⟨hlength,hread,htxLength⟩,hp.1,hp.2.2 rfl,hzero,fun hack => of_decide_eq_true hack⟩
  | mrDataAck =>
    rw [TwiPhase.allows_mrDataAck hallows] at hp
    obtain ⟨hmaster,hslarw,hindex,hack⟩ := hp
    obtain ⟨b,hstore⟩ := Twi.storeMaster_inside hindex
    rw [Twi.handler,hstore,ok_bind]
    refine ⟨_,rfl,⟨hlength,hread,htxLength⟩,hmaster,hslarw,?_,fun hack => of_decide_eq_true hack⟩
    have := UInt8.lt_iff_toNat_lt.mp (hack rfl)
    have := hread hslarw
    change (t.masterBufferIndex + 1).toNat ≤ 31
    rw [UInt8.toNat_add]
    change (t.masterBufferIndex.toNat + 1) % 256 ≤ 31
    omega
  | mrDataNack =>
    rw [TwiPhase.allows_mrDataNack hallows] at hp
    obtain ⟨b,hstore⟩ := Twi.storeMaster_inside hp.2.2.1
    rw [Twi.handler,hstore,ok_bind]
    exact ⟨_,rfl,Twi.endTransfer_sized ⟨hlength,hread,htxLength⟩,released_bounds _⟩
  | srDataAck | srGcallDataAck =>
    obtain ⟨t',ht',hsized⟩ := storeSlave_sized h
    exact ⟨t',ht',hsized,trivial⟩
  | srStop =>
    obtain ⟨t',ht',hsized⟩ := closeSlave_sized h
    exact ⟨t',ht',hsized,fun hmissed => by cases hmissed⟩
  | stSlaAck | stArbLostSlaAck => exact beginSlaveTransmit_sized h calls
  | stDataAck =>
    rw [TwiPhase.allows_stDataAck hallows] at hp
    obtain ⟨t',ht',hsized,hstate,hack⟩ := Twi.sendNext_sized h (hp.2 rfl)
    exact ⟨t',ht',hsized,hstate ▸ hp.1,hack⟩
  | mtSlaNack | mtDataNack | arbLost | mrSlaNack | srSlaAck | srArbLostSlaAck | srGcallAck | srArbLostGcallAck
  | srDataNack | srGcallDataNack | stDataNack | stLastData | noInfo | busError =>
    exact ⟨_,rfl,⟨hlength,hread,htxLength⟩,trivial⟩

end Handler

private theorem bounds_congr {t t' : Twi} {p : TwiPhase} (hstate : t'.state = t.state)
    (hmaster : t'.masterBufferIndex = t.masterBufferIndex) (hlength : t'.masterBufferLength = t.masterBufferLength)
    (hslarw : t'.slarw = t.slarw) (htx : t'.txBufferIndex = t.txBufferIndex) (h : p.Bounds t) : p.Bounds t' := by
  cases p with
  | starting | address _ | masterTransmit | masterReceive _ | slaveTransmit _ =>
    simp only [TwiPhase.Bounds] at h ⊢
    simpa only [hstate, hmaster, hlength, hslarw, htx] using h
  | idle _ | restarted | slaveReceive _ | closing _ => exact h

/-- Nothing goes out on the bus, and no address for reading is left unreported. -/
def TwiPhase.open : TwiPhase → Bool
  | .idle _ | .restarted | .slaveReceive _ | .closing none | .closing (some false) => true
  | .starting | .address _ | .masterTransmit | .masterReceive _ | .slaveTransmit _ | .closing (some true) => false

namespace TwiPhase
variable {t t' : Twi} {p : TwiPhase}

theorem open_of_ready (h : p.Bounds t) (hready : t.state = .ready) : p.open = true := by
  cases p with
  | idle _ | restarted | slaveReceive _ => rfl
  | starting | address _ | masterReceive _ | slaveTransmit _ => exact absurd hready h.1
  | masterTransmit => exact absurd hready h
  | closing missed =>
    rcases missed with _ | _ | _
    · rfl
    · rfl
    · exact absurd rfl h

theorem bounds_of_open (h : p.open = true) (t : Twi) : p.Bounds t := by
  cases p with
  | idle _ | restarted | slaveReceive _ => trivial
  | starting | address _ | masterTransmit | masterReceive _ | slaveTransmit _ => cases h
  | closing missed =>
    rintro rfl
    cases h

theorem released_open {missed : Option Bool} (h : (closing missed).open = true) (c : TwiControl) : (released c missed).open = true := by
  rcases missed with _ | _ | _
  · rfl
  · rfl
  · cases h

theorem allows_open (hopen : p.open = true) {status : TwiStatus} (h : p.allows status = true) (hread : status ≠ .stSlaAck) :
    status ∈ [.srSlaAck,.srGcallAck,.srDataAck,.srGcallDataAck,.srDataNack,.srGcallDataNack,.srStop,.busError] := by
  have hnot : ∀ p ∈ all, p.open = true → ∀ st ∈ [TwiStatus.start,.repStart,.mtSlaAck,.mtSlaNack,.mtDataAck,
      .mtDataNack,.arbLost,.mrSlaAck,.mrSlaNack,.mrDataAck,.mrDataNack,.srArbLostSlaAck,.srArbLostGcallAck,.stArbLostSlaAck,
      .stDataAck,.stDataNack,.stLastData,.noInfo], p.allows st = false := by decide
  cases status with
  | srSlaAck | srGcallAck | srDataAck | srGcallDataAck | srDataNack | srGcallDataNack | srStop | busError => decide
  | stSlaAck => exact absurd rfl hread
  | start | repStart | mtSlaAck | mtSlaNack | mtDataAck | mtDataNack | arbLost | mrSlaAck | mrSlaNack | mrDataAck
  | mrDataNack | srArbLostSlaAck | srArbLostGcallAck | stArbLostSlaAck | stDataAck | stDataNack | stLastData | noInfo =>
    rw [hnot p p.mem_all hopen _ (by decide)] at h
    cases h

end TwiPhase

/-- What the handler does on an open bus: the variables of a master's call are left alone. -/
private theorem handler_open {t t' : Twi} {p : TwiPhase} (hopen : p.open = true) {status : TwiStatus}
    (hallows : p.allows status = true) (hread : status ≠ .stSlaAck) {calls : List TwiMessage}
    (h : t.handler calls status = .ok t') :
    (TwiPhase.respond t'.twcr t'.twdr status).open = true ∧ t'.masterBufferIndex = t.masterBufferIndex ∧
      (status ≠ .srStop → status ≠ .busError →
        (TwiPhase.respond t'.twcr t'.twdr status).inCallback = false ∧ (t.state ≠ .ready → t'.state ≠ .ready)) := by
  have hmem := TwiPhase.allows_open hopen hallows hread
  cases status with
  | srSlaAck | srGcallAck =>
    cases h
    exact ⟨rfl,rfl,fun _ _ => ⟨rfl,fun _ => TwiState.noConfusion⟩⟩
  | srDataAck | srGcallDataAck =>
    obtain ⟨haside,hstate,-⟩ := storeSlave_aside h
    exact ⟨rfl,haside.index,fun _ _ => ⟨rfl,fun hbusy => hstate ▸ hbusy⟩⟩
  | srDataNack | srGcallDataNack =>
    cases h
    exact ⟨rfl,rfl,fun _ _ => ⟨rfl,id⟩⟩
  | srStop =>
    exact ⟨rfl,(closeSlave_aside h).1.index,fun hstop => absurd rfl hstop⟩
  | busError =>
    cases h
    exact ⟨rfl,rfl,fun _ herror => absurd rfl herror⟩
  | start | repStart | mtSlaAck | mtSlaNack | mtDataAck | mtDataNack | arbLost | mrSlaAck | mrSlaNack | mrDataAck
  | mrDataNack | srArbLostSlaAck | srArbLostGcallAck | stSlaAck | stArbLostSlaAck | stDataAck | stDataNack | stLastData
  | noInfo => exact absurd hmem (by decide)

namespace TwiLink
variable {l l' : TwiLink} {t : Twi}

theorem interrupt_bounded (h : l.Bounded) (e : TwiEvent) : ∃ l', l.interrupt e = .ok l' ∧ l'.Bounded := by
  by_cases hallows : l.phase.allows e.status = true
  · have hsized : ({l.twi with twdr := if e.status.received then e.byte else l.twi.twdr} : Twi).Sized :=
      ⟨h.sized.masterLength,h.sized.readLength,h.sized.txLength⟩
    obtain ⟨t',ht',hsized',hphase'⟩ := handler_sized hsized (bounds_congr rfl rfl rfl rfl rfl h.phase) e.calls hallows
    exact ⟨_,interrupt_eq hallows ht',hsized',hphase'⟩
  · exact ⟨l,interrupt_ignored hallows,h⟩

theorem release_bounded (h : l.Bounded) : l.release.Bounded := by
  rcases l.release_cases with ⟨-,hsame⟩ | ⟨missed,hphase,hrelease⟩
  · rw [hsame]
    exact h
  · have hmissed : missed ≠ some true := by
      have := h.phase
      rw [hphase] at this
      exact this
    rw [hrelease]
    refine ⟨⟨h.sized.masterLength,h.sized.readLength,h.sized.txLength⟩,?_⟩
    rcases missed with _ | _ | _
    · trivial
    · trivial
    · exact absurd rfl hmissed

theorem overhear_bounded (h : l.Bounded) {read : Bool} (hread : l.phase = .closing none → read = false) : (l.overhear read).Bounded := by
  rcases l.overhear_cases read with hsame | ⟨hphase,hover⟩
  · rw [hsame]
    exact h
  · rw [hover,hread hphase]
    exact ⟨h.sized,fun hmissed => by cases hmissed⟩

theorem begin_sized (h : t.Sized) : t.begin.Sized := by
  unfold Twi.begin
  split <;> exact ⟨h.masterLength,h.readLength,h.txLength⟩

/-- A master call starts with the index at 0, and sends the address itself if there is no start. -/
theorem call_bounded (hsized : l.twi.Sized) (hopen : l.phase.open = true) (hstate : l.twi.state ≠ .ready)
    (hindex : l.twi.masterBufferIndex = 0) : (l.call l.twi.begin).Bounded := by
  refine ⟨begin_sized hsized,?_⟩
  have hcommand : TwiPhase.Bounds l.twi.begin
      (if l.twi.begin.twcr.start then .starting else .ofAddress l.twi.begin.twdr) := by
    unfold Twi.begin
    split
    · exact ⟨hstate,hindex,fun hr => of_decide_eq_true hr⟩
    · exact ⟨hstate,hindex⟩
  change (l.phase.command _ _).Bounds _
  cases hphase : l.phase with
  | idle _ | restarted => exact hcommand
  | slaveReceive _ => trivial
  | closing missed =>
    rw [hphase] at hopen
    exact TwiPhase.bounds_of_open hopen _
  | starting | address _ | masterTransmit | masterReceive _ | slaveTransmit _ =>
    rw [hphase] at hopen
    cases hopen

end TwiLink

theorem TwiSystem.read_address (address : UInt8) : ((1 : UInt8) ||| address <<< 1) &&& 1 = 1 := by
  apply UInt8.toBitVec_inj.mp
  ext i hi
  simp
  grind

namespace TwiCall
variable {c : TwiCall} {t : Twi}

private theorem prepareRead_sized (h : t.Sized) (address : UInt8) {length : UInt8} (sendStop : Bool)
    (hlong : length.toNat ≤ twiBufferLength) (hne : length ≠ 0) : (t.prepareRead address length sendStop).Sized := by
  have hpos : length.toNat ≠ 0 := fun hz => hne (UInt8.toNat_inj.mp hz)
  have hlen : (length - 1).toNat ≤ 31 := by
    have := length.toNat_lt
    unfold twiBufferLength at hlong
    rw [UInt8.toNat_sub]
    change (256 - 1 + length.toNat) % 256 ≤ 31
    omega
  exact ⟨Nat.le_trans hlen (by decide),fun _ => hlen,h.txLength⟩

theorem prepare_sized (h : t.Sized) (hlong : c.length ≤ twiBufferLength) (hne : c.Nonempty) :
    ∃ t', c.prepare t = .ok t' ∧ t'.Sized ∧ t'.state = t.state ∧ t'.masterBufferIndex = 0 := by
  cases c with
  | readFrom address length sendStop => exact ⟨_,rfl,prepareRead_sized h address sendStop hlong hne,rfl,rfl⟩
  | writeTo address m wait sendStop =>
    obtain ⟨b,hb,_⟩ := copyInto_inside t.masterBuffer m.data (i := 0) (by rw [Nat.zero_add]; exact hlong)
    have hlength : (UInt8.ofNat m.data.length).toNat ≤ 32 := by
      rw [UInt8.toNat_ofNat',Nat.mod_eq_of_lt m.short]
      exact hlong
    rw [prepare,Twi.prepareWrite,hb]
    exact ⟨_,rfl,⟨hlength,fun hread => absurd hread (Twi.write_address address),h.txLength⟩,rfl,rfl⟩

theorem state_busy (c : TwiCall) : c.state ≠ .ready := by
  cases c <;> exact TwiState.noConfusion

theorem finish_inside (hlong : c.length ≤ twiBufferLength) (t : Twi) : ∃ data, c.finish t = .ok data := by
  cases c with
  | writeTo _ _ _ _ => exact ⟨_,rfl⟩
  | readFrom address length sendStop =>
    have hfit : (if t.masterBufferIndex < length then t.masterBufferIndex else length).toNat ≤ twiBufferLength := by
      split
      next hlt => exact Nat.le_trans (Nat.le_of_lt (UInt8.lt_iff_toNat_lt.mp hlt)) hlong
      next => exact hlong
    exact copyFrom_inside hfit

/-- How far a call is that is being made. -/
structure Made (c : TwiCall) (stage : TwiStage) (l : TwiLink) : Prop where
  fits : c.length ≤ twiBufferLength
  nonempty : c.Nonempty
  free : stage ≠ .waiting → l.phase.open = true
  claimed : stage = .claimed ∨ stage = .prepared → l.phase.inCallback = false ∧ l.twi.state ≠ .ready
  index : stage = .prepared → l.twi.masterBufferIndex = 0

end TwiCall

namespace TwiCall.Made
variable {c : TwiCall} {stage : TwiStage} {l l' : TwiLink}

/-- What happens on the bus before the write to `TWCR` leaves a call where it is. -/
theorem interrupt (h : c.Made stage l) {e : TwiEvent}
    (hadmits : l.phase.allows e.status = true → (TwiCaller.calling c stage).admits e.status = true) (hl : l.interrupt e = .ok l') :
    c.Made stage l' := by
  by_cases hallows : l.phase.allows e.status = true
  swap
  · cases (TwiLink.interrupt_ignored hallows).symm.trans hl
    exact h
  rw [TwiLink.interrupt,if_pos hallows] at hl
  obtain ⟨t',ht',hl'⟩ := bind_eq_ok hl
  cases hl'
  have hadm := hadmits hallows
  cases stage with
  | waiting =>
    refine ⟨h.fits,h.nonempty,fun hw => absurd rfl hw,fun hw => ?_,TwiStage.noConfusion⟩
    rcases hw with hw | hw <;> cases hw
  | tested =>
    have hread : e.status ≠ .stSlaAck := of_decide_eq_true hadm
    obtain ⟨hopen,-,-⟩ := handler_open (h.free TwiStage.noConfusion) hallows hread ht'
    refine ⟨h.fits,h.nonempty,fun _ => hopen,fun hw => ?_,TwiStage.noConfusion⟩
    rcases hw with hw | hw <;> cases hw
  | claimed | prepared =>
    obtain ⟨⟨hread,hstop⟩,herror⟩ : (e.status ≠ .stSlaAck ∧ e.status ≠ .srStop) ∧ e.status ≠ .busError := by
      simpa [TwiCaller.admits] using hadm
    obtain ⟨hopen,hindex,hquiet⟩ := handler_open (h.free TwiStage.noConfusion) hallows hread ht'
    obtain ⟨hcall,hstate⟩ := hquiet hstop herror
    refine ⟨h.fits,h.nonempty,fun _ => hopen,fun hw => ⟨hcall,hstate (h.claimed hw).2⟩,fun hw => ?_⟩
    exact hindex.trans (h.index hw)

theorem release (h : c.Made stage l) : c.Made stage l.release := by
  rcases l.release_cases with ⟨-,hsame⟩ | ⟨missed,hphase,hrelease⟩
  · rw [hsame]
    exact h
  · rw [hrelease]
    refine ⟨h.fits,h.nonempty,fun hw => ?_,fun hw => ?_,h.index⟩
    · have hopen := h.free hw
      rw [hphase] at hopen
      exact TwiPhase.released_open hopen _
    · have hquiet := (h.claimed hw).1
      rw [hphase] at hquiet
      cases hquiet

theorem overhear (h : c.Made stage l) {read : Bool} (hread : l.phase = .closing none → read = false) :
    c.Made stage (l.overhear read) := by
  rcases l.overhear_cases read with hsame | ⟨hphase,hover⟩
  · rw [hsame]
    exact h
  · rw [hover,hread hphase]
    refine ⟨h.fits,h.nonempty,fun _ => rfl,fun hw => ?_,h.index⟩
    have hquiet := (h.claimed hw).1
    rw [hphase] at hquiet
    cases hquiet

theorem proceed (h : c.Made stage l) (hl : l.Bounded) (hstage : stage ≠ .waiting) :
    ∃ r, l.proceed c stage = .ok r ∧ r.1.Bounded ∧ c.Made r.2 r.1 := by
  unfold TwiLink.proceed
  by_cases hquiet : l.phase.inCallback = true
  · rw [if_pos hquiet]
    exact ⟨_,rfl,hl,h⟩
  rw [if_neg hquiet]
  have hopen := h.free hstage
  cases stage with
  | waiting => exact absurd rfl hstage
  | tested =>
    refine ⟨_,rfl,⟨⟨hl.sized.masterLength,hl.sized.readLength,hl.sized.txLength⟩,TwiPhase.bounds_of_open hopen _⟩,
      h.fits,h.nonempty,fun _ => hopen,fun _ => ⟨Bool.eq_false_iff.mpr hquiet,c.state_busy⟩,TwiStage.noConfusion⟩
  | claimed =>
    obtain ⟨t',ht',hsized,hstate,hindex⟩ := prepare_sized hl.sized h.fits h.nonempty
    rw [TwiLink.perform,ht']
    refine ⟨_,rfl,⟨hsized,TwiPhase.bounds_of_open hopen _⟩,h.fits,h.nonempty,fun _ => hopen,fun _ => ?_,fun _ => hindex⟩
    exact ⟨Bool.eq_false_iff.mpr hquiet,hstate ▸ (h.claimed (.inl rfl)).2⟩
  | prepared =>
    refine ⟨_,rfl,TwiLink.call_bounded hl.sized hopen (h.claimed (.inr rfl)).2 (h.index rfl),h.fits,h.nonempty,
      fun hw => absurd rfl hw,fun hw => ?_,TwiStage.noConfusion⟩
    rcases hw with hw | hw <;> cases hw

end TwiCall.Made

namespace TwiSystem
variable {s : TwiSystem}

structure Bounded (s : TwiSystem) : Prop where
  link : s.link.Bounded
  made : ∀ c stage, s.caller = .calling c stage → c.Made stage s.link

private theorem init_bounded : init.Bounded :=
  ⟨⟨⟨by decide,fun h => absurd h (by decide),by decide⟩,trivial⟩,fun _ _ h => TwiCaller.noConfusion h⟩

private theorem enter_bounded (h : s.Bounded) {c : TwiCall} (hne : c.Nonempty) (htakes : s.takes c) : (s.enter c).Bounded := by
  refine ⟨h.link,?_⟩
  rintro _ _ ⟨⟩
  refine ⟨htakes.2.1,hne,fun _ => TwiPhase.open_of_ready h.link.phase htakes.2.2.1,fun hw => ?_,TwiStage.noConfusion⟩
  rcases hw with hw | hw <;> cases hw

private theorem happen_bounded (h : s.Bounded) {e : TwiHappening} (ha : s.Undisturbed (.happen e)) :
    ∃ s', s.step (.happen e) = .ok s' ∧ s'.Bounded := by
  cases e with
  | interrupt e =>
    obtain ⟨l,hl,hbounded⟩ := TwiLink.interrupt_bounded h.link e
    rw [step,TwiLink.happen,hl]
    refine ⟨_,rfl,hbounded,fun c stage hcaller => ?_⟩
    apply (h.made c stage hcaller).interrupt _ hl
    rw [← hcaller]
    exact ha
  | overhear read =>
    exact ⟨_,rfl,TwiLink.overhear_bounded h.link ha,fun c stage hcaller => (h.made c stage hcaller).overhear ha⟩
  | release => exact ⟨_,rfl,TwiLink.release_bounded h.link,fun c stage hcaller => (h.made c stage hcaller).release⟩

private theorem proceed_bounded (h : s.Bounded) {c : TwiCall} {stage : TwiStage} (hcaller : s.caller = .calling c stage) :
    ∃ s', s.proceed c stage = .ok s' ∧ s'.Bounded := by
  have hmade := h.made c stage hcaller
  unfold proceed
  by_cases hwaiting : stage = .waiting
  · rw [if_pos hwaiting]
    split
    · exact ⟨s,rfl,h⟩
    · obtain ⟨data,hdata⟩ := TwiCall.finish_inside hmade.fits s.link.twi
      rw [hdata]
      exact ⟨_,rfl,h.link,fun _ _ hfree => TwiCaller.noConfusion hfree⟩
  · obtain ⟨r,hr,hbounded,hnext⟩ := hmade.proceed h.link hwaiting
    rw [if_neg hwaiting,hr]
    refine ⟨_,rfl,hbounded,?_⟩
    rintro _ _ ⟨⟩
    exact hnext

private theorem step_bounded (h : s.Bounded) {a : TwiAction} (ha : s.Undisturbed a) : ∃ s', s.step a = .ok s' ∧ s'.Bounded := by
  cases a with
  | call c =>
    rw [step]
    split
    next htakes => exact ⟨_,rfl,enter_bounded h ha htakes⟩
    next => exact ⟨s,rfl,h⟩
  | proceed =>
    rw [step]
    cases hcaller : s.caller with
    | free => exact ⟨s,rfl,h⟩
    | calling c stage => exact proceed_bounded h hcaller
  | transmit m =>
    rw [step]
    split
    next hfree =>
      obtain ⟨r,b,n,ht,hn⟩ := Twi.transmit_only s.link.twi m
      rw [ht]
      refine ⟨_,rfl,⟨h.link.sized.setTx b hn,bounds_congr rfl rfl rfl rfl rfl h.link.phase⟩,fun c stage hcaller => ?_⟩
      have hcalling : s.caller = .calling c stage := hcaller
      rw [hcalling] at hfree
      cases hfree
    next => exact ⟨s,rfl,h⟩
  | happen e => exact happen_bounded h ha

private theorem run_bounded (h : s.Bounded) {actions : List TwiAction} (hall : AdmitsAll step Undisturbed s actions) :
    ∃ s', actions.foldlM step s = .ok s' ∧ s'.Bounded :=
  admitted_run (fun _ _ hs ha => step_bounded hs ha) h hall

end TwiSystem

/-- The handler's part of a read of no bytes, whose length has become 255. -/
private structure EmptyRead (t : Twi) : Prop where
  slarw : t.slarw &&& 1 = 1
  length : t.masterBufferLength = 255
  index : t.masterBufferIndex = 0

/-- The interface is receiving for a read of no bytes, with `k` bytes in the buffer. -/
private structure Unbounded (l : TwiLink) (k : Nat) : Prop where
  phase : l.phase = .masterReceive true
  length : l.twi.masterBufferLength = 255
  index : l.twi.masterBufferIndex.toNat = k

section EmptyReads
variable {l : TwiLink}

private theorem incoming_stored {k : Nat} (h : Unbounded l k) (hk : k < 32) :
    ∃ l', l.interrupt ⟨.mrDataAck,0,[]⟩ = .ok l' ∧ Unbounded l' (k + 1) := by
  have hallows : l.phase.allows .mrDataAck = true := by
    rw [h.phase]
    decide
  have hstore : l.twi.masterBufferIndex.toNat < twiBufferLength := by
    rw [h.index]
    exact hk
  have hnext : (l.twi.masterBufferIndex + 1).toNat = k + 1 := by
    rw [UInt8.toNat_add,h.index]
    change (k + 1) % 256 = k + 1
    omega
  have hack : decide (l.twi.masterBufferIndex + 1 < l.twi.masterBufferLength) = true := by
    apply decide_eq_true
    rw [h.length,UInt8.lt_iff_toNat_lt,hnext]
    change k + 1 < 255
    omega
  rw [TwiLink.interrupt,if_pos hallows,Twi.handler,Twi.storeMaster,storeAt_inside hstore]
  refine ⟨_,rfl,?_,h.length,hnext⟩
  exact congrArg TwiPhase.masterReceive hack

private theorem incoming_overruns (h : Unbounded l 32) : l.interrupt ⟨.mrDataAck,0,[]⟩ = .error .bounds := by
  have hallows : l.phase.allows .mrDataAck = true := by
    rw [h.phase]
    decide
  have hstore : ¬ l.twi.masterBufferIndex.toNat < twiBufferLength := by
    rw [h.index]
    decide
  rw [TwiLink.interrupt,if_pos hallows,Twi.handler,Twi.storeMaster,storeAt,dif_neg hstore]
  rfl

private theorem unbounded_overruns (n : Nat) {k : Nat} (hk : k + n = 32) (h : Unbounded l k) :
    (List.replicate (n + 1) ⟨.mrDataAck,0,[]⟩).foldlM TwiLink.interrupt l = .error .bounds := by
  induction n generalizing k l with
  | zero =>
    obtain rfl : k = 32 := hk
    rw [List.replicate_succ,List.foldlM_cons,incoming_overruns h]
    rfl
  | succ n ih =>
    obtain ⟨l',hl',hnext⟩ := incoming_stored h (by omega)
    rw [List.replicate_succ,List.foldlM_cons,hl',ok_bind]
    exact ih (by omega) hnext

private theorem answered_unbounded (h : EmptyRead l.twi) (hphase : l.phase = .address true) :
    ∃ l', l.interrupt ⟨.mrSlaAck,0,[]⟩ = .ok l' ∧ Unbounded l' 0 := by
  have hallows : l.phase.allows .mrSlaAck = true := by
    rw [hphase]
    decide
  have hack : decide (l.twi.masterBufferIndex < l.twi.masterBufferLength) = true := by
    rw [h.index,h.length]
    decide
  have hzero : l.twi.masterBufferIndex.toNat = 0 := congrArg UInt8.toNat h.index
  rw [TwiLink.interrupt,if_pos hallows]
  exact ⟨_,rfl,congrArg TwiPhase.masterReceive hack,h.length,hzero⟩

private theorem started_address (h : EmptyRead l.twi) (hphase : l.phase = .starting) :
    ∃ l', l.interrupt ⟨.start,0,[]⟩ = .ok l' ∧ EmptyRead l'.twi ∧ l'.phase = .address true := by
  have hallows : l.phase.allows .start = true := by
    rw [hphase]
    decide
  rw [TwiLink.interrupt,if_pos hallows]
  exact ⟨_,rfl,⟨h.slarw,h.length,h.index⟩,congrArg TwiPhase.address (decide_eq_true h.slarw)⟩

/-- A slave that answers the address and goes on sending; after a repeated start the address is
already on its way. -/
private theorem empty_read_overruns (h : EmptyRead l.twi) (hphase : l.phase = .starting ∨ l.phase = .address true) :
    ∃ events : List TwiEvent, events.foldlM TwiLink.interrupt l = .error .bounds := by
  have hanswered {l : TwiLink} (h : EmptyRead l.twi) (hphase : l.phase = .address true) :
      (⟨.mrSlaAck,0,[]⟩ :: List.replicate 33 ⟨.mrDataAck,0,[]⟩ : List TwiEvent).foldlM TwiLink.interrupt l = .error .bounds := by
    obtain ⟨l',hl',hunbounded⟩ := answered_unbounded h hphase
    rw [List.foldlM_cons,hl',ok_bind]
    exact unbounded_overruns 32 (Nat.zero_add 32) hunbounded
  rcases hphase with hphase | hphase
  · obtain ⟨l',hl',h',hphase'⟩ := started_address h hphase
    refine ⟨⟨.start,0,[]⟩ :: ⟨.mrSlaAck,0,[]⟩ :: List.replicate 33 ⟨.mrDataAck,0,[]⟩,?_⟩
    rw [List.foldlM_cons,hl',ok_bind]
    exact hanswered h' hphase'
  · exact ⟨_,hanswered h hphase⟩

end EmptyReads

/-- The bus is idle, or held by a repeated start. -/
def TwiPhase.calm : TwiPhase → Bool
  | .idle _ | .restarted => true
  | _ => false

namespace TwiSystem
variable {s : TwiSystem}

private theorem interrupts_run {l : TwiLink} {c : TwiCall} (events : List TwiEvent) :
    AdmitsAll step Undisturbed ⟨l,.calling c .waiting⟩ (events.map fun e => .happen (.interrupt e)) ∧
      (events.foldlM TwiLink.interrupt l = .error .bounds →
        (events.map fun e => TwiAction.happen (.interrupt e)).foldlM step ⟨l,.calling c .waiting⟩ = .error .bounds) := by
  induction events generalizing l with
  | nil => exact ⟨trivial,fun h => by cases h⟩
  | cons e rest ih =>
    rw [List.map_cons,List.foldlM_cons,List.foldlM_cons,step,TwiLink.happen]
    cases hl : l.interrupt e with
    | error f =>
      refine ⟨⟨fun _ => rfl,fun s' hs' => ?_⟩,fun hf => ?_⟩
      · rw [step,TwiLink.happen,hl] at hs'
        cases hs'
      · cases hf
        rfl
    | ok l' =>
      refine ⟨⟨fun _ => rfl,fun s' hs' => ?_⟩,ih.2⟩
      rw [step,TwiLink.happen,hl] at hs'
      cases hs'
      exact ih.1

private theorem enter_called (address length : UInt8) (sendStop : Bool) (hcalm : s.link.phase.calm = true) (rest : List TwiAction)
    (hrest : AdmitsAll step Undisturbed
      ⟨s.link.call (s.link.twi.beginRead address length sendStop),.calling (.readFrom address length sendStop) .waiting⟩ rest) :
    AdmitsAll step Undisturbed (s.enter (.readFrom address length sendStop)) (.proceed :: .proceed :: .proceed :: rest) ∧
      (TwiAction.proceed :: .proceed :: .proceed :: rest).foldlM step (s.enter (.readFrom address length sendStop)) =
        rest.foldlM step
          ⟨s.link.call (s.link.twi.beginRead address length sendStop),.calling (.readFrom address length sendStop) .waiting⟩ := by
  obtain ⟨⟨t,p⟩,caller⟩ := s
  cases p with
  | idle _ | restarted =>
    exact ⟨.cons trivial rfl (.cons trivial rfl (.cons trivial rfl hrest)),rfl⟩
  | starting | address _ | masterTransmit | masterReceive _ | slaveReceive _ | slaveTransmit _ | closing _ => cases hcalm

private theorem empty_read_called (t : Twi) (address : UInt8) (sendStop : Bool) : EmptyRead (t.beginRead address 0 sendStop) := by
  unfold Twi.beginRead Twi.begin
  split <;> exact ⟨read_address address,rfl,rfl⟩

private theorem read_called {l : TwiLink} (hcalm : l.phase.calm = true) (address length : UInt8) (sendStop : Bool) :
    (l.call (l.twi.beginRead address length sendStop)).phase = .starting ∨
      (l.call (l.twi.beginRead address length sendStop)).phase = .address true := by
  have hcommand : (if (l.twi.beginRead address length sendStop).twcr.start then TwiPhase.starting
      else .ofAddress (l.twi.beginRead address length sendStop).twdr) = .starting ∨
      (if (l.twi.beginRead address length sendStop).twcr.start then TwiPhase.starting
      else .ofAddress (l.twi.beginRead address length sendStop).twdr) = .address true := by
    unfold Twi.beginRead Twi.begin
    split
    · exact .inr (congrArg TwiPhase.address (decide_eq_true (read_address address)))
    · exact .inl rfl
  change l.phase.command _ _ = _ ∨ l.phase.command _ _ = _
  cases hphase : l.phase with
  | idle _ | restarted => exact hcommand
  | starting | address _ | masterTransmit | masterReceive _ | slaveReceive _ | slaveTransmit _ | closing _ =>
    rw [hphase] at hcalm
    cases hcalm

end TwiSystem

/-- No access leaves a buffer as long as no read is for no bytes, no address for reading is
acknowledged while a call is being made or during the callback of `TW_SR_STOP`, and no reception
ends between the two writes of a call. Of the reads that can then be made, those for no bytes are
the ones that a slave can lead outside. -/
theorem twi_buffers_inBounds (actions : List TwiAction) (h : AdmitsAll TwiSystem.step TwiSystem.Undisturbed .init actions) :
    ∃ s, actions.foldlM TwiSystem.step .init = .ok s ∧
      ∀ address length sendStop, s.takes (.readFrom address length sendStop) → s.link.phase.calm = true →
        ((∀ rest, AdmitsAll TwiSystem.step TwiSystem.Undisturbed (s.enter (.readFrom address length sendStop)) rest →
          ∃ s', rest.foldlM TwiSystem.step (s.enter (.readFrom address length sendStop)) = .ok s') ↔ length ≠ 0) := by
  obtain ⟨s,hs,hbounded⟩ := TwiSystem.run_bounded TwiSystem.init_bounded h
  refine ⟨s,hs,fun address length sendStop htakes hcalm => ⟨?_,?_⟩⟩
  · rintro hall rfl
    obtain ⟨events,hevents⟩ := empty_read_overruns (l := s.link.call (s.link.twi.beginRead address 0 sendStop))
      (TwiSystem.empty_read_called s.link.twi address sendStop) (TwiSystem.read_called hcalm address 0 sendStop)
    obtain ⟨hadmits,hfails⟩ := TwiSystem.interrupts_run (c := .readFrom address 0 sendStop) events
    obtain ⟨hcalls,hrun⟩ := TwiSystem.enter_called address 0 sendStop hcalm _ hadmits
    obtain ⟨s',hs'⟩ := hall _ hcalls
    rw [hrun,hfails hevents] at hs'
    cases hs'
  · intro hne rest hrest
    have henter := TwiSystem.enter_bounded (c := .readFrom address length sendStop) hbounded hne htakes
    exact (TwiSystem.run_bounded henter hrest).imp fun s' hs' => hs'.1

private def called (c : TwiCall) : List TwiAction := [.call c,.proceed,.proceed,.proceed]

private def reported (status : TwiStatus) (byte : UInt8) (calls : List TwiMessage) : TwiAction := .happen (.interrupt ⟨status,byte,calls⟩)

private def read (length : UInt8) : List TwiAction :=
  called (.readFrom 0x50 length true) ++ [reported .start 0 [],reported .mrSlaAck 0 []]

private def twoBytes : List TwiAction := [reported .mrDataAck 7 [],reported .mrDataNack 8 [],.proceed]

theorem twi_buffers_inBounds_two_bytes :
    AdmitsAll TwiSystem.step TwiSystem.Undisturbed .init (read 2 ++ twoBytes) ∧
      ∃ s, (read 2 ++ twoBytes).foldlM TwiSystem.step .init = .ok s := by
  have hcall : AdmitsAll TwiSystem.step TwiSystem.Undisturbed .init (read 2 ++ twoBytes) :=
    .cons (by decide : (2 : UInt8) ≠ 0) rfl <| .cons trivial rfl <| .cons trivial rfl <| .cons trivial rfl <|
      .cons (fun _ => rfl) rfl <| .cons (fun _ => rfl) rfl <| .cons (fun _ => rfl) rfl <| .cons (fun _ => rfl) rfl <|
      .cons trivial rfl trivial
  exact ⟨hcall,(twi_buffers_inBounds _ hcall).imp fun s hs => hs.1⟩

/-- A slave that goes on sending fills the buffer of a read of no bytes and goes past it. -/
theorem empty_read_leaves_buffer :
    (read 0 ++ List.replicate 33 (reported .mrDataAck 7 [])).foldlM TwiSystem.step .init = .error .bounds := by
  rfl

private def fullReply : TwiMessage := ⟨List.replicate 32 7,by decide⟩

private def replied : List TwiAction := reported .stSlaAck 0 [fullReply] :: List.replicate 31 (reported .stDataAck 0 [])

-- After a reply of 32 bytes, an address for reading that comes during the callback is not
-- reported and the index stays where it was.
example : (replied ++ [reported .stLastData 0 [],reported .srSlaAck 0 [],reported .srStop 0 [],.happen (.overhear true),
    .happen .release,reported .stDataAck 0 []]).foldlM TwiSystem.step .init = .error .bounds := by
  rfl

-- A reply of 32 bytes while a call is being made: its write to `TWCR` acknowledges once more.
example : (TwiAction.call (.readFrom 0x50 1 true) :: replied ++ [.proceed,.proceed,.proceed,reported .stDataAck 0 []]).foldlM
    TwiSystem.step .init = .error .bounds := by
  rfl

-- A reception that ends between the two writes of a read leaves `TWI_READY` behind while the read
-- goes out, and a write makes its own index and length of the ones the handler reads with.
example : ([TwiAction.call (.readFrom 0x50 1 true),reported .srSlaAck 0 [],.proceed,reported .srStop 0 [],.happen .release,
    .proceed,.proceed,.proceed,reported .start 0 [],reported .mrSlaAck 0 []] ++ called (.writeTo 0x50 fullReply true true) ++
    List.replicate 32 (reported .mrDataAck 0 []) ++ [reported .mrDataNack 0 []]).foldlM TwiSystem.step .init = .error .bounds := by
  rfl

end ArduinoAT90USB.Library
