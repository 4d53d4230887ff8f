import ArduinoAT90USB.Library.Twi
import ArduinoAT90USB.Foundation.Runs

/-! The interrupts of a `twi_writeTo` that waits, and what was on the bus. The loop watches
`twi_state` and the result is made from `twi_error`; a status that addresses the interface as
slave changes the one without the other. -/
namespace ArduinoAT90USB.Library
open Foundation.Memory Foundation.Runs

namespace TwiStatus

/-- What this status says about the byte the master put on the bus, and whether it was
acknowledged. -/
def onBus (twdr : UInt8) : TwiStatus → List (UInt8 × Bool)
  | .mtSlaAck | .mtDataAck => [(twdr,true)]
  | .mtSlaNack | .mtDataNack => [(twdr,false)]
  | _ => []

/-- A NACK, a lost arbitration or a bus error. -/
def failed : TwiStatus → Bool
  | .mtSlaNack | .mtDataNack | .arbLost | .busError => true
  | status => status.lostAndAddressed

/-- A byte of a transfer with this interface as slave. -/
def slaveData : TwiStatus → Bool
  | .srDataAck | .srGcallDataAck | .srDataNack | .srGcallDataNack | .stDataAck => true
  | _ => false

/-- The end of a transfer with this interface as slave. -/
def slaveEnd : TwiStatus → Bool
  | .srStop | .stDataNack | .stLastData => true
  | _ => false

end TwiStatus

/-- A call of `twi_writeTo` under way: the bytes that were on the bus since, and the status that
took the state from `TWI_MTX`. -/
structure WriteCall where
  link : TwiLink
  sent : List (UInt8 × Bool)
  ending : Option TwiStatus

namespace WriteCall

def step (s : WriteCall) (e : TwiEvent) : WriteCall :=
  match s.link.interrupt e with
  | .error _ => s
  | .ok l =>
    if s.link.phase.allows e.status then
      {link := l
       sent := s.sent ++ e.status.onBus s.link.twi.twdr
       ending := if s.link.twi.state = .mtx ∧ l.twi.state ≠ .mtx then some e.status else s.ending}
    else s

/-- All of a message, with its address, on the bus and acknowledged. -/
def delivered (address : UInt8) (data : List UInt8) : List (UInt8 × Bool) :=
  (address <<< 1,true) :: data.map fun x => (x,true)

/-- If the waiting loop ends now, 0 means that everything was sent and acknowledged, and what
ended the transfer with a failure shows in the result. -/
def Honest (address : UInt8) (data : List UInt8) (s : WriteCall) : Prop :=
  s.link.twi.state ≠ .mtx →
    (s.link.twi.writeResult = 0 → s.sent = delivered address data) ∧
      ∀ status, s.ending = some status → status.failed = true → s.link.twi.writeResult ≠ 0

/-- The call that waits is not overtaken by a master that addresses this interface. -/
def Unaddressed (s : WriteCall) (e : TwiEvent) : Prop :=
  s.link.twi.state = .mtx → s.link.phase.allows e.status = true →
    e.status.addressed = false ∧ e.status.lostAndAddressed = false

end WriteCall

/-- The phases without a part in a master's transfer. -/
def TwiPhase.offMaster : TwiPhase → Bool
  | .idle _ | .restarted | .slaveReceive _ | .slaveTransmit _ | .closing _ => true
  | .starting | .address _ | .masterTransmit | .masterReceive _ => false

/-- The variables of a master's transfer are left as they were. -/
structure Twi.Aside (t t' : Twi) : Prop where
  start : t'.inRepStart = t.inRepStart
  slarw : t'.slarw = t.slarw
  buffer : t'.masterBuffer = t.masterBuffer
  index : t'.masterBufferIndex = t.masterBufferIndex
  length : t'.masterBufferLength = t.masterBufferLength

/-- What the handler does outside a transfer of its own. -/
structure Twi.OffStep (t : Twi) (status : TwiStatus) (t' : Twi) : Prop where
  aside : t.Aside t'
  off : (TwiPhase.respond t'.twcr t'.twdr status).offMaster = true
  running : (TwiPhase.respond t'.twcr t'.twdr status) ≠ .restarted
  silent : ∀ twdr, status.onBus twdr = []
  error : status ≠ .busError → t'.error = t.error
  code : status = .busError → t'.error = 0
  stays : status.slaveData = true → t'.state = t.state
  leaves : status.slaveData = false → t'.state ≠ .mtx
  returned : status ≠ .srStop → (TwiPhase.respond t'.twcr t'.twdr status).inCallback = false

section Slave
variable {t t' : Twi}

private theorem sendNext_aside (h : t.sendNext = .ok t') : t.Aside t' ∧ t'.state = t.state ∧ t'.error = t.error := by
  obtain ⟨x,_,hx⟩ := bind_eq_ok h
  cases hx
  exact ⟨⟨rfl,rfl,rfl,rfl,rfl⟩,rfl,rfl⟩

/-- Becoming a slave transmitter always succeeds and says nothing about errors. -/
private theorem beginSlaveTransmit_aside (t : Twi) (calls : List TwiMessage) :
    ∃ t', t.beginSlaveTransmit calls = .ok t' ∧ t.Aside t' ∧ t'.state = .stx ∧ t'.error = t.error := by
  obtain ⟨b,n,_,hbegin⟩ := t.beginSlaveTransmit_only calls
  rw [hbegin,Twi.sendNext,loadAt_inside (by decide : (0 : UInt8).toNat < twiBufferLength)]
  exact ⟨_,rfl,⟨rfl,rfl,rfl,rfl,rfl⟩,rfl,rfl⟩

theorem storeSlave_aside (h : t.storeSlave = .ok t') : t.Aside t' ∧ t'.state = t.state ∧ t'.error = t.error := by
  unfold Twi.storeSlave at h
  split at h
  · obtain ⟨b,_,hb⟩ := bind_eq_ok h
    cases hb
    exact ⟨⟨rfl,rfl,rfl,rfl,rfl⟩,rfl,rfl⟩
  · cases h
    exact ⟨⟨rfl,rfl,rfl,rfl,rfl⟩,rfl,rfl⟩

theorem closeSlave_aside (h : t.closeSlave = .ok t') : t.Aside t' ∧ t'.state = .ready ∧ t'.error = t.error := by
  unfold Twi.closeSlave at h
  split at h
  · obtain ⟨b,_,hb⟩ := bind_eq_ok h
    cases hb
    exact ⟨⟨rfl,rfl,rfl,rfl,rfl⟩,rfl,rfl⟩
  · cases h
    exact ⟨⟨rfl,rfl,rfl,rfl,rfl⟩,rfl,rfl⟩

/-- What comes outside a transfer of its own. -/
theorem allows_off {p : TwiPhase} (hp : p.offMaster = true) {status : TwiStatus} (h : p.allows status = true) :
    status.addressed = true ∨ status.slaveEnd = true ∨ status.slaveData = true ∨ status = .busError := by
  have hnot : ∀ p ∈ TwiPhase.all, p.offMaster = true → ∀ st ∈ [TwiStatus.start,.repStart,.mtSlaAck,.mtSlaNack,.mtDataAck,
      .mtDataNack,.arbLost,.mrSlaAck,.mrSlaNack,.mrDataAck,.mrDataNack,.srArbLostSlaAck,.srArbLostGcallAck,.stArbLostSlaAck,
      .noInfo], p.allows st = false := by decide
  cases status with
  | srSlaAck | srGcallAck | stSlaAck => exact .inl rfl
  | srStop | stDataNack | stLastData => exact .inr (.inl rfl)
  | srDataAck | srGcallDataAck | srDataNack | srGcallDataNack | stDataAck => exact .inr (.inr (.inl rfl))
  | busError => exact .inr (.inr (.inr rfl))
  | start | repStart | mtSlaAck | mtSlaNack | mtDataAck | mtDataNack | arbLost | mrSlaAck | mrSlaNack | mrDataAck
  | mrDataNack | srArbLostSlaAck | srArbLostGcallAck | stArbLostSlaAck | noInfo =>
    rw [hnot p p.mem_all hp _ (by decide)] at h
    cases h

theorem handler_off {p : TwiPhase} (hp : p.offMaster = true) {status : TwiStatus}
    (hallows : p.allows status = true) {calls : List TwiMessage} (h : t.handler calls status = .ok t') : t.OffStep status t' := by
  have hstatus := allows_off hp hallows
  cases status with
  | start | repStart | mtSlaAck | mtSlaNack | mtDataAck | mtDataNack | arbLost | mrSlaAck | mrSlaNack | mrDataAck
  | mrDataNack | srArbLostSlaAck | srArbLostGcallAck | stArbLostSlaAck | noInfo => exact absurd hstatus (by decide)
  | srSlaAck | srGcallAck =>
    cases h
    exact ⟨⟨rfl,rfl,rfl,rfl,rfl⟩,rfl,TwiPhase.noConfusion,fun _ => rfl,fun _ => rfl,TwiStatus.noConfusion,Bool.noConfusion,
      fun _ => TwiState.noConfusion,fun _ => rfl⟩
  | srDataAck | srGcallDataAck =>
    obtain ⟨ha,hs,he⟩ := storeSlave_aside h
    exact ⟨ha,rfl,TwiPhase.noConfusion,fun _ => rfl,fun _ => he,TwiStatus.noConfusion,fun _ => hs,Bool.noConfusion,fun _ => rfl⟩
  | srDataNack | srGcallDataNack =>
    cases h
    exact ⟨⟨rfl,rfl,rfl,rfl,rfl⟩,rfl,TwiPhase.noConfusion,fun _ => rfl,fun _ => rfl,TwiStatus.noConfusion,fun _ => rfl,
      Bool.noConfusion,fun _ => rfl⟩
  | srStop =>
    obtain ⟨ha,hs,he⟩ := closeSlave_aside h
    refine ⟨ha,rfl,TwiPhase.noConfusion,fun _ => rfl,fun _ => he,TwiStatus.noConfusion,Bool.noConfusion,fun _ => ?_,fun h => absurd rfl h⟩
    rw [hs]
    exact TwiState.noConfusion
  | stSlaAck =>
    obtain ⟨t₁,ht₁,ha,hs,he⟩ := beginSlaveTransmit_aside t calls
    cases h.symm.trans ht₁
    refine ⟨ha,rfl,TwiPhase.noConfusion,fun _ => rfl,fun _ => he,TwiStatus.noConfusion,Bool.noConfusion,fun _ => ?_,fun _ => rfl⟩
    rw [hs]
    exact TwiState.noConfusion
  | stDataAck =>
    obtain ⟨ha,hs,he⟩ := sendNext_aside h
    exact ⟨ha,rfl,TwiPhase.noConfusion,fun _ => rfl,fun _ => he,TwiStatus.noConfusion,fun _ => hs,Bool.noConfusion,fun _ => rfl⟩
  | stDataNack | stLastData =>
    cases h
    exact ⟨⟨rfl,rfl,rfl,rfl,rfl⟩,rfl,TwiPhase.noConfusion,fun _ => rfl,fun _ => rfl,TwiStatus.noConfusion,Bool.noConfusion,
      fun _ => TwiState.noConfusion,fun _ => rfl⟩
  | busError =>
    cases h
    exact ⟨⟨rfl,rfl,rfl,rfl,rfl⟩,rfl,TwiPhase.noConfusion,fun _ => rfl,fun h => absurd rfl h,fun _ => rfl,Bool.noConfusion,
      fun _ => TwiState.noConfusion,fun _ => rfl⟩

private theorem endTransfer_state (t : Twi) : t.endTransfer.state = .ready := by
  unfold Twi.endTransfer
  split <;> rfl

private theorem endTransfer_error (t : Twi) : t.endTransfer.error = t.error := by
  unfold Twi.endTransfer
  split <;> rfl

private theorem storeMaster_error (h : t.storeMaster = .ok t') : t'.state = t.state ∧ t'.error = t.error := by
  obtain ⟨b,_,hb⟩ := bind_eq_ok h
  cases hb
  exact ⟨rfl,rfl⟩

private theorem sendMaster_error (h : t.sendMaster = .ok t') : (t'.state = t.state ∨ t'.state = .ready) ∧ t'.error = t.error := by
  unfold Twi.sendMaster at h
  split at h
  · obtain ⟨x,_,hx⟩ := bind_eq_ok h
    cases hx
    exact ⟨.inl rfl,rfl⟩
  · cases h
    exact ⟨.inr (endTransfer_state t),endTransfer_error t⟩

/-- A status that ends a transfer by itself leaves its code. -/
theorem handler_breaks (t : Twi) (calls : List TwiMessage) {status : TwiStatus}
    (h : status ∈ [TwiStatus.mtSlaNack,.mtDataNack,.arbLost,.busError]) :
    ∃ t', t.handler calls status = .ok t' ∧ t'.state = .ready ∧ t'.error ≠ 0xff := by
  simp only [List.mem_cons, List.not_mem_nil, or_false] at h
  rcases h with rfl | rfl | rfl | rfl
  · exact ⟨_,rfl,rfl,(by decide : (0x20 : UInt8) ≠ 0xff)⟩
  · exact ⟨_,rfl,rfl,(by decide : (0x30 : UInt8) ≠ 0xff)⟩
  · exact ⟨_,rfl,rfl,(by decide : (0x38 : UInt8) ≠ 0xff)⟩
  · exact ⟨_,rfl,rfl,(by decide : (0x00 : UInt8) ≠ 0xff)⟩

/-- No interrupt makes the interface a master transmitter, and none takes an error back. -/
theorem handler_keeps_error {calls : List TwiMessage} {status : TwiStatus} (h : t.handler calls status = .ok t')
    (hstate : t.state ≠ .mtx) (herror : t.error ≠ 0xff) : t'.state ≠ .mtx ∧ t'.error ≠ 0xff := by
  have hboth (hs : t'.state = t.state ∨ t'.state = .ready ∨ t'.state = .stx) (he : t'.error = t.error) :
      t'.state ≠ .mtx ∧ t'.error ≠ 0xff := by
    rw [he]
    refine ⟨fun hm => ?_,herror⟩
    rcases hs with hs | hs | hs <;> rw [hs] at hm
    · exact hstate hm
    · cases hm
    · cases hm
  have hbroken (hmem : status ∈ [TwiStatus.mtSlaNack,.mtDataNack,.arbLost,.busError]) : t'.state ≠ .mtx ∧ t'.error ≠ 0xff := by
    obtain ⟨u,hu,hs,he⟩ := handler_breaks t calls hmem
    cases h.symm.trans hu
    rw [hs]
    exact ⟨TwiState.noConfusion,he⟩
  cases status with
  | start | repStart | mrSlaAck | srDataNack | srGcallDataNack | noInfo =>
    cases h
    exact ⟨hstate,herror⟩
  | mtSlaAck | mtDataAck =>
    obtain ⟨hs,he⟩ := sendMaster_error h
    exact hboth (hs.imp_right .inl) he
  | mtSlaNack | mtDataNack | arbLost | busError => exact hbroken (by decide)
  | mrDataAck =>
    obtain ⟨u,hu,hr⟩ := bind_eq_ok h
    cases hr
    obtain ⟨hs,he⟩ := storeMaster_error hu
    exact hboth (.inl hs) he
  | mrDataNack =>
    obtain ⟨u,hu,hr⟩ := bind_eq_ok h
    cases hr
    obtain ⟨-,he⟩ := storeMaster_error hu
    exact hboth (.inr (.inl (endTransfer_state u))) ((endTransfer_error u).trans he)
  | mrSlaNack | stDataNack | stLastData | srSlaAck | srGcallAck | srArbLostSlaAck | srArbLostGcallAck =>
    cases h
    exact ⟨TwiState.noConfusion,herror⟩
  | srDataAck | srGcallDataAck =>
    obtain ⟨-,hs,he⟩ := storeSlave_aside h
    exact hboth (.inl hs) he
  | srStop =>
    obtain ⟨-,hs,he⟩ := closeSlave_aside h
    exact hboth (.inr (.inl hs)) he
  | stSlaAck | stArbLostSlaAck =>
    obtain ⟨t₁,ht₁,-,hs,he⟩ := beginSlaveTransmit_aside t calls
    cases h.symm.trans ht₁
    exact hboth (.inr (.inr hs)) he
  | stDataAck =>
    obtain ⟨-,hs,he⟩ := sendNext_aside h
    exact hboth (.inl hs) he

private theorem closeSlave_ok (t : Twi) : ∃ t', t.closeSlave = .ok t' := by
  unfold Twi.closeSlave
  split
  next hroom =>
    rw [storeAt_inside hroom]
    exact ⟨_,rfl⟩
  next => exact ⟨_,rfl⟩

/-- Becoming a slave, or no longer being one, takes the state from `TWI_MTX` and leaves no error. -/
theorem handler_leaves {status : TwiStatus}
    (hstatus : status.addressed = true ∨ status.lostAndAddressed = true ∨ status.slaveEnd = true) (t : Twi)
    (calls : List TwiMessage) : ∃ t', t.handler calls status = .ok t' ∧ t'.state ≠ .mtx ∧ t'.error = t.error ∧
      ∀ twdr, status.onBus twdr = [] := by
  cases status with
  | srSlaAck | srGcallAck | srArbLostSlaAck | srArbLostGcallAck | stDataNack | stLastData =>
    exact ⟨_,rfl,TwiState.noConfusion,rfl,fun _ => rfl⟩
  | stSlaAck | stArbLostSlaAck =>
    obtain ⟨t',ht',-,hstate,herror⟩ := beginSlaveTransmit_aside t calls
    refine ⟨t',ht',?_,herror,fun _ => rfl⟩
    rw [hstate]
    exact TwiState.noConfusion
  | srStop =>
    obtain ⟨t',ht'⟩ := closeSlave_ok t
    obtain ⟨-,hstate,herror⟩ := closeSlave_aside ht'
    refine ⟨t',ht',?_,herror,fun _ => rfl⟩
    rw [hstate]
    exact TwiState.noConfusion
  | start | repStart | mtSlaAck | mtSlaNack | mtDataAck | mtDataNack | arbLost | mrSlaAck | mrSlaNack | mrDataAck
  | mrDataNack | srDataAck | srDataNack | srGcallDataAck | srGcallDataNack | stDataAck | noInfo | busError =>
    rcases hstatus with h | h | h <;> cases h

end Slave

namespace WriteCall
variable {address : UInt8} {data : List UInt8} {s : WriteCall} {e : TwiEvent}

/-- What the call left for the handler. -/
structure Loaded (address : UInt8) (data : List UInt8) (t : Twi) : Prop where
  state : t.state = .mtx
  error : t.error = 0xff
  slarw : t.slarw = address <<< 1
  length : t.masterBufferLength.toNat = data.length
  buffer : ∀ j < data.length, t.masterBuffer[j]? = data[j]?

theorem Loaded.begin {t : Twi} (h : Loaded address data t) : Loaded address data t.begin := by
  unfold Twi.begin
  split <;> exact ⟨h.state,h.error,h.slarw,h.length,h.buffer⟩

theorem Loaded.aside {t t' : Twi} (h : Loaded address data t) (ha : t.Aside t') (hstate : t'.state = t.state)
    (herror : t'.error = t.error) : Loaded address data t' := by
  refine ⟨hstate.trans h.state,herror.trans h.error,ha.slarw.trans h.slarw,?_,?_⟩
  · rw [ha.length]
    exact h.length
  · rw [ha.buffer]
    exact h.buffer

theorem Loaded.sendMaster_next {t : Twi} (h : Loaded address data t) {k : Nat} (hindex : t.masterBufferIndex.toNat = k)
    (hlt : k < data.length) :
    t.sendMaster = .ok ({t with twdr := data[k], masterBufferIndex := t.masterBufferIndex + 1}.reply true) ∧
      (t.masterBufferIndex + 1).toNat = k + 1 := by
  have hless : t.masterBufferIndex < t.masterBufferLength := by
    rw [UInt8.lt_iff_toNat_lt,h.length,hindex]
    exact hlt
  have hload : loadAt t.masterBuffer t.masterBufferIndex.toNat = .ok data[k] := by
    rw [hindex]
    exact loadAt_eq ((h.buffer k hlt).trans (List.getElem?_eq_getElem hlt))
  constructor
  · rw [Twi.sendMaster,if_pos hless,hload]
    rfl
  · have := t.masterBufferLength.toNat_lt
    have := h.length
    rw [UInt8.toNat_add,hindex]
    change (k + 1) % 256 = k + 1
    omega

theorem Loaded.sendMaster_last {t : Twi} (h : Loaded address data t) (hindex : t.masterBufferIndex.toNat = data.length) :
    t.sendMaster = .ok t.endTransfer := by
  have hnot : ¬ t.masterBufferIndex < t.masterBufferLength := by
    rw [UInt8.lt_iff_toNat_lt,h.length,hindex]
    exact Nat.lt_irrefl _
  rw [Twi.sendMaster,if_neg hnot]

/-- How far a transfer is that is going well. -/
inductive Sending (address : UInt8) (data : List UInt8) (s : WriteCall) : Prop
  | starting (phase : s.link.phase = .starting) (index : s.link.twi.masterBufferIndex = 0) (sent : s.sent = [])
  | address (phase : s.link.phase = .address false) (index : s.link.twi.masterBufferIndex = 0)
      (byte : s.link.twi.twdr = address <<< 1) (sent : s.sent = [])
  | data (k : Nat) (phase : s.link.phase = .masterTransmit) (index : s.link.twi.masterBufferIndex.toNat = k + 1)
      (byte : data[k]? = some s.link.twi.twdr) (sent : s.sent = delivered address (data.take k))

/-- While no other master gets hold of the interface. -/
inductive Progress (address : UInt8) (data : List UInt8) (s : WriteCall) : Prop
  | waiting (loaded : Loaded address data s.link.twi) (ending : s.ending = none) (stage : Sending address data s)
  | done (off : s.link.phase.offMaster = true) (state : s.link.twi.state ≠ .mtx) (sent : s.sent = delivered address data)
      (ending : ∀ status, s.ending = some status → status.failed = false)
  | failed (state : s.link.twi.state ≠ .mtx) (error : s.link.twi.error ≠ 0xff)

private theorem writeResult_ne_zero {t : Twi} (h : t.error ≠ 0xff) : t.writeResult ≠ 0 := by
  unfold Twi.writeResult
  rw [if_neg h]
  split
  · decide
  · split <;> decide

theorem Progress.honest (h : Progress address data s) : s.Honest address data := by
  intro hstate
  cases h with
  | waiting loaded ending stage => exact absurd loaded.state hstate
  | done off state sent ending =>
    refine ⟨fun _ => sent,fun status hending hfailed => ?_⟩
    exact absurd ((ending status hending).symm.trans hfailed) Bool.false_ne_true
  | failed state error =>
    have hne := writeResult_ne_zero error
    exact ⟨fun hzero => absurd hzero hne,fun _ _ _ => hne⟩

theorem step_ignored (h : ¬ s.link.phase.allows e.status = true) : s.step e = s := by
  rw [step,TwiLink.interrupt_ignored h]
  exact if_neg h

/-- What the handler finds: the byte received, if one was. -/
def found (s : WriteCall) (e : TwiEvent) : Twi :=
  {s.link.twi with twdr := if e.status.received then e.byte else s.link.twi.twdr}

private theorem found_eq (h : e.status.received = false) : s.found e = s.link.twi := by
  rw [found,h]
  rfl

theorem step_taken {t : Twi} (hallows : s.link.phase.allows e.status = true)
    (h : (s.found e).handler e.calls e.status = .ok t) :
    s.step e = ⟨⟨t,.respond t.twcr t.twdr e.status⟩,s.sent ++ e.status.onBus s.link.twi.twdr,
      if s.link.twi.state = .mtx ∧ t.state ≠ .mtx then some e.status else s.ending⟩ := by
  rw [step,TwiLink.interrupt_eq hallows h]
  exact if_pos hallows

theorem step_faulted {f : Fault} (h : (s.found e).handler e.calls e.status = .error f) : s.step e = s := by
  by_cases hallows : s.link.phase.allows e.status = true
  · have hint : s.link.interrupt e = .error f := by
      rw [TwiLink.interrupt,if_pos hallows]
      change (s.found e).handler e.calls e.status >>= _ = _
      rw [h]
      rfl
    rw [step,hint]
  · exact step_ignored hallows

theorem step_off (hoff : s.link.phase.offMaster = true) (e : TwiEvent) :
    s.step e = s ∨ ∃ t, s.link.phase.allows e.status = true ∧ (s.found e).OffStep e.status t ∧
      s.step e = ⟨⟨t,.respond t.twcr t.twdr e.status⟩,s.sent,
        if s.link.twi.state = .mtx ∧ t.state ≠ .mtx then some e.status else s.ending⟩ := by
  by_cases hallows : s.link.phase.allows e.status = true
  · cases h : (s.found e).handler e.calls e.status with
    | error f => exact .inl (step_faulted h)
    | ok t =>
      have hstep := handler_off hoff hallows h
      refine .inr ⟨t,hallows,hstep,?_⟩
      rw [step_taken hallows h,hstep.silent,List.append_nil]
  · exact .inl (step_ignored hallows)

/-- After the transfer the interface stays outside one. -/
private theorem step_offMaster (hoff : s.link.phase.offMaster = true) (hstate : s.link.twi.state ≠ .mtx) (e : TwiEvent) :
    (s.step e).link.phase.offMaster = true ∧ (s.step e).link.twi.state ≠ .mtx ∧ (s.step e).sent = s.sent ∧
      (s.step e).ending = s.ending := by
  rcases step_off hoff e with hsame | ⟨t,-,ht,hstep⟩
  · rw [hsame]
    exact ⟨hoff,hstate,rfl,rfl⟩
  · have hleft : t.state ≠ .mtx := by
      cases hdata : e.status.slaveData with
      | true =>
        rw [ht.stays hdata]
        exact hstate
      | false => exact ht.leaves hdata
    rw [hstep,if_neg fun hm => hstate hm.1]
    exact ⟨ht.off,hleft,rfl,rfl⟩

theorem step_failed (hstate : s.link.twi.state ≠ .mtx) (herror : s.link.twi.error ≠ 0xff) (e : TwiEvent) :
    (s.step e).link.twi.state ≠ .mtx ∧ (s.step e).link.twi.error ≠ 0xff := by
  by_cases hallows : s.link.phase.allows e.status = true
  · cases h : (s.found e).handler e.calls e.status with
    | error f =>
      rw [step_faulted h]
      exact ⟨hstate,herror⟩
    | ok t =>
      rw [step_taken hallows h]
      exact handler_keeps_error h hstate herror
  · rw [step_ignored hallows]
    exact ⟨hstate,herror⟩

private theorem endTransfer_phase (t : Twi) :
    (TwiPhase.respond t.endTransfer.twcr t.endTransfer.twdr .mtDataAck).offMaster = true := by
  unfold Twi.endTransfer
  split <;> rfl

/-- The handler makes no difference between the address and a data byte. -/
private theorem acknowledgement (h : e.status = .mtSlaAck ∨ e.status = .mtDataAck) :
    e.status.received = false ∧ e.status.failed = false ∧ (∀ x, e.status.onBus x = [(x,true)]) ∧
      (∀ t : Twi, t.handler e.calls e.status = t.sendMaster) ∧
      ∀ c twdr, TwiPhase.respond c twdr e.status = .respond c twdr .mtDataAck := by
  rcases h with h | h
  · rw [h]
    exact ⟨rfl,rfl,fun _ => rfl,fun _ => rfl,fun _ _ => rfl⟩
  · rw [h]
    exact ⟨rfl,rfl,fun _ => rfl,fun _ => rfl,fun _ _ => rfl⟩

section Acknowledged
variable (hl : Loaded address data s.link.twi) (hending : s.ending = none)
  (hstatus : e.status = .mtSlaAck ∨ e.status = .mtDataAck) (hallows : s.link.phase.allows e.status = true) {k : Nat}
  (hindex : s.link.twi.masterBufferIndex.toNat = k)
  (hsent : s.sent ++ [(s.link.twi.twdr,true)] = delivered address (data.take k))
include hl hending hstatus hallows hindex hsent

theorem acknowledged_next (hlt : k < data.length) :
    Loaded address data (s.step e).link.twi ∧ (s.step e).ending = none ∧ (s.step e).link.phase = .masterTransmit ∧
      (s.step e).link.twi.masterBufferIndex.toNat = k + 1 ∧ data[k]? = some (s.step e).link.twi.twdr ∧
      (s.step e).sent = delivered address (data.take k) := by
  obtain ⟨hreceived,-,hbus,hhandler,hrespond⟩ := acknowledgement hstatus
  obtain ⟨hsend,hnext⟩ := hl.sendMaster_next hindex hlt
  rw [← found_eq hreceived,← hhandler] at hsend
  rw [step_taken hallows hsend,found_eq hreceived,hrespond,hbus,hsent]
  refine ⟨⟨hl.state,hl.error,hl.slarw,hl.length,hl.buffer⟩,?_,rfl,hnext,List.getElem?_eq_getElem hlt,rfl⟩
  rw [if_neg fun hm => hm.2 hl.state]
  exact hending

omit hending in
theorem acknowledged_last (hlast : k = data.length) :
    (s.step e).link.phase.offMaster = true ∧ (s.step e).link.twi.state = .ready ∧
      (s.step e).sent = delivered address data ∧ (s.step e).ending = some e.status := by
  obtain ⟨hreceived,-,hbus,hhandler,hrespond⟩ := acknowledgement hstatus
  have hsend := hl.sendMaster_last (hindex.trans hlast)
  rw [← found_eq hreceived,← hhandler] at hsend
  rw [step_taken hallows hsend,found_eq hreceived,hrespond,hbus,hsent,hlast,List.take_length]
  refine ⟨endTransfer_phase _,endTransfer_state _,rfl,?_⟩
  dsimp only
  rw [endTransfer_state,if_pos ⟨hl.state,TwiState.noConfusion⟩]

private theorem acknowledged (hk : k ≤ data.length) : Progress address data (s.step e) := by
  obtain ⟨-,hfailed,-⟩ := acknowledgement hstatus
  rcases Nat.lt_or_eq_of_le hk with hlt | hlast
  · obtain ⟨hloaded,hnone,hphase,hnext,hbyte,hbus⟩ := acknowledged_next hl hending hstatus hallows hindex hsent hlt
    exact .waiting hloaded hnone (.data k hphase hnext hbyte hbus)
  · obtain ⟨hoff,hstate,hbus,hlast⟩ := acknowledged_last hl hstatus hallows hindex hsent hlast
    refine .done hoff ?_ hbus ?_
    · rw [hstate]
      exact TwiState.noConfusion
    · intro status hs
      rw [hlast] at hs
      cases hs
      exact hfailed

end Acknowledged

theorem broken (hallows : s.link.phase.allows e.status = true)
    (hstatus : e.status ∈ [TwiStatus.mtSlaNack,.mtDataNack,.arbLost,.busError]) : Progress address data (s.step e) := by
  obtain ⟨t,ht,hstate,herror⟩ := handler_breaks (s.found e) e.calls hstatus
  rw [step_taken hallows ht]
  refine .failed ?_ herror
  rw [hstate]
  exact TwiState.noConfusion

/-- The address byte is going out. -/
structure Addressing (address : UInt8) (data : List UInt8) (s : WriteCall) : Prop where
  loaded : Loaded address data s.link.twi
  ending : s.ending = none
  phase : s.link.phase = .address false
  index : s.link.twi.masterBufferIndex = 0
  byte : s.link.twi.twdr = address <<< 1
  sent : s.sent = []

theorem Addressing.progress (h : Addressing address data s) : Progress address data s :=
  .waiting h.loaded h.ending (.address h.phase h.index h.byte h.sent)

private theorem started (hl : Loaded address data s.link.twi) (hending : s.ending = none) (hstatus : e.status = .start)
    (hallows : s.link.phase.allows e.status = true) (hindex : s.link.twi.masterBufferIndex = 0) (hsent : s.sent = []) :
    Addressing address data (s.step e) := by
  have hreceived : e.status.received = false := by
    rw [hstatus]
    rfl
  have hhandler : (s.found e).handler e.calls e.status = .ok ({s.link.twi with twdr := s.link.twi.slarw}.reply true) := by
    rw [found_eq hreceived,hstatus]
    rfl
  rw [step_taken hallows hhandler,hstatus,hsent]
  refine ⟨⟨hl.state,hl.error,hl.slarw,hl.length,hl.buffer⟩,?_,?_,hindex,hl.slarw,rfl⟩
  · rw [if_neg fun hm => hm.2 hl.state]
    exact hending
  · change TwiPhase.ofAddress s.link.twi.slarw = .address false
    rw [hl.slarw]
    exact congrArg TwiPhase.address (decide_eq_false (Twi.write_address address))

private theorem address_cases (h : TwiPhase.allows e.status (.address false) = true)
    (hfree : e.status.lostAndAddressed = false) :
    e.status = .mtSlaAck ∨ e.status = .mtSlaNack ∨ e.status = .arbLost ∨ e.status = .busError := by
  simp [TwiPhase.allows, hfree] at h
  tauto

private theorem data_cases (h : TwiPhase.allows e.status .masterTransmit = true) :
    e.status = .mtDataAck ∨ e.status = .mtDataNack ∨ e.status = .arbLost ∨ e.status = .busError := by
  simp [TwiPhase.allows] at h
  tauto

private theorem starting_cases (h : TwiPhase.allows e.status .starting = true) (hfree : e.status.addressed = false) :
    e.status = .start ∨ e.status = .busError := by
  simp [TwiPhase.allows, hfree] at h
  tauto

private theorem delivered_snoc {k : Nat} {x : UInt8} (h : data[k]? = some x) :
    delivered address (data.take k) ++ [(x,true)] = delivered address (data.take (k + 1)) := by
  rw [List.take_add_one,h,delivered,delivered,List.map_append]
  rfl

theorem Progress.step (h : Progress address data s) (hfree : s.Unaddressed e) :
    Progress address data (s.step e) := by
  cases h with
  | done off state sent ending =>
    obtain ⟨hoff,hstate,hsent,hending⟩ := step_offMaster off state e
    refine .done hoff hstate (hsent.trans sent) ?_
    rw [hending]
    exact ending
  | failed state error =>
    obtain ⟨hstate,herror⟩ := step_failed state error e
    exact .failed hstate herror
  | waiting loaded ending stage =>
    by_cases hallows : s.link.phase.allows e.status = true
    · obtain ⟨hown,hlost⟩ := hfree loaded.state hallows
      cases stage with
      | starting phase index sent =>
        rcases starting_cases (phase ▸ hallows) hown with hs | hs
        · exact (started loaded ending hs hallows index sent).progress
        · exact broken hallows (by rw [hs]; decide)
      | address phase index byte sent =>
        rcases address_cases (phase ▸ hallows) hlost with hs | hs | hs | hs
        · refine acknowledged loaded ending (Or.inl hs) hallows (congrArg UInt8.toNat index) ?_ (Nat.zero_le _)
          rw [sent,byte]
          rfl
        · exact broken hallows (by rw [hs]; decide)
        · exact broken hallows (by rw [hs]; decide)
        · exact broken hallows (by rw [hs]; decide)
      | data k phase index byte sent =>
        have hk : k < data.length := (List.getElem?_eq_some_iff.mp byte).1
        rcases data_cases (phase ▸ hallows) with hs | hs | hs | hs
        · refine acknowledged loaded ending (Or.inr hs) hallows index ?_ hk
          rw [sent]
          exact delivered_snoc byte
        · exact broken hallows (by rw [hs]; decide)
        · exact broken hallows (by rw [hs]; decide)
        · exact broken hallows (by rw [hs]; decide)
    · rw [step_ignored hallows]
      exact .waiting loaded ending stage

theorem Sending.nothing (h : Sending address data s) (hallows : s.link.phase.allows e.status = true)
    (hstatus : e.status.addressed = true ∨ e.status.lostAndAddressed = true) : s.sent = [] := by
  cases h with
  | starting phase index sent => exact sent
  | address phase index byte sent => exact sent
  | data k phase index byte sent =>
    rcases data_cases (phase ▸ hallows) with hs | hs | hs | hs <;> rw [hs] at hstatus <;>
      rcases hstatus with h | h <;> cases h

/-- A call on a bus that this interface holds or that is free. -/
theorem begin_cases {l : TwiLink} (h : Loaded address data l.twi) (hindex : l.twi.masterBufferIndex = 0)
    (hphase : l.phase = .restarted ∧ l.twi.inRepStart = true ∨ (∃ ack, l.phase = .idle ack) ∧ l.twi.inRepStart = false) :
    (l.call l.twi.begin).phase = .starting ∧ l.twi.begin.masterBufferIndex = 0 ∨
      Addressing address data ⟨l.call l.twi.begin,[],none⟩ := by
  rcases hphase with ⟨hphase,hrep⟩ | ⟨⟨ack,hphase⟩,hrep⟩
  · have hbegin : l.twi.begin = {l.twi with inRepStart := false, twdr := l.twi.slarw, twcr := ⟨true,false,false,true⟩} := if_pos hrep
    refine .inr ⟨h.begin,rfl,?_,?_,?_,rfl⟩
    · change l.phase.command _ _ = .address false
      rw [hphase,hbegin]
      change TwiPhase.ofAddress l.twi.slarw = .address false
      rw [h.slarw]
      exact congrArg TwiPhase.address (decide_eq_false (Twi.write_address address))
    · change l.twi.begin.masterBufferIndex = 0
      rw [hbegin]
      exact hindex
    · change l.twi.begin.twdr = address <<< 1
      rw [hbegin]
      exact h.slarw
  · have hbegin : l.twi.begin = {l.twi with twcr := ⟨true,true,false,true⟩} := if_neg (by rw [hrep]; decide)
    rw [TwiLink.call,hbegin,hphase]
    exact .inl ⟨rfl,hindex⟩

theorem begin_progress {l : TwiLink} (h : Loaded address data l.twi) (hindex : l.twi.masterBufferIndex = 0)
    (hphase : l.phase = .restarted ∧ l.twi.inRepStart = true ∨ (∃ ack, l.phase = .idle ack) ∧ l.twi.inRepStart = false) :
    Progress address data ⟨l.call l.twi.begin,[],none⟩ := by
  rcases begin_cases h hindex hphase with ⟨hphase,hzero⟩ | haddressing
  · exact .waiting h.begin rfl (.starting hphase hzero rfl)
  · exact haddressing.progress

/-- The assignments of the call, whatever the calls before it left. -/
theorem prepareWrite_loaded {t : Twi} (hstate : t.state = .mtx) (address : UInt8) {m : TwiMessage}
    (h : m.data.length ≤ twiBufferLength) (sendStop : Bool) :
    ∃ t', t.prepareWrite address m sendStop = .ok t' ∧ Loaded address m.data t' ∧ t'.masterBufferIndex = 0 ∧
      t'.inRepStart = t.inRepStart := by
  obtain ⟨b,hb,_,hdata⟩ := copyInto_inside t.masterBuffer m.data (i := 0) (by omega)
  rw [Twi.prepareWrite,hb]
  refine ⟨_,rfl,⟨hstate,rfl,rfl,?_,fun j hj => ?_⟩,rfl,rfl⟩
  · change (UInt8.ofNat m.data.length).toNat = m.data.length
    rw [UInt8.toNat_ofNat',Nat.mod_eq_of_lt m.short]
  · have := hdata j hj
    rwa [Nat.zero_add] at this

private theorem begin_addressing {l : TwiLink} (h : Loaded address data l.twi) (hindex : l.twi.masterBufferIndex = 0)
    (hphase : l.phase = .restarted ∧ l.twi.inRepStart = true ∨ (∃ ack, l.phase = .idle ack) ∧ l.twi.inRepStart = false) :
    Addressing address data (step ⟨l.call l.twi.begin,[],none⟩ ⟨.start,0,[]⟩) := by
  rcases begin_cases h hindex hphase with ⟨hphase,hzero⟩ | haddressing
  · refine started h.begin rfl rfl ?_ hzero rfl
    rw [hphase]
    rfl
  · rw [step_ignored ?_]
    · exact haddressing
    · rw [haddressing.phase]
      decide

/-- A slave that acknowledges its address and all it is sent. -/
def acknowledgements : List TwiEvent :=
  ⟨.start,0,[]⟩ :: ⟨.mtSlaAck,0,[]⟩ :: List.replicate twiBufferLength ⟨.mtDataAck,0,[]⟩

/-- At most `n` acknowledgements are missing. -/
inductive Missing (address : UInt8) (data : List UInt8) (n : Nat) (s : WriteCall) : Prop
  | data (k : Nat) (loaded : Loaded address data s.link.twi) (ending : s.ending = none)
      (phase : s.link.phase = .masterTransmit) (index : s.link.twi.masterBufferIndex.toNat = k + 1)
      (byte : data[k]? = some s.link.twi.twdr) (sent : s.sent = delivered address (data.take k)) (left : data.length ≤ k + n)
  | finished (off : s.link.phase.offMaster = true) (state : s.link.twi.state ≠ .mtx) (sent : s.sent = delivered address data)

private theorem Missing.of_acknowledged (hl : Loaded address data s.link.twi) (hending : s.ending = none)
    (hstatus : e.status = .mtSlaAck ∨ e.status = .mtDataAck) (hallows : s.link.phase.allows e.status = true) {k n : Nat}
    (hindex : s.link.twi.masterBufferIndex.toNat = k)
    (hsent : s.sent ++ [(s.link.twi.twdr,true)] = delivered address (data.take k))
    (hk : k ≤ data.length) (hleft : data.length ≤ k + n) : Missing address data n (s.step e) := by
  rcases Nat.lt_or_eq_of_le hk with hlt | hlast
  · obtain ⟨hloaded,hnone,hphase,hnext,hbyte,hbus⟩ := acknowledged_next hl hending hstatus hallows hindex hsent hlt
    exact .data k hloaded hnone hphase hnext hbyte hbus hleft
  · obtain ⟨hoff,hstate,hbus,-⟩ := acknowledged_last hl hstatus hallows hindex hsent hlast
    refine .finished hoff ?_ hbus
    rw [hstate]
    exact TwiState.noConfusion

theorem Missing.step {n : Nat} (h : Missing address data (n + 1) s) (hstatus : e.status = .mtDataAck) :
    Missing address data n (s.step e) := by
  cases h with
  | data k loaded ending phase index byte sent left =>
    have hallows : s.link.phase.allows e.status = true := by
      rw [phase,hstatus]
      rfl
    refine .of_acknowledged loaded ending (Or.inr hstatus) hallows index ?_ (List.getElem?_eq_some_iff.mp byte).1 (by omega)
    rw [sent]
    exact delivered_snoc byte
  | finished off state sent =>
    obtain ⟨hoff,hstate,hsent,-⟩ := step_offMaster off state e
    exact .finished hoff hstate (hsent.trans sent)

theorem Missing.zero (h : Missing address data 0 s) : s.link.twi.state ≠ .mtx ∧ s.sent = delivered address data := by
  cases h with
  | data k loaded ending phase index byte sent left =>
    have := (List.getElem?_eq_some_iff.mp byte).1
    omega
  | finished off state sent => exact ⟨state,sent⟩

/-- With no other master on the bus, a slave that acknowledges gets the whole message. -/
theorem acknowledged_delivers (t : Twi) (address : UInt8) {m : TwiMessage} (h : m.data.length ≤ twiBufferLength)
    (sendStop : Bool) :
    ∃ t', t.beginWrite address m sendStop = .ok t' ∧
      (acknowledgements.foldl step ⟨(TwiLink.free t).call t',[],none⟩).link.twi.state ≠ .mtx ∧
      (acknowledgements.foldl step ⟨(TwiLink.free t).call t',[],none⟩).sent = delivered address m.data := by
  obtain ⟨t₁,hprepare,hloaded,hindex,hrep⟩ := prepareWrite_loaded (t := {t with state := .mtx}) rfl address h sendStop
  have hphase : (TwiLink.free t).phase = .restarted ∧ t₁.inRepStart = true ∨
      (∃ ack, (TwiLink.free t).phase = .idle ack) ∧ t₁.inRepStart = false := by
    rw [hrep]
    cases hstart : t.inRepStart with
    | true => exact .inl ⟨if_pos hstart,rfl⟩
    | false => exact .inr ⟨⟨true,if_neg (by rw [hstart]; decide)⟩,rfl⟩
  obtain ⟨loaded,ending,phase,index,byte,sent⟩ := begin_addressing (l := ⟨t₁,(TwiLink.free t).phase⟩) hloaded hindex hphase
  refine ⟨t₁.begin,by rw [Twi.beginWrite,hprepare]; rfl,?_⟩
  rw [acknowledgements,List.foldl_cons,List.foldl_cons]
  refine (countdown (M := Missing address m.data) (fun n s h => h.step rfl) ?_).zero
  refine .of_acknowledged loaded ending (Or.inl rfl) ?_ (congrArg UInt8.toNat index) ?_ (Nat.zero_le _) (Nat.le_add_left_of_le h)
  · rw [phase]
    rfl
  · rw [sent,byte]
    rfl

end WriteCall
end ArduinoAT90USB.Library
