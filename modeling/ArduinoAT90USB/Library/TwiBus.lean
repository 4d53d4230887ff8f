import ArduinoAT90USB.Library.TwiWrite
import ArduinoAT90USB.Library.TwiReply
import ArduinoAT90USB.Foundation.Lockstep

/-! Two devices with `twi.c` on one bus, a master and a slave. A byte on the bus gives both
interfaces a status; the clock is held low until both interrupts have been handled, in either
order. -/
namespace ArduinoAT90USB.Library
open Foundation.Memory Foundation.Table Foundation.Lockstep

/-- The slave, with what `twi_onSlaveReceive` was given. -/
structure TwiSlave where
  link : TwiLink
  received : List (List UInt8)

/-- The handler runs to its end, with the callback of `TW_SR_STOP`, before the bus goes on. -/
def TwiSlave.react (s : TwiSlave) (e : TwiEvent) : TwiSlave where
  link := (s.link.react e).release
  received :=
    if e.status = .srStop ∧ s.link.phase.allows .srStop = true then
      s.received ++ [s.link.twi.rxBuffer.toList.take s.link.twi.rxBufferIndex.toNat]
    else s.received

def TwiStatus.plain (status : TwiStatus) : TwiEvent := ⟨status,0,[]⟩

/-- What the bus tells the master and the slave next. `twar` is the slave's address register and
`calls` is what its callback does when it is asked for data. -/
def twiWire (twar : UInt8) (calls : List TwiMessage) (m : TwiLink) (s : TwiSlave) : Option TwiEvent × Option TwiEvent :=
  match m.phase, s.link.phase with
  | .masterTransmit, .slaveReceive ack =>
    (some (if ack then .mtDataAck else .mtDataNack : TwiStatus).plain,
      some ⟨if ack then .srDataAck else .srDataNack,m.twi.twdr,[]⟩)
  -- anything else of the master begins with a stop or a repeated start
  | _, .slaveReceive _ => (none,some TwiStatus.srStop.plain)
  | .starting, _ => (some TwiStatus.start.plain,none)
  | .address read, .idle true =>
    if m.twi.twdr >>> 1 = twar >>> 1 then
      (some (if read then .mrSlaAck else .mtSlaAck : TwiStatus).plain,some ⟨if read then .stSlaAck else .srSlaAck,0,calls⟩)
    else (some (if read then .mrSlaNack else .mtSlaNack : TwiStatus).plain,none)
  | .address read, _ => (some (if read then .mrSlaNack else .mtSlaNack : TwiStatus).plain,none)
  | .masterTransmit, _ => (some TwiStatus.mtDataNack.plain,none)
  | .masterReceive ack, .slaveTransmit more =>
    (some ⟨if ack then .mrDataAck else .mrDataNack,s.link.twi.twdr,[]⟩,
      some (if ack then if more then .stDataAck else .stLastData else .stDataNack : TwiStatus).plain)
  -- nobody drives the data line
  | .masterReceive ack, _ => (some ⟨if ack then .mrDataAck else .mrDataNack,0xFF,[]⟩,none)
  | _, _ => (none,none)

/-- `twi_setAddress`: what `TWAR` holds. -/
def twiSetAddress (address : UInt8) : UInt8 := address <<< 1

/-- A slave with this address answers a master that calls this one: seven bits are compared. -/
def TwiAnswers (slave address : UInt8) : Prop := (address <<< 1) >>> 1 = twiSetAddress slave >>> 1

instance (slave address : UInt8) : Decidable (TwiAnswers slave address) := inferInstanceAs (Decidable (_ = _))

/-- The bus with a slave of this address. -/
def twiBus (slave : UInt8) (calls : List TwiMessage) : Protocol TwiLink TwiSlave TwiEvent TwiEvent :=
  ⟨twiWire (twiSetAddress slave) calls,TwiLink.react,TwiSlave.react⟩

/-- The device is between two transfers, with a repeated start on the bus or not. -/
inductive TwiLink.Resting (l : TwiLink) : Prop
  | idle (state : l.twi.state = .ready) (phase : l.phase = .idle true) (start : l.twi.inRepStart = false)
  | restarted (state : l.twi.state = .ready) (phase : l.phase = .restarted) (start : l.twi.inRepStart = true)

section Rest
variable {l : TwiLink} {t : Twi}

theorem TwiLink.Resting.ready (h : l.Resting) : l.twi.state = .ready := by
  cases h with
  | idle state => exact state
  | restarted state => exact state

theorem TwiLink.Resting.call (h : l.Resting) (t : Twi) :
    l.call t = ⟨t,if t.twcr.start then .starting else .ofAddress t.twdr⟩ := by
  cases h with
  | idle state phase | restarted state phase =>
    rw [TwiLink.call,phase]
    rfl

/-- The end of a master's transfer, by a stop or a repeated start. -/
theorem Twi.endTransfer_resting (hstart : t.inRepStart = false) {phase : TwiPhase}
    (hphase : phase = if t.endTransfer.twcr.start then .restarted else .idle t.endTransfer.twcr.ack) :
    TwiLink.Resting ⟨t.endTransfer,phase⟩ ∧ t.endTransfer.error = t.error := by
  subst hphase
  unfold Twi.endTransfer
  split
  · exact ⟨.idle rfl rfl hstart,rfl⟩
  · exact ⟨.restarted rfl rfl rfl,rfl⟩

end Rest

/-! A slave that receives. -/

/-- The slave has stored these bytes since it was addressed. -/
structure TwiLink.Taking (got : List UInt8) (l : TwiLink) : Prop where
  phase : l.phase = .slaveReceive true
  index : l.twi.rxBufferIndex.toNat = got.length
  buffer : Holds l.twi.rxBuffer got

section Slave
variable {s : TwiSlave} {got : List UInt8}

theorem TwiSlave.addressed (h : s.link.phase = .idle true) (calls : List TwiMessage) :
    (s.react ⟨.srSlaAck,0,calls⟩).link.Taking [] ∧ (s.react ⟨.srSlaAck,0,calls⟩).received = s.received := by
  have hreact : s.link.react ⟨.srSlaAck,0,calls⟩ = _ := TwiLink.react_eq (by rw [h]; rfl) rfl
  refine ⟨?_,rfl⟩
  change (s.link.react ⟨.srSlaAck,0,calls⟩).release.Taking []
  rw [hreact]
  exact ⟨rfl,rfl,.nil _⟩

theorem TwiSlave.stores (h : s.link.Taking got) (hroom : got.length < twiBufferLength) (x : UInt8) :
    (s.react ⟨.srDataAck,x,[]⟩).link.Taking (got ++ [x]) ∧ (s.react ⟨.srDataAck,x,[]⟩).received = s.received := by
  obtain ⟨b,hstore,hholds⟩ := h.buffer.push hroom x
  have hhandler : {s.link.twi with twdr := x}.handler [] .srDataAck =
      .ok ({s.link.twi with twdr := x, rxBuffer := b, rxBufferIndex := s.link.twi.rxBufferIndex + 1}.reply true) := by
    change Twi.storeSlave _ = _
    rw [Twi.storeSlave,if_pos (by rw [h.index]; exact hroom)]
    change storeAt s.link.twi.rxBuffer s.link.twi.rxBufferIndex.toNat x >>= _ = _
    rw [h.index,hstore]
    rfl
  have hreact := TwiLink.react_eq (e := ⟨.srDataAck,x,[]⟩) (by rw [h.phase]; rfl) hhandler
  refine ⟨?_,rfl⟩
  change (s.link.react ⟨.srDataAck,x,[]⟩).release.Taking _
  rw [hreact]
  refine ⟨rfl,?_,hholds⟩
  change (s.link.twi.rxBufferIndex + 1).toNat = _
  rw [UInt8.toNat_add,h.index,List.length_append]
  exact Nat.mod_eq_of_lt (Nat.lt_of_le_of_lt hroom (by decide))

theorem TwiSlave.delivers (h : s.link.Taking got) :
    (s.react TwiStatus.srStop.plain).link.phase = .idle true ∧
      (s.react TwiStatus.srStop.plain).received = s.received ++ [got] := by
  have hclose : ∃ t, s.link.twi.closeSlave = .ok t := by
    unfold Twi.closeSlave
    by_cases hroom : s.link.twi.rxBufferIndex.toNat < twiBufferLength
    · rw [if_pos hroom,storeAt_inside hroom]
      exact ⟨_,rfl⟩
    · rw [if_neg hroom]
      exact ⟨_,rfl⟩
  obtain ⟨t,ht⟩ := hclose
  have hallows : s.link.phase.allows .srStop = true := by
    rw [h.phase]
    rfl
  have hreact := TwiLink.react_eq (e := TwiStatus.srStop.plain) hallows ht
  constructor
  · change (s.link.react TwiStatus.srStop.plain).release.phase = _
    rw [hreact]
    rfl
  · change (if _ then _ else _) = _
    rw [if_pos ⟨rfl,hallows⟩,h.index,h.buffer.toList_take]

end Slave

/-! A master that writes. -/

/-- A call of `twi_writeTo` under way that has put `k` bytes of its data into the interface. -/
structure TwiLink.Sending (address : UInt8) (data : List UInt8) (k : Nat) (l : TwiLink) : Prop where
  loaded : WriteCall.Loaded address data l.twi
  start : l.twi.inRepStart = false
  index : l.twi.masterBufferIndex.toNat = k

section Master
variable {address : UInt8} {data : List UInt8} {k : Nat} {m : TwiLink} {status : TwiStatus}

theorem TwiLink.Sending.next (h : m.Sending address data k) (hstatus : status = .mtSlaAck ∨ status = .mtDataAck)
    (hallows : m.phase.allows status = true) (hlt : k < data.length) :
    (m.react status.plain).Sending address data (k + 1) ∧ (m.react status.plain).phase = .masterTransmit ∧
      data[k]? = some (m.react status.plain).twi.twdr := by
  obtain ⟨hsend,hindex⟩ := h.loaded.sendMaster_next h.index hlt
  have hsent : ∀ l : TwiLink, l = ⟨{m.twi with twdr := data[k], masterBufferIndex := m.twi.masterBufferIndex + 1}.reply true,
      .masterTransmit⟩ → l.Sending address data (k + 1) ∧ l.phase = .masterTransmit ∧ data[k]? = some l.twi.twdr := by
    rintro l rfl
    exact ⟨⟨⟨h.loaded.state,h.loaded.error,h.loaded.slarw,h.loaded.length,h.loaded.buffer⟩,h.start,hindex⟩,rfl,
      List.getElem?_eq_getElem hlt⟩
  rcases hstatus with rfl | rfl
  · exact hsent _ (TwiLink.react_eq (e := TwiStatus.mtSlaAck.plain) hallows hsend)
  · exact hsent _ (TwiLink.react_eq (e := TwiStatus.mtDataAck.plain) hallows hsend)

theorem TwiLink.Sending.last (h : m.Sending address data k) (hstatus : status = .mtSlaAck ∨ status = .mtDataAck)
    (hallows : m.phase.allows status = true) (hlast : k = data.length) :
    (m.react status.plain).Resting ∧ (m.react status.plain).twi.error = 0xff := by
  have hsend := h.loaded.sendMaster_last (h.index.trans hlast)
  have hphase : (if m.twi.endTransfer.twcr.stop then TwiPhase.idle m.twi.endTransfer.twcr.ack
      else if m.twi.endTransfer.twcr.start then .restarted else .masterTransmit) =
      if m.twi.endTransfer.twcr.start then .restarted else .idle m.twi.endTransfer.twcr.ack := by
    unfold Twi.endTransfer
    split
    · rfl
    · rfl
  obtain ⟨hrest,herror⟩ := Twi.endTransfer_resting h.start hphase
  rw [h.loaded.error] at herror
  rcases hstatus with rfl | rfl
  · rw [TwiLink.react_eq (e := TwiStatus.mtSlaAck.plain) hallows hsend]
    exact ⟨hrest,herror⟩
  · rw [TwiLink.react_eq (e := TwiStatus.mtDataAck.plain) hallows hsend]
    exact ⟨hrest,herror⟩

end Master

/-- A write to a slave that answers, with the rounds it has left. -/
inductive Writing (address : UInt8) (data : List UInt8) (before : List (List UInt8)) (rounds : Nat) (x : TwiLink × TwiSlave) : Prop
  | starting (left : rounds = data.length + 3) (sending : x.1.Sending address data 0) (phase : x.1.phase = .starting)
      (idle : x.2.link.phase = .idle true) (received : x.2.received = before)
  | address (left : rounds = data.length + 2) (sending : x.1.Sending address data 0) (phase : x.1.phase = .address false)
      (byte : x.1.twi.twdr = address <<< 1) (idle : x.2.link.phase = .idle true) (received : x.2.received = before)
  | data (k : Nat) (lt : k < data.length) (left : rounds = data.length - k + 1) (sending : x.1.Sending address data (k + 1))
      (phase : x.1.phase = .masterTransmit) (byte : data[k]? = some x.1.twi.twdr) (taking : x.2.link.Taking (data.take k))
      (received : x.2.received = before)
  | ending (left : rounds = 1) (rest : x.1.Resting) (error : x.1.twi.error = 0xff) (taking : x.2.link.Taking data)
      (received : x.2.received = before)
  | done (left : rounds = 0) (rest : x.1.Resting) (error : x.1.twi.error = 0xff) (idle : x.2.link.phase = .idle true)
      (received : x.2.received = before ++ [data])

section Write
variable {slave address : UInt8} {calls : List TwiMessage} {data : List UInt8} {before : List (List UInt8)} {n : Nat}
  {x : TwiLink × TwiSlave} {m : TwiLink} {s : TwiSlave}

theorem twiWire_starting (hm : m.phase = .starting) (hs : s.link.phase = .idle true) :
    (twiBus slave calls).wire m s = (some TwiStatus.start.plain,none) := by
  change twiWire _ calls m s = _
  rw [twiWire,hm,hs]

theorem twiWire_address {read : Bool} (hm : m.phase = .address read) (hs : s.link.phase = .idle true) :
    (twiBus slave calls).wire m s = if m.twi.twdr >>> 1 = twiSetAddress slave >>> 1 then
      (some (if read then .mrSlaAck else .mtSlaAck : TwiStatus).plain,some ⟨if read then .stSlaAck else .srSlaAck,0,calls⟩)
    else (some (if read then .mrSlaNack else .mtSlaNack : TwiStatus).plain,none) := by
  change twiWire _ calls m s = _
  rw [twiWire,hm,hs]

theorem twiWire_data (hm : m.phase = .masterTransmit) (hs : s.link.phase = .slaveReceive true) :
    (twiBus slave calls).wire m s = (some TwiStatus.mtDataAck.plain,some ⟨.srDataAck,m.twi.twdr,[]⟩) := by
  change twiWire _ calls m s = _
  rw [twiWire,hm,hs]
  rfl

theorem twiWire_stop (hm : m.Resting) (hs : s.link.phase = .slaveReceive true) :
    (twiBus slave calls).wire m s = (none,some TwiStatus.srStop.plain) := by
  change twiWire _ calls m s = _
  cases hm with
  | idle _ phase => rw [twiWire,phase,hs]
  | restarted _ phase => rw [twiWire,phase,hs]

theorem twiWire_silent (hm : m.Resting) (hs : s.link.phase = .idle true) : (twiBus slave calls).wire m s = (none,none) := by
  change twiWire _ calls m s = _
  cases hm with
  | idle _ phase => rw [twiWire,phase,hs]
  | restarted _ phase => rw [twiWire,phase,hs]

theorem TwiLink.react_start (h : m.phase = .starting) : m.react TwiStatus.start.plain =
    ⟨{m.twi with twdr := m.twi.slarw}.reply true,.ofAddress m.twi.slarw⟩ :=
  TwiLink.react_eq (by rw [h]; rfl) rfl

theorem write_phase (address : UInt8) : TwiPhase.ofAddress (address <<< 1) = .address false := by
  rw [TwiPhase.ofAddress,decide_eq_false (Twi.write_address address)]

theorem Writing.round (hanswers : TwiAnswers slave address) (hfits : data.length ≤ twiBufferLength)
    (h : Writing address data before (n + 1) x) : Writing address data before n ((twiBus slave calls).round x) := by
  unfold Protocol.round
  cases h with
  | starting left sending phase idle received =>
    rw [twiWire_starting phase idle]
    refine .address (by omega) ?_ ?_ ?_ idle received
    · change (x.1.react _).Sending address data 0
      rw [TwiLink.react_start phase]
      exact ⟨⟨sending.loaded.state,sending.loaded.error,sending.loaded.slarw,sending.loaded.length,sending.loaded.buffer⟩,
        sending.start,sending.index⟩
    · change (x.1.react _).phase = _
      rw [TwiLink.react_start phase,sending.loaded.slarw]
      exact write_phase address
    · change (x.1.react _).twi.twdr = _
      rw [TwiLink.react_start phase]
      exact sending.loaded.slarw
  | address left sending phase byte idle received =>
    have hmatch : (address <<< 1) >>> 1 = twiSetAddress slave >>> 1 := hanswers
    rw [twiWire_address phase idle,byte,if_pos hmatch]
    have hallows : x.1.phase.allows .mtSlaAck = true := by
      rw [phase]
      rfl
    obtain ⟨htaking,hreceived⟩ := TwiSlave.addressed idle calls
    by_cases hempty : data.length = 0
    · obtain ⟨hrest,herror⟩ := sending.last (Or.inl rfl) hallows hempty.symm
      refine .ending (by omega) hrest herror ?_ (hreceived.trans received)
      rw [List.length_eq_zero_iff.mp hempty]
      exact htaking
    · obtain ⟨hsending,hphase,hbyte⟩ := sending.next (Or.inl rfl) hallows (by omega)
      exact .data 0 (by omega) (by omega) hsending hphase hbyte htaking (hreceived.trans received)
  | data k lt left sending phase byte taking received =>
    rw [twiWire_data phase taking.phase]
    have hallows : x.1.phase.allows .mtDataAck = true := by
      rw [phase]
      rfl
    have htake : data.take k ++ [x.1.twi.twdr] = data.take (k + 1) := by
      rw [List.take_add_one,byte]
      rfl
    obtain ⟨htaking,hreceived⟩ := TwiSlave.stores taking (by rw [List.length_take]; omega) x.1.twi.twdr
    rw [htake] at htaking
    by_cases hlast : k + 1 = data.length
    · obtain ⟨hrest,herror⟩ := sending.last (Or.inr rfl) hallows hlast
      rw [hlast,List.take_length] at htaking
      exact .ending (by omega) hrest herror htaking (hreceived.trans received)
    · obtain ⟨hsending,hphase,hbyte⟩ := sending.next (Or.inr rfl) hallows (by omega)
      exact .data (k + 1) (by omega) (by omega) hsending hphase hbyte htaking (hreceived.trans received)
  | ending left rest error taking received =>
    rw [twiWire_stop rest taking.phase]
    obtain ⟨hidle,hreceived⟩ := TwiSlave.delivers taking
    exact .done (by omega) rest error hidle (hreceived.trans (by rw [received]))
  | done left => omega

theorem Writing.completed (h : Writing address data before 0 x) :
    x.1.Resting ∧ x.1.twi.writeResult = 0 ∧ x.2.link.phase = .idle true ∧ x.2.received = before ++ [data] := by
  cases h with
  | done left rest error idle received => exact ⟨rest,by rw [Twi.writeResult,if_pos error],idle,received⟩
  | starting left | address left => omega
  | data k lt left => omega
  | ending left => omega

theorem Writing.countdown (before : List (List UInt8)) (calls : List TwiMessage) (hanswers : TwiAnswers slave address)
    (hfits : data.length ≤ twiBufferLength) :
    (twiBus slave calls).Countdown (Writing address data before) where
  round h := h.round hanswers hfits
  silent h := twiWire_silent h.completed.1 h.completed.2.2.1

/-- The call puts its data into the buffer and asks for the bus, or goes on with it. -/
theorem Writing.call (address : UInt8) (hm : m.Resting) (hs : s.link.phase = .idle true) (msg : TwiMessage)
    (hfits : msg.data.length ≤ twiBufferLength) (sendStop : Bool) :
    ∃ t n, m.twi.beginWrite address msg sendStop = .ok t ∧ n ≤ msg.data.length + 3 ∧
      Writing address msg.data s.received n (m.call t,s) := by
  obtain ⟨b,hcopy,hholds⟩ := holds_copyInto m.twi.masterBuffer hfits
  have hlength : (UInt8.ofNat msg.data.length).toNat = msg.data.length := by
    rw [UInt8.toNat_ofNat',Nat.mod_eq_of_lt msg.short]
  simp only [hm.call]
  unfold Twi.beginWrite Twi.prepareWrite
  rw [hcopy,ok_bind]
  cases hm with
  | idle state phase start =>
    refine ⟨_,msg.data.length + 3,rfl,Nat.le_refl _,?_⟩
    rw [Twi.begin,if_neg (by simpa using start)]
    exact .starting rfl ⟨⟨rfl,rfl,rfl,hlength,hholds.places⟩,start,rfl⟩ rfl hs rfl
  | restarted state phase start =>
    refine ⟨_,msg.data.length + 2,rfl,Nat.le_succ _,?_⟩
    rw [Twi.begin,if_pos start]
    exact .address rfl ⟨⟨rfl,rfl,rfl,hlength,hholds.places⟩,rfl,rfl⟩ (write_phase address) rfl hs rfl

/-- Before the end the slave's callback has seen nothing of the data, and after it all of them. -/
private theorem Writing.received (h : Writing address data before n x) :
    x.2.received = before ∨ x.2.received = before ++ [data] := by
  cases h with
  | starting left sending phase idle received => exact Or.inl received
  | address left sending phase byte idle received => exact Or.inl received
  | data k lt left sending phase byte taking received => exact Or.inl received
  | ending left rest error taking received => exact Or.inl received
  | done left rest error idle received => exact Or.inr received

private theorem Writing.result (h : Writing address data before n x) (hover : x.1.twi.state ≠ .mtx) : x.1.twi.writeResult = 0 := by
  cases h with
  | starting left sending => exact absurd sending.loaded.state hover
  | address left sending => exact absurd sending.loaded.state hover
  | data k lt left sending => exact absurd sending.loaded.state hover
  | ending left rest error => rw [Twi.writeResult,if_pos error]
  | done left rest error => rw [Twi.writeResult,if_pos error]

end Write

/-- A master with nothing under way writes at most 32 bytes to a listening slave with the address
it calls. In whatever order the two handle their interrupts: the slave's callback is given all the
data at once, or nothing yet, and a call that has returned has returned 0; and `n + 3` more turns
of each complete the transfer, after which both can take part in the next. -/
theorem twi_write_delivered {slave address : UInt8} (hanswers : TwiAnswers slave address) {m : TwiLink} (hm : m.Resting)
    {s : TwiSlave} (hs : s.link.phase = .idle true) (msg : TwiMessage) (hfits : msg.data.length ≤ twiBufferLength)
    (sendStop : Bool) (calls : List TwiMessage) :
    ∃ t, m.twi.beginWrite address msg sendStop = .ok t ∧ ∀ turns,
      (∀ x, x = (twiBus slave calls).run turns (Protocol.rest (m.call t,s)) →
        (x.right.received = s.received ∨ x.right.received = s.received ++ [msg.data]) ∧
          (x.left.twi.state ≠ .mtx → x.left.twi.writeResult = 0)) ∧
      ∃ m' s', (twiBus slave calls).run (turns ++ Protocol.cycles (msg.data.length + 3)) (Protocol.rest (m.call t,s)) =
          Protocol.rest (m',s') ∧
        m'.Resting ∧ m'.twi.writeResult = 0 ∧ s'.link.phase = .idle true ∧ s'.received = s.received ++ [msg.data] := by
  obtain ⟨t,n,hcall,hn,hwriting⟩ := Writing.call address hm hs msg hfits sendStop
  have hcountdown := Writing.countdown s.received calls hanswers hfits
  refine ⟨t,hcall,fun turns => ⟨?_,?_⟩⟩
  · rintro x rfl
    obtain ⟨⟨k,y,hy,hleft⟩,k',y',hy',hright⟩ := hcountdown.parties hwriting turns
    rw [hleft,hright]
    exact ⟨hy'.received,hy.result⟩
  · obtain ⟨y,hy,hrun⟩ := hcountdown.completes hwriting hn turns
    exact ⟨_,_,hrun,hy.completed⟩

/-- A device that was just started writes two bytes to another. -/
theorem twi_write_delivered_two_bytes :
    ∃ t, Twi.init.beginWrite 8 ⟨[1,2],by decide⟩ true = .ok t ∧
      ((twiBus 8 []).run (Protocol.cycles 5) (Protocol.rest (TwiLink.init.call t,⟨.init,[]⟩))).right.received = [[1,2]] := by
  obtain ⟨t,ht,hturns⟩ := twi_write_delivered (by decide : TwiAnswers 8 8) (m := TwiLink.init) (.idle rfl rfl rfl)
    (s := ⟨.init,[]⟩) rfl ⟨[1,2],by decide⟩ (by decide) true []
  obtain ⟨m',s',hrun,-,-,-,hreceived⟩ := (hturns []).2
  exact ⟨t,ht,(congrArg (fun x => x.right.received) hrun).trans hreceived⟩

end ArduinoAT90USB.Library
