import ArduinoAT90USB.Library.TwiBus
import ArduinoAT90USB.Library.TwiBuffers

/-! A master that reads from a slave on the same bus. The slave is asked once and answers with
what its callback has left; when it has nothing more the master reads ones. -/
namespace ArduinoAT90USB.Library
open Foundation.Memory Foundation.Table Foundation.Lockstep

/-- The first `n` bytes that a master reads of a reply. -/
def twiAnswer (reply : List UInt8) (n : Nat) : List UInt8 := (List.range n).map fun i => reply.getD i 0xFF

theorem twiAnswer_succ (reply : List UInt8) (n : Nat) : twiAnswer reply (n + 1) = twiAnswer reply n ++ [reply.getD n 0xFF] := by
  rw [twiAnswer,List.range_succ,List.map_append]
  rfl

theorem twiAnswer_length (reply : List UInt8) (n : Nat) : (twiAnswer reply n).length = n := by
  rw [twiAnswer,List.length_map,List.length_range]

/-- A call of `twi_readFrom` under way that has received these bytes. -/
structure TwiLink.Receiving (address length : UInt8) (got : List UInt8) (l : TwiLink) : Prop where
  state : l.twi.state = .mrx
  start : l.twi.inRepStart = false
  slarw : l.twi.slarw = (1 : UInt8) ||| address <<< 1
  length : l.twi.masterBufferLength = length - 1
  index : l.twi.masterBufferIndex.toNat = got.length
  buffer : Holds l.twi.masterBuffer got

/-- The slave offers byte `k` of its reply, or has given up the bus. -/
def TwiLink.Serving (reply : List UInt8) (k : Nat) (l : TwiLink) : Prop :=
  (k < reply.length ∧ l.phase = .slaveTransmit (decide (k + 1 < reply.length)) ∧ reply[k]? = some l.twi.twdr ∧
    l.twi.Given reply (k + 1)) ∨ (reply.length ≤ k ∧ l.phase = .idle true)

section Slave
variable {s : TwiSlave} {reply : List UInt8} {k : Nat}

theorem TwiSlave.requested (h : s.link.phase = .idle true) (calls : List TwiMessage) :
    (s.react ⟨.stSlaAck,0,calls⟩).link.Serving (TwiMessage.reply calls) 0 ∧
      (s.react ⟨.stSlaAck,0,calls⟩).received = s.received := by
  obtain ⟨t,hbegin,hgiven⟩ := s.link.twi.beginSlaveTransmit_given calls
  have hpos : 0 < (TwiMessage.reply calls).length := by
    unfold TwiMessage.reply
    split
    · decide
    · exact List.length_pos_iff.mpr ‹_›
  obtain ⟨t',hsend,hgiven',hbyte,hack⟩ := hgiven.sendNext hpos
  have hreact := TwiLink.react_eq (e := ⟨.stSlaAck,0,calls⟩) (by rw [h]; rfl) (hbegin.trans hsend)
  refine ⟨?_,rfl⟩
  change (s.link.react ⟨.stSlaAck,0,calls⟩).release.Serving _ 0
  rw [hreact]
  refine Or.inl ⟨hpos,?_,hbyte,hgiven'⟩
  change TwiPhase.slaveTransmit t'.twcr.ack = _
  rw [hack]

/-- The master acknowledges a byte, and the slave loads the next or is done. -/
theorem TwiSlave.serves_on (hphase : s.link.phase = .slaveTransmit (decide (k + 1 < reply.length)))
    (hgiven : s.link.twi.Given reply (k + 1)) {s' : TwiSlave}
    (hs' : s' = s.react (if decide (k + 1 < reply.length) then .stDataAck else .stLastData : TwiStatus).plain) :
    s'.link.Serving reply (k + 1) ∧ s'.received = s.received := by
  subst hs'
  by_cases hmore : k + 1 < reply.length
  · rw [decide_eq_true hmore] at hphase ⊢
    obtain ⟨t',hsend,hgiven',hbyte,hack⟩ := hgiven.sendNext hmore
    have hreact := TwiLink.react_eq (e := TwiStatus.stDataAck.plain) (by rw [hphase]; rfl) hsend
    refine ⟨?_,rfl⟩
    change (s.link.react TwiStatus.stDataAck.plain).release.Serving _ _
    rw [hreact]
    refine Or.inl ⟨hmore,?_,hbyte,hgiven'⟩
    change TwiPhase.slaveTransmit t'.twcr.ack = _
    rw [hack]
  · rw [decide_eq_false hmore] at hphase ⊢
    have hreact := TwiLink.react_eq (e := TwiStatus.stLastData.plain) (by rw [hphase]; rfl) rfl
    refine ⟨?_,rfl⟩
    change (s.link.react TwiStatus.stLastData.plain).release.Serving _ _
    rw [hreact]
    exact Or.inr ⟨Nat.not_lt.mp hmore,rfl⟩

theorem TwiSlave.dismissed {more : Bool} (hphase : s.link.phase = .slaveTransmit more) :
    (s.react TwiStatus.stDataNack.plain).link.phase = .idle true ∧
      (s.react TwiStatus.stDataNack.plain).received = s.received := by
  have hallows : s.link.phase.allows .stDataNack = true := by
    rw [hphase]
    cases more with
    | true => rfl
    | false => rfl
  have hreact := TwiLink.react_eq (e := TwiStatus.stDataNack.plain) hallows rfl
  refine ⟨?_,rfl⟩
  change (s.link.react TwiStatus.stDataNack.plain).release.phase = _
  rw [hreact]
  rfl

end Slave

section Master
variable {address length : UInt8} {got : List UInt8} {m : TwiLink}

theorem TwiLink.Receiving.acks (h : m.Receiving address length got) (hpos : 0 < length.toNat) :
    m.twi.replyMaster.twcr.ack = decide (got.length + 1 < length.toNat) := by
  have hone : (1 : UInt8) ≤ length := UInt8.le_iff_toNat_le.mpr hpos
  have hsub : (length - 1).toNat = length.toNat - 1 := UInt8.toNat_sub_of_le length 1 hone
  change decide (m.twi.masterBufferIndex < m.twi.masterBufferLength) = _
  rw [decide_eq_decide,UInt8.lt_iff_toNat_lt,h.length,hsub,h.index]
  omega

theorem TwiLink.Receiving.begins (h : m.Receiving address length []) (hpos : 0 < length.toNat) (hphase : m.phase = .address true) :
    (m.react TwiStatus.mrSlaAck.plain).Receiving address length [] ∧
      (m.react TwiStatus.mrSlaAck.plain).phase = .masterReceive (decide (1 < length.toNat)) := by
  rw [TwiLink.react_eq (e := TwiStatus.mrSlaAck.plain) (by rw [hphase]; rfl) rfl]
  exact ⟨⟨h.state,h.start,h.slarw,h.length,h.index,h.buffer⟩,congrArg TwiPhase.masterReceive (h.acks hpos)⟩

theorem TwiLink.Receiving.storeMaster (h : m.Receiving address length got) (hroom : got.length < twiBufferLength) (x : UInt8) :
    ∃ t, {m.twi with twdr := x}.storeMaster = .ok t ∧ ∀ phase, TwiLink.Receiving address length (got ++ [x]) ⟨t,phase⟩ := by
  obtain ⟨b,hstore,hholds⟩ := h.buffer.push hroom x
  refine ⟨{m.twi with twdr := x, masterBuffer := b, masterBufferIndex := m.twi.masterBufferIndex + 1},?_,
    fun phase => ⟨h.state,h.start,h.slarw,h.length,?_,hholds⟩⟩
  · rw [Twi.storeMaster]
    change storeAt m.twi.masterBuffer m.twi.masterBufferIndex.toNat x >>= _ = _
    rw [h.index,hstore]
    rfl
  · change (m.twi.masterBufferIndex + 1).toNat = _
    rw [UInt8.toNat_add,h.index,List.length_append]
    exact Nat.mod_eq_of_lt (Nat.lt_of_le_of_lt hroom (by decide))

theorem TwiLink.Receiving.next (h : m.Receiving address length got) (hpos : 0 < length.toNat) (hroom : got.length < twiBufferLength)
    (hphase : m.phase = .masterReceive true) (x : UInt8) :
    (m.react ⟨.mrDataAck,x,[]⟩).Receiving address length (got ++ [x]) ∧
      (m.react ⟨.mrDataAck,x,[]⟩).phase = .masterReceive (decide (got.length + 2 < length.toNat)) := by
  obtain ⟨t,hstore,hreceiving⟩ := h.storeMaster hroom x
  have hhandler : {m.twi with twdr := x}.handler [] .mrDataAck = .ok t.replyMaster := by
    change _ >>= _ = _
    rw [hstore]
    rfl
  have hnext := hreceiving m.phase
  rw [TwiLink.react_eq (e := ⟨.mrDataAck,x,[]⟩) (by rw [hphase]; rfl) hhandler]
  refine ⟨⟨hnext.state,hnext.start,hnext.slarw,hnext.length,hnext.index,hnext.buffer⟩,?_⟩
  change TwiPhase.masterReceive t.replyMaster.twcr.ack = _
  rw [hnext.acks hpos,List.length_append]
  rfl

theorem finishRead_endTransfer (t : Twi) (length : UInt8) :
    TwiSystem.finishRead t.endTransfer length = TwiSystem.finishRead t length := by
  unfold Twi.endTransfer
  split
  · rfl
  · rfl

theorem TwiLink.Receiving.last (h : m.Receiving address length got) (hroom : got.length < twiBufferLength)
    (hlast : got.length + 1 = length.toNat) (hphase : m.phase = .masterReceive false) (x : UInt8) :
    (m.react ⟨.mrDataNack,x,[]⟩).Resting ∧
      TwiSystem.finishRead (m.react ⟨.mrDataNack,x,[]⟩).twi length = .ok (got ++ [x]) := by
  obtain ⟨t,hstore,hreceiving⟩ := h.storeMaster hroom x
  have hhandler : {m.twi with twdr := x}.handler [] .mrDataNack = .ok t.endTransfer := by
    change _ >>= _ = _
    rw [hstore]
    rfl
  have hall := hreceiving m.phase
  have hlength : (got ++ [x]).length = length.toNat := by
    rw [List.length_append]
    exact hlast
  have hnot : ¬ t.masterBufferIndex < length := by
    rw [UInt8.lt_iff_toNat_lt,hall.index,hlength]
    exact Nat.lt_irrefl _
  rw [TwiLink.react_eq (e := ⟨.mrDataNack,x,[]⟩) (by rw [hphase]; rfl) hhandler]
  refine ⟨(Twi.endTransfer_resting hall.start rfl).1,?_⟩
  change TwiSystem.finishRead t.endTransfer length = _
  rw [finishRead_endTransfer,TwiSystem.finishRead,if_neg hnot,← hlength]
  exact hall.buffer.copyFrom

theorem read_phase (address : UInt8) : TwiPhase.ofAddress ((1 : UInt8) ||| address <<< 1) = .address true := by
  rw [TwiPhase.ofAddress,decide_eq_true (TwiSystem.read_address address)]

theorem read_seven_bits (address : UInt8) : ((1 : UInt8) ||| address <<< 1) >>> 1 = (address <<< 1) >>> 1 := by
  apply UInt8.toBitVec_inj.mp
  ext i hi
  simp

end Master

/-- A read from a slave that answers, with the rounds it has left. -/
inductive Reading (address length : UInt8) (reply : List UInt8) (before : List (List UInt8)) (rounds : Nat)
    (x : TwiLink × TwiSlave) : Prop
  | starting (left : rounds = length.toNat + 2) (receiving : x.1.Receiving address length []) (phase : x.1.phase = .starting)
      (idle : x.2.link.phase = .idle true) (received : x.2.received = before)
  | address (left : rounds = length.toNat + 1) (receiving : x.1.Receiving address length []) (phase : x.1.phase = .address true)
      (byte : x.1.twi.twdr = (1 : UInt8) ||| address <<< 1) (idle : x.2.link.phase = .idle true) (received : x.2.received = before)
  | data (k : Nat) (lt : k < length.toNat) (left : rounds = length.toNat - k)
      (receiving : x.1.Receiving address length (twiAnswer reply k)) (phase : x.1.phase = .masterReceive (decide (k + 1 < length.toNat)))
      (serving : x.2.link.Serving reply k) (received : x.2.received = before)
  | done (left : rounds = 0) (rest : x.1.Resting) (result : TwiSystem.finishRead x.1.twi length = .ok (twiAnswer reply length.toNat))
      (idle : x.2.link.phase = .idle true) (received : x.2.received = before)

section Read
variable {slave address length : UInt8} {calls : List TwiMessage} {reply : List UInt8} {before : List (List UInt8)} {n k : Nat}
  {x : TwiLink × TwiSlave} {m : TwiLink} {s : TwiSlave}

/-- The master takes the byte on the bus; the slave learns whether there is to be another. -/
theorem Serving.round (slave : UInt8) (calls : List TwiMessage) {ack : Bool} (hm : x.1.phase = .masterReceive ack)
    (hs : x.2.link.Serving reply k) :
    ∃ s', (twiBus slave calls).round x = (x.1.react ⟨if ack then .mrDataAck else .mrDataNack,reply.getD k 0xFF,[]⟩,s') ∧
      s'.received = x.2.received ∧ (ack = true → s'.link.Serving reply (k + 1)) ∧ (ack = false → s'.link.phase = .idle true) := by
  rcases hs with ⟨hlt,hphase,hbyte,hgiven⟩ | ⟨hle,hphase⟩
  · have hwire : (twiBus slave calls).wire x.1 x.2 = (some ⟨if ack then .mrDataAck else .mrDataNack,x.2.link.twi.twdr,[]⟩,
        some (if ack then if decide (k + 1 < reply.length) then .stDataAck else .stLastData else .stDataNack : TwiStatus).plain) := by
      change twiWire _ calls x.1 x.2 = _
      rw [twiWire,hm,hphase]
    have hget : reply.getD k 0xFF = x.2.link.twi.twdr := by
      rw [List.getD_eq_getElem?_getD,hbyte]
      rfl
    unfold Protocol.round
    rw [hwire,hget]
    refine ⟨_,rfl,?_⟩
    cases ack with
    | true =>
      obtain ⟨hserving,hreceived⟩ := TwiSlave.serves_on hphase hgiven rfl
      exact ⟨hreceived,fun _ => hserving,fun h => Bool.noConfusion h⟩
    | false =>
      obtain ⟨hidle,hreceived⟩ := TwiSlave.dismissed hphase
      exact ⟨hreceived,fun h => Bool.noConfusion h,fun _ => hidle⟩
  · have hwire : (twiBus slave calls).wire x.1 x.2 = (some ⟨if ack then .mrDataAck else .mrDataNack,0xFF,[]⟩,none) := by
      change twiWire _ calls x.1 x.2 = _
      rw [twiWire,hm,hphase]
    have hget : reply.getD k 0xFF = 0xFF := by
      rw [List.getD_eq_getElem?_getD,List.getElem?_eq_none hle]
      rfl
    unfold Protocol.round
    rw [hwire,hget]
    exact ⟨x.2,rfl,rfl,fun _ => Or.inr ⟨Nat.le_succ_of_le hle,hphase⟩,fun _ => hphase⟩

theorem Reading.round (hanswers : TwiAnswers slave address) (hpos : 0 < length.toNat) (hfits : length.toNat ≤ twiBufferLength)
    (h : Reading address length (TwiMessage.reply calls) before (n + 1) x) :
    Reading address length (TwiMessage.reply calls) before n ((twiBus slave calls).round x) := by
  cases h with
  | starting left receiving phase idle received =>
    unfold Protocol.round
    rw [twiWire_starting phase idle]
    have hreact := TwiLink.react_start phase
    refine .address (by omega) ?_ ?_ ?_ idle received
    · change (x.1.react _).Receiving address length []
      rw [hreact]
      exact ⟨receiving.state,receiving.start,receiving.slarw,receiving.length,receiving.index,receiving.buffer⟩
    · change (x.1.react _).phase = _
      rw [hreact,receiving.slarw]
      exact read_phase address
    · change (x.1.react _).twi.twdr = _
      rw [hreact]
      exact receiving.slarw
  | address left receiving phase byte idle received =>
    have hmatch : ((1 : UInt8) ||| address <<< 1) >>> 1 = twiSetAddress slave >>> 1 := (read_seven_bits address).trans hanswers
    unfold Protocol.round
    rw [twiWire_address phase idle,byte,if_pos hmatch]
    obtain ⟨hreceiving,hphase⟩ := receiving.begins hpos phase
    obtain ⟨hserving,hreceived⟩ := TwiSlave.requested idle calls
    exact .data 0 hpos (by omega) hreceiving hphase hserving (hreceived.trans received)
  | data k lt left receiving phase serving received =>
    obtain ⟨s',hround,hreceived,hmore,hlast⟩ := Serving.round slave calls phase serving
    have hroom : (twiAnswer (TwiMessage.reply calls) k).length < twiBufferLength := by
      rw [twiAnswer_length]
      omega
    rw [hround]
    by_cases hk : k + 1 < length.toNat
    · rw [decide_eq_true hk] at phase hmore ⊢
      obtain ⟨hreceiving,hphase⟩ := receiving.next hpos hroom phase ((TwiMessage.reply calls).getD k 0xFF)
      rw [← twiAnswer_succ] at hreceiving
      rw [twiAnswer_length] at hphase
      exact .data (k + 1) hk (by omega) hreceiving hphase (hmore rfl) (hreceived.trans received)
    · rw [decide_eq_false hk] at phase hlast ⊢
      have hlength : k + 1 = length.toNat := by omega
      obtain ⟨hrest,hresult⟩ := receiving.last hroom (by rw [twiAnswer_length]; exact hlength) phase
        ((TwiMessage.reply calls).getD k 0xFF)
      rw [← twiAnswer_succ,hlength] at hresult
      exact .done (by omega) hrest hresult (hlast rfl) (hreceived.trans received)
  | done left => omega

theorem Reading.completed (h : Reading address length reply before 0 x) :
    x.1.Resting ∧ TwiSystem.finishRead x.1.twi length = .ok (twiAnswer reply length.toNat) ∧ x.2.link.phase = .idle true ∧
      x.2.received = before := by
  cases h with
  | done left rest result idle received => exact ⟨rest,result,idle,received⟩
  | starting left | address left => omega
  | data k lt left => omega

theorem Reading.countdown (before : List (List UInt8)) (calls : List TwiMessage) (hanswers : TwiAnswers slave address)
    (hpos : 0 < length.toNat) (hfits : length.toNat ≤ twiBufferLength) :
    (twiBus slave calls).Countdown (Reading address length (TwiMessage.reply calls) before) where
  round h := h.round hanswers hpos hfits
  silent h := twiWire_silent h.completed.1 h.completed.2.2.1

theorem Reading.call (address length : UInt8) (reply : List UInt8) (hm : m.Resting) (hs : s.link.phase = .idle true) (sendStop : Bool) :
    ∃ n ≤ length.toNat + 2, Reading address length reply s.received n (m.call (m.twi.beginRead address length sendStop),s) := by
  rw [hm.call]
  unfold Twi.beginRead Twi.prepareRead
  cases hm with
  | idle state phase start =>
    refine ⟨length.toNat + 2,Nat.le_refl _,?_⟩
    rw [Twi.begin,if_neg (by simpa using start)]
    exact .starting rfl ⟨rfl,start,rfl,rfl,rfl,.nil _⟩ rfl hs rfl
  | restarted state phase start =>
    refine ⟨length.toNat + 1,Nat.le_succ _,?_⟩
    rw [Twi.begin,if_pos start]
    exact .address rfl ⟨rfl,rfl,rfl,rfl,rfl,.nil _⟩ (read_phase address) rfl hs rfl

/-- A read that is over has the answer, and the slave's receive callback never hears of it. -/
theorem Reading.result (h : Reading address length reply before n x) (hover : x.1.twi.state ≠ .mrx) :
    TwiSystem.finishRead x.1.twi length = .ok (twiAnswer reply length.toNat) := by
  cases h with
  | starting left receiving => exact absurd receiving.state hover
  | address left receiving => exact absurd receiving.state hover
  | data k lt left receiving => exact absurd receiving.state hover
  | done left rest result => exact result

theorem Reading.received (h : Reading address length reply before n x) : x.2.received = before := by
  cases h with
  | starting left receiving phase idle received => exact received
  | address left receiving phase byte idle received => exact received
  | data k lt left receiving phase serving received => exact received
  | done left rest result idle received => exact received

end Read

/-- A master with nothing under way reads between 1 and 32 bytes from a listening slave with the
address it calls. In whatever order the two handle their interrupts: a call that has returned has
returned the slave's reply, cut to the length asked for or padded with 0xFF up to it; and
`length + 2` more turns of each complete the transfer, after which both can take part in the next. -/
theorem twi_read_answered {slave address : UInt8} (hanswers : TwiAnswers slave address) {m : TwiLink} (hm : m.Resting)
    {s : TwiSlave} (hs : s.link.phase = .idle true) {length : UInt8} (hpos : 0 < length.toNat)
    (hfits : length.toNat ≤ twiBufferLength) (sendStop : Bool) (calls : List TwiMessage) (turns : List Turn) :
    (∀ x, x = (twiBus slave calls).run turns (Protocol.rest (m.call (m.twi.beginRead address length sendStop),s)) →
      x.right.received = s.received ∧ (x.left.twi.state ≠ .mrx →
        TwiSystem.finishRead x.left.twi length = .ok (twiAnswer (TwiMessage.reply calls) length.toNat))) ∧
    ∃ m' s', (twiBus slave calls).run (turns ++ Protocol.cycles (length.toNat + 2))
        (Protocol.rest (m.call (m.twi.beginRead address length sendStop),s)) = Protocol.rest (m',s') ∧
      m'.Resting ∧ TwiSystem.finishRead m'.twi length = .ok (twiAnswer (TwiMessage.reply calls) length.toNat) ∧
      s'.link.phase = .idle true ∧ s'.received = s.received := by
  obtain ⟨n,hn,hreading⟩ := Reading.call address length (TwiMessage.reply calls) hm hs sendStop
  have hcountdown := Reading.countdown s.received calls hanswers hpos hfits
  constructor
  · rintro x rfl
    obtain ⟨⟨k,y,hy,hleft⟩,k',y',hy',hright⟩ := hcountdown.parties hreading turns
    rw [hleft,hright]
    exact ⟨hy'.received,hy.result⟩
  · obtain ⟨y,hy,hrun⟩ := hcountdown.completes hreading hn turns
    exact ⟨_,_,hrun,hy.completed⟩

/-- Four bytes are read of a reply of two. -/
theorem twi_read_answered_short_reply :
    TwiSystem.finishRead ((twiBus 8 [⟨[1,2],by decide⟩]).run (Protocol.cycles 6)
      (Protocol.rest (TwiLink.init.call (Twi.init.beginRead 8 4 true),⟨.init,[]⟩))).left.twi 4 = .ok [1,2,0xFF,0xFF] := by
  obtain ⟨m',s',hrun,-,hresult,-⟩ := (twi_read_answered (by decide : TwiAnswers 8 8) (m := TwiLink.init) (.idle rfl rfl rfl)
    (s := ⟨.init,[]⟩) rfl (by decide : 0 < (4 : UInt8).toNat) (by decide) true [⟨[1,2],by decide⟩] []).2
  exact (congrArg (fun x => TwiSystem.finishRead x.left.twi 4) hrun).trans hresult

end ArduinoAT90USB.Library
