import ArduinoAT90USB.Library.Twi
import ArduinoAT90USB.Foundation.Table
import ArduinoAT90USB.Foundation.Runs

/-! What a slave transmitter puts on the bus. Each call of `twi_transmit` replaces what the one
before it has left in the buffer. -/
namespace ArduinoAT90USB.Library
open Foundation.Memory Foundation.Table Foundation.Runs

/-- The byte that is loaded at this status and goes out next. -/
def TwiStatus.loads (twdr : UInt8) : TwiStatus → List UInt8
  | .stSlaAck | .stArbLostSlaAck | .stDataAck => [twdr]
  | _ => []

/-- A request under way, with the bytes that were put on the bus for it. -/
structure SlaveReply where
  link : TwiLink
  sent : List UInt8

/-- Another master has addressed this interface to read from it. -/
def TwiStatus.requests : TwiStatus → Bool
  | .stSlaAck | .stArbLostSlaAck => true
  | _ => false

namespace SlaveReply

def step (s : SlaveReply) (e : TwiEvent) : SlaveReply :=
  match s.link.interrupt e with
  | .error _ => s
  | .ok l => if s.link.phase.allows e.status then ⟨l,s.sent ++ e.status.loads l.twi.twdr⟩ else s

/-- A master that reads for as long as there is something to read. -/
def request (status : TwiStatus) (calls : List TwiMessage) : List TwiEvent :=
  ⟨status,0,calls⟩ :: List.replicate twiBufferLength ⟨.stDataAck,0,[]⟩

end SlaveReply

namespace TwiMessage

/-- What is in the buffer after a call of `twi_transmit`. -/
def replaces (q : List UInt8) (m : TwiMessage) : List UInt8 := if twiBufferLength < m.data.length then q else m.data

/-- What these calls of `twi_transmit` leave to be sent. -/
def left (calls : List TwiMessage) : List UInt8 := calls.foldl replaces []

/-- A slave has to send something. -/
def reply (calls : List TwiMessage) : List UInt8 := if left calls = [] then [0] else left calls

theorem foldl_replaces_length {q : List UInt8} (h : q.length ≤ twiBufferLength) (calls : List TwiMessage) :
    (calls.foldl replaces q).length ≤ twiBufferLength := by
  induction calls generalizing q with
  | nil => exact h
  | cons m rest ih =>
    apply ih
    unfold replaces
    split
    · exact h
    · omega

theorem left_snoc (calls : List TwiMessage) (m : TwiMessage) : left (calls ++ [m]) = replaces (left calls) m := by
  rw [left,List.foldl_append]
  rfl

theorem reply_length (calls : List TwiMessage) : (reply calls).length ≤ twiBufferLength := by
  unfold reply
  split
  · decide
  · exact foldl_replaces_length (Nat.zero_le _) calls

end TwiMessage

namespace Twi
variable {q : List UInt8} {t : Twi}

def requested (t : Twi) : Twi := {t with state := .stx, txBufferIndex := 0, txBufferLength := 0}

/-- The slave's buffer from the first byte on. -/
structure Given (q : List UInt8) (k : Nat) (t : Twi) : Prop where
  state : t.state = .stx
  index : t.txBufferIndex.toNat = k
  length : t.txBufferLength.toNat = q.length
  buffer : Holds t.txBuffer q

theorem Given.transmit {k : Nat} (h : Given q k t) (m : TwiMessage) :
    ∃ r t', t.transmit m = .ok (r,t') ∧ Given (m.replaces q) k t' := by
  unfold Twi.transmit TwiMessage.replaces
  by_cases hlong : twiBufferLength < m.data.length
  · rw [if_pos hlong,if_pos hlong]
    exact ⟨1,t,rfl,h⟩
  · obtain ⟨b,hcopy,hholds⟩ := holds_copyInto t.txBuffer (Nat.not_lt.mp hlong)
    rw [if_neg hlong,if_neg hlong,if_neg (not_not_intro h.state),hcopy,ok_bind]
    refine ⟨0,_,rfl,h.state,h.index,?_,hholds⟩
    change (UInt8.ofNat m.data.length).toNat = m.data.length
    rw [UInt8.toNat_ofNat',Nat.mod_eq_of_lt m.short]

theorem Given.onSlaveTransmit {k : Nat} (h : Given q k t) (calls : List TwiMessage) :
    ∃ t', Twi.onSlaveTransmit calls t = .ok t' ∧ Given (calls.foldl TwiMessage.replaces q) k t' := by
  induction calls generalizing q t with
  | nil => exact ⟨t,rfl,h⟩
  | cons m rest ih =>
    obtain ⟨r,t₁,hm,h₁⟩ := h.transmit m
    rw [Twi.onSlaveTransmit,hm,ok_bind]
    exact ih h₁

theorem Given.orNul {k : Nat} (h : Given q k t) : ∃ t', t.orNul = .ok t' ∧ Given (if q = [] then [0] else q) k t' := by
  unfold Twi.orNul
  by_cases hq : q = []
  · have hzero : t.txBufferLength = 0 := UInt8.toNat_inj.mp (by rw [h.length,hq]; rfl)
    subst hq
    obtain ⟨b,hstore,hholds⟩ := h.buffer.push (by decide) 0
    rw [if_pos hzero,if_pos rfl,show storeAt t.txBuffer 0 0 = .ok b from hstore,ok_bind]
    exact ⟨_,rfl,h.state,h.index,rfl,hholds⟩
  · have hpos : t.txBufferLength ≠ 0 := by
      intro hzero
      have hlen := h.length
      rw [hzero] at hlen
      exact hq (List.length_eq_zero_iff.mp hlen.symm)
    rw [if_neg hpos,if_neg hq]
    exact ⟨t,rfl,h⟩

theorem Given.sendNext {k : Nat} (h : Given q k t) (hlt : k < q.length) :
    ∃ t', t.sendNext = .ok t' ∧ Given q (k + 1) t' ∧ q[k]? = some t'.twdr ∧ t'.twcr.ack = decide (k + 1 < q.length) := by
  have hload : loadAt t.txBuffer t.txBufferIndex.toNat = .ok q[k] := by
    rw [h.index]
    exact h.buffer.load (List.getElem?_eq_getElem hlt)
  have hnext : (t.txBufferIndex + 1).toNat = k + 1 := by
    have := h.length ▸ t.txBufferLength.toNat_lt
    rw [UInt8.toNat_add,h.index]
    change (k + 1) % 256 = k + 1
    omega
  rw [Twi.sendNext,hload,ok_bind]
  refine ⟨_,rfl,⟨h.state,hnext,h.length,h.buffer⟩,List.getElem?_eq_getElem hlt,?_⟩
  change decide (t.txBufferIndex + 1 < t.txBufferLength) = decide (k + 1 < q.length)
  rw [decide_eq_decide,UInt8.lt_iff_toNat_lt,hnext,h.length]

theorem beginSlaveTransmit_given (t : Twi) (calls : List TwiMessage) :
    ∃ t', t.beginSlaveTransmit calls = t'.sendNext ∧ Given (TwiMessage.reply calls) 0 t' := by
  have hstart : Given [] 0 t.requested := ⟨rfl,rfl,rfl,.nil _⟩
  obtain ⟨t₁,hcalls,h₁⟩ := hstart.onSlaveTransmit calls
  obtain ⟨t₂,hnul,h₂⟩ := h₁.orNul
  refine ⟨t₂,?_,h₂⟩
  change Twi.onSlaveTransmit calls t.requested >>= _ = _
  rw [hcalls,ok_bind,hnul,ok_bind]

end Twi

namespace SlaveReply
variable {reply : List UInt8} {s : SlaveReply} {e : TwiEvent}

/-- At most `n` bytes are missing. -/
inductive Missing (reply : List UInt8) (n : Nat) (s : SlaveReply) : Prop
  | bytes (k : Nat) (given : s.link.twi.Given reply k) (phase : s.link.phase = .slaveTransmit true)
      (sent : s.sent = reply.take k) (more : k < reply.length) (left : reply.length ≤ k + n)
  | finished (phase : s.link.phase = .slaveTransmit false) (sent : s.sent = reply)

/-- A byte was loaded and goes out. -/
private theorem Missing.of_sendNext {t : Twi} {k n : Nat} (h : t.Given reply k) (hlt : k < reply.length)
    (hsent : s.sent = reply.take k) (hleft : reply.length ≤ k + 1 + n) (hallows : s.link.phase.allows e.status = true)
    (hreceived : e.status.received = false) (hhandler : s.link.twi.handler e.calls e.status = t.sendNext)
    (hloads : ∀ twdr, e.status.loads twdr = [twdr])
    (hrespond : ∀ c twdr, TwiPhase.respond c twdr e.status = .slaveTransmit c.ack) : Missing reply n (s.step e) := by
  obtain ⟨t',ht',hgiven,hbyte,hack⟩ := h.sendNext hlt
  have hint : s.link.interrupt e = .ok ⟨t',.slaveTransmit (decide (k + 1 < reply.length))⟩ := by
    rw [TwiLink.interrupt,if_pos hallows,hreceived]
    change s.link.twi.handler e.calls e.status >>= _ = _
    rw [hhandler,ht',ok_bind,hrespond,hack]
  have hsent' : s.sent ++ [t'.twdr] = reply.take (k + 1) := by
    rw [hsent,List.take_add_one,hbyte]
    rfl
  have hstep : s.step e = ⟨⟨t',.slaveTransmit (decide (k + 1 < reply.length))⟩,reply.take (k + 1)⟩ := by
    rw [step,hint]
    dsimp only
    rw [if_pos hallows,hloads,hsent']
  rw [hstep]
  by_cases hmore : k + 1 < reply.length
  · exact .bytes (k + 1) hgiven (congrArg _ (decide_eq_true hmore)) rfl hmore hleft
  · refine .finished (congrArg _ (decide_eq_false hmore)) ?_
    exact List.take_of_length_le (Nat.not_lt.mp hmore)

theorem Missing.step {n : Nat} (h : Missing reply (n + 1) s) : Missing reply n (s.step ⟨.stDataAck,0,[]⟩) := by
  cases h with
  | bytes k given phase sent more left =>
    refine .of_sendNext given more sent (by omega) ?_ rfl rfl (fun _ => rfl) fun _ _ => rfl
    rw [phase]
    rfl
  | finished phase sent =>
    -- after its last byte the interface reports no `TW_ST_DATA_ACK`
    have hnot : ¬ s.link.phase.allows .stDataAck = true := by
      rw [phase]
      decide
    have hignored : s.step ⟨.stDataAck,0,[]⟩ = s := by
      rw [SlaveReply.step,TwiLink.interrupt,if_neg hnot]
      exact if_neg hnot
    rw [hignored]
    exact .finished phase sent

theorem Missing.zero (h : Missing reply 0 s) : s.sent = reply := by
  cases h with
  | bytes k given phase sent more left => omega
  | finished phase sent => exact sent

/-- The handler makes no difference between the two ways of being addressed. -/
private theorem requests_facts {status : TwiStatus} (h : status.requests = true) :
    status.received = false ∧ (∀ (t : Twi) calls, t.handler calls status = t.beginSlaveTransmit calls) ∧
      (∀ twdr, status.loads twdr = [twdr]) ∧ ∀ c twdr, TwiPhase.respond c twdr status = .slaveTransmit c.ack := by
  cases status <;> first | exact ⟨rfl,fun _ _ => rfl,fun _ => rfl,fun _ _ => rfl⟩ | cases h

theorem request_sends (l : TwiLink) {status : TwiStatus} (hstatus : status.requests = true)
    (hallows : l.phase.allows status = true) (calls : List TwiMessage) :
    ((request status calls).foldl step ⟨l,[]⟩).sent = TwiMessage.reply calls := by
  obtain ⟨t,hbegin,hgiven⟩ := l.twi.beginSlaveTransmit_given calls
  have hlen := TwiMessage.reply_length calls
  have hpos : 0 < (TwiMessage.reply calls).length := by
    unfold TwiMessage.reply
    split
    · decide
    · exact List.length_pos_iff.mpr ‹_›
  rw [request,List.foldl_cons]
  refine (countdown (M := Missing (TwiMessage.reply calls)) (fun n s h => h.step) ?_).zero
  obtain ⟨hreceived,hhandler,hloads,hrespond⟩ := requests_facts hstatus
  exact .of_sendNext hgiven hpos rfl (by omega) hallows hreceived ((hhandler _ _).trans hbegin) hloads hrespond

end SlaveReply
end ArduinoAT90USB.Library
