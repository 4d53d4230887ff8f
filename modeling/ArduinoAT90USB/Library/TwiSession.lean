import ArduinoAT90USB.Library.TwiBusRead

/-! One transfer after another on the bus: writes and reads, with a stop or a repeated start in
between, to the slave on the bus or to an address nobody has. -/
namespace ArduinoAT90USB.Library
open Foundation.Memory Foundation.Table Foundation.Lockstep

/-- A call of the master, and what the slave's callback does if it is asked. -/
inductive TwiTransfer
  | write (address : UInt8) (msg : TwiMessage) (sendStop : Bool)
  | read (address length : UInt8) (sendStop : Bool) (calls : List TwiMessage)

/-- What a call returns. -/
inductive TwiOutcome
  | wrote (result : UInt8)
  | read (data : List UInt8)

namespace TwiTransfer

/-- Cycles that are enough for a call with a full buffer. -/
def enough : Nat := twiBufferLength + 3

/-- `twi_writeTo` and `twi_readFrom`, called when both parties have returned from their handlers,
with these turns before the fair ones. -/
def perform (slave : UInt8) (turns : List Turn) (x : TwiLink × TwiSlave) : TwiTransfer → Checked (TwiOutcome × TwiLink × TwiSlave)
  | .write address msg sendStop =>
    if twiBufferLength < msg.data.length then .ok (.wrote 1,x)
    else do
      let t ← x.1.twi.beginWrite address msg sendStop
      let y := (twiBus slave []).run (turns ++ Protocol.cycles enough) (Protocol.rest (x.1.call t,x.2))
      .ok (.wrote y.left.twi.writeResult,y.left,y.right)
  | .read address length sendStop calls =>
    if twiBufferLength < length.toNat then .ok (.read [],x)
    else do
      let t := x.1.twi.beginRead address length sendStop
      let y := (twiBus slave calls).run (turns ++ Protocol.cycles enough) (Protocol.rest (x.1.call t,x.2))
      let data ← TwiSystem.finishRead y.left.twi length
      .ok (.read data,y.left,y.right)

def session (slave : UInt8) : List (TwiTransfer × List Turn) → TwiLink × TwiSlave → Checked (List TwiOutcome × TwiLink × TwiSlave)
  | [], x => .ok ([],x)
  | (c,turns) :: rest, x => do
    let r ← c.perform slave turns x
    let rs ← session slave rest r.2
    .ok (r.1 :: rs.1,rs.2)

/-- A read of no bytes writes past the buffer and is left out. -/
def Sound : TwiTransfer → Prop
  | .write _ _ _ => True
  | .read _ length _ _ => 0 < length.toNat

def outcome (slave : UInt8) : TwiTransfer → TwiOutcome
  | .write address msg _ =>
    .wrote (if twiBufferLength < msg.data.length then 1 else if TwiAnswers slave address then 0 else 2)
  | .read address length _ calls =>
    .read (if twiBufferLength < length.toNat ∨ ¬ TwiAnswers slave address then [] else twiAnswer (TwiMessage.reply calls) length.toNat)

/-- What the slave is to receive. -/
def delivered (slave : UInt8) : TwiTransfer → List (List UInt8)
  | .write address msg _ => if msg.data.length ≤ twiBufferLength ∧ TwiAnswers slave address then [msg.data] else []
  | .read _ _ _ _ => []

end TwiTransfer

/-- A call to an address that nobody has, with the rounds it has left. -/
inductive Unanswered (read : Bool) (slarw : UInt8) (s : TwiSlave) (rounds : Nat) (x : TwiLink × TwiSlave) : Prop
  | starting (left : rounds = 2) (phase : x.1.phase = .starting) (byte : x.1.twi.slarw = slarw) (start : x.1.twi.inRepStart = false)
      (index : x.1.twi.masterBufferIndex = 0) (idle : x.2 = s)
  | address (left : rounds = 1) (phase : x.1.phase = .address read) (byte : x.1.twi.twdr = slarw) (start : x.1.twi.inRepStart = false)
      (index : x.1.twi.masterBufferIndex = 0) (idle : x.2 = s)
  | done (left : rounds = 0) (rest : x.1.Resting) (error : read = false → x.1.twi.error = 0x20)
      (index : x.1.twi.masterBufferIndex = 0) (idle : x.2 = s)

section Refused
variable {slave slarw : UInt8} {read : Bool} {calls : List TwiMessage} {s : TwiSlave} {n : Nat} {x : TwiLink × TwiSlave} {m : TwiLink}

theorem Unanswered.round (hs : s.link.phase = .idle true) (hread : TwiPhase.ofAddress slarw = .address read)
    (hanswers : ¬ slarw >>> 1 = twiSetAddress slave >>> 1) (h : Unanswered read slarw s (n + 1) x) :
    Unanswered read slarw s n ((twiBus slave calls).round x) := by
  unfold Protocol.round
  cases h with
  | starting left phase byte start index idle =>
    rw [twiWire_starting phase (idle ▸ hs)]
    have hreact := TwiLink.react_start phase
    refine .address (by omega) ?_ ?_ ?_ ?_ idle
    · change (x.1.react _).phase = _
      rw [hreact,byte]
      exact hread
    · change (x.1.react _).twi.twdr = _
      rw [hreact]
      exact byte
    · change (x.1.react _).twi.inRepStart = _
      rw [hreact]
      exact start
    · change (x.1.react _).twi.masterBufferIndex = _
      rw [hreact]
      exact index
  | address left phase byte start index idle =>
    rw [twiWire_address phase (idle ▸ hs),byte,if_neg hanswers]
    cases read with
    | true =>
      have hreact := TwiLink.react_eq (e := TwiStatus.mrSlaNack.plain) (by rw [phase]; rfl) rfl
      refine .done (by omega) ?_ (fun h => Bool.noConfusion h) ?_ idle
      · change (x.1.react TwiStatus.mrSlaNack.plain).Resting
        rw [hreact]
        exact .idle rfl rfl start
      · change (x.1.react TwiStatus.mrSlaNack.plain).twi.masterBufferIndex = _
        rw [hreact]
        exact index
    | false =>
      have hreact := TwiLink.react_eq (e := TwiStatus.mtSlaNack.plain) (by rw [phase]; rfl) rfl
      refine .done (by omega) ?_ (fun _ => ?_) ?_ idle
      · change (x.1.react TwiStatus.mtSlaNack.plain).Resting
        rw [hreact]
        exact .idle rfl rfl start
      · change (x.1.react TwiStatus.mtSlaNack.plain).twi.error = _
        rw [hreact]
        rfl
      · change (x.1.react TwiStatus.mtSlaNack.plain).twi.masterBufferIndex = _
        rw [hreact]
        exact index
  | done left => omega

theorem Unanswered.completed (h : Unanswered read slarw s 0 x) :
    x.1.Resting ∧ (read = false → x.1.twi.error = 0x20) ∧ x.1.twi.masterBufferIndex = 0 ∧ x.2 = s := by
  cases h with
  | done left rest error index idle => exact ⟨rest,error,index,idle⟩
  | starting left | address left => omega

theorem Unanswered.countdown (calls : List TwiMessage) (hs : s.link.phase = .idle true) (hread : TwiPhase.ofAddress slarw = .address read)
    (hanswers : ¬ slarw >>> 1 = twiSetAddress slave >>> 1) : (twiBus slave calls).Countdown (Unanswered read slarw s) where
  round h := h.round hs hread hanswers
  silent h := by
    obtain ⟨hrest,-,-,hx⟩ := h.completed
    exact twiWire_silent hrest (hx ▸ hs)

theorem Unanswered.begin (hm : m.Resting) {t : Twi} (s : TwiSlave) (hslarw : t.slarw = slarw) (hindex : t.masterBufferIndex = 0)
    (hread : TwiPhase.ofAddress slarw = .address read) : ∃ n ≤ 2, Unanswered read slarw s n (m.call t.begin,s) := by
  subst hslarw
  rw [hm.call]
  unfold Twi.begin
  split
  case isTrue => exact ⟨1,by decide,.address rfl hread rfl rfl hindex rfl⟩
  case isFalse hstart => exact ⟨2,by decide,.starting rfl rfl rfl (Bool.eq_false_iff.mpr hstart) hindex rfl⟩

theorem Unanswered.beginWrite (hm : m.Resting) (s : TwiSlave) (address : UInt8) {msg : TwiMessage}
    (hfits : msg.data.length ≤ twiBufferLength) (sendStop : Bool) :
    ∃ t, m.twi.beginWrite address msg sendStop = .ok t ∧ ∃ n ≤ 2, Unanswered false (address <<< 1) s n (m.call t,s) := by
  obtain ⟨b,hcopy,-⟩ := holds_copyInto m.twi.masterBuffer hfits
  rw [Twi.beginWrite,Twi.prepareWrite,hcopy,ok_bind]
  exact ⟨_,rfl,Unanswered.begin hm s rfl rfl (write_phase address)⟩

theorem Unanswered.beginRead (hm : m.Resting) (s : TwiSlave) (address length : UInt8) (sendStop : Bool) :
    ∃ n ≤ 2, Unanswered true ((1 : UInt8) ||| address <<< 1) s n (m.call (m.twi.beginRead address length sendStop),s) := by
  rw [Twi.beginRead]
  exact Unanswered.begin hm s rfl rfl (read_phase address)

end Refused

namespace TwiTransfer
variable {slave : UInt8} {x : TwiLink × TwiSlave} {c : TwiTransfer}

/-- Two parties that can take part in a transfer. -/
def Listening (x : TwiLink × TwiSlave) : Prop := x.1.Resting ∧ x.2.link.phase = .idle true

/-- The call returns what it should, and the parties are ready for the next. -/
def Performs (slave : UInt8) (turns : List Turn) (x : TwiLink × TwiSlave) (c : TwiTransfer) : Prop :=
  ∃ y, c.perform slave turns x = .ok (c.outcome slave,y) ∧ Listening y ∧ y.2.received = x.2.received ++ c.delivered slave

theorem write_performs (turns : List Turn) (hx : Listening x) (address : UInt8) (msg : TwiMessage) (sendStop : Bool) :
    Performs slave turns x (.write address msg sendStop) := by
  unfold Performs
  rw [perform,outcome,delivered]
  by_cases hlong : twiBufferLength < msg.data.length
  · rw [if_pos hlong,if_pos hlong,if_neg fun h => Nat.not_lt.mpr h.1 hlong]
    exact ⟨x,rfl,hx,(List.append_nil _).symm⟩
  · have hfits := Nat.not_lt.mp hlong
    rw [if_neg hlong,if_neg hlong]
    by_cases hanswers : TwiAnswers slave address
    · obtain ⟨t,n,hcall,hn,hwriting⟩ := Writing.call address hx.1 hx.2 msg hfits sendStop
      obtain ⟨y,hy,hrun⟩ := (Writing.countdown x.2.received [] hanswers hfits).completes hwriting
        (Nat.le_trans hn (Nat.add_le_add_right hfits 3)) turns
      obtain ⟨hrest,hresult,hidle,hreceived⟩ := hy.completed
      rw [hcall,ok_bind,enough,hrun,if_pos hanswers,if_pos ⟨hfits,hanswers⟩]
      exact ⟨y,congrArg (fun r => Except.ok (TwiOutcome.wrote r,y)) hresult,⟨hrest,hidle⟩,hreceived⟩
    · obtain ⟨t,hcall,n,hn,hcalled⟩ := Unanswered.beginWrite hx.1 x.2 address hfits sendStop
      obtain ⟨y,hy,hrun⟩ := (Unanswered.countdown [] hx.2 (write_phase address) hanswers).completes hcalled
        (Nat.le_trans hn (by decide : 2 ≤ enough)) turns
      obtain ⟨hrest,herror,-,hslave⟩ := hy.completed
      rw [hcall,ok_bind,hrun,if_neg hanswers,if_neg fun h => hanswers h.2]
      refine ⟨y,?_,⟨hrest,hslave ▸ hx.2⟩,?_⟩
      · change Except.ok (TwiOutcome.wrote y.1.twi.writeResult,y) = _
        rw [Twi.writeResult,herror rfl]
        rfl
      · rw [hslave,List.append_nil]

theorem read_performs (turns : List Turn) (hx : Listening x) (address : UInt8) {length : UInt8} (hpos : 0 < length.toNat)
    (sendStop : Bool) (calls : List TwiMessage) : Performs slave turns x (.read address length sendStop calls) := by
  unfold Performs
  rw [perform,outcome,delivered,List.append_nil]
  by_cases hlong : twiBufferLength < length.toNat
  · rw [if_pos hlong,if_pos (Or.inl hlong)]
    exact ⟨x,rfl,hx,rfl⟩
  · have hfits := Nat.not_lt.mp hlong
    rw [if_neg hlong]
    by_cases hanswers : TwiAnswers slave address
    · obtain ⟨n,hn,hreading⟩ := Reading.call address length (TwiMessage.reply calls) hx.1 hx.2 sendStop
      obtain ⟨y,hy,hrun⟩ := (Reading.countdown x.2.received calls hanswers hpos hfits).completes hreading
        (Nat.le_trans hn (Nat.add_le_add hfits (by decide : 2 ≤ 3))) turns
      obtain ⟨hrest,hresult,hidle,hreceived⟩ := hy.completed
      dsimp only
      rw [enough,hrun]
      change ∃ z, (TwiSystem.finishRead y.1.twi length >>= _) = _ ∧ _
      rw [hresult,ok_bind,if_neg (by simpa [hanswers] using hlong)]
      exact ⟨y,rfl,⟨hrest,hidle⟩,hreceived⟩
    · have hneg : ¬ ((1 : UInt8) ||| address <<< 1) >>> 1 = twiSetAddress slave >>> 1 := by
        rw [read_seven_bits]
        exact hanswers
      obtain ⟨n,hn,hcalled⟩ := Unanswered.beginRead hx.1 x.2 address length sendStop
      obtain ⟨y,hy,hrun⟩ := (Unanswered.countdown calls hx.2 (read_phase address) hneg).completes hcalled
        (Nat.le_trans hn (by decide : 2 ≤ enough)) turns
      obtain ⟨hrest,-,hindex,hslave⟩ := hy.completed
      dsimp only
      rw [hrun]
      change ∃ z, (TwiSystem.finishRead y.1.twi length >>= _) = _ ∧ _
      have hresult : TwiSystem.finishRead y.1.twi length = .ok [] := by
        rw [TwiSystem.finishRead,hindex,if_pos ((UInt8.lt_iff_toNat_lt (a := 0)).mpr hpos)]
        rfl
      rw [hresult,ok_bind,if_pos (Or.inr hanswers)]
      exact ⟨y,rfl,⟨hrest,hslave ▸ hx.2⟩,congrArg _ hslave⟩

theorem performs (slave : UInt8) (turns : List Turn) (hx : Listening x) (hc : c.Sound) : Performs slave turns x c := by
  cases c with
  | write address msg sendStop => exact write_performs turns hx address msg sendStop
  | read address length sendStop calls => exact read_performs turns hx address hc sendStop calls

end TwiTransfer

end ArduinoAT90USB.Library
