import ArduinoAT90USB.Library.TwiWrite
import ArduinoAT90USB.Library.TwiReply

/-! The counts `TwoWire::write` returns, against the bytes that get to the bus. Between
`beginTransmission` and `endTransmission` the bytes are collected in a buffer of `Wire.cpp`; in
the callback of a slave request they go to `twi_transmit`, call by call. -/
namespace ArduinoAT90USB.Library
open Foundation.Memory Foundation.Table Foundation.Runs

/-- `BUFFER_LENGTH`. -/
def wireBufferLength : Nat := 32

/-- A call of one of the two `write`. A `size_t` has 16 bits. -/
inductive WireWrite
  | byte (data : UInt8)
  | buffer (data : List UInt8) (size : data.length < 65536)

namespace WireWrite

def bytes : WireWrite → List UInt8
  | .byte x => [x]
  | .buffer data _ => data

def quantity (c : WireWrite) : UInt16 := UInt16.ofNat c.bytes.length

theorem size (c : WireWrite) : c.bytes.length < 65536 := by
  cases c with
  | byte x => exact Nat.one_lt_two_pow (by decide : 16 ≠ 0)
  | buffer data size => exact size

theorem quantity_toNat (c : WireWrite) : c.quantity.toNat = c.bytes.length := by
  rw [quantity,UInt16.toNat_ofNat',Nat.mod_eq_of_lt c.size]

private theorem take_short (data : List UInt8) : (data.take (data.length % 256)).length < 256 :=
  Nat.lt_of_le_of_lt (List.length_take_le _ _) (Nat.mod_lt _ (by decide))

/-- What `twi_transmit` gets: its length is an `uint8_t`. -/
def message (c : WireWrite) : TwiMessage := ⟨c.bytes.take (c.bytes.length % 256),take_short c.bytes⟩

theorem message_short {c : WireWrite} (h : c.bytes.length ≤ twiBufferLength) : c.message.data = c.bytes := by
  change c.bytes.take (c.bytes.length % 256) = c.bytes
  rw [Nat.mod_eq_of_lt (Nat.lt_of_le_of_lt h (by decide)),List.take_length]

def written (calls : List WireWrite) : List UInt8 := calls.flatMap bytes

theorem written_cons (c : WireWrite) (rest : List WireWrite) : written (c :: rest) = c.bytes ++ written rest :=
  List.flatMap_cons

theorem written_snoc (calls : List WireWrite) (c : WireWrite) : written (calls ++ [c]) = written calls ++ c.bytes := by
  rw [written,List.flatMap_append,List.flatMap_singleton]
  rfl

/-- The counts add up to the bytes on the bus, and those are the first bytes written. -/
def Counted (calls : List WireWrite) (total : Nat) (bus : List UInt8) : Prop :=
  total = bus.length ∧ bus = (written calls).take wireBufferLength

/-- A `write(data,quantity)` after `len` bytes finds room for all of its data. -/
def Fits (len : Nat) : WireWrite → Prop
  | .byte _ => True
  | .buffer data _ => data = [] ∨ len + data.length ≤ wireBufferLength

def after (len : Nat) (c : WireWrite) : Nat := len + c.bytes.length

/-- All that is written is written in the last call, and fits. -/
def LastOnly (calls : List WireWrite) : Prop :=
  ∃ earlier c, calls = earlier ++ [c] ∧ written earlier = [] ∧ 0 < c.bytes.length ∧ c.bytes.length ≤ wireBufferLength

theorem admits_of_room {calls : List WireWrite} {len : Nat} (h : len + (written calls).length ≤ wireBufferLength) :
    Admits after Fits len calls := by
  induction calls generalizing len with
  | nil => trivial
  | cons c rest ih =>
    rw [written_cons,List.length_append] at h
    refine ⟨?_,ih ?_⟩
    · cases c with
      | byte x => trivial
      | buffer data size => exact Or.inr (Nat.le_trans (Nat.le_add_right _ _) (Nat.add_assoc .. ▸ h))
    · rw [after,Nat.add_assoc]
      exact h

end WireWrite

open WireWrite

/-- The variables of `Wire.cpp` that writing uses, and those of `twi.c` below. -/
structure TwoWire where
  txAddress : UInt8
  txBuffer : Vector UInt8 wireBufferLength
  txBufferIndex : UInt8
  txBufferLength : UInt8
  transmitting : Bool
  writeError : Bool
  twi : Twi

namespace TwoWire

/-- The variables as the program starts, and `begin`. -/
def init : TwoWire := ⟨0,Vector.replicate _ 0,0,0,false,false,.init⟩

def beginTransmission (w : TwoWire) (address : UInt8) : TwoWire :=
  {w with transmitting := true, txAddress := address, txBufferIndex := 0, txBufferLength := 0}

/-- `write(data)`. -/
def writeByte (w : TwoWire) (x : UInt8) : Checked (UInt16 × TwoWire) :=
  if w.transmitting then
    if wireBufferLength ≤ w.txBufferLength.toNat then .ok (0,{w with writeError := true})
    else do
      let b ← storeAt w.txBuffer w.txBufferIndex.toNat x
      .ok (1,{w with txBuffer := b, txBufferIndex := w.txBufferIndex + 1, txBufferLength := w.txBufferIndex + 1})
  else do
    let r ← w.twi.transmit (WireWrite.byte x).message
    .ok (1,{w with twi := r.2})

/-- The loop of `write(data,quantity)`, which drops what each `write(data[i])` returns. -/
def writeEach : List UInt8 → TwoWire → Checked TwoWire
  | [], w => .ok w
  | x :: rest, w => do
    let r ← w.writeByte x
    writeEach rest r.2

/-- `write(data)` and `write(data,quantity)`. -/
def write (w : TwoWire) : WireWrite → Checked (UInt16 × TwoWire)
  | .byte x => w.writeByte x
  | .buffer data size =>
    if w.transmitting then do
      let w' ← writeEach data w
      .ok ((WireWrite.buffer data size).quantity,w')
    else do
      let r ← w.twi.transmit (WireWrite.buffer data size).message
      .ok ((WireWrite.buffer data size).quantity,{w with twi := r.2})

/-- A sequence of calls, with the sum of the counts they return. -/
def writes : List WireWrite → TwoWire → Checked (Nat × TwoWire)
  | [], w => .ok (0,w)
  | c :: rest, w => do
    let r ← w.write c
    let s ← writes rest r.2
    .ok (r.1.toNat + s.1,s.2)

theorem message_size (w : TwoWire) : (w.txBuffer.toList.take w.txBufferLength.toNat).length < 256 :=
  Nat.lt_of_le_of_lt (List.length_take_le _ _) w.txBufferLength.toNat_lt

/-- What `twi_writeTo` gets. -/
def message (w : TwoWire) : TwiMessage := ⟨w.txBuffer.toList.take w.txBufferLength.toNat,w.message_size⟩

/-- `endTransmission(sendStop)` on a free bus: what it returns and what was on the bus, if this
happens while `twi_writeTo` waits. -/
def endTransmission (w : TwoWire) (sendStop : Bool) (events : List TwiEvent) :
    Checked (UInt8 × List (UInt8 × Bool) × TwoWire) :=
  let done : TwoWire := {w with txBufferIndex := 0, txBufferLength := 0, transmitting := false}
  if twiBufferLength < w.txBufferLength.toNat then .ok (1,[],done)
  else do
    let t ← w.twi.beginWrite w.txAddress w.message sendStop
    let s := events.foldl WriteCall.step ⟨(TwiLink.free w.twi).call t,[],none⟩
    .ok (s.link.twi.writeResult,s.sent,{done with twi := s.link.twi})

/-- `onRequestService`, where the user's callback makes these calls. -/
def onRequestService (calls : List WireWrite) (w : TwoWire) : Checked (Nat × TwoWire) :=
  writes calls {w with txBufferIndex := 0, txBufferLength := 0}

/-- The calls of `twi_transmit` the callback makes. -/
def transmits (w : TwoWire) (calls : List WireWrite) : List TwiMessage :=
  if w.transmitting then [] else calls.map WireWrite.message

section Master
variable {address : UInt8} {t : Twi} {all : List UInt8} {w : TwoWire}

/-- After `all` was written the buffer has as much of it as there is room for. -/
structure Queued (address : UInt8) (t : Twi) (all : List UInt8) (w : TwoWire) : Prop where
  transmitting : w.transmitting = true
  address : w.txAddress = address
  twi : w.twi = t
  buffer : Holds w.txBuffer (all.take wireBufferLength)
  index : w.txBufferIndex.toNat = (all.take wireBufferLength).length
  length : w.txBufferLength = w.txBufferIndex

theorem Queued.writeByte (h : Queued address t all w) (x : UInt8) :
    ∃ w', w.writeByte x = .ok (if all.length < wireBufferLength then 1 else 0,w') ∧ Queued address t (all ++ [x]) w' := by
  have hlength : w.txBufferLength.toNat = (all.take wireBufferLength).length := by rw [h.length,h.index]
  rw [TwoWire.writeByte,if_pos h.transmitting,hlength,h.index]
  by_cases hroom : all.length < wireBufferLength
  · have htake : all.take wireBufferLength = all := List.take_of_length_le (Nat.le_of_lt hroom)
    have htake' : (all ++ [x]).take wireBufferLength = all ++ [x] := by
      apply List.take_of_length_le
      rw [List.length_append]
      exact hroom
    obtain ⟨b,hstore,hholds⟩ := (htake ▸ h.buffer).push hroom x
    have hindex : (w.txBufferIndex + 1).toNat = all.length + 1 := by
      rw [UInt8.toNat_add,h.index,htake]
      exact Nat.mod_eq_of_lt (Nat.lt_of_le_of_lt hroom (by decide))
    rw [htake,if_neg (Nat.not_le.mpr hroom),hstore,ok_bind,if_pos hroom]
    refine ⟨_,rfl,h.transmitting,h.address,h.twi,?_,?_,rfl⟩
    · rw [htake']
      exact hholds
    · rw [htake',List.length_append]
      exact hindex
  · have hfull := Nat.not_lt.mp hroom
    have htake : (all ++ [x]).take wireBufferLength = all.take wireBufferLength := List.take_append_of_le_length hfull
    rw [if_neg hroom,if_pos (by rw [List.length_take]; omega)]
    refine ⟨_,rfl,h.transmitting,h.address,h.twi,?_,?_,h.length⟩
    · rw [htake]
      exact h.buffer
    · rw [htake]
      exact h.index

theorem Queued.writeEach (h : Queued address t all w) (data : List UInt8) :
    ∃ w', TwoWire.writeEach data w = .ok w' ∧ Queued address t (all ++ data) w' := by
  induction data generalizing all w with
  | nil => exact ⟨w,rfl,by rwa [List.append_nil]⟩
  | cons x rest ih =>
    obtain ⟨w₁,hx,h₁⟩ := h.writeByte x
    obtain ⟨w₂,hrest,h₂⟩ := ih h₁
    refine ⟨w₂,?_,by rwa [List.append_assoc] at h₂⟩
    rw [TwoWire.writeEach,hx,ok_bind]
    exact hrest

theorem write_buffer (h : w.transmitting = true) {data : List UInt8} (size : data.length < 65536) {w' : TwoWire}
    (hdata : TwoWire.writeEach data w = .ok w') :
    w.write (.buffer data size) = .ok ((WireWrite.buffer data size).quantity,w') := by
  rw [TwoWire.write,if_pos h,hdata,ok_bind]

/-- A call never returns less than it has queued, and more if some of its data found no room. -/
theorem Queued.write (h : Queued address t all w) (c : WireWrite) :
    ∃ count w', w.write c = .ok (count,w') ∧ Queued address t (all ++ c.bytes) w' ∧
      min wireBufferLength (c.after all.length) ≤ min wireBufferLength all.length + count.toNat ∧
      (min wireBufferLength all.length + count.toNat = min wireBufferLength (c.after all.length) ↔ c.Fits all.length) := by
  cases c with
  | byte x =>
    obtain ⟨w',hx,h'⟩ := h.writeByte x
    refine ⟨_,w',hx,h',?_⟩
    change min _ (all.length + 1) ≤ _ ∧ (_ = min _ (all.length + 1) ↔ True)
    rw [iff_true]
    by_cases hroom : all.length < wireBufferLength
    · rw [if_pos hroom,show (1 : UInt16).toNat = 1 from rfl]
      omega
    · rw [if_neg hroom,show (0 : UInt16).toNat = 0 from rfl]
      omega
  | buffer data size =>
    obtain ⟨w',hdata,h'⟩ := h.writeEach data
    refine ⟨_,w',write_buffer h.transmitting size hdata,h',?_⟩
    rw [quantity_toNat]
    change min _ (all.length + data.length) ≤ _ + data.length ∧
      (_ + data.length = min _ (all.length + data.length) ↔ data = [] ∨ all.length + data.length ≤ wireBufferLength)
    rw [← List.length_eq_zero_iff]
    omega

theorem Queued.writes (h : Queued address t all w) (calls : List WireWrite) :
    ∃ total w', TwoWire.writes calls w = .ok (total,w') ∧ Queued address t (all ++ written calls) w' ∧
      min wireBufferLength (all.length + (written calls).length) ≤ min wireBufferLength all.length + total ∧
      (min wireBufferLength all.length + total = min wireBufferLength (all.length + (written calls).length) ↔
        Admits WireWrite.after WireWrite.Fits all.length calls) := by
  induction calls generalizing all w with
  | nil =>
    refine ⟨0,w,rfl,?_,Nat.le_refl _,iff_of_true rfl trivial⟩
    rwa [written,List.flatMap_nil,List.append_nil]
  | cons c rest ih =>
    obtain ⟨count,w₁,hc,h₁,hle,heq⟩ := h.write c
    obtain ⟨total,w₂,hrest,h₂,hle',heq'⟩ := ih h₁
    rw [List.append_assoc,← written_cons] at h₂
    refine ⟨count.toNat + total,w₂,?_,h₂,?_⟩
    · rw [TwoWire.writes,hc,ok_bind,hrest,ok_bind]
    · rw [List.length_append] at hle' heq'
      rw [Admits,← heq,written_cons,List.length_append]
      change _ ∧ (_ ↔ _ ∧ Admits after Fits (all.length + c.bytes.length) rest)
      rw [← heq']
      unfold after at hle ⊢
      omega

theorem Queued.nil (htransmitting : w.transmitting = true) (hindex : w.txBufferIndex = 0) (hlength : w.txBufferLength = 0) :
    Queued w.txAddress w.twi [] w :=
  ⟨htransmitting,rfl,rfl,.nil _,congrArg UInt8.toNat hindex,hlength.trans hindex.symm⟩

theorem Queued.message (h : Queued address t all w) : w.message.data = all.take wireBufferLength := by
  change w.txBuffer.toList.take w.txBufferLength.toNat = _
  rw [h.length,h.index]
  exact h.buffer.toList_take

/-- What was queued gets to the slave. -/
theorem Queued.endTransmission (h : Queued address t all w) (sendStop : Bool) :
    ∃ result w', w.endTransmission sendStop WriteCall.acknowledgements =
      .ok (result,WriteCall.delivered address (all.take wireBufferLength),w') := by
  have hroom : (all.take wireBufferLength).length ≤ twiBufferLength := h.buffer.fits
  have hmessage : w.message.data.length ≤ twiBufferLength := by rwa [h.message]
  obtain ⟨t',hbegin,-,hsent⟩ := WriteCall.acknowledged_delivers w.twi w.txAddress hmessage sendStop
  have hfits : ¬ twiBufferLength < w.txBufferLength.toNat := by
    rw [h.length,h.index]
    exact Nat.not_lt.mpr hroom
  rw [h.message,h.address] at hsent
  rw [TwoWire.endTransmission,if_neg hfits,hbegin,ok_bind]
  dsimp only
  rw [hsent]
  exact ⟨_,_,rfl⟩

end Master

section Slave
variable {w : TwoWire}

theorem write_slave (h : w.transmitting = false) (c : WireWrite) {r : UInt8} {t : Twi}
    (ht : w.twi.transmit c.message = .ok (r,t)) : w.write c = .ok (c.quantity,{w with twi := t}) := by
  have hnot : ¬ w.transmitting = true := Bool.eq_false_iff.mp h
  cases c with
  | byte x =>
    rw [write,writeByte,if_neg hnot,ht]
    rfl
  | buffer data size =>
    rw [write,if_neg hnot,ht]
    rfl

/-- Without a transmission of its own each call is one of `twi_transmit`, and counts as all it was given. -/
theorem writes_slave (h : w.transmitting = false) (calls : List WireWrite) :
    ∃ t, Twi.onSlaveTransmit (calls.map WireWrite.message) w.twi = .ok t ∧
      writes calls w = .ok ((written calls).length,{w with twi := t}) := by
  induction calls generalizing w with
  | nil => exact ⟨w.twi,rfl,rfl⟩
  | cons c rest ih =>
    obtain ⟨r,b,n,ht,-⟩ := w.twi.transmit_only c.message
    obtain ⟨t,hrest,hwrites⟩ := ih (w := {w with twi := {w.twi with txBuffer := b, txBufferLength := n}}) h
    refine ⟨t,?_,?_⟩
    · rw [List.map_cons,Twi.onSlaveTransmit,ht,ok_bind]
      exact hrest
    · rw [writes,write_slave h c ht,ok_bind,hwrites,ok_bind,quantity_toNat,written_cons,List.length_append]

theorem counted_written_iff {calls : List WireWrite} {bus : List UInt8} (h : bus.length ≤ wireBufferLength) :
    Counted calls (written calls).length bus ↔ bus = written calls := by
  constructor
  · rintro ⟨hcount,hbus⟩
    rwa [List.take_of_length_le (hcount ▸ h)] at hbus
  · rintro rfl
    exact ⟨rfl,(List.take_of_length_le h).symm⟩

/-- What an earlier call has left is replaced. -/
theorem reply_last {earlier : List WireWrite} {c : WireWrite} (h : c.bytes.length ≤ twiBufferLength) :
    TwiMessage.reply ((earlier ++ [c]).map WireWrite.message) = if c.bytes = [] then [0] else c.bytes := by
  have hleft : TwiMessage.left ((earlier ++ [c]).map WireWrite.message) = c.bytes := by
    rw [List.map_append,List.map_singleton,TwiMessage.left_snoc,TwiMessage.replaces,message_short h,
      if_neg (Nat.not_lt.mpr h)]
  rw [TwiMessage.reply,hleft]

/-- The reply is all that was written only if nothing was before the last call, or it was a NUL
that would have been sent anyway. -/
theorem reply_counted_iff (calls : List WireWrite) :
    Counted calls (written calls).length (TwiMessage.reply (calls.map WireWrite.message)) ↔
      written calls = [0] ∨ LastOnly calls := by
  have hreply := TwiMessage.reply_length (calls.map WireWrite.message)
  rw [counted_written_iff hreply]
  constructor
  · intro heq
    rcases List.eq_nil_or_concat calls with rfl | ⟨earlier,c,rfl⟩
    · cases heq
    · rw [List.concat_eq_append] at heq hreply ⊢
      rw [heq,written_snoc,List.length_append] at hreply
      have hc : c.bytes.length ≤ twiBufferLength := Nat.le_trans (Nat.le_add_left _ _) hreply
      rw [reply_last hc] at heq
      by_cases hempty : c.bytes = []
      · rw [if_pos hempty] at heq
        exact .inl heq.symm
      · rw [if_neg hempty,written_snoc] at heq
        exact .inr ⟨earlier,c,rfl,List.self_eq_append_left.mp heq,List.length_pos_iff.mpr hempty,hc⟩
  · rintro (hzero | ⟨earlier,c,rfl,hnone,hpos,hfits⟩)
    · rcases List.eq_nil_or_concat calls with rfl | ⟨earlier,c,rfl⟩
      · cases hzero
      · rw [List.concat_eq_append] at hzero ⊢
        rw [hzero]
        rw [written_snoc,List.append_eq_singleton_iff] at hzero
        rcases hzero with ⟨-,hlast⟩ | ⟨-,hlast⟩ <;> rw [reply_last (by rw [hlast]; decide),hlast] <;> rfl
    · rw [reply_last hfits,if_neg (List.length_pos_iff.mp hpos),written_snoc,hnone,List.nil_append]

/-- A callback that runs while a transmission of the master is being written. -/
theorem writes_transmitting (h : w.transmitting = true) (hindex : w.txBufferIndex = 0) (hlength : w.txBufferLength = 0)
    (calls : List WireWrite) :
    ∃ total w', writes calls w = .ok (total,w') ∧ w'.twi = w.twi ∧ (Counted calls total [0] ↔ written calls = [0]) := by
  obtain ⟨total,w',hwrites,hqueued,-,heq⟩ := (Queued.nil h hindex hlength).writes calls
  rw [List.length_nil,Nat.min_zero,Nat.zero_add,Nat.zero_add] at heq
  refine ⟨total,w',hwrites,hqueued.twi,?_⟩
  constructor
  · rintro ⟨-,hbus⟩
    have hone := congrArg List.length hbus
    rw [List.length_take] at hone
    rwa [List.take_of_length_le ?_,eq_comm] at hbus
    change 1 = min 32 _ at hone
    change _ ≤ 32
    omega
  · intro hzero
    have hroom : 0 + (written calls).length ≤ wireBufferLength := by
      rw [hzero]
      decide
    rw [hzero] at heq
    refine ⟨heq.mpr (admits_of_room hroom),?_⟩
    rw [hzero]
    rfl

theorem onRequestService_counted_iff (w : TwoWire) (calls : List WireWrite) :
    ∃ total w', w.onRequestService calls = .ok (total,w') ∧
      Twi.onSlaveTransmit (w.transmits calls) w.twi = .ok w'.twi ∧
      (Counted calls total (TwiMessage.reply (w.transmits calls)) ↔
        written calls = [0] ∨ w.transmitting = false ∧ LastOnly calls) := by
  cases h : w.transmitting with
  | true =>
    obtain ⟨total,w',hwrites,htwi,hiff⟩ :=
      writes_transmitting (w := {w with txBufferIndex := 0, txBufferLength := 0}) h rfl rfl calls
    rw [transmits,if_pos h]
    refine ⟨total,w',hwrites,congrArg Except.ok htwi.symm,hiff.trans ?_⟩
    simp
  | false =>
    obtain ⟨t,htransmit,hwrites⟩ :=
      writes_slave (w := {w with txBufferIndex := 0, txBufferLength := 0}) h calls
    rw [transmits,if_neg (Bool.eq_false_iff.mp h)]
    refine ⟨_,_,hwrites,htransmit,(reply_counted_iff calls).trans ?_⟩
    simp

end Slave

end TwoWire

/-- The counts that `write` returns are those of the bytes on the bus exactly if, as a master,
every `write(data,quantity)` with something to write has room for all of it, and, as a slave that
is not in the middle of a transmission, everything is written in the last call and fits. -/
theorem write_counts_iff (w : TwoWire) (calls : List WireWrite) (address : UInt8) (sendStop : Bool) (phase : TwiPhase)
    (status : TwiStatus) (hstatus : status.requests = true) (hallows : phase.allows status = true) :
    (∃ total w₁ result w₂ bus, (w.beginTransmission address).writes calls = .ok (total,w₁) ∧
      w₁.endTransmission sendStop WriteCall.acknowledgements = .ok (result,WriteCall.delivered address bus,w₂) ∧
      (Counted calls total bus ↔ Admits WireWrite.after WireWrite.Fits 0 calls)) ∧
    ∃ total w₁, {w with twi := w.twi.requested}.onRequestService calls = .ok (total,w₁) ∧
      Twi.onSlaveTransmit (w.transmits calls) w.twi.requested = .ok w₁.twi ∧
      (Counted calls total ((SlaveReply.request status (w.transmits calls)).foldl SlaveReply.step ⟨⟨w.twi,phase⟩,[]⟩).sent ↔
        written calls = [0] ∨ w.transmitting = false ∧ LastOnly calls) := by
  constructor
  · obtain ⟨total,w₁,hwrites,hqueued,-,heq⟩ := (TwoWire.Queued.nil (w := w.beginTransmission address) rfl rfl rfl).writes calls
    obtain ⟨result,w₂,hend⟩ := hqueued.endTransmission sendStop
    refine ⟨total,w₁,result,w₂,_,hwrites,hend,?_⟩
    rw [List.length_nil,Nat.min_zero,Nat.zero_add,Nat.zero_add] at heq
    rw [← heq,Counted,List.nil_append,List.length_take]
    exact and_iff_left rfl
  · rw [SlaveReply.request_sends ⟨w.twi,phase⟩ hstatus hallows]
    exact TwoWire.onRequestService_counted_iff {w with twi := w.twi.requested} calls

private def threeBytes : List WireWrite := [.buffer [1,2,3] (by decide)]

/-- One call with three bytes. -/
theorem write_counts_three :
    TwiStatus.requests .stSlaAck = true ∧ TwiPhase.allows .stSlaAck (.idle true) = true ∧
    (∃ total w₁ result w₂ bus, (TwoWire.init.beginTransmission 0x50).writes threeBytes = .ok (total,w₁) ∧
      w₁.endTransmission true WriteCall.acknowledgements = .ok (result,WriteCall.delivered 0x50 bus,w₂) ∧
      Counted threeBytes total bus) ∧
    ∃ total w₁, {TwoWire.init with twi := TwoWire.init.twi.requested}.onRequestService threeBytes = .ok (total,w₁) ∧
      Counted threeBytes total ((SlaveReply.request .stSlaAck (TwoWire.init.transmits threeBytes)).foldl SlaveReply.step
        ⟨⟨TwoWire.init.twi,.idle true⟩,[]⟩).sent := by
  obtain ⟨⟨total,w₁,result,w₂,bus,hwrites,hend,hmaster⟩,⟨total',w',hrequest,-,hslave⟩⟩ :=
    write_counts_iff .init threeBytes 0x50 true (.idle true) .stSlaAck rfl rfl
  refine ⟨rfl,rfl,⟨total,w₁,result,w₂,bus,hwrites,hend,hmaster.mpr ⟨Or.inr ?_,trivial⟩⟩,⟨total',w',hrequest,hslave.mpr ?_⟩⟩
  · decide
  · exact Or.inr ⟨rfl,[],_,rfl,rfl,by decide,by decide⟩

/-- A master that writes 33 bytes is told 33, and 32 of them are sent; a slave that writes two
bytes one by one is told two, and the second is sent. -/
theorem write_counts_fail :
    (∃ w₁ result w₂, (TwoWire.init.beginTransmission 0x50).writes [.buffer (List.replicate 33 7) (by decide)] = .ok (33,w₁) ∧
      w₁.endTransmission true WriteCall.acknowledgements =
        .ok (result,WriteCall.delivered 0x50 (List.replicate 32 7),w₂)) ∧
    ∃ w₁, {TwoWire.init with twi := TwoWire.init.twi.requested}.onRequestService [.byte 1,.byte 2] = .ok (2,w₁) ∧
      ((SlaveReply.request .stSlaAck (TwoWire.init.transmits [.byte 1,.byte 2])).foldl SlaveReply.step
        ⟨⟨TwoWire.init.twi,.idle true⟩,[]⟩).sent = [2] := by
  obtain ⟨w₁,hdata,hqueued⟩ :=
    (TwoWire.Queued.nil (w := TwoWire.init.beginTransmission 0x50) rfl rfl rfl).writeEach (List.replicate 33 7)
  obtain ⟨result,w₂,hend⟩ := hqueued.endTransmission true
  refine ⟨⟨w₁,result,w₂,?_,hend⟩,_,rfl,SlaveReply.request_sends .init rfl rfl _⟩
  rw [TwoWire.writes,TwoWire.write_buffer rfl _ hdata]
  rfl

end ArduinoAT90USB.Library
