import ArduinoAT90USB.Core.CdcIn

/-! The data stage of a control transfer to the host: `Endpoint_Write_Control_Stream_LE` on one
side, and on the other a host that asked for `wLength` bytes. The host takes packets until it has
them all or one is shorter than the endpoint, and then acknowledges with an OUT packet. -/
namespace ArduinoAT90USB.Usb
open Foundation.Surroundings

/-- `Endpoint_ControlStream_RW_ErrorCodes_t`. -/
inductive ControlStream
  | noError
  | hostAborted
  | deviceDisconnected
  | busSuspended
  deriving DecidableEq

/-- The control endpoint and the host: what it has received, and whether its data stage is over. -/
structure ControlIn where
  bank : List UInt8
  busy : Bool
  received : List UInt8
  ended : Bool
  outReceived : Bool
  setupReceived : Bool
  deviceState : Core.DeviceState

inductive ControlEvent
  | poll
  | status
  | setup
  | device (state : Core.DeviceState)
  deriving DecidableEq

namespace ControlIn

/-- The endpoint after the SETUP packet of a request was cleared. -/
def requested : ControlIn := ⟨[],false,[],false,false,false,.configured⟩

section Driver
variable (size : Nat) (wLength : UInt16)

def happen (l : ControlIn) : ControlEvent → ControlIn
  | .poll =>
    if l.busy && !l.ended && !l.setupReceived then
      {l with
        received := l.received ++ l.bank
        bank := []
        busy := false
        ended := decide (l.bank.length < size ∨ wLength.toNat ≤ (l.received ++ l.bank).length)}
    else l
  | .status => if l.ended then {l with outReceived := true} else l
  | .setup => {l with setupReceived := true}
  | .device state => {l with deviceState := state}

abbrev Driver := Program ControlIn ControlEvent

def get {α : Type} (f : ControlIn → α) : Driver α := access (happen size wLength) fun l => (f l,l)

def set (f : ControlIn → ControlIn) : Driver Unit := access (happen size wLength) fun l => ((),f l)

def clearIn : Driver Unit := set size wLength fun l => {l with busy := true}

def write8 (x : UInt8) : Driver Unit := set size wLength fun l => if l.busy then l else {l with bank := l.bank ++ [x]}

/-- The loop that fills the bank, with `Length` and `BytesInEndpoint`. -/
def fill : List UInt8 → Nat → Driver (List UInt8 × Nat)
  | [], bytesInEndpoint => pure ([],bytesInEndpoint)
  | x :: rest, bytesInEndpoint =>
    if bytesInEndpoint < size then do
      write8 size wLength x
      fill rest (bytesInEndpoint + 1)
    else pure (x :: rest,bytesInEndpoint)

/-- One turn of the loop over the data, which leaves the function with a code or only the loop. -/
def dataTurn (v : List UInt8 × Bool) : Driver (Option ControlStream ⊕ (List UInt8 × Bool)) :=
  if v.1 = [] ∧ v.2 = false then pure (.inl none)
  else do
    let state ← get size wLength deviceState
    if state = .unattached then pure (.inl (some .deviceDisconnected))
    else if state = .suspended then pure (.inl (some .busSuspended))
    else do
      let setup ← get size wLength setupReceived
      if setup then pure (.inl (some .hostAborted))
      else do
        let out ← get size wLength outReceived
        if out then pure (.inl none)
        else do
          let busy ← get size wLength busy
          if busy then pure (.inr v)
          else do
            let bytesInEndpoint ← get size wLength fun l => l.bank.length
            let r ← fill size wLength v.1 bytesInEndpoint
            clearIn size wLength
            pure (.inr (r.1,r.2 == size))

/-- One turn of the loop that waits for the host's acknowledgement. -/
def statusTurn (_ : Unit) : Driver (ControlStream ⊕ Unit) := do
  let out ← get size wLength outReceived
  if out then pure (.inl .noError)
  else do
    let state ← get size wLength deviceState
    if state = .unattached then pure (.inl .deviceDisconnected)
    else if state = .suspended then pure (.inl .busSuspended)
    else pure (.inr ())

/-- The packet for a stream without data. -/
def emptyPacket (data : List UInt8) : Driver Unit :=
  if wLength.toNat < data.length then pure ()
  else if data = [] then clearIn size wLength
  else pure ()

/-- `Endpoint_Write_Control_Stream_LE`. -/
def writeControlStream (data : List UInt8) : Driver ControlStream := do
  emptyPacket size wLength data
  let code ← loop (dataTurn size wLength) (data.take wLength.toNat,false)
  match code with
  | some code => pure code
  | none => loop (statusTurn size wLength) ()

end Driver

section Exact
variable {size : Nat} {wLength : UInt16} {E : ControlEvent → Prop} {P W : ControlIn → Prop} {target rest : List UInt8} {full : Bool}
  {l : ControlIn}

theorem meets_get {α : Type} {f : ControlIn → α} (hP : Stable (happen size wLength) E P) (hw : ∀ l, P l → W l) :
    Meets E P (get size wLength f) (fun a l => a = f l ∧ P l) W :=
  meets_access hP (fun _ hl => ⟨rfl,hl⟩) hw

theorem meets_set {f : ControlIn → ControlIn} {Q : ControlIn → Prop} (hP : Stable (happen size wLength) E P) (hf : ∀ l, P l → Q (f l))
    (hw : ∀ l, P l → W l) : Meets E P (set size wLength f) (fun _ l => Q l) W :=
  meets_access hP hf hw

/-- The host has a part of the data, and all of it when it ends the stage. -/
structure Exact (target : List UInt8) (l : ControlIn) : Prop where
  part : l.received <+: target
  whole : l.ended = true → l.received = target
  answered : l.outReceived = true → l.ended = true

/-- The packets that are out and the bytes that are left, between two turns of the loop. -/
structure Transfers (size : Nat) (target rest : List UInt8) (full : Bool) (l : ControlIn) : Prop where
  data : l.received ++ l.bank ++ rest = target
  released : l.busy = false → l.bank = []
  short : l.busy = true → l.bank.length < size → rest = [] ∧ full = false
  packet : l.busy = true → size ≤ l.bank.length → full = true
  wants : l.busy = false → l.ended = false → rest = [] → full = true
  whole : l.ended = true → l.received = target
  answered : l.outReceived = true → l.ended = true

theorem Transfers.exact (h : Transfers size target rest full l) : Exact target l := by
  refine ⟨?_,h.whole,h.answered⟩
  rw [← h.data,List.append_assoc]
  exact List.prefix_append _ _

theorem Transfers.taken (h : Transfers size target rest full l) (hlen : target.length ≤ wLength.toNat) (hbusy : l.busy = true)
    (hended : l.ended = false) :
    Transfers size target rest full {l with
      received := l.received ++ l.bank
      bank := []
      busy := false
      ended := decide (l.bank.length < size ∨ wLength.toNat ≤ (l.received ++ l.bank).length)} := by
  have hdata := h.data
  refine ⟨?_,fun _ => rfl,fun hb => Bool.noConfusion hb,fun hb => Bool.noConfusion hb,?_,?_,?_⟩
  · change l.received ++ l.bank ++ [] ++ rest = target
    rw [List.append_nil]
    exact hdata
  · intro _ hnot _
    have hnot' := not_or.mp (of_decide_eq_false hnot)
    exact h.packet hbusy (Nat.not_lt.mp hnot'.1)
  · intro hend
    have hrest : rest = [] := by
      rcases of_decide_eq_true hend with hshort | hall
      · exact (h.short hbusy hshort).1
      · have hlength := congrArg List.length hdata
        rw [List.length_append] at hlength
        exact List.length_eq_zero_iff.mp (by omega)
    rw [hrest,List.append_nil] at hdata
    exact hdata
  · intro hout
    have hended' := h.answered hout
    rw [hended] at hended'
    cases hended'

theorem transfers_stable (hlen : target.length ≤ wLength.toNat) : Stable (happen size wLength) E (Transfers size target rest full) := by
  intro l e _ h
  cases e with
  | poll =>
    rw [happen]
    split
    case isTrue hpoll =>
      simp only [Bool.and_eq_true,Bool.not_eq_true'] at hpoll
      exact h.taken hlen hpoll.1.1 hpoll.1.2
    case isFalse => exact h
  | status =>
    rw [happen]
    split
    case isTrue hended => exact ⟨h.data,h.released,h.short,h.packet,h.wants,h.whole,fun _ => hended⟩
    case isFalse => exact h
  | setup | device => exact ⟨h.data,h.released,h.short,h.packet,h.wants,h.whole,h.answered⟩

/-- The bank is being filled. -/
structure Fills (size : Nat) (target rest : List UInt8) (n : Nat) (l : ControlIn) : Prop where
  owned : l.busy = false
  data : l.received ++ l.bank ++ rest = target
  count : l.bank.length = n
  le : n ≤ size
  whole : l.ended = true → l.received = target
  answered : l.outReceived = true → l.ended = true

variable {n : Nat}

theorem Fills.exact (h : Fills size target rest n l) : Exact target l := by
  refine ⟨?_,h.whole,h.answered⟩
  rw [← h.data,List.append_assoc]
  exact List.prefix_append _ _

theorem fills_stable : Stable (happen size wLength) E (Fills size target rest n) := by
  intro l e _ h
  cases e with
  | poll =>
    rw [happen,h.owned]
    exact h
  | status =>
    rw [happen]
    split
    case isTrue hended => exact ⟨h.owned,h.data,h.count,h.le,h.whole,fun _ => hended⟩
    case isFalse => exact h
  | setup | device => exact ⟨h.owned,h.data,h.count,h.le,h.whole,h.answered⟩

theorem Transfers.fills (h : Transfers size target rest full l) (hbusy : l.busy = false) : Fills size target rest l.bank.length l := by
  refine ⟨hbusy,h.data,rfl,?_,h.whole,h.answered⟩
  rw [h.released hbusy]
  exact Nat.zero_le size

theorem Fills.write8 {x : UInt8} (h : Fills size target (x :: rest) n l) (hn : n < size) :
    Fills size target rest (n + 1) {l with bank := l.bank ++ [x]} := by
  refine ⟨h.owned,?_,?_,hn,h.whole,h.answered⟩
  · change l.received ++ (l.bank ++ [x]) ++ rest = target
    rw [← h.data]
    simp
  · change (l.bank ++ [x]).length = n + 1
    rw [List.length_append,h.count]
    rfl

theorem Fills.transfers (h : Fills size target rest n l) (hrest : n < size → rest = []) :
    Transfers size target rest (n == size) {l with busy := true} := by
  refine ⟨h.data,fun hb => Bool.noConfusion hb,?_,?_,fun hb => Bool.noConfusion hb,h.whole,h.answered⟩
  · intro _ hshort
    change l.bank.length < size at hshort
    rw [h.count] at hshort
    exact ⟨hrest hshort,beq_eq_false_iff_ne.mpr (Nat.ne_of_lt hshort)⟩
  · intro _ hfull
    change size ≤ l.bank.length at hfull
    rw [h.count] at hfull
    exact beq_iff_eq.mpr (Nat.le_antisymm h.le hfull)

theorem fill_meets (rest : List UInt8) (n : Nat) :
    Meets E (Fills size target rest n) (fill size wLength rest n) (fun r l => (r.2 < size → r.1 = []) ∧ Fills size target r.1 r.2 l)
      (Exact target) := by
  induction rest generalizing n with
  | nil => exact meets_pure fun _ hl => ⟨fun _ => rfl,hl⟩
  | cons x rest ih =>
    rw [fill]
    refine meets_ite (fun hn => ?_) fun hn => meets_pure fun _ hl => ⟨fun h => absurd h hn,hl⟩
    refine meets_bind (meets_set (Q := Fills size target rest (n + 1)) fills_stable ?_ fun _ hl => hl.exact) fun _ => ih (n + 1)
    intro l hl
    rw [if_neg (by rw [hl.owned]; decide)]
    exact hl.write8 hn

/-- The last packet is on its way, or the host has it. -/
inductive Awaits (size : Nat) (target : List UInt8) (l : ControlIn) : Prop
  | done (ended : l.ended = true) (data : l.received = target)
  | pending (ended : l.ended = false) (busy : l.busy = true) (short : l.bank.length < size) (data : l.received ++ l.bank = target)
      (unanswered : l.outReceived = false)

theorem Awaits.exact (h : Awaits size target l) : Exact target l := by
  cases h with
  | done ended data => exact ⟨data ▸ List.prefix_rfl,fun _ => data,fun _ => ended⟩
  | pending ended busy short data unanswered =>
    refine ⟨data ▸ List.prefix_append _ _,fun h => ?_,fun h => ?_⟩
    · rw [ended] at h
      cases h
    · rw [unanswered] at h
      cases h

theorem awaits_stable : Stable (happen size wLength) E (Awaits size target) := by
  intro l e _ h
  cases h with
  | done ended data =>
    cases e with
    | poll =>
      rw [happen,ended,Bool.not_true,Bool.and_false,Bool.false_and]
      exact .done ended data
    | status =>
      rw [happen,if_pos ended]
      exact .done ended data
    | setup | device => exact .done ended data
  | pending ended busy short data unanswered =>
    cases e with
    | poll =>
      rw [happen]
      split
      · exact .done (decide_eq_true (Or.inl short)) data
      · exact .pending ended busy short data unanswered
    | status =>
      rw [happen,ended]
      exact .pending ended busy short data unanswered
    | setup | device => exact .pending ended busy short data unanswered

theorem Transfers.awaits (h : Transfers size target [] false l) : Awaits size target l := by
  cases hended : l.ended with
  | true => exact .done hended (h.whole hended)
  | false =>
    have hbusy : l.busy = true := by
      cases hb : l.busy with
      | true => rfl
      | false => exact Bool.noConfusion (h.wants hb hended rfl)
    have hdata := h.data
    rw [List.append_nil] at hdata
    refine .pending hended hbusy ?_ hdata ?_
    · exact Nat.lt_of_not_le fun hle => Bool.noConfusion (h.packet hbusy hle)
    · cases hout : l.outReceived with
      | false => rfl
      | true =>
        have hended' := h.answered hout
        rw [hended] at hended'
        cases hended'

theorem dataTurn_meets (hlen : target.length ≤ wLength.toNat) (v : List UInt8 × Bool) :
    Meets E (Transfers size target v.1 v.2) (dataTurn size wLength v)
      (fun r l => r.elim (fun code => code.elim (Awaits size target l) fun code => code ≠ .noError ∧ Exact target l)
        fun v' => Transfers size target v'.1 v'.2 l)
      (Exact target) := by
  have hstable : Stable (happen size wLength) E (Transfers size target v.1 v.2) := transfers_stable hlen
  have hget {α : Type} (f : ControlIn → α) {p : ControlIn → Prop} : Meets E (fun l => p l ∧ Transfers size target v.1 v.2 l)
      (get size wLength f) (fun a l => a = f l ∧ Transfers size target v.1 v.2 l) (Exact target) :=
    (meets_get hstable fun _ hl => hl.exact).pre fun _ hl => hl.2
  refine meets_ite (fun hv => meets_pure fun l hl => ?_) fun _ => ?_
  · rw [hv.1,hv.2] at hl
    exact hl.awaits
  refine meets_bind (meets_get hstable fun _ hl => hl.exact) fun state => ?_
  refine meets_ite (fun _ => meets_pure fun _ hl => ⟨by decide,hl.2.exact⟩) fun _ => ?_
  refine meets_ite (fun _ => meets_pure fun _ hl => ⟨by decide,hl.2.exact⟩) fun _ => ?_
  refine meets_bind (hget _) fun setup => ?_
  refine meets_ite (fun _ => meets_pure fun _ hl => ⟨by decide,hl.2.exact⟩) fun _ => ?_
  refine meets_bind (hget _) fun out => ?_
  refine meets_ite (fun hout => meets_pure fun l hl => ?_) fun _ => ?_
  · have hended := hl.2.answered (hl.1.symm.trans hout)
    exact .done hended (hl.2.whole hended)
  refine meets_bind (hget _) fun busy => ?_
  refine meets_ite (fun _ => meets_pure fun _ hl => hl.2) fun hbusy => ?_
  have hfills (l : ControlIn) (hl : busy = l.busy ∧ Transfers size target v.1 v.2 l) : ∃ n, Fills size target v.1 n l :=
    ⟨_,hl.2.fills (hl.1.symm.trans (Bool.eq_false_iff.mpr hbusy))⟩
  refine meets_bind (R := fun n => Fills size target v.1 n) ((meets_exists fun n => ?_).pre hfills) fun n => ?_
  · refine meets_access fills_stable (fun l hl => ?_) fun _ hl => hl.exact
    change Fills size target v.1 l.bank.length l
    rw [hl.count]
    exact hl
  refine meets_bind (fill_meets v.1 n) fun r => meets_fact fun hrest => ?_
  exact meets_bind (meets_set fills_stable (fun _ hl => hl.transfers hrest) fun _ hl => hl.exact) fun _ => meets_pure fun _ hl => hl

theorem statusTurn_meets :
    Meets E (Awaits size target) (statusTurn size wLength ())
      (fun r l => r.elim (fun code => (code = .noError → l.ended = true) ∧ Exact target l) fun _ => Awaits size target l)
      (Exact target) := by
  refine meets_bind (meets_get awaits_stable fun _ hl => hl.exact) fun out => ?_
  refine meets_ite (fun hout => meets_pure fun l hl => ?_) fun _ => ?_
  · exact ⟨fun _ => hl.2.exact.answered (hl.1.symm.trans hout),hl.2.exact⟩
  refine meets_bind ((meets_get awaits_stable fun _ hl => hl.exact).pre fun _ hl => hl.2) fun state => ?_
  refine meets_ite (fun _ => meets_pure fun _ hl => ⟨fun h => ControlStream.noConfusion h,hl.2.exact⟩) fun _ => ?_
  exact meets_ite (fun _ => meets_pure fun _ hl => ⟨fun h => ControlStream.noConfusion h,hl.2.exact⟩) fun _ => meets_pure fun _ hl => hl.2

/-- Nothing has gone out yet. -/
structure Fresh (l : ControlIn) : Prop where
  owned : l.busy = false
  bank : l.bank = []
  received : l.received = []
  ended : l.ended = false
  unanswered : l.outReceived = false

theorem Fresh.fills (h : l.Fresh) (size : Nat) (target : List UInt8) : Fills size target target 0 l := by
  refine ⟨h.owned,?_,by rw [h.bank]; rfl,Nat.zero_le _,fun hended => ?_,fun hout => ?_⟩
  · rw [h.received,h.bank]
    rfl
  · rw [h.ended] at hended
    cases hended
  · rw [h.unanswered] at hout
    cases hout

theorem Fresh.transfers (h : l.Fresh) (hdata : target ≠ []) : Transfers size target target false l := by
  have hfills := h.fills size target
  refine ⟨hfills.data,fun _ => h.bank,fun hb => ?_,fun hb => ?_,fun _ _ hnone => absurd hnone hdata,hfills.whole,hfills.answered⟩
  · rw [h.owned] at hb
    cases hb
  · rw [h.owned] at hb
    cases hb

theorem take_ne_nil {data : List UInt8} (hlength : 0 < wLength.toNat) (hdata : data ≠ []) : data.take wLength.toNat ≠ [] := by
  intro hnone
  rcases List.take_eq_nil_iff.mp hnone with hzero | hnil
  · omega
  · exact hdata hnil

theorem Fills.empty (h : Fills size [] [] 0 l) (hsize : 0 < size) : Transfers size [] [] false {l with busy := true} := by
  have htransfers := h.transfers fun _ => rfl
  rwa [beq_eq_false_iff_ne.mpr (Nat.ne_of_lt hsize)] at htransfers

theorem emptyPacket_meets (hsize : 0 < size) (hlength : 0 < wLength.toNat) (data : List UInt8) :
    Meets E Fresh (emptyPacket size wLength data)
      (fun _ => Transfers size (data.take wLength.toNat) (data.take wLength.toNat) false) (Exact (data.take wLength.toNat)) := by
  refine meets_ite (fun hlong => meets_pure fun l hl => hl.transfers (take_ne_nil hlength ?_)) fun _ => ?_
  · rintro rfl
    exact Nat.not_lt_zero _ hlong
  · refine meets_ite (fun hdata => ?_) fun hdata => meets_pure fun l hl => hl.transfers (take_ne_nil hlength hdata)
    rw [hdata,List.take_nil]
    exact (meets_set fills_stable (fun l hl => hl.empty hsize) fun _ hl => hl.exact).pre fun l hl => hl.fills size []

theorem writeControlStream_meets (hsize : 0 < size) (hlength : 0 < wLength.toNat) (data : List UInt8) :
    Meets E Fresh (writeControlStream size wLength data)
      (fun code l => (code = .noError → l.ended = true) ∧ Exact (data.take wLength.toNat) l) (Exact (data.take wLength.toNat)) := by
  have hlen : (data.take wLength.toNat).length ≤ wLength.toNat := List.length_take_le _ _
  refine meets_bind (emptyPacket_meets hsize hlength data) fun _ => ?_
  refine meets_bind (meets_loop
    (I := fun (v : List UInt8 × Bool) => Transfers size (data.take wLength.toNat) v.1 v.2) (dataTurn_meets hlen)
    (fun _ _ hl => hl.exact) (data.take wLength.toNat,false)) fun code => ?_
  cases code with
  | some code => exact meets_pure fun _ hl => ⟨fun h => absurd h hl.1,hl.2⟩
  | none => exact meets_loop (I := fun _ => Awaits size (data.take wLength.toNat)) (fun _ => statusTurn_meets) (fun _ _ hl => hl.exact) ()

end Exact

/-- The host is there and goes on with the transfer. -/
structure Live (l : ControlIn) : Prop where
  setup : l.setupReceived = false
  attached : l.deviceState ≠ .unattached
  awake : l.deviceState ≠ .suspended

section Unasked
variable {size : Nat} {l : ControlIn}

def Attached : ControlEvent → Prop
  | .device state => state ≠ .unattached ∧ state ≠ .suspended
  | .poll | .status | .setup => True

/-- The host has no packet to take and nothing to answer. -/
structure Idle (l : ControlIn) : Prop where
  busy : l.busy = false
  ended : l.ended = false
  unanswered : l.outReceived = false
  attached : l.deviceState ≠ .unattached
  awake : l.deviceState ≠ .suspended

theorem idle_stable : Stable (happen size 0) Attached Idle := by
  intro l e he h
  cases e with
  | poll =>
    rw [happen,h.busy]
    exact h
  | status =>
    rw [happen,h.ended]
    exact h
  | setup => exact ⟨h.busy,h.ended,h.unanswered,h.attached,h.awake⟩
  | device state => exact ⟨h.busy,h.ended,h.unanswered,he.1,he.2⟩

theorem writeControlStream_unasked (size : Nat) {data : List UInt8} (hdata : data ≠ []) :
    Meets Attached Idle (writeControlStream size 0 data) (fun _ _ => False) (fun _ => True) := by
  have htake : data.take (0 : UInt16).toNat = [] := List.take_zero
  have hget {α : Type} (f : ControlIn → α) {p : ControlIn → Prop} :
      Meets Attached (fun l => p l ∧ l.Idle) (get size 0 f) (fun a l => a = f l ∧ l.Idle) (fun _ => True) :=
    (meets_get idle_stable fun _ _ => trivial).pre fun _ hl => hl.2
  have hstatus : Meets Attached Idle (loop (statusTurn size 0) ()) (fun _ _ => False) (fun _ => True) := by
    refine meets_loop (I := fun _ => Idle) (fun _ => ?_) (fun _ _ _ => trivial) ()
    refine meets_bind (meets_get idle_stable fun _ _ => trivial) fun out => ?_
    refine meets_ite (fun hout => meets_pure fun l hl => ?_) fun _ => ?_
    · have hnone := hl.2.unanswered
      rw [← hl.1,hout] at hnone
      cases hnone
    refine meets_bind (hget _) fun state => ?_
    refine meets_ite (fun hstate => meets_pure fun l hl => hl.2.attached (hl.1.symm.trans hstate)) fun _ => ?_
    exact meets_ite (fun hstate => meets_pure fun l hl => hl.2.awake (hl.1.symm.trans hstate)) fun _ => meets_pure fun _ hl => hl.2
  refine meets_bind (R := fun _ => Idle) ?_ fun _ => ?_
  · refine meets_ite (fun _ => meets_pure fun _ hl => hl) fun _ => ?_
    exact meets_ite (fun hnone => absurd hnone hdata) fun _ => meets_pure fun _ hl => hl
  -- there is nothing to send, so the first loop ends at once
  refine meets_bind (R := fun code l => code = none ∧ l.Idle) ?_ fun code => meets_fact (P := Idle) fun hcode => ?_
  · rw [htake]
    refine (meets_loop (I := fun v l => v = ([],false) ∧ l.Idle) (fun v => meets_fact (P := Idle) fun hv => ?_) (fun _ _ _ => trivial)
      ([],false)).pre fun _ hl => ⟨rfl,hl⟩
    rw [hv,dataTurn,if_pos ⟨rfl,rfl⟩]
    exact meets_pure fun _ hl => ⟨rfl,hl⟩
  · rw [hcode]
    exact hstatus

end Unasked

end ControlIn

open ControlIn

/-- Whatever happens meanwhile, the host has got first bytes of what it asked for, and when it ends
the data stage it has all of it: the data, cut at `wLength`. The function only returns without an
error when that is so. -/
theorem controlWrite_exact {size : Nat} (hsize : 0 < size) {wLength : UInt16} (hlength : 0 < wLength.toNat) (data : List UInt8)
    {l : ControlIn} (hfresh : l.Fresh) (moments : List (List ControlEvent)) :
    Outcome (fun _ => True) (fun code l' => (code = .noError → l'.ended = true) ∧ l'.Exact (data.take wLength.toNat))
      (fun l' => l'.Exact (data.take wLength.toNat)) (writeControlStream size wLength data ⟨l,moments⟩) :=
  writeControlStream_meets hsize hlength data ⟨l,moments⟩ (fun _ _ _ _ => trivial) hfresh

/-- A host that asks for more than there is, and suspends the device in the middle. -/
theorem controlWrite_exact_three_bytes :
    Outcome (fun _ => True) (fun code l' => (code = .noError → l'.ended = true) ∧ l'.Exact [1,2,3]) (fun l' => l'.Exact [1,2,3])
      (writeControlStream 2 9 [1,2,3] ⟨.requested,List.replicate 9 [.poll,.status] ++ [[.device .suspended]]⟩) := by
  have hfresh : ControlIn.requested.Fresh := ⟨rfl,rfl,rfl,rfl,rfl⟩
  exact controlWrite_exact (by decide : 0 < 2) (by decide : 0 < (9 : UInt16).toNat) [1,2,3] hfresh
    (List.replicate 9 [.poll,.status] ++ [[.device .suspended]])

/-- A request for no bytes of data that there is: the host sends no OUT packet, and the function
never returns while the device stays attached and awake. -/
theorem controlWrite_unasked (size : Nat) {data : List UInt8} (hdata : data ≠ []) {l : ControlIn} (hfresh : l.Fresh) (hlive : l.Live)
    {moments : List (List ControlEvent)} (hmoments : Allowed Attached moments) :
    ∃ t, writeControlStream size 0 data ⟨l,moments⟩ = .error () t := by
  have h := writeControlStream_unasked size hdata ⟨l,moments⟩ hmoments
    ⟨hfresh.owned,hfresh.ended,hfresh.unanswered,hlive.attached,hlive.awake⟩
  cases hrun : writeControlStream size 0 data ⟨l,moments⟩ with
  | ok code t =>
    rw [hrun] at h
    exact h.2.elim
  | error e t => exact ⟨t,rfl⟩

theorem controlWrite_unasked_polled :
    ∃ t, writeControlStream 8 0 [18,1] ⟨.requested,List.replicate 20 [.poll,.status]⟩ = .error () t :=
  controlWrite_unasked 8 (by decide) ⟨rfl,rfl,rfl,rfl,rfl⟩ ⟨rfl,by decide,by decide⟩ (by
    intro now hnow e he
    rw [List.eq_of_mem_replicate hnow] at he
    simp only [List.mem_cons,List.not_mem_nil,or_false] at he
    rcases he with rfl | rfl
    · trivial
    · trivial)

end ArduinoAT90USB.Usb
