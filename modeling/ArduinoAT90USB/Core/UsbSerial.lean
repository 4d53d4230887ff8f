import Mathlib.Data.List.Basic
import Mathlib.Tactic.Common

/-! `USBSerialClass.cpp` on top of the CDC class driver's receive side. `peek` takes a byte
out of the endpoint and keeps it in `m_peek` until the next `read`. The USB tasks run at the
start of every method only touch the IN endpoint and are left out. -/
namespace ArduinoAT90USB.Core

/-- The OUT endpoint, its bank at the head of `out`, and the members of `USBSerial_`. -/
structure UsbSerial where
  configured : Bool
  baudRateBPS : UInt32
  out : List (List UInt8)
  mDidPeek : UInt8
  mPeek : Int
deriving DecidableEq

namespace UsbSerial

/-- The constructor, on a device whose line encoding has been set. -/
def opened (baudRateBPS : UInt32) : UsbSerial := ⟨true, baudRateBPS, [], 0, 0⟩

def isListening (s : UsbSerial) : Bool := s.configured && s.baudRateBPS != 0

/-- `CDC_Device_BytesReceived`; an empty packet is released. -/
def cdcDeviceBytesReceived (s : UsbSerial) : Nat × UsbSerial :=
  if !s.isListening then (0, s)
  else match s.out with
    | [] => (0, s)
    | [] :: rest => (0, {s with out := rest})
    | bank :: _ => (bank.length, s)

/-- `CDC_Device_ReceiveByte`; the bank is released with its last byte. -/
def cdcDeviceReceiveByte (s : UsbSerial) : Int × UsbSerial :=
  if !s.isListening then (-1, s)
  else match s.out with
    | [] => (-1, s)
    | bank :: rest =>
      let receivedByte : Int := match bank with
        | [] => -1
        | b :: _ => b.toNat
      (receivedByte, {s with out := if bank.tail.isEmpty then rest else bank.tail :: rest})

def available (s : UsbSerial) : Int × UsbSerial :=
  let bytes := s.cdcDeviceBytesReceived
  (bytes.1, bytes.2)

def peek (s : UsbSerial) : Int × UsbSerial :=
  let bytes := s.available
  if bytes.1 > 0 then
    let byte := bytes.2.cdcDeviceReceiveByte
    (byte.1, {byte.2 with mDidPeek := 1, mPeek := byte.1})
  else (0, bytes.2)

/-- `none` where control reaches the end of the function without a `return`. -/
def read (s : UsbSerial) : Option Int × UsbSerial :=
  if s.mDidPeek ≠ 0 then (some s.mPeek, {s with mDidPeek := 0})
  else if !s.configured then (some (-1), s)
  else
    let bytes := s.available
    if bytes.1 > 0 then
      let byte := bytes.2.cdcDeviceReceiveByte
      (some byte.1, byte.2)
    else (none, bytes.2)

/-- The values further reads have to deliver. -/
def unread (s : UsbSerial) : List Int :=
  (if s.mDidPeek ≠ 0 then [s.mPeek] else []) ++ s.out.flatten.map fun b => (b.toNat : Int)

def bankHolds (s : UsbSerial) : Bool :=
  match s.out with
  | (_ :: _) :: _ => true
  | _ => false

end UsbSerial

inductive Call
  | receive (packet : List UInt8)
  | read
  | peek
  | available
deriving DecidableEq

/-- A port in use, with all bytes received so far and all values returned by `read`. -/
structure Session where
  serial : UsbSerial
  received : List UInt8
  returned : List (Option Int)

namespace Session

def opened (baudRateBPS : UInt32) : Session := ⟨.opened baudRateBPS, [], []⟩

def step (r : Session) : Call → Session
  | .receive packet =>
    {r with serial := {r.serial with out := r.serial.out ++ [packet]}, received := r.received ++ packet}
  | .read => {r with serial := r.serial.read.2, returned := r.returned ++ [r.serial.read.1]}
  | .peek => {r with serial := r.serial.peek.2}
  | .available => {r with serial := r.serial.available.2}

def run (r : Session) : List Call → Session
  | [] => r
  | c :: rest => (r.step c).run rest

/-- What was returned and what is still to be returned make up what was received. -/
def Lossless (r : Session) : Prop :=
  r.returned ++ r.serial.unread.map some = r.received.map fun b => some (b.toNat : Int)

end Session

/-- A call that the one-byte look-ahead can bear: no second byte is peeked on top of an
unread one, and nothing is read where there is nothing to read. -/
def Call.safe (s : UsbSerial) : Call → Bool
  | .peek => s.mDidPeek = 0 || !s.bankHolds
  | .read => s.mDidPeek ≠ 0 || s.bankHolds
  | .receive _ | .available => true

def SafeRun (r : Session) : List Call → Prop
  | [] => True
  | c :: rest => c.safe r.serial = true ∧ SafeRun (r.step c) rest

namespace UsbSerial
variable {s : UsbSerial}

theorem bankHolds_iff : s.bankHolds = true ↔ ∃ b p rest, s.out = (b :: p) :: rest := by
  unfold bankHolds
  split
  · rename_i b p rest ho
    exact ⟨fun _ => ⟨b,p,rest,ho⟩,fun _ => rfl⟩
  · rename_i hne
    refine ⟨fun h => absurd h (by decide),?_⟩
    rintro ⟨b,p,rest,ho⟩
    exact absurd ho (hne b p rest)

theorem available_bank (hl : s.isListening = true) {b : UInt8} {p : List UInt8} {rest : List (List UInt8)}
    (ho : s.out = (b :: p) :: rest) : s.available = ((p.length : Int) + 1, s) := by
  simp [available, cdcDeviceBytesReceived, hl, ho]

/-- Without a byte in the bank there is nothing, even if bytes follow an empty packet. -/
theorem available_empty (h : s.bankHolds = false) :
    ∃ q, q.flatten = s.out.flatten ∧ s.available = (0, {s with out := q}) := by
  by_cases hl : s.isListening = true
  · match ho : s.out with
    | [] =>
      have hn : s.cdcDeviceBytesReceived = (0, s) := by simp [cdcDeviceBytesReceived, hl, ho]
      exact ⟨s.out,by rw [ho],by rw [available, hn]; rfl⟩
    | [] :: rest => exact ⟨rest,rfl,by simp [available, cdcDeviceBytesReceived, hl, ho]⟩
    | (b :: p) :: rest => exact absurd (bankHolds_iff.mpr ⟨b,p,rest,ho⟩) (by simp [h])
  · exact ⟨s.out,rfl,by simp [available, cdcDeviceBytesReceived, hl]⟩

theorem receiveByte_bank (hl : s.isListening = true) {b : UInt8} {p : List UInt8} {rest : List (List UInt8)}
    (ho : s.out = (b :: p) :: rest) :
    ∃ q, q.flatten = p ++ rest.flatten ∧ s.cdcDeviceReceiveByte = ((b.toNat : Int), {s with out := q}) := by
  cases p with
  | nil => exact ⟨rest,rfl,by simp [cdcDeviceReceiveByte, hl, ho]⟩
  | cons c p => exact ⟨(c :: p) :: rest,rfl,by simp [cdcDeviceReceiveByte, hl, ho]⟩

theorem peek_bank (hl : s.isListening = true) {b : UInt8} {p : List UInt8} {rest : List (List UInt8)}
    (ho : s.out = (b :: p) :: rest) :
    ∃ q, q.flatten = p ++ rest.flatten ∧
      s.peek = ((b.toNat : Int), {s with out := q, mDidPeek := 1, mPeek := (b.toNat : Int)}) := by
  obtain ⟨q,hq,hr⟩ := receiveByte_bank hl ho
  refine ⟨q,hq,?_⟩
  rw [peek, available_bank hl ho]
  simp only [hr]
  exact if_pos (by omega)

theorem peek_empty (h : s.bankHolds = false) :
    ∃ q, q.flatten = s.out.flatten ∧ s.peek = (0, {s with out := q}) := by
  obtain ⟨q,hq,ha⟩ := available_empty h
  exact ⟨q,hq,by rw [peek, ha]; rfl⟩

theorem read_peeked (h : s.mDidPeek ≠ 0) : s.read = (some s.mPeek, {s with mDidPeek := 0}) := if_pos h

theorem read_bank (hl : s.isListening = true) (h : s.mDidPeek = 0) {b : UInt8} {p : List UInt8}
    {rest : List (List UInt8)} (ho : s.out = (b :: p) :: rest) :
    ∃ q, q.flatten = p ++ rest.flatten ∧ s.read = (some (b.toNat : Int), {s with out := q}) := by
  obtain ⟨q,hq,hr⟩ := receiveByte_bank hl ho
  have hc : s.configured = true := (Bool.and_eq_true_iff.mp hl).1
  refine ⟨q,hq,?_⟩
  rw [read, if_neg (by simp [h]), if_neg (by simp [hc]), available_bank hl ho]
  simp only [hr]
  exact if_pos (by omega)

theorem read_empty (hl : s.isListening = true) (h : s.mDidPeek = 0) (hb : s.bankHolds = false) :
    ∃ q, q.flatten = s.out.flatten ∧ s.read = (none, {s with out := q}) := by
  obtain ⟨q,hq,ha⟩ := available_empty hb
  have hc : s.configured = true := (Bool.and_eq_true_iff.mp hl).1
  refine ⟨q,hq,?_⟩
  rw [read, if_neg (by simp [h]), if_neg (by simp [hc]), ha]
  rfl

end UsbSerial

/-- All that a call can do to the account, with whether it was safe. -/
inductive Effect (r t : Session) : Bool → Prop
  | arrive (packet : List UInt8) (hr : t.received = r.received ++ packet) (ht : t.returned = r.returned)
      (hu : t.serial.unread = r.serial.unread ++ packet.map fun b => (b.toNat : Int)) : Effect r t true
  | deliver (values : List Int) (hr : t.received = r.received) (ht : t.returned = r.returned ++ values.map some)
      (hu : r.serial.unread = values ++ t.serial.unread) : Effect r t true
  | noValue (hr : t.received = r.received) (ht : t.returned = r.returned ++ [none])
      (hu : t.serial.unread = r.serial.unread) : Effect r t false
  | overwrite (v : Int) (hr : t.received = r.received) (ht : t.returned = r.returned)
      (hu : r.serial.unread = v :: t.serial.unread) : Effect r t false

namespace Session
variable {r : Session}

theorem read_effect (hl : r.serial.isListening = true) : Effect r (r.step .read) (Call.read.safe r.serial) := by
  by_cases hp : r.serial.mDidPeek = 0
  · cases hb : r.serial.bankHolds with
    | false =>
      obtain ⟨q,hq,hread⟩ := UsbSerial.read_empty hl hp hb
      rw [show Call.read.safe r.serial = false by simp [Call.safe, hp, hb]]
      exact .noValue rfl (by simp [step, hread]) (by simp [step, hread, UsbSerial.unread, hq])
    | true =>
      obtain ⟨b,p,rest,ho⟩ := UsbSerial.bankHolds_iff.mp hb
      obtain ⟨q,hq,hread⟩ := UsbSerial.read_bank hl hp ho
      rw [show Call.read.safe r.serial = true by simp [Call.safe, hb]]
      exact .deliver [(b.toNat : Int)] rfl (by simp [step, hread])
        (by simp [step, hread, UsbSerial.unread, hq, hp, ho])
  · have hread := UsbSerial.read_peeked hp
    rw [show Call.read.safe r.serial = true by simp [Call.safe, hp]]
    exact .deliver [r.serial.mPeek] rfl (by simp [step, hread]) (by simp [step, hread, UsbSerial.unread, hp])

theorem peek_effect (hl : r.serial.isListening = true) : Effect r (r.step .peek) (Call.peek.safe r.serial) := by
  cases hb : r.serial.bankHolds with
  | false =>
    obtain ⟨q,hq,hpeek⟩ := UsbSerial.peek_empty hb
    rw [show Call.peek.safe r.serial = true by simp [Call.safe, hb]]
    exact .deliver [] rfl (by simp [step]) (by simp [step, hpeek, UsbSerial.unread, hq])
  | true =>
    obtain ⟨b,p,rest,ho⟩ := UsbSerial.bankHolds_iff.mp hb
    obtain ⟨q,hq,hpeek⟩ := UsbSerial.peek_bank hl ho
    by_cases hp : r.serial.mDidPeek = 0
    · rw [show Call.peek.safe r.serial = true by simp [Call.safe, hp]]
      exact .deliver [] rfl (by simp [step]) (by simp [step, hpeek, UsbSerial.unread, hq, hp, ho])
    · rw [show Call.peek.safe r.serial = false by simp [Call.safe, hp, hb]]
      exact .overwrite r.serial.mPeek rfl rfl (by simp [step, hpeek, UsbSerial.unread, hq, hp, ho])

theorem available_effect (hl : r.serial.isListening = true) : Effect r (r.step .available) true := by
  cases hb : r.serial.bankHolds with
  | false =>
    obtain ⟨q,hq,ha⟩ := UsbSerial.available_empty hb
    exact .deliver [] rfl (by simp [step]) (by simp [step, ha, UsbSerial.unread, hq])
  | true =>
    obtain ⟨b,p,rest,ho⟩ := UsbSerial.bankHolds_iff.mp hb
    exact .deliver [] rfl (by simp [step]) (by simp [step, UsbSerial.available_bank hl ho])

theorem step_effect (hl : r.serial.isListening = true) (c : Call) : Effect r (r.step c) (c.safe r.serial) := by
  cases c with
  | receive packet =>
    refine .arrive packet rfl rfl ?_
    simp only [step, UsbSerial.unread, List.flatten_append, List.flatten_cons, List.flatten_nil, List.append_nil,
      List.map_append, List.append_assoc]
    rfl
  | read => exact read_effect hl
  | peek => exact peek_effect hl
  | available => exact available_effect hl

theorem step_listening (c : Call) : (r.step c).serial.isListening = r.serial.isListening := by
  have hbytes (s : UsbSerial) : s.available.2.isListening = s.isListening := by
    unfold UsbSerial.available UsbSerial.cdcDeviceBytesReceived
    split
    · rfl
    · split <;> rfl
  have hbyte (s : UsbSerial) : s.cdcDeviceReceiveByte.2.isListening = s.isListening := by
    unfold UsbSerial.cdcDeviceReceiveByte
    split
    · rfl
    · split <;> rfl
  cases c with
  | receive packet => rfl
  | read =>
    change r.serial.read.2.isListening = _
    unfold UsbSerial.read
    split
    · rfl
    · split
      · rfl
      · dsimp only
        split
        · exact (hbyte _).trans (hbytes _)
        · exact hbytes _
  | peek =>
    change r.serial.peek.2.isListening = _
    unfold UsbSerial.peek
    dsimp only
    split
    · exact (hbyte _).trans (hbytes _)
    · exact hbytes _
  | available => exact hbytes _

theorem step_lossless {t : Session} (he : Effect r t true) (h : r.Lossless) : t.Lossless := by
  cases he with
  | arrive packet hr ht hu =>
    rw [Lossless, hr, ht, hu, List.map_append, List.map_append, ← List.append_assoc, h, List.map_map]
    rfl
  | deliver values hr ht hu => rw [Lossless, hr, ht, List.append_assoc, ← List.map_append, ← hu, h]

/-- A byte is gone, or a value was returned that is none. -/
def Broken (r : Session) : Prop :=
  none ∈ r.returned ∨ r.returned.length + r.serial.unread.length < r.received.length

theorem Broken.not_lossless (h : r.Broken) : ¬ r.Lossless := by
  intro hl
  rcases h with h | h
  · have hmem := List.mem_append_left (r.serial.unread.map some) h
    rw [hl] at hmem
    simp at hmem
  · have hlen := congrArg List.length hl
    simp only [List.length_append, List.length_map] at hlen
    omega

theorem step_breaks {t : Session} (he : Effect r t false) (h : r.Lossless) : t.Broken := by
  cases he with
  | noValue hr ht hu => exact .inl (by simp [ht])
  | overwrite v hr ht hu =>
    right
    have hlen := congrArg List.length h
    simp only [List.length_append, List.length_map, hu, List.length_cons] at hlen
    rw [hr, ht]
    omega

theorem step_broken {t : Session} {safe : Bool} (he : Effect r t safe) (h : r.Broken) : t.Broken := by
  rcases h with h | h
  · left
    cases he with
    | arrive packet hr ht hu | overwrite v hr ht hu => rwa [ht]
    | deliver values hr ht hu | noValue hr ht hu => rw [ht]; exact List.mem_append_left _ h
  · cases he with
    | arrive packet hr ht hu =>
      right
      rw [hr, ht, hu, List.length_append, List.length_append, List.length_map]
      omega
    | deliver values hr ht hu =>
      right
      rw [hu] at h
      rw [hr, ht]
      simp only [List.length_append, List.length_map] at h ⊢
      omega
    | noValue hr ht hu => exact .inl (by simp [ht])
    | overwrite v hr ht hu =>
      right
      rw [hu, List.length_cons] at h
      rw [hr, ht]
      omega

theorem run_broken (hl : r.serial.isListening = true) (h : r.Broken) (calls : List Call) : (r.run calls).Broken := by
  induction calls generalizing r with
  | nil => exact h
  | cons c rest ih => exact ih ((step_listening c).trans hl) (step_broken (step_effect hl c) h)

theorem run_lossless_iff (hl : r.serial.isListening = true) (h : r.Lossless) (calls : List Call) :
    (r.run calls).Lossless ↔ SafeRun r calls := by
  induction calls generalizing r with
  | nil => exact ⟨fun _ => trivial,fun _ => h⟩
  | cons c rest ih =>
    have he := step_effect hl c
    have hl' := (step_listening c).trans hl
    cases hs : c.safe r.serial with
    | true =>
      rw [hs] at he
      rw [run, ih hl' (step_lossless he h), SafeRun, hs, and_iff_right rfl]
    | false =>
      rw [hs] at he
      have hbroken := run_broken hl' (step_breaks he h) rest
      exact ⟨fun hloss => absurd hloss hbroken.not_lossless,fun hsafe => absurd hsafe.1 (by simp [hs])⟩

end Session

/-- The input side is a lossless queue in a run exactly if every call of it is safe. -/
theorem usb_serial_lossless (baudRateBPS : UInt32) (hb : baudRateBPS ≠ 0) (calls : List Call) :
    ((Session.opened baudRateBPS).run calls).Lossless ↔ SafeRun (Session.opened baudRateBPS) calls :=
  Session.run_lossless_iff (by simp [Session.opened, UsbSerial.opened, UsbSerial.isListening, hb])
    (by unfold Session.Lossless; rfl) calls

theorem usb_serial_lossless_lookahead :
    ((Session.opened 9600).run [.receive [1, 2], .peek, .read, .available, .read]).Lossless :=
  (usb_serial_lossless 9600 (by decide) _).mpr (by
    refine ⟨rfl,rfl,rfl,rfl,rfl,trivial⟩)

/-- Two peeks in a row: the first byte is never read. -/
theorem usb_serial_loses :
    ¬ ∀ (baudRateBPS : UInt32), baudRateBPS ≠ 0 → ∀ calls : List Call,
      ((Session.opened baudRateBPS).run calls).Lossless := by
  intro h
  have hloss := h 9600 (by decide) [.receive [1, 2], .peek, .peek, .read]
  exact absurd hloss (by unfold Session.Lossless; decide)

end ArduinoAT90USB.Core
