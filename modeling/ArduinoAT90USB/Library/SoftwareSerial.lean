import ArduinoAT90USB.Core.RingBuffer
import ArduinoAT90USB.Foundation.Runs

/-! `SoftwareSerial`: any number of objects share one receive ring, which `listen` hands over.
What the calls return is what an inbox of the listening object would return, in which the
bytes are numbered in the order they arrived, unless `overflow` clears a flag that it has not seen set. -/
namespace ArduinoAT90USB.Library
open Core Foundation Foundation.Runs

private theorem ssMaxRxBuff_low : 2 ≤ 64 := by decide

private theorem ssMaxRxBuff_high : 64 ≤ 255 := by decide

def ssMaxRxBuff : BufferSize := ⟨64,ssMaxRxBuff_low,ssMaxRxBuff_high⟩

/-- The levels `recv` reads from the receive pin: at its start and once for each bit. -/
structure SerialFrame where
  start : Bool
  bits : Vector Bool 8

/-- The loop of `recv`, the mask `i` going through the bits from the lowest one on. -/
def sampleBits : List Bool → UInt8 → UInt8 → UInt8
  | [], _, d => d
  | level :: rest, i, d => sampleBits rest (i <<< 1) (if level then d ||| i else d &&& ~~~i)

/-- The byte of a frame, if there is a start bit. -/
def SerialFrame.byte (inverseLogic : Bool) (f : SerialFrame) : Option UInt8 :=
  if (if inverseLogic then f.start else !f.start) then
    let d := sampleBits f.bits.toList 1 0
    some (if inverseLogic then ~~~d else d)
  else none

/-- The static variables of the class, and the overflow flag of each object. `asking` is the object whose
`overflow` the program is in, with what was read from its flag. -/
structure SoftwareSerials (ι : Type) where
  activeObject : Option ι
  bufferOverflow : ι → Bool
  receiveBuffer : Nat → UInt8
  receiveBufferTail : UInt8
  receiveBufferHead : UInt8
  asking : Option (ι × Bool)

inductive SerialAction (ι : Type)
  | listen (x : ι)
  | read (x : ι)
  | peek (x : ι)
  | available (x : ι)
  | flush (x : ι)
  | overflow (x : ι)
  | endOverflow
  | interrupt (f : SerialFrame)

variable {ι : Type}

section Calls
variable [DecidableEq ι]

namespace SoftwareSerials

def init : SoftwareSerials ι := ⟨none,fun _ => false,fun _ => 0,0,0,none⟩

def isListening (s : SoftwareSerials ι) (x : ι) : Bool := s.activeObject = some x

def listen (s : SoftwareSerials ι) (x : ι) : SoftwareSerials ι × Bool :=
  if s.activeObject ≠ some x then
    ({s with
      bufferOverflow := Function.update s.bufferOverflow x false
      receiveBufferHead := 0
      receiveBufferTail := 0
      activeObject := some x},true)
  else (s,false)

def recv (s : SoftwareSerials ι) (x : ι) (d : UInt8) : SoftwareSerials ι :=
  if intNext ssMaxRxBuff s.receiveBufferTail ≠ s.receiveBufferHead then
    {s with
      receiveBuffer := Function.update s.receiveBuffer s.receiveBufferTail.toNat d
      receiveBufferTail := intNext ssMaxRxBuff s.receiveBufferTail}
  else {s with bufferOverflow := Function.update s.bufferOverflow x true}

def interrupt (inverseLogic : ι → Bool) (s : SoftwareSerials ι) (f : SerialFrame) : SoftwareSerials ι :=
  match s.activeObject with
  | none => s
  | some x => (f.byte (inverseLogic x)).elim s (s.recv x)

def read (s : SoftwareSerials ι) (x : ι) : SoftwareSerials ι × Int :=
  if ¬ s.isListening x then (s,-1)
  else if s.receiveBufferHead = s.receiveBufferTail then (s,-1)
  else
    ({s with receiveBufferHead := intNext ssMaxRxBuff s.receiveBufferHead},
      (s.receiveBuffer s.receiveBufferHead.toNat).toNat)

def available (s : SoftwareSerials ι) (x : ι) : Nat :=
  if ¬ s.isListening x then 0
  else (s.receiveBufferTail.toNat + ssMaxRxBuff.size - s.receiveBufferHead.toNat) % ssMaxRxBuff.size

def flush (s : SoftwareSerials ι) (x : ι) : SoftwareSerials ι :=
  if ¬ s.isListening x then s else {s with receiveBufferHead := 0, receiveBufferTail := 0}

def peek (s : SoftwareSerials ι) (x : ι) : Int :=
  if ¬ s.isListening x then -1
  else if s.receiveBufferHead = s.receiveBufferTail then -1
  else (s.receiveBuffer s.receiveBufferHead.toNat).toNat

/-- `overflow` reads the flag, with interrupts enabled. -/
def overflow (s : SoftwareSerials ι) (x : ι) : SoftwareSerials ι := {s with asking := some (x,s.bufferOverflow x)}

/-- It then clears the flag, and returns what it has read. -/
def endOverflow (s : SoftwareSerials ι) : SoftwareSerials ι := match s.asking with
  | none => s
  | some (x,_) => {s with bufferOverflow := Function.update s.bufferOverflow x false, asking := none}

/-- Within `overflow` no other call is made. -/
def called (s t : SoftwareSerials ι) : SoftwareSerials ι := if s.asking.isSome then s else t

def step (inverseLogic : ι → Bool) (s : SoftwareSerials ι) : SerialAction ι → SoftwareSerials ι
  | .listen x => s.called (s.listen x).1
  | .read x => s.called (s.read x).1
  | .peek _ | .available _ => s
  | .flush x => s.called (s.flush x)
  | .overflow x => s.called (s.overflow x)
  | .endOverflow => s.endOverflow
  | .interrupt f => s.interrupt inverseLogic f

end SoftwareSerials

/-- What the class is for. `arrived` are the bytes received for the listening object since it
last began to listen or was flushed, `taken` how many of them were read, and `dropped` says
for which objects a byte was dropped since they last began to listen, of which `overflow` has not told. -/
structure Inbox (ι : Type) where
  listening : Option ι
  arrived : List UInt8
  taken : Nat
  dropped : ι → Bool
  asking : Option (ι × Bool)

namespace Inbox

def init : Inbox ι := ⟨none,[],0,fun _ => false,none⟩

/-- A byte is dropped when `_SS_MAX_RX_BUFF - 1` are unread. -/
def arrive (g : Inbox ι) (x : ι) (d : UInt8) : Inbox ι :=
  if g.arrived.length - g.taken < 63 then {g with arrived := g.arrived ++ [d]}
  else {g with dropped := Function.update g.dropped x true}

def next (g : Inbox ι) (x : ι) : Int :=
  if g.listening = some x then (g.arrived[g.taken]?).elim (-1) fun d => d.toNat else -1

def unread (g : Inbox ι) (x : ι) : Nat := if g.listening = some x then g.arrived.length - g.taken else 0

def listen (g : Inbox ι) (x : ι) : Inbox ι :=
  if g.listening = some x then g
  else {g with listening := some x, arrived := [], taken := 0, dropped := Function.update g.dropped x false}

def read (g : Inbox ι) (x : ι) : Inbox ι :=
  if g.listening = some x ∧ g.taken < g.arrived.length then {g with taken := g.taken + 1} else g

def flush (g : Inbox ι) (x : ι) : Inbox ι :=
  if g.listening = some x then {g with arrived := [], taken := 0} else g

/-- The answer `true` tells of every byte dropped so far, the answer `false` of none. -/
def answer (g : Inbox ι) : Inbox ι := match g.asking with
  | none => g
  | some (x,told) =>
    {g with dropped := if told then Function.update g.dropped x false else g.dropped, asking := none}

def called (g h : Inbox ι) : Inbox ι := if g.asking.isSome then g else h

def step (inverseLogic : ι → Bool) (g : Inbox ι) : SerialAction ι → Inbox ι
  | .listen x => g.called (g.listen x)
  | .read x => g.called (g.read x)
  | .peek _ | .available _ => g
  | .flush x => g.called (g.flush x)
  | .overflow x => g.called {g with asking := some (x,g.dropped x)}
  | .endOverflow => g.answer
  | .interrupt f => g.listening.elim g fun x => (f.byte (inverseLogic x)).elim g (g.arrive x)

end Inbox
end Calls

namespace SoftwareSerials
variable {s : SoftwareSerials ι} {g : Inbox ι} {x : ι}

/-- The ring as the hardware driver has it, where bytes are put at the head. -/
def ring (s : SoftwareSerials ι) : RingBuffer := ⟨s.receiveBuffer,s.receiveBufferTail,s.receiveBufferHead⟩

/-- The ring holds the bytes of the inbox that are unread. -/
structure Holds (s : SoftwareSerials ι) (g : Inbox ι) : Prop where
  active : s.activeObject = g.listening
  flags : s.bufferOverflow = g.dropped
  asking : s.asking = g.asking
  bounded : s.ring.Bounded ssMaxRxBuff
  contents : s.ring.contents ssMaxRxBuff = g.arrived.drop g.taken
  taken : g.taken ≤ g.arrived.length

private theorem empty_contents {r : RingBuffer} (hh : r.head = 0) (ht : r.tail = 0) :
    r.Bounded ssMaxRxBuff ∧ r.contents ssMaxRxBuff = [] := by
  have hb : r.Bounded ssMaxRxBuff := ⟨by rw [hh]; decide,by rw [ht]; decide⟩
  exact ⟨hb,hb.contents_nil_iff.mpr (hh.trans ht.symm)⟩

private theorem init_holds : (init : SoftwareSerials ι).Holds .init := by
  obtain ⟨hb,hc⟩ := empty_contents (r := ⟨fun _ => 0,0,0⟩) rfl rfl
  exact ⟨rfl,rfl,rfl,hb,hc,Nat.le_refl 0⟩

private theorem empty_iff (h : s.Holds g) : s.receiveBufferHead = s.receiveBufferTail ↔ g.taken = g.arrived.length := by
  have hnil := h.bounded.contents_nil_iff
  rw [h.contents,List.drop_eq_nil_iff] at hnil
  have htaken := h.taken
  constructor
  · intro he
    have := hnil.mpr he.symm
    omega
  · intro he
    exact (hnil.mp (by omega)).symm

/-- Where something is left the byte at the head is the next one, and the ring after it holds the rest. -/
private theorem head_byte (h : s.Holds g) (hne : s.receiveBufferHead ≠ s.receiveBufferTail) :
    g.arrived[g.taken]? = some (s.receiveBuffer s.receiveBufferHead.toNat) ∧
      ({s with receiveBufferHead := intNext ssMaxRxBuff s.receiveBufferHead}).Holds {g with taken := g.taken + 1} := by
  have hnext := intNext_toNat (n := ssMaxRxBuff) h.bounded.tail
  have hpop := h.bounded.contents_release hnext (Ne.symm hne)
  have hlt : g.taken < g.arrived.length := Nat.lt_of_le_of_ne h.taken (mt (empty_iff h).mpr hne)
  rw [h.contents,List.drop_eq_getElem_cons hlt] at hpop
  obtain ⟨hbyte,hrest⟩ := List.cons.inj hpop
  refine ⟨?_,h.active,h.flags,h.asking,h.bounded.release hnext,hrest.symm,hlt⟩
  rw [List.getElem?_eq_getElem hlt,hbyte]
  rfl

private theorem called_holds {t : SoftwareSerials ι} {k : Inbox ι} (h : s.Holds g) (ht : t.Holds k) :
    (s.called t).Holds (g.called k) := by
  rw [called,Inbox.called,h.asking]
  split
  · exact h
  · exact ht

section Steps
variable [DecidableEq ι]

theorem isListening_iff (h : s.Holds g) : s.isListening x = true ↔ g.listening = some x := by
  rw [isListening,h.active,decide_eq_true_iff]

private theorem listen_holds (h : s.Holds g) (x : ι) : (s.listen x).1.Holds (g.listen x) := by
  rw [listen,Inbox.listen,h.active]
  by_cases hx : g.listening = some x
  · rw [if_neg (not_not_intro hx),if_pos hx]
    exact h
  · rw [if_pos hx,if_neg hx]
    obtain ⟨hb,hc⟩ := empty_contents (r := ⟨s.receiveBuffer,0,0⟩) rfl rfl
    exact ⟨rfl,by rw [h.flags],h.asking,hb,hc,Nat.le_refl 0⟩

private theorem flush_holds (h : s.Holds g) (x : ι) : (s.flush x).Holds (g.flush x) := by
  rw [flush,Inbox.flush]
  by_cases hx : g.listening = some x
  · rw [if_neg (not_not_intro ((isListening_iff h).mpr hx)),if_pos hx]
    obtain ⟨hb,hc⟩ := empty_contents (r := ⟨s.receiveBuffer,0,0⟩) rfl rfl
    exact ⟨h.active,h.flags,h.asking,hb,hc,Nat.le_refl 0⟩
  · rw [if_pos (mt (isListening_iff h).mp hx),if_neg hx]
    exact h

private theorem recv_holds (h : s.Holds g) (x : ι) (d : UInt8) : (s.recv x d).Holds (g.arrive x d) := by
  have hnext := intNext_toNat (n := ssMaxRxBuff) h.bounded.head
  have hfull := h.bounded.full_iff hnext
  have hlt := h.bounded.contents_length_lt
  rw [h.contents,List.length_drop] at hfull hlt
  change _ ↔ _ = 63 at hfull
  change _ < 64 at hlt
  rw [recv,Inbox.arrive]
  by_cases hroom : intNext ssMaxRxBuff s.receiveBufferTail = s.receiveBufferHead
  · rw [if_neg (not_not_intro hroom),if_neg (by have := hfull.mp hroom; omega)]
    exact ⟨h.active,by rw [h.flags],h.asking,h.bounded,h.contents,h.taken⟩
  · have hne : ¬ g.arrived.length - g.taken = 63 := fun he => hroom (hfull.mpr he)
    rw [if_pos hroom,if_pos (by omega)]
    have hstore : (s.ring.store d).Bounded ssMaxRxBuff := ⟨h.bounded.head,h.bounded.tail⟩
    refine ⟨h.active,h.flags,h.asking,hstore.publish hnext,?_,?_⟩
    · have hpub := hstore.contents_publish hnext hroom
      rw [h.bounded.contents_store] at hpub
      change _ = (g.arrived ++ [d]).drop g.taken
      rw [List.drop_append_of_le_length h.taken,← h.contents]
      refine hpub.trans (congrArg (s.ring.contents ssMaxRxBuff ++ [·]) ?_)
      exact Function.update_self ..
    · rw [List.length_append]
      exact Nat.le_add_right_of_le h.taken

private theorem interrupt_holds (h : s.Holds g) (inverseLogic : ι → Bool) (f : SerialFrame) :
    (s.interrupt inverseLogic f).Holds (g.step inverseLogic (.interrupt f)) := by
  rw [interrupt,Inbox.step,h.active]
  cases g.listening with
  | none => exact h
  | some x =>
    dsimp only [Option.elim]
    cases f.byte (inverseLogic x) with
    | none => exact h
    | some d => exact recv_holds h x d

private theorem read_holds (h : s.Holds g) (x : ι) : (s.read x).1.Holds (g.read x) ∧ (s.read x).2 = g.next x := by
  rw [read,Inbox.read,Inbox.next]
  by_cases hx : g.listening = some x
  · rw [if_neg (not_not_intro ((isListening_iff h).mpr hx)),if_pos hx]
    by_cases he : s.receiveBufferHead = s.receiveBufferTail
    · have htaken := (empty_iff h).mp he
      rw [if_pos he,if_neg (fun hlt => by omega),List.getElem?_eq_none (by omega)]
      exact ⟨h,rfl⟩
    · obtain ⟨hbyte,hrest⟩ := head_byte h he
      have hlt := (List.getElem?_eq_some_iff.mp hbyte).1
      rw [if_neg he,if_pos ⟨hx,hlt⟩,hbyte]
      exact ⟨hrest,rfl⟩
  · rw [if_pos (mt (isListening_iff h).mp hx),if_neg (fun hb => hx hb.1),if_neg hx]
    exact ⟨h,rfl⟩

private theorem peek_eq_read (s : SoftwareSerials ι) (x : ι) : s.peek x = (s.read x).2 := by
  rw [peek,read]
  split
  · rfl
  · split <;> rfl

private theorem available_eq (h : s.Holds g) (x : ι) : s.available x = g.unread x := by
  rw [available,Inbox.unread]
  by_cases hx : g.listening = some x
  · have hlen : (s.ring.contents ssMaxRxBuff).length = g.arrived.length - g.taken := by
      rw [h.contents,List.length_drop]
    rw [if_neg (not_not_intro ((isListening_iff h).mpr hx)),if_pos hx,← hlen,RingBuffer.contents,Ring.contents_length,
      Nat.add_comm]
    rfl
  · rw [if_pos (mt (isListening_iff h).mp hx),if_neg hx]

end Steps
end SoftwareSerials

section Runs
variable [DecidableEq ι]

/-- The class with its inbox, as the calls and the frames come. -/
def serialStep (inverseLogic : ι → Bool) (p : SoftwareSerials ι × Inbox ι) (a : SerialAction ι) :
    SoftwareSerials ι × Inbox ι := (p.1.step inverseLogic a,p.2.step inverseLogic a)

/-- If no byte had been dropped when `overflow` was called, none has been dropped before it clears the flag. -/
def Undisturbed (p : SoftwareSerials ι × Inbox ι) : SerialAction ι → Prop
  | .endOverflow => ∀ x, p.2.asking = some (x,false) → p.2.dropped x = false
  | _ => True

/-- Every object reads, sees and counts what the inbox has for it, and its flag says whether a byte was dropped. -/
structure InboxFaithful (p : SoftwareSerials ι × Inbox ι) : Prop where
  read : ∀ x, (p.1.read x).2 = p.2.next x
  peek : ∀ x, p.1.peek x = (p.1.read x).2
  available : ∀ x, p.1.available x = p.2.unread x
  overflow : ∀ x, p.1.bufferOverflow x = p.2.dropped x
  answer : p.1.asking = p.2.asking
  taken : p.2.taken ≤ p.2.arrived.length
  held : p.2.arrived.length - p.2.taken ≤ 63

variable {s : SoftwareSerials ι} {g : Inbox ι}

theorem SoftwareSerials.Holds.faithful (h : s.Holds g) : InboxFaithful (s,g) where
  read x := (read_holds h x).2
  peek := peek_eq_read s
  available := available_eq h
  overflow := congrFun h.flags
  answer := h.asking
  taken := h.taken
  held := by
    have hlt := h.bounded.contents_length_lt
    rw [h.contents,List.length_drop] at hlt
    exact Nat.le_of_lt_succ hlt

namespace SoftwareSerials

private theorem endOverflow_holds (h : s.Holds g) (hok : ∀ x, g.asking = some (x,false) → g.dropped x = false) :
    s.endOverflow.Holds g.answer := by
  rw [endOverflow,Inbox.answer,h.asking]
  cases hasking : g.asking with
  | none => exact h
  | some call =>
    obtain ⟨x,told⟩ := call
    refine ⟨h.active,?_,rfl,h.bounded,h.contents,h.taken⟩
    dsimp only
    rw [h.flags]
    cases told with
    | true => rfl
    | false => exact (congrArg _ (hok x hasking).symm).trans (Function.update_eq_self x _)

theorem Holds.step (h : s.Holds g) (inverseLogic : ι → Bool) (a : SerialAction ι) (hok : Undisturbed (s,g) a) :
    (s.step inverseLogic a).Holds (g.step inverseLogic a) := by
  cases a with
  | listen x => exact called_holds h (listen_holds h x)
  | read x => exact called_holds h (read_holds h x).1
  | peek x => exact h
  | available x => exact h
  | flush x => exact called_holds h (flush_holds h x)
  | overflow x =>
    apply called_holds h
    exact ⟨h.active,h.flags,congrArg (fun flags : ι → Bool => some (x,flags x)) h.flags,h.bounded,h.contents,h.taken⟩
  | endOverflow => exact endOverflow_holds h hok
  | interrupt f => exact interrupt_holds h inverseLogic f

/-- A byte that was dropped while `overflow` had found nothing is told of by no call. -/
theorem Holds.disturbed (h : s.Holds g) (inverseLogic : ι → Bool) {a : SerialAction ι} (hbad : ¬ Undisturbed (s,g) a) :
    ¬ InboxFaithful (serialStep inverseLogic (s,g) a) := by
  cases a with
  | endOverflow =>
    simp only [Undisturbed,not_forall] at hbad
    obtain ⟨x,hasking,hset⟩ := hbad
    intro hfaithful
    have hflag := hfaithful.overflow x
    simp only [serialStep,SoftwareSerials.step,Inbox.step,endOverflow,Inbox.answer,h.asking,hasking] at hflag
    rw [Function.update_self,if_neg Bool.false_ne_true] at hflag
    exact hset hflag.symm
  | _ => exact absurd trivial hbad

end SoftwareSerials

/-- After any calls on any objects and any frames received, the class does what the inbox says, in every run in
which no byte is dropped between the two halves of an `overflow` that tells of none, and in no other. -/
theorem softwareSerial_inbox (inverseLogic : ι → Bool) (actions : List (SerialAction ι)) :
    Always (serialStep inverseLogic) InboxFaithful (.init,.init) actions ↔
      Admits (serialStep inverseLogic) Undisturbed (.init,.init) actions := by
  refine always_iff_admits (I := fun p => p.1.Holds p.2) ?_ ?_ ?_ SoftwareSerials.init_holds actions
  · intro p a h hok
    exact h.step inverseLogic a hok
  · intro p h
    exact h.faithful
  · intro p a h hbad
    exact h.disturbed inverseLogic hbad

/-- The byte zero, after a start bit. -/
def zeroFrame : SerialFrame := ⟨false,Vector.replicate 8 false⟩

/-- The 64th byte comes while `overflow` is between reading the flag and clearing it. -/
def unseenDrop : List (SerialAction Unit) :=
  .listen () :: (List.replicate 63 (.interrupt zeroFrame) ++ [.overflow (),.interrupt zeroFrame,.endOverflow])

private theorem unseenDrop_flags : (unseenDrop.foldl (serialStep fun _ => false) (.init,.init)).1.bufferOverflow () = false ∧
    (unseenDrop.foldl (serialStep fun _ => false) (.init,.init)).2.dropped () = true := by
  decide +kernel

/-- The call has read `false`, and so will the next one, though a byte was dropped. -/
theorem overflow_clears_unseen : ¬ Always (serialStep fun _ => false) InboxFaithful (.init,.init) unseenDrop ∧
    (unseenDrop.foldl (serialStep fun _ => false) (.init,.init)).2.dropped () = true ∧
    ((unseenDrop ++ [SerialAction.overflow ()]).foldl (serialStep fun _ => false) (.init,.init)).1.asking = some ((),false) := by
  refine ⟨?_,unseenDrop_flags.2,by decide +kernel⟩
  intro hall
  have hflag := hall.last.overflow ()
  rw [unseenDrop_flags.1,unseenDrop_flags.2] at hflag
  cases hflag

end Runs
end ArduinoAT90USB.Library
