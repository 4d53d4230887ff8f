import ArduinoAT90USB.Core.RingBuffer

/-! The receive path of `HardwareSerial.cpp`. The receive interrupt runs to completion
between any two steps of `read` and `peek`; the bytes a call sees are those that are
unread when it loads the head. -/
namespace ArduinoAT90USB.Core
open Foundation

/-- `store_char` takes the byte unless the head would run into the tail. -/
def RingBuffer.storeChar (n : BufferSize) (c : UInt8) (b : RingBuffer) : RingBuffer :=
  let i := castNext n b.head
  if i ≠ b.tail then {b.store c with head := i} else b

inductive Method
  | read
  | peek
deriving DecidableEq

/-- A call that has returned: its value, and the bytes that were unread when it loaded the head. -/
structure Answer where
  method : Method
  value : Int
  queue : List UInt8

/-- Where the program is inside `read` or `peek`. -/
inductive ReceivePc
  | idle
  | entered (m : Method)
  | loaded (m : Method) (head : UInt8) (queue : List UInt8)
  | nonEmpty (m : Method) (queue : List UInt8)
  | fetched (c : UInt8) (queue : List UInt8)

/-- The buffer and the program, with the bytes accepted so far, the calls answered (newest
first) and the buffer indices used. -/
structure Receiver where
  rxBuffer : RingBuffer
  pc : ReceivePc
  accepted : List UInt8
  answers : List Answer
  used : List Nat

inductive ReceiveStep
  | interrupt (c : UInt8) (parityError : Bool)
  | call (m : Method)
  | proceed

namespace Receiver

def initial : Receiver := ⟨.empty,.idle,[],[],[]⟩

/-- `SIGNAL(USART1_RX_vect)`: a byte with a parity error is discarded. -/
def interrupt (n : BufferSize) (c : UInt8) (parityError : Bool) (s : Receiver) : Receiver :=
  if parityError then s
  else if castNext n s.rxBuffer.head ≠ s.rxBuffer.tail then
    {s with
      rxBuffer := s.rxBuffer.storeChar n c
      accepted := s.accepted ++ [c]
      used := s.rxBuffer.head.toNat :: s.used}
  else {s with rxBuffer := s.rxBuffer.storeChar n c}

def proceed (n : BufferSize) (s : Receiver) : Receiver :=
  let c := s.rxBuffer.buffer s.rxBuffer.tail.toNat
  match s.pc with
  | .idle => s
  | .entered m => {s with pc := .loaded m s.rxBuffer.head (s.rxBuffer.contents n)}
  -- only the program moves the tail, so it may be read after the head
  | .loaded m head queue =>
    if head = s.rxBuffer.tail then {s with pc := .idle, answers := ⟨m,-1,queue⟩ :: s.answers}
    else {s with pc := .nonEmpty m queue}
  | .nonEmpty .peek queue =>
    {s with pc := .idle, answers := ⟨.peek,c.toNat,queue⟩ :: s.answers, used := s.rxBuffer.tail.toNat :: s.used}
  | .nonEmpty .read queue => {s with pc := .fetched c queue, used := s.rxBuffer.tail.toNat :: s.used}
  | .fetched c queue =>
    {s with
      pc := .idle
      rxBuffer := {s.rxBuffer with tail := castNext n s.rxBuffer.tail}
      answers := ⟨.read,c.toNat,queue⟩ :: s.answers}

def step (n : BufferSize) (s : Receiver) : ReceiveStep → Receiver
  | .interrupt c parityError => s.interrupt n c parityError
  | .call m => match s.pc with
    | .idle => {s with pc := .entered m}
    | _ => s
  | .proceed => s.proceed n

def run (n : BufferSize) (s : Receiver) : List ReceiveStep → Receiver
  | [] => s
  | a :: rest => (s.step n a).run n rest

/-- One call of `read` that finds a byte, from entry to return. -/
def readCall : List ReceiveStep := [.call .read,.proceed,.proceed,.proceed,.proceed]

end Receiver

/-- The value a call has to return for the bytes it sees. -/
def front : List UInt8 → Int
  | [] => -1
  | c :: _ => c.toNat

namespace Answer

def rest (a : Answer) : List UInt8 := match a.method with
  | .read => a.queue.tail
  | .peek => a.queue

/-- The byte the call delivers for good. -/
def taken (a : Answer) : List Int := if a.method = .read ∧ a.value ≠ -1 then [a.value] else []

end Answer

def delivered : List Answer → List Int
  | [] => []
  | a :: older => delivered older ++ a.taken

/-- The calls were answered by a queue: each returns the front of what it sees, and what it
leaves unread, with any bytes that arrived since, is what the next one sees. -/
inductive History : List Answer → List UInt8 → Prop
  | start (queue : List UInt8) : History [] queue
  | answer {a : Answer} {older : List Answer} {queue : List UInt8} (before : History older a.queue)
      (value : a.value = front a.queue) (left : a.rest <+: queue) : History (a :: older) queue

section Queue
variable {answers older : List Answer} {a p : Answer} {queue more : List UInt8}

private theorem front_eq_of_isPrefix (h : queue <+: more) (hne : queue ≠ []) : front more = front queue := by
  obtain ⟨t,rfl⟩ := h
  cases queue with
  | nil => exact absurd rfl hne
  | cons c cs => rfl

private theorem front_eq_neg_one : front queue = -1 ↔ queue = [] := by
  cases queue with
  | nil => simp [front]
  | cons c cs => simp only [front, reduceCtorEq]

theorem History.mono (h : History answers queue) (hmore : queue <+: more) : History answers more := by
  cases h with
  | start => exact .start more
  | answer before value left => exact .answer before value (left.trans hmore)

theorem History.value_eq (h : History answers queue) (ha : a ∈ answers) : a.value = front a.queue := by
  induction h with
  | start => cases ha
  | answer before value _ ih =>
    rcases List.mem_cons.mp ha with rfl | ha
    · exact value
    · exact ih ha

theorem History.at_answer {newer : List Answer} (h : History (newer ++ a :: older) queue) :
    History older a.queue ∧ a.value = front a.queue := by
  induction newer generalizing queue with
  | nil =>
    cases h with
    | answer before value _ => exact ⟨before,value⟩
  | cons b newer ih =>
    cases h with
    | answer before _ _ => exact ih before

/-- Nothing a peek has seen is gone while only peeks follow. -/
theorem History.still_there {mid : List Answer} (hmid : ∀ m ∈ mid, m.method = .peek) (hp : p.method = .peek)
    (h : History (mid ++ p :: older) queue) : p.queue <+: queue := by
  induction mid generalizing queue with
  | nil =>
    cases h with
    | answer _ _ left => simpa only [Answer.rest, hp] using left
  | cons m mid ih =>
    cases h with
    | answer before _ left =>
      have hm := hmid m List.mem_cons_self
      simp only [Answer.rest, hm] at left
      exact (ih (fun b hb => hmid b (List.mem_cons_of_mem _ hb)) before).trans left

theorem History.peek_read {newer mid : List Answer} (h : History (newer ++ a :: (mid ++ p :: older)) queue)
    (hp : p.method = .peek) (hmid : ∀ m ∈ mid, m.method = .peek) (hne : p.value ≠ -1) : a.value = p.value := by
  obtain ⟨hbefore,hvalue⟩ := h.at_answer
  have hpvalue := hbefore.at_answer.2
  have hseen : p.queue ≠ [] := by
    intro hnil
    exact hne (hpvalue.trans (front_eq_neg_one.mpr hnil))
  rw [hvalue, hpvalue]
  exact front_eq_of_isPrefix (hbefore.still_there hmid hp) hseen

end Queue

/-- What the program knows of the buffer at each point of a call. -/
def ReceivePc.Sees (n : BufferSize) (b : RingBuffer) (answers : List Answer) : ReceivePc → Prop
  | .idle | .entered _ => History answers (b.contents n)
  | .loaded _ head queue =>
    (History answers queue ∧ queue <+: b.contents n) ∧ (head = b.tail ↔ queue = [])
  | .nonEmpty _ queue => (History answers queue ∧ queue <+: b.contents n) ∧ queue ≠ []
  | .fetched c queue => (History answers queue ∧ queue <+: b.contents n) ∧ queue.head? = some c

/-- Every accepted byte is either delivered or still in the buffer. -/
structure Receiver.Sound (n : BufferSize) (s : Receiver) : Prop where
  bounded : s.rxBuffer.Bounded n
  account : s.accepted.map (fun c => (c.toNat : Int)) =
    delivered s.answers ++ (s.rxBuffer.contents n).map fun c => (c.toNat : Int)
  sees : s.pc.Sees n s.rxBuffer s.answers
  indices : ∀ i ∈ s.used, i < n.size

section Steps
variable {n : BufferSize} {s : Receiver} {b b' : RingBuffer} {answers : List Answer} {pc : ReceivePc}

/-- Arriving bytes do not disturb a call in progress. -/
private theorem sees_of_grows (ht : b'.tail = b.tail) (hc : b.contents n <+: b'.contents n)
    (h : pc.Sees n b answers) : pc.Sees n b' answers := by
  cases pc with
  | idle => exact History.mono h hc
  | entered => exact History.mono h hc
  | loaded m head queue => exact ⟨⟨h.1.1,h.1.2.trans hc⟩,by rw [ht]; exact h.2⟩
  | nonEmpty m queue => exact ⟨⟨h.1.1,h.1.2.trans hc⟩,h.2⟩
  | fetched c queue => exact ⟨⟨h.1.1,h.1.2.trans hc⟩,h.2⟩

private theorem storeChar_spec (h : b.Bounded n) (hne : castNext n b.head ≠ b.tail) (c : UInt8) :
    (b.storeChar n c).Bounded n ∧ (b.storeChar n c).tail = b.tail ∧
      (b.storeChar n c).contents n = b.contents n ++ [c] := by
  have hi := castNext_toNat h.head
  have hb : (b.store c).Bounded n := ⟨h.head,h.tail⟩
  rw [RingBuffer.storeChar, if_pos hne]
  refine ⟨hb.publish hi,rfl,?_⟩
  rw [hb.contents_publish hi hne, h.contents_store]
  simp [RingBuffer.store]

private theorem head?_of_sees {queue : List UInt8} (h : b.Bounded n) (hq : queue <+: b.contents n) (hne : queue ≠ []) :
    queue.head? = some (b.buffer b.tail.toNat) := by
  have hnil : b.contents n ≠ [] := fun he => hne (List.prefix_nil.mp (he ▸ hq))
  have hht := mt h.contents_nil_iff.mpr hnil
  obtain ⟨t,ht⟩ := hq
  rw [h.contents_release (castNext_toNat h.tail) hht] at ht
  cases queue with
  | nil => exact absurd rfl hne
  | cons c cs => exact congrArg some (List.cons.inj ht).1

theorem Receiver.initial_sound (n : BufferSize) : Receiver.initial.Sound n where
  bounded := RingBuffer.empty_bounded n
  account := by
    change [] = [] ++ (RingBuffer.empty.contents n).map _
    rw [RingBuffer.contents_empty]
    rfl
  sees := .start _
  indices := by
    intro i hi
    cases hi

private theorem interrupt_full (hne : castNext n s.rxBuffer.head = s.rxBuffer.tail) (c : UInt8) (e : Bool) :
    s.interrupt n c e = s := by
  simp [Receiver.interrupt, RingBuffer.storeChar, hne]

theorem Receiver.Sound.interrupt (h : s.Sound n) (c : UInt8) (e : Bool) : (s.interrupt n c e).Sound n := by
  by_cases hfull : castNext n s.rxBuffer.head = s.rxBuffer.tail
  · rwa [interrupt_full hfull]
  cases e with
  | true => exact h
  | false =>
    obtain ⟨hb,ht,hc⟩ := storeChar_spec h.bounded hfull c
    rw [Receiver.interrupt, if_neg Bool.false_ne_true, if_pos hfull]
    refine ⟨hb,?_,sees_of_grows ht ⟨[c],hc.symm⟩ h.sees,?_⟩
    · simp only [hc, List.map_append, h.account, List.append_assoc]
    · exact List.forall_mem_cons.mpr ⟨h.bounded.head,h.indices⟩

private theorem value_of_head? {queue : List UInt8} {c : UInt8} (h : queue.head? = some c) : (c.toNat : Int) = front queue := by
  obtain ⟨cs,rfl⟩ := List.head?_eq_some_iff.mp h
  rfl

private theorem sound_read {queue : List UInt8} {c : UInt8} (h : s.Sound n) (hpc : s.pc = .fetched c queue) :
    (s.proceed n).Sound n := by
  have hs := h.sees
  rw [hpc] at hs
  obtain ⟨⟨hist,hq⟩,hc⟩ := hs
  have hi := castNext_toNat h.bounded.tail
  have hne : queue ≠ [] := by
    rintro rfl
    cases hc
  have hht : s.rxBuffer.head ≠ s.rxBuffer.tail :=
    mt h.bounded.contents_nil_iff.mpr fun he => hne (List.prefix_nil.mp (he ▸ hq))
  have hcell := head?_of_sees h.bounded hq hne
  have hpop := h.bounded.contents_release hi hht
  rw [← Option.some.inj (hc.symm.trans hcell)] at hpop
  rw [Receiver.proceed, hpc]
  refine ⟨h.bounded.release hi,?_,.answer hist (value_of_head? hc) ?_,h.indices⟩
  · rw [h.account, hpop]
    simp [delivered, Answer.taken]
  · obtain ⟨cs,rfl⟩ := List.head?_eq_some_iff.mp hc
    rw [hpop] at hq
    exact (List.cons_prefix_cons.mp hq).2

theorem Receiver.Sound.proceed (h : s.Sound n) : (s.proceed n).Sound n := by
  have hs := h.sees
  cases hpc : s.pc with
  | idle => rwa [Receiver.proceed, hpc]
  | entered m =>
    rw [hpc] at hs
    rw [Receiver.proceed, hpc]
    exact ⟨h.bounded,h.account,⟨⟨hs,List.prefix_rfl⟩,h.bounded.contents_nil_iff.symm⟩,h.indices⟩
  | loaded m head queue =>
    rw [hpc] at hs
    obtain ⟨⟨hist,hq⟩,hempty⟩ := hs
    rw [Receiver.proceed, hpc]
    dsimp only
    split_ifs with he
    · obtain rfl := hempty.mp he
      refine ⟨h.bounded,?_,.answer hist rfl ?_,h.indices⟩
      · simpa [delivered, Answer.taken] using h.account
      · cases m <;> exact List.nil_prefix
    · exact ⟨h.bounded,h.account,⟨⟨hist,hq⟩,mt hempty.mpr he⟩,h.indices⟩
  | nonEmpty m queue =>
    rw [hpc] at hs
    obtain ⟨⟨hist,hq⟩,hne⟩ := hs
    have hc := head?_of_sees h.bounded hq hne
    have hused : ∀ i ∈ s.rxBuffer.tail.toNat :: s.used, i < n.size :=
      List.forall_mem_cons.mpr ⟨h.bounded.tail,h.indices⟩
    cases m with
    | read =>
      rw [Receiver.proceed, hpc]
      exact ⟨h.bounded,h.account,⟨⟨hist,hq⟩,hc⟩,hused⟩
    | peek =>
      rw [Receiver.proceed, hpc]
      refine ⟨h.bounded,?_,.answer hist (value_of_head? hc) hq,hused⟩
      simpa [delivered, Answer.taken] using h.account
  | fetched c queue => exact sound_read h hpc

theorem Receiver.Sound.step (h : s.Sound n) (a : ReceiveStep) : (s.step n a).Sound n := by
  cases a with
  | interrupt c e => exact h.interrupt c e
  | proceed => exact h.proceed
  | call m =>
    rw [Receiver.step]
    split
    · rename_i hpc
      have hs := h.sees
      rw [hpc] at hs
      exact ⟨h.bounded,h.account,hs,h.indices⟩
    · exact h

theorem Receiver.Sound.run (h : s.Sound n) (steps : List ReceiveStep) : (s.run n steps).Sound n := by
  induction steps generalizing s with
  | nil => exact h
  | cons a rest ih => exact ih (h.step a)

theorem Receiver.Sound.history (h : s.Sound n) : ∃ queue, History s.answers queue := by
  have hs := h.sees
  cases hpc : s.pc with
  | idle => exact ⟨_,hpc ▸ hs⟩
  | entered m => exact ⟨_,hpc ▸ hs⟩
  | loaded m head queue => exact ⟨queue,(hpc ▸ hs).1.1⟩
  | nonEmpty m queue => exact ⟨queue,(hpc ▸ hs).1.1⟩
  | fetched c queue => exact ⟨queue,(hpc ▸ hs).1.1⟩

private theorem run_readCall (hpc : s.pc = .idle) (hne : s.rxBuffer.head ≠ s.rxBuffer.tail) (steps : List ReceiveStep) :
    s.run n (Receiver.readCall ++ steps) =
      ({s with
        rxBuffer := {s.rxBuffer with tail := castNext n s.rxBuffer.tail}
        answers := ⟨.read,(s.rxBuffer.buffer s.rxBuffer.tail.toNat).toNat,s.rxBuffer.contents n⟩ :: s.answers
        used := s.rxBuffer.tail.toNat :: s.used} : Receiver).run n steps := by
  simp [Receiver.readCall, Receiver.run, Receiver.step, Receiver.proceed, hpc, hne]

theorem Receiver.Sound.drain (h : s.Sound n) (hpc : s.pc = .idle) :
    delivered (s.run n (List.replicate (s.rxBuffer.contents n).length readCall).flatten).answers =
      s.accepted.map fun c => (c.toNat : Int) := by
  induction hq : s.rxBuffer.contents n generalizing s with
  | nil =>
    rw [h.account, hq]
    exact (List.append_nil _).symm
  | cons c queue ih =>
    have hne : s.rxBuffer.head ≠ s.rxBuffer.tail := by
      rw [← h.bounded.contents_nil_iff.ne, hq]
      exact List.cons_ne_nil c queue
    have hpop := h.bounded.contents_release (castNext_toNat h.bounded.tail) hne
    rw [hq] at hpop
    have hnext := h.run readCall
    rw [← List.append_nil readCall, run_readCall hpc hne] at hnext
    rw [List.length_cons, List.replicate_succ, List.flatten_cons, run_readCall hpc hne]
    exact ih hnext hpc (List.cons.inj hpop).2.symm

end Steps

/-- The receive path is a queue of `n - 1` bytes. -/
structure ReceiveFifo (n : BufferSize) (s : Receiver) : Prop where
  /-- Every accepted byte is delivered once, in order of arrival, or is still unread. -/
  account : s.accepted.map (fun c => (c.toNat : Int)) =
    delivered s.answers ++ (s.rxBuffer.contents n).map fun c => (c.toNat : Int)
  drains : s.pc = .idle →
    delivered (s.run n (List.replicate (s.rxBuffer.contents n).length Receiver.readCall).flatten).answers =
      s.accepted.map fun c => (c.toNat : Int)
  capacity : (s.rxBuffer.contents n).length ≤ n.size - 1
  dropped : (s.rxBuffer.contents n).length = n.size - 1 → ∀ c e, s.step n (.interrupt c e) = s
  taken : (s.rxBuffer.contents n).length < n.size - 1 → ∀ c,
    (s.step n (.interrupt c false)).accepted = s.accepted ++ [c] ∧
      (s.step n (.interrupt c false)).rxBuffer.contents n = s.rxBuffer.contents n ++ [c]
  /-- A call returns the front of what it sees, and `-1` just when that is empty. -/
  answers : ∀ a ∈ s.answers, a.value = front a.queue ∧ (a.value = -1 ↔ a.queue = [])
  peek : ∀ newer r mid p older, s.answers = newer ++ r :: (mid ++ p :: older) → r.method = .read →
    (∀ m ∈ mid, m.method = .peek) → p.method = .peek → p.value ≠ -1 → r.value = p.value
  indices : ∀ i ∈ s.used, i < n.size

theorem receive_fifo (n : BufferSize) (steps : List ReceiveStep) : ReceiveFifo n (Receiver.initial.run n steps) := by
  have h := (Receiver.initial_sound n).run steps
  generalize Receiver.initial.run n steps = s at h
  have hfull := h.bounded.full_iff (castNext_toNat h.bounded.head)
  obtain ⟨queue,hist⟩ := h.history
  refine ⟨h.account,h.drain,Nat.le_sub_one_of_lt h.bounded.contents_length_lt,?_,?_,?_,?_,h.indices⟩
  · intro hlen c e
    exact interrupt_full (hfull.mpr hlen) c e
  · intro hlen c
    have hne := mt hfull.mp (Nat.ne_of_lt hlen)
    obtain ⟨-,-,hc⟩ := storeChar_spec h.bounded hne c
    rw [Receiver.step, Receiver.interrupt, if_neg Bool.false_ne_true, if_pos hne]
    exact ⟨rfl,hc⟩
  · intro a ha
    have hvalue := hist.value_eq ha
    exact ⟨hvalue,hvalue ▸ front_eq_neg_one⟩
  · intro newer r mid p older heq _ hmid hp hne
    rw [heq] at hist
    exact hist.peek_read hp hmid hne

end ArduinoAT90USB.Core
