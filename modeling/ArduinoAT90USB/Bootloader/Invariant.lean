import ArduinoAT90USB.Bootloader.Task

/-! What a command can do, said once: an invariant respected by the primitives is
respected by the dispatcher. The commands that program a memory are kept apart, and among
them those that replace whole pages, `'e'`, `'B'` and `'m'`. -/
namespace ArduinoAT90USB.Bootloader
open Foundation Foundation.TaskLogic

/-- Accesses to a memory, as opposed to traffic with the host. -/
def Event.isAccess : Event → Bool
  | .fetch _ | .respond _ => false
  | _ => true

/-- Accesses that pass data on to a memory or to the lock bits, or replace a page. -/
def Event.programs : Event → Bool
  | .erase _ | .fill _ _ | .write _ | .eepromWrite _ _ | .lockBitsSet _ => true
  | _ => false

/-- The page whose contents the access replaces. -/
def Event.page? : Event → Option UInt32
  | .erase a | .write a => some a
  | _ => none

theorem access_of_programs {e : Event} (h : e.programs = true) : e.isAccess = true := by
  cases e <;> first | rfl | cases h

theorem page_of_programs {e : Event} (h : e.programs = false) : e.page? = none := by
  cases e <;> first | rfl | cases h

/-- The change leaves the application section as readable as it was. -/
def KeepsSection (f : Device → Device) : Prop := ∀ d, (f d).rwwBusy = d.rwwBusy

/-- Respected by traffic with the host, by assignments and by reads of the EEPROM. -/
structure Traffic (I W : Boot → Prop) : Prop where
  fetch : Keeps I W fetchNextCommandByte
  respond : ∀ b, Keeps I W (writeNextResponseByte b)
  assign : ∀ f, KeepsSection f → Keeps I W (assign f)
  eepromRead : ∀ p, Keeps I W (eepromReadByte p)

/-- Respected by every primitive that programs nothing. -/
structure Passive (I W : Boot → Prop) : Prop where
  fetch : Keeps I W fetchNextCommandByte
  respond : ∀ b, Keeps I W (writeNextResponseByte b)
  assign : ∀ f, KeepsSection f → Keeps I W (assign f)
  rwwEnable : Keeps I W bootRwwEnable
  observe : ∀ {α : Type} (e : Device → Event) (f : Device → α),
    (∀ d, (e d).isAccess = true ∧ (e d).programs = false) → Keeps I W (observe e f)

/-- Respected by every primitive that replaces no page. -/
structure Closed (I W : Boot → Prop) : Prop extends Passive I W where
  perform : ∀ e f, e.isAccess = true → e.page? = none → KeepsSection f → Keeps I W (Bootloader.perform e f)

/-- A fetch followed by anything: it takes the next byte if there is one, reads 0 if the
host has left, and waits otherwise. -/
theorem ends_fetch {α : Type} {I W : Boot → Prop} {k : UInt8 → Task α} {s : Boot}
    (hok : ∀ t : Boot, t.dev = s.dev → t.usb.out.flatten = s.usb.out.flatten.tail →
      t.log = .fetch s.usb.out.flatten.head? :: s.log →
      (s.usb.out.flatten = [] → s.usb.fuse ≠ none) → (t.usb.fuse = none ↔ s.usb.fuse = none) →
      Ends I W (k (s.usb.out.flatten.head?.getD 0) t))
    (hwait : ∀ t : Boot, t.dev = s.dev → t.log = s.log → s.usb.out.flatten = [] → s.usb.fuse = none → W t) :
    Ends I W ((fetchNextCommandByte >>= k) s) := by
  cases hf : s.usb.out.flatten with
  | nil =>
    have hnext := (PacketQueue.next_eq_none _).mpr hf
    rw [hf] at hok hwait
    cases hfuse : s.usb.fuse with
    | none =>
      rw [bind_error (fetch_waits hnext hfuse)]
      exact hwait _ rfl rfl rfl hfuse
    | some n =>
      rw [bind_ok (fetch_unattached hnext hfuse)]
      exact hok _ rfl rfl rfl (by simp [hfuse]) (by simp [hfuse])
  | cons b rest =>
    obtain ⟨left,_,hl,hn⟩ := PacketQueue.next_cons hf
    rw [hf] at hok
    rw [bind_ok (fetch_byte hn)]
    exact hok _ rfl hl rfl (by simp) Iff.rfl

/-- The header of a block has not arrived or names no memory. -/
def BadHeader (bytes : List UInt8) : Prop :=
  ∀ high low t payload, bytes = high :: low :: t :: payload → t ≠ 'E'.toUInt8 ∧ t ≠ 'F'.toUInt8

/-- The header of a block. It is refused unless all three bytes have arrived and name
a memory; a host that leaves before is read as memory type 0. -/
theorem ends_block {Q : List Event → Prop} (hQ : ∀ b log, Q log → Q (.fetch b :: log)) {I W : Boot → Prop}
    {s : Boot} {command : UInt8} (hs : Q s.log)
    (hwait : BadHeader s.usb.out.flatten → s.usb.fuse = none → ∀ t : Boot, Q t.log → t.dev = s.dev → W t)
    (hrefuse : BadHeader s.usb.out.flatten → ∀ t : Boot, Q t.log → t.dev = s.dev →
      Ends I W (writeNextResponseByte '?'.toUInt8 t))
    (hrun : ∀ high low t payload u, s.usb.out.flatten = high :: low :: t :: payload →
      ¬ (t ≠ 'E'.toUInt8 ∧ t ≠ 'F'.toUInt8) → Q u.log → u.dev = s.dev → u.usb.out.flatten = payload →
      (u.usb.fuse = none ↔ s.usb.fuse = none) →
      Ends I W ((if command = 'g'.toUInt8 then
          readBlock (AvrInt.toUInt16 (AvrInt.promote high <<< 8 ||| AvrInt.promote low)) t
        else writeBlock (AvrInt.toUInt16 (AvrInt.promote high <<< 8 ||| AvrInt.promote low)) t) u)) :
    Ends I W (readWriteMemoryBlock command s) := by
  have hshort {bytes : List UInt8} (h : bytes.tail.tail = []) : BadHeader bytes := by
    rintro high low t payload rfl
    cases h
  refine ends_fetch (fun t₁ hd₁ hf₁ hl₁ _ hu₁ => ?_) fun t hd hl hf hn =>
    hwait (hshort (by rw [hf]; rfl)) hn t (by rw [hl]; exact hs) hd
  have h₁ : Q t₁.log := by rw [hl₁]; exact hQ _ _ hs
  refine ends_fetch (fun t₂ hd₂ hf₂ hl₂ _ hu₂ => ?_) fun t hd hl hf hn => ?_
  rotate_left
  · rw [hf₁] at hf
    refine hwait (hshort ?_) (hu₁.mp hn) t (by rw [hl]; exact h₁) (hd.trans hd₁)
    rw [hf]
    rfl
  have h₂ : Q t₂.log := by rw [hl₂]; exact hQ _ _ h₁
  refine ends_fetch (fun t₃ hd₃ hf₃ hl₃ _ hu₃ => ?_) fun t hd hl hf hn => ?_
  rotate_left
  · rw [hf₂, hf₁] at hf
    exact hwait (hshort hf) (hu₁.mp (hu₂.mp hn)) t (by rw [hl]; exact h₂) (hd.trans (hd₂.trans hd₁))
  have h₃ : Q t₃.log := by rw [hl₃]; exact hQ _ _ h₂
  have hd : t₃.dev = s.dev := by rw [hd₃, hd₂, hd₁]
  rw [hf₂, hf₁] at hf₃ ⊢
  match hbytes : s.usb.out.flatten with
  | high :: low :: t :: payload =>
    rw [hbytes] at hf₃
    by_cases ht : t ≠ 'E'.toUInt8 ∧ t ≠ 'F'.toUInt8
    · refine (congrArg (fun m : Task Unit => Ends I W (m t₃)) (if_pos ht)).mpr (hrefuse ?_ t₃ h₃ hd)
      intro high' low' t' payload' he
      rw [hbytes] at he
      cases he
      exact ht
    · refine (congrArg (fun m : Task Unit => Ends I W (m t₃)) (if_neg ht)).mpr ?_
      exact hrun high low t payload t₃ hbytes ht h₃ hd hf₃ (by rw [hu₃, hu₂, hu₁])
  | [] | [_] | [_, _] => exact hrefuse (hshort (by rw [hbytes]; rfl)) t₃ h₃ hd

theorem keeps_getDevice {I W : Boot → Prop} : Keeps I W getDevice := ⟨fun _ h => h⟩

namespace Traffic
variable {I W : Boot → Prop} (h : Traffic I W)
include h

theorem respondAll (bytes : List UInt8) : Keeps I W (respondAll bytes) :=
  keeps_forM bytes _ fun b _ => h.respond b

theorem advanceIf (highByte : Bool) : Keeps I W (advanceIf highByte) :=
  keeps_ite (fun _ => h.assign _ fun _ => rfl) fun _ => keeps_pure _

theorem readEepromLoop (n : Nat) : Keeps I W (readEepromLoop n) := by
  induction n with
  | zero => exact keeps_pure _
  | succ n ih =>
    refine keeps_bind keeps_getDevice fun d => keeps_bind (h.eepromRead _) fun b => ?_
    exact keeps_seq (h.respond b) (keeps_seq (h.assign _ fun _ => rfl) ih)

theorem readWriteMemoryBlock (command : UInt8)
    (hr : command = 'g'.toUInt8 → ∀ blockSize memoryType, Keeps I W (readBlock blockSize memoryType))
    (hw : command ≠ 'g'.toUInt8 → ∀ blockSize memoryType, Keeps I W (writeBlock blockSize memoryType)) :
    Keeps I W (readWriteMemoryBlock command) := by
  refine keeps_bind h.fetch fun high => keeps_bind h.fetch fun low => keeps_bind h.fetch fun t => ?_
  refine keeps_ite (fun _ => h.respond _) fun _ => ?_
  exact keeps_ite (fun hg => hr hg _ _) fun hg => hw hg _ _

theorem setAddress : Keeps I W setAddress := by
  refine keeps_bind h.fetch fun high => keeps_seq (h.assign _ fun _ => rfl) ?_
  refine keeps_bind h.fetch fun low => keeps_bind keeps_getDevice fun d => ?_
  exact keeps_seq (h.assign _ fun _ => rfl) (h.respond _)

theorem readEepromByte : Keeps I W readEepromByte := by
  refine keeps_bind keeps_getDevice fun d => keeps_bind (h.eepromRead _) fun b => ?_
  exact keeps_seq (h.respond b) (h.assign _ fun _ => rfl)

/-- The dispatcher respects whatever the traffic, its flash reads and its programming
commands respect. -/
theorem dispatch (command : UInt8)
    (hg : command = 'g'.toUInt8 → ∀ blockSize memoryType, Keeps I W (readBlock blockSize memoryType))
    (hr : command = 'R'.toUInt8 → Keeps I W readFlashWord)
    (he : command = 'e'.toUInt8 → Keeps I W eraseApplication)
    (hb : command = 'B'.toUInt8 → ∀ blockSize memoryType, Keeps I W (writeBlock blockSize memoryType))
    (hm : command = 'm'.toUInt8 → Keeps I W commitPage)
    (hl : command = 'l'.toUInt8 → Keeps I W setLockBits)
    (hhigh : command = 'C'.toUInt8 → Keeps I W fillHighByte)
    (hlow : command = 'c'.toUInt8 → Keeps I W fillLowByte)
    (hd : command = 'D'.toUInt8 → Keeps I W writeEepromByte) : Keeps I W (processCommand command) := by
  have hfuse (f : Device → UInt8) : Keeps I W (do writeNextResponseByte (f (← getDevice))) :=
    keeps_bind keeps_getDevice fun d => h.respond _
  refine keeps_ite (fun _ => keeps_seq (h.respond _) (h.assign _ fun _ => rfl)) fun _ => ?_
  refine keeps_ite (fun _ => keeps_bind h.fetch fun _ => h.respond _) fun _ => ?_
  refine keeps_ite (fun _ => h.respond _) fun _ => ?_
  refine keeps_ite (fun _ => h.respondAll _) fun _ => ?_
  refine keeps_ite (fun _ => h.respond _) fun _ => ?_
  refine keeps_ite (fun _ => h.setAddress) fun _ => ?_
  refine keeps_ite (fun _ => h.respond _) fun _ => ?_
  refine keeps_ite (fun _ => h.respondAll _) fun _ => ?_
  refine keeps_ite (fun _ => h.respondAll _) fun _ => ?_
  refine keeps_ite (fun _ => h.respondAll _) fun _ => ?_
  refine keeps_ite he fun _ => ?_
  refine keeps_ite hl fun _ => ?_
  refine keeps_ite (fun _ => hfuse _) fun _ => ?_
  refine keeps_ite (fun _ => hfuse _) fun _ => ?_
  refine keeps_ite (fun _ => hfuse _) fun _ => ?_
  refine keeps_ite (fun _ => hfuse _) fun _ => ?_
  refine keeps_ite (fun _ => h.respondAll _) fun _ => ?_
  refine keeps_ite (fun hc => h.readWriteMemoryBlock command hg fun hne => hb (hc.resolve_right hne)) fun _ => ?_
  refine keeps_ite hhigh fun _ => ?_
  refine keeps_ite hlow fun _ => ?_
  refine keeps_ite hm fun _ => ?_
  refine keeps_ite hr fun _ => ?_
  refine keeps_ite hd fun _ => ?_
  refine keeps_ite (fun _ => h.readEepromByte) fun _ => ?_
  exact keeps_ite (fun _ => h.respond _) fun _ => keeps_pure _

section Program
variable (hp : ∀ e f, e.programs = true → e.page? = none → KeepsSection f → Keeps I W (perform e f))
include hp

theorem writeFlashLoop (n : Nat) (highByte : Bool) (lowByte : UInt8) :
    Keeps I W (writeFlashLoop n highByte lowByte) := by
  induction n generalizing highByte lowByte with
  | zero => exact keeps_pure _
  | succ n ih =>
    cases highByte with
    | false => exact keeps_bind h.fetch fun b => ih _ _
    | true =>
      refine keeps_bind h.fetch fun b => keeps_bind keeps_getDevice fun d => ?_
      exact keeps_seq (hp _ _ rfl rfl fun _ => rfl) (keeps_seq (h.assign _ fun _ => rfl) (ih _ _))

theorem writeEepromLoop (n : Nat) : Keeps I W (writeEepromLoop n) := by
  induction n with
  | zero => exact keeps_pure _
  | succ n ih =>
    refine keeps_bind h.fetch fun b => keeps_bind keeps_getDevice fun d => ?_
    exact keeps_seq (hp _ _ rfl rfl fun _ => rfl) (keeps_seq (h.assign _ fun _ => rfl) ih)

theorem fillHighByte : Keeps I W fillHighByte := by
  refine keeps_bind h.fetch fun b => keeps_bind keeps_getDevice fun d => ?_
  exact keeps_seq (hp _ _ rfl rfl fun _ => rfl) (h.respond _)

theorem fillLowByte : Keeps I W fillLowByte := by
  refine keeps_bind h.fetch fun b => keeps_bind keeps_getDevice fun d => ?_
  exact keeps_seq (hp _ _ rfl rfl fun _ => rfl) (keeps_seq (h.assign _ fun _ => rfl) (h.respond _))

theorem writeEepromByte : Keeps I W writeEepromByte := by
  refine keeps_bind h.fetch fun b => keeps_bind keeps_getDevice fun d => ?_
  exact keeps_seq (hp _ _ rfl rfl fun _ => rfl) (keeps_seq (h.assign _ fun _ => rfl) (h.respond _))

theorem setLockBits : Keeps I W setLockBits :=
  keeps_bind h.fetch fun _ => keeps_seq (hp _ _ rfl rfl fun _ => rfl) (h.respond _)

end Program

section Paging
variable (hp : ∀ e f, e.programs = true → Keeps I W (perform e f))
include hp

theorem writeBlock (blockSize : UInt16) (memoryType : UInt8) : Keeps I W (writeBlock blockSize memoryType) := by
  have hfill := fun e f he (_ : e.page? = none) (_ : KeepsSection f) => hp e f he
  refine keeps_seq (keeps_ite (fun _ => ?_) fun _ => h.writeEepromLoop hfill _) (h.respond _)
  refine keeps_bind keeps_getDevice fun d => ?_
  exact keeps_seq (hp _ _ rfl) (keeps_seq (h.writeFlashLoop hfill _ _ _) (hp _ _ rfl))

theorem eraseApplication : Keeps I W eraseApplication :=
  keeps_seq (keeps_forM _ _ fun _ _ => keeps_seq (hp _ _ rfl) (hp _ _ rfl)) (h.respond _)

theorem commitPage : Keeps I W commitPage :=
  keeps_bind keeps_getDevice fun _ => keeps_seq (hp _ _ rfl) (h.respond _)

theorem command (c : UInt8)
    (hg : c = 'g'.toUInt8 → ∀ blockSize memoryType, Keeps I W (readBlock blockSize memoryType))
    (hr : c = 'R'.toUInt8 → Keeps I W readFlashWord) : Keeps I W (Bootloader.processCommand c) := by
  have hfill := fun e f he (_ : e.page? = none) (_ : KeepsSection f) => hp e f he
  exact h.dispatch c hg hr (fun _ => h.eraseApplication hp) (fun _ => h.writeBlock hp) (fun _ => h.commitPage hp)
    (fun _ => h.setLockBits hfill) (fun _ => h.fillHighByte hfill) (fun _ => h.fillLowByte hfill)
    fun _ => h.writeEepromByte hfill

end Paging

end Traffic

namespace Passive
variable {I W : Boot → Prop} (h : Passive I W)
include h

theorem traffic : Traffic I W := ⟨h.fetch,h.respond,h.assign,fun _ => h.observe _ _ fun _ => ⟨rfl,rfl⟩⟩

theorem readFlashLoop (n : Nat) (highByte : Bool) : Keeps I W (readFlashLoop n highByte) := by
  induction n generalizing highByte with
  | zero => exact keeps_pure _
  | succ n ih =>
    refine keeps_bind keeps_getDevice fun d => ?_
    refine keeps_bind (h.observe _ _ fun _ => ⟨rfl,rfl⟩) fun b => ?_
    exact keeps_seq (h.respond b) (keeps_seq (h.traffic.advanceIf _) (ih _))

theorem readBlock (blockSize : UInt16) (memoryType : UInt8) : Keeps I W (readBlock blockSize memoryType) := by
  refine keeps_seq h.rwwEnable ?_
  exact keeps_ite (fun _ => h.readFlashLoop _ _) fun _ => h.traffic.readEepromLoop _

theorem readFlashWord : Keeps I W readFlashWord := by
  refine keeps_bind keeps_getDevice fun d => ?_
  exact keeps_bind (h.observe _ _ fun _ => ⟨rfl,rfl⟩) fun w => h.traffic.respondAll _

end Passive

namespace Closed
variable {I W : Boot → Prop} (h : Closed I W)
include h

theorem program (e : Event) (f : Device → Device) (he : e.programs = true) (hp : e.page? = none) (hf : KeepsSection f) :
    Keeps I W (Bootloader.perform e f) :=
  h.perform e f (access_of_programs he) hp hf

theorem processCommand (command : UInt8)
    (he : command = 'e'.toUInt8 → Keeps I W eraseApplication)
    (hb : command = 'B'.toUInt8 → ∀ blockSize memoryType, Keeps I W (writeBlock blockSize memoryType))
    (hm : command = 'm'.toUInt8 → Keeps I W commitPage) : Keeps I W (processCommand command) :=
  h.traffic.dispatch command (fun _ => h.readBlock) (fun _ => h.readFlashWord) he hb hm
    (fun _ => h.traffic.setLockBits h.program) (fun _ => h.traffic.fillHighByte h.program)
    (fun _ => h.traffic.fillLowByte h.program) fun _ => h.traffic.writeEepromByte h.program

end Closed

/-- Respected by page erases and page writes too. -/
structure FullyClosed (I W : Boot → Prop) : Prop extends Closed I W where
  paging : ∀ e f, e.isAccess = true → Keeps I W (Bootloader.perform e f)

theorem FullyClosed.command {I W : Boot → Prop} (h : FullyClosed I W) (c : UInt8) :
    Keeps I W (Bootloader.processCommand c) :=
  h.traffic.command (fun e f he => h.paging e f (access_of_programs he)) c (fun _ => h.readBlock)
    fun _ => h.readFlashWord

section Log
variable {P : List Event → Prop}

/-- A property of the log alone, kept by every entry that programs nothing. -/
theorem passive_of_log (h : ∀ e log, e.programs = false → P log → P (e :: log)) :
    Passive (fun s => P s.log) (fun s => P s.log) where
  fetch := by
    constructor
    intro s hs
    unfold fetchNextCommandByte
    split
    · exact h _ _ rfl hs
    · split
      · exact hs
      · exact h _ _ rfl hs
  respond b := ⟨fun s hs => h _ _ rfl hs⟩
  assign _ _ := ⟨fun s hs => hs⟩
  rwwEnable := ⟨fun s hs => h _ _ rfl hs⟩
  observe e f he := ⟨fun s hs => h _ _ (he s.dev).2 hs⟩

theorem closed_of_log (h : ∀ e log, e.page? = none → P log → P (e :: log)) :
    Closed (fun s => P s.log) (fun s => P s.log) where
  toPassive := passive_of_log fun e log he => h e log (page_of_programs he)
  perform e _ _ hp _ := ⟨fun _ hs => h e _ hp hs⟩

theorem fullyClosed_of_log (h : ∀ e log, P log → P (e :: log)) :
    FullyClosed (fun s => P s.log) (fun s => P s.log) where
  toClosed := closed_of_log fun e log _ => h e log
  paging e _ _ := ⟨fun _ hs => h e _ hs⟩

end Log

theorem cdcTask_idle {s : Boot} (h : s.usb.out = []) : cdcTask s = .ok () s := by
  simp [cdcTask, Usb.isOutReceived, h]

theorem cdcTask_busy {s : Boot} (h : s.usb.out ≠ []) :
    cdcTask s = ((fetchNextCommandByte >>= processCommand) >>= fun _ => finishResponse) s := by
  simp [cdcTask, Usb.isOutReceived, h]

/-- An invariant of a whole task, from its command and from sending the response. -/
theorem cdcTask_final {I : Boot → Prop} {s : Boot} (h : I s)
    (hrun : s.usb.out ≠ [] → Ends I I ((fetchNextCommandByte >>= processCommand) s))
    (hfinish : ∀ t, I t → I {t with usb := t.usb.finishResponse}) : I (final (cdcTask s)) := by
  by_cases hout : s.usb.out = []
  · rw [cdcTask_idle hout]
    exact h
  · rw [cdcTask_busy hout]
    refine Ends.final (ends_bind (hrun hout) fun _ t ht => ?_)
    exact hfinish t ht

theorem usedUp_closed : FullyClosed (fun _ => True) (fun s => s.usb.out = []) where
  fetch := by
    constructor
    intro s _
    unfold fetchNextCommandByte
    split
    · trivial
    · split <;> trivial
  respond _ := ⟨fun _ _ => trivial⟩
  assign _ _ := ⟨fun _ _ => trivial⟩
  rwwEnable := ⟨fun _ _ => trivial⟩
  perform _ _ _ _ _ := ⟨fun _ _ => trivial⟩
  observe _ _ _ := ⟨fun _ _ => trivial⟩
  paging _ _ _ := ⟨fun _ _ => trivial⟩

theorem cdcTask_waiting {s t : Boot} {e : Unit} (h : cdcTask s = .error e t) : t.usb.out = [] := by
  by_cases hs : s.usb.out = []
  · rw [cdcTask_idle hs] at h
    cases h
  · have hk := (keeps_bind usedUp_closed.fetch usedUp_closed.command).ends s trivial
    rw [cdcTask_busy hs] at h
    cases hb : (fetchNextCommandByte >>= processCommand) s with
    | ok a v => rw [bind_ok hb] at h; cases h
    | error e v =>
      rw [bind_error hb] at h
      rw [hb] at hk
      cases h
      exact hk

theorem runTasks_idle {s : Boot} (h : s.usb.out = []) (n : Nat) : runTasks n s = s := by
  induction n with
  | zero => rfl
  | succ n ih => simp [runTasks, cdcTask_idle h, ih]

/-- A waiting task has used up the packets, so later turns change nothing. -/
theorem runTasks_succ (n : Nat) (s : Boot) : runTasks (n+1) s = runTasks n (final (cdcTask s)) := by
  rw [runTasks]
  cases h : cdcTask s with
  | ok a t => rfl
  | error e t => exact (runTasks_idle (cdcTask_waiting h) n).symm

theorem runTasks_add (m n : Nat) (s : Boot) : runTasks (m+n) s = runTasks n (runTasks m s) := by
  induction m generalizing s with
  | zero => rw [Nat.zero_add]; rfl
  | succ m ih => rw [Nat.succ_add, runTasks_succ, runTasks_succ, ih]

/-- From one task to whole runs: if a task keeps `P` exactly when it starts in `C`, then a
run keeps `P` exactly when all its tasks start in `C`. -/
theorem runTasks_iff {J P C : Boot → Prop} (hJ : ∀ s, J s → J (final (cdcTask s)))
    (hstep : ∀ s, J s → (P (final (cdcTask s)) ↔ P s ∧ C s)) (n : Nat) {s : Boot} (hs : J s) :
    P (runTasks n s) ↔ P s ∧ ∀ k < n, C (runTasks k s) := by
  induction n generalizing s with
  | zero => simp [runTasks]
  | succ n ih =>
    rw [runTasks_succ, ih (hJ s hs), hstep s hs, and_assoc]
    refine and_congr_right fun _ => ?_
    constructor
    · rintro ⟨h0,hrest⟩ k hk
      cases k with
      | zero => exact h0
      | succ k =>
        rw [runTasks_succ]
        exact hrest k (by omega)
    · intro h
      refine ⟨h 0 (by omega),fun k hk => ?_⟩
      rw [← runTasks_succ]
      exact h (k+1) (by omega)

end ArduinoAT90USB.Bootloader
