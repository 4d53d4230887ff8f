import ArduinoAT90USB.Core.CdcIn

/-! What the calls of the sending side put on the line, whatever the host does meanwhile. -/
namespace ArduinoAT90USB.Core
open Foundation.Surroundings

/-- What can happen, where the endpoint may be configured again or cleared of a halt, or is kept as it is. -/
def HostEvent.Possible (kept : Bool) (e : HostEvent) : Prop := kept = true → e ≠ .configure ∧ e ≠ .stall false

theorem HostEvent.Possible.keeps {e : HostEvent} (h : e.Possible true) : ¬ (e = .configure ∨ e = .stall false) :=
  not_or.mpr (h rfl)

namespace CdcIn
variable {E : HostEvent → Prop} {P W : CdcIn → Prop} {kept : Bool} {w data : List UInt8} {l : CdcIn} {x : UInt8}

section Calls

theorem meets_get {α : Type} {f : CdcIn → α} (hP : Stable happen E P) (hw : ∀ l, P l → W l) :
    Meets E P (get f) (fun a l => a = f l ∧ P l) W :=
  meets_access hP (fun _ hl => ⟨rfl,hl⟩) hw

theorem meets_set {f : CdcIn → CdcIn} {Q : CdcIn → Prop} (hP : Stable happen E P) (hf : ∀ l, P l → Q (f l)) (hw : ∀ l, P l → W l) :
    Meets E P (set f) (fun _ l => Q l) W :=
  meets_access hP hf hw

theorem meets_isOpen (hP : Stable happen E P) (hw : ∀ l, P l → W l) : Meets E P isOpen (fun _ l => P l) W := by
  refine meets_bind (meets_get hP hw) fun state => ?_
  refine meets_ite (fun _ => meets_pure fun _ hl => hl.2) fun _ => ?_
  exact meets_bind ((meets_get hP hw).pre fun _ hl => hl.2) fun rate => meets_pure fun _ hl => hl.2

/-- A wait changes nothing, and ends well only when the bank is the processor's. -/
theorem meets_wait (hP : Stable happen E P) (hw : ∀ l, P l → W l) :
    Meets E P waitUntilReady (fun code l => (code = .noError → l.busy = false) ∧ P l) W := by
  have hget {α : Type} (f : CdcIn → α) {p : CdcIn → Prop} : Meets E (fun l => p l ∧ P l) (get f) (fun a l => a = f l ∧ P l) W :=
    (meets_get hP hw).pre fun _ hl => hl.2
  refine meets_bind (meets_get hP hw) fun previous => ?_
  refine (meets_loop (I := fun _ => P) (fun v => ?_) (fun _ l => hw l) _).pre fun _ hl => hl.2
  refine meets_bind (meets_get hP hw) fun ready => ?_
  refine meets_ite (fun hready => meets_pure ?_) fun _ => ?_
  · rintro l ⟨hbusy,hl⟩
    exact ⟨fun _ => by simpa [hready] using hbusy,hl⟩
  refine meets_bind (hget _) fun state => ?_
  refine meets_ite (fun _ => meets_pure fun _ hl => ⟨fun h => ReadyWait.noConfusion h,hl.2⟩) fun _ => ?_
  refine meets_ite (fun _ => meets_pure fun _ hl => ⟨fun h => ReadyWait.noConfusion h,hl.2⟩) fun _ => ?_
  refine meets_bind (hget _) fun stalled => ?_
  refine meets_ite (fun _ => meets_pure fun _ hl => ⟨fun h => ReadyWait.noConfusion h,hl.2⟩) fun _ => ?_
  refine meets_bind (hget _) fun current => ?_
  refine meets_ite (fun _ => ?_) fun _ => meets_pure fun _ hl => hl.2
  exact meets_ite (fun _ => meets_pure fun _ hl => ⟨fun h => ReadyWait.noConfusion h,hl.2⟩) fun _ => meets_pure fun _ hl => hl.2

/-- A control request leaves the endpoint to the surroundings. -/
theorem meets_usbTask (hP : Stable happen E P) (hrequest : ∀ l s r, P l → P {l with setup := s, request := r}) (hw : ∀ l, P l → W l) :
    Meets E P usbUsbTask (fun _ => P) W := by
  refine meets_bind (meets_get hP hw) fun state => ?_
  refine meets_ite (fun _ => meets_pure fun _ hl => hl.2) fun _ => ?_
  refine meets_bind ((meets_get hP hw).pre fun _ hl => hl.2) fun received => ?_
  refine meets_ite (fun _ => ?_) fun _ => meets_pure fun _ hl => hl.2
  refine meets_bind ((meets_set (Q := P) hP (fun l hl => hrequest l _ _ hl) hw).pre fun _ hl => hl.2) fun _ => ?_
  refine meets_loop (I := fun _ => P) (fun _ => ?_) (fun _ l => hw l) ()
  refine meets_bind (meets_get hP hw) fun pending => ?_
  refine meets_ite (fun _ => ?_) fun _ => meets_pure fun _ hl => hl.2
  refine meets_bind ((meets_get hP hw).pre fun _ hl => hl.2) fun state => ?_
  exact meets_ite (fun _ => meets_pure fun _ hl => hl.2) fun _ => meets_pure fun _ hl => hl.2

theorem meets_deviceFlush (hP : Stable happen E P) (hclear : ∀ l, P l → P {l with busy := true}) (hw : ∀ l, P l → W l) :
    Meets E P deviceFlush (fun _ => P) W := by
  have hset : Meets E P clearIn (fun _ => P) W := meets_set (Q := P) hP hclear hw
  refine meets_bind (meets_isOpen hP hw) fun opened => ?_
  refine meets_ite (fun _ => ?_) fun _ => meets_pure fun _ hl => hl
  refine meets_bind (meets_get hP hw) fun bytes => ?_
  refine meets_ite (fun _ => meets_pure fun _ hl => hl.2) fun _ => ?_
  refine meets_bind ((meets_get hP hw).pre fun _ hl => hl.2) fun room => ?_
  refine meets_bind (hset.pre fun _ hl => hl.2) fun _ => ?_
  refine meets_ite (fun _ => meets_pure fun _ hl => hl) fun _ => ?_
  refine meets_bind (meets_wait hP hw) fun code => ?_
  refine meets_ite (fun _ => ?_) fun _ => meets_pure fun _ hl => hl.2
  exact meets_bind (hset.pre fun _ hl => hl.2) fun _ => meets_pure fun _ hl => hl

theorem meets_deviceUsbTask (hP : Stable happen E P) (hclear : ∀ l, P l → P {l with busy := true}) (hw : ∀ l, P l → W l) :
    Meets E P deviceUsbTask (fun _ => P) W := by
  refine meets_bind (meets_isOpen hP hw) fun opened => ?_
  refine meets_ite (fun _ => ?_) fun _ => meets_pure fun _ hl => hl
  refine meets_bind (meets_get hP hw) fun ready => ?_
  refine meets_ite (fun _ => ?_) fun _ => meets_pure fun _ hl => hl.2
  exact meets_bind ((meets_deviceFlush hP hclear hw).pre fun _ hl => hl.2) fun _ => meets_pure fun _ hl => hl

end Calls

def stream (l : CdcIn) : List UInt8 := l.taken.flatten ++ l.bank

/-- Of what was written nothing has changed its place; it is all there if the endpoint is kept. -/
structure Carries (kept : Bool) (w : List UInt8) (l : CdcIn) : Prop where
  sublist : l.stream.Sublist w
  whole : kept = true → l.stream = w
  fits : l.bank.length ≤ cdcTxrxEpsize
  packets : ∀ p ∈ l.taken, p.length ≤ cdcTxrxEpsize

/-- The bank has been handed over and not been written since. -/
def Released (l : CdcIn) : Prop := l.busy = true ∨ l.bank = []

theorem carries_start (hbank : l.bank = []) (htaken : l.taken = []) : Carries kept [] l := by
  have hstream : l.stream = [] := by
    rw [stream,hbank,htaken]
    rfl
  refine ⟨List.sublist_nil.mpr hstream,fun _ => hstream,by rw [hbank]; exact Nat.zero_le _,?_⟩
  rw [htaken]
  exact fun p hp => absurd hp List.not_mem_nil

/-- What an event does to the bank. -/
inductive BankStep (l : CdcIn) (e : HostEvent) (l' : CdcIn) : Prop
  | kept (bank : l'.bank = l.bank) (busy : l'.busy = l.busy) (taken : l'.taken = l.taken)
  | polled (full : l.busy = true) (bank : l'.bank = []) (busy : l'.busy = false) (taken : l'.taken = l.taken ++ [l.bank])
  | emptied (event : e = .configure ∨ e = .stall false) (bank : l'.bank = []) (busy : l'.busy = false) (taken : l'.taken = l.taken)

theorem happen_bank (l : CdcIn) (e : HostEvent) : BankStep l e (l.happen e) := by
  cases e with
  | poll =>
    rw [CdcIn.happen]
    split
    case isTrue h => exact .polled (Bool.and_eq_true_iff.mp h).1 rfl rfl rfl
    case isFalse => exact .kept rfl rfl rfl
  | configure => exact .emptied (.inl rfl) rfl rfl rfl
  | stall stalled =>
    cases stalled with
    | true => exact .kept rfl rfl rfl
    | false => exact .emptied (.inr rfl) rfl rfl rfl
  | frame | device | lineEncoding | setup | serve => exact .kept rfl rfl rfl

theorem Carries.happen (h : Carries kept w l) {e : HostEvent} (he : e.Possible kept) : Carries kept w (l.happen e) := by
  cases l.happen_bank e with
  | kept bank busy taken =>
    have hstream : (l.happen e).stream = l.stream := by rw [stream,bank,taken]; rfl
    exact ⟨hstream ▸ h.sublist,fun hkept => hstream.trans (h.whole hkept),bank ▸ h.fits,taken ▸ h.packets⟩
  | polled full bank busy taken =>
    have hstream : (l.happen e).stream = l.stream := by
      rw [stream,bank,taken,List.append_nil,List.flatten_append,List.flatten_singleton]
      rfl
    refine ⟨hstream ▸ h.sublist,fun hkept => hstream.trans (h.whole hkept),bank ▸ Nat.zero_le _,?_⟩
    intro p hp
    rw [taken] at hp
    rcases List.mem_append.mp hp with hold | hnew
    · exact h.packets p hold
    · rw [List.mem_singleton.mp hnew]
      exact h.fits
  | emptied event bank busy taken =>
    have hstream : (l.happen e).stream = l.taken.flatten := by rw [stream,bank,taken,List.append_nil]
    refine ⟨?_,fun hkept => ?_,bank ▸ Nat.zero_le _,taken ▸ h.packets⟩
    · rw [hstream]
      exact (List.sublist_append_left _ _).trans h.sublist
    · subst hkept
      exact absurd event he.keeps

theorem carries_stable : Stable happen (HostEvent.Possible kept) (Carries kept w) := fun _ _ he h => h.happen he

theorem released_stable : Stable happen E Released := by
  intro l e _ h
  cases l.happen_bank e with
  | kept bank busy taken =>
    unfold Released
    rwa [bank,busy]
  | polled full bank | emptied event bank => exact Or.inr bank

/-- Nobody but the processor hands the bank over. -/
theorem owned_stable : Stable happen E fun l => l.busy = false := by
  intro l e _ h
  cases l.happen_bank e with
  | kept bank busy taken => exact busy.trans h
  | polled full bank busy | emptied event bank busy => exact busy

theorem allowed_iff : l.allowed = true ↔ l.busy = false ∧ l.bank.length < cdcTxrxEpsize := by
  simp [allowed]

theorem allowed_stable : Stable happen E fun l => l.allowed = true := by
  intro l e _ h
  rw [allowed_iff] at h ⊢
  cases l.happen_bank e with
  | kept bank busy taken => rwa [bank,busy]
  | polled full bank busy | emptied event bank busy =>
    rw [bank]
    exact ⟨busy,(by decide : 0 < cdcTxrxEpsize)⟩

theorem Released.allowed (h : l.Released) (hbusy : l.busy = false) : l.allowed = true := by
  rcases h with hbusy' | hbank
  · rw [hbusy] at hbusy'
    cases hbusy'
  · rw [allowed_iff,hbank]
    exact ⟨hbusy,by decide⟩

theorem Carries.clearIn (h : Carries kept w l) : Carries kept w {l with busy := true} := ⟨h.sublist,h.whole,h.fits,h.packets⟩

theorem Carries.request (h : Carries kept w l) {s : Option ControlWait} {r : ControlWait} :
    Carries kept w {l with setup := s, request := r} :=
  ⟨h.sublist,h.whole,h.fits,h.packets⟩

theorem Carries.write8 (h : Carries kept w l) (hroom : l.allowed = true) (x : UInt8) :
    Carries kept (w ++ [x]) {l with bank := l.bank ++ [x]} := by
  have hstream : stream {l with bank := l.bank ++ [x]} = l.stream ++ [x] := (List.append_assoc _ _ _).symm
  refine ⟨?_,fun hkept => ?_,?_,h.packets⟩
  · rw [hstream]
    exact h.sublist.append_right [x]
  · rw [hstream,h.whole hkept]
  · change (l.bank ++ [x]).length ≤ _
    rw [List.length_append]
    exact (allowed_iff.mp hroom).2

theorem write8_carries (x : UInt8) :
    Meets (HostEvent.Possible kept) (fun l => l.allowed = true ∧ Carries kept w l) (write8 x) (fun _ => Carries kept (w ++ [x]))
      (Carries kept w) := by
  refine meets_set (allowed_stable.and carries_stable) ?_ fun _ hl => hl.2
  rintro l ⟨hroom,hl⟩
  rw [if_pos hroom]
  exact hl.write8 hroom x

theorem clearIn_carries :
    Meets (HostEvent.Possible kept) (Carries kept w) clearIn (fun _ l => l.Released ∧ Carries kept w l) (Carries kept w) :=
  meets_set (Q := fun l => l.Released ∧ Carries kept w l) carries_stable (fun _ hl => ⟨Or.inl rfl,hl.clearIn⟩) fun _ hl => hl

theorem sendByte_carries (x : UInt8) :
    Meets (HostEvent.Possible kept) (Carries kept w) (sendByte x) (fun code => Carries kept (if code = .noError then w ++ [x] else w))
      (Carries kept w) := by
  refine meets_bind (meets_isOpen carries_stable fun _ hl => hl) fun opened => ?_
  refine meets_ite (fun _ => ?_) fun _ => meets_pure fun _ hl => hl
  refine meets_bind (meets_get carries_stable fun _ hl => hl) fun room => ?_
  refine meets_ite (fun hroom => ?_) fun _ => ?_
  · refine meets_bind ((write8_carries x).pre fun l hl => ⟨hl.1.symm.trans hroom,hl.2⟩) fun _ => ?_
    exact meets_pure fun _ hl => hl
  refine meets_bind (clearIn_carries.pre fun _ hl => hl.2) fun _ => ?_
  refine meets_bind (meets_wait (released_stable.and carries_stable) fun _ hl => hl.2) fun code => ?_
  refine meets_ite (fun hcode => ?_) fun hcode => meets_pure fun l hl => ?_
  · refine meets_bind ((write8_carries x).pre fun l hl => ⟨hl.2.1.allowed (hl.1 hcode),hl.2.2⟩) fun _ => ?_
    exact meets_pure fun _ hl => hl
  · rw [if_neg hcode]
    exact hl.2.2

/-- Some first bytes of the data were written. -/
def CarriesPart (kept : Bool) (w data : List UInt8) (l : CdcIn) : Prop := ∃ part, part <+: data ∧ Carries kept (w ++ part) l

theorem Carries.part (h : Carries kept w l) (data : List UInt8) : CarriesPart kept w data l :=
  ⟨[],List.nil_prefix,by rwa [List.append_nil]⟩

theorem sendData_carries (data : List UInt8) :
    Meets (HostEvent.Possible kept) (Carries kept w) (sendData data)
      (fun code l => (code = .noError → Carries kept (w ++ data) l) ∧ CarriesPart kept w data l) (CarriesPart kept w data) := by
  have hpart (l : CdcIn) (h : Carries kept w l) := h.part data
  refine meets_bind (meets_isOpen carries_stable hpart) fun opened => ?_
  refine meets_ite (fun _ => ?_) fun _ => meets_pure fun l hl => ⟨fun h => ReadyWait.noConfusion h,hpart l hl⟩
  refine meets_bind (meets_wait carries_stable hpart) fun code => ?_
  refine meets_ite (fun _ => ?_) fun hcode => meets_pure fun l hl => ⟨fun h => absurd h hcode,hpart l hl.2⟩
  refine (meets_loop (I := fun rest l => ∃ done, done ++ rest = data ∧ Carries kept (w ++ done) l) (fun rest => ?_) ?_ data).pre
    fun l hl => ⟨[],rfl,by rw [List.append_nil]; exact hl.2⟩
  · refine meets_exists fun done => meets_fact fun hdata => ?_
    have hdone (l : CdcIn) (h : Carries kept (w ++ done) l) : CarriesPart kept w data l := ⟨done,hdata ▸ List.prefix_append _ _,h⟩
    cases rest with
    | nil =>
      rw [List.append_nil] at hdata
      subst hdata
      exact meets_pure fun l hl => ⟨fun _ => hl,hdone l hl⟩
    | cons x rest =>
      refine meets_bind (meets_get carries_stable hdone) fun room => ?_
      refine meets_ite (fun hroom => ?_) fun _ => ?_
      · refine meets_bind
          (((write8_carries x).pre fun l hl => ⟨hl.1.symm.trans hroom,hl.2⟩).mono (fun _ hl => hl) (fun _ _ hl => hl) hdone)
          fun _ => ?_
        exact meets_pure fun l hl => ⟨done ++ [x],by rw [List.append_assoc]; exact hdata,by rwa [← List.append_assoc]⟩
      refine meets_bind ((clearIn_carries.pre fun _ hl => hl.2).mono (fun _ hl => hl) (fun _ _ hl => hl.2) hdone) fun _ => ?_
      refine meets_bind (meets_usbTask carries_stable (fun _ _ _ hl => hl.request) hdone) fun _ => ?_
      refine meets_bind (meets_wait carries_stable hdone) fun code => ?_
      refine meets_ite (fun _ => meets_pure fun l hl => ⟨done,hdata,hl.2⟩) fun hcode => meets_pure fun l hl => ?_
      exact ⟨fun h => absurd h hcode,hdone l hl.2⟩
  · rintro rest l ⟨done,hdata,hl⟩
    exact ⟨done,hdata ▸ List.prefix_append _ _,hl⟩

theorem deviceFlush_carries : Meets (HostEvent.Possible kept) (Carries kept w) deviceFlush (fun _ => Carries kept w) (Carries kept w) :=
  meets_deviceFlush carries_stable (fun _ hl => hl.clearIn) fun _ hl => hl

theorem deviceUsbTask_carries :
    Meets (HostEvent.Possible kept) (Carries kept w) deviceUsbTask (fun _ => Carries kept w) (Carries kept w) :=
  meets_deviceUsbTask carries_stable (fun _ hl => hl.clearIn) fun _ hl => hl

theorem doTasks_carries : Meets (HostEvent.Possible kept) (Carries kept w) doTasks (fun _ => Carries kept w) (Carries kept w) :=
  meets_bind deviceUsbTask_carries fun _ => meets_usbTask carries_stable (fun _ _ _ hl => hl.request) fun _ hl => hl

theorem write_carries (x : UInt8) :
    Meets (HostEvent.Possible kept) (Carries kept w) (write x) (fun count => Carries kept (if count = 1 then w ++ [x] else w))
      (Carries kept w) := by
  refine meets_bind doTasks_carries fun _ => ?_
  refine meets_bind (meets_get carries_stable fun _ hl => hl) fun state => ?_
  refine meets_ite (fun _ => meets_pure fun _ hl => hl.2) fun _ => ?_
  refine meets_bind ((sendByte_carries x).pre fun _ hl => hl.2) fun code => meets_pure fun l hl => ?_
  by_cases hcode : code = .noError
  · rw [if_pos hcode] at hl ⊢
    exact hl
  · rw [if_neg hcode] at hl ⊢
    exact hl

theorem flush_carries : Meets (HostEvent.Possible kept) (Carries kept w) flush (fun _ => Carries kept w) (Carries kept w) :=
  meets_bind doTasks_carries fun _ => meets_bind deviceFlush_carries fun _ => meets_pure fun _ hl => hl

end CdcIn

/-- A call of the sending side, by the sketch or of the class driver. -/
inductive CdcCall
  | write (x : UInt8)
  | flush
  | sendByte (x : UInt8)
  | sendData (data : List UInt8)
  | deviceFlush
  | deviceUsbTask

namespace CdcCall
open CdcIn
variable {kept : Bool} {w : List UInt8} {l : CdcIn}

/-- The call, and whether it says that all is well. -/
def perform : CdcCall → Driver Bool
  | .write x => do
    let count ← CdcIn.write x
    pure (count = 1)
  | .flush => do
    CdcIn.flush
    pure true
  | .sendByte x => do
    let code ← CdcIn.sendByte x
    pure (code = .noError)
  | .sendData data => do
    let code ← CdcIn.sendData data
    pure (code = .noError)
  | .deviceFlush => do
    let code ← CdcIn.deviceFlush
    pure (code = .noError)
  | .deviceUsbTask => do
    CdcIn.deviceUsbTask
    pure true

def run : List CdcCall → Driver (List Bool)
  | [] => pure []
  | call :: rest => do
    let good ← call.perform
    let goods ← run rest
    pure (good :: goods)

def offered : CdcCall → List UInt8
  | .write x | .sendByte x => [x]
  | .sendData data => data
  | .flush | .deviceFlush | .deviceUsbTask => []

/-- What the call has sent when it returns. Only `CDC_Device_SendData` may have sent a part of what
it was given. -/
def Sends : CdcCall → Bool → List UInt8 → Prop
  | .write x, good, part | .sendByte x, good, part => part = if good then [x] else []
  | .sendData data, good, part => part <+: data ∧ (good = true → part = data)
  | .flush, _, part | .deviceFlush, _, part | .deviceUsbTask, _, part => part = []

theorem perform_sends (call : CdcCall) :
    Meets (HostEvent.Possible kept) (Carries kept w) call.perform
      (fun good l => ∃ part, call.Sends good part ∧ Carries kept (w ++ part) l)
      (CarriesPart kept w call.offered) := by
  have hnone (l : CdcIn) (h : Carries kept w l) : Carries kept (w ++ []) l := by rwa [List.append_nil]
  cases call with
  | write x =>
    refine meets_bind ((write_carries x).mono (fun _ hl => hl) (fun _ _ hl => hl) fun l hl => hl.part _)
      fun count => meets_pure fun l hl => ?_
    by_cases hcount : count = 1
    · rw [if_pos hcount] at hl
      exact ⟨[x],by simp [Sends,hcount],hl⟩
    · rw [if_neg hcount] at hl
      exact ⟨[],by simp [Sends,hcount],hnone l hl⟩
  | sendByte x =>
    refine meets_bind ((sendByte_carries x).mono (fun _ hl => hl) (fun _ _ hl => hl) fun l hl => hl.part _)
      fun code => meets_pure fun l hl => ?_
    by_cases hcode : code = .noError
    · rw [if_pos hcode] at hl
      exact ⟨[x],by simp [Sends,hcode],hl⟩
    · rw [if_neg hcode] at hl
      exact ⟨[],by simp [Sends,hcode],hnone l hl⟩
  | sendData data =>
    refine meets_bind (sendData_carries data) fun code => meets_pure fun l hl => ?_
    by_cases hcode : code = .noError
    · exact ⟨data,⟨List.prefix_rfl,fun _ => rfl⟩,hl.1 hcode⟩
    · obtain ⟨part,hfirst,hpart⟩ := hl.2
      exact ⟨part,⟨hfirst,fun h => absurd (of_decide_eq_true h) hcode⟩,hpart⟩
  | flush =>
    exact meets_bind (flush_carries.mono (fun _ hl => hl) (fun _ _ hl => hl) fun l hl => hl.part _) fun _ =>
      meets_pure fun l hl => ⟨[],rfl,hnone l hl⟩
  | deviceFlush =>
    exact meets_bind (deviceFlush_carries.mono (fun _ hl => hl) (fun _ _ hl => hl) fun l hl => hl.part _) fun _ =>
      meets_pure fun l hl => ⟨[],rfl,hnone l hl⟩
  | deviceUsbTask =>
    exact meets_bind (deviceUsbTask_carries.mono (fun _ hl => hl) (fun _ _ hl => hl) fun l hl => hl.part _) fun _ =>
      meets_pure fun l hl => ⟨[],rfl,hnone l hl⟩

/-- What the calls have sent one after the other, by what they say. -/
inductive Sent : List CdcCall → List Bool → List UInt8 → Prop
  | nil : Sent [] [] []
  | cons {call : CdcCall} {calls : List CdcCall} {good : Bool} {goods : List Bool} {part rest : List UInt8} :
    call.Sends good part → Sent calls goods rest → Sent (call :: calls) (good :: goods) (part ++ rest)

/-- What is on the line in the middle of the calls. -/
inductive Sending : List CdcCall → List UInt8 → Prop
  | now {call : CdcCall} {calls : List CdcCall} {part : List UInt8} : part <+: call.offered → Sending (call :: calls) part
  | later {call : CdcCall} {calls : List CdcCall} {good : Bool} {part rest : List UInt8} :
    call.Sends good part → Sending calls rest → Sending (call :: calls) (part ++ rest)

theorem run_sends (calls : List CdcCall) :
    Meets (HostEvent.Possible kept) (Carries kept w) (run calls)
      (fun goods l => ∃ sent, Sent calls goods sent ∧ Carries kept (w ++ sent) l)
      (fun l => ∃ sent, Sending calls sent ∧ Carries kept (w ++ sent) l) := by
  induction calls generalizing w with
  | nil => exact meets_pure fun l hl => ⟨[],.nil,by rwa [List.append_nil]⟩
  | cons call rest ih =>
    refine meets_bind ((perform_sends call).mono (fun _ hl => hl) (fun _ _ hl => hl) ?_) fun good => ?_
    · rintro l ⟨part,hfirst,hl⟩
      exact ⟨part,.now hfirst,hl⟩
    refine meets_exists fun part => meets_fact fun hsends => ?_
    refine meets_bind ((ih (w := w ++ part)).mono (fun _ hl => hl) (fun _ _ hl => hl) ?_) fun goods => meets_pure ?_
    · rintro l ⟨sent,hsending,hl⟩
      exact ⟨part ++ sent,.later hsends hsending,by rwa [← List.append_assoc]⟩
    · rintro l ⟨sent,hsent,hl⟩
      exact ⟨part ++ sent,.cons hsends hsent,by rwa [← List.append_assoc]⟩

end CdcCall

/-- From an endpoint with nothing sent, any calls, and a host that polls, sends frames, suspends,
halts or configures the device between any two accesses of the driver: the bytes the host has and
those in the bank are, in order, bytes that the calls say they have sent, or of a
`CDC_Device_SendData` that failed some first bytes. Unless the endpoint is configured again or its
halt cleared they are all of them. No packet is longer than the endpoint. -/
theorem cdc_in_conserves {l : CdcIn} (hbank : l.bank = []) (htaken : l.taken = []) (calls : List CdcCall) {kept : Bool}
    {moments : List (List HostEvent)} (hmoments : Allowed (HostEvent.Possible kept) moments) :
    Outcome (HostEvent.Possible kept) (fun goods l' => ∃ sent, CdcCall.Sent calls goods sent ∧ l'.Carries kept sent)
      (fun l' => ∃ sent, CdcCall.Sending calls sent ∧ l'.Carries kept sent) (CdcCall.run calls ⟨l,moments⟩) :=
  CdcCall.run_sends calls ⟨l,moments⟩ hmoments (CdcIn.carries_start hbank htaken)

theorem cdc_in_conserves_byte :
    CdcCall.run [.sendByte 65] ⟨.opened 9600,[[],[.frame],[.poll],[]]⟩ =
        .ok [true] ⟨⟨[65],false,[],1,.configured,false,9600,none,.done⟩,[]⟩ ∧
      ∃ sent, CdcCall.Sent [.sendByte 65] [true] sent ∧ CdcIn.Carries true sent ⟨[65],false,[],1,.configured,false,9600,none,.done⟩ := by
  have hrun : CdcCall.run [.sendByte 65] ⟨.opened 9600,[[],[.frame],[.poll],[]]⟩ =
      .ok [true] ⟨⟨[65],false,[],1,.configured,false,9600,none,.done⟩,[]⟩ := rfl
  have hmoments : Allowed (HostEvent.Possible true) [[],[.frame],[.poll],[]] := by simp [Allowed,HostEvent.Possible]
  have h := cdc_in_conserves (l := .opened 9600) rfl rfl [.sendByte 65] hmoments
  rw [hrun] at h
  exact ⟨hrun,h.2⟩

end ArduinoAT90USB.Core
