import ArduinoAT90USB.Core.CdcPackets

/-! A sketch that writes to `USBSerial`. Every call first lets the class driver flush the bank, so
the bytes leave one by one. -/
namespace ArduinoAT90USB.Core
open Foundation Foundation.Surroundings CdcIn CdcCall

/-- The device stays configured and its line encoding as it is. -/
def HostEvent.Steady : HostEvent → Prop
  | .poll | .frame | .stall _ | .setup _ | .serve => True
  | .device _ | .lineEncoding _ | .configure => False

def CdcCall.Sketch : CdcCall → Prop
  | .write _ | .flush => True
  | .sendByte _ | .sendData _ | .deviceFlush | .deviceUsbTask => False

namespace CdcIn
variable {P : CdcIn → Prop} {l : CdcIn}

/-- The port is open and no packet has had more than one byte. -/
structure Single (l : CdcIn) : Prop where
  state : l.deviceState = .configured
  rate : l.baudRateBPS ≠ 0
  bank : l.bank.length ≤ 1
  taken : ∀ p ∈ l.taken, p.length ≤ 1

theorem Single.of_same {l' : CdcIn} (h : l.Single) (hstate : l'.deviceState = l.deviceState) (hrate : l'.baudRateBPS = l.baudRateBPS)
    {e : HostEvent} (hbank : BankStep l e l') : l'.Single := by
  refine ⟨hstate.trans h.state,hrate ▸ h.rate,?_,?_⟩
  · cases hbank with
    | kept bank => exact bank ▸ h.bank
    | polled full bank | emptied event bank => exact bank ▸ Nat.zero_le 1
  · cases hbank with
    | kept bank busy taken | emptied event bank busy taken => exact taken ▸ h.taken
    | polled full bank busy taken =>
      intro p hp
      rw [taken] at hp
      rcases List.mem_append.mp hp with hold | hnew
      · exact h.taken p hold
      · rw [List.mem_singleton.mp hnew]
        exact h.bank

theorem single_stable : Stable happen HostEvent.Steady Single := by
  intro l e he h
  have hbank := l.happen_bank e
  cases e with
  | poll => exact h.of_same (by rw [happen]; split <;> rfl) (by rw [happen]; split <;> rfl) hbank
  | stall stalled => cases stalled <;> exact h.of_same rfl rfl hbank
  | frame | setup | serve => exact h.of_same rfl rfl hbank
  | device | lineEncoding | configure => exact he.elim

theorem Single.clearIn (h : l.Single) : Single {l with busy := true} := ⟨h.state,h.rate,h.bank,h.taken⟩

theorem isOpen_single (hP : Stable happen HostEvent.Steady P) :
    Meets HostEvent.Steady (fun l => P l ∧ l.Single) isOpen (fun opened l => opened = true ∧ P l ∧ l.Single) Single := by
  have hstable := hP.and single_stable
  refine meets_bind (meets_get hstable fun _ hl => hl.2) fun state => ?_
  refine meets_ite (fun hstate => meets_pure fun l hl => ?_) fun _ => ?_
  · exact absurd (hl.1.trans hl.2.2.state) hstate
  · refine meets_bind ((meets_get hstable fun _ hl => hl.2).pre fun _ hl => hl.2) fun rate => meets_pure fun l hl => ⟨?_,hl.2⟩
    rw [hl.1]
    exact bne_iff_ne.mpr hl.2.2.rate

theorem clearIn_single (hP : Stable happen HostEvent.Steady P) :
    Meets HostEvent.Steady (fun l => P l ∧ l.Single) clearIn (fun _ l => l.Released ∧ l.Single) Single :=
  meets_set (Q := fun l => l.Released ∧ l.Single) (hP.and single_stable) (fun _ hl => ⟨Or.inl rfl,hl.2.clearIn⟩) fun _ hl => hl.2

theorem deviceFlush_single :
    Meets HostEvent.Steady Single deviceFlush (fun _ l => l.Released ∧ l.Single) Single := by
  refine meets_bind ((isOpen_single true_stable).pre fun _ hl => ⟨trivial,hl⟩) fun opened => meets_fact fun hopened => ?_
  rw [if_pos hopened]
  refine meets_bind ((meets_get single_stable fun _ hl => hl).pre fun _ hl => hl.2) fun bytes => ?_
  refine meets_ite (fun hbytes => meets_pure fun l hl => ?_) fun _ => ?_
  · exact ⟨Or.inr (List.length_eq_zero_iff.mp (hl.1.symm.trans hbytes)),hl.2⟩
  refine meets_bind ((meets_get single_stable fun _ hl => hl).pre fun _ hl => hl.2) fun room => ?_
  refine meets_bind ((clearIn_single true_stable).pre fun _ hl => ⟨trivial,hl.2⟩) fun _ => ?_
  refine meets_ite (fun _ => meets_pure fun _ hl => hl) fun _ => ?_
  refine meets_bind (meets_wait (released_stable.and single_stable) fun _ hl => hl.2) fun code => ?_
  refine meets_ite (fun _ => ?_) fun _ => meets_pure fun _ hl => hl.2
  exact meets_bind ((clearIn_single released_stable).pre fun _ hl => hl.2) fun _ => meets_pure fun _ hl => hl

theorem doTasks_single : Meets HostEvent.Steady Single doTasks (fun _ l => l.Released ∧ l.Single) Single := by
  have htask : Meets HostEvent.Steady Single deviceUsbTask (fun _ l => l.Released ∧ l.Single) Single := by
    refine meets_bind ((isOpen_single true_stable).pre fun _ hl => ⟨trivial,hl⟩) fun opened => meets_fact fun hopened => ?_
    rw [if_pos hopened]
    refine meets_bind ((meets_get single_stable fun _ hl => hl).pre fun _ hl => hl.2) fun ready => ?_
    refine meets_ite (fun _ => ?_) fun hready => meets_pure fun l hl => ⟨Or.inl ?_,hl.2⟩
    · exact meets_bind (deviceFlush_single.pre fun _ hl => hl.2) fun _ => meets_pure fun _ hl => hl
    · cases hbusy : l.busy with
      | true => rfl
      | false =>
        rw [hbusy] at hl
        exact absurd hl.1 hready
  refine meets_bind htask fun _ => meets_usbTask (released_stable.and single_stable) (fun l s r hl => ⟨hl.1,?_⟩) fun _ hl => hl.2
  exact ⟨hl.2.state,hl.2.rate,hl.2.bank,hl.2.taken⟩

theorem write8_single (x : UInt8) :
    Meets HostEvent.Steady (fun l => l.busy = false ∧ l.Released ∧ l.Single) (write8 x) (fun _ => Single) Single := by
  refine meets_set (owned_stable.and (released_stable.and single_stable)) ?_ fun _ hl => hl.2.2
  rintro l ⟨hbusy,hreleased,hl⟩
  have hbank : l.bank = [] := by
    rcases hreleased with hbusy' | hbank
    · rw [hbusy] at hbusy'
      cases hbusy'
    · exact hbank
  rw [if_pos (hreleased.allowed hbusy),hbank]
  exact ⟨hl.state,hl.rate,Nat.le_refl 1,hl.taken⟩

theorem sendByte_single (x : UInt8) :
    Meets HostEvent.Steady (fun l => l.Released ∧ l.Single) (sendByte x) (fun _ => Single) Single := by
  refine meets_bind (isOpen_single released_stable) fun opened => meets_fact fun hopened => ?_
  rw [if_pos hopened]
  refine meets_bind (meets_get (released_stable.and single_stable) fun _ hl => hl.2) fun room => ?_
  refine meets_ite (fun hroom => ?_) fun _ => ?_
  · refine meets_bind ((write8_single x).pre fun l hl => ⟨?_,hl.2⟩) fun _ => meets_pure fun _ hl => hl
    exact (allowed_iff.mp (hl.1.symm.trans hroom)).1
  refine meets_bind ((clearIn_single released_stable).pre fun _ hl => hl.2) fun _ => ?_
  refine meets_bind (meets_wait (released_stable.and single_stable) fun _ hl => hl.2) fun code => ?_
  refine meets_ite (fun hcode => ?_) fun _ => meets_pure fun _ hl => hl.2.2
  exact meets_bind ((write8_single x).pre fun l hl => ⟨hl.1 hcode,hl.2⟩) fun _ => meets_pure fun _ hl => hl

theorem write_single (x : UInt8) : Meets HostEvent.Steady Single (write x) (fun _ => Single) Single := by
  refine meets_bind doTasks_single fun _ => ?_
  refine meets_bind (meets_get (released_stable.and single_stable) fun _ hl => hl.2) fun state => ?_
  refine meets_ite (fun _ => meets_pure fun _ hl => hl.2.2) fun _ => ?_
  exact meets_bind ((sendByte_single x).pre fun _ hl => hl.2) fun code => meets_pure fun _ hl => hl

theorem flush_single : Meets HostEvent.Steady Single flush (fun _ => Single) Single :=
  meets_bind doTasks_single fun _ => meets_bind (deviceFlush_single.pre fun _ hl => hl.2) fun _ => meets_pure fun _ hl => hl.2

end CdcIn

theorem CdcCall.run_single {calls : List CdcCall} (h : ∀ call ∈ calls, call.Sketch) :
    Meets HostEvent.Steady Single (run calls) (fun _ => Single) Single := by
  induction calls with
  | nil => exact meets_pure fun _ hl => hl
  | cons call rest ih =>
    have hcall : Meets HostEvent.Steady Single call.perform (fun _ => Single) Single := by
      have hsketch := h call List.mem_cons_self
      cases call with
      | write x => exact meets_bind (write_single x) fun _ => meets_pure fun _ hl => hl
      | flush => exact meets_bind flush_single fun _ => meets_pure fun _ hl => hl
      | sendByte | sendData | deviceFlush | deviceUsbTask => exact hsketch.elim
    refine meets_bind hcall fun _ => meets_bind (ih fun c hc => h c (List.mem_cons_of_mem call hc)) fun _ => meets_pure fun _ hl => hl

/-- A sketch that writes and flushes as it likes, on a port that stays open, sends no packet with
more than one byte, however fast or slow the host polls. -/
theorem usb_serial_single_bytes {l : CdcIn} (hstate : l.deviceState = .configured) (hrate : l.baudRateBPS ≠ 0) (hbank : l.bank = [])
    (htaken : l.taken = []) {calls : List CdcCall} (hcalls : ∀ call ∈ calls, call.Sketch) {moments : List (List HostEvent)}
    (hmoments : Allowed HostEvent.Steady moments) :
    Outcome HostEvent.Steady (fun _ l' => ∀ p ∈ l'.packets, p.length ≤ 1) (fun l' => ∀ p ∈ l'.packets, p.length ≤ 1)
      (run calls ⟨l,moments⟩) := by
  have hpackets (l' : CdcIn) (h : l'.Single) : ∀ p ∈ l'.packets, p.length ≤ 1 := by
    intro p hp
    rcases List.mem_append.mp hp with htaken | hbusy
    · exact h.taken p htaken
    · split at hbusy
      · rw [List.mem_singleton.mp hbusy]
        exact h.bank
      · exact absurd hbusy List.not_mem_nil
  have hstart : l.Single := by
    refine ⟨hstate,hrate,by rw [hbank]; exact Nat.zero_le 1,?_⟩
    rw [htaken]
    exact fun p hp => absurd hp List.not_mem_nil
  exact ((run_single hcalls).mono (fun _ hl => hl) (fun _ => hpackets) hpackets) ⟨l,moments⟩ hmoments hstart

/-- Two bytes go out in two packets. -/
theorem usb_serial_single_bytes_two :
    run [.write 1,.write 2] ⟨.opened 9600,List.replicate 28 [] ++ List.replicate 3 [.poll]⟩ =
        .ok [true,true] ⟨⟨[2],false,[[1]],0,.configured,false,9600,none,.done⟩,[]⟩ ∧
      ∀ p ∈ packets ⟨[2],false,[[1]],0,.configured,false,9600,none,.done⟩, p.length ≤ 1 := by
  have hrun : run [.write 1,.write 2] ⟨.opened 9600,List.replicate 28 [] ++ List.replicate 3 [.poll]⟩ =
      .ok [true,true] ⟨⟨[2],false,[[1]],0,.configured,false,9600,none,.done⟩,[]⟩ := rfl
  have hmoments : Allowed HostEvent.Steady (List.replicate 28 [] ++ List.replicate 3 [.poll]) := by
    simp [Allowed,HostEvent.Steady]
  have h := usb_serial_single_bytes (l := .opened 9600) rfl (by decide) rfl rfl
    (by simp [Sketch] : ∀ call ∈ [CdcCall.write 1,CdcCall.write 2], call.Sketch) hmoments
  rw [hrun] at h
  exact ⟨hrun,h.2⟩

end ArduinoAT90USB.Core
