import ArduinoAT90USB.Core.CdcConserve

/-! How the bytes are cut into packets. A host takes a packet that is shorter than the endpoint for
the end of a transfer; a full last packet has to be followed by an empty one. -/
namespace ArduinoAT90USB.Core
open Foundation.Surroundings

namespace CdcIn
variable {E : HostEvent → Prop} {P : CdcIn → Prop} {l : CdcIn} {x : UInt8}

def packets (l : CdcIn) : List (List UInt8) := l.taken ++ if l.busy then [l.bank] else []

def EndsShort (l : CdcIn) : Prop := ∀ p ∈ l.packets.getLast?, p.length < cdcTxrxEpsize

/-- Nothing but a short packet is last when the bank is empty. -/
def Tidy (l : CdcIn) : Prop := l.Released → l.EndsShort

def Terminated (l : CdcIn) : Prop := l.Released ∧ l.EndsShort

theorem happen_packets {e : HostEvent} (he : e.Possible true) : (l.happen e).packets = l.packets := by
  cases l.happen_bank e with
  | kept bank busy taken => rw [packets,packets,bank,busy,taken]
  | polled full bank busy taken =>
    rw [packets,packets,busy,taken,full]
    exact List.append_nil _
  | emptied event => exact absurd event he.keeps

theorem happen_released {e : HostEvent} (he : e.Possible true) (h : (l.happen e).Released) : l.Released := by
  cases l.happen_bank e with
  | kept bank busy taken =>
    unfold Released at h ⊢
    rwa [bank,busy] at h
  | polled full => exact Or.inl full
  | emptied event => exact absurd event he.keeps

theorem tidy_stable : Stable happen (HostEvent.Possible true) Tidy := by
  intro l e he h hreleased
  have hshort := h (happen_released he hreleased)
  unfold EndsShort at hshort ⊢
  rwa [happen_packets he]

theorem endsShort_clearIn (h : l.bank.length < cdcTxrxEpsize) : EndsShort {l with busy := true} := by
  intro p hp
  change p ∈ (l.taken ++ [l.bank]).getLast? at hp
  rw [List.getLast?_concat] at hp
  cases hp
  exact h

theorem true_stable : Stable happen E fun _ => True := fun _ _ _ h => h

theorem written_not_released (h : l.allowed = true) (x : UInt8) : ¬ Released {l with bank := l.bank ++ [x]} := by
  rintro (hbusy | hbank)
  · rw [(allowed_iff.mp h).1] at hbusy
    cases hbusy
  · exact List.append_ne_nil_of_right_ne_nil _ (List.cons_ne_nil x []) hbank

theorem write8_not_released (x : UInt8) :
    Meets E (fun l => l.allowed = true) (write8 x) (fun _ l => ¬ l.Released) (fun _ => True) := by
  refine meets_set (Q := fun l => ¬ l.Released) allowed_stable (fun l hroom => ?_) fun _ _ => trivial
  rw [if_pos hroom]
  exact written_not_released hroom x

theorem clearIn_released (hP : Stable happen E P) :
    Meets E P clearIn (fun _ l => l.Released) (fun _ => True) :=
  meets_set (Q := Released) hP (fun _ _ => Or.inl rfl) fun _ _ => trivial

/-- A byte that was taken is in the bank, and not handed over yet. -/
theorem sendByte_kept (x : UInt8) :
    Meets E (fun _ => True) (sendByte x) (fun code l => code = .noError → ¬ l.Released) (fun _ => True) := by
  refine meets_bind (meets_isOpen true_stable fun _ _ => trivial) fun opened => ?_
  refine meets_ite (fun _ => ?_) fun _ => meets_pure fun _ _ h => ReadyWait.noConfusion h
  refine meets_bind (meets_get true_stable fun _ _ => trivial) fun room => ?_
  refine meets_ite (fun hroom => ?_) fun _ => ?_
  · refine meets_bind ((write8_not_released x).pre fun l hl => hl.1.symm.trans hroom) fun _ => ?_
    exact meets_pure fun _ hl _ => hl
  refine meets_bind ((clearIn_released true_stable).pre fun _ _ => trivial) fun _ => ?_
  refine meets_bind (meets_wait released_stable fun _ _ => trivial) fun code => ?_
  refine meets_ite (fun hcode => ?_) fun hcode => meets_pure fun _ _ h => absurd h hcode
  refine meets_bind ((write8_not_released x).pre fun l hl => hl.2.allowed (hl.1 hcode)) fun _ => ?_
  exact meets_pure fun _ hl _ => hl

theorem sendData_tidy (data : List UInt8) :
    Meets (HostEvent.Possible true) Tidy (sendData data) (fun code l => code = .noError → l.Tidy) (fun _ => True) := by
  refine meets_bind (meets_isOpen tidy_stable fun _ _ => trivial) fun opened => ?_
  refine meets_ite (fun _ => ?_) fun _ => meets_pure fun _ _ h => ReadyWait.noConfusion h
  refine meets_bind (meets_wait tidy_stable fun _ _ => trivial) fun code => ?_
  refine meets_ite (fun _ => ?_) fun hcode => meets_pure fun _ _ h => absurd h hcode
  -- as long as there is data left, another byte will be put into the bank
  refine (meets_loop (I := fun rest l => rest = [] → l.Tidy) (fun rest => ?_) (fun _ _ _ => trivial) data).pre fun _ hl _ => hl.2
  cases rest with
  | nil => exact meets_pure fun _ hl _ => hl rfl
  | cons x rest =>
    refine meets_bind ((meets_get true_stable fun _ _ => trivial).pre fun _ _ => trivial) fun room => ?_
    refine meets_ite (fun hroom => ?_) fun _ => ?_
    · refine meets_bind ((write8_not_released x).pre fun l hl => hl.1.symm.trans hroom) fun _ => ?_
      exact meets_pure fun _ hl _ hreleased => absurd hreleased hl
    refine meets_bind ((clearIn_released true_stable).pre fun _ _ => trivial) fun _ => ?_
    refine meets_bind ((meets_usbTask true_stable (fun _ _ _ _ => trivial) fun _ _ => trivial).pre fun _ _ => trivial) fun _ => ?_
    refine meets_bind (meets_wait true_stable fun _ _ => trivial) fun code => ?_
    refine meets_ite (fun _ => meets_pure fun _ _ h => absurd h (List.cons_ne_nil x rest)) fun hcode => ?_
    exact meets_pure fun _ _ h => absurd h hcode

theorem deviceFlush_terminates :
    Meets (HostEvent.Possible true) Tidy deviceFlush (fun code l => code = .noError → l.Terminated) (fun _ => True) := by
  refine meets_bind (meets_isOpen tidy_stable fun _ _ => trivial) fun opened => ?_
  refine meets_ite (fun _ => ?_) fun _ => meets_pure fun _ _ h => ReadyWait.noConfusion h
  refine meets_bind (meets_get tidy_stable fun _ _ => trivial) fun bytes => ?_
  refine meets_ite (fun hbytes => meets_pure fun l hl _ => ?_) fun _ => ?_
  · have hreleased : l.Released := Or.inr (List.length_eq_zero_iff.mp (hl.1.symm.trans hbytes))
    exact ⟨hreleased,hl.2 hreleased⟩
  refine meets_bind ((meets_get true_stable fun _ _ => trivial).pre fun _ _ => trivial) fun room => ?_
  cases room with
  | true =>
    refine meets_bind (R := fun _ l => l.Terminated) ?_ fun _ => meets_pure fun _ hl _ => hl
    refine (meets_set allowed_stable ?_ fun _ _ => trivial).pre fun l hl => hl.1.symm
    exact fun l hroom => ⟨Or.inl rfl,endsShort_clearIn (allowed_iff.mp hroom).2⟩
  | false =>
    refine meets_bind ((clearIn_released true_stable).pre fun _ _ => trivial) fun _ => ?_
    refine meets_bind (meets_wait released_stable fun _ _ => trivial) fun code => ?_
    refine meets_ite (fun hcode => ?_) fun hcode => meets_pure fun _ _ h => absurd h hcode
    refine meets_bind (R := fun _ l => l.Terminated) ?_ fun _ => meets_pure fun _ hl _ => hl
    refine (meets_set allowed_stable ?_ fun _ _ => trivial).pre fun l hl => hl.2.allowed (hl.1 hcode)
    exact fun l hroom => ⟨Or.inl rfl,endsShort_clearIn (allowed_iff.mp hroom).2⟩

end CdcIn

namespace CdcCall
open CdcIn

/-- The calls that report whether they have failed. -/
def Reports : CdcCall → Prop
  | .sendByte _ | .sendData _ | .deviceFlush => True
  | .write _ | .flush | .deviceUsbTask => False

theorem perform_tidy {call : CdcCall} (h : call.Reports) :
    Meets (HostEvent.Possible true) Tidy call.perform (fun good l => good = true → l.Tidy) (fun _ => True) := by
  cases call with
  | sendByte x =>
    refine meets_bind ((sendByte_kept x).pre fun _ _ => trivial) fun code => meets_pure fun l hl hcode => ?_
    exact fun hreleased => absurd hreleased (hl (of_decide_eq_true hcode))
  | sendData data => exact meets_bind (sendData_tidy data) fun code => meets_pure fun l hl hcode => hl (of_decide_eq_true hcode)
  | deviceFlush =>
    exact meets_bind deviceFlush_terminates fun code => meets_pure fun l hl hcode _ => (hl (of_decide_eq_true hcode)).2
  | write | flush | deviceUsbTask => exact h.elim

theorem run_tidy {calls : List CdcCall} (h : ∀ call ∈ calls, call.Reports) (w : List UInt8) (good : Bool) :
    Meets (HostEvent.Possible true) (fun l => l.Carries true w ∧ (good = true → l.Tidy)) (run calls)
      (fun goods l => (∀ g ∈ good :: goods, g = true) → l.Tidy) (fun _ => True) := by
  cases good with
  | false =>
    refine (run_sends calls).mono (fun l hl => hl.1) (fun goods l _ hall => ?_) fun _ _ => trivial
    exact Bool.noConfusion (hall false List.mem_cons_self)
  | true =>
    induction calls generalizing w with
    | nil => exact meets_pure fun l hl _ => hl.2 rfl
    | cons call rest ih =>
      have hrest (c : CdcCall) (hc : c ∈ rest) : c.Reports := h c (List.mem_cons_of_mem call hc)
      refine meets_bind (((perform_sends call).and (perform_tidy (h call List.mem_cons_self))).mono (fun l hl => ⟨hl.1,hl.2 rfl⟩)
        (fun _ _ hl => hl) fun _ _ => trivial) fun good => ?_
      cases good with
      | false =>
        -- the calls after a failed one can do what they like
        refine meets_bind (R := fun _ _ => True) ?_ fun goods => meets_pure fun l _ hall => ?_
        · rintro s hmoments ⟨⟨part,-,hl⟩,-⟩
          exact ((run_sends rest).mono (fun _ hl => hl) (fun _ _ _ => trivial) fun _ _ => trivial) s hmoments hl
        · exact Bool.noConfusion (hall false (List.mem_cons_of_mem _ List.mem_cons_self))
      | true =>
        refine meets_bind (R := fun goods l => (∀ g ∈ true :: goods, g = true) → l.Tidy) ?_ fun goods => meets_pure fun l hl hall => ?_
        · rintro s hmoments ⟨⟨part,-,hl⟩,htidy⟩
          exact ih hrest (w ++ part) s hmoments ⟨hl,fun _ => htidy rfl⟩
        · exact hl fun g hg => hall g (List.mem_cons_of_mem _ hg)

theorem Sent.all_good {calls : List CdcCall} {goods : List Bool} {sent : List UInt8} (h : Sent calls goods sent)
    (hall : ∀ good ∈ goods, good = true) : sent = calls.flatMap offered := by
  induction h with
  | nil => rfl
  | @cons call calls good goods part rest hsends _ ih =>
    rw [List.flatMap_cons,← ih fun g hg => hall g (List.mem_cons_of_mem _ hg)]
    have hgood := hall good List.mem_cons_self
    congr 1
    cases call with
    | write x | sendByte x => exact hsends.trans (if_pos hgood)
    | sendData data => exact hsends.2 hgood
    | flush | deviceFlush | deviceUsbTask => exact hsends

def runThenFlush (calls : List CdcCall) : Driver (List Bool × ReadyWait) := do
  let goods ← run calls
  let code ← CdcIn.deviceFlush
  pure (goods,code)

end CdcCall

theorem CdcIn.Released.packets_flatten {l : CdcIn} (h : l.Released) : l.packets.flatten = l.stream := by
  rw [packets,stream,List.flatten_append]
  cases hbusy : l.busy with
  | true => exact congrArg _ (List.append_nil _)
  | false =>
    rcases h with hbusy' | hbank
    · rw [hbusy] at hbusy'
      cases hbusy'
    · rw [hbank]
      rfl

open CdcIn CdcCall

theorem runThenFlush_terminates {calls : List CdcCall} (hcalls : ∀ call ∈ calls, call.Reports) :
    Meets (HostEvent.Possible true) (fun l => l.Carries true [] ∧ l.Tidy) (runThenFlush calls)
      (fun r l => (∀ good ∈ r.1, good = true) → r.2 = .noError → l.packets.flatten = calls.flatMap offered ∧ l.EndsShort)
      (fun _ => True) := by
  have hrun := (run_sends (w := []) calls).and (run_tidy hcalls [] true)
  refine meets_bind (hrun.mono (fun _ hl => ⟨hl.1,hl.1,fun _ => hl.2⟩) (fun _ _ hl => hl) fun _ _ => trivial) fun goods => ?_
  by_cases hall : ∀ good ∈ goods, good = true
  · have htrue : ∀ g ∈ true :: goods, g = true := by
      intro g hg
      rcases List.mem_cons.mp hg with rfl | hg
      · rfl
      · exact hall g hg
    have hpre (l : CdcIn)
        (hl : (∃ sent, Sent calls goods sent ∧ l.Carries true ([] ++ sent)) ∧ ((∀ g ∈ true :: goods, g = true) → l.Tidy)) :
        l.Tidy ∧ l.Carries true (calls.flatMap offered) := by
      obtain ⟨⟨sent,hsent,hl⟩,htidy⟩ := hl
      rw [List.nil_append,hsent.all_good hall] at hl
      exact ⟨htidy htrue,hl⟩
    refine meets_bind ((deviceFlush_terminates.and deviceFlush_carries).mono hpre (fun _ _ hl => hl) fun _ _ => trivial) fun code =>
      meets_pure fun l hl _ hcode => ?_
    obtain ⟨hreleased,hshort⟩ := hl.1 hcode
    exact ⟨hreleased.packets_flatten.trans (hl.2.whole rfl),hshort⟩
  · refine meets_bind (R := fun _ _ => True) ?_ fun code => meets_pure fun l _ hall' => absurd hall' hall
    rintro s hs ⟨⟨sent,-,hl⟩,-⟩
    exact (deviceFlush_carries.mono (fun _ hl => hl) (fun _ _ _ => trivial) fun _ _ => trivial) s hs hl

/-- If calls of the class driver that report failures and the flush behind them all say that all is
well, and the endpoint was not configured again or cleared of a halt, then all the data has been
handed over, in packets of which the last is shorter than the endpoint: the host knows that the
transfer has ended. -/
theorem cdc_flush_terminates {l : CdcIn} (hbank : l.bank = []) (hbusy : l.busy = false) (htaken : l.taken = []) {calls : List CdcCall}
    (hcalls : ∀ call ∈ calls, call.Reports) {moments : List (List HostEvent)}
    (hmoments : Allowed (HostEvent.Possible true) moments) :
    Outcome (HostEvent.Possible true) (fun r l' => (∀ good ∈ r.1, good = true) → r.2 = .noError →
        l'.packets.flatten = calls.flatMap offered ∧ l'.EndsShort)
      (fun _ => True) (runThenFlush calls ⟨l,moments⟩) := by
  have htidy : l.Tidy := by
    intro _ p hp
    rw [packets,hbusy,htaken] at hp
    cases hp
  exact runThenFlush_terminates hcalls ⟨l,moments⟩ hmoments ⟨carries_start hbank htaken,htidy⟩

/-- The host takes the byte that was flushed. -/
theorem cdc_flush_terminates_byte :
    runThenFlush [.sendByte 65] ⟨.opened 9600,List.replicate 9 [.poll]⟩ =
        .ok ([true],.noError) ⟨⟨[65],true,[],0,.configured,false,9600,none,.done⟩,[]⟩ ∧
      packets ⟨[65],true,[],0,.configured,false,9600,none,.done⟩ = [[65]] ∧
      EndsShort ⟨[65],true,[],0,.configured,false,9600,none,.done⟩ := by
  have hrun : runThenFlush [.sendByte 65] ⟨.opened 9600,List.replicate 9 [.poll]⟩ =
      .ok ([true],.noError) ⟨⟨[65],true,[],0,.configured,false,9600,none,.done⟩,[]⟩ := rfl
  have hmoments : Allowed (HostEvent.Possible true) (List.replicate 9 [.poll]) := by simp [Allowed,HostEvent.Possible]
  have hreports : ∀ call ∈ [CdcCall.sendByte 65], call.Reports := by simp [Reports]
  have h := cdc_flush_terminates (l := .opened 9600) rfl rfl rfl hreports hmoments
  rw [hrun] at h
  exact ⟨hrun,rfl,(h.2 (by simp) rfl).2⟩

end ArduinoAT90USB.Core
