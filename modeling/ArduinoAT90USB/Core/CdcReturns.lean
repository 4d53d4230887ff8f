import ArduinoAT90USB.Core.CdcSerial

/-! How long a call of a sketch can take. The waits for the bank count frames and give up; those of
a control request end when the host has done its part. -/
namespace ArduinoAT90USB.Core
open Foundation Foundation.Surroundings CdcIn CdcCall

def HostEvent.isFrame : HostEvent → Bool
  | .frame => true
  | .poll | .device _ | .stall _ | .lineEncoding _ | .configure | .setup _ | .serve => false

def frameCount (moments : List (List HostEvent)) : Nat := moments.flatten.countP HostEvent.isFrame

def frames (s : Situation CdcIn HostEvent) : Nat := frameCount s.moments

/-- Before `d` frames have begun the host ends its part in a control request. -/
def ServedNext (d : Nat) (moments : List (List HostEvent)) : Prop :=
  ∀ first, first <+: moments → d ≤ frameCount first → ∃ now ∈ first, .serve ∈ now

/-- No control request has come, and none comes. -/
def Silent (s : Situation CdcIn HostEvent) : Prop := s.state.setup = none ∧ ∀ now ∈ s.moments, ∀ wait, .setup wait ∉ now

/-- The frame number has 11 bits, a frame is longer than the time between two accesses, and the
host begins no control request, or ends its part in each within `d` frames. -/
structure Paced (d : Nat) (s : Situation CdcIn HostEvent) : Prop where
  number : s.state.frameNumber.toNat < 2048
  pace : ∀ now ∈ s.moments, now.countP HostEvent.isFrame ≤ 1
  control : Silent s ∨ ∀ later, later <:+ s.moments → ServedNext d later

section Time
variable {d : Nat} {l : CdcIn} {now : List HostEvent} {later : List (List HostEvent)} {x : UInt8}

theorem CdcIn.happen_frameNumber (e : HostEvent) (h : l.frameNumber.toNat < 2048) :
    (l.happen e).frameNumber.toNat = (l.frameNumber.toNat + (if e.isFrame then 1 else 0)) % 2048 := by
  have hsame : l.frameNumber.toNat = (l.frameNumber.toNat + 0) % 2048 := (Nat.mod_eq_of_lt h).symm
  cases e with
  | frame =>
    change ((l.frameNumber + 1) % 2048).toNat = (l.frameNumber.toNat + 1) % 2048
    rw [UInt16.toNat_mod,UInt16.toNat_add]
    change (l.frameNumber.toNat + 1) % 65536 % 2048 = _
    omega
  | poll =>
    rw [happen]
    split
    · exact hsame
    · exact hsame
  | stall stalled => cases stalled <;> exact hsame
  | device | lineEncoding | configure | setup | serve => exact hsame

theorem CdcIn.foldl_frameNumber (now : List HostEvent) (h : l.frameNumber.toNat < 2048) :
    (now.foldl happen l).frameNumber.toNat = (l.frameNumber.toNat + now.countP HostEvent.isFrame) % 2048 := by
  induction now generalizing l with
  | nil => exact (Nat.mod_eq_of_lt h).symm
  | cons e rest ih =>
    have hstep := l.happen_frameNumber e h
    rw [List.foldl_cons,ih (by omega),hstep,List.countP_cons]
    omega

/-- Only a packet from the host begins a request. -/
theorem CdcIn.setup_stable : Stable happen (fun e => ∀ wait, e ≠ .setup wait) fun l => l.setup = none := by
  intro l e he h
  cases e with
  | poll =>
    rw [happen]
    split <;> exact h
  | stall stalled => cases stalled <;> exact h
  | setup wait => exact absurd rfl (he wait)
  | frame | device | lineEncoding | configure | serve => exact h

/-- A request that is over stays over until the driver takes up another. -/
theorem CdcIn.request_stable : Stable happen (fun _ => True) fun l => l.request = .done := by
  intro l e _ h
  cases e with
  | poll =>
    rw [happen]
    split <;> exact h
  | stall stalled => cases stalled <;> exact h
  | serve => rfl
  | frame | device | lineEncoding | configure | setup => exact h

theorem CdcIn.served_request (h : .serve ∈ now) (l : CdcIn) : (now.foldl happen l).request = .done := by
  obtain ⟨before,after,rfl⟩ := List.append_of_mem h
  rw [List.foldl_append,List.foldl_cons]
  exact request_stable.foldl (fun _ _ => trivial) (rfl : ((before.foldl happen l).happen .serve).request = .done)

theorem frameCount_cons (now : List HostEvent) (later : List (List HostEvent)) :
    frameCount (now :: later) = now.countP HostEvent.isFrame + frameCount later := by
  unfold frameCount
  rw [List.flatten_cons,List.countP_append]

theorem ServedNext.pos (h : ServedNext d later) : 0 < d := by
  apply Nat.pos_of_ne_zero
  rintro rfl
  obtain ⟨now,hnow,-⟩ := h [] List.nil_prefix (Nat.zero_le _)
  cases hnow

theorem ServedNext.tail (h : ServedNext d (now :: later)) (hnow : .serve ∉ now) :
    ServedNext (d - now.countP HostEvent.isFrame) later := by
  intro first hfirst hd
  obtain ⟨now',hnow',hserve⟩ := h (now :: first) (List.cons_prefix_cons.mpr ⟨rfl,hfirst⟩) (by rw [frameCount_cons]; omega)
  rcases List.mem_cons.mp hnow' with rfl | hmem
  · exact absurd hserve hnow
  · exact ⟨now',hmem,hserve⟩

/-- `n` accesses later at most `n` frames have begun, and the frame number shows how many. -/
structure Elapsed (d : Nat) (s t : Situation CdcIn HostEvent) (n : Nat) : Prop where
  paced : Paced d t
  counted : ∃ k ≤ n, frames s = frames t + k ∧ t.state.frameNumber.toNat = (s.state.frameNumber.toNat + k) % 2048
  moments : t.moments.length + n = s.moments.length

theorem Elapsed.trans {s t u : Situation CdcIn HostEvent} {m n : Nat} (h : Elapsed d s t m) (h' : Elapsed d t u n) :
    Elapsed d s u (m + n) := by
  obtain ⟨j,hj,hframes,hnumber⟩ := h.counted
  obtain ⟨k,hk,hframes',hnumber'⟩ := h'.counted
  have hm := h.moments
  have hn := h'.moments
  refine ⟨h'.paced,⟨j + k,by omega,by omega,?_⟩,by omega⟩
  rw [hnumber',hnumber]
  omega

theorem Elapsed.used {s t : Situation CdcIn HostEvent} {n : Nat} (h : Elapsed d s t n) : frames s ≤ frames t + n := by
  obtain ⟨k,hk,hframes,-⟩ := h.counted
  omega

theorem access_elapsed {s : Situation CdcIn HostEvent} (hs : Paced d s) (h : 1 ≤ frames s) {f : CdcIn → CdcIn}
    (hnumber : ∀ l, (f l).frameNumber = l.frameNumber) (hsetup : ∀ l, l.setup = none → (f l).setup = none) {α : Type} (g : CdcIn → α) :
    ∃ now later, s.moments = now :: later ∧
      access happen (fun l => (g l,f l)) s = .ok (g (now.foldl happen s.state)) ⟨f (now.foldl happen s.state),later⟩ ∧
      Elapsed d s ⟨f (now.foldl happen s.state),later⟩ 1 := by
  obtain ⟨l,moments⟩ := s
  cases moments with
  | nil => exact (Nat.not_succ_le_zero 0 h).elim
  | cons now later =>
    have hframes := l.foldl_frameNumber now hs.number
    refine ⟨now,later,rfl,rfl,⟨?_,?_,?_⟩,?_,rfl⟩
    · change (f (now.foldl happen l)).frameNumber.toNat < 2048
      rw [hnumber,hframes]
      exact Nat.mod_lt _ (by decide)
    · exact fun n hn => hs.pace n (List.mem_cons_of_mem now hn)
    · refine hs.control.imp (fun hsilent => ⟨?_,fun n hn => hsilent.2 n (List.mem_cons_of_mem now hn)⟩) fun hserved after hafter => ?_
      · have hnone : ∀ e ∈ now, ∀ wait, e ≠ .setup wait := fun e he wait hsetup => hsilent.2 now List.mem_cons_self wait (hsetup ▸ he)
        exact hsetup _ (setup_stable.foldl hnone hsilent.1)
      · exact hserved after (hafter.trans (List.suffix_cons now later))
    · refine ⟨now.countP HostEvent.isFrame,hs.pace now List.mem_cons_self,?_,?_⟩
      · rw [frames,frameCount_cons,Nat.add_comm]
        rfl
      · change (f (now.foldl happen l)).frameNumber.toNat = _
        rw [hnumber,hframes]

theorem get_elapsed {s : Situation CdcIn HostEvent} (hs : Paced d s) (h : 1 ≤ frames s) {α : Type} (f : CdcIn → α) :
    ∃ now t, s.moments = now :: t.moments ∧ t.state = now.foldl happen s.state ∧ get f s = .ok (f t.state) t ∧ Elapsed d s t 1 := by
  obtain ⟨now,later,hmoments,hget,helapsed⟩ := access_elapsed hs h (f := id) (fun _ => rfl) (fun _ h => h) f
  exact ⟨now,⟨now.foldl happen s.state,later⟩,hmoments,rfl,hget,helapsed⟩

theorem returns_get {α : Type} (f : CdcIn → α) : Returns (Paced d) frames 1 (get f) := by
  intro s hs _ h
  obtain ⟨now,t,-,-,hget,helapsed⟩ := get_elapsed hs h f
  exact ⟨_,t,hget,helapsed.paced,trivial,helapsed.used⟩

theorem returns_set {f : CdcIn → CdcIn} (hnumber : ∀ l, (f l).frameNumber = l.frameNumber)
    (hsetup : ∀ l, l.setup = none → (f l).setup = none) : Returns (Paced d) frames 1 (set f) := by
  intro s hs _ h
  obtain ⟨now,later,-,hset,helapsed⟩ := access_elapsed hs h hnumber hsetup fun _ => ()
  exact ⟨_,_,hset,helapsed.paced,trivial,helapsed.used⟩

/-- One turn of the waiting loop leaves it, or has seen that a frame has begun, or none has. -/
inductive WaitTurn (d : Nat) (s : Situation CdcIn HostEvent) (v : UInt8 × UInt16) :
    EStateM.Result Unit (Situation CdcIn HostEvent) (ReadyWait ⊕ (UInt8 × UInt16)) → Prop
  | left {code : ReadyWait} {t : Situation CdcIn HostEvent} (paced : Paced d t) (used : frames s ≤ frames t + 4) :
      WaitTurn d s v (.ok (.inl code) t)
  | frame {t : Situation CdcIn HostEvent} (elapsed : Elapsed d s t 4) (more : v.1 ≠ 0) :
      WaitTurn d s v (.ok (.inr (v.1 - 1,t.state.frameNumber)) t)
  | same {t : Situation CdcIn HostEvent} (elapsed : Elapsed d s t 4) (number : t.state.frameNumber = v.2) :
      WaitTurn d s v (.ok (.inr v) t)

theorem waitTurn_cases {s : Situation CdcIn HostEvent} {v : UInt8 × UInt16} (hs : Paced d s) (h : 4 ≤ frames s) :
    WaitTurn d s v (waitTurn v s) := by
  obtain ⟨-,t₁,-,-,hget₁,h₁⟩ := get_elapsed hs (by omega) fun l => !l.busy
  have hused₁ := h₁.used
  rw [waitTurn,isInReady,TaskLogic.bind_ok hget₁]
  by_cases hready : (!t₁.state.busy) = true
  · rw [if_pos hready]
    exact .left h₁.paced (by omega)
  obtain ⟨-,t₂,-,-,hget₂,h₂⟩ := get_elapsed h₁.paced (by omega) deviceState
  have hused₂ := h₂.used
  rw [if_neg hready,TaskLogic.bind_ok hget₂]
  by_cases hunattached : t₂.state.deviceState = .unattached
  · rw [if_pos hunattached]
    exact .left h₂.paced (by omega)
  rw [if_neg hunattached]
  by_cases hsuspended : t₂.state.deviceState = .suspended
  · rw [if_pos hsuspended]
    exact .left h₂.paced (by omega)
  obtain ⟨-,t₃,-,-,hget₃,h₃⟩ := get_elapsed h₂.paced (by omega) isStalled
  have hused₃ := h₃.used
  rw [if_neg hsuspended,TaskLogic.bind_ok hget₃]
  by_cases hstalled : t₃.state.isStalled = true
  · rw [if_pos hstalled]
    exact .left h₃.paced (by omega)
  obtain ⟨-,t₄,-,-,hget₄,h₄⟩ := get_elapsed h₃.paced (by omega) frameNumber
  have helapsed := ((h₁.trans h₂).trans h₃).trans h₄
  rw [if_neg hstalled,TaskLogic.bind_ok hget₄]
  by_cases hframe : t₄.state.frameNumber ≠ v.2
  · rw [if_pos hframe]
    by_cases hzero : v.1 = 0
    · rw [if_pos hzero]
      exact .left h₄.paced helapsed.used
    · rw [if_neg hzero]
      exact .frame helapsed hzero
  · rw [if_neg hframe]
    exact .same helapsed (not_not.mp hframe)

/-- With so many more frames to wait for, the loop ends within four times as many and four. -/
theorem turns_return {n : Nat} {s : Situation CdcIn HostEvent} {r : UInt8} {number : UInt16} (hs : Paced d s)
    (hnumber : s.state.frameNumber = number) (hturns : s.moments.length < n) (h : 4 * (r.toNat + 1) ≤ frames s) :
    ∃ code t, turns waitTurn n (r,number) s = .ok code t ∧ Paced d t ∧ frames s ≤ frames t + 4 * (r.toNat + 1) := by
  induction n generalizing s r number with
  | zero => omega
  | succ n ih =>
    have hcases := waitTurn_cases (v := (r,number)) hs (by omega)
    generalize hr : waitTurn (r,number) s = result at hcases
    cases hcases with
    | left paced used => exact ⟨_,_,turns_left hr n,paced,by omega⟩
    | frame elapsed more =>
      rw [turns_right hr]
      have hone : 1 ≤ r.toNat := Nat.pos_of_ne_zero fun h => more (UInt8.toNat_inj.mp h)
      have hless : (r - 1).toNat = r.toNat - 1 := UInt8.toNat_sub_of_le r 1 (UInt8.le_iff_toNat_le.mpr hone)
      have hmoments := elapsed.moments
      have hused := elapsed.used
      obtain ⟨code,u,hu,hpaced,hle⟩ := ih (r := r - 1) elapsed.paced rfl (by omega) (by omega)
      exact ⟨code,u,hu,hpaced,by omega⟩
    | @same t elapsed hsame =>
      rw [turns_right hr]
      -- the frame number is the same, so no frame has begun
      obtain ⟨k,hk,hframes,hcount⟩ := elapsed.counted
      have hold := hs.number
      have hmoments := elapsed.moments
      change t.state.frameNumber = number at hsame
      rw [hsame,← hnumber] at hcount
      obtain ⟨code,u,hu,hpaced,hle⟩ := ih (r := r) elapsed.paced hsame (by omega) (by omega)
      exact ⟨code,u,hu,hpaced,by omega⟩

theorem returns_wait : Returns (Paced d) frames 405 waitUntilReady := by
  intro s hs _ h
  obtain ⟨-,t,-,-,hget,helapsed⟩ := get_elapsed hs (by omega) frameNumber
  have hused := helapsed.used
  have htimeout : usbStreamTimeoutMs.toNat = 100 := rfl
  obtain ⟨code,u,hu,hpaced,hle⟩ := turns_return (r := usbStreamTimeoutMs) helapsed.paced rfl (Nat.lt_succ_self _) (by omega)
  refine ⟨code,u,?_,hpaced,trivial,by omega⟩
  rw [waitUntilReady,TaskLogic.bind_ok hget]
  exact hu

theorem returns_clearIn : Returns (Paced d) frames 1 clearIn := returns_set (fun _ => rfl) fun _ h => h

theorem returns_isOpen : Returns (Paced d) frames 2 isOpen := by
  refine returns_bind (k := 1) (returns_get _) fun state => ?_
  refine returns_ite ((returns_pure _).mono (by decide)) ?_
  exact returns_bind (returns_get _) fun rate => returns_pure _

theorem returns_sendByte (x : UInt8) : Returns (Paced d) frames 411 (sendByte x) := by
  have hwrite : Returns (Paced d) frames 1 (write8 x) := by
    refine returns_set (fun l => ?_) fun l hl => ?_
    · split <;> rfl
    · split <;> exact hl
  refine returns_bind (k := 409) returns_isOpen fun opened => ?_
  refine returns_ite ?_ ((returns_pure _).mono (by decide))
  refine returns_bind (k := 408) (returns_get _) fun room => ?_
  refine returns_ite ((returns_bind hwrite fun _ => returns_pure _).mono (by decide)) ?_
  refine returns_bind (k := 407) returns_clearIn fun _ => ?_
  refine returns_bind (k := 2) returns_wait fun code => ?_
  exact returns_ite ((returns_bind hwrite fun _ => returns_pure _).mono (by decide)) ((returns_pure _).mono (by decide))

theorem returns_deviceFlush : Returns (Paced d) frames 412 deviceFlush := by
  refine returns_bind (k := 410) returns_isOpen fun opened => ?_
  refine returns_ite ?_ ((returns_pure _).mono (by decide))
  refine returns_bind (k := 409) (returns_get _) fun bytes => ?_
  refine returns_ite ((returns_pure _).mono (by decide)) ?_
  refine returns_bind (k := 408) (returns_get _) fun room => ?_
  refine returns_bind (k := 407) returns_clearIn fun _ => ?_
  refine returns_ite ((returns_pure _).mono (by decide)) ?_
  refine returns_bind (k := 2) returns_wait fun code => ?_
  exact returns_ite ((returns_bind returns_clearIn fun _ => returns_pure _).mono (by decide)) ((returns_pure _).mono (by decide))

theorem requestTurns_over {n : Nat} {s : Situation CdcIn HostEvent} (hs : Paced d s) (hover : s.state.request = .done)
    (hturns : s.moments.length < n) (h : 1 ≤ frames s) :
    ∃ t, turns requestTurn n () s = .ok () t ∧ Paced d t ∧ frames s ≤ frames t + 1 := by
  cases n with
  | zero => omega
  | succ n =>
    obtain ⟨now,t,-,hstate,hget,helapsed⟩ := get_elapsed hs h request
    have hrequest : t.state.request = .done := hstate ▸ request_stable.foldl (fun _ _ => trivial) hover
    have hturn : requestTurn () s = .ok (.inl ()) t := by
      rw [requestTurn,TaskLogic.bind_ok hget,hrequest]
      rfl
    exact ⟨t,turns_left hturn n,helapsed.paced,helapsed.used⟩

/-- One turn of the loop in a control request leaves it, or the host has ended its part meanwhile, or
it has to do so in fewer frames. -/
inductive RequestTurn (d j : Nat) (s : Situation CdcIn HostEvent) :
    EStateM.Result Unit (Situation CdcIn HostEvent) (Unit ⊕ Unit) → Prop
  | left {t : Situation CdcIn HostEvent} (paced : Paced d t) (used : frames s ≤ frames t + 2) : RequestTurn d j s (.ok (.inl ()) t)
  | served {t : Situation CdcIn HostEvent} (elapsed : Elapsed d s t 2) (done : t.state.request = .done) :
      RequestTurn d j s (.ok (.inr ()) t)
  | waits {t : Situation CdcIn HostEvent} {i : Nat} (elapsed : Elapsed d s t 2) (next : ServedNext i t.moments)
      (used : frames s + i = frames t + j) : RequestTurn d j s (.ok (.inr ()) t)

theorem requestTurn_cases {j : Nat} {s : Situation CdcIn HostEvent} (hs : Paced d s) (hserved : ServedNext j s.moments)
    (h : 2 ≤ frames s) : RequestTurn d j s (requestTurn () s) := by
  obtain ⟨now₁,t₁,hmoments₁,hstate₁,hget₁,h₁⟩ := get_elapsed hs (by omega) request
  have hused₁ := h₁.used
  rw [requestTurn,TaskLogic.bind_ok hget₁]
  by_cases hpending : t₁.state.request ≠ .done
  swap
  · rw [if_neg hpending]
    exact .left h₁.paced (by omega)
  obtain ⟨now₂,t₂,hmoments₂,hstate₂,hget₂,h₂⟩ := get_elapsed h₁.paced (by omega) deviceState
  have helapsed := h₁.trans h₂
  rw [if_pos hpending,TaskLogic.bind_ok hget₂]
  by_cases hleft : t₂.state.deviceState = .unattached ∧ t₁.state.request = .attached
  · rw [if_pos hleft]
    exact .left h₂.paced helapsed.used
  rw [if_neg hleft]
  by_cases hserve₂ : .serve ∈ now₂
  · exact .served helapsed (hstate₂ ▸ served_request hserve₂ t₁.state)
  -- the host has not ended its part at either access
  have hserve₁ : .serve ∉ now₁ := fun hserve => hpending (hstate₁ ▸ served_request hserve s.state)
  rw [hmoments₁,hmoments₂] at hserved
  have hnext := (hserved.tail hserve₁).tail hserve₂
  have hj := hnext.pos
  have hframes : frames s = now₁.countP HostEvent.isFrame + (now₂.countP HostEvent.isFrame + frames t₂) := by
    rw [frames,hmoments₁,frameCount_cons,hmoments₂,frameCount_cons]
    rfl
  exact .waits helapsed hnext (by omega)

/-- The host ends its part before `j` frames have begun, and the loop ends two frames later at most. -/
theorem requestTurns_return {n j : Nat} {s : Situation CdcIn HostEvent} (hs : Paced d s) (hserved : ServedNext j s.moments)
    (hturns : s.moments.length < n) (h : j + 2 ≤ frames s) :
    ∃ t, turns requestTurn n () s = .ok () t ∧ Paced d t ∧ frames s ≤ frames t + (j + 2) := by
  induction n generalizing s j with
  | zero => omega
  | succ n ih =>
    have hj := hserved.pos
    have hcases := requestTurn_cases hs hserved (by omega)
    generalize hr : requestTurn () s = result at hcases
    cases hcases with
    | left paced used => exact ⟨_,turns_left hr n,paced,by omega⟩
    | served elapsed done =>
      rw [turns_right hr]
      have hmoments := elapsed.moments
      have hused := elapsed.used
      obtain ⟨u,hu,hpaced,hle⟩ := requestTurns_over elapsed.paced done (n := n) (by omega) (by omega)
      exact ⟨u,hu,hpaced,by omega⟩
    | waits elapsed next used =>
      rw [turns_right hr]
      have hmoments := elapsed.moments
      obtain ⟨u,hu,hpaced,hle⟩ := ih elapsed.paced next (by omega) (by omega)
      exact ⟨u,hu,hpaced,by omega⟩

theorem returns_usbTask : Returns (Paced d) frames (d + 5) usbUsbTask := by
  intro s hs _ h
  obtain ⟨-,t₁,-,-,hget₁,h₁⟩ := get_elapsed hs (by omega) deviceState
  have hused₁ := h₁.used
  rw [usbUsbTask,TaskLogic.bind_ok hget₁]
  by_cases hunattached : t₁.state.deviceState = .unattached
  · rw [if_pos hunattached]
    exact ⟨_,t₁,rfl,h₁.paced,trivial,by omega⟩
  obtain ⟨-,t₂,-,-,hget₂,h₂⟩ := get_elapsed h₁.paced (by omega) fun l => l.setup.isSome
  have hused₂ := h₂.used
  rw [if_neg hunattached,TaskLogic.bind_ok hget₂]
  by_cases hsetup : t₂.state.setup.isSome = true
  swap
  · rw [if_neg hsetup]
    exact ⟨_,t₂,rfl,h₂.paced,trivial,by omega⟩
  rw [if_pos hsetup]
  have hserved : ∀ later, later <:+ t₂.moments → ServedNext d later :=
    h₂.paced.control.resolve_left fun hsilent => by
      rw [hsilent.1] at hsetup
      cases hsetup
  obtain ⟨now,later,hmoments,hset,h₃⟩ := access_elapsed (f := fun l => {l with setup := none, request := l.setup.getD .done})
    h₂.paced (by omega) (fun _ => rfl) (fun _ _ => rfl) fun _ => ()
  have hused₃ := h₃.used
  have hlater : later <:+ t₂.moments := hmoments ▸ List.suffix_cons now later
  obtain ⟨t,ht,hpaced,hused⟩ := requestTurns_return h₃.paced (hserved later hlater) (Nat.lt_succ_self later.length) (by omega)
  refine ⟨(),t,?_,hpaced,trivial,by omega⟩
  exact (TaskLogic.bind_ok hset _).trans ht

theorem returns_doTasks : Returns (Paced d) frames (d + 420) doTasks := by
  refine (returns_bind (j := 415) (k := d + 5) ?_ fun _ => returns_usbTask).mono (by omega)
  refine returns_bind (k := 413) returns_isOpen fun opened => ?_
  refine returns_ite ?_ ((returns_pure _).mono (by decide))
  refine returns_bind (k := 412) (returns_get _) fun ready => ?_
  exact returns_ite (returns_bind returns_deviceFlush fun _ => returns_pure _) ((returns_pure _).mono (by decide))

theorem returns_sketch {call : CdcCall} (h : call.Sketch) : Returns (Paced d) frames (d + 832) call.perform := by
  cases call with
  | write x =>
    refine returns_bind (k := 0) ?_ fun _ => returns_pure _
    refine returns_bind (k := 412) returns_doTasks fun _ => ?_
    refine returns_bind (k := 411) (returns_get _) fun state => ?_
    exact returns_ite ((returns_pure _).mono (by decide)) (returns_bind (returns_sendByte x) fun _ => returns_pure _)
  | flush =>
    refine returns_bind (k := 0) ?_ fun _ => returns_pure _
    exact returns_bind (k := 412) returns_doTasks fun _ => returns_bind returns_deviceFlush fun _ => returns_pure _
  | sendByte | sendData | deviceFlush | deviceUsbTask => exact h.elim

end Time

/-- The host does not go on with a request it has begun, and the device stays attached. -/
def HostEvent.Abandons : HostEvent → Prop
  | .serve | .setup .done | .device .unattached => False
  | _ => True

namespace CdcIn

/-- A request is there for which the driver waits. -/
structure Requested (l : CdcIn) : Prop where
  setup : ∃ wait, l.setup = some wait ∧ wait ≠ .done
  attached : l.deviceState ≠ .unattached

theorem Requested.received {l : CdcIn} (h : l.Requested) : l.setup.isSome = true := by
  obtain ⟨wait,hsetup,-⟩ := h.setup
  rw [hsetup]
  rfl

/-- The driver waits for the host in a request. -/
structure Pending (l : CdcIn) : Prop where
  request : l.request ≠ .done
  attached : l.deviceState ≠ .unattached

theorem Requested.begin {l : CdcIn} (h : l.Requested) : Pending {l with setup := none, request := l.setup.getD .done} := by
  obtain ⟨wait,hsetup,hwait⟩ := h.setup
  refine ⟨?_,h.attached⟩
  rw [hsetup]
  exact hwait

theorem requested_stable : Stable happen HostEvent.Abandons Requested := by
  intro l e he h
  cases e with
  | poll =>
    rw [happen]
    split <;> exact ⟨h.setup,h.attached⟩
  | stall stalled => cases stalled <;> exact ⟨h.setup,h.attached⟩
  | device state =>
    refine ⟨h.setup,?_⟩
    rintro (rfl : state = .unattached)
    exact he
  | serve => exact he.elim
  | setup wait =>
    refine ⟨⟨wait,rfl,?_⟩,h.attached⟩
    rintro rfl
    exact he
  | frame | lineEncoding | configure => exact ⟨h.setup,h.attached⟩

theorem pending_stable : Stable happen HostEvent.Abandons Pending := by
  intro l e he h
  cases e with
  | poll =>
    rw [happen]
    split <;> exact ⟨h.request,h.attached⟩
  | stall stalled => cases stalled <;> exact ⟨h.request,h.attached⟩
  | device state =>
    refine ⟨h.request,?_⟩
    rintro (rfl : state = .unattached)
    exact he
  | serve => exact he.elim
  | frame | lineEncoding | configure | setup => exact ⟨h.request,h.attached⟩

theorem usbTask_hangs : Meets HostEvent.Abandons Requested usbUsbTask (fun _ _ => False) fun _ => True := by
  have htrue (l : CdcIn) (_ : l.Requested) : True := trivial
  refine meets_bind (meets_get requested_stable htrue) fun state => ?_
  refine meets_ite (fun hstate => meets_pure fun l hl => hl.2.attached (hl.1.symm.trans hstate)) fun _ => ?_
  refine meets_bind ((meets_get requested_stable htrue).pre fun _ hl => hl.2) fun received => ?_
  refine meets_ite (fun _ => ?_) fun hreceived => meets_pure fun l hl => hreceived (hl.1.trans hl.2.received)
  refine meets_bind (R := fun _ => Pending) ?_ fun _ => ?_
  · exact (meets_set (Q := Pending) requested_stable (fun l hl => hl.begin) htrue).pre fun l hl => hl.2
  refine meets_loop (I := fun _ => Pending) (fun _ => ?_) (fun _ _ _ => trivial) ()
  refine meets_bind (meets_get pending_stable fun _ _ => trivial) fun wait => ?_
  refine meets_ite (fun _ => ?_) fun hdone => meets_pure fun l hl => hdone (hl.1 ▸ hl.2.request)
  refine meets_bind ((meets_get pending_stable fun _ _ => trivial).pre fun _ hl => hl.2) fun state => ?_
  exact meets_ite (fun hleft => meets_pure fun l hl => hl.2.attached (hl.1.symm.trans hleft.1)) fun _ => meets_pure fun _ hl => hl.2

end CdcIn

/-- While the host does not go on with a control request it has begun, no call of a sketch returns,
however many frames begin. -/
theorem usb_serial_hangs {call : CdcCall} (hcall : call.Sketch) :
    Meets HostEvent.Abandons Requested call.perform (fun _ _ => False) fun _ => True := by
  have htasks : Meets HostEvent.Abandons Requested doTasks (fun _ _ => False) fun _ => True :=
    meets_bind (meets_deviceUsbTask requested_stable (fun _ hl => ⟨hl.setup,hl.attached⟩) fun _ _ => trivial) fun _ => usbTask_hangs
  have hnever {α β : Type} (m : α → Driver β) : ∀ a, Meets HostEvent.Abandons (fun _ => False) (m a) (fun _ _ => False) fun _ => True :=
    fun _ _ _ hs => hs.elim
  cases call with
  | write x => exact meets_bind (meets_bind htasks (hnever _)) (hnever _)
  | flush => exact meets_bind (meets_bind htasks (hnever _)) (hnever _)
  | sendByte | sendData | deviceFlush | deviceUsbTask => exact hcall.elim

end ArduinoAT90USB.Core
