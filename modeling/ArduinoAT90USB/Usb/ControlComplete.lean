import ArduinoAT90USB.Usb.ControlWrite

/-! A host that takes its packets and answers, when it likes. The function returns without an error
before the host has had a bounded number of turns, whatever the time between them. -/
namespace ArduinoAT90USB.Usb
open Foundation Foundation.Surroundings

namespace ControlIn

/-- The host does nothing but go on with the transfer. -/
def GoesOn (e : ControlEvent) : Prop := e = .poll ∨ e = .status

/-- A turn of the host: it polls, and then answers if it is done. -/
def hostTurn (now : List ControlEvent) : Bool := [.poll,.status].isSublist now

/-- Nothing else happens in what is left of `N` moments. -/
def Serving (N : Nat) (s : Situation ControlIn ControlEvent) : Prop := Allowed GoesOn s.moments ∧ s.moments.length ≤ N

def hostTurns (s : Situation ControlIn ControlEvent) : Nat := s.moments.countP hostTurn

/-- It has taken the packet if it wants one, and has answered if it is done. -/
structure Settled (l : ControlIn) : Prop where
  taken : l.busy = true → l.ended = true
  answered : l.ended = true → l.outReceived = true

section Events
variable {size : Nat} {wLength : UInt16} {l : ControlIn} {now : List ControlEvent}

theorem live_stable : Stable (happen size wLength) GoesOn Live := by
  intro l e he h
  rcases he with rfl | rfl
  · rw [happen]
    split <;> exact ⟨h.setup,h.attached,h.awake⟩
  · rw [happen]
    split <;> exact ⟨h.setup,h.attached,h.awake⟩

theorem taken_stable : Stable (happen size wLength) GoesOn fun l => l.busy = true → l.ended = true := by
  intro l e he h
  rcases he with rfl | rfl
  · rw [happen]
    split
    · exact Bool.noConfusion
    · exact h
  · rw [happen]
    split <;> exact h

theorem settled_stable : Stable (happen size wLength) GoesOn Settled := by
  intro l e he h
  rcases he with rfl | rfl
  · rw [happen,if_neg]
    · exact h
    · intro hpoll
      simp only [Bool.and_eq_true,Bool.not_eq_true'] at hpoll
      rw [h.taken hpoll.1.1] at hpoll
      cases hpoll.1.2
  · rw [happen]
    split
    · exact ⟨h.taken,fun _ => rfl⟩
    · exact h

theorem answered_stable : Stable (happen size wLength) GoesOn fun l => l.outReceived = true := by
  intro l e he h
  rcases he with rfl | rfl
  · rw [happen]
    split <;> exact h
  · rw [happen]
    split
    · rfl
    · exact h

theorem owned_stable : Stable (happen size wLength) GoesOn fun l => l.busy = false := by
  intro l e he h
  rcases he with rfl | rfl
  · rw [happen,h]
    exact h
  · rw [happen]
    split <;> exact h

theorem taken_of_poll (h : l.Live) : (happen size wLength l .poll).busy = true → (happen size wLength l .poll).ended = true := by
  rw [happen]
  split
  case isTrue => exact Bool.noConfusion
  case isFalse hnot =>
    intro hbusy
    simp only [hbusy,h.setup,Bool.true_and,Bool.not_false,Bool.and_true,Bool.not_eq_true',Bool.not_eq_false] at hnot
    exact hnot

theorem settled_of_status (h : l.busy = true → l.ended = true) : Settled (happen size wLength l .status) := by
  rw [happen]
  split
  case isTrue => exact ⟨h,fun _ => rfl⟩
  case isFalse hnot => exact ⟨h,fun hended => absurd hended hnot⟩

/-- After its turn the host has done all it can do. -/
theorem settled_of_turn (hlive : l.Live) (hnow : ∀ e ∈ now, GoesOn e) (hturn : hostTurn now = true) :
    Settled (now.foldl (happen size wLength) l) := by
  obtain ⟨first,last,rfl,hpoll,hlast⟩ := List.cons_sublist_iff.mp (List.isSublist_iff_sublist.mp hturn)
  obtain ⟨a,b,rfl⟩ := List.append_of_mem hpoll
  obtain ⟨c,d,rfl⟩ := List.append_of_mem (List.singleton_sublist.mp hlast)
  have hfirst : ∀ e ∈ a ++ .poll :: b, GoesOn e := fun e he => hnow e (List.mem_append_left _ he)
  have hsecond : ∀ e ∈ c ++ .status :: d, GoesOn e := fun e he => hnow e (List.mem_append_right _ he)
  have hb : ∀ e ∈ b, GoesOn e := fun e he => hfirst e (List.mem_append_right _ (List.mem_cons_of_mem _ he))
  have hd : ∀ e ∈ d, GoesOn e := fun e he => hsecond e (List.mem_append_right _ (List.mem_cons_of_mem _ he))
  rw [List.foldl_append,List.foldl_append,List.foldl_append,List.foldl_cons,List.foldl_cons]
  have hbefore : (a.foldl (happen size wLength) l).Live :=
    live_stable.foldl (fun e he => hfirst e (List.mem_append_left _ he)) hlive
  refine settled_stable.foldl hd (settled_of_status ?_)
  exact taken_stable.foldl (fun e he => hsecond e (List.mem_append_left _ he)) (taken_stable.foldl hb (taken_of_poll hbefore))

end Events

/-- What is left after `n` accesses that only looked. -/
structure Looks (size : Nat) (wLength : UInt16) (s t : Situation ControlIn ControlEvent) (n : Nat) : Prop where
  serving : Allowed GoesOn t.moments
  live : t.state.Live
  moments : t.moments.length + n = s.moments.length
  used : hostTurns s ≤ hostTurns t + n
  quiet : hostTurns s = hostTurns t ∨ t.state.Settled
  keeps : ∀ P : ControlIn → Prop, Stable (happen size wLength) GoesOn P → P s.state → P t.state

section Looking
variable {size : Nat} {wLength : UInt16} {s t u : Situation ControlIn ControlEvent} {m n N : Nat} {P : ControlIn → Prop}

theorem Looks.trans (h : Looks size wLength s t m) (h' : Looks size wLength t u n) : Looks size wLength s u (m + n) := by
  have hm := h.moments
  have hn := h'.moments
  have hused := h.used
  have hused' := h'.used
  refine ⟨h'.serving,h'.live,by omega,by omega,?_,fun P hP hs => h'.keeps P hP (h.keeps P hP hs)⟩
  rcases h.quiet with hsame | hsettled
  · exact h'.quiet.imp_left hsame.trans
  · exact .inr (h'.keeps Settled settled_stable hsettled)

theorem access_turn {α : Type} (size : Nat) (wLength : UInt16) (hs : Allowed GoesOn s.moments) (h : 1 ≤ hostTurns s)
    (f : ControlIn → α × ControlIn) :
    ∃ now later, s.moments = now :: later ∧ (∀ e ∈ now, GoesOn e) ∧ Allowed GoesOn later ∧
      access (happen size wLength) f s =
        .ok (f (now.foldl (happen size wLength) s.state)).1 ⟨(f (now.foldl (happen size wLength) s.state)).2,later⟩ := by
  obtain ⟨l,moments⟩ := s
  cases moments with
  | nil => exact (Nat.not_succ_le_zero 0 h).elim
  | cons now later => exact ⟨now,later,rfl,hs now List.mem_cons_self,fun n hn => hs n (List.mem_cons_of_mem now hn),rfl⟩

theorem hostTurns_cons {now : List ControlEvent} {later : List (List ControlEvent)} (hmoments : s.moments = now :: later)
    (l : ControlIn) :
    hostTurns s = hostTurns ⟨l,later⟩ + if hostTurn now then 1 else 0 := by
  rw [hostTurns,hmoments,List.countP_cons]
  rfl

theorem get_looks {α : Type} (size : Nat) (wLength : UInt16) (hs : Allowed GoesOn s.moments) (hlive : s.state.Live)
    (h : 1 ≤ hostTurns s) (f : ControlIn → α) :
    ∃ t, get size wLength f s = .ok (f t.state) t ∧ Looks size wLength s t 1 := by
  obtain ⟨now,later,hmoments,hnow,hlater,hget⟩ := access_turn size wLength hs h fun l => (f l,l)
  have hcount := hostTurns_cons hmoments (now.foldl (happen size wLength) s.state)
  refine ⟨⟨now.foldl (happen size wLength) s.state,later⟩,hget,hlater,live_stable.foldl hnow hlive,?_,?_,?_,?_⟩
  · rw [hmoments]
    rfl
  · split at hcount <;> omega
  · by_cases hturn : hostTurn now = true
    · exact .inr (settled_of_turn hlive hnow hturn)
    · rw [if_neg hturn] at hcount
      exact .inl hcount
  · exact fun P hP hp => hP.foldl hnow hp

theorem completes_get {α : Type} {f : ControlIn → α} (hP : Stable (happen size wLength) GoesOn P) :
    Completes (Serving N) hostTurns (fun l => P l ∧ l.Live) (get size wLength f) (fun a l => a = f l ∧ P l ∧ l.Live) 1 := by
  intro s hs hl h
  obtain ⟨t,hget,hlooks⟩ := get_looks size wLength hs.1 hl.2 h f
  have hmoments := hlooks.moments
  have hfew := hs.2
  exact ⟨_,t,hget,⟨hlooks.serving,by omega⟩,⟨rfl,hlooks.keeps P hP hl.1,hlooks.live⟩,hlooks.used⟩

theorem completes_set {f : ControlIn → ControlIn} {Q : ControlIn → Prop} (hP : Stable (happen size wLength) GoesOn P)
    (hf : ∀ l, P l → l.Live → Q (f l)) : Completes (Serving N) hostTurns (fun l => P l ∧ l.Live) (set size wLength f) (fun _ => Q) 1 := by
  intro s hs hl h
  obtain ⟨now,later,hmoments,hnow,hlater,hset⟩ := access_turn size wLength hs.1 h fun l => ((),f l)
  have hcount := hostTurns_cons hmoments (f (now.foldl (happen size wLength) s.state))
  have hfew := hs.2
  rw [hmoments,List.length_cons] at hfew
  refine ⟨(),⟨f (now.foldl (happen size wLength) s.state),later⟩,hset,⟨hlater,Nat.le_of_succ_le hfew⟩,
    hf _ (hP.foldl hnow hl.1) (live_stable.foldl hnow hl.2),?_⟩
  split at hcount <;> omega

end Looking

section Complete
variable {size : Nat} {wLength : UInt16} {target rest : List UInt8} {n N : Nat} {s : Situation ControlIn ControlEvent}

theorem Live.same {l l' : ControlIn} (h : l.Live) (hsetup : l'.setupReceived = l.setupReceived)
    (hstate : l'.deviceState = l.deviceState) :
    l'.Live :=
  ⟨hsetup.trans h.setup,hstate ▸ h.attached,hstate ▸ h.awake⟩

theorem fill_completes (rest : List UInt8) (hn : n ≤ size) :
    Completes (Serving N) hostTurns (fun l => Fills size target rest n l ∧ l.Live) (fill size wLength rest n)
      (fun r l => ((r.2 < size → r.1 = []) ∧ r.1.length + r.2 = rest.length + n) ∧ Fills size target r.1 r.2 l ∧ l.Live) (size - n) := by
  induction rest generalizing n with
  | nil => exact (completes_pure fun _ hl => ⟨⟨fun _ => rfl,rfl⟩,hl⟩).mono (fun _ hl => hl) (fun _ _ hl => hl) (Nat.zero_le _)
  | cons x rest ih =>
    rw [fill]
    refine completes_ite (fun hlt => ?_) fun hlt => ?_
    · have hcost : size - n = 1 + (size - (n + 1)) := by omega
      rw [hcost]
      refine completes_bind (completes_set (Q := fun l => Fills size target rest (n + 1) l ∧ l.Live) fills_stable ?_) fun _ => ?_
      · intro l hl hlive
        rw [if_neg (by rw [hl.owned]; decide)]
        exact ⟨hl.write8 hlt,hlive.same rfl rfl⟩
      · refine (ih hlt).mono (fun _ hl => hl) (fun r l hl => ⟨⟨hl.1.1,?_⟩,hl.2⟩) (Nat.le_refl _)
        have hcount := hl.1.2
        rw [List.length_cons]
        omega
    · exact (completes_pure fun _ hl => ⟨⟨fun h => absurd h hlt,rfl⟩,hl⟩).mono (fun _ hl => hl) (fun _ _ hl => hl) (Nat.zero_le _)

/-- Twice the bytes that are left, and one more for an empty packet. -/
def dataVariant (v : List UInt8 × Bool) : Nat := 2 * v.1.length + v.2.toNat

theorem variant_pos {v : List UInt8 × Bool} (hv : ¬ (v.1 = [] ∧ v.2 = false)) : 0 < dataVariant v := by
  unfold dataVariant
  cases hlist : v.1 with
  | nil =>
    cases hlast : v.2 with
    | false => exact absurd ⟨hlist,hlast⟩ hv
    | true => decide
  | cons x rest => exact Nat.lt_of_lt_of_le (Nat.succ_pos _) (Nat.le_add_right _ _)

theorem variant_decreases {v : List UInt8 × Bool} {r : List UInt8 × Nat} (hsize : 0 < size) (hv : ¬ (v.1 = [] ∧ v.2 = false))
    (hrest : r.2 < size → r.1 = []) (hcount : r.1.length + r.2 = v.1.length) :
    dataVariant (r.1,r.2 == size) < dataVariant v := by
  by_cases hfull : r.2 < size
  · have hne : (r.2 == size) = false := beq_eq_false_iff_ne.mpr (Nat.ne_of_lt hfull)
    rw [hrest hfull,hne]
    exact variant_pos hv
  · have hone : (r.2 == size).toNat ≤ 1 := Bool.toNat_le _
    unfold dataVariant
    dsimp only
    omega

theorem packet_completes (hsize : 0 < size) {v : List UInt8 × Bool} (hv : ¬ (v.1 = [] ∧ v.2 = false)) :
    Completes (Serving N) hostTurns (fun l => Fills size target v.1 0 l ∧ l.Live)
      (do
        let bytesInEndpoint ← get size wLength fun l => l.bank.length
        let r ← fill size wLength v.1 bytesInEndpoint
        clearIn size wLength
        pure (.inr (r.1,r.2 == size)))
      (fun (r : Option ControlStream ⊕ (List UInt8 × Bool)) l =>
        ∃ v', r = .inr v' ∧ Transfers size target v'.1 v'.2 l ∧ l.Live ∧ dataVariant v' < dataVariant v) (2 + size) := by
  have hcost : 2 + size = 1 + (size + (1 + 0)) := by omega
  rw [hcost]
  refine completes_bind (completes_get fills_stable) fun n => ?_
  have hzero (l : ControlIn) (hl : n = l.bank.length ∧ Fills size target v.1 0 l ∧ l.Live) :
      n = 0 ∧ Fills size target v.1 0 l ∧ l.Live := ⟨hl.1.trans hl.2.1.count,hl.2⟩
  refine Completes.mono (completes_fact fun hn => ?_) hzero (fun _ _ hl => hl) (Nat.le_refl _)
  subst hn
  refine completes_bind (fill_completes v.1 (Nat.zero_le size)) fun r => completes_fact fun hr => ?_
  refine completes_bind (completes_set (Q := fun l => Transfers size target r.1 (r.2 == size) l ∧ l.Live) fills_stable ?_) fun _ =>
    completes_pure fun l hl => ⟨_,rfl,hl.1,hl.2,variant_decreases hsize hv hr.1 hr.2⟩
  exact fun l hl hlive => ⟨hl.transfers hr.1,hlive.same rfl rfl⟩

/-- One turn of the loop over the data is its last, or sends a packet, or finds the bank still full:
then the host has had no turn, or it has just answered. -/
inductive DataTurn (size : Nat) (target : List UInt8) (s : Situation ControlIn ControlEvent) (v : List UInt8 × Bool) :
    EStateM.Result Unit (Situation ControlIn ControlEvent) (Option ControlStream ⊕ (List UInt8 × Bool)) → Prop
  | left {t : Situation ControlIn ControlEvent} (serving : Allowed GoesOn t.moments) (awaits : Awaits size target t.state)
      (live : t.state.Live)
      (used : hostTurns s ≤ hostTurns t + 3) : DataTurn size target s v (.ok (.inl none) t)
  | sent {t : Situation ControlIn ControlEvent} {v' : List UInt8 × Bool} (serving : Allowed GoesOn t.moments)
      (transfers : Transfers size target v'.1 v'.2 t.state) (live : t.state.Live) (less : dataVariant v' < dataVariant v)
      (shorter : t.moments.length < s.moments.length) (used : hostTurns s ≤ hostTurns t + (6 + size))
      (unanswered : s.state.outReceived = false) : DataTurn size target s v (.ok (.inr v') t)
  | full {t : Situation ControlIn ControlEvent} (serving : Allowed GoesOn t.moments) (transfers : Transfers size target v.1 v.2 t.state)
      (live : t.state.Live) (more : 0 < dataVariant v) (shorter : t.moments.length < s.moments.length)
      (used : hostTurns s = hostTurns t ∨ t.state.outReceived = true ∧ hostTurns s ≤ hostTurns t + 1)
      (unanswered : s.state.outReceived = false) : DataTurn size target s v (.ok (.inr v) t)

/-- A bank that is full after no answer was seen: a turn of the host before that would have emptied it. -/
theorem Looks.full {t u : Situation ControlIn ControlEvent} {m : Nat} (h : Looks size wLength s t m) (h' : Looks size wLength t u 1)
    (hout : t.state.outReceived ≠ true) (hbusy : u.state.busy = true) :
    hostTurns s = hostTurns u ∨ u.state.outReceived = true ∧ hostTurns s ≤ hostTurns u + 1 := by
  have hquiet : hostTurns s = hostTurns t := by
    refine h.quiet.resolve_right fun hsettled => ?_
    have howned : t.state.busy = false := Bool.eq_false_iff.mpr fun hb => hout (hsettled.answered (hsettled.taken hb))
    rw [h'.keeps _ owned_stable howned] at hbusy
    cases hbusy
  rcases h'.quiet with hsame | hsettled
  · exact .inl (hquiet.trans hsame)
  · exact .inr ⟨hsettled.answered (hsettled.taken hbusy),hquiet ▸ h'.used⟩

theorem dataTurn_cases (hsize : 0 < size) (hlen : target.length ≤ wLength.toNat) {v : List UInt8 × Bool} (hs : Allowed GoesOn s.moments)
    (htransfers : Transfers size target v.1 v.2 s.state) (hlive : s.state.Live) (h : 6 + size ≤ hostTurns s) :
    DataTurn size target s v (dataTurn size wLength v s) := by
  unfold dataTurn
  by_cases hv : v.1 = [] ∧ v.2 = false
  · rw [if_pos hv]
    rw [hv.1,hv.2] at htransfers
    exact .left hs htransfers.awaits hlive (by omega)
  rw [if_neg hv]
  obtain ⟨t₁,hget₁,h₁⟩ := get_looks size wLength hs hlive (by omega) deviceState
  have hused₁ := h₁.used
  rw [TaskLogic.bind_ok hget₁,if_neg h₁.live.attached,if_neg h₁.live.awake]
  obtain ⟨t₂,hget₂,h₂⟩ := get_looks size wLength h₁.serving h₁.live (by omega) setupReceived
  have hused₂ := h₂.used
  rw [TaskLogic.bind_ok hget₂,if_neg (by rw [h₂.live.setup]; decide)]
  obtain ⟨t₃,hget₃,h₃⟩ := get_looks size wLength h₂.serving h₂.live (by omega) outReceived
  have hlooks := (h₁.trans h₂).trans h₃
  have hused₃ := hlooks.used
  have hthird := hlooks.keeps _ (transfers_stable hlen) htransfers
  rw [TaskLogic.bind_ok hget₃]
  by_cases hout : t₃.state.outReceived = true
  · rw [if_pos hout]
    have hended := hthird.answered hout
    exact .left hlooks.serving (.done hended (hthird.whole hended)) hlooks.live hused₃
  rw [if_neg hout]
  have hunanswered : s.state.outReceived = false :=
    Bool.eq_false_iff.mpr fun hbefore => hout (hlooks.keeps _ answered_stable hbefore)
  obtain ⟨t₄,hget₄,h₄⟩ := get_looks size wLength hlooks.serving hlooks.live (by omega) busy
  have hmoments := hlooks.moments
  have hmoments₄ := h₄.moments
  have hused₄ := h₄.used
  have hfourth := h₄.keeps _ (transfers_stable hlen) hthird
  rw [TaskLogic.bind_ok hget₄]
  by_cases hbusy : t₄.state.busy = true
  · rw [if_pos hbusy]
    exact .full h₄.serving hfourth h₄.live (variant_pos hv) (by omega) (hlooks.full h₄ hout hbusy) hunanswered
  · rw [if_neg hbusy]
    have howned := Bool.eq_false_iff.mpr hbusy
    have hfills := hfourth.fills howned
    rw [hfourth.released howned] at hfills
    obtain ⟨r,t,hpacket,hserving,⟨v',rfl,hnext,hnow,hless⟩,hused⟩ :=
      packet_completes hsize hv t₄ ⟨h₄.serving,Nat.le_refl _⟩ ⟨hfills,h₄.live⟩ (by omega)
    have hfew := hserving.2
    rw [hpacket]
    exact .sent hserving.1 hnext hnow hless (by omega) (by omega) hunanswered

theorem dataTurns_answered (hsize : 0 < size) (hlen : target.length ≤ wLength.toNat) {v : List UInt8 × Bool}
    (hs : Allowed GoesOn s.moments) (htransfers : Transfers size target v.1 v.2 s.state) (hlive : s.state.Live)
    (hout : s.state.outReceived = true) (hturns : s.moments.length < n) (h : 6 + size ≤ hostTurns s) :
    ∃ t, turns (dataTurn size wLength) n v s = .ok none t ∧ Allowed GoesOn t.moments ∧ Awaits size target t.state ∧ t.state.Live ∧
      hostTurns s ≤ hostTurns t + 3 := by
  have hcases := dataTurn_cases hsize hlen hs htransfers hlive h
  cases n with
  | zero => omega
  | succ n =>
    generalize hr : dataTurn size wLength v s = result at hcases
    cases hcases with
    | left serving awaits live used => exact ⟨_,turns_left hr n,serving,awaits,live,used⟩
    | sent _ _ _ _ _ _ unanswered | full _ _ _ _ _ _ unanswered =>
      rw [hout] at unanswered
      cases unanswered

/-- The loop over the data ends with the last packet on its way. -/
theorem dataTurns_return (hsize : 0 < size) (hlen : target.length ≤ wLength.toNat) {v : List UInt8 × Bool} (hs : Allowed GoesOn s.moments)
    (htransfers : Transfers size target v.1 v.2 s.state) (hlive : s.state.Live) (hturns : s.moments.length < n)
    (h : (dataVariant v + 1) * (6 + size) ≤ hostTurns s) :
    ∃ t, turns (dataTurn size wLength) n v s = .ok none t ∧ Allowed GoesOn t.moments ∧ Awaits size target t.state ∧ t.state.Live ∧
      hostTurns s ≤ hostTurns t + (dataVariant v + 1) * (6 + size) := by
  induction n generalizing s v with
  | zero => omega
  | succ n ih =>
    have hone : 6 + size ≤ (dataVariant v + 1) * (6 + size) := Nat.le_mul_of_pos_left _ (Nat.succ_pos _)
    have hcases := dataTurn_cases hsize hlen hs htransfers hlive (Nat.le_trans hone h)
    generalize hr : dataTurn size wLength v s = result at hcases
    cases hcases with
    | left serving awaits live used => exact ⟨_,turns_left hr n,serving,awaits,live,by omega⟩
    | @sent _ v' serving transfers live less shorter used =>
      rw [turns_right hr]
      have hless : (dataVariant v' + 1) * (6 + size) + (6 + size) ≤ (dataVariant v + 1) * (6 + size) := by
        rw [← Nat.succ_mul]
        exact Nat.mul_le_mul_right _ (Nat.succ_le_succ less)
      obtain ⟨u,hu,hserving,hawaits,hlive',hle⟩ := ih serving transfers live (by omega) (by omega)
      exact ⟨u,hu,hserving,hawaits,hlive',by omega⟩
    | full serving transfers live more shorter used =>
      rw [turns_right hr]
      rcases used with hsame | ⟨hout,hused⟩
      · obtain ⟨u,hu,hserving,hawaits,hlive',hle⟩ := ih serving transfers live (by omega) (by omega)
        exact ⟨u,hu,hserving,hawaits,hlive',by omega⟩
      · -- the host has answered, and the next turn sees it
        have htwo : 2 * (6 + size) ≤ (dataVariant v + 1) * (6 + size) := Nat.mul_le_mul_right _ (Nat.succ_le_succ more)
        obtain ⟨u,hu,hserving,hawaits,hlive',hle⟩ := dataTurns_answered (n := n) hsize hlen serving transfers live hout
          (by omega) (by omega)
        exact ⟨u,hu,hserving,hawaits,hlive',by omega⟩

/-- One turn of the loop that waits for the answer sees it, or the host has had no turn before. -/
inductive StatusTurn (size : Nat) (target : List UInt8) (s : Situation ControlIn ControlEvent) :
    EStateM.Result Unit (Situation ControlIn ControlEvent) (ControlStream ⊕ Unit) → Prop
  | done {t : Situation ControlIn ControlEvent} (serving : Allowed GoesOn t.moments) (received : t.state.received = target)
      (used : hostTurns s ≤ hostTurns t + 1) : StatusTurn size target s (.ok (.inl .noError) t)
  | waits {t : Situation ControlIn ControlEvent} (serving : Allowed GoesOn t.moments) (awaits : Awaits size target t.state)
      (live : t.state.Live) (shorter : t.moments.length < s.moments.length)
      (used : hostTurns s = hostTurns t ∨ t.state.outReceived = true ∧ hostTurns s ≤ hostTurns t + 1)
      (unanswered : s.state.outReceived = false) : StatusTurn size target s (.ok (.inr ()) t)

theorem Awaits.answered {l : ControlIn} (h : Awaits size target l) (hsettled : l.Settled) : l.outReceived = true := by
  cases h with
  | done ended data => exact hsettled.answered ended
  | pending ended busy =>
    have hended := hsettled.taken busy
    rw [ended] at hended
    cases hended

theorem Awaits.received {l : ControlIn} (h : Awaits size target l) (hout : l.outReceived = true) : l.received = target := by
  cases h with
  | done ended data => exact data
  | pending ended busy short data unanswered =>
    rw [hout] at unanswered
    cases unanswered

theorem statusTurn_cases (wLength : UInt16) (hs : Allowed GoesOn s.moments) (hawaits : Awaits size target s.state) (hlive : s.state.Live)
    (h : 2 ≤ hostTurns s) : StatusTurn size target s (statusTurn size wLength () s) := by
  unfold statusTurn
  obtain ⟨t₁,hget₁,h₁⟩ := get_looks size wLength hs hlive (by omega) outReceived
  have hused₁ := h₁.used
  have hfirst := h₁.keeps _ awaits_stable hawaits
  rw [TaskLogic.bind_ok hget₁]
  by_cases hout : t₁.state.outReceived = true
  · rw [if_pos hout]
    exact .done h₁.serving (hfirst.received hout) hused₁
  obtain ⟨t₂,hget₂,h₂⟩ := get_looks size wLength h₁.serving h₁.live (by omega) deviceState
  have hquiet : hostTurns s = hostTurns t₁ := h₁.quiet.resolve_right fun hsettled => hout (hfirst.answered hsettled)
  have hsecond := h₂.keeps _ awaits_stable hfirst
  have hmoments₁ := h₁.moments
  have hmoments₂ := h₂.moments
  rw [if_neg hout,TaskLogic.bind_ok hget₂,if_neg h₂.live.attached,if_neg h₂.live.awake]
  refine .waits h₂.serving hsecond h₂.live (by omega) ?_ (Bool.eq_false_iff.mpr fun hbefore => hout (h₁.keeps _ answered_stable hbefore))
  rcases h₂.quiet with hsame | hsettled
  · exact .inl (hquiet.trans hsame)
  · exact .inr ⟨hsecond.answered hsettled,hquiet ▸ h₂.used⟩

theorem statusTurns_return (wLength : UInt16) (hs : Allowed GoesOn s.moments) (hawaits : Awaits size target s.state)
    (hlive : s.state.Live)
    (hturns : s.moments.length < n) (h : s.state.outReceived = true ∧ 2 ≤ hostTurns s ∨ 3 ≤ hostTurns s) :
    ∃ t, turns (statusTurn size wLength) n () s = .ok .noError t ∧ t.state.received = target := by
  induction n generalizing s with
  | zero => omega
  | succ n ih =>
    have hcases := statusTurn_cases wLength hs hawaits hlive (by omega)
    generalize hr : statusTurn size wLength () s = result at hcases
    cases hcases with
    | done serving received used => exact ⟨_,turns_left hr n,received⟩
    | waits serving awaits live shorter used unanswered =>
      rw [turns_right hr]
      have hthree : 3 ≤ hostTurns s := h.resolve_left fun hout => by
        rw [hout.1] at unanswered
        cases unanswered
      refine ih serving awaits live (by omega) ?_
      rcases used with hsame | ⟨hout,hused⟩
      · exact .inr (hsame ▸ hthree)
      · exact .inl ⟨hout,by omega⟩

theorem emptyPacket_completes (hsize : 0 < size) (hlength : 0 < wLength.toNat) (data : List UInt8) :
    Completes (Serving N) hostTurns (fun l => l.Fresh ∧ l.Live) (emptyPacket size wLength data)
      (fun _ l => Transfers size (data.take wLength.toNat) (data.take wLength.toNat) false l ∧ l.Live) 1 := by
  have hnothing (hdata : data ≠ []) : Completes (Serving N) hostTurns (fun l => l.Fresh ∧ l.Live) (pure ())
      (fun _ l => Transfers size (data.take wLength.toNat) (data.take wLength.toNat) false l ∧ l.Live) 1 :=
    (completes_pure fun l hl => ⟨hl.1.transfers (take_ne_nil hlength hdata),hl.2⟩).mono (fun _ hl => hl) (fun _ _ hl => hl)
      (Nat.zero_le 1)
  refine completes_ite (fun hlong => hnothing ?_) fun _ => completes_ite (fun hdata => ?_) hnothing
  · rintro rfl
    exact Nat.not_lt_zero _ hlong
  · rw [hdata,List.take_nil]
    refine (completes_set (Q := fun l => Transfers size [] [] false l ∧ l.Live) fills_stable ?_).mono
      (fun l hl => ⟨hl.1.fills size [],hl.2⟩)
      (fun _ _ hl => hl) (Nat.le_refl 1)
    exact fun l hl hlive => ⟨hl.empty hsize,hlive.same rfl rfl⟩

end Complete

end ControlIn

open ControlIn

end ArduinoAT90USB.Usb
