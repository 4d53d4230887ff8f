import ArduinoAT90USB.Library.TwiWrite

/-! `twi_writeTo` from its test of `twi_state` on. The test, the assignment of `twi_state`, the other
assignments and the start are separate statements, and an interrupt may come between any two of
them: one that makes the interface a slave before it is claimed is forgotten by the claim. -/
namespace ArduinoAT90USB.Library
open Foundation.Memory Foundation.Runs

/-- A call of `twi_writeTo` that has found `TWI_READY`. -/
structure WriteRun where
  call : WriteCall
  stage : TwiStage

inductive WriteEvent
  | program
  | happen (h : TwiHappening)

namespace WriteRun

def start (l : TwiLink) : WriteRun := ⟨⟨l,[],none⟩,.tested⟩

def program (c : TwiCall) (s : WriteRun) : WriteRun :=
  match s.call.link.proceed c s.stage with
  | .ok (l,stage) => ⟨{s.call with link := l},stage⟩
  | .error _ => s

/-- The waiting loop looks at `twi_state` all the time, and its end is not a step. -/
def step (c : TwiCall) (s : WriteRun) : WriteEvent → WriteRun
  | .program => s.program c
  | .happen (.interrupt e) => {s with call := s.call.step e}
  | .happen (.overhear read) => {s with call := {s.call with link := s.call.link.overhear read}}
  | .happen .release => {s with call := {s.call with link := s.call.link.release}}

/-- With no further interrupt the program comes to its waiting loop. -/
def leftAlone (c : TwiCall) (s : WriteRun) : WriteRun :=
  [WriteEvent.happen .release,.program,.program,.program].foldl (step c) s

/-- Left alone from here, the call returns what happened. -/
def Honest (c : TwiCall) (address : UInt8) (data : List UInt8) (s : WriteRun) : Prop :=
  (s.leftAlone c).call.Honest address data

/-- While the state is `TWI_MTX` the interface is not made a slave and ends no transfer as one, and
no bus error comes before the error code has been reset. -/
def Undisturbed (s : WriteRun) : WriteEvent → Prop
  | .happen (.interrupt e) => s.call.link.twi.state = .mtx → s.call.link.phase.allows e.status = true →
      e.status.addressed = false ∧ e.status.lostAndAddressed = false ∧ e.status.slaveEnd = false ∧
        (e.status = .busError → s.stage ≠ .claimed)
  | .program | .happen (.overhear _) | .happen .release => True

end WriteRun

/-- The interface has no transfer of its own under way, and at most the repeated start of its last one. -/
structure TwiLink.Outside (l : TwiLink) : Prop where
  off : l.phase.offMaster = true
  start : l.phase = .restarted ↔ l.twi.inRepStart = true

namespace WriteRun
variable {address : UInt8} {data : List UInt8} {c : TwiCall} {s : WriteRun}

theorem program_quiet (hquiet : s.call.link.phase.inCallback = false) {l : TwiLink}
    (hl : s.call.link.perform c s.stage = .ok l) : s.program c = ⟨{s.call with link := l},s.stage.next⟩ := by
  have hproceed : s.call.link.proceed c s.stage = .ok (l,s.stage.next) := by
    rw [TwiLink.proceed,if_neg (by rw [hquiet]; decide),hl]
    rfl
  rw [program,hproceed]

theorem program_busy (h : s.call.link.phase.inCallback = true) : s.program c = s := by
  rw [program,TwiLink.proceed,if_pos h]

theorem leftAlone_waiting (hfits : c.length ≤ twiBufferLength) (s : WriteRun) : (s.leftAlone c).stage = .waiting := by
  have hnext (s : WriteRun) (h : s.call.link.phase.inCallback = false) :
      (s.program c).call.link.phase.inCallback = false ∧ (s.program c).stage = s.stage.next := by
    obtain ⟨l,hl,hquiet⟩ := TwiLink.perform_quiet hfits h s.stage
    rw [program_quiet h hl]
    exact ⟨hquiet,rfl⟩
  obtain ⟨h₁,hs₁⟩ := hnext (s.step c (.happen .release)) s.call.link.quiet_of_release
  obtain ⟨h₂,hs₂⟩ := hnext _ h₁
  obtain ⟨-,hs₃⟩ := hnext _ h₂
  change (program c (program c (program c (s.step c (.happen .release))))).stage = .waiting
  rw [hs₃,hs₂,hs₁]
  cases (s.step c (.happen .release)).stage <;> rfl

/-- A call that goes on as it should, by how far it is. In `aside` its start has been forgotten for a
transfer that the interface takes part in as a slave, and it waits for ever. -/
inductive Progress (address : UInt8) (data : List UInt8) (s : WriteRun) : Prop
  | tested (stage : s.stage = .tested) (outside : s.call.link.Outside) (state : s.call.link.twi.state ≠ .mtx)
      (sent : s.call.sent = []) (ending : s.call.ending = none)
  | claimed (stage : s.stage = .claimed) (outside : s.call.link.Outside) (quiet : s.call.link.phase.inCallback = false)
      (state : s.call.link.twi.state = .mtx) (sent : s.call.sent = []) (ending : s.call.ending = none)
  | prepared (stage : s.stage = .prepared) (outside : s.call.link.Outside) (quiet : s.call.link.phase.inCallback = false)
      (loaded : WriteCall.Loaded address data s.call.link.twi) (index : s.call.link.twi.masterBufferIndex = 0)
      (sent : s.call.sent = []) (ending : s.call.ending = none)
  | aside (stage : s.stage = .waiting) (outside : s.call.link.Outside) (quiet : s.call.link.phase.inCallback = false)
      (loaded : WriteCall.Loaded address data s.call.link.twi) (sent : s.call.sent = []) (ending : s.call.ending = none)
  | calling (stage : s.stage = .waiting) (progress : s.call.Progress address data)
  | failed (stage : s.stage = .prepared) (state : s.call.link.twi.state ≠ .mtx) (error : s.call.link.twi.error ≠ 0xff)

theorem Progress.waiting (h : Progress address data s) (hstage : s.stage = .waiting) : s.call.Honest address data := by
  cases h with
  | tested stage | claimed stage | prepared stage | failed stage =>
    rw [stage] at hstage
    cases hstage
  | aside stage outside quiet loaded => exact fun hstate => absurd loaded.state hstate
  | calling stage progress => exact progress.honest

theorem outside_step {s : WriteCall} (h : s.link.Outside) (e : TwiEvent) :
    s.step e = s ∨ ∃ t, s.link.phase.allows e.status = true ∧ (s.found e).OffStep e.status t ∧
      (TwiLink.Outside ⟨t,.respond t.twcr t.twdr e.status⟩) ∧ s.step e = ⟨⟨t,.respond t.twcr t.twdr e.status⟩,s.sent,
        if s.link.twi.state = .mtx ∧ t.state ≠ .mtx then some e.status else s.ending⟩ := by
  rcases WriteCall.step_off h.off e with hsame | ⟨t,hallows,ht,hstep⟩
  · exact .inl hsame
  · refine .inr ⟨t,hallows,ht,⟨ht.off,iff_of_false ht.running fun hstart => ?_⟩,hstep⟩
    have hrestarted := h.start.mpr (ht.aside.start.symm.trans hstart)
    rw [hrestarted] at hallows
    cases hallows

/-- A call that has claimed the interface finds it in the hands of another master. -/
private theorem claimed_step {s : WriteCall} (h : s.link.Outside) (hquiet : s.link.phase.inCallback = false)
    (hstate : s.link.twi.state = .mtx) (hending : s.ending = none) {e : TwiEvent}
    (hfree : s.link.phase.allows e.status = true → e.status.addressed = false ∧ e.status.slaveEnd = false) :
    ((s.step e).link.Outside ∧ (s.step e).link.phase.inCallback = false ∧ (s.step e).sent = s.sent ∧ (s.step e).ending = none ∧
        s.link.twi.Aside (s.step e).link.twi ∧ (s.step e).link.twi.state = s.link.twi.state ∧
        (s.step e).link.twi.error = s.link.twi.error) ∨
      e.status = .busError ∧ s.link.phase.allows e.status = true ∧ (s.step e).link.twi.state ≠ .mtx ∧
        (s.step e).link.twi.error ≠ 0xff := by
  rcases outside_step h e with hsame | ⟨t,hallows,ht,houtside,hstep⟩
  · rw [hsame]
    exact .inl ⟨h,hquiet,rfl,hending,⟨rfl,rfl,rfl,rfl,rfl⟩,rfl,rfl⟩
  · obtain ⟨haddressed,hend⟩ := hfree hallows
    rw [hstep]
    rcases allows_off h.off hallows with hown | hown | hdata | hbus
    · exact absurd (haddressed.symm.trans hown) Bool.false_ne_true
    · exact absurd (hend.symm.trans hown) Bool.false_ne_true
    · have hsame : t.state = s.link.twi.state := ht.stays hdata
      have hstop : e.status ≠ .srStop := fun hs => by rw [hs] at hdata; cases hdata
      have herror : e.status ≠ .busError := fun hs => by rw [hs] at hdata; cases hdata
      refine .inl ⟨houtside,ht.returned hstop,rfl,?_,⟨ht.aside.start,ht.aside.slarw,ht.aside.buffer,ht.aside.index,ht.aside.length⟩,
        hsame,ht.error herror⟩
      dsimp only
      rw [hsame,if_neg fun hm => hm.2 hstate]
      exact hending
    · refine .inr ⟨hbus,hallows,ht.leaves (by rw [hbus]; rfl),?_⟩
      dsimp only
      rw [ht.code hbus]
      decide

theorem Progress.interrupt (h : Progress address data s) {e : TwiEvent} (hfree : s.Undisturbed (.happen (.interrupt e))) :
    Progress address data ⟨s.call.step e,s.stage⟩ := by
  have hown (hstate : s.call.link.twi.state = .mtx) (hallows : s.call.link.phase.allows e.status = true) :
      e.status.addressed = false ∧ e.status.slaveEnd = false := ⟨(hfree hstate hallows).1,(hfree hstate hallows).2.2.1⟩
  cases h with
  | tested stage outside state sent ending =>
    rcases outside_step outside e with hsame | ⟨t,-,ht,houtside,hstep⟩
    · rw [hsame]
      exact .tested stage outside state sent ending
    · have hleft : t.state ≠ .mtx := by
        cases hdata : e.status.slaveData with
        | true =>
          rw [ht.stays hdata]
          exact state
        | false => exact ht.leaves hdata
      rw [hstep,if_neg fun hm => state hm.1]
      exact .tested stage houtside hleft sent ending
  | claimed stage outside quiet state sent ending =>
    rcases claimed_step outside quiet state ending (hown state) with ⟨hout,hquiet,hsent,hending,-,hstate,-⟩ | ⟨hbus,hallows,-⟩
    · exact .claimed stage hout hquiet (hstate.trans state) (hsent.trans sent) hending
    · exact absurd stage ((hfree state hallows).2.2.2 hbus)
  | prepared stage outside quiet loaded index sent ending =>
    rcases claimed_step outside quiet loaded.state ending (hown loaded.state) with
      ⟨hout,hquiet,hsent,hending,haside,hstate,herror⟩ | ⟨-,-,hstate,herror⟩
    · exact .prepared stage hout hquiet (loaded.aside haside hstate herror) (haside.index.trans index) (hsent.trans sent) hending
    · exact .failed stage hstate herror
  | aside stage outside quiet loaded sent ending =>
    rcases claimed_step outside quiet loaded.state ending (hown loaded.state) with
      ⟨hout,hquiet,hsent,hending,haside,hstate,herror⟩ | ⟨-,-,hstate,herror⟩
    · exact .aside stage hout hquiet (loaded.aside haside hstate herror) (hsent.trans sent) hending
    · exact .calling stage (.failed hstate herror)
  | calling stage progress =>
    exact .calling stage (progress.step fun hstate hallows => ⟨(hfree hstate hallows).1,(hfree hstate hallows).2.1⟩)
  | failed stage state error =>
    obtain ⟨hstate,herror⟩ := WriteCall.step_failed state error e
    exact .failed stage hstate herror

private theorem relink_call {s : WriteCall} (h : s.Progress address data) {l : TwiLink}
    (hquiet : s.link.phase.inCallback = false → l = s.link) (hoff : s.link.phase.offMaster = true → l.phase.offMaster = true)
    (hleft : s.link.twi.state ≠ .mtx → l.twi.state ≠ .mtx) (herror : l.twi.error = s.link.twi.error) :
    WriteCall.Progress address data {s with link := l} := by
  cases h with
  | waiting loaded ending sending =>
    have hsame : l = s.link := by
      refine hquiet ?_
      cases sending with
      | starting phase | address phase =>
        rw [phase]
        rfl
      | data k phase =>
        rw [phase]
        rfl
    rw [hsame]
    exact .waiting loaded ending sending
  | done off state sent ending => exact .done (hoff off) (hleft state) sent ending
  | failed state error =>
    refine .failed (hleft state) ?_
    rw [herror]
    exact error

/-- Something that only matters to a slave in its callback. -/
private theorem Progress.relink (h : Progress address data s) {l : TwiLink}
    (hquiet : s.call.link.phase.inCallback = false → l = s.call.link)
    (hoff : s.call.link.phase.offMaster = true → l.phase.offMaster = true)
    (houtside : s.call.link.Outside → l.Outside) (hstate : l.twi.state = s.call.link.twi.state ∨ l.twi.state = .ready)
    (herror : l.twi.error = s.call.link.twi.error) : Progress address data ⟨{s.call with link := l},s.stage⟩ := by
  have hleft (h : s.call.link.twi.state ≠ .mtx) : l.twi.state ≠ .mtx := by
    rcases hstate with hsame | hready
    · rw [hsame]
      exact h
    · rw [hready]
      exact TwiState.noConfusion
  cases h with
  | tested stage outside state sent ending => exact .tested stage (houtside outside) (hleft state) sent ending
  | claimed stage outside quiet state sent ending =>
    rw [hquiet quiet]
    exact .claimed stage outside quiet state sent ending
  | prepared stage outside quiet loaded index sent ending =>
    rw [hquiet quiet]
    exact .prepared stage outside quiet loaded index sent ending
  | aside stage outside quiet loaded sent ending =>
    rw [hquiet quiet]
    exact .aside stage outside quiet loaded sent ending
  | calling stage progress => exact .calling stage (relink_call progress hquiet hoff hleft herror)
  | failed stage state error =>
    refine .failed stage (hleft state) ?_
    rw [herror]
    exact error

private theorem released_outside {l : TwiLink} (h : l.Outside) {missed : Option Bool} (hphase : l.phase = .closing missed) :
    TwiLink.Outside ⟨l.twi.leaveSlave,.released l.twi.leaveSlave.twcr missed⟩ := by
  have hnot : l.twi.inRepStart ≠ true := fun hstart => by
    have := h.start.mpr hstart
    rw [hphase] at this
    cases this
  rcases missed with _ | _ | _ <;> exact ⟨rfl,iff_of_false TwiPhase.noConfusion hnot⟩

theorem Progress.release (h : Progress address data s) : Progress address data ⟨{s.call with link := s.call.link.release},s.stage⟩ := by
  rcases s.call.link.release_cases with ⟨-,hsame⟩ | ⟨missed,hphase,hrelease⟩
  · rw [hsame]
    exact h
  · refine h.relink TwiLink.release_quiet ?_ ?_ ?_ ?_ <;> rw [hrelease]
    · rcases missed with _ | _ | _ <;> exact fun _ => rfl
    · exact fun hout => released_outside hout hphase
    · exact .inr rfl
    · rfl

theorem Progress.overhear (h : Progress address data s) (read : Bool) :
    Progress address data ⟨{s.call with link := s.call.link.overhear read},s.stage⟩ := by
  rcases s.call.link.overhear_cases read with hsame | ⟨hphase,hoverhear⟩
  · rw [hsame]
    exact h
  · refine h.relink (fun hquiet => TwiLink.overhear_quiet hquiet read) ?_ ?_ ?_ (by rw [hoverhear]) <;> rw [hoverhear]
    · exact fun _ => rfl
    · refine fun hout => ⟨rfl,iff_of_false TwiPhase.noConfusion fun hstart => ?_⟩
      have := hout.start.mpr hstart
      rw [hphase] at this
      cases this
    · exact .inl rfl

theorem program_waiting (h : s.stage = .waiting) : s.program c = s := by
  cases hquiet : s.call.link.phase.inCallback with
  | true => exact program_busy hquiet
  | false =>
    have hstep := program_quiet (c := c) hquiet (l := s.call.link) (by rw [h]; rfl)
    rw [h] at hstep
    exact hstep.trans (congrArg (WriteRun.mk s.call) h.symm)

/-- The start goes out on a bus of its own; with another master on the bus it is asked for, and
forgotten when the next status is answered. -/
private theorem Progress.of_prepared {s : WriteCall} (outside : s.link.Outside) (quiet : s.link.phase.inCallback = false)
    (loaded : WriteCall.Loaded address data s.link.twi) (index : s.link.twi.masterBufferIndex = 0) (sent : s.sent = [])
    (ending : s.ending = none) : Progress address data ⟨{s with link := s.link.call s.link.twi.begin},.waiting⟩ := by
  obtain ⟨link,bus,last⟩ := s
  obtain rfl : bus = [] := sent
  obtain rfl : last = none := ending
  have hstart : link.phase ≠ .restarted → link.twi.inRepStart = false := fun hne =>
    Bool.eq_false_iff.mpr fun hrep => hne (outside.start.mpr hrep)
  have hslave {p : TwiPhase} (hne : link.phase ≠ .restarted) (hp : (link.call link.twi.begin).phase = p) (hoff : p.offMaster = true)
      (hquiet : p.inCallback = false) (hnot : p ≠ .restarted) :
      Progress address data ⟨⟨link.call link.twi.begin,[],none⟩,.waiting⟩ := by
    have hbegin : link.twi.begin = {link.twi with twcr := ⟨true,true,false,true⟩} := if_neg (by rw [hstart hne]; decide)
    refine .aside rfl ⟨by rw [hp]; exact hoff,?_⟩ (by rw [hp]; exact hquiet) loaded.begin rfl rfl
    rw [hp]
    refine iff_of_false hnot ?_
    change link.twi.begin.inRepStart ≠ true
    rw [hbegin]
    change link.twi.inRepStart ≠ true
    rw [hstart hne]
    decide
  cases hphase : link.phase with
  | idle ack =>
    exact .calling rfl (WriteCall.begin_progress loaded index (.inr ⟨⟨ack,hphase⟩,hstart (by rw [hphase]; exact TwiPhase.noConfusion)⟩))
  | restarted => exact .calling rfl (WriteCall.begin_progress loaded index (.inl ⟨hphase,outside.start.mp hphase⟩))
  | slaveReceive ack | slaveTransmit ack =>
    refine hslave (by rw [hphase]; exact TwiPhase.noConfusion) (by rw [TwiLink.call,hphase,TwiPhase.command]) rfl rfl TwiPhase.noConfusion
  | closing missed =>
    rw [hphase] at quiet
    cases quiet
  | starting | address read | masterTransmit | masterReceive ack =>
    have hoff := outside.off
    rw [hphase] at hoff
    cases hoff

private theorem begin_keeps (t : Twi) : t.begin.state = t.state ∧ t.begin.error = t.error := by
  unfold Twi.begin
  split <;> exact ⟨rfl,rfl⟩

theorem Progress.program {m : TwiMessage} (hfits : m.data.length ≤ twiBufferLength) (h : Progress address m.data s)
    (wait sendStop : Bool) : Progress address m.data (s.program (.writeTo address m wait sendStop)) := by
  cases hquiet : s.call.link.phase.inCallback with
  | true =>
    rw [program_busy hquiet]
    exact h
  | false =>
    have hsame := h
    cases h with
    | tested stage outside state sent ending =>
      rw [program_quiet hquiet (by rw [stage]; rfl),stage]
      exact .claimed rfl ⟨outside.off,outside.start⟩ hquiet rfl sent ending
    | claimed stage outside quiet state sent ending =>
      obtain ⟨t,hprepare,hloaded,hindex,hrep⟩ := WriteCall.prepareWrite_loaded state address hfits sendStop
      have hperform : s.call.link.perform (.writeTo address m wait sendStop) s.stage = .ok {s.call.link with twi := t} := by
        rw [stage,TwiLink.perform,TwiCall.prepare,hprepare]
        rfl
      rw [program_quiet hquiet hperform,stage]
      refine .prepared rfl ⟨outside.off,?_⟩ hquiet hloaded hindex sent ending
      change s.call.link.phase = .restarted ↔ t.inRepStart = true
      rw [hrep]
      exact outside.start
    | prepared stage outside quiet loaded index sent ending =>
      rw [program_quiet hquiet (by rw [stage]; rfl),stage]
      exact .of_prepared outside quiet loaded index sent ending
    | aside stage | calling stage =>
      rw [program_waiting stage]
      exact hsame
    | failed stage state error =>
      rw [program_quiet hquiet (by rw [stage]; rfl),stage]
      have hbegin := begin_keeps s.call.link.twi
      refine .calling rfl (.failed ?_ ?_)
      · exact hbegin.1 ▸ state
      · exact hbegin.2 ▸ error

theorem Progress.step {m : TwiMessage} (hfits : m.data.length ≤ twiBufferLength) (h : Progress address m.data s) (wait sendStop : Bool)
    {e : WriteEvent} (hfree : s.Undisturbed e) : Progress address m.data (s.step (.writeTo address m wait sendStop) e) := by
  cases e with
  | program => exact h.program hfits wait sendStop
  | happen e =>
    cases e with
    | interrupt e => exact h.interrupt hfree
    | overhear read => exact h.overhear read
    | release => exact h.release

theorem Progress.honest {m : TwiMessage} (hfits : m.data.length ≤ twiBufferLength) (h : Progress address m.data s)
    (wait sendStop : Bool) :
    s.Honest (.writeTo address m wait sendStop) address m.data := by
  refine Progress.waiting ?_ (leftAlone_waiting (c := .writeTo address m wait sendStop) hfits s)
  exact ((h.release.program hfits wait sendStop).program hfits wait sendStop).program hfits wait sendStop

/-- The state has left `TWI_MTX` with nothing sent and nothing to show for it. -/
structure Lost (s : WriteRun) : Prop where
  state : s.call.link.twi.state ≠ .mtx
  sent : s.call.sent = []
  stage : s.stage ≠ .tested
  error : s.stage ≠ .claimed → s.call.link.twi.error = 0xff

theorem Lost.release (h : s.Lost) : Lost ⟨{s.call with link := s.call.link.release},s.stage⟩ := by
  rcases s.call.link.release_cases with ⟨-,hsame⟩ | ⟨missed,hphase,hrelease⟩
  · rw [hsame]
    exact h
  · rw [hrelease]
    exact ⟨TwiState.noConfusion,h.sent,h.stage,h.error⟩

theorem Lost.program {m : TwiMessage} (hfits : m.data.length ≤ twiBufferLength) (h : s.Lost) (wait sendStop : Bool) :
    (s.program (.writeTo address m wait sendStop)).Lost := by
  cases hquiet : s.call.link.phase.inCallback with
  | true =>
    rw [program_busy hquiet]
    exact h
  | false =>
    cases hstage : s.stage with
    | tested => exact absurd hstage h.stage
    | waiting =>
      rw [program_waiting hstage]
      exact h
    | claimed =>
      obtain ⟨b,hb,_⟩ := copyInto_inside s.call.link.twi.masterBuffer m.data (i := 0) (by rw [Nat.zero_add]; exact hfits)
      have hperform : s.call.link.perform (.writeTo address m wait sendStop) s.stage = .ok {s.call.link with
          twi := {s.call.link.twi with
            sendStop := sendStop, error := 0xff, masterBufferIndex := 0, masterBufferLength := UInt8.ofNat m.data.length,
            masterBuffer := b, slarw := address <<< 1}} := by
        rw [hstage,TwiLink.perform,TwiCall.prepare,Twi.prepareWrite,hb]
        rfl
      rw [program_quiet hquiet hperform,hstage]
      exact ⟨h.state,h.sent,TwiStage.noConfusion,fun _ => rfl⟩
    | prepared =>
      rw [program_quiet hquiet (by rw [hstage]; rfl),hstage]
      have herror := h.error (by rw [hstage]; exact TwiStage.noConfusion)
      have hbegin := begin_keeps s.call.link.twi
      exact ⟨hbegin.1 ▸ h.state,h.sent,TwiStage.noConfusion,fun _ => hbegin.2.trans herror⟩

theorem Lost.not_honest {m : TwiMessage} (hfits : m.data.length ≤ twiBufferLength) (h : s.Lost) (wait sendStop : Bool) :
    ¬ s.Honest (.writeTo address m wait sendStop) address m.data := by
  have hlost : (s.leftAlone (.writeTo address m wait sendStop)).Lost :=
    ((h.release.program hfits wait sendStop).program hfits wait sendStop).program hfits wait sendStop
  have hstage := leftAlone_waiting (c := .writeTo address m wait sendStop) hfits s
  intro hhonest
  have hzero : (s.leftAlone (.writeTo address m wait sendStop)).call.link.twi.writeResult = 0 :=
    if_pos (hlost.error (by rw [hstage]; exact TwiStage.noConfusion))
  have hsent := (hhonest hlost.state).1 hzero
  rw [hlost.sent] at hsent
  cases hsent

private theorem sending_refuses {s : WriteCall} (h : s.Sending address data) {status : TwiStatus}
    (hallows : s.link.phase.allows status = true) : status.slaveEnd = false := by
  have hnot (st : TwiStatus) (hend : st.slaveEnd = true) : TwiPhase.allows st .starting = false ∧
      TwiPhase.allows st (.address false) = false ∧ TwiPhase.allows st .masterTransmit = false := by
    cases st <;> first | exact ⟨rfl,rfl,rfl⟩ | cases hend
  refine Bool.eq_false_iff.mpr fun hend => Bool.false_ne_true ?_
  obtain ⟨hstarting,haddress,hdata⟩ := hnot status hend
  cases h with
  | starting phase => exact hstarting.symm.trans (phase ▸ hallows)
  | address phase => exact haddress.symm.trans (phase ▸ hallows)
  | data k phase => exact hdata.symm.trans (phase ▸ hallows)

private theorem lost_of_slave {e : TwiEvent} (hallows : s.call.link.phase.allows e.status = true)
    (hstatus : e.status.addressed = true ∨ e.status.lostAndAddressed = true ∨ e.status.slaveEnd = true) (hsent : s.call.sent = [])
    (hstage : s.stage ≠ .tested) (herror : s.stage ≠ .claimed → s.call.link.twi.error = 0xff) : Lost ⟨s.call.step e,s.stage⟩ := by
  obtain ⟨t,ht,hleft,hcode,hbus⟩ := handler_leaves hstatus (s.call.found e) e.calls
  rw [WriteCall.step_taken hallows ht,hbus,List.append_nil]
  exact ⟨hleft,hsent,hstage,fun hclaimed => hcode.trans (herror hclaimed)⟩

/-- The code of the bus error is overwritten when the call resets the error. -/
private theorem lost_of_busError {e : TwiEvent} (hallows : s.call.link.phase.allows e.status = true) (hbus : e.status = .busError)
    (hsent : s.call.sent = []) (hclaimed : s.stage = .claimed) : Lost ⟨s.call.step e,s.stage⟩ := by
  have hmem : e.status ∈ [TwiStatus.mtSlaNack,.mtDataNack,.arbLost,.busError] := by
    rw [hbus]
    decide
  obtain ⟨t,ht,hready,-⟩ := handler_breaks (s.call.found e) e.calls hmem
  rw [WriteCall.step_taken hallows ht,hbus]
  refine ⟨?_,(List.append_nil _).trans hsent,by rw [hclaimed]; exact TwiStage.noConfusion,fun hne => absurd hclaimed hne⟩
  dsimp only
  rw [hready]
  exact TwiState.noConfusion

/-- A status in the wrong place and nothing else makes the call lose its transfer. -/
theorem Progress.disturbed (h : Progress address data s) {e : WriteEvent} (hbad : ¬ s.Undisturbed e) (c : TwiCall) :
    (s.step c e).Lost := by
  cases e with
  | program => exact absurd trivial hbad
  | happen e =>
    cases e with
    | overhear read | release => exact absurd trivial hbad
    | interrupt e =>
      simp only [Undisturbed, not_forall] at hbad
      obtain ⟨hstate,hallows,hbad⟩ := hbad
      have hcases : (e.status.addressed = true ∨ e.status.lostAndAddressed = true ∨ e.status.slaveEnd = true) ∨
          e.status = .busError ∧ s.stage = .claimed := by
        by_contra hnone
        simp only [not_or, not_and, Bool.not_eq_true] at hnone
        exact hbad ⟨hnone.1.1,hnone.1.2.1,hnone.1.2.2,hnone.2⟩
      have hslave (hne : s.stage ≠ .claimed) : e.status.addressed = true ∨ e.status.lostAndAddressed = true ∨ e.status.slaveEnd = true :=
        hcases.resolve_right fun hclaimed => hne hclaimed.2
      change Lost ⟨s.call.step e,s.stage⟩
      cases h with
      | tested stage outside state | failed stage state => exact absurd hstate state
      | claimed stage outside quiet state sent ending =>
        rcases hcases with hstatus | ⟨hbus,-⟩
        · exact lost_of_slave hallows hstatus sent (by rw [stage]; exact TwiStage.noConfusion) fun hc => absurd stage hc
        · exact lost_of_busError hallows hbus sent stage
      | prepared stage outside quiet loaded index sent ending | aside stage outside quiet loaded sent ending =>
        refine lost_of_slave hallows (hslave ?_) sent ?_ fun _ => loaded.error
        all_goals rw [stage]; exact TwiStage.noConfusion
      | calling stage progress =>
        cases progress with
        | done off state | failed state => exact absurd hstate state
        | waiting loaded ending sending =>
          have hstatus := hslave (by rw [stage]; exact TwiStage.noConfusion)
          have hown : e.status.addressed = true ∨ e.status.lostAndAddressed = true := by
            rcases hstatus with h | h | h
            · exact .inl h
            · exact .inr h
            · exact absurd ((sending_refuses sending hallows).symm.trans h) Bool.false_ne_true
          refine lost_of_slave hallows hstatus (sending.nothing hallows hown) ?_ fun _ => loaded.error
          rw [stage]
          exact TwiStage.noConfusion

end WriteRun

private def greeting : TwiMessage := ⟨[1,2],by decide⟩
private def callGreeting : TwiCall := .writeTo 0x50 greeting true true
private def notAcknowledged : List WriteEvent :=
  [.program,.program,.program,.happen (.interrupt ⟨.start,0,[]⟩),.happen (.interrupt ⟨.mtSlaNack,0,[]⟩)]
private def arbitrationLost : List WriteEvent :=
  [.program,.program,.program,.happen (.interrupt ⟨.start,0,[]⟩),.happen (.interrupt ⟨.srArbLostSlaAck,0,[]⟩)]

end ArduinoAT90USB.Library
