import ArduinoAT90USB.Bootloader.Simulation

/-! Packet boundaries. A task ends by releasing the bank, read or not, so a command must
not share a packet with the one before it; beyond that it does not matter how the host
cuts its bytes. -/
namespace ArduinoAT90USB.Bootloader
open Foundation Foundation.TaskLogic Foundation.Framing

/-- The same bootloader with `packets` on their way from the host. -/
def Boot.receive (s : Boot) (packets : List (List UInt8)) : Boot := {s with usb := {s.usb with out := packets}}

/-- Packets that carry the commands, none with bytes of two of them. Any packet may be empty. -/
inductive Cut : List Command → List (List UInt8) → Prop
  | done {q : List (List UInt8)} (h : ∀ p ∈ q, p = []) : Cut [] q
  | command {c : Command} {cs : List Command} {front back : List (List UInt8)}
      (hf : front.flatten = c.encode) (hb : Cut cs back) : Cut (c :: cs) (front ++ back)

theorem Cut.flatten {cs : List Command} {q : List (List UInt8)} (h : Cut cs q) :
    q.flatten = (cs.map Command.encode).flatten := by
  induction h with
  | done h => simpa using h
  | command hf _ ih => simp [hf, ih]

theorem Cut.single (cs : List Command) : Cut cs (cs.map Command.encode) := by
  induction cs with
  | nil => exact .done (by simp)
  | cons c rest ih => exact Cut.command (List.flatten_singleton) ih

private theorem Cut.prepend {cs : List Command} {q empty : List (List UInt8)} (he : ∀ p ∈ empty, p = [])
    (h : Cut cs q) : Cut cs (empty ++ q) := by
  cases h with
  | done hq =>
    refine .done fun p hp => ?_
    rcases List.mem_append.mp hp with hp | hp
    · exact he p hp
    · exact hq p hp
  | command hf hb =>
    rw [← List.append_assoc]
    refine .command ?_ hb
    rw [List.flatten_append, List.flatten_eq_nil_iff.mpr he, List.nil_append, hf]

theorem runTasks_commands {cs : List Command} {q : List (List UInt8)} (h : Cut cs q) (s : Boot)
    (hi : s.usb.Idle) (ho : s.usb.out = q) :
    ∃ left groups log, (∀ p ∈ left, p = []) ∧
      List.Forall₂ (Framed cdcTxrxEpsize) (Command.execAll cs s.dev).2 groups ∧
      runTasks cs.length s = ⟨(Command.execAll cs s.dev).1,
        {s.usb with out := left, sent := s.usb.sent ++ groups.flatten}, log⟩ := by
  induction cs generalizing q s with
  | nil =>
    cases h with
    | done hq =>
      refine ⟨q,[],s.log,hq,.nil,?_⟩
      subst ho
      simp [runTasks, Command.execAll]
  | cons c cs ih =>
    cases h with
    | command hf hb =>
      obtain ⟨left,packets,log,_,hl,hp,ht⟩ := cdcTask_command hi c ho (hf.trans (List.append_nil _).symm)
      have hempty : ∀ p ∈ left.tail, p = [] := fun p hp =>
        List.flatten_eq_nil_iff.mp hl p (List.mem_of_mem_tail hp)
      obtain ⟨left₁,groups,log₁,hl₁,hg,hr⟩ := ih (hb.prepend hempty)
        ⟨(c.exec s.dev).1, {s.usb with out := left.tail ++ _, sent := s.usb.sent ++ packets}, log⟩
        ⟨hi.present,hi.ready,hi.empty⟩ rfl
      refine ⟨left₁,packets :: groups,log₁,hl₁,.cons hp hg,?_⟩
      rw [List.length_cons, runTasks_succ, ht, final_ok, hr]
      simp [Command.execAll]

private theorem runTasks_leftover {s : Boot} (hp : s.usb.fuse = none) (ho : ∀ p ∈ s.usb.out, p = []) (n : Nat) :
    runTasks (n+1) s = s.receive [] := by
  rcases s with ⟨dev,usb,log⟩
  by_cases hout : usb.out = []
  · rw [runTasks_idle hout]
    simp [Boot.receive, ← hout]
  · have hnext : PacketQueue.next usb.out = none :=
      (PacketQueue.next_eq_none _).mpr (List.flatten_eq_nil_iff.mpr ho)
    have hwait : cdcTask ⟨dev, usb, log⟩ = .error () (Boot.receive ⟨dev, usb, log⟩ []) := by
      rw [cdcTask_busy hout, bind_error (bind_error (fetch_waits hnext hp) _)]
      rfl
    rw [runTasks_succ, hwait, final_error, runTasks_idle rfl]

/-- With more turns than commands every packet is used up, and the outcome is that of the
commands alone. -/
theorem runTasks_cut {cs : List Command} {q : List (List UInt8)} (h : Cut cs q) (s : Boot) (hi : s.usb.Idle)
    {n : Nat} (hn : cs.length < n) :
    ∃ groups log, List.Forall₂ (Framed cdcTxrxEpsize) (Command.execAll cs s.dev).2 groups ∧
      runTasks n (s.receive q) = ⟨(Command.execAll cs s.dev).1,
        {s.usb with out := [], sent := s.usb.sent ++ groups.flatten}, log⟩ := by
  obtain ⟨left,groups,log,hl,hg,hr⟩ := runTasks_commands h (s.receive q) ⟨hi.present,hi.ready,hi.empty⟩ rfl
  obtain ⟨k,rfl⟩ : ∃ k, n = cs.length + (k+1) := ⟨n - cs.length - 1,by omega⟩
  refine ⟨groups,log,hg,?_⟩
  rw [runTasks_add, hr]
  refine runTasks_leftover ?_ ?_ k
  · exact hi.present
  · exact hl

theorem flatten_groups {answers : List (List UInt8)} {groups : List (List (List UInt8))}
    (h : List.Forall₂ (Framed cdcTxrxEpsize) answers groups) : groups.flatten.flatten = answers.flatten := by
  induction h with
  | nil => rfl
  | cons hp _ ih => rw [List.flatten_cons, List.flatten_append, hp.flatten, ih, List.flatten_cons]

/-- The commands have been carried out between the two states: the device is theirs, their answers
have been sent, and the endpoints are ready for more. -/
structure CarriedOut (cs : List Command) (s t : Boot) : Prop where
  device : t.dev = (Command.execAll cs s.dev).1
  ready : t.usb.Idle
  answers : t.usb.sent.flatten = s.usb.sent.flatten ++ (Command.execAll cs s.dev).2.flatten

theorem carriedOut_of_cut {cs : List Command} {q : List (List UInt8)} (h : Cut cs q) {s : Boot} (hi : s.usb.Idle)
    {n : Nat} (hn : cs.length < n) : CarriedOut cs s (runTasks n (s.receive q)) := by
  obtain ⟨groups,log,hg,hrun⟩ := runTasks_cut h s hi hn
  rw [hrun]
  refine ⟨rfl,⟨hi.present,hi.ready,hi.empty⟩,?_⟩
  rw [List.flatten_append, flatten_groups hg]

/-- Two ways of cutting the same commands into packets, neither mixing two commands in
one packet: the device and the answers come out the same. -/
theorem packet_boundaries_immaterial (cs : List Command) (s : Boot) (hi : s.usb.Idle)
    (q₁ q₂ : List (List UInt8)) (h₁ : Cut cs q₁) (h₂ : Cut cs q₂) (n₁ n₂ : Nat)
    (hn₁ : cs.length < n₁) (hn₂ : cs.length < n₂) :
    (runTasks n₁ (s.receive q₁)).usb.out = [] ∧ (runTasks n₂ (s.receive q₂)).usb.out = [] ∧
      (runTasks n₁ (s.receive q₁)).dev = (runTasks n₂ (s.receive q₂)).dev ∧
      (runTasks n₁ (s.receive q₁)).usb.sent.flatten = (runTasks n₂ (s.receive q₂)).usb.sent.flatten := by
  obtain ⟨groups₁,log₁,hg₁,hr₁⟩ := runTasks_cut h₁ s hi hn₁
  obtain ⟨groups₂,log₂,hg₂,hr₂⟩ := runTasks_cut h₂ s hi hn₂
  rw [hr₁, hr₂]
  refine ⟨rfl,rfl,rfl,?_⟩
  simp only [List.flatten_append, flatten_groups hg₁, flatten_groups hg₂]

private def enter : Command := .plain 'L'.toUInt8 (by decide)

private theorem enter_cut : Cut [enter, enter] [['L'.toUInt8], ['L'.toUInt8]] := Cut.single [enter, enter]

private theorem enter_cut_padded : Cut [enter, enter] [[], ['L'.toUInt8], [], ['L'.toUInt8], []] := by
  have h : Cut [enter, enter] ([[], ['L'.toUInt8]] ++ ([[], ['L'.toUInt8]] ++ [[]])) :=
    .command rfl (.command rfl (.done (by simp)))
  exact h

theorem packet_boundaries_immaterial_enter :
    (runTasks 3 ((Boot.start []).receive [['L'.toUInt8], ['L'.toUInt8]])).usb.out = [] ∧
      (runTasks 4 ((Boot.start []).receive [[], ['L'.toUInt8], [], ['L'.toUInt8], []])).usb.out = [] ∧
      (runTasks 3 ((Boot.start []).receive [['L'.toUInt8], ['L'.toUInt8]])).dev =
        (runTasks 4 ((Boot.start []).receive [[], ['L'.toUInt8], [], ['L'.toUInt8], []])).dev ∧
      (runTasks 3 ((Boot.start []).receive [['L'.toUInt8], ['L'.toUInt8]])).usb.sent.flatten =
        (runTasks 4 ((Boot.start []).receive [[], ['L'.toUInt8], [], ['L'.toUInt8], []])).usb.sent.flatten :=
  packet_boundaries_immaterial [enter, enter] (Boot.start []) ⟨rfl,rfl,rfl⟩ _ _ enter_cut enter_cut_padded
    3 4 (by decide) (by decide)

/-- The same bytes cut elsewhere: in one packet the second command is released unread. -/
theorem packet_boundaries_matter :
    ¬ ∀ (cs : List Command) (q₁ q₂ : List (List UInt8)),
      q₁.flatten = (cs.map Command.encode).flatten → q₂.flatten = (cs.map Command.encode).flatten →
      (∀ p ∈ q₁, p.length ≤ 16) → (∀ p ∈ q₂, p.length ≤ 16) →
      ∀ n₁ n₂, (runTasks n₁ (Boot.start q₁)).usb.out = [] → (runTasks n₂ (Boot.start q₂)).usb.out = [] →
        (runTasks n₁ (Boot.start q₁)).dev = (runTasks n₂ (Boot.start q₂)).dev ∧
        (runTasks n₁ (Boot.start q₁)).usb.sent.flatten = (runTasks n₂ (Boot.start q₂)).usb.sent.flatten := by
  intro h
  have hboth := h [enter, enter] [['L'.toUInt8, 'L'.toUInt8]] [['L'.toUInt8], ['L'.toUInt8]]
    (by decide) (by decide) (by decide) (by decide) 2 2 (by decide) (by decide)
  exact absurd hboth.2 (by decide)

end ArduinoAT90USB.Bootloader
