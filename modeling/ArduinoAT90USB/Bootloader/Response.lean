import ArduinoAT90USB.Bootloader.Invariant
import ArduinoAT90USB.Foundation.Framing

/-! What the host sees of a response: the bank is sent lazily, before the byte that does
not fit, and once more at the end of the task. -/
namespace ArduinoAT90USB.Bootloader
open Foundation Foundation.TaskLogic Foundation.Framing

/-- The bytes given to `WriteNextResponseByte`, oldest first. -/
def responses (log : List Event) : List UInt8 :=
  (log.filterMap fun | .respond b => some b | _ => none).reverse

namespace Usb

/-- Between two commands of a host that stays attached. -/
structure Idle (u : Usb) : Prop where
  present : u.fuse = none
  ready : u.inReady = true
  empty : u.inBank = []

/-- `r` has been written since `sent` was on the wire: full packets are gone, the rest is in the bank. -/
structure Streaming (sent : List (List UInt8)) (r : List UInt8) (u : Usb) : Prop where
  present : u.fuse = none
  ready : u.inReady = true
  fits : u.inBank.length ≤ cdcTxrxEpsize
  split : ∃ full, u.sent = sent ++ full ∧ (∀ p ∈ full, p.length = cdcTxrxEpsize) ∧
    r = full.flatten ++ u.inBank

theorem Idle.streaming {u : Usb} (h : u.Idle) : Streaming u.sent [] u where
  present := h.present
  ready := h.ready
  fits := by simp [h.empty]
  split := ⟨[],by simp,by simp,by simp [h.empty]⟩

variable {sent : List (List UInt8)} {r : List UInt8} {u : Usb}

private theorem full_of_not_allowed (h : Streaming sent r u) (hf : u.isInAllowed = false) :
    u.inBank.length = cdcTxrxEpsize := by
  have hlt : ¬ u.inBank.length < cdcTxrxEpsize := by simpa [isInAllowed, h.ready] using hf
  have := h.fits
  omega

private theorem write_room (hr : u.inReady = true) (hl : u.inBank.length < cdcTxrxEpsize) (b : UInt8) :
    u.writeNextResponseByte b = {u with inBank := u.inBank ++ [b]} := by
  simp [writeNextResponseByte, isInAllowed, hr, hl, write8]

private theorem write_full (hp : u.fuse = none) (hr : u.inReady = true)
    (hl : u.inBank.length = cdcTxrxEpsize) (b : UInt8) :
    u.writeNextResponseByte b = {u with inBank := [b], sent := u.sent ++ [u.inBank]} := by
  rcases u with ⟨out,bank,ready,wire,fuse⟩
  obtain rfl : fuse = none := hp
  obtain rfl : ready = true := hr
  dsimp only at hl
  simp [writeNextResponseByte, isInAllowed, hl, clearIn, awaitIn, write8]

theorem Streaming.write (h : Streaming sent r u) (b : UInt8) :
    Streaming sent (r ++ [b]) (u.writeNextResponseByte b) := by
  obtain ⟨full,hs,hfull,hr⟩ := h.split
  by_cases hlt : u.inBank.length < cdcTxrxEpsize
  · rw [write_room h.ready hlt]
    refine ⟨h.present,h.ready,?_,full,hs,hfull,?_⟩
    · rw [List.length_append, List.length_singleton]
      omega
    · rw [hr, List.append_assoc]
  · have hlen : u.inBank.length = cdcTxrxEpsize := by have := h.fits; omega
    rw [write_full h.present h.ready hlen]
    refine ⟨h.present,h.ready,by simp [cdcTxrxEpsize],full ++ [u.inBank],?_,?_,?_⟩
    · dsimp only
      rw [hs, List.append_assoc]
    · intro p hp
      rcases List.mem_append.mp hp with hp | hp
      · exact hfull p hp
      · rw [List.mem_singleton.mp hp, hlen]
    · simp [hr]

theorem Streaming.write_out (h : Streaming sent r u) (b : UInt8) : (u.writeNextResponseByte b).out = u.out := by
  by_cases hlt : u.inBank.length < cdcTxrxEpsize
  · rw [write_room h.ready hlt]
  · rw [write_full h.present h.ready (by have := h.fits; omega)]

/-- The end of the task sends what is left, ends the transfer with a short packet and
releases the OUT bank. -/
theorem Streaming.finish (h : Streaming sent r u) :
    ∃ packets, Framed cdcTxrxEpsize r packets ∧
      u.finishResponse = {u with out := u.out.tail, inBank := [], sent := sent ++ packets} := by
  obtain ⟨full,hs,hfull,hr⟩ := h.split
  rcases u with ⟨out,bank,ready,wire,fuse⟩
  obtain rfl : fuse = none := h.present
  obtain rfl : ready = true := h.ready
  dsimp only at hs hr
  subst hs hr
  cases ha : isInAllowed ⟨out,bank,true,sent ++ full,none⟩ with
  | true =>
    have hlt : bank.length < cdcTxrxEpsize := by simpa [isInAllowed] using ha
    refine ⟨full ++ [bank],framed_concat hfull hlt,?_⟩
    simp [finishResponse, ha, clearIn, awaitIn, clearOut]
  | false =>
    have hlen := full_of_not_allowed h ha
    have hmore : ∀ p ∈ full ++ [bank], p.length = cdcTxrxEpsize := by
      intro p hp
      rcases List.mem_append.mp hp with hp | hp
      · exact hfull p hp
      · rw [List.mem_singleton.mp hp]
        exact hlen
    refine ⟨full ++ [bank] ++ [[]],?_,?_⟩
    · simpa using framed_concat hmore (show ([] : List UInt8).length < cdcTxrxEpsize by decide)
    · simp [finishResponse, ha, clearIn, awaitIn, clearOut]

end Usb

/-- The response so far is exactly what was logged since `before`. -/
def InResponse (before : List UInt8) (sent : List (List UInt8)) (s : Boot) : Prop :=
  ∃ r, responses s.log = before ++ r ∧ s.usb.Streaming sent r

private theorem responses_quiet {e : Event} (h : e.isAccess = true) (log : List Event) :
    responses (e :: log) = responses log := by
  cases e <;> simp_all [responses, Event.isAccess]

theorem inResponse_closed (before : List UInt8) (sent : List (List UInt8)) :
    FullyClosed (InResponse before sent) (fun _ => True) where
  fetch := by
    constructor
    rintro s ⟨r,hr,hu⟩
    cases hn : PacketQueue.next s.usb.out with
    | none =>
      rw [fetch_waits hn hu.present]
      trivial
    | some next =>
      rw [fetch_byte hn]
      exact ⟨r,by simpa [responses] using hr,hu.present,hu.ready,hu.fits,hu.split⟩
  respond b := by
    constructor
    rintro s ⟨r,hr,hu⟩
    refine ⟨r ++ [b],?_,hu.write b⟩
    rw [← List.append_assoc, ← hr]
    simp [responses]
  assign _ _ := ⟨fun _ h => h⟩
  rwwEnable := by
    constructor
    rintro s ⟨r,hr,hu⟩
    exact ⟨r,(responses_quiet rfl _).trans hr,hu⟩
  perform e f he _ _ := by
    constructor
    rintro s ⟨r,hr,hu⟩
    exact ⟨r,(responses_quiet he _).trans hr,hu⟩
  observe e f he := by
    constructor
    rintro s ⟨r,hr,hu⟩
    exact ⟨r,(responses_quiet (he _).1 _).trans hr,hu⟩
  paging e f he := by
    constructor
    rintro s ⟨r,hr,hu⟩
    exact ⟨r,(responses_quiet he _).trans hr,hu⟩

/-- A task that processes a command sends its response as one framed transfer and
leaves the endpoint ready for the next one. -/
theorem cdcTask_framed {s t : Boot} (hi : s.usb.Idle) (hc : s.usb.out ≠ []) (ht : cdcTask s = .ok () t) :
    t.usb.Idle ∧ ∃ r packets, responses t.log = responses s.log ++ r ∧
      t.usb.sent = s.usb.sent ++ packets ∧ Framed cdcTxrxEpsize r packets := by
  have hclosed := inResponse_closed (responses s.log) s.usb.sent
  have hbody : Keeps (InResponse (responses s.log) s.usb.sent) (fun _ => True)
      (fetchNextCommandByte >>= processCommand) := keeps_bind hclosed.fetch hclosed.command
  have hinv := hbody.ends s ⟨[],by simp,hi.streaming⟩
  rw [cdcTask_busy hc] at ht
  cases hb : (fetchNextCommandByte >>= processCommand) s with
  | error e v => rw [bind_error hb] at ht; cases ht
  | ok a v =>
    rw [bind_ok hb] at ht
    rw [hb] at hinv
    obtain ⟨r,hr,hu⟩ := hinv
    obtain ⟨packets,hp,hf⟩ := hu.finish
    injection ht with _ ht
    subst ht
    refine ⟨?_,r,packets,hr,?_,hp⟩
    · dsimp only
      rw [hf]
      exact ⟨hu.present,hu.ready,rfl⟩
    · dsimp only
      rw [hf]

private theorem runTasks_idle_or_done (n : Nat) (s : Boot) (h : s.usb.Idle ∨ s.usb.out = []) :
    (runTasks n s).usb.Idle ∨ (runTasks n s).usb.out = [] := by
  induction n generalizing s with
  | zero => exact h
  | succ n ih =>
    rw [runTasks_succ]
    apply ih
    by_cases hs : s.usb.out = []
    · rw [cdcTask_idle hs]
      exact Or.inr hs
    · cases ht : cdcTask s with
      | ok a t => exact Or.inl (cdcTask_framed (h.resolve_right hs) hs ht).1
      | error e t => exact Or.inr (cdcTask_waiting ht)

/-- Every command processed while the host stays: the packets are full ones followed by
a shorter one, and concatenate to the response. -/
theorem response_framing (s₀ : Boot) (h : s₀.usb.Idle) (n : Nat) (t : Boot)
    (hc : (runTasks n s₀).usb.out ≠ []) (ht : cdcTask (runTasks n s₀) = .ok () t) :
    ∃ r packets, responses t.log = responses (runTasks n s₀).log ++ r ∧
      t.usb.sent = (runTasks n s₀).usb.sent ++ packets ∧ packets.flatten = r ∧
      (∀ p ∈ packets.dropLast, p.length = 16) ∧
      ∃ last, packets.getLast? = some last ∧ last.length < 16 ∧ (last = [] ↔ 16 ∣ r.length) := by
  have hi := (runTasks_idle_or_done n s₀ (Or.inl h)).resolve_right hc
  obtain ⟨_,r,packets,hr,hp,hf⟩ := cdcTask_framed hi hc ht
  obtain ⟨last,hl,hlt⟩ := hf.short
  refine ⟨r,packets,hr,hp,hf.flatten,hf.full,last,hl,hlt,?_⟩
  have he := hf.empty_iff
  rwa [hl, Option.some.injEq] at he

theorem response_framing_signature :
    ∃ t, cdcTask (runTasks 0 (Boot.start [['s'.toUInt8]])) = .ok () t ∧
      ∃ r packets, responses t.log = responses (runTasks 0 (Boot.start [['s'.toUInt8]])).log ++ r ∧
        t.usb.sent = (runTasks 0 (Boot.start [['s'.toUInt8]])).usb.sent ++ packets ∧
        packets.flatten = r ∧ (∀ p ∈ packets.dropLast, p.length = 16) ∧
        ∃ last, packets.getLast? = some last ∧ last.length < 16 ∧ (last = [] ↔ 16 ∣ r.length) :=
  ⟨_,rfl,response_framing _ ⟨rfl,rfl,rfl⟩ 0 _ (by decide) rfl⟩

example : (runTasks 1 (Boot.start [['g'.toUInt8, 0, 32, 'F'.toUInt8]])).usb.sent.map List.length = [16, 16, 0] := by
  decide +kernel

end ArduinoAT90USB.Bootloader
