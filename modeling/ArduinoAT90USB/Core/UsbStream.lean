import ArduinoAT90USB.Core.Stream
import ArduinoAT90USB.Core.UsbSerial

/-! `USBSerial_` as a `Stream`. The parsers of `Stream` take a negative value for "nothing
there"; on an empty port `peek` returns 0 and `read` returns no value at all. -/
namespace ArduinoAT90USB.Core

/-- The port together with a clock that is read again and again. Where `read` returns no
value the caller finds `residue`. -/
def usbPort (clock : Nat → UInt32) (residue : Int) : Port (UsbSerial × Nat) where
  read s := (s.1.read.1.getD residue, (s.1.read.2, s.2))
  peek s := (s.1.peek.1, (s.1.peek.2, s.2))
  millis s := (clock s.2, (s.1, s.2 + 1))

/-- What `timedRead`, `timedPeek` and `peekNextDigit` rely on. -/
structure HonoursEmptiness (s : UsbSerial) : Prop where
  available : s.available.1 = 0 ↔ s.unread = []
  read : s.unread = [] → s.read.1 = some (-1)
  peek : s.unread = [] → s.peek.1 = -1
  leaves : s.unread = [] → ∀ (clock : Nat → UInt32) (residue : Int) (timeout : UInt32) (now : Nat),
    (∀ k, ∃ j, k < j ∧ timeout ≤ clock j - clock k) →
    ∃ fuel c t, (usbPort clock residue).peekNextDigit timeout fuel (s, now) = some (c, t) ∧ c < 0

namespace UsbSerial
variable {s : UsbSerial}

theorem unread_eq_nil : s.unread = [] ↔ s.mDidPeek = 0 ∧ s.out.flatten = [] := by
  unfold unread
  rw [List.append_eq_nil_iff, List.map_eq_nil_iff]
  by_cases h : s.mDidPeek = 0 <;> simp [h]

theorem bankHolds_of_unread (h : s.out.flatten = []) : s.bankHolds = false := by
  cases hb : s.bankHolds with
  | false => rfl
  | true =>
    obtain ⟨b,p,rest,ho⟩ := bankHolds_iff.mp hb
    rw [ho] at h
    cases h

/-- An empty port stays empty, and shows a 0 to whoever peeks. -/
theorem silent_peek (h : s.unread = []) : s.peek.1 = 0 ∧ s.peek.2.unread = [] := by
  obtain ⟨hp,hf⟩ := unread_eq_nil.mp h
  obtain ⟨q,hq,hpeek⟩ := peek_empty (bankHolds_of_unread hf)
  rw [hpeek]
  exact ⟨rfl,unread_eq_nil.mpr ⟨hp,hq.trans hf⟩⟩

theorem silent_read (h : s.unread = []) : s.read.2.unread = [] := by
  obtain ⟨hp,hf⟩ := unread_eq_nil.mp h
  obtain ⟨q,hq,ha⟩ := available_empty (bankHolds_of_unread hf)
  rw [read, if_neg (by simp [hp])]
  split
  · exact h
  · rw [ha]
    exact unread_eq_nil.mpr ⟨hp,hq.trans hf⟩

theorem available_silent (h : ¬ (s.isListening = true ∧ s.bankHolds = true)) : s.available.1 = 0 := by
  by_cases hl : s.isListening = true
  · have hb : s.bankHolds = false := Bool.eq_false_iff.mpr fun hb => h ⟨hl,hb⟩
    obtain ⟨q,_,ha⟩ := available_empty hb
    rw [ha]
  · simp [available, cdcDeviceBytesReceived, hl]

end UsbSerial

/-- On a silent port `peekNextDigit` takes the 0 for a character, discards it and tries again. -/
theorem silent_port_loops (clock : Nat → UInt32) (residue : Int) (timeout : UInt32) (fuel : Nat) {s : UsbSerial}
    (h : s.unread = []) (now : Nat) : (usbPort clock residue).peekNextDigit timeout fuel (s, now) = none := by
  induction fuel generalizing s now with
  | zero => rfl
  | succ fuel ih =>
    obtain ⟨hzero,hnext⟩ := UsbSerial.silent_peek h
    rw [Port.peekNextDigit]
    cases fuel with
    | zero => rfl
    | succ fuel =>
      have hdelivers := (usbPort clock residue).timed_delivers (usbPort clock residue).peek
        (s := (s, now)) (by change s.peek.1 ≥ 0; omega) timeout fuel
      rw [Port.timedPeek, hdelivers]
      change (if s.peek.1 < 0 then _ else if s.peek.1 = _ then _ else if s.peek.1 ≥ _ ∧ s.peek.1 ≤ _ then _ else _) = none
      rw [hzero, if_neg (by decide), if_neg (by decide), if_neg (by decide)]
      exact ih (UsbSerial.silent_read hnext) (now + 1)

/-- The contract is kept while the bank holds a byte, and in no other state. -/
theorem honoursEmptiness_iff (s : UsbSerial) :
    HonoursEmptiness s ↔ s.isListening = true ∧ s.bankHolds = true := by
  constructor
  · intro h
    refine Classical.byContradiction fun hn => ?_
    have hempty := h.available.mp (UsbSerial.available_silent hn)
    have hpeek := h.peek hempty
    rw [(UsbSerial.silent_peek hempty).1] at hpeek
    exact absurd hpeek (by decide)
  · rintro ⟨hl,hb⟩
    obtain ⟨b,p,rest,ho⟩ := UsbSerial.bankHolds_iff.mp hb
    have hne : s.unread ≠ [] := fun h => by
      rw [UsbSerial.bankHolds_of_unread (UsbSerial.unread_eq_nil.mp h).2] at hb
      cases hb
    refine ⟨?_,fun h => absurd h hne,fun h => absurd h hne,fun h => absurd h hne⟩
    rw [UsbSerial.available_bank hl ho]
    exact ⟨fun h => absurd h (by omega),fun h => absurd h hne⟩

/-- In every state that reads, peeks and received packets lead to, from any configuration
of the device, the contract is kept exactly if the bank holds a byte. -/
theorem emptiness_contract (r : Session) (calls : List Call) :
    HonoursEmptiness (r.run calls).serial ↔
      (r.run calls).serial.isListening = true ∧ (r.run calls).serial.bankHolds = true :=
  honoursEmptiness_iff _

/-- A port on which nothing was ever received: `peek` shows 0, `read` returns nothing, and
`peekNextDigit` never comes back. -/
theorem emptiness_contract_fails :
    ¬ (∀ calls : List Call, HonoursEmptiness ((Session.opened 9600).run calls).serial) ∧
      (UsbSerial.opened 9600).peek.1 = 0 ∧ (UsbSerial.opened 9600).read.1 = none ∧
      ∀ fuel, (usbPort (fun n => UInt32.ofNat n) 0).peekNextDigit 1000 fuel (.opened 9600, 0) = none := by
  refine ⟨fun h => ?_,rfl,rfl,fun fuel => silent_port_loops _ _ _ fuel rfl 0⟩
  exact absurd ((h []).peek rfl) (by decide)

end ArduinoAT90USB.Core
