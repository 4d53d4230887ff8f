import ArduinoAT90USB.Core.SerialReceive

/-! `HardwareSerial::available`. The sum of buffer size, head and tail is cast to a byte before it
is reduced, which changes its residue as soon as it reaches 256: with no wrap between tail and
head that is size plus unread bytes. -/
namespace ArduinoAT90USB.Core
open Foundation

/-- `(uint8_t)(SERIAL_BUFFER_SIZE + _rx_buffer->head - _rx_buffer->tail) % SERIAL_BUFFER_SIZE`. -/
def RingBuffer.available (n : BufferSize) (b : RingBuffer) : Nat := (UInt8.ofNat n.size + b.head - b.tail).toNat % n.size

def Receiver.unread (s : Receiver) : Nat := s.accepted.length - (delivered s.answers).length

section Count
variable {n : BufferSize} {b : RingBuffer} {s : Receiver}

theorem Receiver.Sound.unread_eq (h : s.Sound n) : s.unread = (s.rxBuffer.contents n).length := by
  have hlength := congrArg List.length h.account
  rw [List.length_map, List.length_append, List.length_map] at hlength
  rw [Receiver.unread]
  omega

/-- The count is right if the indices have wrapped or the sum stays in a byte, and wrong otherwise. -/
theorem RingBuffer.Bounded.available_iff (h : b.Bounded n) :
    b.available n = (b.contents n).length ↔ b.head < b.tail ∨ n.size + (b.contents n).length < 256 := by
  have hlow := n.low
  have hhigh := n.high
  have hhead := h.head
  have htail := h.tail
  have hsum : (UInt8.ofNat n.size + b.head - b.tail).toNat = (n.size + b.head.toNat - b.tail.toNat) % 256 := by
    rw [UInt8.toNat_sub, UInt8.toNat_add, UInt8.toNat_ofNat']
    omega
  rw [RingBuffer.available, RingBuffer.contents, Ring.contents_length, Ring.count_eq hhead htail, hsum, UInt8.lt_iff_toNat_lt]
  rcases Nat.lt_or_ge b.head.toNat b.tail.toNat with hwrap | hflat
  · refine iff_of_true ?_ (Or.inl hwrap)
    rw [if_neg (by omega), Nat.mod_eq_of_lt (a := n.size + _ - _) (by omega), Nat.mod_eq_of_lt (by omega)]
  · rw [if_pos hflat]
    rcases Nat.lt_or_ge (n.size + (b.head.toNat - b.tail.toNat)) 256 with hbyte | hlarge
    · refine iff_of_true ?_ (Or.inr hbyte)
      rw [show n.size + b.head.toNat - b.tail.toNat = b.head.toNat - b.tail.toNat + n.size by omega,
        Nat.mod_eq_of_lt (a := _ + n.size) (by omega), Nat.add_mod_right, Nat.mod_eq_of_lt (by omega)]
    · refine iff_of_false ?_ (by omega)
      rw [show (n.size + b.head.toNat - b.tail.toNat) % 256 = n.size + b.head.toNat - b.tail.toNat - 256 by omega,
        Nat.mod_eq_of_lt (by omega)]
      omega

private theorem run_fill (k : Nat) (c : UInt8) (ht : s.rxBuffer.tail = 0) (hk : s.rxBuffer.head.toNat + k < n.size) :
    (s.run n (List.replicate k (.interrupt c false))).rxBuffer.tail = 0 ∧
      (s.run n (List.replicate k (.interrupt c false))).rxBuffer.head.toNat = s.rxBuffer.head.toNat + k := by
  induction k generalizing s with
  | zero => exact ⟨ht,rfl⟩
  | succ k ih =>
    have hnext : (castNext n s.rxBuffer.head).toNat = s.rxBuffer.head.toNat + 1 := by
      rw [castNext_toNat (by omega), Ring.next_eq (by omega), if_pos (by omega)]
    have hne : castNext n s.rxBuffer.head ≠ s.rxBuffer.tail := by
      intro he
      rw [he, ht] at hnext
      exact absurd hnext (Nat.succ_ne_zero _).symm
    have hbuffer : (s.interrupt n c false).rxBuffer = {s.rxBuffer.store c with head := castNext n s.rxBuffer.head} := by
      simp [Receiver.interrupt, RingBuffer.storeChar, hne]
    rw [List.replicate_succ, Receiver.run, Receiver.step]
    have hrest := ih (s := s.interrupt n c false) (by rw [hbuffer]; exact ht) (by rw [hbuffer, hnext]; omega)
    rw [hbuffer, hnext] at hrest
    exact ⟨hrest.1,by omega⟩

end Count

/-- After any interrupts and calls `available` is the number of unread bytes exactly if the indices
have wrapped or size and count together stay below 256; it is so in all runs exactly if the size is
at most 128. -/
theorem available_counts (n : BufferSize) :
    (∀ steps, (Receiver.initial.run n steps).rxBuffer.available n = (Receiver.initial.run n steps).unread ↔
      (Receiver.initial.run n steps).rxBuffer.head < (Receiver.initial.run n steps).rxBuffer.tail ∨
        n.size + (Receiver.initial.run n steps).unread < 256) ∧
    ((∀ steps, (Receiver.initial.run n steps).rxBuffer.available n = (Receiver.initial.run n steps).unread) ↔
      n.size ≤ 128) := by
  have hsound (steps : List ReceiveStep) := (Receiver.initial_sound n).run steps
  have hstate (steps : List ReceiveStep) :
      (Receiver.initial.run n steps).rxBuffer.available n = (Receiver.initial.run n steps).unread ↔
        (Receiver.initial.run n steps).rxBuffer.head < (Receiver.initial.run n steps).rxBuffer.tail ∨
          n.size + (Receiver.initial.run n steps).unread < 256 := by
    rw [(hsound steps).unread_eq]
    exact (hsound steps).bounded.available_iff
  refine ⟨hstate,?_,?_⟩
  · intro hall
    by_contra hlarge
    -- so many bytes that size and count make 256
    obtain ⟨htail,hhead⟩ := run_fill (n := n) (s := Receiver.initial) (256 - n.size) 0 rfl
      (by change 0 + (256 - n.size) < n.size; omega)
    have hwrong := (hstate _).mp (hall (List.replicate (256 - n.size) (.interrupt 0 false)))
    have hbounded := (hsound (List.replicate (256 - n.size) (.interrupt 0 false))).bounded
    rw [(hsound _).unread_eq, RingBuffer.contents, Ring.contents_length, Ring.count_eq hbounded.head hbounded.tail, htail, hhead,
      UInt8.lt_iff_toNat_lt, hhead] at hwrong
    change 0 + (256 - n.size) < 0 ∨ n.size + (if 0 ≤ 0 + (256 - n.size) then 0 + (256 - n.size) - 0 else _) < 256 at hwrong
    rw [if_pos (Nat.zero_le _)] at hwrong
    omega
  · intro hsmall steps
    have hcount := (hsound steps).bounded.contents_length_lt
    rw [← (hsound steps).unread_eq] at hcount
    exact (hstate steps).mpr (Or.inr (by omega))

/-- One byte in the largest buffer: 255 + 1 is 0 as a byte. -/
theorem available_wraps :
    ¬ ∀ (n : BufferSize) (steps : List ReceiveStep),
      (Receiver.initial.run n steps).rxBuffer.available n = (Receiver.initial.run n steps).unread := by
  intro h
  have hcount := h ⟨255,by decide,by decide⟩ [.interrupt 0 false]
  exact absurd hcount (by decide)

end ArduinoAT90USB.Core
