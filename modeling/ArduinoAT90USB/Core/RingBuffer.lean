import ArduinoAT90USB.Foundation.Ring

/-! `struct ring_buffer` of `HardwareSerial.cpp`. Indices are `uint8_t`; they stay below the
buffer size, which the header keeps below 256, so the narrowing casts never bite. -/
namespace ArduinoAT90USB.Core
open Foundation

/-- A permitted `SERIAL_BUFFER_SIZE`. -/
structure BufferSize where
  size : Nat
  low : 2 ≤ size
  high : size ≤ 255

/-- `SERIAL_BUFFER_SIZE` of a part with more than 1000 bytes of RAM. -/
def serialBufferSize : BufferSize := ⟨64,by decide,by decide⟩

structure RingBuffer where
  buffer : Nat → UInt8
  head : UInt8
  tail : UInt8

/-- `(uint8_t)(i + 1) % SERIAL_BUFFER_SIZE`. -/
def castNext (n : BufferSize) (i : UInt8) : UInt8 := UInt8.ofNat ((i + 1).toNat % n.size)

/-- `(i + 1) % SERIAL_BUFFER_SIZE`, the sum being an `int`. -/
def intNext (n : BufferSize) (i : UInt8) : UInt8 := UInt8.ofNat ((i.toNat + 1) % n.size)

namespace RingBuffer

def empty : RingBuffer := ⟨fun _ => 0, 0, 0⟩

/-- `buffer->buffer[buffer->head] = c`. -/
def store (c : UInt8) (b : RingBuffer) : RingBuffer := {b with buffer := Function.update b.buffer b.head.toNat c}

def contents (n : BufferSize) (b : RingBuffer) : List UInt8 :=
  Ring.contents n.size b.buffer b.head.toNat b.tail.toNat

structure Bounded (n : BufferSize) (b : RingBuffer) : Prop where
  head : b.head.toNat < n.size
  tail : b.tail.toNat < n.size

end RingBuffer

variable {n : BufferSize} {i : UInt8}

theorem castNext_toNat (h : i.toNat < n.size) : (castNext n i).toNat = Ring.next n.size i.toNat := by
  have hn := n.high
  have hlt := Ring.next_lt (by omega) i.toNat (n := n.size)
  rw [castNext, UInt8.toNat_ofNat', UInt8.toNat_add, Nat.mod_eq_of_lt (a := i.toNat + _) (by change _ + 1 < 256; omega)]
  exact Nat.mod_eq_of_lt (by change Ring.next n.size i.toNat < 256; omega)

theorem intNext_toNat (h : i.toNat < n.size) : (intNext n i).toNat = Ring.next n.size i.toNat := by
  have hn := n.high
  have hlt := Ring.next_lt (by omega) i.toNat (n := n.size)
  rw [intNext, UInt8.toNat_ofNat']
  exact Nat.mod_eq_of_lt (by change Ring.next n.size i.toNat < 256; omega)

namespace RingBuffer
variable {b : RingBuffer}

theorem empty_bounded (n : BufferSize) : empty.Bounded n := by
  have hn := n.low
  exact ⟨show 0 < n.size by omega,show 0 < n.size by omega⟩

theorem contents_empty (n : BufferSize) : empty.contents n = [] :=
  (Ring.contents_eq_nil (empty_bounded n).head (empty_bounded n).tail _).mpr rfl

namespace Bounded
variable (h : b.Bounded n)
include h

theorem contents_length_lt : (b.contents n).length < n.size := by
  rw [contents, Ring.contents_length]
  exact Ring.count_lt h.head h.tail

theorem contents_nil_iff : b.contents n = [] ↔ b.head = b.tail := by
  rw [contents, Ring.contents_eq_nil h.head h.tail, UInt8.toNat_inj]

theorem contents_store (c : UInt8) : (b.store c).contents n = b.contents n :=
  Ring.contents_update h.head h.tail b.buffer c

theorem full_iff {i : UInt8} (hi : i.toNat = Ring.next n.size b.head.toNat) :
    i = b.tail ↔ (b.contents n).length = n.size - 1 := by
  rw [← UInt8.toNat_inj, hi]
  exact Ring.next_eq_tail h.head h.tail b.buffer

/-- Publishing the next head makes the stored byte the newest one. -/
theorem contents_publish {i : UInt8} (hi : i.toNat = Ring.next n.size b.head.toNat) (hne : i ≠ b.tail) :
    ({b with head := i}).contents n = b.contents n ++ [b.buffer b.head.toNat] := by
  have hne' : Ring.next n.size b.head.toNat ≠ b.tail.toNat := by
    rw [← hi]
    exact fun he => hne (UInt8.toNat_inj.mp he)
  rw [contents]
  change Ring.contents n.size b.buffer i.toNat b.tail.toNat = _
  rw [hi]
  exact Ring.contents_push h.head h.tail b.buffer hne'

theorem contents_release {i : UInt8} (hi : i.toNat = Ring.next n.size b.tail.toNat) (hne : b.head ≠ b.tail) :
    b.contents n = b.buffer b.tail.toNat :: ({b with tail := i}).contents n := by
  have hne' : b.head.toNat ≠ b.tail.toNat := fun he => hne (UInt8.toNat_inj.mp he)
  have hpop := Ring.contents_pop h.head h.tail b.buffer hne'
  rw [contents, hpop, ← hi]
  rfl

theorem publish {i : UInt8} (hi : i.toNat = Ring.next n.size b.head.toNat) : ({b with head := i}).Bounded n := by
  have hn := n.low
  exact ⟨by change i.toNat < _; rw [hi]; exact Ring.next_lt (by omega) _,h.tail⟩

theorem release {i : UInt8} (hi : i.toNat = Ring.next n.size b.tail.toNat) : ({b with tail := i}).Bounded n := by
  have hn := n.low
  exact ⟨h.head,by change i.toNat < _; rw [hi]; exact Ring.next_lt (by omega) _⟩

end Bounded

end RingBuffer

end ArduinoAT90USB.Core
