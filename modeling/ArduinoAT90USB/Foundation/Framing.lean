import Mathlib.Data.List.Basic
import Mathlib.Tactic.Common

/-! A transfer cut into packets of a fixed size and ended by a shorter one. -/
namespace ArduinoAT90USB.Foundation.Framing
variable {α : Type}

/-- Full packets, then one that is not full, carrying `bytes` altogether. -/
structure Framed (size : Nat) (bytes : List α) (packets : List (List α)) : Prop where
  flatten : packets.flatten = bytes
  full : ∀ p ∈ packets.dropLast, p.length = size
  short : ∃ p, packets.getLast? = some p ∧ p.length < size

theorem flatten_length_of_full {size : Nat} {packets : List (List α)}
    (h : ∀ p ∈ packets, p.length = size) : packets.flatten.length = packets.length * size := by
  induction packets with
  | nil => simp
  | cons p rest ih =>
    have hp := h p List.mem_cons_self
    have hr := ih fun q hq => h q (List.mem_cons_of_mem p hq)
    rw [List.flatten_cons, List.length_append, hp, hr, List.length_cons, Nat.add_mul]
    omega

theorem framed_concat {size : Nat} {full : List (List α)} {last : List α}
    (hf : ∀ p ∈ full, p.length = size) (hl : last.length < size) :
    Framed size (full.flatten ++ last) (full ++ [last]) where
  flatten := by simp
  full := by simpa using hf
  short := ⟨last,by simp,hl⟩

/-- A transfer that fits in one packet is sent as one packet. -/
theorem Framed.single {size : Nat} {bytes : List α} {packets : List (List α)}
    (h : Framed size bytes packets) (hb : bytes.length < size) : packets = [bytes] := by
  obtain ⟨last,hlast,_⟩ := h.short
  obtain ⟨init,rfl⟩ := List.getLast?_eq_some_iff.mp hlast
  have hflat := h.flatten
  cases init with
  | nil => simpa using hflat
  | cons p rest =>
    have hp : p.length = size := h.full p (by rw [List.dropLast_concat]; exact List.mem_cons_self)
    have hlen := congrArg List.length hflat
    simp only [List.cons_append, List.flatten_cons, List.length_append] at hlen
    omega

/-- The closing packet is empty exactly for transfers of a whole number of packets. -/
theorem Framed.empty_iff {size : Nat} {bytes : List α} {packets : List (List α)}
    (h : Framed size bytes packets) : packets.getLast? = some [] ↔ size ∣ bytes.length := by
  obtain ⟨last,hlast,hlen⟩ := h.short
  obtain ⟨init,rfl⟩ := List.getLast?_eq_some_iff.mp hlast
  have hi : ∀ p ∈ init, p.length = size := by simpa using h.full
  have hlength : bytes.length = init.length * size + last.length := by
    rw [← h.flatten, List.flatten_append, List.length_append, flatten_length_of_full hi]
    simp
  rw [hlength, Nat.dvd_add_right (Nat.dvd_mul_left size init.length), hlast, Option.some.injEq]
  constructor
  · rintro rfl
    exact Nat.dvd_zero size
  · intro hd
    exact List.length_eq_zero_iff.mp (Nat.eq_zero_of_dvd_of_lt hd hlen)

end ArduinoAT90USB.Foundation.Framing
