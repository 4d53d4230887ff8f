import ArduinoAT90USB.Core.Tone
import Mathlib.Algebra.Ring.Nat
import Mathlib.Logic.Function.Iterate

/-! Tones with a duration. The compare interrupt toggles the pin while it counts down and hands over
to `noTone` at zero; the count is `2 * frequency * duration / 1000`, of which the first product has
the sixteen bits of `unsigned int`. -/
namespace ArduinoAT90USB.Core

namespace ToneState

def after (k : Nat) (s : ToneState) : ToneState := (fun s => s.step .compareInterrupt)^[k] s

/-- The interrupt toggles the pin `n` times, and the next one stops the tone. -/
structure PlaysExactly (pin : UInt8) (n : Nat) (s : ToneState) : Prop where
  plays : ∀ k ≤ n, (s.after k).enabled = true ∧ (s.after k).tonePin = pin
  toggles : ∀ k < n, (s.after (k+1)).pins.level pin = !(s.after k).pins.level pin
  stops : (s.after (n+1)).enabled = false ∧ (s.after (n+1)).tonePin = 255 ∧ (s.after (n+1)).pins.level pin = false

/-- The tone of a pin is on with `n` toggles to go. -/
structure Playing (pin : UInt8) (n : Nat) (s : ToneState) : Prop where
  slot : s.tonePin = pin
  designates : s.Designates
  on : s.enabled = true
  count : s.toggleCount = Int32.ofNat n

section Countdown
variable {s : ToneState} {pin : UInt8} {n : Nat}

theorem PlaysExactly.unique {m : Nat} (hm : s.PlaysExactly pin m) (hn : s.PlaysExactly pin n) : m = n := by
  have hle {i j : Nat} (hi : s.PlaysExactly pin i) (hj : s.PlaysExactly pin j) : j ≤ i := by
    by_contra hlt
    have hon := (hj.plays (i+1) (by omega)).1
    rw [hi.stops.1] at hon
    cases hon
  exact Nat.le_antisymm (hle hn hm) (hle hm hn)

private theorem positive_count (hn : n + 1 < 2147483648) : Int32.ofNat (n+1) > 0 := by
  apply Int32.lt_iff_toInt_lt.mpr
  rw [Int32.toInt_ofNat_of_lt hn]
  exact Int.natCast_pos.mpr (Nat.succ_pos n)

theorem Playing.step (h : s.Playing pin (n+1)) (hn : n + 1 < 2147483648) :
    (s.step .compareInterrupt).Playing pin n ∧
      (s.step .compareInterrupt).pins.level pin = !s.pins.level pin := by
  have hpos : s.toggleCount > 0 := h.count ▸ positive_count hn
  have hne : s.toggleCount ≠ 0 := by
    intro hzero
    rw [hzero] at hpos
    exact absurd hpos (by decide)
  have htoggled := compareInterrupt_toggles h.designates hne
  have hcount : s.toggleCount - 1 = Int32.ofNat n := by
    rw [h.count, Int32.ofNat_add]
    exact Int32.add_sub_cancel _ _
  rw [ToneState.step, if_pos h.on, ← h.slot]
  refine ⟨?_,htoggled⟩
  rw [compareInterrupt, if_pos hne]
  exact ⟨rfl,⟨h.designates.onBoard,h.designates.port,h.designates.mask⟩,h.on,(if_pos hpos).trans hcount⟩

theorem Playing.playsExactly (h : s.Playing pin n) (hn : n < 2147483648) : s.PlaysExactly pin n := by
  induction n generalizing s with
  | zero =>
    have hstops := compareInterrupt_stops h.designates h.count
    have hafter : s.after 1 = s.compareInterrupt := if_pos h.on
    rw [h.slot, ← hafter] at hstops
    refine ⟨fun k hk => ?_,fun k hk => absurd hk (Nat.not_lt_zero k),hstops.2.2,hstops.2.1,hstops.1⟩
    obtain rfl := Nat.le_zero.mp hk
    exact ⟨h.on,h.slot⟩
  | succ n ih =>
    obtain ⟨hnext,htoggled⟩ := h.step hn
    have hrest := ih hnext (by omega)
    refine ⟨fun k hk => ?_,fun k hk => ?_,hrest.stops⟩
    · cases k with
      | zero => exact ⟨h.on,h.slot⟩
      | succ k => exact hrest.plays k (by omega)
    · cases k with
      | zero => exact htoggled
      | succ k => exact hrest.toggles k (by omega)

end Countdown

theorem toggles_eq {frequency : UInt16} {duration : UInt32} (hd : duration > 0)
    (hbound : 2 * frequency.toNat * duration.toNat < 4294967296) :
    toggles frequency duration = Int32.ofNat (2 * frequency.toNat % 65536 * duration.toNat / 1000) := by
  have htwice : (2 * frequency).toUInt32.toNat = 2 * frequency.toNat % 65536 := by
    rw [UInt16.toNat_toUInt32, UInt16.toNat_mul]
    rfl
  have hproduct : ((2 * frequency).toUInt32 * duration / 1000).toNat = 2 * frequency.toNat % 65536 * duration.toNat / 1000 := by
    have hle : 2 * frequency.toNat % 65536 * duration.toNat ≤ 2 * frequency.toNat * duration.toNat :=
      Nat.mul_le_mul_right _ (Nat.mod_le _ _)
    rw [UInt32.toNat_div, UInt32.toNat_mul, htwice, Nat.mod_eq_of_lt (a := _ * duration.toNat) (Nat.lt_of_le_of_lt hle hbound)]
    rfl
  rw [toggles, if_pos hd, ← hproduct]
  exact (congrArg UInt32.toInt32 UInt32.ofNat_toNat).symm

theorem tone_playing {s : ToneState} (h : s.Owned) (r : ToneRequest) (hslot : s.tonePin = 255 ∨ s.tonePin = r.pin)
    {n : Nat} (hcount : toggles r.frequency r.duration = Int32.ofNat n) :
    (s.tone r.pin r.frequency r.duration).Playing r.pin n := by
  have howned := tone_owned h r.onBoard r.frequency r.duration
  have htone : (s.tone r.pin r.frequency r.duration).tonePin = r.pin ∧
      (s.tone r.pin r.frequency r.duration).toggleCount = toggles r.frequency r.duration := by
    rw [tone, toneBegin]
    by_cases heq : s.tonePin = r.pin
    · rw [if_pos heq]
      exact ⟨heq,rfl⟩
    · rw [if_neg heq, if_pos (hslot.resolve_right heq)]
      exact ⟨rfl,rfl⟩
  cases howned with
  | free slot off =>
    have honBoard := r.onBoard
    rw [← htone.1, slot] at honBoard
    exact absurd honBoard (by decide)
  | taken slot on timer => exact ⟨htone.1,slot,on,htone.2.trans hcount⟩

end ToneState

/-- After any calls and interrupts, a tone with a duration on a free slot, or on the pin that has the
slot, toggles its pin `2 * frequency * duration / 1000` times and is cleaned up by the next interrupt
exactly if twice the frequency fits in sixteen bits. -/
theorem timed_tone (pins : Pins) (tccr2b ocr2a : UInt8) (actions : List ToneAction) (r : ToneRequest)
    (hd : r.duration > 0) (hbound : 2 * r.frequency.toNat * r.duration.toNat < 2^32)
    (hslot : (actions.foldl ToneState.step (.reset pins tccr2b ocr2a)).tonePin = 255 ∨
      (actions.foldl ToneState.step (.reset pins tccr2b ocr2a)).tonePin = r.pin) :
    ((actions.foldl ToneState.step (.reset pins tccr2b ocr2a)).tone r.pin r.frequency r.duration).PlaysExactly r.pin
        (2 * r.frequency.toNat * r.duration.toNat / 1000) ↔ r.frequency.toNat < 32768 := by
  have howned := ToneState.run_owned (ToneState.reset_owned pins tccr2b ocr2a) actions
  have hle : 2 * r.frequency.toNat % 65536 * r.duration.toNat ≤ 2 * r.frequency.toNat * r.duration.toNat :=
    Nat.mul_le_mul_right _ (Nat.mod_le _ _)
  have hplays := (ToneState.tone_playing howned r hslot (ToneState.toggles_eq hd hbound)).playsExactly (by omega)
  have hf := r.frequency.toNat_lt
  have hduration : 0 < r.duration.toNat := UInt32.lt_iff_toNat_lt.mp hd
  constructor
  · intro hexact
    by_contra hlarge
    have hcount := hplays.unique hexact
    -- the wrapped product is too small by 65536 half periods for each millisecond
    have hwrap : 2 * r.frequency.toNat = 2 * r.frequency.toNat % 65536 + 65536 := by omega
    have hproduct : 2 * r.frequency.toNat * r.duration.toNat =
        2 * r.frequency.toNat % 65536 * r.duration.toNat + 65536 * r.duration.toNat := by
      conv_lhs => rw [hwrap]
      exact Nat.add_mul _ _ _
    omega
  · intro hsmall
    rwa [Nat.mod_eq_of_lt (by omega)] at hplays

private def lowPins : Pins := ⟨fun _ => 0,fun _ => 0,0,0,0,0⟩

private def secondOfA : ToneRequest := ⟨8,440,1000,by decide,by decide⟩

/-- A second of 440 Hz. -/
theorem timed_tone_second : ((ToneState.reset lowPins 0 0).tone 8 440 1000).PlaysExactly 8 880 := by
  have hexact := (timed_tone lowPins 0 0 [] secondOfA (by decide) (by decide) (Or.inl rfl)).mpr (by decide)
  exact hexact

/-- At 32768 Hz the doubled frequency is 0, and the first interrupt stops the tone. -/
theorem timed_tone_silent :
    ¬ ∀ (pins : Pins) (r : ToneRequest), r.duration > 0 → 2 * r.frequency.toNat * r.duration.toNat < 2^32 →
      ((ToneState.reset pins 0 0).tone r.pin r.frequency r.duration).PlaysExactly r.pin
        (2 * r.frequency.toNat * r.duration.toNat / 1000) := by
  intro h
  have hplays := h lowPins ⟨8,32768,1,by decide,by decide⟩ (by decide) (by decide)
  have hon := (hplays.plays 1 (by decide)).1
  exact absurd hon (by decide)

end ArduinoAT90USB.Core
