import ArduinoAT90USB.Library.ServoBank

/-! One timer of the whole library. `ServoTimer` keeps the entries of its timer without bounds and counts
channels in integers; inside the range of the indices the interrupt of the whole library, with its table and
its signed byte, does the same. -/
namespace ArduinoAT90USB.Library
open Core Foundation.Memory Foundation.Table

/-- The entry holds what the timer's channel does. -/
structure ServoEntry.Shown (e : ServoEntry) (slot : ServoSlot) : Prop where
  nbr : slot.nbr = e.nbr
  isActive : slot.isActive = e.isActive
  ticks : slot.ticks = e.ticks

namespace ServoBank

/-- What one timer sees of the library. -/
structure Shows (timer : Fin nbr16timers) (b : ServoBank) (s : ServoTimer) : Prop where
  count : s.servoCount = b.servoCount.toNat
  channel : s.channel = (b.channel timer).toInt
  ocr : s.ocr = b.ocr timer
  pins : s.pins = b.pins
  slots : ∀ {channel : Nat} {e : ServoEntry}, b.servos[timer.val * servosPerTimer + channel]? = some e →
    ServoEntry.Shown e (s.servos channel)

variable {timer : Fin nbr16timers} {b : ServoBank} {s : ServoTimer}

theorem shows_reset (timer : Fin nbr16timers) : Shows timer (reset ServoTimer.reset.pins) .reset where
  count := rfl
  channel := rfl
  ocr := rfl
  pins := rfl
  slots := by
    intro channel e he
    obtain ⟨hlt,rfl⟩ := Vector.getElem?_eq_some_iff.mp he
    simp only [reset,Vector.getElem_replicate]
    exact ⟨rfl,rfl,rfl⟩

theorem Shows.counted (h : Shows timer b s) :
    servoIndex timer s.channel < s.servoCount ↔ b.currentIndex timer < b.servoCount.toNat := by
  rw [h.count,h.channel]
  rfl

theorem Shows.goes (h : Shows timer b s) :
    b.currentIndex timer < b.servoCount.toNat ∧ (b.channel timer).toInt < servosPerTimer ↔
      servoIndex timer s.channel < s.servoCount ∧ s.channel < (servosPerTimer : Int) := by
  rw [h.counted,h.channel]

theorem Shows.current (h : Shows timer b s) (hb : b.servoCount.toNat ≤ maxServos) (hnonneg : 0 ≤ s.channel)
    (hcount : b.currentIndex timer < b.servoCount.toNat) :
    ∃ e, b.entryAt (b.currentIndex timer) = .ok e ∧ ServoEntry.Shown e s.current := by
  have hindex : b.currentIndex timer = ((timer.val * servosPerTimer + s.channel.toNat : Nat) : Int) := by
    rw [currentIndex,servoIndex,← h.channel]
    simp only [servosPerTimer]
    omega
  have hlt : timer.val * servosPerTimer + s.channel.toNat < maxServos := by omega
  refine ⟨b.servos[timer.val * servosPerTimer + s.channel.toNat],?_,h.slots (Vector.getElem?_eq_getElem hlt)⟩
  rw [hindex,entryAt,if_neg (Int.not_lt.mpr (Int.natCast_nonneg _)),Int.toNat_natCast,entry,fetch_inside b.servos hlt]

theorem Shows.lowerPin (h : Shows timer b s) (hb : b.servoCount.toNat ≤ maxServos) :
    ∃ pins, b.lowerPin timer = .ok {b with pins := pins} ∧ Shows timer {b with pins := pins} (s.lowerPin timer) := by
  have hneg : b.channel timer < 0 ↔ s.channel < 0 := by
    rw [Int8.lt_iff_toInt_lt,h.channel]
    rfl
  rw [ServoBank.lowerPin,ServoTimer.lowerPin,if_congr hneg rfl rfl]
  by_cases hlow : s.channel < 0
  · rw [if_pos hlow,if_pos hlow]
    exact ⟨b.pins,rfl,h⟩
  · rw [if_neg hlow,if_neg hlow]
    by_cases hcount : b.currentIndex timer < b.servoCount.toNat
    · obtain ⟨e,he,hshown⟩ := h.current hb (Int.not_lt.mp hlow) hcount
      by_cases hactive : e.isActive = true
      · have hboth : servoIndex timer s.channel < s.servoCount ∧ s.current.isActive = true :=
          ⟨h.counted.mpr hcount,hshown.isActive.trans hactive⟩
        rw [if_pos hcount,he,ok_bind,if_pos hactive,if_pos hboth]
        refine ⟨_,rfl,h.count,h.channel,h.ocr,?_,h.slots⟩
        dsimp only
        rw [hshown.nbr,h.pins]
      · have hnot : ¬ (servoIndex timer s.channel < s.servoCount ∧ s.current.isActive = true) :=
          fun hboth => hactive (hshown.isActive.symm.trans hboth.2)
        rw [if_pos hcount,he,ok_bind,if_neg hactive,if_neg hnot]
        exact ⟨b.pins,rfl,h⟩
    · rw [if_neg hcount,if_neg fun hboth => hcount (h.counted.mp hboth.1)]
      exact ⟨b.pins,rfl,h⟩

theorem Shows.next (h : Shows timer b s) (hb : b.InRange) :
    Shows timer {b with channel := Function.update b.channel timer (b.channel timer + 1)}
      {s with channel := s.channel + 1} where
  count := h.count
  channel := by
    have hbounds := hb.channel timer
    dsimp only
    rw [Function.update_self,h.channel,next_channel hbounds]
  ocr := h.ocr
  pins := h.pins
  slots := h.slots

theorem Shows.raiseNext (h : Shows timer b s) (hb : b.InRange) (tcnt later : UInt16) :
    ∃ b', b.raiseNext timer tcnt later = .ok b' ∧ Shows timer b' (s.raiseNext timer tcnt later) := by
  have hnext := h.next hb
  have hnonneg : 0 ≤ s.channel + 1 := by
    have := (hb.channel timer).1
    rw [h.channel]
    omega
  have hgoes := hnext.goes
  dsimp only at hgoes
  unfold ServoBank.raiseNext ServoTimer.raiseNext
  dsimp only
  by_cases hgo : servoIndex timer (s.channel + 1) < s.servoCount ∧ s.channel + 1 < (servosPerTimer : Int)
  · obtain ⟨e,he,hshown⟩ := hnext.current hb.count_le hnonneg (hgoes.mpr hgo).1
    rw [if_pos (hgoes.mpr hgo),if_pos hgo,he,ok_bind]
    -- the compare value is set for an inactive entry as well
    have hocr : tcnt + (s.servos (s.channel + 1).toNat).ticks = Function.update b.ocr timer (tcnt + e.ticks) timer := by
      rw [Function.update_self,← hshown.ticks]
      rfl
    refine ⟨_,rfl,?_⟩
    by_cases hactive : e.isActive = true
    · rw [if_pos hactive]
      split
      case isTrue hs =>
        refine ⟨hnext.count,hnext.channel,hocr,?_,hnext.slots⟩
        change s.pins.digitalWrite (s.servos (s.channel + 1).toNat).nbr true = b.pins.digitalWrite e.nbr true
        rw [h.pins,← hshown.nbr]
        rfl
      case isFalse hs => exact absurd (hshown.isActive.trans hactive) hs
    · rw [if_neg hactive]
      split
      case isTrue hs => exact absurd (hshown.isActive.symm.trans hs) hactive
      case isFalse hs => exact ⟨hnext.count,hnext.channel,hocr,hnext.pins,hnext.slots⟩
  · rw [if_neg (mt hgoes.mp hgo),if_neg hgo]
    refine ⟨_,rfl,h.count,?_,?_,h.pins,h.slots⟩
    · dsimp only
      rw [Function.update_self]
      rfl
    · dsimp only
      rw [Function.update_self]

/-- A pulse the timer alone would end ends in the library. -/
theorem Shows.ends_pulse (h : Shows timer b s) (hb : b.InRange) (hs : s.Paced timer) {q : Pulse} (hq : s.pulse = some q) :
    ∃ b', b.lowerPin timer = .ok b' ∧ b'.pins.level q.pin = false := by
  obtain ⟨pins,hlower,hshows⟩ := h.lowerPin hb.count_le
  refine ⟨_,hlower,?_⟩
  rw [← hshows.pins]
  exact hs.endsPulse.lowers q hq

/-- Interrupt by interrupt the library does on the timer what is said of the timer alone. -/
theorem Shows.handleInterrupts (h : Shows timer b s) (hb : b.InRange) (tcnt later : UInt16) :
    ∃ b', b.handleInterrupts timer tcnt later = .ok b' ∧ Shows timer b' (s.handleInterrupts timer tcnt later) := by
  obtain ⟨pins,hlower,hshows⟩ := h.lowerPin hb.count_le
  have hlowered : InRange {b with pins := pins} := hb.of_same ⟨rfl,rfl,rfl⟩
  rw [ServoBank.handleInterrupts,ServoTimer.handleInterrupts,hlower,ok_bind]
  exact hshows.raiseNext hlowered tcnt later

theorem Shows.interrupts (h : Shows timer b s) (hb : b.InRange) (hon : b.enabled timer = true) (reads : List (UInt16 × UInt16)) :
    ∃ b', (reads.map fun r => ServoCall.compareInterrupt timer r.1 r.2).foldlM step b = .ok b' ∧
      Shows timer b' (reads.foldl (fun s r => s.handleInterrupts timer r.1 r.2) s) := by
  induction reads generalizing b s with
  | nil => exact ⟨b,rfl,h⟩
  | cons r rest ih =>
    obtain ⟨b₁,hint,h₁⟩ := h.handleInterrupts hb r.1 r.2
    have hstep : b.step (.compareInterrupt timer r.1 r.2) = .ok b₁ := (if_pos hon).trans hint
    have hon₁ : b₁.enabled timer = true := by
      obtain ⟨pins,ocr,channel,hsame,-⟩ := handleInterrupts_ok hb timer r.1 r.2
      cases hint.symm.trans hsame
      exact hon
    obtain ⟨b',hrest,h'⟩ := ih h₁ (step_inRange hb hstep) hon₁
    refine ⟨b',?_,h'⟩
    rw [List.map_cons,List.foldlM_cons,hstep,ok_bind]
    exact hrest

end ServoBank
end ArduinoAT90USB.Library
