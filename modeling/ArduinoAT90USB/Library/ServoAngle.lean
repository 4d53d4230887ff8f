import ArduinoAT90USB.Library.ServoBank

/-! The angle of a servo: written through `map` into timer counts, and read back through the
inverse `map` from the counts. -/
namespace ArduinoAT90USB.Library
open Core Foundation.AvrInt Foundation.Memory Foundation.Runs Foundation.Scaling Foundation.Table

/-- `write` takes angles outside 0 to 180 for the nearest end. -/
def clampAngle (value : Int16) : Int16 := if value < 0 then 0 else if value > 180 then 180 else value

theorem clampAngle_bounds (value : Int16) : 0 ≤ (clampAngle value).toInt ∧ (clampAngle value).toInt ≤ 180 := by
  unfold clampAngle
  split
  · decide
  · split
    · decide
    · simp only [Int16.lt_iff_toInt_lt,gt_iff_lt,Int16.reduceToInt] at *
      omega

/-- The limits are kept in steps of 4 microseconds, below or above a pulse width. -/
theorem limit_toInt {base : Int16} (h₀ : 0 ≤ base.toInt) (h : base.toInt ≤ 30000) (limit : Int8) :
    (base - limit.toInt16 * 4).toInt = base.toInt - 4 * limit.toInt := by
  have hlow := Int8.le_toInt limit
  have hhigh := Int8.toInt_lt limit
  have hfour : (4 : Int16).toInt = 4 := rfl
  have hprod : (limit.toInt16 * 4).toInt = limit.toInt * 4 := by
    rw [int_mul,Int8.toInt_toInt16,hfour]
    rw [Int8.toInt_toInt16,hfour]
    exact ⟨by omega,by omega⟩
  rw [int_sub,hprod,Int.mul_comm]
  rw [hprod]
  exact ⟨by omega,by omega⟩

/-- Any limit that fits leaves more than one microsecond to a degree. -/
structure ServoSlot.Limits (s : ServoSlot) : Prop where
  min_low : 36 ≤ s.servoMin.toInt
  wide : s.servoMin.toInt + 836 ≤ s.servoMax.toInt
  max_high : s.servoMax.toInt ≤ 2912

namespace ServoSlot
variable (s : ServoSlot)

theorem limits : s.Limits := by
  have hmin : s.servoMin.toInt = 544 - 4 * s.min.toInt := limit_toInt (by decide) (by decide) s.min
  have hmax : s.servoMax.toInt = 2400 - 4 * s.max.toInt := limit_toInt (by decide) (by decide) s.max
  have h₁ := Int8.le_toInt s.min
  have h₂ := Int8.toInt_lt s.min
  have h₃ := Int8.le_toInt s.max
  have h₄ := Int8.toInt_lt s.max
  exact ⟨by omega,by omega,by omega⟩

def pulse (angle : Int16) : Int16 := (map angle.toInt32 0 180 s.servoMin.toInt32 s.servoMax.toInt32).toInt16

theorem write_angle {value : Int16} (h : value < minPulseWidth) :
    s.write value = s.writeMicroseconds (s.pulse (clampAngle value)) := if_pos h

section Angle
variable {angle : Int16} (h₀ : 0 ≤ angle.toInt) (h : angle.toInt ≤ 180)
include h₀ h

theorem pulse_toInt : (s.pulse angle).toInt =
    scale 180 (s.servoMax.toInt - s.servoMin.toInt) angle.toInt + s.servoMin.toInt ∧
      s.servoMin ≤ s.pulse angle ∧ s.pulse angle ≤ s.servoMax := by
  obtain ⟨hlow,hwide,hhigh⟩ := s.limits
  obtain ⟨hlower,hupper⟩ := scale_bounds (show (0 : Int) < 180 by decide)
    (show 0 ≤ s.servoMax.toInt - s.servoMin.toInt by omega) h₀ h
  have hprod : angle.toInt * (s.servoMax.toInt - s.servoMin.toInt) ≤ 180 * 2876 :=
    Int.mul_le_mul h (by omega) (by omega) (by decide)
  have hnonneg : 0 ≤ angle.toInt * (s.servoMax.toInt - s.servoMin.toInt) := Int.mul_nonneg h₀ (by omega)
  have hmap : (map angle.toInt32 0 180 s.servoMin.toInt32 s.servoMax.toInt32).toInt =
      scale 180 (s.servoMax.toInt - s.servoMin.toInt) angle.toInt + s.servoMin.toInt := by
    rw [map_exact (by decide) (by decide)]
    all_goals simp only [Int16.toInt_toInt32,Int32.reduceToInt,Int.sub_zero]
    all_goals exact ⟨by omega,by omega⟩
  have hpulse : (s.pulse angle).toInt = scale 180 (s.servoMax.toInt - s.servoMin.toInt) angle.toInt + s.servoMin.toInt := by
    rw [pulse,toInt16_long,hmap]
    rw [hmap]
    exact ⟨by omega,by omega⟩
  refine ⟨hpulse,?_,?_⟩
  · rw [Int16.le_iff_toInt_le,hpulse]
    omega
  · rw [Int16.le_iff_toInt_le,hpulse]
    omega

/-- Back from the microsecond after the pulse: its `map` leaves the output interval by one at most. -/
theorem map_pulse : map (s.pulse angle + 1).toInt32 s.servoMin.toInt32 s.servoMax.toInt32 0 180 = angle.toInt32 := by
  obtain ⟨hlow,hwide,hhigh⟩ := s.limits
  obtain ⟨hpulse,hmin,hmax⟩ := s.pulse_toInt h₀ h
  rw [Int16.le_iff_toInt_le] at hmin hmax
  have hone : (1 : Int16).toInt = 1 := rfl
  have hnext : (s.pulse angle + 1).toInt = (s.pulse angle).toInt + 1 := by
    rw [int_add,hone]
    rw [hone]
    exact ⟨by omega,by omega⟩
  have hin : s.servoMin.toInt32 < s.servoMax.toInt32 := by
    rw [Int32.lt_iff_toInt_lt,Int16.toInt_toInt32,Int16.toInt_toInt32]
    omega
  have hback := scale_back (show (0 : Int) < 180 by decide)
    (show 180 < s.servoMax.toInt - s.servoMin.toInt by omega) h₀
  have hdiff : (s.pulse angle + 1).toInt - s.servoMin.toInt =
      scale 180 (s.servoMax.toInt - s.servoMin.toInt) angle.toInt + 1 := by omega
  apply Int32.toInt_inj.mp
  rw [map_exact hin]
  all_goals simp only [Int16.toInt_toInt32,Int32.reduceToInt,Int.sub_zero,Int.add_zero,hdiff,hback]
  all_goals exact ⟨by omega,by omega⟩

end Angle

theorem writeMicroseconds_inside {value : Int16} (hmin : s.servoMin ≤ value) (hmax : value ≤ s.servoMax) :
    s.writeMicroseconds value = {s with ticks := toTicks (value - trimDuration).toInt32} := by
  rw [writeMicroseconds,if_neg (Int16.not_lt.mpr hmin),if_neg (Int16.not_lt.mpr hmax)]

end ServoSlot

/-- Two timer counts to a microsecond. -/
theorem toTicks_toNat (us : Int32) (h₀ : 0 ≤ us.toInt) (h : us.toInt ≤ 16383) : ((toTicks us).toNat : Int) = 2 * us.toInt := by
  have hprod : (16 * us).toInt = 16 * us.toInt := long_mul ⟨by change _ ≤ 16 * us.toInt; omega,by change 16 * us.toInt < _; omega⟩
  have hquot : (usToTicks us).toInt = 2 * us.toInt := by
    rw [usToTicks,long_div (by decide),hprod]
    change (16 * us.toInt).tdiv 8 = _
    rw [Int.tdiv_eq_ediv_of_nonneg (by omega)]
    omega
  have hint : (usToTicks us).toInt16.toInt = 2 * us.toInt := by
    rw [toInt16_long,hquot]
    rw [hquot]
    exact ⟨by omega,by omega⟩
  rw [toTicks,toUInt16_toNat,hint]
  rw [hint]
  omega

namespace ServoBank

theorem ticksToUs_toInt (ticks : UInt16) (h : ticks.toNat * 8 < 65536) : (ticksToUs ticks).toInt = ticks.toNat / 2 := by
  have hprod : (ticks * 8).toUInt32.toNat = ticks.toNat * 8 := by
    rw [UInt16.toNat_toUInt32,UInt16.toNat_mul]
    exact Nat.mod_eq_of_lt h
  rw [ticksToUs,long_div (by decide),toInt32_toInt (by omega),hprod]
  change ((ticks.toNat * 8 : Nat) : Int).tdiv 16 = _
  rw [Int.tdiv_eq_ediv_of_nonneg (by omega)]
  omega

/-- The trim is taken off and put back, and no conversion overflows. -/
theorem ticks_back (us : Int16) (h₀ : 2 ≤ us.toInt) (h : us.toInt ≤ 2912) :
    ((toTicks (us - trimDuration).toInt32).toNat : Int) = 2 * (us.toInt - 2) ∧
      (ticksToUs (toTicks (us - trimDuration).toInt32) + trimDuration.toInt32).toUInt32.toUInt16.toInt16 = us := by
  have htrim : trimDuration.toInt = 2 := rfl
  have hsub : (us - trimDuration).toInt32.toInt = us.toInt - 2 := by
    rw [Int16.toInt_toInt32,int_sub,htrim]
    rw [htrim]
    exact ⟨by omega,by omega⟩
  have hticks := toTicks_toNat (us - trimDuration).toInt32 (by omega) (by omega)
  rw [hsub] at hticks
  generalize toTicks (us - trimDuration).toInt32 = ticks at hticks ⊢
  refine ⟨hticks,?_⟩
  have hus := ticksToUs_toInt ticks (by omega)
  have hsum : (ticksToUs ticks + trimDuration.toInt32).toInt = us.toInt := by
    rw [long_add,hus,Int16.toInt_toInt32,htrim]
    · omega
    · rw [hus,Int16.toInt_toInt32,htrim]
      exact ⟨by omega,by omega⟩
  have hnat := long_toUInt32_toNat (show 0 ≤ (ticksToUs ticks + trimDuration.toInt32).toInt by omega)
  apply Int16.toInt_inj.mp
  rw [toInt16_toInt,UInt32.toNat_toUInt16,if_pos (by omega)]
  omega

end ServoBank

/-- Gives object `j` new limits. -/
def ServoCall.Attaches (j : Nat) : ServoCall → Prop
  | .attach k _ _ _ => k = j
  | _ => False

/-- Gives object `j` a new pulse width. -/
def ServoCall.Writes (j : Nat) : ServoCall → Prop
  | .write k _ | .writeMicroseconds k _ => k = j
  | _ => False

namespace ServoBank
variable {b b' : ServoBank} {o : ServoObject} {j : Nat} {call : ServoCall}

section Frame

private theorem ticks_set {n i : Nat} {v : Vector ServoEntry n} (hi : i < n) (hj : j < n) {e : ServoEntry}
    (h : i = j → e.ticks = v[j].ticks) : (v.set i e)[j].ticks = v[j].ticks := by
  rw [Vector.getElem_set]
  split
  case isTrue heq => exact h heq
  case isFalse => rfl

/-- Object `j` and the width in its entry are as before, unless the call is one of those that change them. -/
structure Kept (b b' : ServoBank) (hj : j < maxServos) (call : ServoCall) : Prop where
  object : ¬ call.Attaches j → ∀ {o}, b.objects[j]? = some o → b'.objects[j]? = some o
  ticks : ¬ call.Writes j → b'.servos[j].ticks = b.servos[j].ticks

variable (hj : j < maxServos)
include hj

theorem construct_kept (h : b.InRange) (hlen : j < b.objects.length) {min max : Int8} (hstep : b.construct min max = .ok b') :
    Kept b b' hj call := by
  have hcounted := h.counted
  by_cases hcount : b.servoCount.toNat < maxServos
  · rw [construct_ok b min max hcount] at hstep
    cases hstep
    exact ⟨fun _ _ ho => (List.getElem?_append_left hlen).trans ho,fun _ => ticks_set hcount hj (by omega)⟩
  · rw [construct,if_neg hcount] at hstep
    cases hstep
    exact ⟨fun _ _ ho => (List.getElem?_append_left hlen).trans ho,fun _ => rfl⟩

theorem attach_kept {k : Nat} {pin min max : Int16} (hstep : b.attach o k pin min max = .ok b') :
    Kept b b' hj (.attach k pin min max) := by
  by_cases hindex : o.servoIndex.toNat < maxServos
  · obtain ⟨pins,enabled,hattach⟩ := attach_ok hindex k pin min max
    rw [hattach] at hstep
    cases hstep
    exact ⟨fun hne _ ho => (List.getElem?_set_ne hne).trans ho,fun _ => ticks_set hindex hj (by rintro rfl; rfl)⟩
  · rw [attach,if_neg hindex] at hstep
    cases hstep
    exact ⟨fun _ _ ho => ho,fun _ => rfl⟩

theorem storeTicks_kept (h : b.InRange) {k : Nat} (hk : b.objects[k]? = some o) {ticks : UInt16}
    (hcall : ¬ call.Writes j → k ≠ j) (hstep : b.storeTicks o ticks = .ok b') : Kept b b' hj call := by
  by_cases hindex : o.servoIndex.toNat < maxServos
  · rw [storeTicks_ok hindex] at hstep
    cases hstep
    refine ⟨fun _ _ ho => ho,fun hne => ticks_set hindex hj fun heq => absurd ?_ (hcall hne)⟩
    have hnumber := h.numbered hk
    by_cases hlt : k < maxServos
    · rw [if_pos hlt] at hnumber
      omega
    · rw [if_neg hlt] at hnumber
      simp only [maxServos,nbr16timers,servosPerTimer] at hindex
      omega
  · rw [storeTicks,if_neg hindex] at hstep
    cases hstep
    exact ⟨fun _ _ ho => ho,fun _ => rfl⟩

theorem step_kept (h : b.InRange) (hlen : j < b.objects.length) (hstep : b.step call = .ok b') : Kept b b' hj call := by
  have hrefl : Kept b b hj call := ⟨fun _ _ ho => ho,fun _ => rfl⟩
  cases call with
  | construct min max => exact construct_kept hj h hlen hstep
  | attach k pin min max =>
    rcases onObject_cases hstep with rfl | ⟨o,-,hattach⟩
    · exact hrefl
    · exact attach_kept hj hattach
  | detach k =>
    rcases onObject_cases hstep with rfl | ⟨o,-,hdetach⟩
    · exact hrefl
    · by_cases hindex : o.servoIndex.toNat < maxServos
      · rw [detach_ok hindex] at hdetach
        cases hdetach
        exact ⟨fun _ _ ho => ho,fun _ => ticks_set hindex hj (by rintro rfl; rfl)⟩
      · rw [detach,modifyEntry_outside b _ (Nat.le_of_not_lt hindex)] at hdetach
        cases hdetach
  | write k value =>
    rcases onObject_cases hstep with rfl | ⟨o,ho,hstore⟩
    · exact hrefl
    · exact storeTicks_kept hj h ho (fun hne => hne) hstore
  | writeMicroseconds k value =>
    rcases onObject_cases hstep with rfl | ⟨o,ho,hstore⟩
    · exact hrefl
    · exact storeTicks_kept hj h ho (fun hne => hne) hstore
  | read k | readMicroseconds k | attached k =>
    rcases onObject_cases hstep with rfl | ⟨o,-,hread⟩
    · exact hrefl
    · obtain ⟨x,-,hx⟩ := bind_eq_ok hread
      cases hx
      exact hrefl
  | compareInterrupt timer tcnt later =>
    rw [step] at hstep
    split at hstep
    · obtain ⟨pins,ocr,channel,hinterrupt,-⟩ := handleInterrupts_ok h timer tcnt later
      rw [hinterrupt] at hstep
      cases hstep
      exact ⟨fun _ _ ho => ho,fun _ => rfl⟩
    · cases hstep
      exact hrefl

theorem run_kept {calls : List ServoCall} (hattach : ∀ call ∈ calls, ¬ call.Attaches j) (h : b.InRange)
    (ho : b.objects[j]? = some o) (hrun : calls.foldlM step b = .ok b') :
    b'.InRange ∧ b'.objects[j]? = some o ∧
      ((∀ call ∈ calls, ¬ call.Writes j) → b'.servos[j].ticks = b.servos[j].ticks) := by
  apply completed_invariant (I := fun c : ServoBank => c.InRange ∧ c.objects[j]? = some o ∧
    ((∀ call ∈ calls, ¬ call.Writes j) → c.servos[j].ticks = b.servos[j].ticks)) _ hrun ⟨h,ho,fun _ => rfl⟩
  rintro c call c' hmem ⟨hc,hobject,hticks⟩ hstep
  have hkept := step_kept hj hc (List.getElem?_eq_some_iff.mp hobject).1 hstep
  refine ⟨step_inRange hc hstep,hkept.object (hattach call hmem) hobject,?_⟩
  intro hwrites
  exact (hkept.ticks (hwrites call hmem)).trans (hticks hwrites)

end Frame

theorem attach_object (h : b.InRange) (hj : j < maxServos) (ho : b.objects[j]? = some o) {pin min max : Int16}
    (hstep : b.step (.attach j pin min max) = .ok b') : b'.objects[j]? = some (o.withLimits min max) := by
  rw [step,onObject,ho] at hstep
  dsimp only at hstep
  obtain ⟨pins,enabled,hattach⟩ := attach_ok (h.index_lt ho hj) j pin min max
  rw [hattach] at hstep
  cases hstep
  exact List.getElem?_set_self (List.getElem?_eq_some_iff.mp ho).1

theorem write_ticks (h : b.InRange) (hj : j < maxServos) (ho : b.objects[j]? = some o) {a : Int16}
    (ha : a < minPulseWidth) (hstep : b.step (.write j a) = .ok b') :
    b'.objects[j]? = some o ∧ b'.servos[j].ticks = toTicks (o.limits.pulse (clampAngle a) - trimDuration).toInt32 := by
  rw [step,onObject,ho] at hstep
  dsimp only at hstep
  rw [write,storeTicks_ok (h.index_lt ho hj)] at hstep
  cases hstep
  refine ⟨ho,?_⟩
  obtain ⟨h₀,h₁⟩ := clampAngle_bounds a
  obtain ⟨-,hmin,hmax⟩ := o.limits.pulse_toInt h₀ h₁
  have hnumber : o.servoIndex.toNat = j := (h.numbered ho).trans (if_pos hj)
  simp only [hnumber,Vector.getElem_set_self,ServoSlot.write_angle _ ha,ServoSlot.writeMicroseconds_inside _ hmin hmax]

theorem read_pulse (h : b.InRange) (hj : j < maxServos) (ho : b.objects[j]? = some o) {angle : Int16}
    (h₀ : 0 ≤ angle.toInt) (h₁ : angle.toInt ≤ 180)
    (hticks : b.servos[j].ticks = toTicks (o.limits.pulse angle - trimDuration).toInt32) :
    b.readMicroseconds o = .ok (o.limits.pulse angle) ∧ b.read o = .ok angle ∧
      (b.servos[j].ticks.toNat : Int) = 2 * ((o.limits.pulse angle).toInt - 2) := by
  obtain ⟨hlow,-,hhigh⟩ := o.limits.limits
  obtain ⟨-,hmin,hmax⟩ := o.limits.pulse_toInt h₀ h₁
  rw [Int16.le_iff_toInt_le] at hmin hmax
  obtain ⟨hnat,hback⟩ := ticks_back (o.limits.pulse angle) (by omega) (by omega)
  have hnumber : o.servoIndex.toNat = j := (h.numbered ho).trans (if_pos hj)
  have hus : b.readMicroseconds o = .ok (o.limits.pulse angle) := by
    rw [readMicroseconds_ok (h.index_lt ho hj)]
    simp only [hnumber,hticks,hback]
  refine ⟨hus,?_,?_⟩
  · rw [read,hus,ok_bind,o.limits.map_pulse h₀ h₁,Int16.toInt16_toInt32]
    rfl
  · rw [hticks,hnat]

end ServoBank

theorem limit_kept {base : Int16} (h₀ : 0 ≤ base.toInt) (h : base.toInt ≤ 30000) {limit : Int16}
    (hlow : -128 ≤ (base.toInt - limit.toInt).tdiv 4) (hhigh : (base.toInt - limit.toInt).tdiv 4 < 128) :
    (base - ((base - limit) / 4).toInt8.toInt16 * 4).toInt = base.toInt - 4 * (base.toInt - limit.toInt).tdiv 4 := by
  have hrest := Int.mul_tdiv_add_tmod (base.toInt - limit.toInt) 4
  have hover := Int.lt_tmod_of_pos (base.toInt - limit.toInt) (show (0 : Int) < 4 by decide)
  have hunder := Int.tmod_lt_of_pos (base.toInt - limit.toInt) (show (0 : Int) < 4 by decide)
  have hsub : (base - limit).toInt = base.toInt - limit.toInt := int_sub ⟨by omega,by omega⟩
  have hquot : ((base - limit) / 4).toInt = (base.toInt - limit.toInt).tdiv 4 := by
    rw [Int16.toInt_div_of_ne_right _ _ (by decide),hsub]
    rfl
  rw [limit_toInt h₀ h,Int16.toInt_toInt8,hquot,Int.bmod_eq_of_le hlow hhigh]

/-- Whatever is called on other servos in between, and with any limits, truncated to a byte or not. -/
theorem servo_angle_round_trip {pins : Pins} {b : ServoBank} (before between after : List ServoCall)
    (hbefore : before.foldlM ServoBank.step (.reset pins) = .ok b) (j : Nat) (hj : j < maxServos)
    (hlen : j < b.objects.length) (pin min max a : Int16) (ha : a < minPulseWidth)
    (hbetween : ∀ call ∈ between, ¬ call.Attaches j) (hafter : ∀ call ∈ after, ¬ call.Attaches j ∧ ¬ call.Writes j)
    (hguard : AdmitsAll ServoBank.step ServoBank.Guarded b (.attach j pin min max :: (between ++ .write j a :: after))) :
    ∃ b' o, (.attach j pin min max :: (between ++ .write j a :: after)).foldlM ServoBank.step b = .ok b' ∧
      b'.objects[j]? = some o ∧
      b'.read o = .ok (clampAngle a) ∧
      b'.readMicroseconds o =
        .ok (map (clampAngle a).toInt32 0 180 o.limits.servoMin.toInt32 o.limits.servoMax.toInt32).toInt16 ∧
      ((b'.servos[j].ticks.toNat : Int) = 2 * ((o.limits.pulse (clampAngle a)).toInt - 2) ∧
        b'.servos[j].ticks.toNat * 8 < 65536) ∧
      (-128 ≤ (544 - min.toInt).tdiv 4 ∧ (544 - min.toInt).tdiv 4 < 128 →
        o.limits.servoMin.toInt = 544 - 4 * (544 - min.toInt).tdiv 4) ∧
      (-128 ≤ (2400 - max.toInt).tdiv 4 ∧ (2400 - max.toInt).tdiv 4 < 128 →
        o.limits.servoMax.toInt = 2400 - 4 * (2400 - max.toInt).tdiv 4) := by
  have hb := ServoBank.run_inRange hbefore
  have ho : b.objects[j]? = some b.objects[j] := List.getElem?_eq_getElem hlen
  obtain ⟨b',hrun⟩ := (ServoBank.run_completes_iff hb _).mpr hguard
  obtain ⟨b₁,hattach,hrest⟩ := completed_cons hrun
  rw [List.foldlM_append] at hrest
  obtain ⟨b₂,hrun₂,hrest⟩ := bind_eq_ok hrest
  obtain ⟨b₃,hwrite,hrun₃⟩ := completed_cons hrest
  -- the object has its limits from `attach` on, the entry its width from `write` on
  have ho₁ := ServoBank.attach_object hb hj ho hattach
  obtain ⟨hb₂,ho₂,-⟩ := ServoBank.run_kept hj hbetween (ServoBank.step_inRange hb hattach) ho₁ hrun₂
  obtain ⟨ho₃,hticks₃⟩ := ServoBank.write_ticks hb₂ hj ho₂ ha hwrite
  obtain ⟨hb',ho',hticks⟩ := ServoBank.run_kept hj (fun call hmem => (hafter call hmem).1)
    (ServoBank.step_inRange hb₂ hwrite) ho₃ hrun₃
  have hpulse := (hticks fun call hmem => (hafter call hmem).2).trans hticks₃
  obtain ⟨h₀,h₁⟩ := clampAngle_bounds a
  obtain ⟨hus,hread,hnat⟩ := ServoBank.read_pulse hb' hj ho' h₀ h₁ hpulse
  obtain ⟨hlow,-,hhigh⟩ := (b.objects[j].withLimits min max).limits.limits
  obtain ⟨-,-,hmax⟩ := (b.objects[j].withLimits min max).limits.pulse_toInt h₀ h₁
  rw [Int16.le_iff_toInt_le] at hmax
  refine ⟨b',_,hrun,ho',hread,hus,⟨hnat,by omega⟩,?_,?_⟩
  · rintro ⟨h₂,h₃⟩
    exact limit_kept (by decide) (by decide) h₂ h₃
  · rintro ⟨h₂,h₃⟩
    exact limit_kept (by decide) (by decide) h₂ h₃

/-- The first servo, turned to 45 degrees and back to 90. -/
theorem servo_angle_ninety : ∃ b' o, [ServoCall.construct 0 0,.attach 0 9 544 2400,.write 0 45,.write 0 90,.read 0].foldlM
    ServoBank.step (.reset ServoTimer.reset.pins) = .ok b' ∧ b'.read o = .ok 90 := by
  obtain ⟨b,hb,hlen⟩ : ∃ b, [ServoCall.construct 0 0].foldlM ServoBank.step (.reset ServoTimer.reset.pins) = .ok b ∧
      0 < b.objects.length := ⟨_,rfl,by decide⟩
  obtain ⟨b',o,hrun,-,hread,-⟩ := servo_angle_round_trip [.construct 0 0] [.write 0 45] [.read 0] hb 0
    (by decide) hlen 9 544 2400 90 (by decide) (by simp [ServoCall.Attaches])
    (by simp [ServoCall.Attaches,ServoCall.Writes])
    ⟨trivial,fun _ _ => ⟨trivial,fun _ _ => ⟨trivial,fun _ _ => ⟨trivial,fun _ _ => trivial⟩⟩⟩⟩
  refine ⟨b',o,?_,hread⟩
  change ([ServoCall.construct 0 0] ++ _).foldlM ServoBank.step _ = _
  rw [List.foldlM_append,hb]
  exact hrun

end ArduinoAT90USB.Library
