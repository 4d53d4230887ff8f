import ArduinoAT90USB.Foundation.AvrInt
import ArduinoAT90USB.Foundation.Scaling

/-! `random` and `map` of WMath.cpp: all arithmetic is that of 32-bit `long`s, which wraps. -/
namespace ArduinoAT90USB.Core
open Foundation.AvrInt
open Foundation.Scaling

/-- The C library's generator. -/
structure Libc (σ : Type) where
  random : σ → Int32 × σ
  /-- `RANDOM_MAX` is the largest `long`. -/
  random_nonneg : ∀ s, 0 ≤ (random s).1

/-- The `%` of C, which has no value for 0. -/
def remainder (a b : Int32) : Option Int32 := if b = 0 then none else some (a % b)

namespace Libc
variable {σ : Type} (libc : Libc σ)

/-- `random(howbig)`. -/
def randomBelow (howbig : Int32) (s : σ) : Option (Int32 × σ) :=
  if howbig = 0 then some (0,s)
  else
    let (r,s) := libc.random s
    (remainder r howbig).map fun r => (r,s)

/-- `random(howsmall, howbig)`. -/
def randomBetween (howsmall howbig : Int32) (s : σ) : Option (Int32 × σ) :=
  if howsmall ≥ howbig then some (howsmall,s)
  else
    let diff := howbig - howsmall
    (libc.randomBelow diff s).map fun (r,s) => (r + howsmall,s)

end Libc

/-- A `long` that is not negative, reduced by any other: below the divisor's size, whatever its sign. -/
theorem toInt_mod_bounds {r d : Int32} (hr : 0 ≤ r) (hd : d ≠ 0) :
    0 ≤ (r % d).toInt ∧ (r % d).toInt < |d.toInt| := by
  have hr₀ : 0 ≤ r.toInt := Int32.le_iff_toInt_le.mp hr
  have hd₀ : d.toInt ≠ 0 := fun h => hd (Int32.toInt_inj.mp h)
  rw [Int32.toInt_mod]
  constructor
  · exact Int.tmod_nonneg _ hr₀
  · rcases Int.lt_or_gt_of_ne hd₀ with hneg | hpos
    · rw [abs_of_neg hneg,← Int.tmod_neg]
      exact Int.tmod_lt_of_pos _ (by omega)
    · rw [abs_of_pos hpos]
      exact Int.tmod_lt_of_pos _ hpos

/-- The divisor `howbig - howsmall` is never 0, and as a `long` it is no larger than the range is
wide, also when it wraps: a range of `n ≥ 2^31` values leaves `n - 2^32`. -/
theorem toInt_diff_bounds {howsmall howbig : Int32} (h : howsmall < howbig) :
    howbig - howsmall ≠ 0 ∧ |(howbig - howsmall).toInt| ≤ howbig.toInt - howsmall.toInt := by
  have hlt := Int32.lt_iff_toInt_lt.mp h
  have hwrap := bmod_dvd (howbig.toInt - howsmall.toInt)
  have hlong := inLong_bmod (howbig.toInt - howsmall.toInt)
  have hsmall := inLong_toInt howsmall
  have hbig := inLong_toInt howbig
  rw [← Int32.toInt_sub] at hwrap hlong
  simp only [InLong] at hlong hsmall hbig
  constructor
  · intro h₀
    rw [h₀,Int32.toInt_zero] at hwrap
    omega
  · rw [abs_le]
    omega

/-- For every pair of bounds, of a difference that fits into a `long` or not. -/
theorem random_in_range {σ : Type} (libc : Libc σ) (howsmall howbig : Int32) (s : σ) :
    ∃ value s', libc.randomBetween howsmall howbig s = some (value,s') ∧
      (howsmall < howbig → howsmall ≤ value ∧ value < howbig) ∧ (howbig ≤ howsmall → value = howsmall) := by
  by_cases h : howsmall ≥ howbig
  · refine ⟨howsmall,s,by simp [Libc.randomBetween,h],?_,fun _ => rfl⟩
    intro hlt
    exact absurd h (Int32.not_le.mpr hlt)
  · have hlt := Int32.not_le.mp h
    obtain ⟨hd,hwidth⟩ := toInt_diff_bounds hlt
    obtain ⟨hlow,hhigh⟩ := toInt_mod_bounds (libc.random_nonneg s) hd
    have hsmall := inLong_toInt howsmall
    have hbig := inLong_toInt howbig
    simp only [InLong] at hsmall hbig
    have hsum : ((libc.random s).1 % (howbig - howsmall) + howsmall).toInt =
        ((libc.random s).1 % (howbig - howsmall)).toInt + howsmall.toInt :=
      long_add ⟨by omega,by omega⟩
    refine ⟨(libc.random s).1 % (howbig - howsmall) + howsmall,(libc.random s).2,?_,?_,?_⟩
    · simp [Libc.randomBetween,Libc.randomBelow,remainder,h,hd]
    · intro _
      rw [Int32.le_iff_toInt_le,Int32.lt_iff_toInt_lt,hsum]
      omega
    · intro hle
      exact absurd hle h

/-- The library's generator, on one `long`. -/
def minimalStandard : Libc Int32 where
  random x :=
    let x := if x = 0 then 123459876 else x
    let x := 16807 * (x % 127773) - 2836 * (x / 127773)
    let x := if x < 0 then x + 0x7fffffff else x
    ((x.toUInt32 % 0x80000000).toInt32,x)
  random_nonneg x := by
    have hsign : ∀ y : UInt32, 0 ≤ (y % 0x80000000).toInt32 := by
      intro y
      have hlt : (y % 0x80000000).toNat < 2147483648 := by
        rw [UInt32.toNat_mod]
        exact Nat.mod_lt _ (by decide)
      rw [Int32.le_iff_toInt_le,toInt32_toInt hlt]
      exact Int.natCast_nonneg _
    exact hsign _

/-- Over all `long`s but the last the divisor wraps to -1. -/
theorem random_in_range_widest : ∃ value s', minimalStandard.randomBetween Int32.minValue Int32.maxValue 1 = some (value,s') ∧
    Int32.minValue ≤ value ∧ value < Int32.maxValue := by
  obtain ⟨value,s',hvalue,hrange,-⟩ := random_in_range minimalStandard Int32.minValue Int32.maxValue 1
  exact ⟨value,s',hvalue,hrange (by decide)⟩

def map (x inMin inMax outMin outMax : Int32) : Int32 :=
  (x - inMin) * (outMax - outMin) / (inMax - inMin) + outMin

section
variable {x inMin inMax outMin outMax : Int32}

theorem scale_between (outMin outMax : Int32) (hin : inMin < inMax) (hx : inMin ≤ x) (hx' : x ≤ inMax) :
    let value := scale (inMax.toInt - inMin.toInt) (outMax.toInt - outMin.toInt) (x.toInt - inMin.toInt) + outMin.toInt
    (outMin ≤ outMax → outMin.toInt ≤ value ∧ value ≤ outMax.toInt) ∧
      (outMax ≤ outMin → outMax.toInt ≤ value ∧ value ≤ outMin.toInt) := by
  rw [Int32.lt_iff_toInt_lt] at hin
  rw [Int32.le_iff_toInt_le] at hx hx'
  constructor
  · intro hout
    rw [Int32.le_iff_toInt_le] at hout
    have hbounds := scale_bounds (show 0 < inMax.toInt - inMin.toInt by omega)
      (show 0 ≤ outMax.toInt - outMin.toInt by omega) (show 0 ≤ x.toInt - inMin.toInt by omega) (by omega)
    omega
  · intro hout
    rw [Int32.le_iff_toInt_le] at hout
    have hbounds := scale_bounds_neg (show 0 < inMax.toInt - inMin.toInt by omega)
      (show outMax.toInt - outMin.toInt ≤ 0 by omega) (show 0 ≤ x.toInt - inMin.toInt by omega) (by omega)
    omega

theorem map_exact (hin : inMin < inMax) (hspan : InLong (inMax.toInt - inMin.toInt))
    (hrange : InLong (outMax.toInt - outMin.toInt)) (hdiff : InLong (x.toInt - inMin.toInt))
    (hprod : InLong ((x.toInt - inMin.toInt) * (outMax.toInt - outMin.toInt)))
    (hsum : InLong (scale (inMax.toInt - inMin.toInt) (outMax.toInt - outMin.toInt) (x.toInt - inMin.toInt) + outMin.toInt)) :
    (map x inMin inMax outMin outMax).toInt =
      scale (inMax.toInt - inMin.toInt) (outMax.toInt - outMin.toInt) (x.toInt - inMin.toInt) + outMin.toInt := by
  have hpos := Int32.lt_iff_toInt_lt.mp hin
  have hnum : ((x - inMin) * (outMax - outMin)).toInt = (x.toInt - inMin.toInt) * (outMax.toInt - outMin.toInt) := by
    rw [← long_sub hdiff,← long_sub hrange] at hprod ⊢
    exact long_mul hprod
  rw [map,Int32.toInt_add,long_div (by rw [long_sub hspan]; omega),hnum,long_sub hspan]
  exact bmod_inLong hsum

/-- For a position inside the input interval neither the first difference nor the sum overflows. -/
theorem map_toInt (hin : inMin < inMax) (hx : inMin ≤ x) (hx' : x ≤ inMax)
    (hspan : InLong (inMax.toInt - inMin.toInt)) (hrange : InLong (outMax.toInt - outMin.toInt))
    (hprod : InLong ((x.toInt - inMin.toInt) * (outMax.toInt - outMin.toInt))) :
    (map x inMin inMax outMin outMax).toInt =
      scale (inMax.toInt - inMin.toInt) (outMax.toInt - outMin.toInt) (x.toInt - inMin.toInt) + outMin.toInt := by
  obtain ⟨hup,hdown⟩ := scale_between outMin outMax hin hx hx'
  have hlow := Int32.le_iff_toInt_le.mp hx
  have hhigh := Int32.le_iff_toInt_le.mp hx'
  have hlong := hspan.2
  have hmin := inLong_toInt outMin
  have hmax := inLong_toInt outMax
  simp only [InLong] at hmin hmax
  apply map_exact hin hspan hrange ⟨by omega,by omega⟩ hprod
  rcases Int32.le_total outMin outMax with hout | hout
  · obtain ⟨h₁,h₂⟩ := hup hout
    exact ⟨by omega,by omega⟩
  · obtain ⟨h₁,h₂⟩ := hdown hout
    exact ⟨by omega,by omega⟩

/-- At the upper end the product is that of the two lengths. Where it wraps the quotient is off: the
wrapped product is at least `2^32` away, further than one divisor. -/
theorem map_inMax_iff (hin : inMin < inMax)
    (hspan : InLong (inMax.toInt - inMin.toInt)) (hrange : InLong (outMax.toInt - outMin.toInt)) :
    map inMax inMin inMax outMin outMax = outMax ↔
      InLong ((inMax.toInt - inMin.toInt) * (outMax.toInt - outMin.toInt)) := by
  have hpos := Int32.lt_iff_toInt_lt.mp hin
  constructor
  · intro h
    have hwrap := long_mul_wrap (inMax - inMin) (outMax - outMin)
    rw [long_sub hspan,long_sub hrange] at hwrap
    generalize hw : (inMax - inMin) * (outMax - outMin) = w at hwrap
    have hquot : w.toInt.tdiv (inMax.toInt - inMin.toInt) = outMax.toInt - outMin.toInt := by
      have hdiv : (w / (inMax - inMin)).toInt = w.toInt.tdiv (inMax.toInt - inMin.toInt) := by
        rw [long_div (by rw [long_sub hspan]; omega),long_sub hspan]
      have hdvd := bmod_dvd ((w / (inMax - inMin)).toInt + outMin.toInt)
      rw [← Int32.toInt_add,← hw,← map,h,hw] at hdvd
      rw [← hdiv]
      apply inLong_inj (inLong_toInt _) hrange
      omega
    have hrest := Int.mul_tdiv_add_tmod w.toInt (inMax.toInt - inMin.toInt)
    have hlow := Int.lt_tmod_of_pos w.toInt (show 0 < inMax.toInt - inMin.toInt by omega)
    have hhigh := Int.tmod_lt_of_pos w.toInt (show 0 < inMax.toInt - inMin.toInt by omega)
    rw [hquot] at hrest
    have hfar := hspan.2
    have hexact : w.toInt = (inMax.toInt - inMin.toInt) * (outMax.toInt - outMin.toInt) := by omega
    rw [← hexact]
    exact inLong_toInt w
  · intro hprod
    apply Int32.toInt_inj.mp
    rw [map_toInt hin (Int32.le_of_lt hin) Int32.le_rfl hspan hrange hprod,scale_span (by omega)]
    omega

end

/-- The upper end is reached exactly if its own product fits as well. -/
theorem map_monotone (x y inMin inMax outMin outMax : Int32) (hin : inMin < inMax) (hx : inMin ≤ x) (hxy : x ≤ y)
    (hy : y ≤ inMax) (hspan : InLong (inMax.toInt - inMin.toInt)) (hrange : InLong (outMax.toInt - outMin.toInt))
    (hprodx : InLong ((x.toInt - inMin.toInt) * (outMax.toInt - outMin.toInt)))
    (hprody : InLong ((y.toInt - inMin.toInt) * (outMax.toInt - outMin.toInt))) :
    map inMin inMin inMax outMin outMax = outMin ∧
    (map inMax inMin inMax outMin outMax = outMax ↔
      InLong ((inMax.toInt - inMin.toInt) * (outMax.toInt - outMin.toInt))) ∧
    (outMin ≤ outMax → outMin ≤ map x inMin inMax outMin outMax ∧ map x inMin inMax outMin outMax ≤ outMax ∧
      map x inMin inMax outMin outMax ≤ map y inMin inMax outMin outMax) ∧
    (outMax ≤ outMin → outMax ≤ map x inMin inMax outMin outMax ∧ map x inMin inMax outMin outMax ≤ outMin ∧
      map y inMin inMax outMin outMax ≤ map x inMin inMax outMin outMax) := by
  have hx' := Int32.le_trans hxy hy
  have hpos := Int32.lt_iff_toInt_lt.mp hin
  have hxy' : x.toInt - inMin.toInt ≤ y.toInt - inMin.toInt := Int.sub_le_sub_right (Int32.le_iff_toInt_le.mp hxy) _
  have hmapx := map_toInt hin hx hx' hspan hrange hprodx
  have hmapy := map_toInt hin (Int32.le_trans hx hxy) hy hspan hrange hprody
  obtain ⟨hup,hdown⟩ := scale_between outMin outMax hin hx hx'
  refine ⟨?_,map_inMax_iff hin hspan hrange,?_,?_⟩
  · rw [map,Int32.sub_self,Int32.zero_mul,Int32.zero_div,Int32.zero_add]
  · intro hout
    have hmono := scale_mono (show 0 < inMax.toInt - inMin.toInt by omega)
      (show 0 ≤ outMax.toInt - outMin.toInt by rw [Int32.le_iff_toInt_le] at hout; omega) hxy'
    simp only [Int32.le_iff_toInt_le,hmapx,hmapy]
    have := hup hout
    omega
  · intro hout
    have hanti := scale_anti (show 0 < inMax.toInt - inMin.toInt by omega)
      (show outMax.toInt - outMin.toInt ≤ 0 by rw [Int32.le_iff_toInt_le] at hout; omega) hxy'
    simp only [Int32.le_iff_toInt_le,hmapx,hmapy]
    have := hdown hout
    omega

/-- A reading of the converter, brought down to a byte. -/
theorem map_monotone_byte : map 512 0 1023 0 255 ≤ map 700 0 1023 0 255 :=
  ((map_monotone 512 700 0 1023 0 255 (by decide) (by decide) (by decide) (by decide) (by decide) (by decide)
    (by decide) (by decide)).2.2.1 (by decide)).2.2

/-- The product at the upper end is `10^10`, whatever it is further down. -/
theorem map_inMax_wraps :
    ((0 : Int32) < 100000 ∧ InLong ((100000 : Int32).toInt - (0 : Int32).toInt) ∧
      InLong (((0 : Int32).toInt - (0 : Int32).toInt) * ((100000 : Int32).toInt - (0 : Int32).toInt))) ∧
    map 100000 0 100000 0 100000 = 14100 := by
  decide

end ArduinoAT90USB.Core
