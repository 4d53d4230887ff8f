import Mathlib.Algebra.Order.Ring.Int
import Mathlib.Tactic.Linarith

/-! Linear scales in integers: a position on a scale of one length carried over to a scale of
another, with the division that truncates towards zero. -/
namespace ArduinoAT90USB.Foundation.Scaling

/-- The position `x` of a scale of length `span`, on a scale of length `range`. -/
def scale (span range x : Int) : Int := (x * range).tdiv span

variable {span range x y : Int}

theorem scale_zero (span range : Int) : scale span range 0 = 0 := by
  simp [scale]

theorem scale_span (h : span ≠ 0) (range : Int) : scale span range span = range :=
  Int.mul_tdiv_cancel_left range h

theorem scale_neg (span range x : Int) : scale span (-range) x = -scale span range x := by
  rw [scale, Int.mul_neg, Int.neg_tdiv, scale]

theorem scale_mono (hspan : 0 < span) (hrange : 0 ≤ range) (h : x ≤ y) : scale span range x ≤ scale span range y :=
  Int.tdiv_le_tdiv hspan (Int.mul_le_mul_of_nonneg_right h hrange)

theorem scale_anti (hspan : 0 < span) (hrange : range ≤ 0) (h : x ≤ y) : scale span range y ≤ scale span range x := by
  have hmono := scale_mono hspan (Int.neg_nonneg_of_nonpos hrange) h
  rw [scale_neg, scale_neg] at hmono
  omega

theorem scale_bounds (hspan : 0 < span) (hrange : 0 ≤ range) (h₀ : 0 ≤ x) (h : x ≤ span) :
    0 ≤ scale span range x ∧ scale span range x ≤ range := by
  have hlow := scale_mono hspan hrange h₀
  have hhigh := scale_mono hspan hrange h
  rw [scale_zero] at hlow
  rw [scale_span (by omega)] at hhigh
  exact ⟨hlow,hhigh⟩

theorem scale_bounds_neg (hspan : 0 < span) (hrange : range ≤ 0) (h₀ : 0 ≤ x) (h : x ≤ span) :
    range ≤ scale span range x ∧ scale span range x ≤ 0 := by
  have hbounds := scale_bounds hspan (Int.neg_nonneg_of_nonpos hrange) h₀ h
  rw [scale_neg] at hbounds
  omega

/-- To a finer scale and back from the position after it: the two truncations cancel. -/
theorem scale_back (hspan : 0 < span) (hfiner : span < range) (h₀ : 0 ≤ x) :
    scale range span (scale span range x + 1) = x := by
  have hprod : 0 ≤ x * range := Int.mul_nonneg h₀ (by omega)
  have hfloor : scale span range x = x * range / span := Int.tdiv_eq_ediv_of_nonneg hprod
  have hlow := Int.lt_ediv_add_one_mul_self (x * range) hspan
  have hhigh := Int.ediv_mul_le (x * range) (Int.ne_of_gt hspan)
  rw [← hfloor] at hlow hhigh
  have hpos : 0 ≤ (scale span range x + 1) * span := by omega
  rw [scale, Int.tdiv_eq_ediv_of_nonneg hpos]
  have hrange : 0 < range := by omega
  apply Int.le_antisymm
  · apply Int.lt_add_one_iff.mp
    apply (Int.ediv_lt_iff_lt_mul hrange).mpr
    linarith
  · exact (Int.le_ediv_iff_mul_le hrange).mpr (by omega)

end ArduinoAT90USB.Foundation.Scaling
