import ArduinoAT90USB.Core.WStringQuery

/-! `compareTo` and the comparison operators of `WString.cpp` order the contents of Strings
as sequences of unsigned bytes; an invalid String is as the empty one. -/
namespace ArduinoAT90USB.Core
open Foundation.Memory Foundation.CString

namespace WString
variable {s t : WString} {u v : Option (List UInt8)}

/-- `operator<`. -/
def less (s rhs : WString) : Checked Bool := do pure ((← s.compareTo rhs) < 0)

/-- `operator>`. -/
def greater (s rhs : WString) : Checked Bool := do pure ((← s.compareTo rhs) > 0)

/-- `operator<=`. -/
def lessEqual (s rhs : WString) : Checked Bool := do pure ((← s.compareTo rhs) ≤ 0)

/-- `operator>=`. -/
def greaterEqual (s rhs : WString) : Checked Bool := do pure ((← s.compareTo rhs) ≥ 0)

theorem Holds.orEmpty_terminated (hs : s.Holds u) :
    ∃ b, s.orEmpty.pointer 0 = .ok b ∧ Terminated (u.getD []) b := by
  cases hs with
  | invalid => exact ⟨[0],rfl,List.not_mem_nil,[],rfl⟩
  | @valid t rest capacity len clean length allocated size => exact ⟨t ++ 0 :: rest,rfl,clean,rest,rfl⟩

theorem compareTo_compares (hs : s.Holds u) (ht : t.Holds v) :
    ∃ d, s.compareTo t = .ok d ∧ Compares (u.getD []) (v.getD []) d := by
  obtain ⟨b,hb,hs'⟩ := hs.orEmpty_terminated
  obtain ⟨c,hc,ht'⟩ := ht.orEmpty_terminated
  obtain ⟨d,hd,hcompares⟩ := strcmp_text hs' ht'
  have hvalid : ¬ (s.orEmpty.buffer.isNone = true ∨ t.orEmpty.buffer.isNone = true) := by
    rw [← Option.not_isSome, ← Option.not_isSome, orEmpty_isSome, orEmpty_isSome]
    decide
  refine ⟨d,?_,hcompares⟩
  rw [← compareTo_orEmpty hs.shows ht.shows, compareTo, if_neg hvalid, hb, hc]
  exact hd

/-- The lengths that `equals` compares first agree whenever the contents do. -/
theorem equals_compareTo (hs : s.Holds u) (ht : t.Holds v) {d : Int} (hd : s.compareTo t = .ok d)
    (hcompares : Compares (u.getD []) (v.getD []) d) : s.equals t = .ok (d == 0) := by
  unfold equals
  split_ifs with hlen
  · rw [hd]
    rfl
  · have hne : d ≠ 0 := by
      intro h0
      have hlength := congrArg List.length (hcompares.same.mp h0)
      rw [← hs.len_toNat, ← ht.len_toNat] at hlength
      exact hlen (UInt16.toNat_inj.mp hlength)
    rw [beq_false_of_ne hne]
    rfl

theorem lessEqual_iff {x y : List UInt8} {d : Int} (h : Compares x y d) : d ≤ 0 ↔ x ≤ y := by
  rw [← Int.not_lt, ← List.not_lt, not_iff_not]
  exact h.greater

theorem greaterEqual_iff {x y : List UInt8} {d : Int} (h : Compares x y d) : d ≥ 0 ↔ y ≤ x := by
  rw [ge_iff_le, ← Int.not_lt, ← List.not_lt, not_iff_not]
  exact h.less

theorem operators_compareTo {x y : List UInt8} {d : Int} (hd : s.compareTo t = .ok d) (h : Compares x y d) :
    s.less t = .ok (decide (x < y)) ∧ s.greater t = .ok (decide (y < x)) ∧
      s.lessEqual t = .ok (decide (x ≤ y)) ∧ s.greaterEqual t = .ok (decide (y ≤ x)) := by
  rw [less, greater, lessEqual, greaterEqual, hd]
  refine ⟨?_,?_,?_,?_⟩
  · exact congrArg Except.ok (decide_eq_decide.mpr h.less)
  · exact congrArg Except.ok (decide_eq_decide.mpr h.greater)
  · exact congrArg Except.ok (decide_eq_decide.mpr (lessEqual_iff h))
  · exact congrArg Except.ok (decide_eq_decide.mpr (greaterEqual_iff h))

theorem compares_trans {x y z : List UInt8} {d f g : Int} (hd : Compares x y d) (hf : Compares y z f)
    (hg : Compares x z g) (hle : d ≤ 0) (hle' : f ≤ 0) : g ≤ 0 ∧ (d < 0 ∨ f < 0 → g < 0) := by
  have hxy := (lessEqual_iff hd).mp hle
  have hyz := (lessEqual_iff hf).mp hle'
  refine ⟨(lessEqual_iff hg).mpr (List.le_trans hxy hyz),?_⟩
  rintro (hlt | hlt)
  · refine hg.less.mpr (List.not_le.mp fun hzx => ?_)
    exact List.le_trans hyz hzx (hd.less.mp hlt)
  · exact hg.less.mpr (List.lt_of_le_of_lt hxy (hf.less.mp hlt))

end WString
open WString

/-- The sign of `compareTo` is that of the lexicographic order of the contents, with which
`equals` and the operators agree. -/
theorem compareTo_total_order {s t : WString} {u v : Option (List UInt8)} (hs : s.Holds u) (ht : t.Holds v) :
    ∃ d e, s.compareTo t = .ok d ∧ t.compareTo s = .ok e ∧
      (d < 0 ↔ u.getD [] < v.getD []) ∧ (d = 0 ↔ u.getD [] = v.getD []) ∧ (d > 0 ↔ v.getD [] < u.getD []) ∧
      (d < 0 ↔ e > 0) ∧ (d = 0 ↔ e = 0) ∧ (d > 0 ↔ e < 0) ∧
      (∀ r w f g, WString.Holds r w → t.compareTo r = .ok f → s.compareTo r = .ok g → d ≤ 0 → f ≤ 0 →
        g ≤ 0 ∧ (d < 0 ∨ f < 0 → g < 0)) ∧
      s.equals t = .ok (d == 0) ∧ s.less t = .ok (decide (u.getD [] < v.getD [])) ∧
      s.greater t = .ok (decide (v.getD [] < u.getD [])) ∧ s.lessEqual t = .ok (decide (u.getD [] ≤ v.getD [])) ∧
      s.greaterEqual t = .ok (decide (v.getD [] ≤ u.getD [])) := by
  obtain ⟨d,hd,h⟩ := compareTo_compares hs ht
  obtain ⟨e,he,h'⟩ := compareTo_compares ht hs
  refine ⟨d,e,hd,he,h.less,h.same,h.greater,h.less.trans h'.greater.symm,?_,h.greater.trans h'.less.symm,?_,
    equals_compareTo hs ht hd h,operators_compareTo hd h⟩
  · rw [h.same, h'.same, eq_comm]
  · intro r w f g hr hf hg
    obtain ⟨_,hf',hcf⟩ := compareTo_compares ht hr
    obtain ⟨_,hg',hcg⟩ := compareTo_compares hs hr
    obtain rfl := Except.ok.inj (hf.symm.trans hf')
    obtain rfl := Except.ok.inj (hg.symm.trans hg')
    exact compares_trans h hcf hcg

/-- An invalid String is below every String that is not empty. -/
theorem compareTo_total_order_invalid :
    ∃ d, compareTo ⟨none,0,0⟩ ⟨some [97,0],1,1⟩ = .ok d ∧ (d < 0 ↔ ([] : List UInt8) < [97]) := by
  have hs : WString.Holds ⟨none,0,0⟩ none := .invalid
  have ht : WString.Holds ⟨some ([97] ++ [0]),1,1⟩ (some [97]) := .valid (by decide) rfl rfl (by decide)
  obtain ⟨d,_,hd,_,hless,_⟩ := compareTo_total_order hs ht
  exact ⟨d,hd,hless⟩

end ArduinoAT90USB.Core
