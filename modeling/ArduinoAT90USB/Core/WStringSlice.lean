import ArduinoAT90USB.Core.WStringConcat
import ArduinoAT90USB.Core.WStringParts
import ArduinoAT90USB.Core.WStringQuery

/-! Parts of a String: `startsWith` with an offset, which compares one in place, and `substring`,
which copies one out of a buffer that it cuts off meanwhile. -/
namespace ArduinoAT90USB.Core
open Foundation.Memory Foundation.CString

namespace WString
variable {s p : WString} {u w rest : List UInt8} {offset : UInt16}

section Starts

private theorem strncmp_text (hw : 0 ∉ w) (x rest rest' : List UInt8) :
    ∃ d, strncmp w.length (x ++ 0 :: rest) (w ++ rest') = .ok d ∧ (d = 0 ↔ w <+: x) := by
  induction w generalizing x with
  | nil => exact ⟨0,rfl,iff_of_true rfl List.nil_prefix⟩
  | cons c w ih =>
    obtain ⟨hc,hclean⟩ := not_or.mp fun h => hw (List.mem_cons.mpr h)
    cases x with
    | nil =>
      refine ⟨0 - c.toNat,if_pos hc,iff_of_false (fun h => hc (UInt8.toNat_inj.mp ?_)) (by simp)⟩
      rw [UInt8.toNat_zero]
      omega
    | cons a x =>
      by_cases hac : a = c
      · subst hac
        obtain ⟨d,hd,hiff⟩ := ih hclean x
        refine ⟨d,?_,?_⟩
        · rw [List.length_cons, List.cons_append, List.cons_append, strncmp, if_neg (not_not_intro rfl),
            if_neg (Ne.symm hc), hd]
        · rw [hiff, List.cons_prefix_cons, and_iff_right rfl]
      · refine ⟨a.toNat - c.toNat,if_pos hac,iff_of_false (fun h => hac (UInt8.toNat_inj.mp (by omega))) ?_⟩
        exact fun h => hac (List.cons_prefix_cons.mp h).1.symm

/-- The guard `offset > len - s2.len` lets an offset past the end through: the difference has
wrapped. -/
def GuardWraps (u w : List UInt8) (offset : UInt16) : Prop :=
  u.length < w.length ∧ u.length < offset.toNat ∧ offset.toNat ≤ u.length + 65536 - w.length

instance (u w : List UInt8) (offset : UInt16) : Decidable (GuardWraps u w offset) :=
  inferInstanceAs (Decidable (_ ∧ _ ∧ _))

/-- `p` stands in the text at the offset. -/
def StandsAt (u w : List UInt8) (offset : UInt16) : Prop :=
  offset.toNat + w.length ≤ u.length ∧ (u.drop offset.toNat).take w.length = w

instance (u w : List UInt8) (offset : UInt16) : Decidable (StandsAt u w offset) :=
  inferInstanceAs (Decidable (_ ∧ _))

private theorem guard_iff (hs : s.len.toNat = u.length) (hp : p.len.toNat = w.length) :
    offset > s.len - p.len ↔ if w.length ≤ u.length then u.length - w.length < offset.toNat
      else u.length + 65536 - w.length < offset.toNat := by
  have hlt := p.len.toNat_lt
  have hlt' := s.len.toNat_lt
  have hsub : (s.len - p.len).toNat = (65536 - p.len.toNat + s.len.toNat) % 65536 := UInt16.toNat_sub _ _
  rw [gt_iff_lt, UInt16.lt_iff_toNat_lt, hsub]
  split_ifs <;> omega

private theorem standsAt_iff (hoffset : offset.toNat ≤ u.length) :
    StandsAt u w offset ↔ w <+: u.drop offset.toNat := by
  rw [List.prefix_iff_eq_take, eq_comm (a := w), StandsAt, and_iff_right_iff_imp]
  intro htake
  have hlength := congrArg List.length htake
  rw [List.length_take, List.length_drop] at hlength
  omega

/-- Unless the guard is defeated, the comparison is exact and sees the text and its
terminator only. -/
theorem startsWithAt_exact (hb : s.buffer = some (u ++ 0 :: rest)) (hs : s.len.toNat = u.length)
    (hp : p.Holds (some w)) (hguard : ¬ GuardWraps u w offset) :
    s.startsWithAt p offset = .ok (decide (StandsAt u w offset)) := by
  obtain ⟨hclean,_,rest',hp',_⟩ := hp.block
  have hplen : p.len.toNat = w.length := hp.len_toNat
  by_cases hbeyond : offset > s.len - p.len
  · rw [startsWithAt, if_pos (.inl hbeyond)]
    have hnot : ¬ StandsAt u w offset := by
      rw [guard_iff hs hplen] at hbeyond
      rintro ⟨hle,_⟩
      split_ifs at hbeyond <;> omega
    rw [decide_eq_false hnot]
    rfl
  · -- A longer `p` may get here with an offset inside the text; the terminator ends the comparison.
    have hin : offset.toNat ≤ u.length := by
      rw [guard_iff hs hplen] at hbeyond
      unfold GuardWraps at hguard
      split_ifs at hbeyond <;> omega
    obtain ⟨d,hd,hiff⟩ := strncmp_text hclean (u.drop offset.toNat) rest (0 :: rest')
    rw [startsWithAt_compare (by rw [hb]; rfl) hp' hbeyond, pointer_ok s hb (by rw [List.length_append]; omega),
      List.drop_append_of_le_length hin, ok_bind, hplen, hd]
    refine congrArg Except.ok ?_
    rw [← standsAt_iff hin] at hiff
    rw [Bool.eq_iff_iff, beq_iff_eq, decide_eq_true_iff]
    exact hiff

/-- The String in a block that ends with its terminator. -/
def cutOff (s : WString) : WString := {s with buffer := s.buffer.map (List.take (s.len.toNat + 1))}

theorem cutOff_buffer (hs : s.Holds (some u)) : s.cutOff.buffer = some (u ++ [0]) := by
  obtain ⟨_,_,rest,hb,_⟩ := hs.block
  have hlen : s.len.toNat = u.length := hs.len_toNat
  rw [cutOff, hb, hlen, Option.map_some, List.take_length_add_append]
  rfl

/-- An offset that the guard lets through by mistake is past the terminator. -/
theorem startsWithAt_overrun (hs : s.Holds (some u)) (hp : p.Holds (some w)) (hguard : GuardWraps u w offset) :
    s.cutOff.startsWithAt p offset = .error .bounds := by
  obtain ⟨_,_,rest',hp',_⟩ := hp.block
  obtain ⟨hlonger,hpast,hle⟩ := hguard
  have hb := cutOff_buffer hs
  have hslen : s.cutOff.len.toNat = u.length := hs.len_toNat
  have hplen : p.len.toNat = w.length := hp.len_toNat
  have hthrough : ¬ offset > s.cutOff.len - p.len := by
    rw [guard_iff hslen hplen, if_neg (by omega)]
    omega
  obtain ⟨n,hn⟩ := Nat.exists_eq_add_one_of_ne_zero (show w.length ≠ 0 by omega)
  rw [startsWithAt_compare (by rw [hb]; rfl) hp' hthrough, hplen, hn]
  by_cases hend : offset.toNat ≤ (u ++ [0]).length
  · rw [pointer_ok _ hb hend, List.drop_eq_nil_of_le (by rw [List.length_append]; exact hpast)]
    rfl
  · rw [pointer, hb, deref, ok_bind, if_neg hend]
    rfl

/-- `startsWith` tells whether `p` stands at the offset, and looks at nothing after the
terminator. -/
structure StartsExactly (s p : WString) (u w : List UInt8) (offset : UInt16) : Prop where
  exact : s.startsWithAt p offset = .ok (decide (StandsAt u w offset))
  bounded : ∃ r, s.cutOff.startsWithAt p offset = .ok r

end Starts

end WString
open WString

/-- The offset is checked right if and only if the guard does not wrap past the end. -/
theorem startsWith_offset {s p : WString} {u w : List UInt8} (hs : s.Holds (some u)) (hp : p.Holds (some w))
    (offset : UInt16) : StartsExactly s p u w offset ↔ ¬ GuardWraps u w offset := by
  obtain ⟨_,_,rest,hb,_⟩ := hs.block
  constructor
  · rintro ⟨_,r,hr⟩ hguard
    rw [startsWithAt_overrun hs hp hguard] at hr
    cases hr
  · intro hguard
    have hlen : s.len.toNat = u.length := hs.len_toNat
    exact ⟨startsWithAt_exact hb hlen hp hguard,_,startsWithAt_exact (cutOff_buffer hs) hlen hp hguard⟩

/-- `bc` at the end of `abc`. -/
theorem startsWith_offset_end : StartsExactly (exactly [97,98,99]) (exactly [98,99]) [97,98,99] [98,99] 1 := by
  have hs : (exactly [97,98,99]).Holds (some [97,98,99]) := exactly_holds (by decide) (by decide)
  have hp : (exactly [98,99]).Holds (some [98,99]) := exactly_holds (by decide) (by decide)
  exact (startsWith_offset hs hp 1).mpr (by decide)

/-- `bc` is looked for in `a` from offset 2, behind the terminator. -/
theorem startsWith_offset_overrun : (exactly [97]).startsWithAt (exactly [98,99]) 2 = .error .bounds := by
  decide

namespace WString

/-- The characters between the positions: none if both are past the end. -/
def between (u : List UInt8) (left right : UInt16) : List UInt8 :=
  let lo := min left.toNat right.toNat
  let hi := min (max left.toNat right.toNat) u.length
  if lo > u.length then [] else (u.take hi).drop lo

theorem slice_eq_between (u : List UInt8) (left right : UInt16) : slice u left right = between u left right := by
  rw [slice, between, List.take_eq_take_min]
  split_ifs with hpast
  · refine List.drop_eq_nil_of_le ?_
    rw [List.length_take]
    omega
  · rfl

end WString

/-- `substring` takes the right slice if it gets the memory for it, and is invalid if it does
not; either way the String it is taken from is as before. -/
theorem substring_restores {s : WString} {u : List UInt8} (hs : s.Holds (some u)) (left right : UInt16) (h : Heap) :
    ∃ h' out, s.substring left right h = .ok (out, s) h' ∧
      (Ample h → out.Holds (some (between u left right))) ∧
      out.Holds (if granted h h' then some (between u left right) else none) := by
  obtain ⟨h',out,hsubstring,hholds⟩ := substring_spec hs left right h
  rw [slice_eq_between] at hholds
  refine ⟨h',out,hsubstring,fun hample => ?_,hholds⟩
  rwa [hample.granted h', if_pos rfl] at hholds

/-- The arguments swapped, and one of them past the end. -/
theorem substring_restores_swapped : ∃ h' out, (exactly [97,98,99]).substring 9 1 onesHeap =
    .ok (out, exactly [97,98,99]) h' ∧ out.Holds (some [98,99]) := by
  have hs : (exactly [97,98,99]).Holds (some [97,98,99]) := exactly_holds (by decide) (by decide)
  obtain ⟨h',out,hsubstring,hholds,_⟩ := substring_restores hs 9 1 onesHeap
  exact ⟨h',out,hsubstring,hholds onesHeap_ample⟩

/-- Without memory the first character of `a` is an invalid String. -/
theorem substring_refused : ∃ h', (exactly [97]).substring 0 1 ⟨fun _ => none,0⟩ = .ok (⟨none,0,0⟩, exactly [97]) h' :=
  ⟨_,rfl⟩

end ArduinoAT90USB.Core
