import ArduinoAT90USB.Core.WStringBackward
import ArduinoAT90USB.Core.WStringParts

/-! The searches `indexOf` and `lastIndexOf` of `WString.cpp` find the first and the last match.
A position is returned as an `int`, which has room for half of them. -/
namespace ArduinoAT90USB.Core
open Foundation Foundation.Memory Foundation.CString Foundation.Substitution Foundation.AvrInt

namespace WString
variable {s t : WString} {u w : List UInt8} {fromIndex : UInt16} {k i : Nat}

/-- `lastIndexOf(const String &s2)`. -/
def lastIndexOfAny (s s2 : WString) : Checked Int16 := s.lastIndexOf s2 (s.len - s2.len)

/-- The first match in `u` from `k` on. -/
structure FirstAt (u w : List UInt8) (k i : Nat) : Prop where
  within : k ≤ i
  occurs : w <+: u.drop i
  earliest : ∀ j, k ≤ j → j < i → ¬ w <+: u.drop j

/-- The last match in `u` up to `k`. -/
structure LastAt (u w : List UInt8) (k i : Nat) : Prop where
  within : i ≤ k
  occurs : w <+: u.drop i
  latest : ∀ j, i < j → j ≤ k → ¬ w <+: u.drop j

theorem FirstAt.unique {i' : Nat} (h : FirstAt u w k i) (h' : FirstAt u w k i') : i = i' := by
  rcases Nat.lt_trichotomy i i' with hlt | heq | hlt
  · exact absurd h.occurs (h'.earliest i h.within hlt)
  · exact heq
  · exact absurd h'.occurs (h.earliest i' h'.within hlt)

theorem LastAt.unique {i' : Nat} (h : LastAt u w k i) (h' : LastAt u w k i') : i = i' := by
  rcases Nat.lt_trichotomy i i' with hlt | heq | hlt
  · exact absurd h'.occurs (h.latest i' hlt h'.within)
  · exact heq
  · exact absurd h.occurs (h'.latest i hlt h.within)

/-- A text that is not empty occurs only where there is something left. -/
private theorem occurs_lt (hw : w ≠ []) (h : w <+: u.drop i) : i < u.length := by
  by_contra hge
  rw [List.drop_eq_nil_of_le (Nat.le_of_not_lt hge)] at h
  exact hw (List.prefix_nil.mp h)

theorem indexOf_spec (hs : s.Holds (some u)) (ht : t.Holds (some w)) (hw : w ≠ []) (fromIndex : UInt16) :
    (s.indexOf t fromIndex = .ok (-1) ∧ ∀ j, fromIndex.toNat ≤ j → ¬ w <+: u.drop j) ∨
      ∃ i, s.indexOf t fromIndex = .ok (Int16.ofNat i) ∧ FirstAt u w fromIndex.toNat i := by
  obtain ⟨hclean,_,rest,hb,_⟩ := hs.block
  obtain ⟨hneedle,_,rest',hb',_⟩ := ht.block
  have hlen : s.len.toNat = u.length := hs.len_toNat
  rw [indexOf]
  by_cases hbeyond : fromIndex ≥ s.len
  · rw [if_pos hbeyond]
    refine .inl ⟨rfl,fun j hj hmatch => ?_⟩
    have hle := UInt16.le_iff_toNat_le.mp hbeyond
    have hlt := occurs_lt hw hmatch
    omega
  · have hin : fromIndex.toNat ≤ u.length := hlen ▸ Nat.le_of_lt (UInt16.lt_iff_toNat_lt.mp (UInt16.not_le.mp hbeyond))
    have hhay : s.pointer fromIndex.toNat = .ok (u.drop fromIndex.toNat ++ 0 :: rest) := by
      rw [pointer_ok s hb (by rw [List.length_append]; omega), List.drop_append_of_le_length hin]
    have hsearch := strstr_text (f := w) (t := u.drop fromIndex.toNat) ⟨hneedle,rest',rfl⟩
      ⟨fun h0 => hclean (List.mem_of_mem_drop h0),rest,rfl⟩
    rw [if_neg hbeyond, hhay, pointer_ok t hb' (Nat.zero_le _), ok_bind, ok_bind, List.drop_zero]
    rcases hsearch with ⟨hstrstr,hnone⟩ | ⟨a,c,hstrstr,hfirst⟩
    · rw [hstrstr]
      refine .inl ⟨rfl,fun j hj hmatch => hnone ?_⟩
      have hsuffix := List.drop_suffix (j - fromIndex.toNat) (u.drop fromIndex.toNat)
      rw [List.drop_drop, Nat.add_sub_cancel' hj] at hsuffix
      exact hmatch.isInfix.trans hsuffix.isInfix
    · rw [hstrstr]
      refine .inr ⟨fromIndex.toNat + a.length,rfl,Nat.le_add_right _ _,?_,fun j hj hlt => ?_⟩
      · rw [← List.drop_drop, hfirst.split, List.drop_left]
        exact List.prefix_append w c
      · have hbefore := hfirst.earliest (j - fromIndex.toNat) (by omega)
        rwa [List.drop_drop, Nat.add_sub_cancel' hj] at hbefore

/-- A start beyond the end is as one at the last character. -/
private theorem lastIndexOf_clamp (hs : s.len ≠ 0) (fromIndex : UInt16) : ∃ index : UInt16,
    index.toNat = min fromIndex.toNat (s.len.toNat - 1) ∧ s.lastIndexOf t fromIndex = s.lastIndexOf t index := by
  have hpos : 0 < s.len.toNat := Nat.pos_of_ne_zero fun h => hs (UInt16.toNat_inj.mp h)
  have hlast : (s.len - 1).toNat = s.len.toNat - 1 := UInt16.toNat_sub_of_le _ _ (UInt16.le_iff_toNat_le.mpr hpos)
  by_cases hbeyond : fromIndex ≥ s.len
  · have hle := UInt16.le_iff_toNat_le.mp hbeyond
    have hinside : ¬ s.len - 1 ≥ s.len := by
      intro hge
      have := UInt16.le_iff_toNat_le.mp hge
      omega
    refine ⟨s.len - 1,by omega,?_⟩
    rw [lastIndexOf, lastIndexOf]
    simp only [if_pos hbeyond, if_neg hinside]
  · have hlt := UInt16.lt_iff_toNat_lt.mp (UInt16.not_le.mp hbeyond)
    exact ⟨fromIndex,by omega,rfl⟩

theorem lastIndexOf_spec (hs : s.Holds (some u)) (ht : t.Holds (some w)) (hw : w ≠ []) (fromIndex : UInt16) :
    (s.lastIndexOf t fromIndex = .ok (-1) ∧ ∀ j ≤ min fromIndex.toNat (u.length - 1), ¬ w <+: u.drop j) ∨
      ∃ i, s.lastIndexOf t fromIndex = .ok (Int16.ofNat i) ∧ LastAt u w (min fromIndex.toNat (u.length - 1)) i := by
  obtain ⟨hclean,_,rest,hb,_⟩ := hs.block
  have hneedle := ht.block.1
  have hlen : s.len.toNat = u.length := hs.len_toNat
  by_cases hempty : s.len = 0
  · have hnil : u = [] := List.length_eq_zero_iff.mp (hlen.symm.trans (congrArg UInt16.toNat hempty))
    rw [lastIndexOf, if_pos (.inr (.inl hempty))]
    refine .inl ⟨rfl,fun j _ hmatch => absurd (occurs_lt hw hmatch) ?_⟩
    rw [hnil]
    exact Nat.not_lt_zero j
  · obtain ⟨index,hindex,hclamp⟩ := lastIndexOf_clamp (t := t) hempty fromIndex
    have hpos : 0 < u.length := hlen ▸ Nat.pos_of_ne_zero fun h => hempty (UInt16.toNat_inj.mp h)
    rw [hlen] at hindex
    rw [← hindex, hclamp]
    -- The matches that count begin in the part of the text up to the index.
    have hsplit : u = u.take (index.toNat + 1) ++ u.drop (index.toNat + 1) := (List.take_append_drop _ u).symm
    have hlength : index.toNat + 1 = (u.take (index.toNat + 1)).length := by
      rw [List.length_take]
      omega
    have hblock : s.buffer = some (u.take (index.toNat + 1) ++ (u.drop (index.toNat + 1) ++ 0 :: rest)) := by
      rw [← List.append_assoc, ← hsplit, hb]
    have hsize : s.len.toNat = (u.take (index.toNat + 1) ++ u.drop (index.toNat + 1)).length := by
      rw [← hsplit, hlen]
    rcases lastIndexOf_text hblock hsize (fun h0 => hclean (List.mem_of_mem_take h0)) ht.shows hneedle hw hlength with
      ⟨hnone,hbegins⟩ | ⟨a,y,hfound,hlast⟩
    · refine .inl ⟨hnone,fun j hj hmatch => hbegins ⟨j,by omega,?_⟩⟩
      rwa [← hsplit]
    · have hsplit' := hlast.split
      rw [← hsplit] at hsplit'
      refine .inr ⟨a.length,hfound,by have := hlast.inside; omega,?_,fun j hlt hj hmatch => ?_⟩
      · rw [hsplit', List.drop_left]
        exact List.prefix_append w y
      · refine hlast.latest j hlt (by omega) ?_
        rwa [← hsplit]

private theorem strrchr_total (c : UInt8) {b : List UInt8} (h : 0 ∈ b) : ∃ o, strrchr c b = .ok o := by
  induction b with
  | nil => cases h
  | cons x b ih =>
    rw [strrchr]
    by_cases hx : x = 0
    · exact ⟨_,if_pos hx⟩
    · obtain ⟨o,ho⟩ := ih ((List.mem_cons.mp h).resolve_left (Ne.symm hx))
      rw [if_neg hx, ho]
      cases o with
      | none => exact ⟨_,rfl⟩
      | some i => exact ⟨_,rfl⟩

theorem lastIndexOfChar_restores (hs : s.Holds (some u)) (ch : UInt8) (fromIndex : UInt16) :
    ∃ r, s.lastIndexOfChar ch fromIndex = .ok (r, s) := by
  have hlen : s.len.toNat = u.length := hs.len_toNat
  rw [lastIndexOfChar]
  by_cases hbeyond : fromIndex ≥ s.len
  · exact ⟨_,if_pos hbeyond⟩
  · have hin := UInt16.lt_iff_toNat_lt.mp (UInt16.not_le.mp hbeyond)
    have hlt := hs.length_lt
    have hnext : (fromIndex + 1).toNat = fromIndex.toNat + 1 := toNat_next (by omega)
    obtain ⟨x,post,hget,hcut,hrestore⟩ := hs.cut (i := (fromIndex + 1).toNat) (by omega)
    have hpointer := pointer_ok {s with buffer := some (u.take (fromIndex + 1).toNat ++ 0 :: post)} rfl (Nat.zero_le _)
    obtain ⟨o,ho⟩ := strrchr_total ch (b := u.take (fromIndex + 1).toNat ++ 0 :: post) (by simp)
    rw [if_neg hbeyond, hget, ok_bind, hcut, ok_bind, hpointer, ok_bind, List.drop_zero, ho, ok_bind, hrestore]
    exact ⟨_,rfl⟩

/-- What the searches of `t` in `s` are to return: a position, or -1 if there is none. -/
structure FindsExtremal (s t : WString) (u w : List UInt8) (fromIndex : UInt16) : Prop where
  first : ∃ r, s.indexOf t fromIndex = .ok r ∧ ((r = -1 ∧ ∀ j, fromIndex.toNat ≤ j → ¬ w <+: u.drop j) ∨
    ∃ i : Nat, r.toInt = i ∧ FirstAt u w fromIndex.toNat i)
  last : ∃ r, s.lastIndexOf t fromIndex = .ok r ∧
    ((r = -1 ∧ ∀ j ≤ min fromIndex.toNat (u.length - 1), ¬ w <+: u.drop j) ∨
      ∃ i : Nat, r.toInt = i ∧ LastAt u w (min fromIndex.toNat (u.length - 1)) i)
  any : s.lastIndexOfAny t = s.lastIndexOf t (s.len - t.len) ∧ (u.length < w.length → s.lastIndexOfAny t = .ok (-1))
  restored : ∀ ch, ∃ r, s.lastIndexOfChar ch fromIndex = .ok (r, s)

theorem lastIndexOfAny_longer (hs : s.Holds (some u)) (ht : t.Holds (some w)) (h : u.length < w.length) :
    s.lastIndexOfAny t = .ok (-1) := by
  have hlong : t.len > s.len := UInt16.lt_iff_toNat_lt.mpr (by rw [hs.len_toNat, ht.len_toNat]; exact h)
  rw [lastIndexOfAny, lastIndexOf, if_pos (.inr (.inr hlong))]
  rfl

/-- A search that has found the one match, or that there is none, returns as much if and only
if an `int` has room for the position. -/
private theorem returns_iff {x : Checked Int16} {Match : Nat → Prop} {Absent : Prop}
    (hunique : ∀ i j, Match i → Match j → i = j) (habsent : Absent → ∀ i, ¬ Match i) (hlt : ∀ i, Match i → i < 65536)
    (hx : (x = .ok (-1) ∧ Absent) ∨ ∃ i, x = .ok (Int16.ofNat i) ∧ Match i) :
    (∃ r, x = .ok r ∧ ((r = -1 ∧ Absent) ∨ ∃ i : Nat, r.toInt = i ∧ Match i)) ↔ ∀ i, Match i → i < 32768 := by
  rcases hx with ⟨hx,hnone⟩ | ⟨i,hx,hmatch⟩
  · exact ⟨fun _ i hi => absurd hi (habsent hnone i),fun _ => ⟨-1,hx,.inl ⟨rfl,hnone⟩⟩⟩
  · constructor
    · rintro ⟨r,hr,⟨_,hnone⟩ | ⟨j,hj,hmatch'⟩⟩ i' hi'
      · exact absurd hmatch (habsent hnone i)
      · obtain rfl := hunique i i' hmatch hi'
        obtain rfl := hunique i j hmatch hmatch'
        obtain rfl : Int16.ofNat i = r := Except.ok.inj (hx.symm.trans hr)
        have hi := hlt i hmatch
        rw [int16_ofNat_toInt hi] at hj
        split_ifs at hj with hsmall
        · exact hsmall
        · omega
    · intro hsmall
      exact ⟨_,hx,.inr ⟨i,(int16_ofNat (hsmall i hmatch)).2.2,hmatch⟩⟩

end WString
open WString

/-- The searches find the extremal matches, and say so if and only if these begin in the first
32768 characters. -/
theorem searches_extremal {s t : WString} {u w : List UInt8} (hs : s.Holds (some u)) (ht : t.Holds (some w))
    (hw : w ≠ []) (fromIndex : UInt16) : FindsExtremal s t u w fromIndex ↔
      (∀ i, FirstAt u w fromIndex.toNat i → i < 32768) ∧
        ∀ i, LastAt u w (min fromIndex.toNat (u.length - 1)) i → i < 32768 := by
  have hbound {i : Nat} (h : w <+: u.drop i) : i < 65536 :=
    Nat.lt_trans (occurs_lt hw h) (Nat.lt_trans hs.length_lt (by decide))
  have hfirst := returns_iff (fun _ _ h h' => FirstAt.unique h h') (fun hnone i h => hnone i h.within h.occurs)
    (fun i h => hbound h.occurs) (indexOf_spec hs ht hw fromIndex)
  have hlast := returns_iff (fun _ _ h h' => LastAt.unique h h') (fun hnone i h => hnone i h.within h.occurs)
    (fun i h => hbound h.occurs) (lastIndexOf_spec hs ht hw fromIndex)
  constructor
  · intro h
    exact ⟨hfirst.mp h.first,hlast.mp h.last⟩
  · rintro ⟨hf,hl⟩
    exact ⟨hfirst.mpr hf,hlast.mpr hl,⟨rfl,lastIndexOfAny_longer hs ht⟩,fun ch => lastIndexOfChar_restores hs ch fromIndex⟩

/-- Overlapping matches of `aa` in `aaab`: the first is at 0 and the last at 1. -/
theorem searches_extremal_overlapping :
    FindsExtremal (exactly [97,97,97,98]) (exactly [97,97]) [97,97,97,98] [97,97] 0 := by
  have hs : (exactly [97,97,97,98]).Holds (some [97,97,97,98]) := exactly_holds (by decide) (by decide)
  have ht : (exactly [97,97]).Holds (some [97,97]) := exactly_holds (by decide) (by decide)
  refine (searches_extremal hs ht (by decide) 0).mpr ⟨fun i h => ?_,fun i h => ?_⟩
  · exact Nat.lt_trans (occurs_lt (by decide) h.occurs) (by decide)
  · exact Nat.lt_trans (occurs_lt (by decide) h.occurs) (by decide)

/-- The one `b` after 32768 times `a` is reported at -32768. -/
theorem indexOf_negative :
    (exactly (List.replicate 32768 97 ++ [98])).indexOf (exactly [98]) 0 = .ok (-32768) := by
  have hlength : (List.replicate 32768 (97 : UInt8)).length = 32768 := List.length_replicate
  have hclean : 0 ∉ List.replicate 32768 (97 : UInt8) ++ [98] := by
    rw [List.mem_append, List.mem_replicate]
    decide
  have hs : (exactly (List.replicate 32768 97 ++ [98])).Holds (some (List.replicate 32768 97 ++ [98])) :=
    exactly_holds hclean (by rw [List.length_append, hlength]; decide)
  have ht : (exactly [98]).Holds (some [98]) := exactly_holds (by decide) (by decide)
  have hoccurs : [98] <+: (List.replicate 32768 (97 : UInt8) ++ [98]).drop 32768 := by
    rw [List.drop_left' hlength]
  rcases indexOf_spec hs ht (by decide) 0 with ⟨_,hnone⟩ | ⟨i,hindex,hfirst⟩
  · exact absurd hoccurs (hnone 32768 (Nat.zero_le _))
  · have hat : FirstAt (List.replicate 32768 97 ++ [98]) [98] (0 : UInt16).toNat 32768 := by
      refine ⟨Nat.zero_le _,hoccurs,fun j _ hj hmatch => ?_⟩
      rw [List.drop_append_of_le_length (by omega), List.drop_replicate] at hmatch
      obtain ⟨n,hn⟩ := Nat.exists_eq_add_one_of_ne_zero (show 32768 - j ≠ 0 by omega)
      rw [hn, List.replicate_succ] at hmatch
      exact absurd (List.cons_prefix_cons.mp hmatch).1 (by decide)
    rw [hindex, hfirst.unique hat]
    rfl

end ArduinoAT90USB.Core
