import ArduinoAT90USB.Core.WStringSound
import Mathlib.Data.List.DropRight

/-! What the operations that edit characters in place, or take a part, do to the text. -/
namespace ArduinoAT90USB.Core
open Foundation Foundation.Memory Foundation.CString Foundation.TaskLogic

namespace WString
variable {s : WString} {v : Option (List UInt8)}

theorem setCharAt_spec (hs : s.Holds v) (loc : UInt16) {c : UInt8} (hc : c ≠ 0) :
    ∃ s', s.setCharAt loc c = .ok s' ∧ s'.Holds (v.map fun t => t.set loc.toNat c) := by
  cases hs with
  | invalid => exact ⟨_,rfl,.invalid⟩
  | @valid t rest capacity len clean length allocated size =>
    unfold setCharAt
    dsimp only
    split_ifs with hloc
    · have hlt : loc.toNat < t.length := length ▸ UInt16.lt_iff_toNat_lt.mp hloc
      refine ⟨⟨some (t.set loc.toNat c ++ 0 :: rest),capacity,len⟩,?_,.valid ?_ ?_ ?_ size⟩
      · rw [put, deref, ok_bind, store, if_pos (by rw [List.length_append]; omega), List.set_append_left _ _ hlt]
        rfl
      · intro h0
        rcases List.mem_or_eq_of_mem_set h0 with hmem | hzero
        · exact clean hmem
        · exact hc hzero.symm
      · rw [List.length_set, length]
      · simpa using allocated
    · have hge : t.length ≤ loc.toNat := by
        rw [← length]
        exact Nat.le_of_not_lt fun h => hloc (UInt16.lt_iff_toNat_lt.mpr h)
      refine ⟨_,rfl,?_⟩
      rw [Option.map_some, List.set_eq_of_length_le hge]
      exact .valid clean length allocated size

theorem forEachChar_spec (hs : s.Holds v) {f : UInt8 → UInt8} (hf : ∀ c, c ≠ 0 → f c ≠ 0) :
    ∃ s', s.forEachChar f = .ok s' ∧ s'.Holds (v.map (List.map f)) := by
  cases hs with
  | invalid => exact ⟨_,rfl,.invalid⟩
  | @valid t rest capacity len clean length allocated size =>
    refine ⟨⟨some (t.map f ++ 0 :: rest),capacity,len⟩,?_,.valid ?_ (length.trans (List.length_map f).symm) ?_ size⟩
    · rw [forEachChar]
      dsimp only
      rw [mapChars_text f clean]
      rfl
    · intro h0
      obtain ⟨c,hc,hzero⟩ := List.mem_map.mp h0
      exact hf c (fun h => clean (h ▸ hc)) hzero
    · simpa using allocated

theorem trimBegin_text (t rest : List UInt8) : trimBegin (t ++ 0 :: rest) = .ok (t.takeWhile isspace).length := by
  induction t with
  | nil => rfl
  | cons c t ih =>
    rw [List.cons_append, trimBegin, List.takeWhile_cons]
    split_ifs
    · rw [ih]
      rfl
    · rfl

/-- The loop from the end stops behind the last character that is no space, and not before
`begin`: that one is no space, or there is a space before it. -/
theorem trimEnd_text (lead body tail : List UInt8) (hstop : lead ≠ [] ∨ ∃ c ∈ body, isspace c = false) :
    trimEnd (lead ++ (body ++ tail)) lead.length (lead.length + body.length) =
      .ok (lead.length + (body.rdropWhile isspace).length) := by
  induction body using List.reverseRecOn generalizing tail with
  | nil =>
    obtain ⟨lead',z,rfl⟩ := (List.eq_nil_or_concat' lead).resolve_left (hstop.resolve_right (by simp))
    rw [List.rdropWhile_nil, List.length_append, List.append_assoc]
    have hload : load (lead' ++ (z :: ([] ++ tail))) lead'.length = .ok z := load_append lead' tail z
    simp only [List.length_cons, List.length_nil, Nat.zero_add, Nat.add_zero, List.singleton_append, trimEnd, hload,
      ok_bind]
    rw [if_neg (by omega)]
    rfl
  | append_singleton body y ih =>
    have hload : load (lead ++ (body ++ [y] ++ tail)) (lead.length + body.length) = .ok y := by
      have h := load_append (lead ++ body) tail y
      rwa [List.length_append, List.append_assoc, ← List.singleton_append, ← List.append_assoc body] at h
    rw [List.length_append, List.length_singleton, ← Nat.add_assoc, trimEnd, hload, ok_bind]
    by_cases hy : isspace y = true
    · rw [if_pos ⟨hy,Nat.le_add_right _ _⟩, List.rdropWhile_concat_pos _ _ _ hy, List.append_assoc]
      refine ih ([y] ++ tail) (hstop.imp_right fun ⟨c,hc,hspace⟩ => ⟨c,?_,hspace⟩)
      rcases List.mem_append.mp hc with hc | hc
      · exact hc
      · rw [List.mem_singleton.mp hc, hy] at hspace
        cases hspace
    · rw [if_neg (fun h => hy h.1), List.rdropWhile_concat_neg _ _ _ hy, List.length_append]
      rfl

/-- Spaces are taken off both ends. -/
def trimmed (t : List UInt8) : List UInt8 := (t.dropWhile isspace).rdropWhile isspace

private theorem terminate_holds {core tail : List UInt8} {capacity : UInt16} (hclean : 0 ∉ core) (htail : tail ≠ [])
    (hcap : (core ++ tail).length = capacity.toNat + 1) (hsize : capacity.toNat + 1 < 65536) :
    ∃ b, store (core ++ tail) core.length 0 = .ok b ∧ Holds ⟨some b,capacity,UInt16.ofNat core.length⟩ (some core) := by
  obtain ⟨x,tail,rfl⟩ := List.exists_cons_of_ne_nil htail
  refine ⟨core ++ 0 :: tail,store_append core tail x 0,.valid hclean ?_ ?_ hsize⟩
  · rw [List.length_append, List.length_cons] at hcap
    exact toNat_length (by omega)
  · simpa using hcap

/-- The move to the front, which is left out if there is nothing before the text. -/
private theorem trimMove_down (lead core post : List UInt8) :
    ∃ tail, trimMove (lead ++ (core ++ post)) core.length lead.length = .ok (core ++ tail) ∧
      tail.length = lead.length + post.length := by
  cases lead with
  | nil => exact ⟨post,rfl,(Nat.zero_add _).symm⟩
  | cons c lead =>
    have hmove := memcpyWithin_down [] (c :: lead) core post
    rw [List.length_nil, Nat.zero_add] at hmove
    refine ⟨_,(if_pos (by simp)).trans hmove,?_⟩
    simp only [List.length_drop, List.length_append]
    omega

private theorem trim_stops {t : List UInt8} (ht : t ≠ []) :
    t.takeWhile isspace ≠ [] ∨ ∃ c ∈ t.dropWhile isspace, isspace c = false := by
  obtain ⟨c,t,rfl⟩ := List.exists_cons_of_ne_nil ht
  rw [List.takeWhile_cons, List.dropWhile_cons]
  cases hc : isspace c with
  | true => exact .inl (List.cons_ne_nil _ _)
  | false => exact .inr ⟨c,List.mem_cons_self,hc⟩

theorem trim_spec (hs : s.Holds v) : ∃ s', s.trim = .ok s' ∧ s'.Holds (v.map trimmed) := by
  cases hs with
  | invalid => exact ⟨_,rfl,.invalid⟩
  | @valid t rest capacity len clean length allocated size =>
    unfold trim
    dsimp only
    split_ifs with hzero
    · have ht : t = [] := List.length_eq_zero_iff.mp (length.symm.trans (congrArg UInt16.toNat hzero))
      subst ht
      exact ⟨_,rfl,.valid clean length allocated size⟩
    · have ht : t ≠ [] := fun h0 => hzero (UInt16.toNat_inj.mp (by rw [length, h0]; rfl))
      have htext : t.takeWhile isspace ++ t.dropWhile isspace = t := List.takeWhile_append_dropWhile
      have hbody : trimmed t ++ (t.dropWhile isspace).rtakeWhile isspace = t.dropWhile isspace :=
        List.rdropWhile_append_rtakeWhile
      have hend := trimEnd_text _ (t.dropWhile isspace) (0 :: rest) (trim_stops ht)
      rw [← List.append_assoc, htext, ← List.length_append, htext, ← length] at hend
      obtain ⟨tail,hmove,htail⟩ := trimMove_down (t.takeWhile isspace) (trimmed t)
        ((t.dropWhile isspace).rtakeWhile isspace ++ 0 :: rest)
      rw [← List.append_assoc (trimmed t), hbody, ← List.append_assoc, htext] at hmove
      have hcap : (trimmed t ++ tail).length = capacity.toNat + 1 := by
        have hlead := congrArg List.length htext
        have hcore := congrArg List.length hbody
        simp only [List.length_append, List.length_cons] at hlead hcore htail allocated ⊢
        omega
      have hcore : 0 ∉ trimmed t := fun h0 => clean ((List.dropWhile_suffix _).mem
        ((List.rdropWhile_prefix _ _).mem h0))
      obtain ⟨b,hstore,hholds⟩ := terminate_holds hcore (List.ne_nil_of_length_pos (by
        rw [htail, List.length_append, List.length_cons]; omega)) hcap size
      have hlen : (UInt16.ofNat (trimmed t).length).toNat = (trimmed t).length := hholds.len_toNat
      refine ⟨_,?_,hholds⟩
      rw [trimBegin_text, ok_bind, hend, ok_bind, Nat.add_sub_cancel_left, ← trimmed, hlen, hmove, ok_bind, hstore]
      rfl

/-- A character, or the terminator, gives way to a NUL and is put back. -/
theorem Holds.cut {t : List UInt8} (hs : s.Holds (some t)) {i : Nat} (hi : i ≤ t.length) : ∃ x post,
    s.get i = .ok x ∧ s.put i 0 = .ok {s with buffer := some (t.take i ++ 0 :: post)} ∧
      put {s with buffer := some (t.take i ++ 0 :: post)} i x = .ok s := by
  obtain ⟨_,_,rest,hb,_⟩ := hs.block
  have hlength : (t.take i).length = i := List.length_take_of_le hi
  obtain ⟨x,post,hpost⟩ : ∃ x post, t.drop i ++ 0 :: rest = x :: post := List.exists_cons_of_ne_nil (by simp)
  have hsplit : s.buffer = some (t.take i ++ x :: post) := by
    rw [← hpost, ← List.append_assoc, List.take_append_drop, hb]
  have hget := get_append s hsplit
  have hcut := put_append s hsplit 0
  have hrestore := put_append {s with buffer := some (t.take i ++ 0 :: post)} rfl x
  rw [hlength] at hget hcut hrestore
  rw [← hsplit] at hrestore
  exact ⟨x,post,hget,hcut,hrestore⟩

theorem copyRange_spec {t : List UInt8} (hs : s.Holds (some t)) {out : WString} {w : Option (List UInt8)}
    (hout : out.Holds w) {left right : UInt16} (hleft : left.toNat ≤ right.toNat) (hright : right.toNat ≤ t.length)
    (h : Heap) : ∃ h' out', s.copyRange out left right h = .ok (out', s) h' ∧ out.Asks h h' ∧
      out'.Holds (if granted h h' then some ((t.take right.toNat).drop left.toNat) else none) := by
  have hlength : (t.take right.toNat).length = right.toNat := List.length_take_of_le hright
  obtain ⟨x,post,hget,hcut,hrestore⟩ := hs.cut hright
  have hpointer := pointer_ok {s with buffer := some (t.take right.toNat ++ 0 :: post)} rfl
    (i := left.toNat) (by rw [List.length_append, hlength]; omega)
  rw [List.drop_append_of_le_length (hlength.symm ▸ hleft)] at hpointer
  have hpart : Terminated ((t.take right.toNat).drop left.toNat) ((t.take right.toNat).drop left.toNat ++ 0 :: post) :=
    ⟨fun h0 => hs.block.1 (List.mem_of_mem_take (List.mem_of_mem_drop h0)),post,rfl⟩
  have hshort : ((t.take right.toNat).drop left.toNat).length < 65535 := by
    have hlt := hs.length_lt
    rw [List.length_drop, hlength]
    omega
  obtain ⟨h',out',hassign,hasks,hholds⟩ := assignCstr_spec hout hpart hshort h
  refine ⟨h',out',?_,hasks,hholds⟩
  rw [copyRange, check_bind hget, check_bind hcut, check_bind hpointer, bind_ok hassign, check_bind hrestore]
  rfl

/-- Two requests in a row, the second on what the first has left, settle the matter as one:
a String that was refused asks again. -/
private theorem granted_again {h h' : Heap} {out : WString} {w : Option (List UInt8)}
    (hout : out.Holds (if granted h h.called then w else none)) (hasks : out.Asks h.called h') :
    granted h h' = granted h.called h' := by
  rcases hasks with ⟨rfl,hvalid⟩ | rfl
  · rw [granted_self]
    cases hg : granted h h.called with
    | true => rfl
    | false =>
      rw [hg] at hout
      cases hout
      cases hvalid
  · have hmore : ¬ h.calls + 1 + 1 = h.calls := by omega
    simp [granted, Heap.called, hmore]

theorem substringOrdered_spec {t : List UInt8} (hs : s.Holds (some t)) {left right : UInt16}
    (hleft : left.toNat ≤ right.toNat) (h : Heap) :
    ∃ h' out, s.substringOrdered left right h = .ok (out, s) h' ∧
      out.Holds (if granted h h' then some ((t.take right.toNat).drop left.toNat) else none) := by
  have hlen : s.len.toNat = t.length := hs.len_toNat
  have hempty : Terminated [] [0] := ⟨List.not_mem_nil,[],rfl⟩
  obtain ⟨h₁,out,hconstruct,hasks,hout⟩ := assignCstr_spec .invalid hempty (by decide) h
  obtain rfl : h₁ = h.called := hasks.resolve_left fun h => absurd h.2 (by decide)
  unfold substringOrdered
  rw [bind_ok (show construct 10 (.cstr (some [0])) h = _ from hconstruct)]
  by_cases hbeyond : left > s.len
  · have hnone : (t.take right.toNat).drop left.toNat = [] := by
      refine List.drop_eq_nil_of_le (Nat.le_trans (List.length_take_le' _ _) ?_)
      exact hlen ▸ Nat.le_of_lt (UInt16.lt_iff_toNat_lt.mp hbeyond)
    rw [if_pos hbeyond, hnone]
    exact ⟨h.called,out,rfl,hout⟩
  · have hin : left.toNat ≤ t.length := hlen ▸ Nat.le_of_not_lt fun h => hbeyond (UInt16.lt_iff_toNat_lt.mpr h)
    have hstop : (if right > s.len then s.len else right).toNat = min right.toNat t.length := by
      rw [← hlen]
      split_ifs with hright
      · exact (Nat.min_eq_right (Nat.le_of_lt (UInt16.lt_iff_toNat_lt.mp hright))).symm
      · exact (Nat.min_eq_left (Nat.le_of_not_lt fun h => hright (UInt16.lt_iff_toNat_lt.mpr h))).symm
    obtain ⟨h',out',hcopy,hasks',hholds⟩ := copyRange_spec hs hout
      (hstop.symm ▸ Nat.le_min.mpr ⟨hleft,hin⟩) (hstop.symm ▸ Nat.min_le_right _ _) h.called
    refine ⟨h',out',(if_neg hbeyond).symm ▸ hcopy,?_⟩
    rw [granted_again hout hasks']
    rwa [hstop, List.take_eq_take_min.symm] at hholds

/-- The characters between the two positions, in either order and as far as there are any. -/
def slice (t : List UInt8) (left right : UInt16) : List UInt8 :=
  (t.take (max left.toNat right.toNat)).drop (min left.toNat right.toNat)

theorem substring_spec {t : List UInt8} (hs : s.Holds (some t)) (left right : UInt16) (h : Heap) :
    ∃ h' out, s.substring left right h = .ok (out, s) h' ∧
      out.Holds (if granted h h' then some (slice t left right) else none) := by
  unfold substring slice
  split_ifs with hswap
  · have hle := Nat.le_of_lt (UInt16.lt_iff_toNat_lt.mp hswap)
    rw [Nat.max_eq_left hle, Nat.min_eq_right hle]
    exact substringOrdered_spec hs hle h
  · have hle := Nat.le_of_not_lt fun h => hswap (UInt16.lt_iff_toNat_lt.mpr h)
    rw [Nat.max_eq_right hle, Nat.min_eq_left hle]
    exact substringOrdered_spec hs hle h

end WString

end ArduinoAT90USB.Core
