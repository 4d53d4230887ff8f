import ArduinoAT90USB.Core.WStringReplace

/-! A pattern with a NUL in it: `strstr` looks for what is before the NUL, but the loops of `replace` go on behind
the whole length of the pattern. -/
namespace ArduinoAT90USB.Core
open Foundation Foundation.Memory Foundation.CString Foundation.TaskLogic Foundation.Substitution
  Foundation.Loop Foundation.AvrInt

namespace WString

/-- What `strstr` looks for: the pattern as far as its first NUL. -/
def sought (f : List UInt8) : List UInt8 := f.takeWhile (· ≠ 0)

variable {f g u r needle text : List UInt8} {b b' : Block} {readFrom fuel : Nat}

/-- A search that comes back without a match has stayed in the block. -/
theorem search_inside (hneedle : Terminated g needle) (h : strstr needle (b.drop readFrom) = .ok none) :
    readFrom < b.length := by
  apply Classical.byContradiction
  intro hleft
  obtain ⟨hclean,rest,rfl⟩ := hneedle
  rw [List.drop_of_length_le (Nat.le_of_not_lt hleft)] at h
  cases g with
  | nil => cases h
  | cons c g =>
    have hc : c ≠ 0 := fun h0 => hclean (h0 ▸ List.mem_cons_self)
    rw [List.cons_append,strstr,CString.startsWith.eq_def] at h
    dsimp only at h
    rw [if_neg hc] at h
    cases h

section Counting
variable {findLen : UInt16} (hneedle : Terminated g needle)
include hneedle

theorem replaceSize_beyond (hleft : b.length ≤ readFrom) (diff size size' : UInt16) :
    replaceSize needle b findLen diff fuel readFrom size ≠ .ok size' := by
  intro hrun
  rw [replaceSize_loop needle b findLen diff fuel (readFrom, size)] at hrun
  obtain ⟨p,hloop,_⟩ := map_eq_ok hrun
  have hexit := loop_exit (I := fun p => b.length ≤ p.1) ?_ hleft hloop
  · obtain ⟨hp,hend⟩ := hexit
    obtain ⟨o,ho,hturn⟩ := bind_eq_ok hend
    cases o with
    | none => exact absurd (search_inside hneedle ho) (Nat.not_lt.mpr hp)
    | some n => cases hturn
  · intro p p' hp hturn
    obtain ⟨o,_,hturn⟩ := bind_eq_ok hturn
    cases o with
    | none => cases hturn
    | some n =>
      cases hturn
      dsimp only
      omega

/-- In a block that just holds the text, the counting pass ends only if every stretch it skips is in the text. -/
theorem replaceSize_windows_of_ok (hu : 0 ∉ u) (pre : List UInt8) {diff size size' : UInt16}
    (h : replaceSize needle (pre ++ (u ++ [0])) findLen diff fuel pre.length size = .ok size') :
    ∃ ws, Windows g findLen.toNat u ws := by
  induction fuel generalizing u pre size with
  | zero => cases h
  | succ fuel ih =>
    rw [replaceSize,List.drop_left] at h
    rcases strstr_text hneedle ⟨hu,[],rfl⟩ with ⟨_,hnone⟩ | ⟨a,c,hsearch,hfirst⟩
    · exact ⟨[],.none hnone⟩
    · rw [hsearch] at h
      dsimp only [ok_bind] at h
      by_cases hin : a.length + findLen.toNat ≤ u.length
      · obtain ⟨w,v,hw,rfl⟩ := hfirst.window hin
        have hblock : pre ++ (a ++ (w ++ v) ++ [0]) = pre ++ (a ++ w) ++ (v ++ [0]) := by
          simp only [List.append_assoc]
        have hnext : pre.length + a.length + findLen.toNat = (pre ++ (a ++ w)).length := by
          rw [← hw,List.length_append,List.length_append,Nat.add_assoc]
        rw [hblock,hnext] at h
        obtain ⟨ws,hws⟩ := ih (fun h0 => hu (List.mem_append_right a (List.mem_append_right w h0))) _ h
        exact ⟨w :: ws,.next hfirst hw hws⟩
      · refine absurd h (replaceSize_beyond hneedle ?_ _ _ _)
        rw [List.length_append,List.length_append,List.length_singleton]
        omega

end Counting

section Equal
variable {replaceLen : UInt16} (hneedle : Terminated g needle) (hr : r ≠ []) (htext : Supplies text replaceLen r)
include hneedle hr htext

theorem replaceEqual_beyond (hleft : b.length ≤ readFrom) : replaceEqual needle text replaceLen fuel b readFrom ≠ .ok b' := by
  intro hrun
  cases fuel with
  | zero => cases hrun
  | succ fuel =>
    rw [replaceEqual] at hrun
    obtain ⟨o,ho,hrun⟩ := bind_eq_ok hrun
    cases o with
    | none => exact absurd (search_inside hneedle ho) (Nat.not_lt.mpr hleft)
    | some n =>
      obtain ⟨c,hcopy,_⟩ := bind_eq_ok hrun
      have hroom := (memcpy_length hcopy).2
      have hpos := List.length_pos_iff.mpr hr
      rw [htext.length] at hroom
      omega

/-- Where every stretch already reads as the replacement nothing is changed. -/
theorem replaceEqual_windows (hu : 0 ∉ u) {ws : List (List UInt8)} (hws : Windows g r.length u ws) (hsame : ∀ w ∈ ws, w = r)
    (pre rest : List UInt8) (hfuel : u.length < fuel) :
    replaceEqual needle text replaceLen fuel (pre ++ (u ++ 0 :: rest)) pre.length = .ok (pre ++ (u ++ 0 :: rest)) := by
  induction hws generalizing pre fuel with
  | none hnone =>
    obtain ⟨fuel,rfl⟩ := Nat.exists_eq_add_one_of_ne_zero (Nat.ne_of_gt (Nat.lt_of_le_of_lt (Nat.zero_le _) hfuel))
    rw [replaceEqual,List.drop_left]
    rcases strstr_text hneedle ⟨hu,rest,rfl⟩ with ⟨hsearch,_⟩ | ⟨a,c,_,hfirst⟩
    · rw [hsearch]
      rfl
    · exact absurd hfirst.occurs hnone
  | @next a c w v ws hfirst hw _ ih =>
    obtain ⟨fuel,rfl⟩ := Nat.exists_eq_add_one_of_ne_zero (Nat.ne_of_gt (Nat.lt_of_le_of_lt (Nat.zero_le _) hfuel))
    obtain rfl : w = r := hsame w List.mem_cons_self
    rw [replaceEqual,List.drop_left]
    rcases strstr_text hneedle ⟨hu,rest,rfl⟩ with ⟨_,hnone⟩ | ⟨a',c',hsearch,hfirst'⟩
    · exact absurd hfirst.occurs hnone
    · obtain ⟨rfl,-⟩ := hfirst.unique hfirst'
      have hpos := List.length_pos_iff.mpr hr
      rw [List.length_append,List.length_append] at hfuel
      have hcopy := htext.memcpy (pre ++ a) hw (v ++ 0 :: rest)
      have hrest := ih (fun h0 => hu (List.mem_append_right a (List.mem_append_right w h0)))
        (fun x hx => hsame x (List.mem_cons_of_mem w hx)) (pre ++ (a ++ w)) (show v.length < fuel by omega)
      have hblock : pre ++ (a ++ (w ++ v) ++ 0 :: rest) = pre ++ a ++ (w ++ (v ++ 0 :: rest)) := by
        simp only [List.append_assoc]
      have hnext : pre.length + a.length + w.length = (pre ++ (a ++ w)).length := by
        rw [List.length_append,List.length_append,Nat.add_assoc]
      rw [hsearch]
      dsimp only [ok_bind]
      rw [hblock,← List.length_append,hcopy,ok_bind,htext.length,List.length_append,hnext]
      simpa only [List.append_assoc] using hrest

/-- In a block that just holds the text, the pass ends only if every stretch it replaces is in the text, and leaves
the text as it was only if every stretch read as the replacement. -/
theorem replaceEqual_windows_of_ok (hu : 0 ∉ u) (pre : List UInt8)
    (h : replaceEqual needle text replaceLen fuel (pre ++ (u ++ [0])) pre.length = .ok b') :
    pre <+: b' ∧ ∃ ws, Windows g r.length u ws ∧ (b' = pre ++ (u ++ [0]) → ∀ w ∈ ws, w = r) := by
  induction fuel generalizing u pre with
  | zero => cases h
  | succ fuel ih =>
    rw [replaceEqual,List.drop_left] at h
    rcases strstr_text hneedle ⟨hu,[],rfl⟩ with ⟨hsearch,hnone⟩ | ⟨a,c,hsearch,hfirst⟩
    · rw [hsearch] at h
      cases h
      exact ⟨List.prefix_append _ _,[],.none hnone,fun _ w hw => absurd hw List.not_mem_nil⟩
    · rw [hsearch] at h
      dsimp only [ok_bind] at h
      obtain ⟨d,hcopy,h⟩ := bind_eq_ok h
      obtain ⟨hlength,hroom⟩ := memcpy_length hcopy
      have hpos := List.length_pos_iff.mpr hr
      rw [htext.length] at hroom h
      rw [List.length_append,List.length_append,List.length_singleton] at hlength hroom
      by_cases hin : a.length + r.length ≤ u.length
      · obtain ⟨w,v,hw,rfl⟩ := hfirst.window hin
        have hcopy' := htext.memcpy (pre ++ a) hw (v ++ [0])
        have hblock : pre ++ (a ++ (w ++ v) ++ [0]) = pre ++ a ++ (w ++ (v ++ [0])) := by
          simp only [List.append_assoc]
        rw [hblock,← List.length_append,hcopy'] at hcopy
        cases hcopy
        have hnext : pre.length + a.length + r.length = (pre ++ (a ++ r)).length := by
          rw [List.length_append,List.length_append,Nat.add_assoc]
        have hblock' : pre ++ a ++ (r ++ (v ++ [0])) = pre ++ (a ++ r) ++ (v ++ [0]) := by
          simp only [List.append_assoc]
        rw [hnext,hblock'] at h
        obtain ⟨hpre,ws,hws,hsame⟩ := ih (fun h0 => hu (List.mem_append_right a (List.mem_append_right w h0))) _ h
        refine ⟨(List.prefix_append _ _).trans hpre,w :: ws,.next hfirst hw hws,?_⟩
        intro hb
        -- what stands before the place the search has come to is written no more
        have hwr : w = r := by
          rw [hb,hblock,← List.append_assoc pre a r,List.prefix_append_right_inj] at hpre
          exact ((List.prefix_of_prefix_length_le hpre (List.prefix_append _ _) (Nat.le_of_eq hw.symm)).eq_of_length
            hw.symm).symm
        subst hwr
        refine List.forall_mem_cons.mpr ⟨rfl,hsame ?_⟩
        rw [hb]
        simp only [List.append_assoc]
      · refine absurd h (replaceEqual_beyond hneedle hr htext ?_)
        rw [hlength]
        omega

end Equal

/-- The pass for a shorter text after `k` turns. -/
structure PassedTurns (findLen replaceLen diff : UInt16) (start : Pass) (k : Nat) (p : Pass) : Prop where
  begun : k = 0 → p = start
  len : p.len = start.len + UInt16.ofNat k * diff
  read : k * findLen.toNat ≤ p.readFrom
  written : k * replaceLen.toNat ≤ p.writeTo
  room : k * replaceLen.toNat ≤ start.block.length
  sized : p.block.length = start.block.length

theorem PassedTurns.next {findLen replaceLen diff : UInt16} {start p p' : Pass} {k : Nat}
    (h : PassedTurns findLen replaceLen diff start k p)
    (hturn : shorterTurn needle text findLen replaceLen diff p = .ok (some p')) :
    PassedTurns findLen replaceLen diff start (k + 1) p' := by
  obtain ⟨o,_,hturn⟩ := bind_eq_ok hturn
  cases o with
  | none => cases hturn
  | some n =>
    obtain ⟨c,hmove,hturn⟩ := bind_eq_ok hturn
    obtain ⟨d,hcopy,hturn⟩ := bind_eq_ok hturn
    cases hturn
    obtain ⟨hlength,hroom⟩ := memcpy_length hcopy
    have hsized := (memcpyWithin_length hmove).trans h.sized
    have hread := h.read
    have hwritten := h.written
    refine ⟨fun h0 => absurd h0 (Nat.succ_ne_zero k),?_,?_,?_,?_,hlength.trans hsized⟩
    · dsimp only
      rw [h.len,UInt16.ofNat_add,UInt16.add_mul,UInt16.add_assoc]
      rw [show UInt16.ofNat 1 = 1 from rfl,UInt16.one_mul]
    · rw [Nat.succ_mul]
      dsimp only
      omega
    · rw [Nat.succ_mul]
      dsimp only
      omega
    · rw [Nat.succ_mul]
      rw [hsized] at hroom
      rcases hroom with hzero | hroom
      · rw [hzero]
        exact Nat.zero_le _
      · omega

/-- A pass that ends has made as many turns as fit into the block, and at least one if there is something to find. -/
theorem replaceShorter_turns (hneedle : Terminated g needle) (hu : 0 ∉ u) (hin : g <:+: u) {rest : List UInt8}
    {findLen replaceLen diff len len' : UInt16}
    (h : replaceShorter needle text findLen replaceLen diff fuel (u ++ 0 :: rest) len 0 0 = .ok (b', len')) :
    ∃ k, 0 < k ∧ len' = len + UInt16.ofNat k * diff ∧ k * findLen.toNat < (u ++ 0 :: rest).length ∧
      k * replaceLen.toNat ≤ (u ++ 0 :: rest).length := by
  have hrun := replaceShorter_loop needle text findLen replaceLen diff fuel ⟨u ++ 0 :: rest,len,0,0⟩
  dsimp only at hrun
  rw [hrun] at h
  obtain ⟨p,hloop,h⟩ := bind_eq_ok h
  obtain ⟨c,_,h⟩ := bind_eq_ok h
  cases h
  have hstart : PassedTurns findLen replaceLen diff ⟨u ++ 0 :: rest,len,0,0⟩ 0 ⟨u ++ 0 :: rest,len,0,0⟩ :=
    ⟨fun _ => rfl,by simp,by simp,by simp,by simp,rfl⟩
  obtain ⟨⟨k,hk⟩,hend⟩ := loop_exit (I := fun p => ∃ k, PassedTurns findLen replaceLen diff ⟨u ++ 0 :: rest,len,0,0⟩ k p)
    (fun p p' ⟨k,hk⟩ hturn => ⟨k + 1,hk.next hturn⟩) ⟨0,hstart⟩ hloop
  obtain ⟨o,ho,hturn⟩ := bind_eq_ok hend
  cases o with
  | some n =>
    obtain ⟨c,_,hturn⟩ := bind_eq_ok hturn
    obtain ⟨d,_,hturn⟩ := bind_eq_ok hturn
    cases hturn
  | none =>
    have hleft := search_inside hneedle ho
    rw [hk.sized] at hleft
    refine ⟨k,Nat.pos_of_ne_zero ?_,hk.len,Nat.lt_of_le_of_lt hk.read hleft,hk.room⟩
    intro hzero
    rw [hk.begun hzero,List.drop_zero] at ho
    rcases strstr_text hneedle ⟨hu,rest,rfl⟩ with ⟨_,hnone⟩ | ⟨a,c,hsearch,_⟩
    · exact hnone hin
    · rw [hsearch] at ho
      cases ho

theorem len_diff {a b : UInt16} {m n : Nat} (ha : a.toNat = m) (hb : b.toNat = n) (hle : n ≤ m) :
    a - b = UInt16.ofNat (m - n) := by
  apply UInt16.toNat_inj.mp
  have hlt := a.toNat_lt
  rw [UInt16.toNat_sub_of_le _ _ (UInt16.le_iff_toNat_le.mpr (by omega)),UInt16.toNat_ofNat_of_lt' (show _ < 65536 by omega),ha,hb]

theorem len_diff_neg {a b : UInt16} {m n : Nat} (ha : a.toNat = m) (hb : b.toNat = n) (hle : m ≤ n) :
    a - b = -UInt16.ofNat (n - m) := by
  rw [← len_diff hb ha hle,UInt16.neg_sub]

/-- When adding the difference `k` times leaves the length as it was. -/
theorem add_turns_iff {len diff : UInt16} {k d : Nat} (hdiff : diff = UInt16.ofNat d ∨ diff = -UInt16.ofNat d) :
    len + UInt16.ofNat k * diff = len ↔ 65536 ∣ k * d := by
  have hzero : UInt16.ofNat (k * d) = 0 ↔ 65536 ∣ k * d := by
    rw [← UInt16.toNat_inj,UInt16.toNat_ofNat',UInt16.toNat_zero]
    exact (Nat.dvd_iff_mod_eq_zero).symm
  rw [← hzero,UInt16.ofNat_mul]
  have hcancel (x : UInt16) : len + x = len ↔ x = 0 := by
    rw [← UInt16.add_right_inj (a := x) (b := 0) len,UInt16.add_zero]
  rw [hcancel]
  rcases hdiff with rfl | rfl
  · exact Iff.rfl
  · rw [UInt16.mul_neg,← UInt16.neg_inj,UInt16.neg_neg,UInt16.neg_zero]

/-- It does not where all the differences together are less than what the type counts. -/
theorem add_turns_ne {len diff : UInt16} {k d : Nat} (hdiff : diff = UInt16.ofNat d ∨ diff = -UInt16.ofNat d)
    (hpos : 0 < k * d) (hlt : k * d < 65536) : len + UInt16.ofNat k * diff ≠ len :=
  fun hsame => Nat.not_dvd_of_pos_of_lt hpos hlt ((add_turns_iff hdiff).mp hsame)

/-! Whole calls. -/
section Calls
variable {s find replace : WString} {o : Option (List UInt8)} {h : Heap}

theorem Shows.supplies (h : replace.Shows o) : Supplies (replace.buffer.getD []) replace.len (o.getD []) := by
  cases h with
  | invalid => exact ⟨rfl,List.prefix_rfl⟩
  | valid length allocated size => exact ⟨length,List.prefix_append _ _⟩

theorem Shows.block (h : find.Shows (some f)) : ∃ rest, find.buffer = some (f ++ 0 :: rest) ∧
    (f ++ 0 :: rest).length = find.capacity.toNat + 1 ∧ find.capacity.toNat + 1 < 65536 := by
  cases h with
  | valid length allocated size => exact ⟨_,rfl,allocated,size⟩

theorem replace_empty (hs : s.Holds (some [])) (hf : f ≠ []) (r : List UInt8) :
    s.replace find replace h = .ok s h ∧ s.Shows (some (substitute f r [])) := by
  have hlen : s.len = 0 := UInt16.toNat_inj.mp hs.len_toNat
  constructor
  · rw [WString.replace,if_pos (.inl hlen)]
    rfl
  · rw [substitute_none fun hin => hf (List.infix_nil.mp hin)]
    exact hs.shows

theorem replaceShorter_absent (hneedle : Terminated g needle) (hu : 0 ∉ u) (hnone : ¬ g <:+: u)
    (rest : List UInt8) (findLen replaceLen diff len : UInt16) (fuel : Nat) :
    replaceShorter needle text findLen replaceLen diff (fuel + 1) (u ++ 0 :: rest) len 0 0 = .ok (u ++ 0 :: rest, len) := by
  rw [replaceShorter,List.drop_zero]
  rcases strstr_text hneedle ⟨hu,rest,rfl⟩ with ⟨hsearch,_⟩ | ⟨a,c,_,hfirst⟩
  · have hcopy := strcpyWithin_down hu [] [] rest (show u.length < (u ++ 0 :: rest).length + 1 by
      rw [List.length_append]
      omega)
    have hdrop : (u ++ 0 :: rest).drop (u.length + 1) = rest := by
      rw [← List.drop_drop,List.drop_left]
      rfl
    simp only [List.nil_append,List.length_nil,Nat.add_zero,hdrop] at hcopy
    rw [hsearch]
    dsimp only [ok_bind]
    rw [hcopy]
    rfl
  · exact absurd hfirst.occurs hnone

theorem Shows.terminated (h : find.Shows (some f)) (hnul : 0 ∈ f) : ∃ needle, find.buffer = some needle ∧
    Terminated (sought f) needle := by
  obtain ⟨rest,hb,_⟩ := h.block
  obtain ⟨hclean,y,hsplit⟩ := terminated_takeWhile hnul
  refine ⟨_,hb,hclean,y ++ 0 :: rest,?_⟩
  nth_rewrite 1 [hsplit]
  rw [List.append_assoc]
  rfl

theorem nul_absent (hnul : 0 ∈ f) (hu : 0 ∉ u) : ¬ f <:+: u := fun hin => hu (hin.subset hnul)

section Found
variable (hs : s.Holds (some u)) (hb' : find.buffer = some needle) (hneedle : Terminated g needle) (hf : find.len ≠ 0)
include hs hb' hneedle hf

theorem replace_unfound (hnone : ¬ g <:+: u) (replace : WString) (h : Heap) : s.replace find replace h = .ok s h := by
  by_cases hempty : u = []
  · subst hempty
    exact (replace_empty hs (List.cons_ne_nil 1 []) []).1
  obtain ⟨hu,_,rest,hb,_⟩ := hs.block
  have hs0 := len_ne_zero hs.len_toNat hempty
  have hpos : 0 < find.len.toNat := Nat.pos_of_ne_zero fun h0 => hf (UInt16.toNat_inj.mp h0)
  have hsame : ({s with buffer := some (u ++ 0 :: rest)} : WString) = s := by rw [← hb]
  by_cases heq : (replace.len - find.len).toInt16 = 0
  · have hrun : replaceEqual needle (replace.buffer.getD []) replace.len ((u ++ 0 :: rest).length + 1) (u ++ 0 :: rest) 0 =
        .ok (u ++ 0 :: rest) := by
      rw [replaceEqual,List.drop_zero]
      rcases strstr_text hneedle ⟨hu,rest,rfl⟩ with ⟨hsearch,_⟩ | ⟨a,c,_,hfirst⟩
      · rw [hsearch]
        rfl
      · exact absurd hfirst.occurs hnone
    rw [replace_equal hb hb' hs0 hf replace heq,check_bind hrun,hsame]
    rfl
  · by_cases hneg : (replace.len - find.len).toInt16 < 0
    · rw [replace_shorter hb hb' hs0 hf replace hneg,check_bind (replaceShorter_absent hneedle hu hnone rest _ _ _ _ _)]
      dsimp only
      rw [hsame]
      rfl
    · have hcount := replaceSize_block hneedle hpos hu (.none hnone) rest (replace.len - find.len) s.len
      rw [replace_longer hb hb' hs0 hf replace hneg heq,check_bind hcount,if_pos (by simp)]
      rfl

end Found
end Calls

end WString
end ArduinoAT90USB.Core
