import ArduinoAT90USB.Core.WStringNul

/-! `replace` by a text that is not longer is substitution, unless the difference of the lengths
is too large for an `int`. -/
namespace ArduinoAT90USB.Core
open Foundation Foundation.Memory Foundation.CString Foundation.TaskLogic Foundation.Substitution
  Foundation.Loop Foundation.AvrInt

namespace WString

/-- Whenever the loops search on, they find the rest of the block as it was before the call. -/
structure KeepsUnread (s find replace : WString) : Prop where
  equal : ∀ b needle, s.buffer = some b → find.buffer = some needle → replace.len = find.len → ∀ p,
    Reached (equalTurn needle (replace.buffer.getD []) replace.len) (b, 0) p → p.1.drop p.2 = b.drop p.2
  shorter : ∀ b needle, s.buffer = some b → find.buffer = some needle → replace.len < find.len → ∀ p,
    Reached (shorterTurn needle (replace.buffer.getD []) find.len replace.len (replace.len - find.len)) ⟨b,s.len,0,0⟩ p →
      p.block.drop p.readFrom = b.drop p.readFrom

/-- In every String with the text `u`, every String with the text `f` is replaced by one with the contents `o`. -/
def Replaces (u f : List UInt8) (o : Option (List UInt8)) : Prop := ∀ (s find replace : WString) (h : Heap),
  s.Holds (some u) → find.Shows (some f) → replace.Shows o → ∃ s', s.replace find replace h = .ok s' h ∧
    s'.Shows (some (substitute f (o.getD []) u)) ∧ s.KeepsUnread find replace

variable {s find replace : WString} {u f : List UInt8} {o : Option (List UInt8)}

/-- The loops write only below the place they search on from. -/
theorem keepsUnread (s find replace : WString) : s.KeepsUnread find replace := by
  constructor
  · intro b needle _ _ _ p hreached
    refine hreached.kept (I := fun p => p.1.drop p.2 = b.drop p.2) ?_ rfl
    intro p p' hp hturn
    obtain ⟨o,_,hturn⟩ := bind_eq_ok hturn
    cases o with
    | none => cases hturn
    | some n =>
      obtain ⟨c,hcopy,hturn⟩ := bind_eq_ok hturn
      cases hturn
      dsimp only
      rw [memcpy_drop hcopy (Nat.le_refl _),Nat.add_assoc,← List.drop_drop,hp,List.drop_drop]
  · intro b needle _ _ hlt p hreached
    have hshort := UInt16.lt_iff_toNat_lt.mp hlt
    refine (hreached.kept (I := fun p : Pass => p.writeTo ≤ p.readFrom ∧ p.block.drop p.readFrom = b.drop p.readFrom) ?_
      ⟨Nat.le_refl 0,rfl⟩).2
    rintro p p' ⟨hle,hp⟩ hturn
    obtain ⟨o,_,hturn⟩ := bind_eq_ok hturn
    cases o with
    | none => cases hturn
    | some n =>
      obtain ⟨c,hmove,hturn⟩ := bind_eq_ok hturn
      obtain ⟨d,hcopy,hturn⟩ := bind_eq_ok hturn
      cases hturn
      dsimp only
      refine ⟨by omega,?_⟩
      rw [memcpy_drop hcopy (by omega),memcpyWithin_drop hmove (by omega),Nat.add_assoc,← List.drop_drop,hp,List.drop_drop]

section Result
variable {h : Heap}

theorem replace_substitutes (hs : s.Holds (some u)) (hfind : find.Shows (some f)) (hclean : 0 ∉ f) (hf : f ≠ [])
    (hreplace : replace.Shows o) (hle : (o.getD []).length ≤ f.length) (hdiff : f.length ≤ (o.getD []).length + 32768)
    (h : Heap) : ∃ s', s.replace find replace h = .ok s' h ∧ s'.Shows (some (substitute f (o.getD []) u)) := by
  by_cases hempty : u = []
  · subst hempty
    exact ⟨s,replace_empty hs hf _⟩
  obtain ⟨hu,hsize,rest,hb,hblock⟩ := hs.block
  obtain ⟨frest,hneedle,_⟩ := hfind.block
  have hlen : s.len.toNat = u.length := hs.len_toNat
  have hflen : find.len.toNat = f.length := hfind.len_toNat
  have hrlen := hreplace.len_toNat
  have hs0 := len_ne_zero hlen hempty
  have hf0 := len_ne_zero hflen hf
  have hfuel : u.length < (u ++ 0 :: rest).length + 1 := by
    rw [List.length_append]
    omega
  by_cases heq : (o.getD []).length = f.length
  · have hsame : replace.len = find.len := UInt16.toNat_inj.mp (hrlen.trans (heq.trans hflen.symm))
    have hrun := replaceEqual_substitutes ⟨hclean,frest,rfl⟩ hf hu hreplace.supplies heq rest hfuel
    have hlength := substitute_length hf (o.getD []) u
    refine ⟨⟨some (substitute f (o.getD []) u ++ 0 :: rest),s.capacity,s.len⟩,?_,.valid ?_ ?_ hsize⟩
    · rw [replace_equal hb hneedle hs0 hf0 replace ((sub_toInt16_eq_zero_iff _ _).mpr hsame),check_bind hrun]
      rfl
    · rw [hlen]
      rw [heq] at hlength
      omega
    · rw [List.length_append] at hblock ⊢
      rw [heq] at hlength
      omega
  · have hneg : (replace.len - find.len).toInt16 < 0 := by
      rw [sub_toInt16_neg_iff]
      omega
    obtain ⟨rest',len',hrun,hlen',hlength⟩ :=
      replaceShorter_substitutes ⟨hclean,frest,rfl⟩ hf hu hreplace.supplies hflen hle rest hlen hfuel
    refine ⟨⟨some (substitute f (o.getD []) u ++ 0 :: rest'),s.capacity,len'⟩,?_,.valid hlen' (hlength.trans hblock) hsize⟩
    rw [replace_shorter hb hneedle hs0 hf0 replace hneg,check_bind hrun]
    rfl

end Result

/-- The String of the contents `o` in a block that just holds them. -/
private def exactlyContents : Option (List UInt8) → WString
  | none => ⟨none,0,0⟩
  | some r => exactly r

private theorem exactlyContents_shows (ho : (o.getD []).length < 65535) : (exactlyContents o).Shows o := by
  cases o with
  | none => exact .invalid
  | some r => exact exactly_shows ho

/-- A difference of more than 32768 makes the shorter text look longer, and then nothing is replaced. -/
private theorem not_replaces_wrapped (hu : 0 ∉ u) (hulen : u.length < 65535) (hf : f ≠ []) (hflen : f.length < 65535)
    (hdiff : (o.getD []).length + 32768 < f.length) (hin : f <:+: u) : ¬ Replaces u f o := by
  intro hall
  have hlong := hin.length_le
  have hrshows := exactlyContents_shows (o := o) (by omega)
  have hholds := exactly_holds hu hulen
  obtain ⟨s',hrun,hshows,_⟩ := hall (exactly u) (exactly f) (exactlyContents o) onesHeap hholds (exactly_shows hflen) hrshows
  have hlen : (exactly u).len.toNat = u.length := toNat_length hulen
  have hflen' : (exactly f).len.toNat = f.length := toNat_length hflen
  have hrlen := hrshows.len_toNat
  have hpos : ¬ ((exactlyContents o).len - (exactly f).len).toInt16 < 0 := by
    rw [sub_toInt16_neg_iff]
    omega
  have hne : ¬ ((exactlyContents o).len - (exactly f).len).toInt16 = 0 := by
    rw [sub_toInt16_eq_zero_iff,← UInt16.toNat_inj]
    omega
  have hsame := replace_longer_idle rfl rfl (len_ne_zero hflen' hf) hpos hne (by omega) hrun
  have hlen' := hshows.len_toNat
  rw [hsame,hlen,Option.getD_some] at hlen'
  have hcount := substitute_length hf (o.getD []) u
  have hmore := Nat.mul_lt_mul_of_pos_left (show (o.getD []).length < f.length by omega) (count_pos hf hin)
  omega

section NulInPattern
variable (hu : 0 ∉ u) (hnul : 0 ∈ f)
include hu hnul

/-- What a call that is right does to a pattern with a NUL in it. -/
private theorem windows_of_replaces (hulen : u.length < 65535) (hflen : f.length < 65535)
    (hle : (o.getD []).length ≤ f.length) (hne : u ≠ []) (hall : Replaces u f o) :
    ∃ ws, Windows (sought f) f.length u ws ∧ ((∀ w ∈ ws, w = o.getD []) ∨ (o.getD []).length + 32768 < f.length) := by
  have hf := List.ne_nil_of_mem hnul
  have hfind := exactly_shows hflen
  have hrshows := exactlyContents_shows (o := o) (by omega)
  obtain ⟨needle,hb',hneedle⟩ := hfind.terminated hnul
  cases hb'
  have hlen : (exactly u).len.toNat = u.length := toNat_length hulen
  have hflen' : (exactly f).len.toNat = f.length := toNat_length hflen
  have hrlen := hrshows.len_toNat
  have hs0 := len_ne_zero hlen hne
  have hf0 := len_ne_zero hflen' hf
  by_cases hin : sought f <:+: u
  · obtain ⟨s',hrun,hshows,_⟩ := hall (exactly u) (exactly f) (exactlyContents o) onesHeap (exactly_holds hu hulen) hfind hrshows
    rw [substitute_none (nul_absent hnul hu)] at hshows
    have hlen' : s'.len = (exactly u).len := UInt16.toNat_inj.mp (hshows.len_toNat.trans hlen.symm)
    by_cases heq : ((exactlyContents o).len - (exactly f).len).toInt16 = 0
    · have hsame := (sub_toInt16_eq_zero_iff _ _).mp heq
      rw [replace_equal rfl rfl hs0 hf0 _ heq] at hrun
      obtain ⟨b,hb,hend⟩ := check_bind_eq_ok hrun
      cases hend
      obtain ⟨rest,hblock,hsize,_⟩ := hshows.block
      have hrest : rest = [] := by
        have hcap : (exactly u).capacity.toNat = u.length := toNat_length hulen
        rw [List.length_append,List.length_cons] at hsize
        change u.length + (rest.length + 1) = (exactly u).capacity.toNat + 1 at hsize
        exact List.length_eq_zero_iff.mp (by omega)
      rw [hrest] at hblock
      have hr : o.getD [] ≠ [] := by
        rintro hnil
        rw [hnil] at hrlen
        rw [hsame,hflen'] at hrlen
        exact hf (List.length_eq_zero_iff.mp hrlen)
      obtain ⟨-,ws,hws,hsame'⟩ := replaceEqual_windows_of_ok hneedle hr hrshows.supplies hu [] hb
      rw [← hrlen,hsame,hflen'] at hws
      exact ⟨ws,hws,.inl (hsame' (Option.some.inj hblock))⟩
    · by_cases hneg : ((exactlyContents o).len - (exactly f).len).toInt16 < 0
      · rw [replace_shorter rfl rfl hs0 hf0 _ hneg] at hrun
        obtain ⟨⟨b,len⟩,hb,hend⟩ := check_bind_eq_ok hrun
        cases hend
        obtain ⟨k,hk,hlen'',hread,_⟩ := replaceShorter_turns hneedle hu hin hb
        have hless : (o.getD []).length < f.length := by
          rw [sub_toInt16_eq_zero_iff,← UInt16.toNat_inj] at heq
          omega
        rw [List.length_append,List.length_singleton,hflen'] at hread
        have hmul : k * (f.length - (o.getD []).length) ≤ k * f.length := Nat.mul_le_mul_left k (Nat.sub_le _ _)
        exact absurd (hlen''.symm.trans hlen')
          (add_turns_ne (.inr (len_diff_neg hrlen hflen' hle)) (Nat.mul_pos hk (by omega)) (by omega))
      · rw [replace_longer rfl rfl hs0 hf0 _ hneg heq] at hrun
        obtain ⟨size,hsize,_⟩ := check_bind_eq_ok hrun
        obtain ⟨ws,hws⟩ := replaceSize_windows_of_ok hneedle hu [] hsize
        rw [hflen'] at hws
        refine ⟨ws,hws,.inr ?_⟩
        rw [sub_toInt16_neg_iff] at hneg
        rw [sub_toInt16_eq_zero_iff,← UInt16.toNat_inj] at heq
        omega
  · exact ⟨[],.none hin,.inl fun w hw => absurd hw List.not_mem_nil⟩

private theorem replace_windows (hs : s.Holds (some u)) (hfind : find.Shows (some f)) (hreplace : replace.Shows o)
    {ws : List (List UInt8)} (hws : Windows (sought f) f.length u ws)
    (hok : (∀ w ∈ ws, w = o.getD []) ∨ (o.getD []).length + 32768 < f.length) (h : Heap) :
    s.replace find replace h = .ok s h := by
  have hf := List.ne_nil_of_mem hnul
  obtain ⟨needle,hb',hneedle⟩ := hfind.terminated hnul
  have hflen' : find.len.toNat = f.length := hfind.len_toNat
  have hrlen := hreplace.len_toNat
  have hf0 := len_ne_zero hflen' hf
  by_cases hnil : ws = []
  · exact replace_unfound hs hb' hneedle hf0 (hws.eq_nil_iff.mp hnil) replace h
  have hin : sought f <:+: u := Classical.not_not.mp (mt hws.eq_nil_iff.mpr hnil)
  obtain ⟨-,_,rest,hb,hblock⟩ := hs.block
  have hlen : s.len.toNat = u.length := hs.len_toNat
  have hmany := hws.length_le
  have hpos := List.length_pos_iff.mpr hf
  have hcount := List.length_pos_iff.mpr hnil
  have hone : f.length ≤ ws.length * f.length := Nat.le_mul_of_pos_left _ hcount
  have hs0 : s.len ≠ 0 := len_ne_zero hlen (List.ne_nil_of_length_pos (by omega))
  rcases hok with hsame | hdiff
  · obtain ⟨w,hw⟩ := List.exists_mem_of_ne_nil ws hnil
    have hlength : (o.getD []).length = f.length := by
      rw [← hsame w hw]
      exact hws.lengths w hw
    have hequal : (replace.len - find.len).toInt16 = 0 := by
      rw [sub_toInt16_eq_zero_iff,← UInt16.toNat_inj]
      omega
    have hr : o.getD [] ≠ [] := List.ne_nil_of_length_pos (by omega)
    rw [← hlength] at hws
    have hrun : replaceEqual needle (replace.buffer.getD []) replace.len ((u ++ 0 :: rest).length + 1) (u ++ 0 :: rest) 0 =
        .ok (u ++ 0 :: rest) :=
      replaceEqual_windows hneedle hr hreplace.supplies hu hws hsame [] rest (by rw [List.length_append]; omega)
    rw [replace_equal hb hb' hs0 hf0 replace hequal,check_bind hrun,← hb]
    rfl
  · -- the counted size is smaller, and the loop for a longer text does nothing in a text as long as this
    have hcounted := replaceSize_block hneedle (hflen' ▸ hpos) hu (hflen' ▸ hws) rest (replace.len - find.len) s.len
    have hsize : s.len + UInt16.ofNat ws.length * (replace.len - find.len) ≤ s.capacity := by
      have hlt := s.len.toNat_lt
      have hmul : ws.length * (f.length - (o.getD []).length) ≤ ws.length * f.length := Nat.mul_le_mul_left _ (Nat.sub_le _ _)
      have hall : (UInt16.ofNat (ws.length * (f.length - (o.getD []).length))).toNat =
          ws.length * (f.length - (o.getD []).length) := UInt16.toNat_ofNat_of_lt' (show _ < 65536 by omega)
      rw [len_diff_neg hrlen hflen' (by omega),UInt16.mul_neg,← UInt16.ofNat_mul,← UInt16.sub_eq_add_neg,UInt16.le_iff_toNat_le,
        UInt16.toNat_sub_of_le _ _ (UInt16.le_iff_toNat_le.mpr (by omega))]
      rw [List.length_append,List.length_cons] at hblock
      omega
    have hneg : ¬ (replace.len - find.len).toInt16 < 0 := by
      rw [sub_toInt16_neg_iff]
      omega
    have hne : ¬ (replace.len - find.len).toInt16 = 0 := by
      rw [sub_toInt16_eq_zero_iff,← UInt16.toNat_inj]
      omega
    have hindex : (s.len - 1).toInt16 < 0 := last_index_neg (by omega)
    rw [replace_longer hb hb' hs0 hf0 replace hneg hne,check_bind hcounted]
    split
    · rfl
    · rw [grow,if_neg (UInt16.not_lt.mpr hsize)]
      change (check (find.replaceLonger _ _ _ _ s (s.len - 1).toInt16) : Alloc WString) h = _
      rw [replaceLonger,if_pos hindex]
      rfl

end NulInPattern

end WString
end ArduinoAT90USB.Core
