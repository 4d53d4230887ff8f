import ArduinoAT90USB.Core.WStringBackward

/-! When `replace` by a longer text is substitution: the sizes have to fit into the C types, and
the search from the right must come upon the matches that were counted from the left. -/
namespace ArduinoAT90USB.Core
open Foundation Foundation.Memory Foundation.CString Foundation.TaskLogic Foundation.Substitution
  Foundation.Loop Foundation.AvrInt

namespace WString

/-- The call leaves the text `w`, with as many characters as were counted, and replaces nothing twice. -/
structure Enlarges (s find replace : WString) (w : List UInt8) (h : Heap) (s' : WString) (h' : Heap) : Prop where
  run : s.replace find replace h = .ok s' h'
  shows : s'.Shows (some w)
  counted : s.len ≠ 0 → ∀ b needle, s.buffer = some b → find.buffer = some needle →
    replaceSize needle b find.len (replace.len - find.len) (b.length + 1) 0 s.len = .ok s'.len
  once : s'.len ≠ s.len → ∀ grown h₁, s.grow s'.len h = .ok (true, grown) h₁ →
    NeverAgain find (replace.buffer.getD []) replace.len (replace.len - find.len) (grown, (grown.len - 1).toInt16)

/-- In every String with the text `u`, every String with the text `f` is replaced by one with the longer text `r`, if
no request is refused. -/
def ReplacesLonger (u f r : List UInt8) : Prop := ∀ (s find replace : WString) (h : Heap), s.Holds (some u) →
  find.Shows (some f) → replace.Shows (some r) → Ample h →
    ∃ s' h', s.Enlarges find replace (substitute f r u) h s' h'

variable {s find replace : WString} {u f r : List UInt8} {h : Heap}

theorem Shows.unique {s : WString} {t t' : List UInt8} (h : s.Shows (some t)) (h' : s.Shows (some t')) : t = t' := by
  obtain ⟨rest,hb,_⟩ := h.block
  obtain ⟨rest',hb',_⟩ := h'.block
  have hlen : t.length = t'.length := h.len_toNat.symm.trans h'.len_toNat
  exact (List.append_inj (Option.some.inj (hb.symm.trans hb')) hlen).1

theorem Shows.length_le {s : WString} {t : List UInt8} (h : s.Shows (some t)) :
    t.length ≤ s.capacity.toNat ∧ s.capacity.toNat < 65535 := by
  obtain ⟨rest,_,hblock,hsize⟩ := h.block
  rw [List.length_append,List.length_cons] at hblock
  omega

/-- A longer text in every place makes a longer text. -/
theorem substitute_longer (hf : f ≠ []) (hlt : f.length < r.length) (hin : f <:+: u) :
    u.length < (substitute f r u).length := by
  have hlength := substitute_length hf r u
  have hmore := Nat.mul_lt_mul_of_pos_left hlt (count_pos hf hin)
  omega

/-- The counting pass finds the size of the result, as far as it is a size there is. -/
theorem counted_size {len findLen replaceLen : UInt16} (hlen : len.toNat = u.length) (hflen : findLen.toNat = f.length)
    (hrlen : replaceLen.toNat = r.length) (hf : f ≠ []) (hlt : f.length < r.length)
    (hsize : (substitute f r u).length < 65535) :
    (len + UInt16.ofNat (count f u) * (replaceLen - findLen)).toNat = (substitute f r u).length := by
  have hlength := substitute_length hf r u
  have hdiff : (replaceLen - findLen).toNat = r.length - f.length := by
    have := replaceLen.toNat_lt
    rw [UInt16.toNat_sub]
    omega
  have hsum : (substitute f r u).length = u.length + count f u * (r.length - f.length) := by
    rw [Nat.mul_sub]
    have := Nat.mul_le_mul_left (count f u) (Nat.le_of_lt hlt)
    omega
  rw [UInt16.toNat_add,UInt16.toNat_mul,UInt16.toNat_ofNat',hdiff,hlen,Nat.mod_mul_mod,Nat.add_mod_mod,← hsum]
  exact Nat.mod_eq_of_lt (by omega)

theorem grow_keeps (hs : s.Holds (some u)) {size : UInt16} (hle : u.length ≤ size.toNat) (hsize : size.toNat < 65535)
    (hh : Ample h) : ∃ grown h₁, s.grow size h = .ok (true, grown) h₁ ∧ grown.Holds (some u) ∧
      size.toNat ≤ grown.capacity.toNat := by
  rw [grow]
  by_cases hmore : size > s.capacity
  · rw [if_pos hmore]
    obtain ⟨fresh,hout⟩ := Option.isSome_iff_exists.mp (hh h.calls)
    obtain ⟨hu,_,rest,hb,_⟩ := hs.block
    have hnext : (size + 1).toNat = size.toNat + 1 := toNat_next (by omega)
    have hfits : (u ++ [0]).length ≤ (size + 1).toNat := by
      rw [List.length_append,List.length_singleton]
      omega
    obtain ⟨rest',hblock,hlength⟩ := resize_append (u ++ [0]) rest hfits fresh
    rw [List.append_assoc,List.append_assoc,List.singleton_append,List.singleton_append] at hblock
    refine ⟨⟨some (u ++ 0 :: rest'),size,s.len⟩,h.called,?_,.valid hu hs.len_toNat ?_ (by omega),Nat.le_refl _⟩
    · rw [changeBuffer_granted hout,hb,Option.getD_some,hblock]
    · rw [List.length_append,List.length_singleton] at hlength
      rw [List.length_append,List.length_cons]
      omega
  · rw [if_neg hmore]
    exact ⟨s,h,rfl,hs,UInt16.le_iff_toNat_le.mp (UInt16.not_lt.mp hmore)⟩

theorem growing_start {grown : WString} (hs : grown.Holds (some u)) (hsmall : u.length ≤ 32768) :
    Stage f u [] [] grown.capacity (grown, (grown.len - 1).toInt16) := by
  refine ⟨?_,rfl,hs.block.1,hsmall,?_,.inl rfl⟩
  · rw [List.append_nil]
    exact hs.shows
  · have hlen : grown.len = UInt16.ofNat u.length := eq_ofNat hs.len_toNat
    dsimp only
    rw [hlen,UInt16.toInt16_sub,UInt16.toInt16_ofNat']
    rfl

section Result
variable (hs : s.Holds (some u)) (hfind : find.Shows (some f)) (hclean : 0 ∉ f) (hf : f ≠ [])
  (hreplace : replace.Shows (some r)) (hlt : f.length < r.length)

include hfind hreplace hlt in
private theorem longer_positive (hdiff : r.length < f.length + 32768) :
    ¬ (replace.len - find.len).toInt16 < 0 ∧ ¬ (replace.len - find.len).toInt16 = 0 := by
  have hflen : find.len.toNat = f.length := hfind.len_toNat
  have hrlen : replace.len.toNat = r.length := hreplace.len_toNat
  rw [sub_toInt16_neg_iff,sub_toInt16_eq_zero_iff,← UInt16.toNat_inj]
  omega

include hs hfind hclean hf hreplace hlt

private theorem replaceSize_counted {b needle : Block} (hb : s.buffer = some b) (hneedle : find.buffer = some needle)
    (hsize : (substitute f r u).length < 65535) : ∃ size : UInt16, size.toNat = (substitute f r u).length ∧
      replaceSize needle b find.len (replace.len - find.len) (b.length + 1) 0 s.len = .ok size := by
  obtain ⟨hu,_,rest,hb',_⟩ := hs.block
  obtain ⟨frest,hneedle',_⟩ := hfind.block
  cases hb.symm.trans hb'
  cases hneedle.symm.trans hneedle'
  have hflen : find.len.toNat = f.length := hfind.len_toNat
  exact ⟨_,counted_size hs.len_toNat hflen hreplace.len_toNat hf hlt hsize,
    replaceSize_text ⟨hclean,frest,rfl⟩ hf hflen hu rest _ _⟩

/-- Both searches come upon the same matches, and all sizes fit. -/
theorem enlarges_apart (hin : f <:+: u) (hdiff : r.length < f.length + 32768) (hsmall : u.length ≤ 32768)
    (hsize : (substitute f r u).length < 65535) (hapart : Apart f r [] [] (pieces f 0 u)) (hh : Ample h) :
    ∃ s' h', s.Enlarges find replace (substitute f r u) h s' h' := by
  obtain ⟨hu,_,rest,hb,hblock⟩ := hs.block
  obtain ⟨frest,hneedle,_⟩ := hfind.block
  have hlen : s.len.toNat = u.length := hs.len_toNat
  have hmore := substitute_longer hf hlt hin
  obtain ⟨hpos,hne⟩ := longer_positive hfind hreplace hlt hdiff
  obtain ⟨size,hsize',hcount⟩ := replaceSize_counted hs hfind hclean hf hreplace hlt hb hneedle hsize
  obtain ⟨grown,h₁,hgrow,hholds,hroom⟩ := grow_keeps hs (show u.length ≤ size.toNat by omega) (by omega) hh
  have hstage := growing_start (f := f) hholds hsmall
  have hgrowing : Growing f r (substitute f r u) grown.capacity (grown, (grown.len - 1).toInt16) := by
    refine .intro (pieces f 0 u) [] [] ?_ (pieces_ne_nil f 0 u) hapart (List.append_nil _) (by omega)
    rw [intercalate_pieces hf]
    exact hstage
  have hfuel : ((grown.len - 1).toInt16.toInt + 1).toNat < (u ++ 0 :: rest).length + 1 := by
    have hindex := hstage.index_toInt
    dsimp only at hindex
    rw [hindex,List.length_append]
    omega
  obtain ⟨⟨s',hrun,hshows⟩,hnever⟩ := replaceLonger_growing hfind hclean hf hreplace.supplies hlt hgrowing hfuel
  have hsame : s'.len = size := UInt16.toNat_inj.mp (hshows.len_toNat.trans hsize'.symm)
  have hchanged : ¬ size = s.len := by
    rintro rfl
    omega
  refine ⟨s',h₁,?_,hshows,?_,?_⟩
  · rw [replace_longer hb hneedle (len_ne_zero hlen (hin.ne_nil hf)) (len_ne_zero hfind.len_toNat hf) replace hpos hne,
      check_bind hcount,if_neg hchanged,bind_ok hgrow]
    exact check_ok hrun
  · intro _ b' needle' hb' hneedle'
    cases hb.symm.trans hb'
    cases hneedle.symm.trans hneedle'
    rw [hsame]
    exact hcount
  · intro _ grown' h₁' hgrow'
    rw [hsame,hgrow] at hgrow'
    cases hgrow'
    exact hnever

end Result

/-- A text in which `strstr` finds nothing is left alone, and so are the size and the heap. -/
theorem enlarges_unfound {g needle : List UInt8} (hs : s.Holds (some u)) (hb' : find.buffer = some needle)
    (hneedle : Terminated g needle) (hf : find.len ≠ 0) (hnone : ¬ g <:+: u) (replace : WString) (h : Heap) :
    s.Enlarges find replace u h s h := by
  obtain ⟨hu,_,rest,hb,_⟩ := hs.block
  refine ⟨replace_unfound hs hb' hneedle hf hnone replace h,hs.shows,?_,fun hne => absurd rfl hne⟩
  intro _ b needle' hblock hneedle'
  cases hb.symm.trans hblock
  cases hb'.symm.trans hneedle'
  rw [replaceSize_block hneedle (Nat.pos_of_ne_zero fun h0 => hf (UInt16.toNat_inj.mp h0)) hu (.none hnone)]
  exact congrArg Except.ok (by simp)

/-! What the call needs, seen on Strings in blocks that just hold them. -/
section Needed
variable {s' : WString} {h' : Heap} (hu : 0 ∉ u) (hulen : u.length < 65535) (hclean : 0 ∉ f) (hf : f ≠ [])
  (hrlen : r.length < 65535) (hlt : f.length < r.length) (hin : f <:+: u)
  (henl : (exactly u).Enlarges (exactly f) (exactly r) (substitute f r u) h s' h')

include hulen hf hrlen hlt hin henl

private theorem enlarges_diff : r.length < f.length + 32768 := by
  apply Classical.byContradiction
  intro hdiff
  have hlen : (exactly u).len.toNat = u.length := toNat_length hulen
  have hflen : (exactly f).len.toNat = f.length := toNat_length (by omega)
  have hrlen' : (exactly r).len.toNat = r.length := toNat_length hrlen
  have hneg : ((exactly r).len - (exactly f).len).toInt16 < 0 := by
    rw [sub_toInt16_neg_iff]
    omega
  have hrun := henl.run
  rw [replace_shorter rfl rfl (len_ne_zero hlen (hin.ne_nil hf)) (len_ne_zero hflen hf) _ hneg] at hrun
  obtain ⟨⟨b,len⟩,_,hrun⟩ := check_bind_eq_ok hrun
  cases hrun
  have hfits : (substitute f r u).length ≤ (exactly u).len.toNat := henl.shows.length_le.1
  have hmore := substitute_longer hf hlt hin
  omega

private theorem enlarges_small : u.length ≤ 32768 := by
  apply Classical.byContradiction
  intro hlong
  have hlen : (exactly u).len.toNat = u.length := toNat_length hulen
  have hflen : (exactly f).len.toNat = f.length := toNat_length (by omega)
  have hdiff := enlarges_diff hulen hf hrlen hlt hin henl
  obtain ⟨hpos,hne⟩ := longer_positive (exactly_shows (by omega)) (exactly_shows hrlen) hlt hdiff
  have hsame := replace_longer_idle rfl rfl (len_ne_zero hflen hf) hpos hne (by omega) henl.run
  have hlen' := henl.shows.len_toNat
  have hmore := substitute_longer hf hlt hin
  rw [hsame,hlen,Option.getD_some] at hlen'
  omega

include hu hclean

private theorem enlarges_pieces (hh : Ample h) : Apart f r [] [] (pieces f 0 u) := by
  have hlen : (exactly u).len.toNat = u.length := toNat_length hulen
  have hflen : (exactly f).len.toNat = f.length := toNat_length (by omega)
  have hfind : (exactly f).Shows (some f) := exactly_shows (by omega)
  have hreplace : (exactly r).Shows (some r) := exactly_shows hrlen
  have hmore := substitute_longer hf hlt hin
  have hsize := henl.shows.length_le
  have hlen' : s'.len.toNat = (substitute f r u).length := henl.shows.len_toNat
  obtain ⟨hpos,hne⟩ := longer_positive hfind hreplace hlt (enlarges_diff hulen hf hrlen hlt hin henl)
  obtain ⟨grown,h₁,hgrow,hholds,_⟩ := grow_keeps (exactly_holds hu hulen) (show u.length ≤ s'.len.toNat by omega) (by omega) hh
  have hchanged : ¬ s'.len = (exactly u).len := by
    intro hsame
    rw [hsame] at hlen'
    omega
  have hrun := henl.run
  rw [replace_longer rfl rfl (len_ne_zero hlen (hin.ne_nil hf)) (len_ne_zero hflen hf) _ hpos hne,
    check_bind (henl.counted (len_ne_zero hlen (hin.ne_nil hf)) _ _ rfl rfl),if_neg hchanged,bind_ok hgrow] at hrun
  dsimp only at hrun
  rw [if_pos rfl] at hrun
  have hloop := check_eq_ok hrun
  rw [replaceLonger_loop _ _ _ _ _ (grown, (grown.len - 1).toInt16)] at hloop
  obtain ⟨q,hq,hlast⟩ := map_eq_ok hloop
  obtain ⟨hs,hne,hjoin,hapart,hshows⟩ := loop_pieces hfind hclean hf hreplace.supplies hlt
    (growing_start hholds (enlarges_small hulen hf hrlen hlt hin henl)) (henl.once hchanged grown h₁ hgrow) hq
  rw [hlast,List.append_nil] at hshows
  have hsame := hshows.unique henl.shows
  rw [hjoin] at hsame ⊢
  rw [← hapart.eq_pieces hf hlt hne hsame]
  exact hapart

end Needed

/-! A pattern with a NUL in it. -/
section NulInPattern
variable (hu : 0 ∉ u) (hnul : 0 ∈ f) (hlt : f.length < r.length)
include hu hnul hlt

/-- What a call that is right does to a pattern with a NUL in it: the size counted is the length of the text again. -/
private theorem windows_of_replacesLonger (hulen : u.length < 65535) (hrlen : r.length < 65535) (hne : u ≠ [])
    (hall : ReplacesLonger u f r) : ∃ ws, Windows (sought f) f.length u ws ∧
      (ws = [] ∨ r.length < f.length + 32768 ∧ 65536 ∣ ws.length * (r.length - f.length)) := by
  by_cases hin : sought f <:+: u
  · have hf := List.ne_nil_of_mem hnul
    have hfind := exactly_shows (u := f) (by omega)
    have hreplace := exactly_shows hrlen
    obtain ⟨needle,hb',hneedle⟩ := hfind.terminated hnul
    cases hb'
    have hlen : (exactly u).len.toNat = u.length := toNat_length hulen
    have hflen : (exactly f).len.toNat = f.length := toNat_length (by omega)
    have hrlen' : (exactly r).len.toNat = r.length := toNat_length hrlen
    have hs0 := len_ne_zero hlen hne
    have hf0 := len_ne_zero hflen hf
    have hdiff := len_diff hrlen' hflen (Nat.le_of_lt hlt)
    obtain ⟨s',h',henl⟩ := hall (exactly u) (exactly f) (exactly r) onesHeap (exactly_holds hu hulen) hfind hreplace
      onesHeap_ample
    have hshows := henl.shows
    rw [substitute_none (nul_absent hnul hu)] at hshows
    have hlen' : s'.len = (exactly u).len := UInt16.toNat_inj.mp (hshows.len_toNat.trans hlen.symm)
    have hcounted := henl.counted hs0 _ _ rfl rfl
    rw [hlen'] at hcounted
    obtain ⟨ws,hws⟩ := replaceSize_windows_of_ok hneedle hu [] hcounted
    have hvalue := replaceSize_block hneedle (hflen ▸ List.length_pos_iff.mpr hf) hu hws [] ((exactly r).len - (exactly f).len)
      (exactly u).len
    rw [hflen] at hws
    refine ⟨ws,hws,.inr ⟨?_,?_⟩⟩
    · apply Classical.byContradiction
      intro hlong
      -- the branch for a shorter text has no room for its first replacement and a second one
      have hneg : ((exactly r).len - (exactly f).len).toInt16 < 0 := by
        rw [sub_toInt16_neg_iff]
        omega
      have hrun := henl.run
      rw [replace_shorter rfl rfl hs0 hf0 _ hneg] at hrun
      obtain ⟨⟨b,len⟩,hb,hend⟩ := check_bind_eq_ok hrun
      cases hend
      obtain ⟨k,hk,hlen'',_,hroom⟩ := replaceShorter_turns hneedle hu hin hb
      rw [List.length_append,List.length_singleton,hrlen'] at hroom
      have hmul : k * (r.length - f.length) ≤ k * r.length := Nat.mul_le_mul_left k (Nat.sub_le _ _)
      exact absurd (hlen''.symm.trans hlen') (add_turns_ne (.inl hdiff) (Nat.mul_pos hk (by omega)) (by omega))
    · exact (add_turns_iff (.inl hdiff)).mp (Except.ok.inj (hvalue.symm.trans hcounted))
  · exact ⟨[],.none hin,.inl rfl⟩

private theorem enlarges_windows (hs : s.Holds (some u)) (hfind : find.Shows (some f)) (hreplace : replace.Shows (some r))
    {ws : List (List UInt8)} (hws : Windows (sought f) f.length u ws)
    (hok : ws = [] ∨ r.length < f.length + 32768 ∧ 65536 ∣ ws.length * (r.length - f.length)) (h : Heap) :
    s.Enlarges find replace u h s h := by
  have hf := List.ne_nil_of_mem hnul
  obtain ⟨needle,hb',hneedle⟩ := hfind.terminated hnul
  have hflen : find.len.toNat = f.length := hfind.len_toNat
  have hrlen : replace.len.toNat = r.length := hreplace.len_toNat
  have hf0 := len_ne_zero hflen hf
  rcases hok with hnil | ⟨hdiff,hdvd⟩
  · exact enlarges_unfound hs hb' hneedle hf0 (hws.eq_nil_iff.mp hnil) replace h
  · obtain ⟨-,_,rest,hb,_⟩ := hs.block
    have hcounted := replaceSize_block hneedle (hflen ▸ List.length_pos_iff.mpr hf) hu (hflen ▸ hws) rest
      (replace.len - find.len) s.len
    rw [(add_turns_iff (.inl (len_diff hrlen hflen (Nat.le_of_lt hlt)))).mpr hdvd] at hcounted
    obtain ⟨hpos,hne⟩ := longer_positive hfind hreplace hlt hdiff
    refine ⟨?_,hs.shows,?_,fun hne => absurd rfl hne⟩
    · by_cases hempty : u = []
      · subst hempty
        exact (replace_empty hs hf r).1
      · rw [replace_longer hb hb' (len_ne_zero hs.len_toNat hempty) hf0 replace hpos hne,check_bind hcounted,if_pos rfl]
        rfl
    · intro _ b needle' hblock hneedle'
      cases hb.symm.trans hblock
      cases hb'.symm.trans hneedle'
      exact hcounted

end NulInPattern

end WString
end ArduinoAT90USB.Core
