import ArduinoAT90USB.Core.WStringCapacity

/-! `concat` of Strings as appending of texts, for another object and for the object itself.
The pointer to the source is taken before `reserve`, which may leave it dangling. -/
namespace ArduinoAT90USB.Core
open Foundation Foundation.Memory Foundation.CString Foundation.TaskLogic

/-- Where `realloc` leaves a block that has to grow: where it was, or elsewhere, and then the
bytes that are found from the old address on. -/
inductive Placement
  | inPlace
  | moved (stale : List UInt8)

/-- The String that is given to `concat`. -/
inductive Source
  | other (t : WString)
  | self

namespace WString

/-- `strcpy(buffer + i, buffer)`. -/
def putSelf (s : WString) (i : Nat) : Checked WString := do
  let b ← deref s.buffer
  let b ← strcpyWithin (b.length + 1) b i 0
  pure {s with buffer := some b}

/-- `strcpy(buffer + len, cstr)` for a `cstr` that was `buffer` before the call of `reserve`. -/
def putOwn (s : WString) (asked : Bool) : Placement → Checked WString
  | .inPlace => s.putSelf s.len.toNat
  | .moved stale => if asked then s.putString s.len.toNat stale else s.putSelf s.len.toNat

/-- `concat(*this)`. -/
def concatSelf (s : WString) (p : Placement) : Alloc (Bool × WString) :=
  let newlen := s.len + s.len
  if s.buffer.isNone then pure (false, s)
  else if s.len = 0 then pure (true, s)
  else do
    let asked := !decide (s.capacity ≥ newlen)
    let (reserved, s) ← s.reserve newlen
    if reserved then
      let s ← check (s.putOwn asked p)
      pure (true, {s with len := newlen})
    else pure (false, s)

/-- `concat(const String &)`, which is `operator +=`. -/
def concatString (s : WString) (p : Placement) : Source → Alloc (Bool × WString)
  | .other t => s.concat (.string t)
  | .self => s.concatSelf p

/-- The call returns 1 and leaves the text `w` behind the text `u`, with a NUL and all in a block of
`capacity + 1` bytes. -/
def Appends (s : WString) (x : Source) (u w : List UInt8) (h : Heap) (p : Placement) : Prop :=
  ∃ s' h', s.concatString p x h = .ok (true, s') h' ∧ s'.Shows (some (u ++ w))

/-- Every request is granted. -/
def Ample (h : Heap) : Prop := ∀ i, (h.outcome i).isSome = true

variable {s t : WString} {u w : List UInt8} {h : Heap}

theorem Ample.granted (hh : Ample h) (h' : Heap) : granted h h' = true := by
  rw [Memory.granted,hh,Bool.or_true]

section Other

theorem appends_other (hs : s.Holds (some u)) (ht : t.Shows (some w)) (hw : 0 ∉ w) (hfit : u.length + w.length < 65535)
    (hh : Ample h) (p : Placement) : s.Appends (.other t) u w h p := by
  have hclean : ∀ x, some w = some x → 0 ∉ x := by
    rintro x ⟨rfl⟩
    exact hw
  obtain ⟨h',s',hconcat,hholds⟩ := concat_spec hs (.string (ht.holds hclean)) hfit h
  rw [hh.granted] at hconcat hholds
  refine ⟨s',h',hconcat,?_⟩
  cases w with
  | nil =>
    rw [List.append_nil]
    exact hholds.shows
  | cons c w => exact hholds.shows

private theorem Appends.accounts {p : Placement} (happ : s.Appends (.other t) u w h p) (hs : s.Holds (some u)) :
    s.ConcatAccounts (.string t) w.length h := by
  obtain ⟨s',h',hconcat,hshows⟩ := happ
  have hlen := hshows.len_toNat
  have hwithin := hshows.within
  rw [Option.getD_some,List.length_append] at hlen
  refine ⟨true,s',h',hconcat,fun _ => ⟨?_,hwithin.2.2⟩⟩
  rw [hs.len_toNat,Option.getD_some]
  omega

theorem Appends.fits {p : Placement} (happ : s.Appends (.other t) u w h p) (hs : s.Holds (some u))
    (ht : t.Shows (some w)) (hh : Ample h) : u.length + w.length < 65535 := by
  have haccounts := (concat_accounts_iff hs.shows (.string ht) h).mp (happ.accounts hs)
  rw [hs.len_toNat,Option.getD_some,Option.getD_some] at haccounts
  rcases haccounts with hfit | ⟨_,hrefused⟩
  · exact hfit
  · have hgranted := hh h.calls
    rw [hrefused] at hgranted
    cases hgranted

end Other

section Exact

/-- The String of a text in a block that just holds it. -/
def exactly (u : List UInt8) : WString := ⟨some (u ++ [0]),UInt16.ofNat u.length,UInt16.ofNat u.length⟩

/-- Every request is granted, and new memory holds no NULs. -/
def onesHeap : Heap := ⟨fun _ => some fun _ => 1,0⟩

theorem onesHeap_ample : Ample onesHeap := fun _ => rfl

theorem exactly_shows (hu : u.length < 65535) : (exactly u).Shows (some u) := by
  have hlen := toNat_length hu
  refine .valid hlen ?_ ?_
  · rw [List.length_append,hlen]
    rfl
  · rw [hlen]
    omega

theorem exactly_holds (hu : 0 ∉ u) (hlen : u.length < 65535) : (exactly u).Holds (some u) := by
  refine (exactly_shows hlen).holds ?_
  rintro _ ⟨rfl⟩
  exact hu

/-- A String that grows gets the terminator's new place as it is found. -/
private theorem exactly_reserve (hu : u.length < 65535) (size : UInt16) (hlt : u.length < size.toNat)
    (hsize : size.toNat < 65535) : ∃ b, (exactly u).reserve size onesHeap =
      .ok (true, ⟨some b,size,UInt16.ofNat u.length⟩) onesHeap.called ∧ b[size.toNat]? = some 1 := by
  have hlen := toNat_length hu
  have hsmall : ¬ ((exactly u).buffer.isSome ∧ (exactly u).capacity ≥ size) := by
    rintro ⟨_,hcap⟩
    have : size.toNat ≤ (UInt16.ofNat u.length).toNat := UInt16.le_iff_toNat_le.mp hcap
    omega
  have hnext : (size + 1).toNat = size.toNat + 1 := toNat_next (by omega)
  have hfresh : (resize (u ++ [0]) (size + 1).toNat fun _ => 1)[size.toNat]? = some 1 := by
    apply resize_fresh
    · rw [List.length_append]
      exact hlt
    · omega
  obtain ⟨b,hterm,_,hkept⟩ := terminateEmpty_kept (s := {exactly u with
    buffer := some (resize (u ++ [0]) (size + 1).toNat fun _ => 1), capacity := size}) rfl
    (by rw [resize_length]; omega)
  exact ⟨b,reserve_granted hsmall rfl hterm,(hkept size.toNat (by omega)).trans hfresh⟩

/-- A text with a NUL in it is cut off there, and the length counts what is behind it all the same. -/
private theorem nul_not_appended (hw : 0 ∈ w) (hfit : u.length + w.length < 65535) (p : Placement) :
    ¬ (exactly u).Appends (.other (exactly w)) u w onesHeap p := by
  rintro ⟨s',h',hconcat,hshows⟩
  have hulen := toNat_length (t := u) (by omega)
  have hwlen := toNat_length (t := w) (by omega)
  obtain ⟨x,hx,y,hsplit⟩ : ∃ x, 0 ∉ x ∧ ∃ y, w = x ++ 0 :: y :=
    ⟨_,(terminated_takeWhile hw).clean,(terminated_takeWhile hw).terminator⟩
  have hcstr : Terminated x (w ++ [0]) := ⟨hx,y ++ [0],by rw [hsplit,List.append_assoc]; rfl⟩
  have hxlen : x.length < w.length := by
    rw [hsplit,List.length_append,List.length_cons]
    omega
  have hsum : (UInt16.ofNat u.length + UInt16.ofNat w.length).toNat = u.length + w.length := by
    rw [UInt16.toNat_add,hulen,hwlen]
    exact Nat.mod_eq_of_lt (by omega)
  obtain ⟨b,hreserve,hlast⟩ := exactly_reserve (u := u) (by omega) (UInt16.ofNat u.length + UInt16.ofNat w.length)
    (by omega) (by omega)
  have hlength : UInt16.ofNat w.length ≠ 0 := by
    intro h0
    rw [h0,UInt16.toNat_zero] at hwlen
    omega
  have hinside := (List.getElem?_eq_some_iff.mp hlast).1
  obtain ⟨b',hcopy,_⟩ := strcpy_inside hcstr (b := b) (i := (exactly u).len.toNat) (by dsimp only [exactly]; omega)
  have hend := concatBytes_copied hlength hreserve hcopy
  obtain ⟨_,rfl⟩ := Prod.mk.inj (EStateM.Result.ok.inj (hconcat.symm.trans hend)).1
  have hlast' : b'[(u ++ w).length]? = some 1 := by
    rw [strcpy_above hcstr hcopy,List.length_append,← hsum]
    · exact hlast
    · rw [List.length_append]
      dsimp only [exactly]
      omega
  cases hshows with
  | valid length allocated size =>
    rw [List.getElem?_append_right (Nat.le_refl _),Nat.sub_self] at hlast'
    cases hlast'

end Exact

section Self

private theorem Holds.not_null (hs : s.Holds (some u)) : ¬ s.buffer.isNone = true := by
  obtain ⟨_,_,rest,hb,_⟩ := hs.block
  rw [hb]
  exact Bool.false_ne_true

theorem putSelf_overruns (hs : s.Holds (some u)) (hu : u ≠ []) : s.putSelf s.len.toNat = .error .bounds := by
  obtain ⟨hclean,_,rest,hb,hblock⟩ := hs.block
  have hlen : s.len.toNat = u.length := hs.len_toNat
  have hcopy : strcpyWithin ((u ++ 0 :: rest).length + 1) (u ++ 0 :: rest) u.length 0 = .error .bounds := by
    refine strcpyWithin_chases (List.length_pos_iff.mpr hu) ?_ ?_ ?_
    · rw [List.length_append]
      omega
    · intro i _ hi hzero
      rw [List.getElem?_append_left hi] at hzero
      exact hclean (List.mem_of_getElem? hzero)
    · omega
  rw [putSelf,hb,deref,ok_bind,hlen,hcopy]
  rfl

/-- A nonempty String that is appended to itself where it stands writes over its terminator and runs out of the
block. -/
theorem concatSelf_overruns (hs : s.Holds (some u)) (hu : u ≠ []) (hh : Ample h) :
    ∃ h', s.concatSelf .inPlace h = .error .bounds h' := by
  have hlen : s.len.toNat = u.length := hs.len_toNat
  have hpos := List.length_pos_iff.mpr hu
  have hzero : s.len ≠ 0 := by
    intro h0
    rw [h0,UInt16.toNat_zero] at hlen
    omega
  have hsize : (s.len + s.len).toNat < 65535 := by
    rw [UInt16.toNat_add]
    omega
  obtain ⟨h',s',hreserve,_,hroom,_⟩ := reserve_spec hs hsize h
  rw [hh.granted] at hreserve
  have hgrown : s'.Holds (some u) := (hroom (hh.granted h')).1
  refine ⟨h',?_⟩
  rw [concatSelf]
  dsimp only
  rw [if_neg hs.not_null,if_neg hzero,bind_ok hreserve]
  dsimp only
  rw [if_pos rfl,putOwn,putSelf_overruns hgrown hu]
  rfl

theorem appends_self_iff (hs : s.Holds (some u)) (hh : Ample h) : (∀ p, s.Appends .self u u h p) ↔ u = [] := by
  constructor
  · intro happ
    apply Classical.byContradiction
    intro hu
    obtain ⟨h',hend⟩ := concatSelf_overruns hs hu hh
    obtain ⟨s',h'',hconcat,_⟩ := happ .inPlace
    rw [concatString,hend] at hconcat
    cases hconcat
  · rintro rfl p
    have hlen : s.len = 0 := UInt16.toNat_inj.mp hs.len_toNat
    refine ⟨s,h,?_,hs.shows⟩
    rw [concatString,concatSelf]
    dsimp only
    rw [if_neg hs.not_null,if_pos hlen]
    rfl

end Self

/-- The contents `o` of another String are appended to the text `u`, whatever the two Strings and the memory are like. -/
def OtherAppended (u : List UInt8) (o : Option (List UInt8)) : Prop := ∀ (s t : WString) (h : Heap) (p : Placement),
  s.Holds (some u) → t.Shows o → Ample h → ∃ w, o = some w ∧ s.Appends (.other t) u w h p

theorem otherAppended_iff (hu : 0 ∉ u) (hlen : u.length < 65535) {o : Option (List UInt8)}
    (ho : (o.getD []).length < 65535) : OtherAppended u o ↔ ∃ w, o = some w ∧ 0 ∉ w ∧ u.length + w.length < 65535 := by
  have hholds := exactly_holds hu hlen
  constructor
  · intro happ
    cases o with
    | none =>
      obtain ⟨w,hw,_⟩ := happ (exactly u) ⟨none,0,0⟩ onesHeap .inPlace hholds .invalid onesHeap_ample
      cases hw
    | some w =>
      have hshows := exactly_shows (u := w) ho
      obtain ⟨_,⟨rfl⟩,hone⟩ := happ (exactly u) (exactly w) onesHeap .inPlace hholds hshows onesHeap_ample
      have hfit := hone.fits hholds hshows onesHeap_ample
      exact ⟨w,rfl,fun hnul => nul_not_appended hnul hfit .inPlace hone,hfit⟩
  · rintro ⟨w,rfl,hw,hfit⟩ s t h p hs ht hh
    exact ⟨w,rfl,appends_other hs ht hw hfit hh p⟩

/-- `concat` appends the contents of another String if they have no NUL and the lengths add up to a size there is,
and of the String itself only the empty text. -/
theorem concat_appends_iff (hu : 0 ∉ u) (hlen : u.length < 65535) :
    (∀ o : Option (List UInt8), (o.getD []).length < 65535 →
      (OtherAppended u o ↔ ∃ w, o = some w ∧ 0 ∉ w ∧ u.length + w.length < 65535)) ∧
      ∀ (s : WString) (h : Heap), s.Holds (some u) → Ample h → ((∀ p, s.Appends .self u u h p) ↔ u = []) :=
  ⟨fun _ ho => otherAppended_iff hu hlen ho,fun _ _ hs hh => appends_self_iff hs hh⟩

theorem concat_appends_iff_two_letters :
    (0 : UInt8) ∉ [97] ∧ OtherAppended [97] (some [98]) ∧ ¬ ∀ p, (exactly [97]).Appends .self [97] [97] onesHeap p := by
  have hu : (0 : UInt8) ∉ [97] := by decide
  obtain ⟨hother,hself⟩ := concat_appends_iff (u := [97]) hu (by decide)
  refine ⟨hu,(hother (some [98]) (by decide)).mpr ⟨[98],rfl,by decide,by decide⟩,?_⟩
  rw [hself (exactly [97]) onesHeap (@Holds.valid [97] [] 1 1 hu rfl rfl (by decide)) fun _ => rfl]
  decide

/-- The text "a" appended to itself, in a block with room for both that stays where it is. -/
theorem letter_self_overruns :
    concatString ⟨some [97,0,0],2,1⟩ .inPlace .self onesHeap = .error .bounds onesHeap ∧
      ¬ Appends ⟨some [97,0,0],2,1⟩ .self [97] [97] onesHeap .inPlace := by
  refine ⟨rfl,?_⟩
  rintro ⟨s',h',hconcat,_⟩
  cases hconcat

end WString
end ArduinoAT90USB.Core
