import ArduinoAT90USB.Core.WStringFailure

/-! Whether `capacity` can be trusted: `maxStrLen + 1` and `len + length` are sums of sixteen
bits, and what comes of them when they wrap. -/
namespace ArduinoAT90USB.Core
open Foundation Foundation.Memory Foundation.CString Foundation.TaskLogic

namespace WString

/-- `reserve` ends, and if it returns 1 the block has a byte more than `capacity` says. -/
def ReserveAccounts (s : WString) (size : UInt16) (h : Heap) : Prop := ∃ r s' h',
  s.reserve size h = .ok (r, s') h' ∧ (r = true → ∃ b, s'.buffer = some b ∧ s'.capacity.toNat + 1 ≤ b.length)

/-- `concat` of `n` characters ends, and if it returns 1 all of them are within a `capacity` the block has. -/
def ConcatAccounts (s : WString) (x : Operand) (n : Nat) (h : Heap) : Prop := ∃ r s' h',
  s.concat x h = .ok (r, s') h' ∧ (r = true →
    s.len.toNat + n ≤ s'.capacity.toNat ∧ ∀ b, s'.buffer = some b → s'.capacity.toNat + 1 ≤ b.length)

variable {s : WString} {v : Option (List UInt8)} {h : Heap} {size : UInt16}

theorem Shows.within (hs : s.Shows v) : s.len.toNat ≤ s.capacity.toNat ∧ s.capacity.toNat < 65535 ∧
    ∀ b, s.buffer = some b → s.capacity.toNat + 1 ≤ b.length := by
  cases hs with
  | invalid => exact ⟨Nat.le_refl 0,by decide,fun b hb => absurd hb (by simp)⟩
  | valid length allocated size =>
    refine ⟨?_,Nat.lt_of_succ_lt_succ size,?_⟩
    · rw [List.length_append,List.length_cons] at allocated
      dsimp only
      omega
    · rintro b ⟨rfl⟩
      exact Nat.le_of_eq allocated.symm

/-- A block of at least one byte takes the terminator of an empty text and keeps all other bytes. -/
theorem terminateEmpty_kept {b : Block} (hb : s.buffer = some b) (hpos : 0 < b.length) :
    ∃ b', s.terminateEmpty = .ok {s with buffer := some b'} ∧ b'.length = b.length ∧ ∀ i, 0 < i → b'[i]? = b[i]? := by
  rw [terminateEmpty]
  split
  · refine ⟨b.set 0 0,?_,List.length_set,fun i hi => List.getElem?_set_ne (Nat.ne_of_lt hi)⟩
    rw [put,hb,deref,ok_bind,store,if_pos hpos]
    rfl
  · exact ⟨b,by rw [← hb]; rfl,rfl,fun _ _ => rfl⟩

private theorem reserve_room (hs : s.Shows v) (hsize : size.toNat < 65535) (h : Heap) : ∃ r s' h',
    s.reserve size h = .ok (r, s') h' ∧ (r = true → s'.len = s.len ∧ size ≤ s'.capacity ∧
      ∃ b, s'.buffer = some b ∧ s'.capacity.toNat + 1 ≤ b.length) := by
  by_cases henough : s.buffer.isSome ∧ s.capacity ≥ size
  · obtain ⟨b,hb⟩ := Option.isSome_iff_exists.mp henough.1
    refine ⟨true,s,h,?_,fun _ => ⟨rfl,henough.2,b,hb,hs.within.2.2 b hb⟩⟩
    rw [reserve,if_pos henough]
    rfl
  · cases hout : h.outcome h.calls with
    | none => exact ⟨false,s,_,reserve_refused henough hout,fun hr => absurd hr Bool.false_ne_true⟩
    | some fresh =>
      have hnext : (size + 1).toNat = size.toNat + 1 := toNat_next (by omega)
      have hlength := resize_length (s.buffer.getD []) (size + 1).toNat fresh
      obtain ⟨b,hterm,hb,_⟩ := terminateEmpty_kept (s := {s with
        buffer := some (resize (s.buffer.getD []) (size + 1).toNat fresh), capacity := size}) rfl (by omega)
      refine ⟨true,_,_,reserve_granted henough hout hterm,fun _ => ⟨rfl,UInt16.le_refl size,b,rfl,?_⟩⟩
      dsimp only
      omega

private theorem ne_largest_iff : size ≠ 65535 ↔ size.toNat < 65535 := by
  have hlt := size.toNat_lt
  have hval : (65535 : UInt16).toNat = 65535 := rfl
  rw [ne_eq,← UInt16.toNat_inj,hval]
  omega

/-- No String has the largest capacity, so that it is always asked for. -/
private theorem Shows.largest_asked (hs : s.Shows v) : ¬ (s.buffer.isSome ∧ s.capacity ≥ 65535) := by
  rintro ⟨_,hcap⟩
  exact Nat.not_lt.mpr (UInt16.le_iff_toNat_le.mp hcap) hs.within.2.1

/-- At the largest size the block that is granted has no bytes at all. -/
private theorem reserve_wrapped (hs : s.Shows v) {fresh : Nat → UInt8} (hout : h.outcome h.calls = some fresh) :
    s.reserve 65535 h = if s.len = 0 then .error .bounds h.called
      else .ok (true, {s with buffer := some [], capacity := 65535}) h.called := by
  have hempty : resize (s.buffer.getD []) ((65535 : UInt16) + 1).toNat fresh = [] :=
    List.length_eq_zero_iff.mp (resize_length _ _ fresh)
  rw [reserve,if_neg hs.largest_asked,bind_ok (changeBuffer_granted hout 65535)]
  dsimp only
  rw [if_pos rfl,hempty,terminateEmpty]
  dsimp only
  split <;> rfl

theorem reserve_accounts_iff (hs : s.Shows v) (size : UInt16) (h : Heap) :
    s.ReserveAccounts size h ↔ size ≠ 65535 ∨ h.outcome h.calls = none := by
  by_cases hsize : size = 65535
  · subst hsize
    cases hout : h.outcome h.calls with
    | none =>
      refine iff_of_true ⟨false,s,_,reserve_refused hs.largest_asked hout,?_⟩ (.inr rfl)
      exact fun hr => absurd hr Bool.false_ne_true
    | some fresh =>
      refine iff_of_false ?_ (by simp)
      rintro ⟨r,s',h',hreserve,hroom⟩
      rw [reserve_wrapped hs hout] at hreserve
      split at hreserve
      · cases hreserve
      · cases hreserve
        obtain ⟨b,hb,hlength⟩ := hroom rfl
        cases hb
        exact absurd hlength (Nat.not_succ_le_zero _)
  · obtain ⟨r,s',h',hreserve,hroom⟩ := reserve_room hs (ne_largest_iff.mp hsize) h
    exact iff_of_true ⟨r,s',h',hreserve,fun hr => (hroom hr).2.2⟩ (.inl hsize)

section Concat
variable {x : Operand} {t rest : List UInt8}

theorem concatBytes_copied {c : List UInt8} {length capacity : UInt16} {b b' : Block} {h' : Heap} (hlength : length ≠ 0)
    (hreserve : s.reserve (s.len + length) h = .ok (true, ⟨some b,capacity,s.len⟩) h')
    (hcopy : strcpy c b s.len.toNat = .ok b') :
    s.concatBytes (some c) length h = .ok (true, ⟨some b',capacity,s.len + length⟩) h' := by
  have hput : (⟨some b,capacity,s.len⟩ : WString).putString s.len.toNat c = .ok ⟨some b',capacity,s.len⟩ := by
    rw [putString,deref,ok_bind,hcopy]
    rfl
  rw [concatBytes]
  dsimp only
  rw [if_neg hlength,bind_ok hreserve]
  dsimp only
  rw [if_pos rfl,check_bind hput]
  rfl

private theorem concatBytes_accounts (hs : s.Shows v) (hlength : UInt16.ofNat t.length ≠ 0)
    (hsum : (s.len + UInt16.ofNat t.length).toNat = s.len.toNat + t.length) (hfit : s.len.toNat + t.length < 65535)
    (h : Heap) : ∃ r s' h', s.concatBytes (some (t ++ 0 :: rest)) (UInt16.ofNat t.length) h = .ok (r, s') h' ∧
      (r = true → s.len.toNat + t.length ≤ s'.capacity.toNat ∧
        ∀ b, s'.buffer = some b → s'.capacity.toNat + 1 ≤ b.length) := by
  obtain ⟨r,⟨buffer,capacity,len⟩,h',hreserve,hroom⟩ := reserve_room hs (hsum.symm ▸ hfit) h
  cases r with
  | false =>
    refine ⟨false,⟨buffer,capacity,len⟩,h',?_,fun hr => absurd hr Bool.false_ne_true⟩
    rw [concatBytes]
    dsimp only
    rw [if_neg hlength,bind_ok hreserve]
    rfl
  | true =>
    obtain ⟨rfl,hcap,b,rfl,hblock⟩ := hroom rfl
    rw [UInt16.le_iff_toNat_le,hsum] at hcap
    obtain ⟨u,hu,hshort⟩ := terminated_before t rest
    dsimp only at hcap hblock
    obtain ⟨b',hcopy,hb'⟩ := strcpy_inside hu (b := b) (i := s.len.toNat) (by omega)
    refine ⟨true,_,h',concatBytes_copied hlength hreserve hcopy,fun _ => ⟨hcap,?_⟩⟩
    rintro b ⟨rfl⟩
    exact hb'.symm ▸ hblock

/-- The copy starts outside a block without bytes. -/
private theorem concatBytes_wrapped (hs : s.Shows v) (hlength : UInt16.ofNat t.length ≠ 0)
    (hsum : s.len + UInt16.ofNat t.length = 65535) {fresh : Nat → UInt8} (hout : h.outcome h.calls = some fresh) :
    s.concatBytes (some (t ++ 0 :: rest)) (UInt16.ofNat t.length) h = .error .bounds h.called := by
  rw [concatBytes]
  dsimp only
  have hreserve := reserve_wrapped hs hout
  rw [if_neg hlength,hsum]
  split at hreserve
  · rw [bind_error hreserve]
  · rw [bind_ok hreserve]
    cases t with
    | nil => rfl
    | cons c t => rfl

/-- A sum that wraps is below `len` and so within the capacity there is. -/
private theorem concatBytes_short (hs : s.Shows v) (hlength : UInt16.ofNat t.length ≠ 0)
    (hlen : (UInt16.ofNat t.length).toNat = t.length) (hsum : 65536 ≤ s.len.toNat + t.length) {r : Bool} {s' : WString}
    {h' : Heap} (hconcat : s.concatBytes (some (t ++ 0 :: rest)) (UInt16.ofNat t.length) h = .ok (r, s') h') :
    r = true := by
  have hlt := (UInt16.ofNat t.length).toNat_lt
  have hwithin := hs.within
  have hnew : s.len + UInt16.ofNat t.length ≤ s.capacity := by
    rw [UInt16.le_iff_toNat_le,UInt16.toNat_add,hlen]
    omega
  have hsome : s.buffer.isSome = true := by
    cases hs with
    | invalid =>
      dsimp only at hsum
      rw [UInt16.toNat_zero] at hsum
      omega
    | valid => rfl
  have hserved := concatBytes_served (c := t ++ 0 :: rest) (h := h) hlength (.inl ⟨hsome,hnew⟩)
  rw [hconcat] at hserved
  exact hserved.2.1

private theorem ConcatAccounts.congr {n : Nat} {c : List UInt8} {length : UInt16}
    (hconcat : s.concat x h = s.concatBytes (some c) length h) : s.ConcatAccounts x n h ↔ ∃ r s' h',
      s.concatBytes (some c) length h = .ok (r, s') h' ∧ (r = true → s.len.toNat + n ≤ s'.capacity.toNat ∧
        ∀ b, s'.buffer = some b → s'.capacity.toNat + 1 ≤ b.length) := by
  rw [ConcatAccounts,hconcat]

theorem concat_accounts_iff (hs : s.Shows v) {o : Option (List UInt8)} (hx : x.Spells o) (h : Heap) :
    s.ConcatAccounts x (o.getD []).length h ↔ s.len.toNat + (o.getD []).length < 65535 ∨
      s.len.toNat + (o.getD []).length = 65535 ∧ h.outcome h.calls = none := by
  have hwithin := hs.within
  cases o with
  | none =>
    have hnone := concat_none (s := s) (hx.denotes nofun) h
    refine iff_of_true ⟨false,s,h,hnone,fun hr => absurd hr Bool.false_ne_true⟩ (.inl ?_)
    rw [Option.getD_none,List.length_nil]
    omega
  | some t =>
    obtain ⟨rest,hconcat⟩ := concat_spelled hx s h
    rw [Option.getD_some,ConcatAccounts.congr hconcat]
    by_cases ht : t = []
    · subst ht
      refine iff_of_true ⟨true,s,h,rfl,fun _ => ⟨?_,hwithin.2.2⟩⟩ (.inl ?_)
      · exact hwithin.1
      · rw [List.length_nil]
        omega
    · have hlength := ofNat_length_ne_zero hx ht
      have hlen := toNat_length (t := t) hx.length_lt
      have hadd := UInt16.toNat_add s.len (UInt16.ofNat t.length)
      rw [hlen] at hadd
      rcases Nat.lt_trichotomy (s.len.toNat + t.length) 65535 with hfit | hedge | hover
      · have hsum : (s.len + UInt16.ofNat t.length).toNat = s.len.toNat + t.length := by omega
        exact iff_of_true (concatBytes_accounts hs hlength hsum hfit h) (.inl hfit)
      · have hsum : s.len + UInt16.ofNat t.length = 65535 := UInt16.toNat_inj.mp (hadd.trans (by rw [hedge]; rfl))
        cases hout : h.outcome h.calls with
        | none =>
          refine iff_of_true ⟨false,s,_,concatBytes_denied hlength ?_,fun hr => absurd hr Bool.false_ne_true⟩
            (.inr ⟨hedge,rfl⟩)
          rw [hsum,Grants,hout]
          exact fun hg => hg.elim hs.largest_asked (fun h => absurd h (by decide))
        | some fresh =>
          refine iff_of_false ?_ ?_
          · rintro ⟨r,s',h',hend,_⟩
            rw [concatBytes_wrapped hs hlength hsum hout] at hend
            cases hend
          · rintro (hlt | ⟨_,hnone⟩)
            · omega
            · cases hnone
      · refine iff_of_false ?_ (by omega)
        rintro ⟨r,s',h',hend,hroom⟩
        have hr := concatBytes_short hs hlength hlen hover hend
        have := (hroom hr).1
        have := s'.capacity.toNat_lt
        omega

end Concat

/-- A capacity is backed by its block except where a sum of sixteen bits wraps and the memory asked for is granted. -/
theorem capacity_allocated_iff (hs : s.Shows v) (h : Heap) :
    (∀ size, s.ReserveAccounts size h ↔ size ≠ 65535 ∨ h.outcome h.calls = none) ∧
      ∀ x o, x.Spells o → (s.ConcatAccounts x (o.getD []).length h ↔ s.len.toNat + (o.getD []).length < 65535 ∨
        s.len.toNat + (o.getD []).length = 65535 ∧ h.outcome h.calls = none) :=
  ⟨fun size => reserve_accounts_iff hs size h,fun _ _ hx => concat_accounts_iff hs hx h⟩

private theorem letter_shows : Shows ⟨some [97,0],1,1⟩ (some [97]) :=
  @Shows.valid [97] [] 1 1 rfl rfl (by decide)

theorem capacity_allocated_iff_letter :
    Shows ⟨some [97,0],1,1⟩ (some [97]) ∧ ReserveAccounts ⟨some [97,0],1,1⟩ 65534 ⟨fun _ => some fun _ => 0,0⟩ :=
  ⟨letter_shows,((capacity_allocated_iff letter_shows _).1 65534).mpr (.inl (by decide))⟩

/-- The text "a" asks for the largest size and is left with a block of no bytes. -/
theorem reserve_largest_empties :
    reserve ⟨some [97,0],1,1⟩ 65535 ⟨fun _ => some fun _ => 0,0⟩ =
        .ok (true, ⟨some [],65535,1⟩) ⟨fun _ => some fun _ => 0,1⟩ ∧
      ¬ ReserveAccounts ⟨some [97,0],1,1⟩ 65535 ⟨fun _ => some fun _ => 0,0⟩ := by
  refine ⟨rfl,?_⟩
  rintro ⟨r,s',h',hreserve,hroom⟩
  obtain ⟨rfl,rfl⟩ := Prod.mk.inj (EStateM.Result.ok.inj hreserve).1
  obtain ⟨b,hb,hlength⟩ := hroom rfl
  cases hb
  exact absurd hlength (by decide)

end WString
end ArduinoAT90USB.Core
