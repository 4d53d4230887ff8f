import ArduinoAT90USB.Core.WStringSearch

/-! The representation of a String by a text, and what the operations that ask for memory do
to the text. Whether the last request was granted decides what becomes of it. -/
namespace ArduinoAT90USB.Core
open Foundation Foundation.Memory Foundation.CString Foundation.Numeral Foundation.TaskLogic

namespace Number

private theorem unsignedText_length {n k : Nat} (radix : UInt8) (hk : k ≠ 0) (hn : n < 2 ^ k) :
    (unsignedText n radix).length ≤ k := by
  unfold unsignedText
  split_ifs with hradix
  · exact Nat.zero_le k
  · obtain ⟨hlow,_⟩ := not_or.mp hradix
    have hbase : 2 ≤ radix.toNat := UInt8.le_iff_toNat_le.mp (UInt8.not_lt.mp hlow)
    rw [List.length_map]
    exact numeral_length_le hbase hk (Nat.lt_of_lt_of_le hn (Nat.pow_le_pow_left hbase k))

private theorem decimal_length {n k : Nat} (hk : k ≠ 0) (hn : n < 10 ^ k) : (unsignedText n 10).length ≤ k := by
  rw [unsignedText, if_neg (by decide), List.length_map]
  exact numeral_length_le (by decide) hk hn

private theorem unsignedText_clean (n : Nat) (radix : UInt8) : 0 ∉ unsignedText n radix := by
  unfold unsignedText
  split_ifs with hradix
  · exact List.not_mem_nil
  · intro h0
    obtain ⟨hlow,hhigh⟩ := not_or.mp hradix
    have hbase : 2 ≤ radix.toNat := UInt8.le_iff_toNat_le.mp (UInt8.not_lt.mp hlow)
    have htop : radix.toNat ≤ 36 := UInt8.le_iff_toNat_le.mp (UInt8.not_lt.mp hhigh)
    obtain ⟨d,hd,hzero⟩ := List.mem_map.mp h0
    have hlt : d < 36 := Nat.lt_of_lt_of_le (numeral_lt_base hbase hd) htop
    have hchar : ∀ d < 36, UInt8.ofNat (if d < 10 then d + 48 else d + 87) ≠ 0 := by decide
    exact hchar d hlt hzero

private theorem signedText_clean (negative : Bool) (magnitude bits : Nat) (radix : UInt8) :
    0 ∉ signedText negative magnitude bits radix := by
  unfold signedText
  split_ifs
  · intro h0
    rcases List.mem_cons.mp h0 with hminus | h0
    · exact absurd hminus (by decide)
    · exact unsignedText_clean magnitude radix h0
  · exact unsignedText_clean bits radix

private theorem signedText_length {negative : Bool} {magnitude bits k : Nat} {radix : UInt8}
    (hm : (unsignedText magnitude radix).length ≤ k) (hb : (unsignedText bits radix).length ≤ k) :
    (signedText negative magnitude bits radix).length ≤ k + 1 := by
  unfold signedText
  split_ifs
  · exact Nat.succ_le_succ hm
  · exact Nat.le_succ_of_le hb

theorem text_clean (n : Number) (radix : UInt8) : 0 ∉ n.text radix := by
  cases n with
  | uchar v | uint v | ulong v => exact unsignedText_clean _ _
  | int v | long v => exact signedText_clean _ _ _ _

/-- The buffers of the constructors are large enough for any base. -/
theorem text_lt_constructorRoom (n : Number) (radix : UInt8) : (n.text radix).length < n.constructorRoom := by
  have hword (m : UInt16) : (unsignedText m.toNat radix).length ≤ 16 := unsignedText_length radix (by decide) m.toNat_lt
  have hlong (m : UInt32) : (unsignedText m.toNat radix).length ≤ 32 := unsignedText_length radix (by decide) m.toNat_lt
  cases n with
  | uchar v => exact Nat.lt_succ_of_le (unsignedText_length radix (by decide) v.toNat_lt)
  | int v => exact Nat.lt_succ_of_le (signedText_length (hword _) (hword _))
  | uint v => exact Nat.lt_succ_of_le (hword v)
  | long v => exact Nat.lt_succ_of_le (signedText_length (hlong _) (hlong _))
  | ulong v => exact Nat.lt_succ_of_le (hlong v)

/-- The buffers of `concat` just hold the longest decimal. -/
theorem text_lt_concatRoom (n : Number) : (n.text 10).length < n.concatRoom := by
  have hword (m : UInt16) : (unsignedText m.toNat 10).length ≤ 5 :=
    decimal_length (by decide) (Nat.lt_of_lt_of_le m.toNat_lt (by decide))
  have hlong (m : UInt32) : (unsignedText m.toNat 10).length ≤ 10 :=
    decimal_length (by decide) (Nat.lt_of_lt_of_le m.toNat_lt (by decide))
  cases n with
  | uchar v => exact Nat.lt_succ_of_le (decimal_length (by decide) (Nat.lt_of_lt_of_le v.toNat_lt (by decide)))
  | int v => exact Nat.lt_succ_of_le (signedText_length (hword _) (hword _))
  | uint v => exact Nat.lt_succ_of_le (hword v)
  | long v => exact Nat.lt_succ_of_le (signedText_length (hlong _) (hlong _))
  | ulong v => exact Nat.lt_succ_of_le (hlong v)

end Number

/-- An invalid String holds no text. A valid one has its text and a NUL in a block of
`capacity + 1` bytes, whose size is a `size_t`. -/
inductive WString.Holds : WString → Option (List UInt8) → Prop
  | invalid : Holds ⟨none,0,0⟩ none
  | valid {t rest : List UInt8} {capacity len : UInt16} (clean : 0 ∉ t) (length : len.toNat = t.length)
      (allocated : (t ++ 0 :: rest).length = capacity.toNat + 1) (size : capacity.toNat + 1 < 65536) :
      Holds ⟨some (t ++ 0 :: rest),capacity,len⟩ (some t)

/-- The same for a text that may have NULs in it, as `setCharAt` can put them there. -/
inductive WString.Shows : WString → Option (List UInt8) → Prop
  | invalid : Shows ⟨none,0,0⟩ none
  | valid {t rest : List UInt8} {capacity len : UInt16} (length : len.toNat = t.length)
      (allocated : (t ++ 0 :: rest).length = capacity.toNat + 1) (size : capacity.toNat + 1 < 65536) :
      Shows ⟨some (t ++ 0 :: rest),capacity,len⟩ (some t)

namespace WString
variable {s : WString} {v : Option (List UInt8)} {h : Heap}

theorem Shows.holds (hs : s.Shows v) (hclean : ∀ t, v = some t → 0 ∉ t) : s.Holds v := by
  cases hs with
  | invalid => exact .invalid
  | valid length allocated size => exact .valid (hclean _ rfl) length allocated size

theorem Holds.shows (hs : s.Holds v) : s.Shows v := by
  cases hs with
  | invalid => exact .invalid
  | valid clean length allocated size => exact .valid length allocated size

theorem Shows.len_toNat (hs : s.Shows v) : s.len.toNat = (v.getD []).length := by
  cases hs with
  | invalid => rfl
  | valid length allocated size => exact length

theorem Holds.len_toNat (hs : s.Holds v) : s.len.toNat = (v.getD []).length := by
  cases hs with
  | invalid => rfl
  | valid clean length allocated size => exact length

theorem toNat_length {t : List UInt8} (ht : t.length < 65535) : (UInt16.ofNat t.length).toNat = t.length := by
  rw [UInt16.toNat_ofNat']
  exact Nat.mod_eq_of_lt (by omega)

theorem toNat_next {n : UInt16} (hn : n.toNat < 65535) : (n + 1).toNat = n.toNat + 1 := by
  rw [UInt16.toNat_add, UInt16.toNat_one]
  exact Nat.mod_eq_of_lt (by omega)

theorem eq_ofNat {n : UInt16} {k : Nat} (hn : n.toNat = k) : n = UInt16.ofNat k := by
  rw [← hn, UInt16.ofNat_toNat]

theorem changeBuffer_refused (hout : h.outcome h.calls = none) (n : UInt16) :
    s.changeBuffer n h = .ok (false, s) h.called := by
  have hcall : realloc s.buffer (n + 1) h = .ok none h.called := by
    rw [realloc, hout]
    rfl
  rw [changeBuffer, bind_ok hcall]
  rfl

theorem changeBuffer_granted {fresh : Nat → UInt8} (hout : h.outcome h.calls = some fresh) (n : UInt16) :
    s.changeBuffer n h =
      .ok (true, {s with buffer := some (resize (s.buffer.getD []) (n + 1).toNat fresh), capacity := n}) h.called := by
  have hcall : realloc s.buffer (n + 1) h = .ok (some (resize (s.buffer.getD []) (n + 1).toNat fresh)) h.called := by
    rw [realloc, hout]
    rfl
  rw [changeBuffer, bind_ok hcall]
  rfl

theorem put_append (s : WString) {pre rest : Block} {old : UInt8} (hb : s.buffer = some (pre ++ old :: rest))
    (c : UInt8) : s.put pre.length c = .ok {s with buffer := some (pre ++ c :: rest)} := by
  rw [put, hb, deref, ok_bind, store_append]
  rfl

theorem get_append (s : WString) {pre rest : Block} {x : UInt8} (hb : s.buffer = some (pre ++ x :: rest)) :
    s.get pre.length = .ok x := by
  rw [get, hb, deref, ok_bind, load_append]

theorem pointer_ok (s : WString) {b : Block} {i : Nat} (hb : s.buffer = some b) (hi : i ≤ b.length) :
    s.pointer i = .ok (b.drop i) := by
  rw [pointer, hb, deref, ok_bind, if_pos hi]
  rfl

private theorem edit_isSome {f : Block → Checked Block} {s' : WString}
    (hs : (do let b ← deref s.buffer; let b ← f b; pure {s with buffer := some b} : Checked WString) = .ok s') :
    s'.buffer.isSome = true := by
  cases hb : deref s.buffer with
  | error e =>
    rw [hb] at hs
    cases hs
  | ok b =>
    rw [hb, ok_bind] at hs
    cases hf : f b with
    | error e =>
      rw [hf] at hs
      cases hs
    | ok b' =>
      rw [hf] at hs
      cases hs
      rfl

theorem put_isSome {i : Nat} {c : UInt8} {s' : WString} (hs : s.put i c = .ok s') : s'.buffer.isSome = true :=
  edit_isSome hs

theorem putString_isSome {i : Nat} {c : List UInt8} {s' : WString} (hs : s.putString i c = .ok s') :
    s'.buffer.isSome = true :=
  edit_isSome hs

/-- Memory was asked for once, or not at all and the String was valid. -/
def Asks (s : WString) (h h' : Heap) : Prop := h' = h ∧ s.buffer.isSome = true ∨ h' = h.called

/-- The two ways `reserve` can end: with room for `size` characters, or refused and unchanged. -/
structure Reserves (s : WString) (v : Option (List UInt8)) (size : UInt16) (h h' : Heap) (s' : WString) : Prop where
  asks : s.Asks h h'
  room : granted h h' = true → s'.Holds (some (v.getD [])) ∧ size ≤ s'.capacity
  unchanged : granted h h' = false → s' = s

theorem reserve_refused {size : UInt16} (hsmall : ¬ (s.buffer.isSome ∧ s.capacity ≥ size))
    (hout : h.outcome h.calls = none) : s.reserve size h = .ok (false, s) h.called := by
  rw [reserve, if_neg hsmall, bind_ok (changeBuffer_refused hout size)]
  rfl

theorem reserve_granted {size : UInt16} (hsmall : ¬ (s.buffer.isSome ∧ s.capacity ≥ size)) {fresh : Nat → UInt8}
    (hout : h.outcome h.calls = some fresh) {s' : WString} (hs' :
      terminateEmpty {s with buffer := some (resize (s.buffer.getD []) (size + 1).toNat fresh), capacity := size} =
        .ok s') : s.reserve size h = .ok (true, s') h.called := by
  rw [reserve, if_neg hsmall, bind_ok (changeBuffer_granted hout size)]
  dsimp only
  rw [if_pos rfl, check_bind hs']
  rfl

private theorem grow_holds (hs : s.Holds v) {size : UInt16} (hsmall : ¬ (s.buffer.isSome ∧ s.capacity ≥ size))
    (hsize : size.toNat < 65535) (fresh : Nat → UInt8) : ∃ s' : WString,
      terminateEmpty {s with buffer := some (resize (s.buffer.getD []) (size + 1).toNat fresh), capacity := size} = .ok s' ∧
      s'.Holds (some (v.getD [])) ∧ s'.capacity = size := by
  have hnext : (size + 1).toNat = size.toNat + 1 := toNat_next (by omega)
  cases hs with
  | invalid =>
    have hlength := resize_length [] (size + 1).toNat fresh
    obtain ⟨x,rest,hblock⟩ := List.exists_cons_of_length_eq_add_one (hlength.trans hnext)
    refine ⟨⟨some (0 :: rest),size,0⟩,?_,.valid List.not_mem_nil rfl ?_ (by omega),rfl⟩
    · dsimp only [Option.getD]
      rw [hblock]
      rfl
    · rw [hblock, hnext] at hlength
      exact hlength
  | @valid t rest capacity len clean length allocated bound =>
    have hcap : capacity.toNat < size.toNat := by
      have hlt : ¬ capacity ≥ size := fun h => hsmall ⟨rfl,h⟩
      exact UInt16.lt_iff_toNat_lt.mp (UInt16.not_le.mp hlt)
    have hfits : (t ++ [0]).length ≤ (size + 1).toNat := by
      simp only [List.length_append, List.length_cons, List.length_nil] at allocated ⊢
      omega
    obtain ⟨rest',hblock,hlength⟩ := resize_append (t ++ [0]) rest hfits fresh
    rw [List.append_assoc, List.append_assoc, List.singleton_append, List.singleton_append] at hblock
    refine ⟨⟨some (t ++ 0 :: rest'),size,len⟩,?_,.valid clean length ?_ (by omega),rfl⟩
    · dsimp only [Option.getD]
      rw [hblock, terminateEmpty]
      split_ifs with hzero
      · have ht : t = [] := List.length_eq_zero_iff.mp (length.symm.trans (congrArg UInt16.toNat hzero))
        subst ht
        rfl
      · rfl
    · simp only [List.length_append, List.length_cons, List.length_nil] at hlength ⊢
      omega

theorem reserve_spec (hs : s.Holds v) {size : UInt16} (hsize : size.toNat < 65535) (h : Heap) :
    ∃ h' s', s.reserve size h = .ok (granted h h', s') h' ∧ Reserves s v size h h' s' := by
  by_cases henough : s.buffer.isSome ∧ s.capacity ≥ size
  · refine ⟨h,s,?_,.inl ⟨rfl,henough.1⟩,fun _ => ⟨?_,henough.2⟩,fun hno => ?_⟩
    · rw [reserve, if_pos henough, granted_self]
      rfl
    · cases hs with
      | invalid => exact absurd henough.1 (by decide)
      | valid clean length allocated bound => exact .valid clean length allocated bound
    · exact absurd hno (by simp [granted_self])
  · cases hout : h.outcome h.calls with
    | none =>
      have hgranted : granted h h.called = false := by rw [granted_called, hout]; rfl
      refine ⟨h.called,s,?_,.inr rfl,fun hyes => ?_,fun _ => rfl⟩
      · rw [hgranted]
        exact reserve_refused henough hout
      · exact absurd hyes (by simp [hgranted])
    | some fresh =>
      have hgranted : granted h h.called = true := by rw [granted_called, hout]; rfl
      obtain ⟨s',hgrow,hholds,hcap⟩ := grow_holds hs henough hsize fresh
      refine ⟨h.called,s',?_,.inr rfl,fun _ => ⟨hholds,UInt16.le_of_eq hcap.symm⟩,fun hno => ?_⟩
      · rw [hgranted]
        exact reserve_granted henough hout hgrow
      · exact absurd hno (by simp [hgranted])

theorem Holds.block {u : List UInt8} (hs : s.Holds (some u)) : 0 ∉ u ∧ s.capacity.toNat + 1 < 65536 ∧
    ∃ rest, s.buffer = some (u ++ 0 :: rest) ∧ (u ++ 0 :: rest).length = s.capacity.toNat + 1 := by
  cases hs with
  | valid clean length allocated bound => exact ⟨clean,bound,_,rfl,allocated⟩

theorem Holds.length_lt {u : List UInt8} (hs : s.Holds (some u)) : u.length < 65535 := by
  obtain ⟨_,hsize,rest,_,hblock⟩ := hs.block
  rw [List.length_append, List.length_cons] at hblock
  omega

theorem putString_holds (s : WString) (pre : List UInt8) {tail t c : List UInt8} (hb : s.buffer = some (pre ++ tail))
    (hpre : 0 ∉ pre) (hc : Terminated t c) (hroom : t.length < tail.length)
    (hcap : (pre ++ tail).length = s.capacity.toNat + 1) (hsize : s.capacity.toNat + 1 < 65536) {len : UInt16}
    (hlen : len.toNat = pre.length + t.length) :
    ∃ b, s.putString pre.length c = .ok {s with buffer := some b} ∧ Holds ⟨some b,s.capacity,len⟩ (some (pre ++ t)) := by
  have hsplit : tail = tail.take (t.length + 1) ++ tail.drop (t.length + 1) := (List.take_append_drop _ _).symm
  have hold : (tail.take (t.length + 1)).length = t.length + 1 := by
    rw [List.length_take]
    omega
  refine ⟨pre ++ t ++ 0 :: tail.drop (t.length + 1),?_,.valid ?_ ?_ ?_ hsize⟩
  · rw [putString, hb, deref, ok_bind, hsplit, strcpy_text hc pre hold, List.append_assoc, ← hsplit]
    rfl
  · exact fun h0 => (List.mem_append.mp h0).elim hpre hc.clean
  · rw [List.length_append, hlen]
  · simp only [List.length_append, List.length_cons, List.length_drop] at hcap ⊢
    omega

theorem copy_spec (hs : s.Holds v) {t c : List UInt8} (hc : Terminated t c) (ht : t.length < 65535) (h : Heap) :
    ∃ h' s', s.copy c (UInt16.ofNat t.length) h = .ok s' h' ∧ s.Asks h h' ∧
      s'.Holds (if granted h h' then some t else none) := by
  have hlen := toNat_length ht
  obtain ⟨h',s',hreserve,hout,hroom,_⟩ := reserve_spec hs (hlen.symm ▸ ht) h
  refine ⟨h',?_⟩
  rw [copy, bind_ok hreserve]
  dsimp only
  cases hg : granted h h' with
  | false => exact ⟨_,rfl,hout,.invalid⟩
  | true =>
    obtain ⟨hholds,hcap⟩ := hroom hg
    obtain ⟨_,hsize,rest,hb,hblock⟩ := hholds.block
    rw [UInt16.le_iff_toNat_le, hlen] at hcap
    have hroom : t.length < (v.getD [] ++ 0 :: rest).length := by omega
    obtain ⟨b,hput,hfinal⟩ := putString_holds {s' with len := UInt16.ofNat t.length} [] hb
      List.not_mem_nil hc hroom hblock hsize (hlen.trans (Nat.zero_add _).symm)
    refine ⟨_,?_,hout,hfinal⟩
    rw [if_pos rfl]
    exact check_ok hput

theorem assignCstr_spec (hs : s.Holds v) {t c : List UInt8} (hc : Terminated t c) (ht : t.length < 65535) (h : Heap) :
    ∃ h' s', s.assignCstr (some c) h = .ok s' h' ∧ s.Asks h h' ∧
      s'.Holds (if granted h h' then some t else none) := by
  rw [assignCstr, check_bind (strlen_text hc)]
  exact copy_spec hs hc ht h

theorem assign_spec (hs : s.Holds v) {rhs : WString} {w : Option (List UInt8)} (hw : rhs.Holds w) (h : Heap) :
    ∃ h' s', s.assign rhs h = .ok s' h' ∧ s'.Holds (if granted h h' then w else none) := by
  cases hw with
  | invalid => exact ⟨h,_,rfl,by rw [ite_self]; exact .invalid⟩
  | @valid t rest capacity len clean length allocated size =>
    have hlen := eq_ofNat length
    have ht := (Holds.valid clean length allocated size).length_lt
    obtain ⟨h',s',hcopy,_,hholds⟩ := copy_spec hs ⟨clean,rest,rfl⟩ ht h
    exact ⟨h',s',hlen ▸ hcopy,hholds⟩

/-- What joining does to the text: an invalid operand and one too many for the memory leave
it alone, and so does the empty text even if there is nothing to join it to. -/
def joined (ok : Bool) (v : Option (List UInt8)) : Option (List UInt8) → Option (List UInt8)
  | none => v
  | some [] => v
  | some t => if ok then some (v.getD [] ++ t) else v

theorem concatBytes_spec (hs : s.Holds v) {t c : List UInt8} (hc : Terminated t c)
    (hfit : (v.getD []).length + t.length < 65535) (h : Heap) :
    ∃ h' s', s.concatBytes (some c) (UInt16.ofNat t.length) h = .ok (granted h h', s') h' ∧
      s'.Holds (joined (granted h h') v (some t)) := by
  have hlen := toNat_length (Nat.lt_of_le_of_lt (Nat.le_add_left t.length _) hfit)
  cases t with
  | nil => exact ⟨h,s,by rw [granted_self]; rfl,hs⟩
  | cons x t =>
    have hzero : UInt16.ofNat (x :: t).length ≠ 0 := fun h0 => absurd (hlen.symm.trans (congrArg UInt16.toNat h0)) nofun
    have hsum : (s.len + UInt16.ofNat (x :: t).length).toNat = (v.getD []).length + (x :: t).length := by
      rw [UInt16.toNat_add, hlen, hs.len_toNat]
      exact Nat.mod_eq_of_lt (by omega)
    obtain ⟨h',s',hreserve,_,hroom,hsame⟩ := reserve_spec hs (hsum.symm ▸ hfit) h
    refine ⟨h',?_⟩
    rw [concatBytes]
    dsimp only
    rw [if_neg hzero, bind_ok hreserve]
    dsimp only
    cases hg : granted h h' with
    | false =>
      rw [hsame hg]
      exact ⟨s,rfl,hs⟩
    | true =>
      obtain ⟨hholds,hcap⟩ := hroom hg
      obtain ⟨hclean,hsize,rest,hb,hblock⟩ := hholds.block
      rw [UInt16.le_iff_toNat_le, hsum] at hcap
      have hfree : (x :: t).length < (0 :: rest).length := by
        rw [List.length_append] at hblock
        omega
      obtain ⟨b,hput,hfinal⟩ := putString_holds s' (v.getD []) hb hclean hc hfree hblock hsize hsum
      refine ⟨_,?_,hfinal⟩
      rw [if_pos rfl, hholds.len_toNat, Option.getD_some, check_bind hput]
      rfl

end WString

/-- The text an operand stands for, if it has one. -/
inductive Operand.Denotes (base : UInt8) : Operand → Option (List UInt8) → Prop
  | string {t : WString} {w : Option (List UInt8)} (h : t.Holds w) : Denotes base (.string t) w
  | null : Denotes base (.cstr none) none
  | cstr {t c : List UInt8} (h : Terminated t c) : Denotes base (.cstr (some c)) (some t)
  | char {c : UInt8} (h : c ≠ 0) : Denotes base (.char c) (some [c])
  | number (n : Number) : Denotes base (.number n) (some (n.text base))

private theorem terminated_char {c : UInt8} (h : c ≠ 0) : Terminated [c] [c, 0] :=
  ⟨fun h0 => h (List.mem_singleton.mp h0).symm,[],rfl⟩

private theorem terminated_format {room : Nat} {n : Number} {base : UInt8} (h : (n.text base).length < room) :
    format room (n.text base) = .ok (n.text base ++ [0]) ∧ Terminated (n.text base) (n.text base ++ [0]) :=
  ⟨if_pos h,n.text_clean base,[],rfl⟩

namespace WString
variable {s : WString} {v : Option (List UInt8)}

theorem construct_spec {base : UInt8} {x : Operand} {o : Option (List UInt8)} (hx : x.Denotes base o)
    (hfit : (o.getD []).length < 65535) (h : Heap) :
    ∃ h' s', construct base x h = .ok s' h' ∧ s'.Holds (if granted h h' then o else none) := by
  have hcopy {t c : List UInt8} (hc : Terminated t c) (ht : t.length < 65535) : ∃ h' s',
      init.assignCstr (some c) h = .ok s' h' ∧
        s'.Holds (if granted h h' then some t else none) := by
    obtain ⟨h',s',hassign,_,hholds⟩ := assignCstr_spec .invalid hc ht h
    exact ⟨h',s',hassign,hholds⟩
  cases hx with
  | string ht => exact assign_spec .invalid ht h
  | null => exact ⟨h,init,rfl,by rw [ite_self]; exact .invalid⟩
  | cstr hc => exact hcopy hc hfit
  | char hc => exact hcopy (terminated_char hc) (by simp)
  | number n =>
    obtain ⟨hformat,hc⟩ := terminated_format (n.text_lt_constructorRoom base)
    rw [construct, check_bind hformat]
    exact hcopy hc hfit

theorem concat_none {x : Operand} (hx : x.Denotes 10 none) (h : Heap) : s.concat x h = .ok (false, s) h := by
  cases hx with
  | string ht =>
    cases ht
    rfl
  | null => rfl

theorem concat_some {x : Operand} {t : List UInt8} (hx : x.Denotes 10 (some t)) (h : Heap) :
    ∃ c, Terminated t c ∧ s.concat x h = s.concatBytes (some c) (UInt16.ofNat t.length) h := by
  cases hx with
  | string ht =>
    cases ht with
    | @valid _ rest capacity len clean length allocated size =>
      exact ⟨t ++ 0 :: rest,⟨clean,rest,rfl⟩,by rw [concat, eq_ofNat length]⟩
  | @cstr _ c hc => exact ⟨c,hc,by rw [concat, check_bind (strlen_text hc)]⟩
  | char hc => exact ⟨_,terminated_char hc,rfl⟩
  | number n =>
    obtain ⟨hformat,hc⟩ := terminated_format n.text_lt_concatRoom
    exact ⟨_,hc,by rw [concat, check_bind hformat, check_bind (strlen_text hc)]⟩

theorem concat_spec (hs : s.Holds v) {x : Operand} {o : Option (List UInt8)} (hx : x.Denotes 10 o)
    (hfit : (v.getD []).length + (o.getD []).length < 65535) (h : Heap) :
    ∃ h' s', s.concat x h = .ok (o.isSome && granted h h', s') h' ∧ s'.Holds (joined (granted h h') v o) := by
  cases o with
  | none => exact ⟨h,s,concat_none hx h,hs⟩
  | some t =>
    obtain ⟨c,hc,hconcat⟩ := concat_some (s := s) hx h
    rw [hconcat]
    exact concatBytes_spec hs hc hfit h

/-- What `operator +` does to the text on its left. -/
def summed (ok : Bool) (v o : Option (List UInt8)) : Option (List UInt8) :=
  if o.isSome && ok then joined ok v o else none

theorem plus_spec (hs : s.Holds v) {x : Operand} {o : Option (List UInt8)} (hx : x.Denotes 10 o)
    (hfit : (v.getD []).length + (o.getD []).length < 65535) (h : Heap) :
    ∃ h' s', s.plus x h = .ok s' h' ∧ s'.Holds (summed (granted h h') v o) := by
  obtain ⟨h',s',hconcat,hholds⟩ := concat_spec hs hx hfit h
  refine ⟨h',?_⟩
  rw [plus, bind_ok hconcat, summed]
  dsimp only
  split_ifs
  · exact ⟨s',rfl,hholds⟩
  · exact ⟨_,rfl,.invalid⟩

theorem reserve_holds (hs : s.Holds v) {size : UInt16} (hsize : size.toNat < 65535) (h : Heap) :
    ∃ h' s', s.reserve size h = .ok (granted h h', s') h' ∧
      s'.Holds (if granted h h' then some (v.getD []) else v) := by
  obtain ⟨h',s',hreserve,_,hroom,hsame⟩ := reserve_spec hs hsize h
  refine ⟨h',s',hreserve,?_⟩
  split_ifs with hg
  · exact (hroom hg).1
  · rw [hsame (Bool.eq_false_iff.mpr hg)]
    exact hs

end WString

end ArduinoAT90USB.Core
