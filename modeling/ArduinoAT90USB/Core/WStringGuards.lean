import ArduinoAT90USB.Core.WStringSound

/-! Which queries use NULL: those that check for it do not, nor do those that look at the
length first, as an invalid String has none. -/
namespace ArduinoAT90USB.Core
open Foundation Foundation.Memory Foundation.CString Foundation.TaskLogic

namespace WString

theorem Shows.isSome {s : WString} {v : Option (List UInt8)} (hs : s.Shows v) (hlen : s.len ≠ 0) :
    s.buffer.isSome = true := by
  cases hs with
  | invalid => exact absurd rfl hlen
  | valid length allocated size => rfl

theorem ne_zero_of_not_ge {i n : UInt16} (h : ¬ i ≥ n) : n ≠ 0 := by
  rintro rfl
  exact h UInt16.zero_le

section Accesses
variable {s : WString} (hs : s.buffer.isSome = true)
include hs

theorem deref_guarded : Guarded (deref s.buffer) := by
  obtain ⟨b,hb⟩ := Option.isSome_iff_exists.mp hs
  rw [hb]
  exact guarded_ok b

theorem pointer_guarded (i : Nat) : Guarded (s.pointer i) :=
  guarded_bind (deref_guarded hs) fun _ _ => guarded_ite (fun _ => guarded_ok _) (fun _ => guarded_bounds)

theorem get_guarded (i : Nat) : Guarded (s.get i) := guarded_bind (deref_guarded hs) fun b _ => load_guarded b i

theorem put_guarded (i : Nat) (c : UInt8) : Guarded (s.put i c) :=
  guarded_bind (deref_guarded hs) fun b _ => guarded_bind (store_guarded b i c) fun _ _ => guarded_ok _

theorem putString_guarded (i : Nat) (c : List UInt8) : Guarded (s.putString i c) :=
  guarded_bind (deref_guarded hs) fun b _ => guarded_bind (strcpy_guarded c b i) fun _ _ => guarded_ok _

end Accesses

section Comparing
variable {s t : WString} {v w : Option (List UInt8)}

private theorem isSome_of_not_isNone (h : ¬ s.buffer.isNone = true) : s.buffer.isSome = true :=
  Option.isNone_eq_false_iff.mp (Bool.eq_false_iff.mpr h)

private theorem both_isSome (h : ¬ (s.buffer.isNone = true ∨ t.buffer.isNone = true)) :
    s.buffer.isSome = true ∧ t.buffer.isSome = true :=
  (not_or.mp h).imp isSome_of_not_isNone isSome_of_not_isNone

theorem compareTo_guarded (s t : WString) : Guarded (s.compareTo t) := by
  refine guarded_ite (fun _ => ?_) (fun hboth => ?_)
  · refine guarded_ite (fun h => guarded_bind (get_guarded h.1 0) fun _ _ => guarded_ok _) (fun _ => ?_)
    exact guarded_ite (fun h => guarded_bind (get_guarded h.1 0) fun _ _ => guarded_ok _) (fun _ => guarded_ok _)
  · obtain ⟨hs,ht⟩ := both_isSome hboth
    refine guarded_bind (pointer_guarded hs 0) fun _ _ => ?_
    exact guarded_bind (pointer_guarded ht 0) fun _ _ => strcmp_guarded _ _

theorem equals_guarded (s t : WString) : Guarded (s.equals t) :=
  guarded_ite (fun _ => guarded_bind (compareTo_guarded s t) fun _ _ => guarded_ok _) (fun _ => guarded_ok _)

theorem equalsCstr_guarded (hs : s.Shows v) (cstr : Option (List UInt8)) : Guarded (s.equalsCstr cstr) := by
  refine guarded_ite (fun _ => ?_) (fun hlen => ?_)
  · cases cstr with
    | none => exact guarded_ok _
    | some c => exact guarded_bind (load_guarded c 0) fun _ _ => guarded_ok _
  · cases cstr with
    | none => exact guarded_bind (get_guarded (hs.isSome hlen) 0) fun _ _ => guarded_ok _
    | some c =>
      refine guarded_bind (pointer_guarded (hs.isSome hlen) 0) fun _ _ => ?_
      exact guarded_bind (strcmp_guarded _ _) fun _ _ => guarded_ok _

theorem sameIgnoringCase_guarded (a b : List UInt8) : Guarded (sameIgnoringCase a b) := by
  induction a generalizing b with
  | nil =>
    rw [sameIgnoringCase]
    exact guarded_bounds
  | cons x a ih =>
    cases b with
    | nil => exact guarded_ite (fun _ => guarded_ok _) (fun _ => guarded_bounds)
    | cons y b => exact guarded_ite (fun _ => guarded_ok _) (fun _ => guarded_ite (fun _ => guarded_ok _) fun _ => ih b)

theorem equalsIgnoreCase_guarded (hs : s.Shows v) (ht : t.Shows w) : Guarded (s.equalsIgnoreCase t) := by
  refine guarded_ite (fun _ => guarded_ok _) (fun hsame => guarded_ite (fun _ => guarded_ok _) (fun hlen => ?_))
  have hsame : s.len = t.len := Classical.not_not.mp hsame
  refine guarded_bind (pointer_guarded (hs.isSome hlen) 0) fun _ _ => ?_
  exact guarded_bind (pointer_guarded (ht.isSome (hsame ▸ hlen)) 0) fun _ _ => sameIgnoringCase_guarded _ _

theorem startsWithAt_guarded (s t : WString) (offset : UInt16) : Guarded (s.startsWithAt t offset) := by
  refine guarded_ite (fun _ => guarded_ok _) (fun hgo => ?_)
  obtain ⟨hs,ht⟩ := both_isSome (not_or.mp hgo).2
  refine guarded_bind (pointer_guarded hs _) fun _ _ => ?_
  refine guarded_bind (pointer_guarded ht 0) fun _ _ => ?_
  exact guarded_bind (strncmp_guarded _ _ _) fun _ _ => guarded_ok _

theorem startsWith_guarded (s t : WString) : Guarded (s.startsWith t) :=
  guarded_ite (fun _ => guarded_ok _) (fun _ => startsWithAt_guarded s t 0)

theorem endsWith_guarded (s t : WString) : Guarded (s.endsWith t) := by
  refine guarded_ite (fun _ => guarded_ok _) (fun hgo => ?_)
  obtain ⟨hs,ht⟩ := both_isSome (not_or.mp hgo).2
  refine guarded_bind (pointer_guarded hs _) fun _ _ => ?_
  refine guarded_bind (pointer_guarded ht 0) fun _ _ => ?_
  exact guarded_bind (strcmp_guarded _ _) fun _ _ => guarded_ok _

end Comparing

section Searching
variable {s t : WString} {v w : Option (List UInt8)}

theorem charAt_guarded (s : WString) (loc : UInt16) : Guarded (s.charAt loc) := by
  refine guarded_ite (fun _ => guarded_ok _) (fun hgo => ?_)
  exact get_guarded (isSome_of_not_isNone (not_or.mp hgo).2) _

theorem getBytes_guarded (hs : s.Shows v) (buf : Option Block) (bufsize index : UInt16) :
    Guarded (s.getBytes buf bufsize index) := by
  cases buf with
  | none => exact guarded_ok _
  | some buf =>
    refine guarded_ite (fun _ => guarded_ok _) (fun _ => guarded_ite (fun _ => ?_) (fun hin => ?_))
    · exact guarded_map _ (store_guarded _ _ _)
    · refine guarded_bind (pointer_guarded (hs.isSome (ne_zero_of_not_ge hin)) _) fun _ _ => ?_
      exact guarded_bind (strncpy_guarded _ _ _ _) fun _ _ => guarded_map _ (store_guarded _ _ _)

theorem indexOfChar_guarded (hs : s.Shows v) (ch : UInt8) (fromIndex : UInt16) :
    Guarded (s.indexOfChar ch fromIndex) := by
  refine guarded_ite (fun _ => guarded_ok _) (fun hin => ?_)
  refine guarded_bind (pointer_guarded (hs.isSome (ne_zero_of_not_ge hin)) _) fun _ _ => ?_
  exact guarded_bind (strchr_guarded _ _) fun _ _ => guarded_ok _

theorem indexOf_guarded (hs : s.Shows v) {fromIndex : UInt16} (ht : ¬ fromIndex ≥ s.len → t.buffer.isSome = true) :
    Guarded (s.indexOf t fromIndex) := by
  refine guarded_ite (fun _ => guarded_ok _) (fun hin => ?_)
  refine guarded_bind (pointer_guarded (hs.isSome (ne_zero_of_not_ge hin)) _) fun _ _ => ?_
  refine guarded_bind (pointer_guarded (ht hin) 0) fun _ _ => ?_
  exact guarded_bind (strstr_guarded _ _) fun _ _ => guarded_ok _

theorem lastIndexOfChar_guarded (hs : s.Shows v) (ch : UInt8) (fromIndex : UInt16) :
    Guarded (s.lastIndexOfChar ch fromIndex) := by
  refine guarded_ite (fun _ => guarded_ok _) (fun hin => ?_)
  have hvalid := hs.isSome (ne_zero_of_not_ge hin)
  refine guarded_bind (get_guarded hvalid _) fun _ _ => guarded_bind (put_guarded hvalid _ _) fun cut hcut => ?_
  refine guarded_bind (pointer_guarded (put_isSome hcut) _) fun _ _ => guarded_bind (strrchr_guarded _ _) fun _ _ => ?_
  exact guarded_bind (put_guarded (put_isSome hcut) _ _) fun _ _ => guarded_ok _

theorem lastIndexLoop_guarded (needle b : List UInt8) (fromIndex fuel p : Nat) (found : Int16) :
    Guarded (lastIndexLoop needle b fromIndex fuel p found) := by
  induction fuel generalizing p found with
  | zero => exact guarded_hang
  | succ fuel ih =>
    refine guarded_ite (fun _ => guarded_bind (strstr_guarded _ _) fun i _ => ?_) (fun _ => guarded_ok _)
    cases i with
    | none => exact guarded_ok _
    | some i => exact ih _ _

theorem lastIndexOf_guarded (hs : s.Shows v) (ht : t.Shows w) (fromIndex : UInt16) :
    Guarded (s.lastIndexOf t fromIndex) := by
  refine guarded_ite (fun _ => guarded_ok _) (fun hgo => ?_)
  obtain ⟨htlen,hgo⟩ := not_or.mp hgo
  refine guarded_bind (pointer_guarded (hs.isSome (not_or.mp hgo).1) 0) fun _ _ => ?_
  exact guarded_bind (pointer_guarded (ht.isSome htlen) 0) fun _ _ => lastIndexLoop_guarded _ _ _ _ _ _

theorem atolDigits_guarded (c : List UInt8) (n : Int32) : Guarded (atolDigits c n) := by
  induction c generalizing n with
  | nil => exact guarded_bounds
  | cons x c ih => exact guarded_ite (fun _ => ih _) (fun _ => guarded_ok _)

theorem atol_guarded (c : List UInt8) : Guarded (atol c) := by
  induction c with
  | nil => exact guarded_bounds
  | cons x c ih =>
    refine guarded_ite (fun _ => ih) (fun _ => guarded_ite (fun _ => guarded_map _ (atolDigits_guarded _ _)) fun _ => ?_)
    exact guarded_ite (fun _ => atolDigits_guarded _ _) (fun _ => atolDigits_guarded _ _)

theorem toInt_guarded (s : WString) : Guarded s.toInt :=
  guarded_ite (fun hs => guarded_bind (pointer_guarded hs 0) fun _ _ => atol_guarded _) (fun _ => guarded_ok _)

end Searching

section Copying
variable {s : WString}

theorem terminateEmpty_guarded (hs : s.buffer.isSome = true) : Guarded s.terminateEmpty :=
  guarded_ite (fun _ => put_guarded hs 0 0) (fun _ => guarded_ok _)

theorem terminateEmpty_isSome (hs : s.buffer.isSome = true) {s' : WString} (h : s.terminateEmpty = .ok s') :
    s'.buffer.isSome = true := by
  unfold terminateEmpty at h
  split_ifs at h
  · exact put_isSome h
  · cases h
    exact hs

theorem reserve_guarded (s : WString) (size : UInt16) (h : Heap) :
    GuardedRun (fun r => r.1 = true → r.2.buffer.isSome = true) (s.reserve size h) := by
  by_cases henough : s.buffer.isSome ∧ s.capacity ≥ size
  · rw [reserve, if_pos henough]
    exact fun _ => henough.1
  · cases hout : h.outcome h.calls with
    | none =>
      rw [reserve_refused henough hout]
      exact fun hno => absurd hno Bool.false_ne_true
    | some fresh =>
      rw [reserve, if_neg henough, bind_ok (changeBuffer_granted hout size)]
      dsimp only
      rw [if_pos rfl]
      refine guardedRun_bind (guardedRun_check (terminateEmpty_guarded rfl) fun _ => terminateEmpty_isSome rfl) ?_
      exact fun s' h' hs' _ => hs'

theorem assignCstr_guarded (s : WString) (c : List UInt8) (h : Heap) :
    GuardedRun (fun _ => True) (s.assignCstr (some c) h) := by
  refine guardedRun_bind (guardedRun_check (Q := fun _ => True) (strlen_guarded c) fun _ _ => trivial) fun n h' _ => ?_
  refine guardedRun_bind (reserve_guarded s _ h') ?_
  rintro ⟨reserved,s'⟩ h'' hs'
  cases reserved with
  | false => trivial
  | true =>
    have hput := putString_guarded (s := {s' with len := UInt16.ofNat n}) (hs' rfl) 0 c
    exact guardedRun_check hput fun _ _ => trivial

theorem copyRange_guarded (hs : s.buffer.isSome = true) (out : WString) (left right : UInt16) (h : Heap) :
    GuardedRun (fun _ => True) (s.copyRange out left right h) := by
  refine guardedRun_bind (guardedRun_check (Q := fun _ => True) (get_guarded hs _) fun _ _ => trivial) fun temp h _ => ?_
  refine guardedRun_bind (guardedRun_check (put_guarded hs _ _) fun _ => put_isSome) fun cut h hcut => ?_
  refine guardedRun_bind (guardedRun_check (Q := fun _ => True) (pointer_guarded hcut _) fun _ _ => trivial)
    fun text h _ => ?_
  refine guardedRun_bind (assignCstr_guarded out text h) fun out h _ => ?_
  exact guardedRun_bind (guardedRun_check (Q := fun _ => True) (put_guarded hcut _ _) fun _ _ => trivial)
    fun s h _ => trivial

theorem substringOrdered_guarded {left : UInt16} (hs : ¬ left > s.len → s.buffer.isSome = true) (right : UInt16)
    (h : Heap) : GuardedRun (fun _ => True) (s.substringOrdered left right h) := by
  refine guardedRun_bind (assignCstr_guarded .init [0] h) fun out h _ => ?_
  by_cases hbeyond : left > s.len
  · rw [if_pos hbeyond]
    trivial
  · rw [if_neg hbeyond]
    exact copyRange_guarded (hs hbeyond) out left _ h

end Copying

end WString

end ArduinoAT90USB.Core
