import ArduinoAT90USB.Foundation.TaskLogic

/-! Blocks of bytes with checked accesses, and an allocator whose refusals and whose fresh
bytes are given from outside. -/
namespace ArduinoAT90USB.Foundation.Memory
open TaskLogic

/-- What stops a C function: NULL used as a block, an access outside the block, or a loop
that has not ended within the steps it was given. -/
inductive Fault
  | null
  | bounds
  | hang
deriving DecidableEq

abbrev Checked := Except Fault
abbrev Block := List UInt8

def deref : Option Block → Checked Block
  | some b => .ok b
  | none => .error .null

def load (b : Block) (i : Nat) : Checked UInt8 :=
  match b[i]? with
  | some x => .ok x
  | none => .error .bounds

def store (b : Block) (i : Nat) (x : UInt8) : Checked Block :=
  if i < b.length then .ok (b.set i x) else .error .bounds

/-- `load` and `store` for an array of fixed size. -/
def loadAt {n : Nat} (v : Vector UInt8 n) (i : Nat) : Checked UInt8 :=
  match v[i]? with
  | some x => .ok x
  | none => .error .bounds

def storeAt {n : Nat} (v : Vector UInt8 n) (i : Nat) (x : UInt8) : Checked (Vector UInt8 n) :=
  if h : i < n then .ok (v.set i x h) else .error .bounds

def copyInto {n : Nat} : List UInt8 → Nat → Vector UInt8 n → Checked (Vector UInt8 n)
  | [], _, v => .ok v
  | x :: rest, i, v => do
    let v ← storeAt v i x
    copyInto rest (i + 1) v

def copyFrom {n : Nat} (v : Vector UInt8 n) (k : Nat) : Checked (List UInt8) := (List.range k).mapM (loadAt v)

/-- The outcome of every call of `realloc`, where `none` is a refusal and otherwise the
bytes found in new memory are given, and how many calls there have been. -/
structure Heap where
  outcome : Nat → Option (Nat → UInt8)
  calls : Nat

def Heap.called (h : Heap) : Heap := {h with calls := h.calls + 1}

abbrev Alloc := EStateM Fault Heap

/-- A computation that does not allocate. -/
def check {α : Type} (x : Checked α) : Alloc α := fun h =>
  match x with
  | .ok a => .ok a h
  | .error e => .error e h

def resize (b : Block) (n : Nat) (fresh : Nat → UInt8) : Block :=
  b.take n ++ (List.range (n - b.length)).map fun i => fresh (b.length + i)

/-- `realloc`; a refusal leaves the old block where it is. -/
def realloc (p : Option Block) (size : UInt16) : Alloc (Option Block) := fun h =>
  .ok ((h.outcome h.calls).map (resize (p.getD []) size.toNat)) h.called

/-- Among the calls from `h` to `h'`, the last one was granted, if there was one. -/
def granted (h h' : Heap) : Bool := h'.calls = h.calls || (h.outcome (h'.calls - 1)).isSome

/-- Some call from `h` to `h'` was refused. -/
def Refused (h h' : Heap) : Prop := ∃ i, h.calls ≤ i ∧ i < h'.calls ∧ h.outcome i = none

section Rules
variable {α β : Type} {h : Heap}

theorem ok_bind (a : α) (k : α → Checked β) : ((.ok a : Checked α) >>= k) = k a := rfl

theorem bind_eq_ok {x : Checked α} {k : α → Checked β} {b : β} (h : (x >>= k) = .ok b) :
    ∃ a, x = .ok a ∧ k a = .ok b := by
  cases x with
  | ok a => exact ⟨a,rfl,h⟩
  | error e => cases h

theorem map_eq_ok {x : Checked α} {f : α → β} {b : β} (h : f <$> x = .ok b) : ∃ a, x = .ok a ∧ f a = b := by
  cases x with
  | ok a => exact ⟨a,rfl,Except.ok.inj h⟩
  | error e => cases h

theorem check_ok {x : Checked α} {a : α} (hx : x = .ok a) : check x h = .ok a h := by
  subst hx
  rfl

theorem check_bind {x : Checked α} {a : α} (hx : x = .ok a) (k : α → Alloc β) :
    (check x >>= k) h = k a h := by
  subst hx
  rfl

theorem check_eq_ok {x : Checked α} {a : α} {h' : Heap} (ha : check x h = .ok a h') : x = .ok a := by
  cases x with
  | ok b =>
    cases ha
    rfl
  | error e => cases ha

theorem check_bind_eq_ok {x : Checked α} {k : α → Alloc β} {b : β} {h' : Heap} (hb : (check x >>= k) h = .ok b h') :
    ∃ a, x = .ok a ∧ k a h = .ok b h' := by
  cases x with
  | ok a => exact ⟨a,rfl,hb⟩
  | error e => cases hb

theorem granted_self (h : Heap) : granted h h = true := by
  simp [granted]

theorem granted_called (h : Heap) : granted h h.called = (h.outcome h.calls).isSome := by
  simp [granted, Heap.called]

theorem resize_length (b : Block) (n : Nat) (fresh : Nat → UInt8) : (resize b n fresh).length = n := by
  rw [resize, List.length_append, List.length_take, List.length_map, List.length_range]
  omega

theorem resize_append (kept rest : Block) {n : Nat} (hn : kept.length ≤ n) (fresh : Nat → UInt8) :
    ∃ rest', resize (kept ++ rest) n fresh = kept ++ rest' ∧ kept.length + rest'.length = n := by
  refine ⟨(resize (kept ++ rest) n fresh).drop kept.length,?_,?_⟩
  · have htake : (resize (kept ++ rest) n fresh).take kept.length = kept := by
      rw [resize, List.take_append_of_le_length, List.take_take, Nat.min_eq_left hn, List.take_left']
      · rfl
      · rw [List.length_take, List.length_append]
        omega
    have hsplit := (List.take_append_drop kept.length (resize (kept ++ rest) n fresh)).symm
    rwa [htake] at hsplit
  · rw [List.length_drop, resize_length]
    omega

/-- New bytes are as they are found. -/
theorem resize_fresh {b : Block} {n i : Nat} (hi : b.length ≤ i) (hn : i < n) (fresh : Nat → UInt8) :
    (resize b n fresh)[i]? = some (fresh i) := by
  have htake : (b.take n).length = b.length := by
    rw [List.length_take]
    omega
  rw [resize,List.getElem?_append_right (by omega),htake,List.getElem?_map,List.getElem?_range (by omega),
    Option.map_some,Nat.add_sub_cancel' hi]

theorem store_append (pre rest : Block) (old x : UInt8) :
    store (pre ++ old :: rest) pre.length x = .ok (pre ++ x :: rest) := by
  rw [store, if_pos (by simp), List.set_append_right _ _ (Nat.le_refl _), Nat.sub_self]
  rfl

theorem store_other {b b' : Block} {i j : Nat} {x : UInt8} (h : store b i x = .ok b') (hne : i ≠ j) : b'[j]? = b[j]? := by
  rw [store] at h
  split at h
  · cases h
    exact List.getElem?_set_ne hne
  · cases h

theorem store_length {b b' : Block} {i : Nat} {x : UInt8} (h : store b i x = .ok b') :
    b'.length = b.length ∧ i < b.length := by
  rw [store] at h
  split at h
  · cases h
    exact ⟨List.length_set,‹_›⟩
  · cases h

theorem store_drop {b b' : Block} {i k : Nat} {x : UInt8} (h : store b i x = .ok b') (hk : i < k) : b'.drop k = b.drop k := by
  rw [store] at h
  split at h
  · cases h
    rw [List.drop_set,if_pos hk]
  · cases h

theorem load_append (pre rest : Block) (x : UInt8) : load (pre ++ x :: rest) pre.length = .ok x := by
  rw [load, List.getElem?_append_right (Nat.le_refl _), Nat.sub_self]
  rfl

theorem load_inside {b : Block} {i : Nat} (h : i < b.length) : load b i = .ok (b.getD i 0) := by
  rw [load, List.getD_eq_getElem?_getD, List.getElem?_eq_getElem h]
  rfl

section Arrays
variable {n : Nat} {v : Vector UInt8 n}

theorem storeAt_inside {i : Nat} (h : i < n) (x : UInt8) : storeAt v i x = .ok (v.set i x h) := dif_pos h

theorem loadAt_inside {i : Nat} (h : i < n) : loadAt v i = .ok v[i] := by
  rw [loadAt, Vector.getElem?_eq_getElem h]

theorem loadAt_eq {i : Nat} {x : UInt8} (h : v[i]? = some x) : loadAt v i = .ok x := by
  rw [loadAt, h]

/-- What is copied inside the array can be read there, and the rest is as it was. -/
theorem copyInto_inside (v : Vector UInt8 n) (data : List UInt8) {i : Nat} (h : i + data.length ≤ n) :
    ∃ v', copyInto data i v = .ok v' ∧ (∀ j < i, v'[j]? = v[j]?) ∧ ∀ j < data.length, v'[i + j]? = data[j]? := by
  induction data generalizing i v with
  | nil => exact ⟨v,rfl,fun j _ => rfl,fun j hj => absurd hj (Nat.not_lt_zero j)⟩
  | cons x rest ih =>
    rw [List.length_cons] at h
    have hi : i < n := by omega
    obtain ⟨v',hcopy,hbelow,hcopied⟩ := ih (v.set i x hi) (i := i + 1) (by omega)
    refine ⟨v',?_,fun j hj => ?_,fun j hj => ?_⟩
    · rw [copyInto, storeAt_inside hi]
      exact hcopy
    · rw [hbelow j (by omega), Vector.getElem?_set_ne]
      omega
    · cases j with
      | zero =>
        rw [Nat.add_zero, hbelow i (Nat.lt_succ_self i), Vector.getElem?_set_self]
        rfl
      | succ j =>
        rw [show i + (j + 1) = i + 1 + j by omega]
        exact hcopied j (by simpa using hj)

private theorem mapM_loadAt (is : List Nat) (h : ∀ i ∈ is, i < n) : ∃ data, is.mapM (loadAt v) = .ok data := by
  induction is with
  | nil => exact ⟨[],rfl⟩
  | cons i rest ih =>
    obtain ⟨x,hx⟩ : ∃ x, loadAt v i = .ok x := ⟨_,loadAt_inside (h i List.mem_cons_self)⟩
    obtain ⟨data,hdata⟩ := ih fun j hj => h j (List.mem_cons_of_mem i hj)
    refine ⟨x :: data,?_⟩
    rw [List.mapM_cons, hx, ok_bind, hdata]
    rfl

theorem copyFrom_inside {k : Nat} (h : k ≤ n) : ∃ data, copyFrom v k = .ok data := by
  apply mapM_loadAt
  intro i hi
  have := List.mem_range.mp hi
  omega

end Arrays

end Rules

section Refusal
variable {α β : Type} {h h' : Heap} {a b : α} {Q : α → Prop} {r : EStateM.Result Fault Heap α}

/-- No request was refused on the way, and what is returned satisfies `Q`. -/
def Served (Q : α → Prop) (h : Heap) : EStateM.Result Fault Heap α → Prop
  | .ok a h' => ¬ Refused h h' ∧ Q a
  | .error _ h' => ¬ Refused h h'

/-- A call that was refused a request returns `a`. -/
def OnRefusal (a : α) (h : Heap) (r : EStateM.Result Fault Heap α) : Prop := Refused h (final r) → r = .ok a (final r)

theorem not_refused_self (h : Heap) : ¬ Refused h h := fun ⟨_,hle,hlt,_⟩ => Nat.not_lt.mpr hle hlt

theorem not_refused_called {fresh : Nat → UInt8} (hout : h.outcome h.calls = some fresh) : ¬ Refused h h.called := by
  rintro ⟨i,hle,hlt,hnone⟩
  obtain rfl : i = h.calls := Nat.le_antisymm (Nat.le_of_lt_succ hlt) hle
  rw [hout] at hnone
  cases hnone

theorem Served.onRefusal (hr : Served Q h r) (a : α) : OnRefusal a h r := by
  intro hrefused
  cases r with
  | ok b h' => exact absurd hrefused hr.1
  | error e h' => exact absurd hrefused hr

theorem onRefusal_ok (a : α) (h h' : Heap) : OnRefusal a h (.ok a h') := fun _ => rfl

theorem onRefusal_self (a b : α) (h : Heap) : OnRefusal a h (.ok b h) := fun hrefused =>
  absurd hrefused (not_refused_self h)

theorem served_check {x : Checked α} (hx : ∀ a, x = .ok a → Q a) (hh : ¬ Refused h h') : Served Q h (check x h') := by
  cases x with
  | ok a => exact ⟨hh,hx a rfl⟩
  | error e => exact hh

theorem served_bind {m : Alloc α} {k : α → Alloc β} {R : β → Prop} (hm : Served Q h (m h'))
    (hk : ∀ a h'', Q a → ¬ Refused h h'' → Served R h (k a h'')) : Served R h ((m >>= k) h') := by
  cases he : m h' with
  | ok a h'' =>
    rw [he] at hm
    rw [bind_ok he]
    exact hk a h'' hm.2 hm.1
  | error e h'' =>
    rw [he] at hm
    rw [bind_error he]
    exact hm

theorem onRefusal_check_bind {x : Checked β} {k : β → Alloc α} (hk : ∀ b, x = .ok b → OnRefusal a h (k b h)) :
    OnRefusal a h ((check x >>= k) h) := by
  cases x with
  | ok b => exact hk b rfl
  | error e => exact fun hrefused => absurd hrefused (not_refused_self h)

end Refusal

/-- NULL is not used as a block. -/
def Guarded {α : Type} (x : Checked α) : Prop := x ≠ .error .null

/-- Nor is it on the way here, and what is returned satisfies `Q`. -/
def GuardedRun {α : Type} (Q : α → Prop) : EStateM.Result Fault Heap α → Prop
  | .ok a _ => Q a
  | .error e _ => e ≠ .null

section Guards
variable {α β : Type} {x y : Checked α} {h : Heap} {Q : α → Prop}

theorem guarded_ok (a : α) : Guarded (.ok a) := nofun

theorem guarded_bounds : Guarded (.error .bounds : Checked α) := nofun

theorem guarded_hang : Guarded (.error .hang : Checked α) := nofun

theorem guarded_bind {k : α → Checked β} (hx : Guarded x) (hk : ∀ a, x = .ok a → Guarded (k a)) :
    Guarded (x >>= k) := by
  cases x with
  | ok a => exact hk a rfl
  | error e => exact fun h => hx (congrArg Except.error (Except.error.inj h))

theorem guarded_map (f : α → β) (hx : Guarded x) : Guarded (f <$> x) := guarded_bind hx fun a _ => guarded_ok (f a)

theorem guarded_ite {p : Prop} [Decidable p] (hx : p → Guarded x) (hy : ¬ p → Guarded y) :
    Guarded (if p then x else y) := by
  split_ifs with hp
  · exact hx hp
  · exact hy hp

theorem load_guarded (b : Block) (i : Nat) : Guarded (load b i) := by
  unfold load
  split
  · exact guarded_ok _
  · exact guarded_bounds

theorem store_guarded (b : Block) (i : Nat) (v : UInt8) : Guarded (store b i v) :=
  guarded_ite (fun _ => guarded_ok _) (fun _ => guarded_bounds)

theorem guardedRun_check (hx : Guarded x) (hQ : ∀ a, x = .ok a → Q a) : GuardedRun Q (check x h) := by
  cases x with
  | ok a => exact hQ a rfl
  | error e => exact fun he => hx (congrArg Except.error he)

theorem guardedRun_bind {m : Alloc α} {k : α → Alloc β} {R : β → Prop} (hm : GuardedRun Q (m h))
    (hk : ∀ a h', Q a → GuardedRun R (k a h')) : GuardedRun R ((m >>= k) h) := by
  cases he : m h with
  | ok a h' =>
    rw [he] at hm
    rw [bind_ok he]
    exact hk a h' hm
  | error e h' =>
    rw [he] at hm
    rw [bind_error he]
    exact hm

theorem guardedRun_map {m : Alloc α} (f : α → β) (hm : GuardedRun Q (m h)) :
    GuardedRun (fun _ => True) ((f <$> m) h) := by
  rw [map_eq_pure_bind]
  exact guardedRun_bind hm fun _ _ _ => trivial

end Guards

end ArduinoAT90USB.Foundation.Memory
