import ArduinoAT90USB.Foundation.Memory
import Mathlib.Logic.Function.Basic

/-! Tables of records with checked accesses, and arrays that hold a list in their first places. -/
namespace ArduinoAT90USB.Foundation.Table
open Memory

variable {α : Type} {n : Nat}

def fetch (v : Vector α n) (i : Nat) : Checked α :=
  match v[i]? with
  | some x => .ok x
  | none => .error .bounds

/-- A store into the record at `i`. -/
def modify (v : Vector α n) (i : Nat) (f : α → α) : Checked (Vector α n) :=
  if h : i < n then .ok (v.set i (f v[i]) h) else .error .bounds

/-- The first of the records at the given places that passes a test. -/
def search (v : Vector α n) (test : α → Bool) : List Nat → Checked (Option Nat)
  | [] => .ok none
  | i :: rest => do
    let x ← fetch v i
    if test x then .ok (some i) else search v test rest

theorem fetch_inside {i : Nat} (v : Vector α n) (h : i < n) : fetch v i = .ok v[i] := by
  rw [fetch,Vector.getElem?_eq_getElem h]

theorem fetch_outside {i : Nat} (v : Vector α n) (h : n ≤ i) : fetch v i = .error .bounds := by
  rw [fetch,Vector.getElem?_eq_none h]

theorem modify_inside {i : Nat} (v : Vector α n) (f : α → α) (h : i < n) : modify v i f = .ok (v.set i (f v[i]) h) :=
  dif_pos h

theorem modify_outside {i : Nat} (v : Vector α n) (f : α → α) (h : n ≤ i) : modify v i f = .error .bounds :=
  dif_neg (Nat.not_lt.mpr h)

/-- A scan that stops at no fault. -/
theorem anyM_ok {β : Type} {p : β → Checked Bool} {l : List β} (h : ∀ x ∈ l, ∃ r, p x = .ok r) :
    ∃ r, l.anyM p = .ok r := by
  induction l with
  | nil => exact ⟨false,rfl⟩
  | cons x rest ih =>
    obtain ⟨r,hr⟩ := h x List.mem_cons_self
    obtain ⟨r',hrest⟩ := ih fun y hy => h y (List.mem_cons_of_mem _ hy)
    rw [List.anyM,hr,ok_bind]
    cases r with
    | true => exact ⟨true,rfl⟩
    | false => exact ⟨r',hrest⟩

section Tabulated
variable {v : Vector α n} {f : Nat → α}

def Tabulates (v : Vector α n) (f : Nat → α) : Prop := ∀ i < n, v[i]? = some (f i)

theorem tabulates_replicate (x : α) : Tabulates (Vector.replicate n x) fun _ => x := by
  intro i hi
  rw [Vector.getElem?_replicate,if_pos hi]

theorem Tabulates.fetch {i : Nat} (h : Tabulates v f) (hi : i < n) : fetch v i = .ok (f i) := by
  rw [Table.fetch,h i hi]

theorem Tabulates.modify {i : Nat} (h : Tabulates v f) (hi : i < n) (g : α → α) :
    ∃ v', modify v i g = .ok v' ∧ Tabulates v' (Function.update f i (g (f i))) := by
  refine ⟨_,modify_inside v g hi,?_⟩
  intro j hj
  by_cases hij : i = j
  · subst hij
    have hget := h i hi
    rw [Vector.getElem?_eq_getElem hi,Option.some.injEq] at hget
    rw [Vector.getElem?_set_self hi,Function.update_self,hget]
  · rw [Vector.getElem?_set_ne hi hij,Function.update_of_ne (Ne.symm hij)]
    exact h j hj

theorem Tabulates.search (h : Tabulates v f) (test : α → Bool) {is : List Nat} (his : ∀ i ∈ is, i < n) :
    search v test is = .ok (is.find? fun i => test (f i)) := by
  induction is with
  | nil => rfl
  | cons i rest ih =>
    rw [Table.search,h.fetch (his i List.mem_cons_self),ok_bind,List.find?_cons]
    cases test (f i) with
    | true => rfl
    | false => exact ih fun j hj => his j (List.mem_cons_of_mem i hj)

end Tabulated

section Held
variable {v : Vector α n} {q : List α}

/-- The first places hold the list. -/
structure Holds (v : Vector α n) (q : List α) : Prop where
  fits : q.length ≤ n
  places : ∀ j < q.length, v[j]? = q[j]?

theorem Holds.nil (v : Vector α n) : Holds v [] := ⟨Nat.zero_le n,fun _ h => absurd h (Nat.not_lt_zero _)⟩

theorem Holds.first {x : α} (h : Holds v (x :: q)) : fetch v 0 = .ok x := by
  rw [fetch,h.places 0 (by simp)]
  rfl

theorem Holds.of_append {r : List α} (h : Holds v (q ++ r)) : Holds v q := by
  refine ⟨Nat.le_trans (by simp) h.fits,?_⟩
  intro j hj
  rw [h.places j (by rw [List.length_append]; omega),List.getElem?_append_left hj]

theorem Holds.set (h : Holds v q) (hlt : q.length < n) (x : α) : Holds (v.set q.length x hlt) (q ++ [x]) := by
  refine ⟨by rw [List.length_append,List.length_singleton]; exact hlt,?_⟩
  intro j hj
  rw [List.length_append,List.length_singleton] at hj
  rcases Nat.lt_succ_iff_lt_or_eq.mp hj with hold | rfl
  · rw [Vector.getElem?_set_ne hlt (by omega),List.getElem?_append_left hold]
    exact h.places j hold
  · rw [Vector.getElem?_set_self hlt,List.getElem?_concat_length]

theorem Holds.append (h : Holds v q) (hlt : q.length < n) (x : α) :
    ∃ v', modify v q.length (fun _ => x) = .ok v' ∧ Holds v' (q ++ [x]) :=
  ⟨_,modify_inside v _ hlt,h.set hlt x⟩

theorem Holds.toList_take (h : Holds v q) : v.toList.take q.length = q := by
  apply List.ext_getElem?
  intro j
  by_cases hj : j < q.length
  · rw [List.getElem?_take_of_lt hj,Vector.getElem?_toList]
    exact h.places j hj
  · rw [List.getElem?_eq_none (by rw [List.length_take]; omega),List.getElem?_eq_none (by omega)]

end Held

section Bytes
variable {v : Vector UInt8 n} {q : List UInt8}

theorem Holds.load (h : Holds v q) {j : Nat} {x : UInt8} (hx : q[j]? = some x) : loadAt v j = .ok x :=
  loadAt_eq ((h.places j (List.getElem?_eq_some_iff.mp hx).1).trans hx)

theorem Holds.push (h : Holds v q) (hlt : q.length < n) (x : UInt8) :
    ∃ v', storeAt v q.length x = .ok v' ∧ Holds v' (q ++ [x]) :=
  ⟨_,storeAt_inside hlt x,h.set hlt x⟩

theorem holds_copyInto (v : Vector UInt8 n) (h : q.length ≤ n) : ∃ v', copyInto q 0 v = .ok v' ∧ Holds v' q := by
  obtain ⟨v',hcopy,-,hplaces⟩ := copyInto_inside v q (i := 0) (by omega)
  refine ⟨v',hcopy,h,?_⟩
  intro j hj
  rw [← hplaces j hj,Nat.zero_add]

private theorem Holds.mapM_range (h : Holds v q) {k : Nat} (hk : k ≤ q.length) :
    (List.range k).mapM (loadAt v) = .ok (q.take k) := by
  induction k with
  | zero => rfl
  | succ k ih =>
    have hload := h.load (List.getElem?_eq_getElem hk)
    rw [List.range_succ,List.mapM_append,ih (Nat.le_of_succ_le hk),ok_bind,List.mapM_cons,hload,List.take_add_one,
      List.getElem?_eq_getElem hk]
    rfl

theorem Holds.copyFrom (h : Holds v q) : copyFrom v q.length = .ok q := by
  rw [Memory.copyFrom,h.mapM_range (Nat.le_refl _),List.take_length]

end Bytes

end ArduinoAT90USB.Foundation.Table
