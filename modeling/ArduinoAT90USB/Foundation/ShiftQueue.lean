import ArduinoAT90USB.Foundation.Table

/-! A queue kept in the first places of an array: the first element is taken by moving the
others down, which also reads the place behind the last one. -/
namespace ArduinoAT90USB.Foundation.ShiftQueue
open Memory Table

variable {α : Type} {n : Nat}

/-- One assignment `v[i] = v[i + 1]`. -/
def shiftAt (v : Vector α n) (i : Nat) : Checked (Vector α n) := do
  let x ← fetch v (i + 1)
  modify v i fun _ => x

/-- The assignments for the first `k` places, in order. -/
def shiftDown (v : Vector α n) (k : Nat) : Checked (Vector α n) := (List.range k).foldlM shiftAt v

theorem shiftDown_succ (v : Vector α n) (k : Nat) : shiftDown v (k + 1) = shiftDown v k >>= fun v' => shiftAt v' k := by
  unfold shiftDown
  rw [List.range_succ,List.foldlM_append]
  simp only [List.foldlM_cons,List.foldlM_nil,bind_pure]

/-- With a place to spare, every element moves down by one. -/
theorem shiftDown_inside (v : Vector α n) {k : Nat} (hk : k < n) :
    ∃ v', shiftDown v k = .ok v' ∧ (∀ j < k, v'[j]? = v[j + 1]?) ∧ ∀ j, k ≤ j → v'[j]? = v[j]? := by
  induction k with
  | zero => exact ⟨v,rfl,nofun,fun j _ => rfl⟩
  | succ k ih =>
    obtain ⟨v',hv',hmoved,hrest⟩ := ih (by omega)
    refine ⟨v'.set k v'[k + 1] (by omega),?_,?_,?_⟩
    · rw [shiftDown_succ,hv',ok_bind,shiftAt,fetch_inside v' hk,ok_bind,modify_inside v' _ (by omega)]
    · intro j hj
      rcases Nat.lt_succ_iff_lt_or_eq.mp hj with hlt | rfl
      · rw [Vector.getElem?_set_ne (by omega) (by omega)]
        exact hmoved j hlt
      · rw [Vector.getElem?_set_self (by omega),← hrest (j + 1) (by omega),Vector.getElem?_eq_getElem hk]
    · intro j hj
      rw [Vector.getElem?_set_ne (by omega) (by omega)]
      exact hrest j (by omega)

/-- A full array leaves no place to read from. -/
theorem shiftDown_full (v : Vector α n) (h : 0 < n) : shiftDown v n = .error .bounds := by
  obtain ⟨k,rfl⟩ : ∃ k, n = k + 1 := ⟨n - 1,by omega⟩
  obtain ⟨v',hv',-⟩ := shiftDown_inside v (Nat.lt_succ_self k)
  rw [shiftDown_succ,hv',ok_bind,shiftAt,fetch_outside v' (Nat.le_refl _)]
  rfl

theorem shiftDown_holds {v : Vector α n} {q : List α} {x : α} (h : Holds v (x :: q)) (hlt : q.length + 1 < n) :
    ∃ v', shiftDown v (q.length + 1) = .ok v' ∧ Holds v' q := by
  obtain ⟨v',hv',hmoved,-⟩ := shiftDown_inside v hlt
  refine ⟨v',hv',by omega,?_⟩
  intro j hj
  rw [hmoved j (by omega),h.places (j + 1) (by simpa using hj)]
  rfl

end ArduinoAT90USB.Foundation.ShiftQueue
