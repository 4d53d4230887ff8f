import Mathlib.Tactic.Common

/-! Pre- and postconditions for programs that may be left waiting on their surroundings.
An `error` outcome is a wait that nothing ends; its state is still observable. -/
namespace ArduinoAT90USB.Foundation.TaskLogic
universe u
variable {ε σ α β : Type u} {I W : σ → Prop}

/-- The state a run is in when it has returned or when it waits. -/
def final : EStateM.Result ε σ α → σ
  | .ok _ s => s
  | .error _ s => s

@[simp] theorem final_ok (a : α) (s : σ) : final (.ok a s : EStateM.Result ε σ α) = s := rfl

@[simp] theorem final_error (e : ε) (s : σ) : final (.error e s : EStateM.Result ε σ α) = s := rfl

def Ends (I W : σ → Prop) : EStateM.Result ε σ α → Prop
  | .ok _ s => I s
  | .error _ s => W s

theorem Ends.final {r : EStateM.Result ε σ α} (h : Ends I I r) : I (final r) := by
  cases r <;> exact h

theorem Ends.mono {J V : σ → Prop} {r : EStateM.Result ε σ α} (h : Ends I W r)
    (hi : ∀ s, I s → J s) (hw : ∀ s, W s → V s) : Ends J V r := by
  cases r with
  | ok a s => exact hi s h
  | error e s => exact hw s h

/-- Started in `I`, the program returns in `I` unless it is left waiting, and then in `W`. -/
structure Keeps (I W : σ → Prop) (m : EStateM ε σ α) : Prop where
  ends : ∀ s, I s → Ends I W (m s)

theorem bind_apply (m : EStateM ε σ α) (k : α → EStateM ε σ β) (s : σ) :
    (m >>= k) s = match m s with
      | .ok a t => k a t
      | .error e t => .error e t := rfl

theorem bind_ok {m : EStateM ε σ α} {s t : σ} {a : α} (h : m s = .ok a t) (k : α → EStateM ε σ β) :
    (m >>= k) s = k a t := by
  rw [bind_apply, h]

theorem bind_error {m : EStateM ε σ α} {s t : σ} {e : ε} (h : m s = .error e t)
    (k : α → EStateM ε σ β) : (m >>= k) s = .error e t := by
  rw [bind_apply, h]

/-- What returns has returned from both parts. -/
theorem run_bind_eq_ok {m : EStateM ε σ α} {k : α → EStateM ε σ β} {s u : σ} {b : β} (h : (m >>= k) s = .ok b u) :
    ∃ a t, m s = .ok a t ∧ k a t = .ok b u := by
  cases hm : m s with
  | ok a t => exact ⟨a,t,rfl,(bind_ok hm k).symm.trans h⟩
  | error e t =>
    rw [bind_error hm] at h
    cases h

theorem ends_bind {J : σ → Prop} {m : EStateM ε σ α} {k : α → EStateM ε σ β} {s : σ} (hm : Ends J W (m s))
    (hk : ∀ a t, J t → Ends I W (k a t)) : Ends I W ((m >>= k) s) := by
  cases he : m s with
  | ok a t =>
    rw [he] at hm
    rw [bind_ok he]
    exact hk a t hm
  | error e t =>
    rw [he] at hm
    rw [bind_error he]
    exact hm

theorem keeps_pure (a : α) : Keeps I W (pure a : EStateM ε σ α) := ⟨fun _ h => h⟩

theorem keeps_bind {m : EStateM ε σ α} {k : α → EStateM ε σ β}
    (hm : Keeps I W m) (hk : ∀ a, Keeps I W (k a)) : Keeps I W (m >>= k) :=
  ⟨fun s hs => ends_bind (hm.ends s hs) fun a => (hk a).ends⟩

theorem keeps_seq {m : EStateM ε σ PUnit} {k : EStateM ε σ β}
    (hm : Keeps I W m) (hk : Keeps I W k) : Keeps I W (m >>= fun _ => k) :=
  keeps_bind hm fun _ => hk

theorem keeps_ite {p : Prop} [Decidable p] {m k : EStateM ε σ α}
    (hm : p → Keeps I W m) (hk : ¬ p → Keeps I W k) : Keeps I W (if p then m else k) := by
  by_cases h : p
  · rw [if_pos h]
    exact hm h
  · rw [if_neg h]
    exact hk h

theorem keeps_forM (xs : List β) (body : β → EStateM ε σ PUnit)
    (hb : ∀ x ∈ xs, Keeps I W (body x)) : Keeps I W (xs.forM body) := by
  induction xs with
  | nil => exact keeps_pure _
  | cons x xs ih =>
    refine keeps_bind (hb x List.mem_cons_self) fun _ => ih ?_
    intro y hy
    exact hb y (List.mem_cons_of_mem x hy)

end ArduinoAT90USB.Foundation.TaskLogic
