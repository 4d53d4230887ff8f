import ArduinoAT90USB.Foundation.Memory

/-! `while` loops over blocks: a loop is given by its turn, which says whether it ends here or
with which state it goes on. -/
namespace ArduinoAT90USB.Foundation.Loop
open Memory
variable {σ : Type} (turn : σ → Checked (Option σ))

/-- The state in which the loop ends; it has ended before the fuel is used up. -/
def loop : Nat → σ → Checked σ
  | 0, _ => .error .hang
  | fuel+1, s => do
    match ← turn s with
    | none => pure s
    | some s' => loop fuel s'

/-- The states in which a turn of the loop begins. -/
inductive Reached (start : σ) : σ → Prop
  | start : Reached start start
  | next {s s' : σ} (h : Reached start s) (hturn : turn s = .ok (some s')) : Reached start s'

variable {turn} {I Q : σ → Prop} {s s' start : σ}

theorem loop_ends (h : turn s = .ok none) (fuel : Nat) : loop turn (fuel + 1) s = .ok s := by
  rw [loop,h]
  rfl

theorem loop_next (h : turn s = .ok (some s')) (fuel : Nat) : loop turn (fuel + 1) s = loop turn fuel s' := by
  rw [loop,h]
  rfl

theorem Reached.head (hturn : turn start = .ok (some s')) (h : Reached turn s' s) : Reached turn start s := by
  induction h with
  | start => exact .next .start hturn
  | next h hturn ih => exact .next ih hturn

section Kept
variable {R : σ → σ → Prop}
  (keeps : ∀ s, I s → turn s = .ok none ∧ Q s ∨ ∃ s', turn s = .ok (some s') ∧ I s' ∧ R s s')
include keeps

theorem turn_next (h : I s) (hturn : turn s = .ok (some s')) : I s' ∧ R s s' := by
  rcases keeps s h with ⟨hend,_⟩ | ⟨s'',hnext,hs''⟩
  · rw [hend] at hturn
    cases hturn
  · rw [hnext] at hturn
    cases hturn
    exact hs''

theorem Reached.holds (h : Reached turn start s) (hstart : I start) : I s := by
  induction h with
  | start => exact hstart
  | next h hturn ih => exact (turn_next keeps ih hturn).1

end Kept

/-- A loop whose turns end it well or come nearer to its end. -/
theorem loop_total {μ : σ → Nat} (hturn : ∀ s, I s →
      (turn s = .ok none ∧ Q s) ∨ ∃ s', turn s = .ok (some s') ∧ I s' ∧ μ s' < μ s)
    {fuel : Nat} (h : I s) (hfuel : μ s < fuel) : ∃ s', loop turn fuel s = .ok s' ∧ Q s' := by
  induction fuel generalizing s with
  | zero => exact absurd hfuel (Nat.not_lt_zero _)
  | succ fuel ih =>
    rcases hturn s h with ⟨hend,hQ⟩ | ⟨s',hnext,hI,hless⟩
    · exact ⟨s,loop_ends hend fuel,hQ⟩
    · rw [loop_next hnext]
      exact ih hI (by omega)

/-- What every turn keeps holds where the loop has ended. -/
theorem loop_exit (keeps : ∀ s s', I s → turn s = .ok (some s') → I s') {fuel : Nat} (h : I s)
    (hloop : loop turn fuel s = .ok s') : I s' ∧ turn s' = .ok none := by
  induction fuel generalizing s with
  | zero => cases hloop
  | succ fuel ih =>
    rw [loop] at hloop
    obtain ⟨o,ho,hrest⟩ := bind_eq_ok hloop
    cases o with
    | none =>
      cases hrest
      exact ⟨h,ho⟩
    | some s₁ => exact ih (keeps s s₁ h ho) hrest

theorem Reached.kept (keeps : ∀ s s', I s → turn s = .ok (some s') → I s') (h : Reached turn start s) (hstart : I start) :
    I s := by
  induction h with
  | start => exact hstart
  | next h hturn ih => exact keeps _ _ ih hturn

end ArduinoAT90USB.Foundation.Loop
