import Mathlib.Tactic.Common

/-! Runs of a step function over a list of inputs: what holds in every state on the way, and
inputs that are admissible in the state that takes them. -/
namespace ArduinoAT90USB.Foundation.Runs
variable {σ α : Type} (step : σ → α → σ)

/-- `P` holds in the first state and after every input. -/
def Always (P : σ → Prop) : σ → List α → Prop
  | s, [] => P s
  | s, a :: rest => P s ∧ Always P (step s a) rest

/-- Every input is admissible where it is taken. -/
def Admits (Ok : σ → α → Prop) : σ → List α → Prop
  | _, [] => True
  | s, a :: rest => Ok s a ∧ Admits Ok (step s a) rest

variable {step} {P I : σ → Prop} {Ok : σ → α → Prop} {s : σ}

theorem Always.first {inputs : List α} (h : Always step P s inputs) : P s := by
  cases inputs with
  | nil => exact h
  | cons a rest => exact h.1

theorem Always.last {inputs : List α} (h : Always step P s inputs) : P (inputs.foldl step s) := by
  induction inputs generalizing s with
  | nil => exact h
  | cons a rest ih => exact ih h.2

/-- An invariant that admissible inputs keep holds all the way. -/
theorem Admits.always (keeps : ∀ s a, I s → Ok s a → I (step s a)) {inputs : List α}
    (h : Admits step Ok s inputs) (hs : I s) : Always step I s inputs := by
  induction inputs generalizing s with
  | nil => exact hs
  | cons a rest ih => exact ⟨hs,ih h.2 (keeps s a hs h.1)⟩

/-- An invariant that admissible inputs keep, and that the property cannot outlive. -/
theorem always_iff_admits (keeps : ∀ s a, I s → Ok s a → I (step s a)) (holds : ∀ s, I s → P s)
    (fails : ∀ s a, I s → ¬ Ok s a → ¬ P (step s a)) (h : I s) (inputs : List α) :
    Always step P s inputs ↔ Admits step Ok s inputs := by
  induction inputs generalizing s with
  | nil => exact iff_of_true (holds s h) trivial
  | cons a rest ih =>
    constructor
    · intro hall
      have hok : Ok s a := Classical.byContradiction fun hbad => fails s a h hbad hall.2.first
      exact ⟨hok,(ih (keeps s a h hok)).mp hall.2⟩
    · intro hadm
      exact ⟨holds s h,(ih (keeps s a h hadm.1)).mpr hadm.2⟩

/-- Each time the same input is taken, one less is needed. -/
theorem countdown {a : α} {M : Nat → σ → Prop} (counts : ∀ n s, M (n + 1) s → M n (step s a)) {n : Nat} (h : M n s) :
    M 0 ((List.replicate n a).foldl step s) := by
  induction n generalizing s with
  | zero => exact h
  | succ n ih =>
    rw [List.replicate_succ,List.foldl_cons]
    exact ih (counts n s h)

section Rounds

/-- Every turn is given, in any order and any number of times, and nothing else is. -/
def Round (T : α → Prop) (inputs : List α) : Prop := ∀ a, a ∈ inputs ↔ T a

variable {T : α → Prop} {G : σ → Prop} {M : σ → Nat}
  (keeps : ∀ s a, I s → T a → I (step s a)) (falls : ∀ s a, I s → T a → step s a = s ∨ M (step s a) < M s)
include keeps falls

/-- Either the inputs bring the measure down, or none of them does anything. -/
theorem turns_fall {inputs : List α} (hturns : ∀ a ∈ inputs, T a) (h : I s) :
    I (inputs.foldl step s) ∧ (M (inputs.foldl step s) < M s ∨ inputs.foldl step s = s ∧ ∀ a ∈ inputs, step s a = s) := by
  induction inputs generalizing s with
  | nil => exact ⟨h,.inr ⟨rfl,fun _ ha => absurd ha List.not_mem_nil⟩⟩
  | cons a rest ih =>
    have hturn := hturns a List.mem_cons_self
    obtain ⟨hI,hrest⟩ := ih (fun b hb => hturns b (List.mem_cons_of_mem _ hb)) (keeps s a h hturn)
    refine ⟨hI,?_⟩
    rw [List.foldl_cons]
    rcases falls s a h hturn with hstill | hless
    · rw [hstill] at hrest ⊢
      exact hrest.imp_right fun hsame => ⟨hsame.1,List.forall_mem_cons.mpr ⟨hstill,hsame.2⟩⟩
    · refine .inl ?_
      rcases hrest with hlower | ⟨hsame,-⟩
      · exact Nat.lt_trans hlower hless
      · rwa [hsame]

/-- As long as the goal is ahead some turn moves on, so that rounds enough reach it. -/
theorem rounds_reach (stays : ∀ s a, I s → T a → G s → G (step s a))
    (moves : ∀ s, I s → ¬ G s → ∃ a, T a ∧ step s a ≠ s) {rounds : List (List α)}
    (hrounds : ∀ r ∈ rounds, Round T r) (h : I s) (henough : M s ≤ rounds.length) : G (rounds.flatten.foldl step s) := by
  have hstays : ∀ {s : σ} {inputs : List α}, (∀ a ∈ inputs, T a) → I s → G s → G (inputs.foldl step s) := by
    intro s inputs hturns hs hgoal
    induction inputs generalizing s with
    | nil => exact hgoal
    | cons a rest ih =>
      have hturn := hturns a List.mem_cons_self
      exact ih (fun b hb => hturns b (List.mem_cons_of_mem _ hb)) (keeps s a hs hturn) (stays s a hs hturn hgoal)
  induction rounds generalizing s with
  | nil =>
    by_contra hgoal
    obtain ⟨a,hturn,hmoves⟩ := moves s h hgoal
    have hless := (falls s a h hturn).resolve_left hmoves
    rw [List.length_nil] at henough
    omega
  | cons r rest ih =>
    have hround := hrounds r List.mem_cons_self
    rw [List.flatten_cons,List.foldl_append]
    obtain ⟨hI,hless | ⟨-,hsame⟩⟩ := turns_fall keeps falls (fun a ha => (hround a).mp ha) h
    · rw [List.length_cons] at henough
      exact ih (fun r hr => hrounds r (List.mem_cons_of_mem _ hr)) hI (by omega)
    · have hgoal : G s := by
        by_contra hgoal
        obtain ⟨a,hturn,hmoves⟩ := moves s h hgoal
        exact hmoves (hsame a ((hround a).mpr hturn))
      refine hstays ?_ hI (hstays (fun a ha => (hround a).mp ha) h hgoal)
      intro a ha
      obtain ⟨r',hr',ha'⟩ := List.mem_flatten.mp ha
      exact (hrounds r' (List.mem_cons_of_mem _ hr') a).mp ha'

end Rounds

section Fallible
variable {ε : Type} (step : σ → α → Except ε σ)

/-- `Admits` for a step that may fail. -/
def AdmitsAll (Ok : σ → α → Prop) : σ → List α → Prop
  | _, [] => True
  | s, a :: rest => Ok s a ∧ ∀ s', step s a = .ok s' → AdmitsAll Ok s' rest

variable {step} {s' : σ}

theorem AdmitsAll.cons {Ok : σ → α → Prop} {a : α} {t : σ} {rest : List α} (hok : Ok s a) (ht : step s a = .ok t)
    (hrest : AdmitsAll step Ok t rest) : AdmitsAll step Ok s (a :: rest) := by
  refine ⟨hok,fun s' hs' => ?_⟩
  cases ht.symm.trans hs'
  exact hrest

theorem completed_cons {a : α} {rest : List α} (h : (a :: rest).foldlM step s = .ok s') :
    ∃ t, step s a = .ok t ∧ rest.foldlM step t = .ok s' := by
  rw [List.foldlM_cons] at h
  cases ht : step s a with
  | error e =>
    rw [ht] at h
    cases h
  | ok t =>
    rw [ht] at h
    exact ⟨t,rfl,h⟩

/-- A run over inputs that are admitted completes and keeps what its steps keep. -/
theorem admitted_run (keeps : ∀ s a, I s → Ok s a → ∃ s', step s a = .ok s' ∧ I s') (h : I s) {inputs : List α}
    (hadm : AdmitsAll step Ok s inputs) : ∃ s', inputs.foldlM step s = .ok s' ∧ I s' := by
  induction inputs generalizing s with
  | nil => exact ⟨s,rfl,h⟩
  | cons a rest ih =>
    obtain ⟨t,ht,hI⟩ := keeps s a h hadm.1
    rw [List.foldlM_cons,ht]
    exact ih hI (hadm.2 t ht)

/-- A run completes exactly if no input is taken where the step fails on it. -/
theorem completes_iff_admits (keeps : ∀ s a, I s → Ok s a → ∃ s', step s a = .ok s' ∧ I s')
    (fails : ∀ s a, I s → ¬ Ok s a → ∃ e, step s a = .error e) (h : I s) (inputs : List α) :
    (∃ s', inputs.foldlM step s = .ok s') ↔ AdmitsAll step Ok s inputs := by
  refine ⟨?_,fun hadm => (admitted_run keeps h hadm).imp fun s' hs' => hs'.1⟩
  induction inputs generalizing s with
  | nil => exact fun _ => trivial
  | cons a rest ih =>
    rintro ⟨s',hrun⟩
    obtain ⟨t,ht,hrest⟩ := completed_cons hrun
    have hok : Ok s a := by
      apply Classical.byContradiction
      intro hbad
      obtain ⟨e,he⟩ := fails s a h hbad
      rw [ht] at he
      cases he
    obtain ⟨t',ht',hI⟩ := keeps s a h hok
    rw [ht] at ht'
    cases ht'
    refine ⟨hok,?_⟩
    intro u hu
    rw [ht] at hu
    cases hu
    exact ih hI ⟨s',hrest⟩

/-- What no step ends holds after a run that completes. -/
theorem completed_invariant {inputs : List α} (keeps : ∀ s a s', a ∈ inputs → I s → step s a = .ok s' → I s')
    (hrun : inputs.foldlM step s = .ok s') (h : I s) : I s' := by
  induction inputs generalizing s with
  | nil =>
    cases hrun
    exact h
  | cons a rest ih =>
    obtain ⟨t,ht,hrest⟩ := completed_cons hrun
    exact ih (fun s a s' hmem => keeps s a s' (List.mem_cons_of_mem _ hmem)) hrest
      (keeps s a t List.mem_cons_self h ht)

section Simulation
variable {τ : Type} {next : τ → α → τ} {R : σ → τ → Prop} {Good : τ → α → Prop} {t : τ}

/-- A run over good inputs completes and is simulated. -/
theorem simulated_run (keeps : ∀ s t a, R s t → Good t a → ∃ s', step s a = .ok s' ∧ R s' (next t a)) (h : R s t)
    {inputs : List α} (hgood : Admits next Good t inputs) :
    ∃ s', inputs.foldlM step s = .ok s' ∧ R s' (inputs.foldl next t) := by
  induction inputs generalizing s t with
  | nil => exact ⟨s,rfl,h⟩
  | cons a rest ih =>
    obtain ⟨u,hu,hR⟩ := keeps s t a h hgood.1
    obtain ⟨s',hs',hR'⟩ := ih hR hgood.2
    refine ⟨s',?_,hR'⟩
    rw [List.foldlM_cons,hu]
    exact hs'

/-- The first input that is not good decides how a run ends. -/
theorem stopped_run (keeps : ∀ s t a, R s t → Good t a → ∃ s', step s a = .ok s' ∧ R s' (next t a)) (h : R s t)
    {inputs : List α} (hbad : ¬ Admits next Good t inputs) :
    ∃ before a after u, inputs = before ++ a :: after ∧ Admits next Good t before ∧
      ¬ Good (before.foldl next t) a ∧ R u (before.foldl next t) ∧
      ∀ e, step u a = .error e → inputs.foldlM step s = .error e := by
  induction inputs generalizing s t with
  | nil => exact absurd trivial hbad
  | cons a rest ih =>
    by_cases hgood : Good t a
    · obtain ⟨s₁,hs₁,hR⟩ := keeps s t a h hgood
      obtain ⟨before,b,after,u,hsplit,hadm,hb,hu,hstop⟩ := ih hR fun hrest => hbad ⟨hgood,hrest⟩
      refine ⟨a :: before,b,after,u,by rw [hsplit]; rfl,⟨hgood,hadm⟩,hb,hu,?_⟩
      intro e he
      rw [List.foldlM_cons,hs₁]
      exact hstop e he
    · refine ⟨[],a,rest,s,rfl,trivial,hgood,h,?_⟩
      intro e he
      rw [List.foldlM_cons,he]
      rfl

theorem not_admits_split {before after : List α} {a : α} (hbad : ¬ Good (before.foldl next t) a) :
    ¬ Admits next Good t (before ++ a :: after) := by
  induction before generalizing t with
  | nil => exact fun h => hbad h.1
  | cons b rest ih => exact fun h => ih hbad h.2

theorem first_bad_unique {before before' after after' : List α} {a a' : α}
    (hsplit : before ++ a :: after = before' ++ a' :: after') (h : Admits next Good t before) (h' : Admits next Good t before')
    (hbad : ¬ Good (before.foldl next t) a) (hbad' : ¬ Good (before'.foldl next t) a') : before = before' ∧ a = a' := by
  induction before generalizing before' t with
  | nil =>
    cases before' with
    | nil => exact ⟨rfl,(List.cons.inj hsplit).1⟩
    | cons b rest =>
      obtain ⟨rfl,-⟩ := List.cons.inj hsplit
      exact absurd h'.1 hbad
  | cons b rest ih =>
    cases before' with
    | nil =>
      obtain ⟨rfl,-⟩ := List.cons.inj hsplit
      exact absurd h.1 hbad'
    | cons b' rest' =>
      obtain ⟨rfl,htail⟩ := List.cons.inj hsplit
      obtain ⟨rfl,rfl⟩ := ih htail h.2 h'.2 hbad hbad'
      exact ⟨rfl,rfl⟩

end Simulation

end Fallible

section Latch
variable {flag : Nat → Bool} {sets clears : Nat → Prop}

/-- A flag that some steps set, others clear and the rest leave is clear exactly if a step has cleared
it since each step that set it. -/
theorem latch_clear (hset : ∀ k, sets k → flag (k+1) = true) (hclear : ∀ k, clears k → flag (k+1) = false)
    (hkeep : ∀ k, ¬ sets k → ¬ clears k → flag (k+1) = flag k) (n : Nat) :
    flag n = false ↔ (∀ j < n, sets j → ∃ i, j < i ∧ i < n ∧ clears i) ∧ (flag 0 = true → ∃ i < n, clears i) := by
  induction n with
  | zero => simp
  | succ n ih =>
    by_cases hs : sets n
    · refine iff_of_false (by simp [hset n hs]) fun h => ?_
      obtain ⟨i,hlow,hhigh,-⟩ := h.1 n (Nat.lt_succ_self n) hs
      omega
    by_cases hc : clears n
    · refine iff_of_true (hclear n hc) ⟨fun j hj hsets => ?_,fun _ => ⟨n,Nat.lt_succ_self n,hc⟩⟩
      have hne : j ≠ n := fun h => hs (h ▸ hsets)
      exact ⟨n,by omega,Nat.lt_succ_self n,hc⟩
    · have hi (i : Nat) (h : clears i) : i < n ↔ i < n+1 := by
        have hne : i ≠ n := fun he => hc (he ▸ h)
        omega
      rw [hkeep n hs hc,ih]
      refine and_congr ⟨fun h j hj hsets => ?_,fun h j hj hsets => ?_⟩ (forall_congr' fun _ => ?_)
      · have hne : j ≠ n := fun he => hs (he ▸ hsets)
        obtain ⟨i,hji,hin,hi'⟩ := h j (by omega) hsets
        exact ⟨i,hji,by omega,hi'⟩
      · obtain ⟨i,hji,hin,hi'⟩ := h j (by omega) hsets
        exact ⟨i,hji,(hi i hi').mpr hin,hi'⟩
      · exact exists_congr fun i => and_congr_left fun h => hi i h

end Latch

end ArduinoAT90USB.Foundation.Runs
