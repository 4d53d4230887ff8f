import ArduinoAT90USB.Foundation.TaskLogic

/-! Programs on hardware that goes on by itself. Before every access the surroundings do what they
do in that moment. A run is watched for some moments; when they are used up the program is found
wherever it is, and its state can still be looked at. -/
namespace ArduinoAT90USB.Foundation.Surroundings
variable {σ ε α β γ : Type}

structure Situation (σ ε : Type) where
  state : σ
  moments : List (List ε)

abbrev Program (σ ε α : Type) := EStateM Unit (Situation σ ε) α

/-- One access; `happen` is what an event does to the state. -/
def access (happen : σ → ε → σ) (f : σ → α × σ) : Program σ ε α := fun s =>
  match s.moments with
  | [] => .error () s
  | now :: later => .ok (f (now.foldl happen s.state)).1 ⟨(f (now.foldl happen s.state)).2,later⟩

/-- At most so many turns of a loop, whose body leaves with a result or goes on with other values. -/
def turns (body : β → Program σ ε (α ⊕ β)) : Nat → β → Program σ ε α
  | 0, _ => fun s => .error () s
  | n + 1, b => do
    match ← body b with
    | .inl a => pure a
    | .inr b' => turns body n b'

theorem turns_left {body : β → Program σ ε (α ⊕ β)} {b : β} {a : α} {s t : Situation σ ε} (h : body b s = .ok (.inl a) t) (n : Nat) :
    turns body (n + 1) b s = .ok a t := by
  rw [turns,TaskLogic.bind_ok h]
  rfl

theorem turns_right {body : β → Program σ ε (α ⊕ β)} {b b' : β} {s t : Situation σ ε} (h : body b s = .ok (.inr b') t) (n : Nat) :
    turns body (n + 1) b s = turns body n b' t := by
  rw [turns,TaskLogic.bind_ok h]

/-- A loop; its turns have an access each, so there are not more of them than moments. -/
def loop (body : β → Program σ ε (α ⊕ β)) (b : β) : Program σ ε α := fun s => turns body (s.moments.length + 1) b s

def Allowed (E : ε → Prop) (moments : List (List ε)) : Prop := ∀ now ∈ moments, ∀ e ∈ now, E e

/-- The program has returned in `Q`, or is found in `W`. -/
def Outcome (E : ε → Prop) (Q : α → σ → Prop) (W : σ → Prop) : EStateM.Result Unit (Situation σ ε) α → Prop
  | .ok a t => Allowed E t.moments ∧ Q a t.state
  | .error _ t => W t.state

/-- Started in `P` in surroundings where only `E` happens, the program returns in `Q` unless the
watch ends before, and then it is found in `W`. -/
def Meets (E : ε → Prop) (P : σ → Prop) (m : Program σ ε α) (Q : α → σ → Prop) (W : σ → Prop) : Prop :=
  ∀ s, Allowed E s.moments → P s.state → Outcome E Q W (m s)

/-- The surroundings do not end it. -/
def Stable (happen : σ → ε → σ) (E : ε → Prop) (P : σ → Prop) : Prop := ∀ s e, E e → P s → P (happen s e)

section Rules
variable {happen : σ → ε → σ} {E : ε → Prop} {P : σ → Prop} {Q : α → σ → Prop} {R : β → σ → Prop} {W : σ → Prop}

theorem Stable.and {P' : σ → Prop} (h : Stable happen E P) (h' : Stable happen E P') : Stable happen E fun s => P s ∧ P' s :=
  fun s e he hs => ⟨h s e he hs.1,h' s e he hs.2⟩

theorem Stable.foldl (h : Stable happen E P) {now : List ε} (hnow : ∀ e ∈ now, E e) {s : σ} (hs : P s) :
    P (now.foldl happen s) := by
  induction now generalizing s with
  | nil => exact hs
  | cons e rest ih =>
    exact ih (fun e' he' => hnow e' (List.mem_cons_of_mem e he')) (h s e (hnow e List.mem_cons_self) hs)

theorem meets_access {f : σ → α × σ} (hstable : Stable happen E P) (hf : ∀ s, P s → Q (f s).1 (f s).2) (hw : ∀ s, P s → W s) :
    Meets E P (access happen f) Q W := by
  intro s hmoments hs
  unfold access
  cases hm : s.moments with
  | nil => exact hw s.state hs
  | cons now later =>
    rw [hm] at hmoments
    have hnow := hstable.foldl (hmoments now List.mem_cons_self) hs
    exact ⟨fun now' h' => hmoments now' (List.mem_cons_of_mem now h'),hf _ hnow⟩

theorem meets_pure {a : α} (h : ∀ s, P s → Q a s) : Meets E P (pure a) Q W := fun s hmoments hs => ⟨hmoments,h s.state hs⟩

theorem meets_bind {m : Program σ ε β} {k : β → Program σ ε α} (hm : Meets E P m R W) (hk : ∀ b, Meets E (R b) (k b) Q W) :
    Meets E P (m >>= k) Q W := by
  intro s hmoments hs
  have h := hm s hmoments hs
  cases hr : m s with
  | ok b t =>
    rw [hr] at h
    rw [TaskLogic.bind_ok hr]
    exact hk b t h.1 h.2
  | error e t =>
    rw [hr] at h
    rw [TaskLogic.bind_error hr]
    exact h

theorem meets_ite {p : Prop} [Decidable p] {m k : Program σ ε α} (hm : p → Meets E P m Q W) (hk : ¬ p → Meets E P k Q W) :
    Meets E P (if p then m else k) Q W := by
  by_cases h : p
  · rw [if_pos h]
    exact hm h
  · rw [if_neg h]
    exact hk h

theorem Meets.mono {P' W' : σ → Prop} {Q' : α → σ → Prop} {m : Program σ ε α} (h : Meets E P m Q W) (hp : ∀ s, P' s → P s)
    (hq : ∀ a s, Q a s → Q' a s) (hw : ∀ s, W s → W' s) : Meets E P' m Q' W' := by
  intro s hmoments hs
  have hr := h s hmoments (hp s.state hs)
  cases hm : m s with
  | ok a t =>
    rw [hm] at hr
    exact ⟨hr.1,hq a t.state hr.2⟩
  | error e t =>
    rw [hm] at hr
    exact hw t.state hr

theorem Meets.post {Q' : α → σ → Prop} {m : Program σ ε α} (h : Meets E P m Q W) (hq : ∀ a s, Q a s → Q' a s) : Meets E P m Q' W :=
  h.mono (fun _ hs => hs) hq fun _ hs => hs

theorem Meets.pre {P' : σ → Prop} {m : Program σ ε α} (h : Meets E P m Q W) (hp : ∀ s, P' s → P s) : Meets E P' m Q W :=
  h.mono hp (fun _ _ hs => hs) fun _ hs => hs

theorem Meets.and {P' W' : σ → Prop} {Q' : α → σ → Prop} {m : Program σ ε α} (h : Meets E P m Q W) (h' : Meets E P' m Q' W') :
    Meets E (fun s => P s ∧ P' s) m (fun a s => Q a s ∧ Q' a s) (fun s => W s ∧ W' s) := by
  intro s hmoments hs
  have hr := h s hmoments hs.1
  have hr' := h' s hmoments hs.2
  cases hm : m s with
  | ok a t =>
    rw [hm] at hr hr'
    exact ⟨hr.1,hr.2,hr'.2⟩
  | error e t =>
    rw [hm] at hr hr'
    exact ⟨hr,hr'⟩

/-- What is known for some value is a precondition for each. -/
theorem meets_exists {P : β → σ → Prop} {m : Program σ ε α} (h : ∀ b, Meets E (P b) m Q W) : Meets E (fun s => ∃ b, P b s) m Q W := by
  rintro s hmoments ⟨b,hs⟩
  exact h b s hmoments hs

theorem meets_fact {p : Prop} {m : Program σ ε α} (h : p → Meets E P m Q W) : Meets E (fun s => p ∧ P s) m Q W :=
  fun s hmoments hs => h hs.1 s hmoments hs.2

theorem meets_loop {body : β → Program σ ε (α ⊕ β)} {I : β → σ → Prop}
    (hbody : ∀ b, Meets E (I b) (body b) (fun r s => r.elim (fun a => Q a s) fun b' => I b' s) W) (hw : ∀ b s, I b s → W s) (b : β) :
    Meets E (I b) (loop body b) Q W := by
  have hturns : ∀ n b, Meets E (I b) (turns body n b) Q W := by
    intro n
    induction n with
    | zero => exact fun b s _ hs => hw b s.state hs
    | succ n ih =>
      intro b
      refine meets_bind (hbody b) fun r => ?_
      cases r with
      | inl a => exact meets_pure fun _ hs => hs
      | inr b' => exact ih b'
  exact fun s => hturns (s.moments.length + 1) b s

end Rules

/-- Started in `P` in surroundings that are in `I` and worth `k`, the program returns in `Q`, and at
most that is used of them. -/
def Completes (I : Situation σ ε → Prop) (worth : Situation σ ε → Nat) (P : σ → Prop) (m : Program σ ε α) (Q : α → σ → Prop)
    (k : Nat) : Prop :=
  ∀ s, I s → P s.state → k ≤ worth s → ∃ a t, m s = .ok a t ∧ I t ∧ Q a t.state ∧ worth s ≤ worth t + k

section Completing
variable {I : Situation σ ε → Prop} {worth : Situation σ ε → Nat} {P : σ → Prop} {Q : α → σ → Prop} {R : β → σ → Prop} {j k : Nat}

theorem completes_pure {a : α} (h : ∀ s, P s → Q a s) : Completes I worth P (pure a) Q 0 :=
  fun s hi hs _ => ⟨a,s,rfl,hi,h s.state hs,Nat.le_refl _⟩

theorem completes_bind {m : Program σ ε β} {f : β → Program σ ε α} (hm : Completes I worth P m R j)
    (hf : ∀ b, Completes I worth (R b) (f b) Q k) : Completes I worth P (m >>= f) Q (j + k) := by
  intro s hi hs hjk
  obtain ⟨b,t,ht,hit,hb,hle⟩ := hm s hi hs (by omega)
  obtain ⟨a,u,hu,hiu,ha,hle'⟩ := hf b t hit hb (by omega)
  exact ⟨a,u,(TaskLogic.bind_ok ht f).trans hu,hiu,ha,by omega⟩

theorem Completes.mono {P' : σ → Prop} {Q' : α → σ → Prop} {m : Program σ ε α} (h : Completes I worth P m Q j) (hp : ∀ s, P' s → P s)
    (hq : ∀ a s, Q a s → Q' a s) (hjk : j ≤ k) : Completes I worth P' m Q' k := by
  intro s hi hs hk
  obtain ⟨a,t,hm,hit,ha,hle⟩ := h s hi (hp s.state hs) (Nat.le_trans hjk hk)
  exact ⟨a,t,hm,hit,hq a t.state ha,by omega⟩

theorem completes_ite {p : Prop} [Decidable p] {m m' : Program σ ε α} (hm : p → Completes I worth P m Q k)
    (hm' : ¬ p → Completes I worth P m' Q k) : Completes I worth P (if p then m else m') Q k := by
  by_cases h : p
  · rw [if_pos h]
    exact hm h
  · rw [if_neg h]
    exact hm' h

theorem completes_fact {p : Prop} {m : Program σ ε α} (h : p → Completes I worth P m Q k) :
    Completes I worth (fun s => p ∧ P s) m Q k :=
  fun s hi hs hk => h hs.1 s hi hs.2 hk

end Completing

/-- The program returns, in surroundings that are worth `k`. -/
def Returns (I : Situation σ ε → Prop) (worth : Situation σ ε → Nat) (k : Nat) (m : Program σ ε α) : Prop :=
  Completes I worth (fun _ => True) m (fun _ _ => True) k

section Returning
variable {I : Situation σ ε → Prop} {worth : Situation σ ε → Nat} {j k : Nat}

theorem returns_pure (a : α) : Returns I worth 0 (pure a : Program σ ε α) := completes_pure fun _ _ => trivial

theorem Returns.mono {m : Program σ ε α} (h : Returns I worth j m) (hjk : j ≤ k) : Returns I worth k m :=
  Completes.mono h (fun _ hs => hs) (fun _ _ hs => hs) hjk

theorem returns_bind {m : Program σ ε β} {f : β → Program σ ε α} (hm : Returns I worth j m) (hf : ∀ b, Returns I worth k (f b)) :
    Returns I worth (j + k) (m >>= f) :=
  completes_bind hm hf

theorem returns_ite {p : Prop} [Decidable p] {m m' : Program σ ε α} (hm : Returns I worth k m) (hm' : Returns I worth k m') :
    Returns I worth k (if p then m else m') :=
  completes_ite (fun _ => hm) fun _ => hm'

end Returning

end ArduinoAT90USB.Foundation.Surroundings
