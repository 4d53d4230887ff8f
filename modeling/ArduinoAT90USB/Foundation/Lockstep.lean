import Mathlib.Tactic.Common

/-! Two parties on a wire. The wire gives each of them an event, or none, and waits until both
have taken theirs; when each takes its own is up to them. Whatever the order, the system is
always between two rounds of the run in which both take their events at once. -/
namespace ArduinoAT90USB.Foundation.Lockstep
variable {A B α β : Type}

structure Protocol (A B α β : Type) where
  wire : A → B → Option α × Option β
  left : A → α → A
  right : B → β → B

/-- The parties and the events they have not taken yet. -/
structure State (A B α β : Type) where
  left : A
  right : B
  toLeft : Option α
  toRight : Option β

inductive Turn
  | wire
  | left
  | right

/-- A party with no event to take. -/
def taken {σ ε : Type} (f : σ → ε → σ) (s : σ) : Option ε → σ
  | none => s
  | some e => f s e

namespace Protocol
variable (p : Protocol A B α β)

/-- The wire waits until both events are taken. -/
def advance (s : State A B α β) : State A B α β :=
  match s.toLeft, s.toRight with
  | none, none => {s with toLeft := (p.wire s.left s.right).1, toRight := (p.wire s.left s.right).2}
  | _, _ => s

def step (s : State A B α β) : Turn → State A B α β
  | .wire => p.advance s
  | .left => {s with left := taken p.left s.left s.toLeft, toLeft := none}
  | .right => {s with right := taken p.right s.right s.toRight, toRight := none}

def run (turns : List Turn) (s : State A B α β) : State A B α β := turns.foldl p.step s

def round (s : A × B) : A × B := (taken p.left s.1 (p.wire s.1 s.2).1,taken p.right s.2 (p.wire s.1 s.2).2)

def rounds : Nat → A × B → A × B
  | 0, s => s
  | n + 1, s => rounds n (p.round s)

def rest (s : A × B) : State A B α β := ⟨s.1,s.2,none,none⟩

def cycles : Nat → List Turn
  | 0 => []
  | n + 1 => .wire :: .left :: .right :: cycles n

/-- A party before or after its part of a round. -/
def Midway {σ ε : Type} (f : σ → ε → σ) (s : σ) (e : Option ε) (s' : σ) (e' : Option ε) : Prop :=
  (s' = s ∧ e' = e) ∨ (s' = taken f s e ∧ e' = none)

/-- Inside the round that begins in `s`, or at its end. -/
def Within (s : A × B) (t : State A B α β) : Prop :=
  Midway p.left s.1 (p.wire s.1 s.2).1 t.left t.toLeft ∧ Midway p.right s.2 (p.wire s.1 s.2).2 t.right t.toRight

/-- The state is one of the synchronous run, or inside the round that follows it. -/
def At (s : A × B) (t : State A B α β) : Prop := t = rest s ∨ p.Within s t

variable {p} {s : A × B} {t : State A B α β}

theorem Midway.take {σ ε : Type} {f : σ → ε → σ} {s s' : σ} {e e' : Option ε} (h : Midway f s e s' e') :
    taken f s' e' = taken f s e := by
  rcases h with ⟨rfl,rfl⟩ | ⟨rfl,rfl⟩
  · rfl
  · rfl

theorem Within.done (h : p.Within s t) (hleft : t.toLeft = none) (hright : t.toRight = none) : t = rest (p.round s) := by
  have hl := h.1.take
  have hr := h.2.take
  rw [hleft] at hl
  rw [hright] at hr
  cases t with
  | mk left right toLeft toRight =>
    simp only at hleft hright
    subst hleft hright
    exact congrArg₂ (fun a b => (⟨a,b,none,none⟩ : State A B α β)) hl hr

/-- Each party is as before the round or as after it. -/
theorem At.parties (h : p.At s t) : (t.left = s.1 ∨ t.left = (p.round s).1) ∧ (t.right = s.2 ∨ t.right = (p.round s).2) := by
  rcases h with rfl | ⟨hleft,hright⟩
  · exact ⟨Or.inl rfl,Or.inl rfl⟩
  · exact ⟨hleft.imp And.left And.left,hright.imp And.left And.left⟩

theorem within_wire (s : A × B) : p.Within s (p.step (rest s) .wire) := ⟨Or.inl ⟨rfl,rfl⟩,Or.inl ⟨rfl,rfl⟩⟩

theorem Within.left (h : p.Within s t) : p.Within s (p.step t .left) := ⟨Or.inr ⟨h.1.take,rfl⟩,h.2⟩

theorem Within.right (h : p.Within s t) : p.Within s (p.step t .right) := ⟨h.1,Or.inr ⟨h.2.take,rfl⟩⟩

/-- The wire only acts between the rounds. -/
theorem Within.wire (h : p.Within s t) : p.Within s (p.step t .wire) ∨ p.Within (p.round s) (p.step t .wire) := by
  by_cases hpending : t.toLeft = none ∧ t.toRight = none
  · rw [h.done hpending.1 hpending.2]
    exact Or.inr (within_wire _)
  · have hsame : p.advance t = t := by
      unfold advance
      split
      case h_1 hl hr => exact absurd ⟨hl,hr⟩ hpending
      case h_2 => rfl
    rw [step,hsame]
    exact Or.inl h

theorem At.step (h : p.At s t) (turn : Turn) : p.At s (p.step t turn) ∨ p.At (p.round s) (p.step t turn) := by
  rcases h with rfl | hw
  · cases turn with
    | wire => exact Or.inl (Or.inr (within_wire s))
    | left => exact Or.inl (Or.inl rfl)
    | right => exact Or.inl (Or.inl rfl)
  · cases turn with
    | wire => exact hw.wire.imp Or.inr Or.inr
    | left => exact Or.inl (Or.inr hw.left)
    | right => exact Or.inl (Or.inr hw.right)

theorem rounds_succ (n : Nat) (s : A × B) : p.rounds (n + 1) s = p.round (p.rounds n s) := by
  induction n generalizing s with
  | zero => rfl
  | succ n ih => exact ih (p.round s)

theorem rounds_add (m n : Nat) (s : A × B) : p.rounds (m + n) s = p.rounds n (p.rounds m s) := by
  induction m generalizing s with
  | zero => rw [Nat.zero_add]; rfl
  | succ m ih => rw [Nat.succ_add]; exact ih (p.round s)

/-- Whatever the order of the turns, some round of the synchronous run is under way. -/
theorem run_at (turns : List Turn) (h : p.At s t) : ∃ r, p.At (p.rounds r s) (p.run turns t) := by
  induction turns generalizing s t with
  | nil => exact ⟨0,h⟩
  | cons turn rest ih =>
    rcases h.step turn with hsame | hnext
    · exact ih hsame
    · obtain ⟨r,hr⟩ := ih hnext
      exact ⟨r + 1,hr⟩

/-- A cycle ends at least one round. -/
theorem cycle_ends (h : p.At s t) :
    ∃ r, 0 < r ∧ p.run [.wire,.left,.right] t = rest (p.rounds r s) := by
  rcases h with rfl | hw
  · exact ⟨1,Nat.one_pos,(within_wire s).left.right.done rfl rfl⟩
  · rcases hw.wire with hsame | hnext
    · exact ⟨1,Nat.one_pos,hsame.left.right.done rfl rfl⟩
    · exact ⟨2,by decide,hnext.left.right.done rfl rfl⟩

theorem cycles_end (n : Nat) (h : p.At s t) : ∃ r, n ≤ r ∧ p.At (p.rounds r s) (p.run (cycles n) t) := by
  induction n generalizing s t with
  | zero => exact ⟨0,Nat.le_refl 0,h⟩
  | succ n ih =>
    obtain ⟨r,hpos,hcycle⟩ := cycle_ends h
    obtain ⟨r',hle,hr'⟩ := ih (s := p.rounds r s) (t := rest (p.rounds r s)) (Or.inl rfl)
    refine ⟨r + r',by omega,?_⟩
    have hrun : p.run (cycles (n + 1)) t = p.run (cycles n) (p.run [.wire,.left,.right] t) := rfl
    rw [hrun,hcycle,rounds_add]
    exact hr'

theorem rounds_fixed {n r : Nat} (hfixed : p.round (p.rounds n s) = p.rounds n s) (hle : n ≤ r) :
    p.rounds r s = p.rounds n s := by
  induction r with
  | zero => rw [Nat.le_zero.mp hle]
  | succ r ih =>
    rcases Nat.lt_or_eq_of_le hle with hlt | rfl
    · rw [rounds_succ,ih (Nat.le_of_lt_succ hlt),hfixed]
    · rfl

/-- When the wire has nothing more to say after `n` rounds, any turns followed by `n` cycles lead
to the state it leaves. -/
theorem settles {n : Nat} (hsilent : p.wire (p.rounds n s).1 (p.rounds n s).2 = (none,none)) (turns : List Turn) :
    p.run (turns ++ cycles n) (rest s) = rest (p.rounds n s) := by
  have hfixed : p.round (p.rounds n s) = p.rounds n s := by
    unfold round
    rw [hsilent]
    rfl
  obtain ⟨r,hr⟩ := run_at turns (Or.inl rfl : p.At s (rest s))
  obtain ⟨r',hle,hr'⟩ := cycles_end n hr
  rw [← rounds_add,rounds_fixed hfixed (by omega)] at hr'
  rw [run,List.foldl_append]
  rcases hr' with hrest | hwithin
  · exact hrest
  · have hquiet := hwithin
    unfold Within at hquiet
    rw [hsilent] at hquiet
    have hl : (p.run (cycles n) (p.run turns (rest s))).toLeft = none := hquiet.1.elim And.right And.right
    have hright : (p.run (cycles n) (p.run turns (rest s))).toRight = none := hquiet.2.elim And.right And.right
    have hdone := hwithin.done hl hright
    rw [hfixed] at hdone
    exact hdone

/-- Exchanges with a number of rounds left, after which the wire has nothing more to say. -/
structure Countdown (p : Protocol A B α β) (P : Nat → A × B → Prop) : Prop where
  round : ∀ {n s}, P (n + 1) s → P n (p.round s)
  silent : ∀ {s}, P 0 s → p.wire s.1 s.2 = (none,none)

namespace Countdown
variable {P : Nat → A × B → Prop} {n : Nat}

theorem rounds (h : p.Countdown P) (r : Nat) (hs : P n s) : ∃ k, P k (p.rounds r s) ∧ (n ≤ r → k = 0) := by
  induction r generalizing n s with
  | zero => exact ⟨n,hs,Nat.le_zero.mp⟩
  | succ r ih =>
    cases n with
    | zero =>
      have hround : p.round s = s := by
        unfold Protocol.round
        rw [h.silent hs]
        rfl
      obtain ⟨k,hk,hzero⟩ := ih hs
      refine ⟨k,?_,fun _ => hzero (Nat.zero_le r)⟩
      rw [Protocol.rounds,hround]
      exact hk
    | succ n =>
      obtain ⟨k,hk,hzero⟩ := ih (h.round hs)
      exact ⟨k,hk,fun hle => hzero (Nat.le_of_succ_le_succ hle)⟩

/-- In any order of the turns, each party is always as in some state of the exchange. -/
theorem parties (h : p.Countdown P) (hs : P n s) (turns : List Turn) :
    (∃ k y, P k y ∧ (p.run turns (rest s)).left = y.1) ∧ ∃ k y, P k y ∧ (p.run turns (rest s)).right = y.2 := by
  obtain ⟨r,hr⟩ := run_at turns (Or.inl rfl : p.At s (rest s))
  obtain ⟨k,hk,-⟩ := h.rounds r hs
  obtain ⟨k',hk',-⟩ := h.rounds (r + 1) hs
  rw [rounds_succ] at hk'
  obtain ⟨hleft,hright⟩ := hr.parties
  exact ⟨hleft.elim (fun heq => ⟨k,_,hk,heq⟩) fun heq => ⟨k',_,hk',heq⟩,
    hright.elim (fun heq => ⟨k,_,hk,heq⟩) fun heq => ⟨k',_,hk',heq⟩⟩

/-- Enough further cycles end the exchange. -/
theorem completes (h : p.Countdown P) (hs : P n s) {r : Nat} (hle : n ≤ r) (turns : List Turn) :
    ∃ y, P 0 y ∧ p.run (turns ++ cycles r) (rest s) = rest y := by
  obtain ⟨k,hk,hzero⟩ := h.rounds r hs
  obtain rfl := hzero hle
  exact ⟨_,hk,settles (h.silent hk) turns⟩

end Countdown

end Protocol
end ArduinoAT90USB.Foundation.Lockstep
