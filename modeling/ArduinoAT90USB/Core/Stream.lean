import Mathlib.Tactic.Common

/-! The timed primitives of `Stream.cpp`, over any implementation of the virtual methods.
Loops run on fuel, since they end only when the clock or the port lets them. -/
namespace ArduinoAT90USB.Core

/-- What `Stream` calls: the virtual methods of the port and the millisecond clock. -/
structure Port (σ : Type) where
  read : σ → Int × σ
  peek : σ → Int × σ
  millis : σ → UInt32 × σ

/-- A loop that needs fuel for one turn and `fuel` for the rest. -/
theorem enough_fuel {α : Type} {x : Nat → α} {r : α} {fuel : Nat} (h : ∀ more ≥ fuel, x (more+1) = r) :
    ∀ more ≥ fuel+1, x more = r := by
  intro more hle
  obtain ⟨more,rfl⟩ := Nat.exists_eq_add_one_of_ne_zero (show more ≠ 0 by omega)
  exact h more (by omega)

theorem fuel_unique {α : Type} {x : Nat → α} {r r' : α} {fuel fuel' : Nat} (h : ∀ more ≥ fuel, x more = r)
    (h' : ∀ more ≥ fuel', x more = r') : r = r' :=
  (h (max fuel fuel') (Nat.le_max_left _ _)).symm.trans (h' (max fuel fuel') (Nat.le_max_right _ _))

namespace Port
variable {σ : Type} (port : Port σ)

/-- Call a method until it delivers something or the timeout has passed. -/
def timedLoop (method : σ → Int × σ) (timeout startMillis : UInt32) : Nat → σ → Option (Int × σ)
  | 0, _ => none
  | fuel+1, s =>
    let c := method s
    if c.1 ≥ 0 then some c
    else
      let now := port.millis c.2
      if now.1 - startMillis < timeout then timedLoop method timeout startMillis fuel now.2
      else some (-1, now.2)

def timed (method : σ → Int × σ) (timeout : UInt32) (fuel : Nat) (s : σ) : Option (Int × σ) :=
  let start := port.millis s
  port.timedLoop method timeout start.1 fuel start.2

def timedRead : UInt32 → Nat → σ → Option (Int × σ) := port.timed port.read

def timedPeek : UInt32 → Nat → σ → Option (Int × σ) := port.timed port.peek

/-- The digit or minus sign next in the stream, other characters being discarded. -/
def peekNextDigit (timeout : UInt32) : Nat → σ → Option (Int × σ)
  | 0, _ => none
  | fuel+1, s => match port.timedPeek timeout fuel s with
    | none => none
    | some c =>
      if c.1 < 0 then some c
      else if c.1 = '-'.toNat then some c
      else if c.1 ≥ '0'.toNat ∧ c.1 ≤ '9'.toNat then some c
      else peekNextDigit timeout fuel (port.read c.2).2

/-- A method that delivers at once is called once, whatever the clock says. -/
theorem timed_delivers (method : σ → Int × σ) {s : σ} (h : (method (port.millis s).2).1 ≥ 0) (timeout : UInt32)
    (fuel : Nat) : port.timed method timeout (fuel+1) s = some (method (port.millis s).2) := if_pos h

variable {port} {timeout : UInt32}

private theorem timedLoop_mono {method : σ → Int × σ} {start : UInt32} {fuel more : Nat} {s : σ} {r : Int × σ}
    (h : port.timedLoop method timeout start fuel s = some r) (hle : fuel ≤ more) :
    port.timedLoop method timeout start more s = some r := by
  induction fuel generalizing more s with
  | zero => cases h
  | succ fuel ih =>
    obtain ⟨more,rfl⟩ := Nat.exists_eq_add_one_of_ne_zero (show more ≠ 0 by omega)
    unfold timedLoop at h ⊢
    dsimp only at h ⊢
    split_ifs at h ⊢
    · exact h
    · exact ih h (by omega)
    · exact h

theorem timedRead_mono {fuel more : Nat} {s : σ} {r : Int × σ} (h : port.timedRead timeout fuel s = some r)
    (hle : fuel ≤ more) : port.timedRead timeout more s = some r :=
  timedLoop_mono h hle

theorem timedPeek_mono {fuel more : Nat} {s : σ} {r : Int × σ} (h : port.timedPeek timeout fuel s = some r)
    (hle : fuel ≤ more) : port.timedPeek timeout more s = some r :=
  timedLoop_mono h hle

variable (port) in
/-- The stream feeds reads with the bytes of `unread`: each arrives within the timeout of the
read that waits for it, and after the last one a read times out. -/
structure Feeds (timeout : UInt32) (unread : σ → List UInt8) : Prop where
  next : ∀ s b rest, unread s = b :: rest → ∃ fuel t, port.timedRead timeout fuel s = some ((b.toNat : Int), t) ∧
    unread t = rest
  silence : ∀ s, unread s = [] → ∃ fuel t, port.timedRead timeout fuel s = some (-1, t) ∧ unread t = []

end Port

/-- Bytes that are all there, and a clock that ticks whenever it is read. -/
def linePort : Port (List UInt8 × Nat) where
  read s := (s.1.head?.elim (-1) fun b => b.toNat, (s.1.tail, s.2))
  peek s := (s.1.head?.elim (-1) fun b => b.toNat, s)
  millis s := (UInt32.ofNat s.2, (s.1, s.2 + 1))

/-- The clock has ticked between two readings. -/
theorem linePort_clock (now : Nat) : ¬ UInt32.ofNat (now + 1) - UInt32.ofNat now < 1 := by
  rw [UInt32.ofNat_add, UInt32.add_comm, UInt32.add_sub_cancel]
  decide

theorem linePort_feeds : linePort.Feeds 1 Prod.fst where
  next := by
    rintro ⟨bytes,now⟩ b rest rfl
    refine ⟨1,(rest,now+1),?_,rfl⟩
    have hread : (linePort.read (linePort.millis (b :: rest,now)).2).1 ≥ 0 := Int.natCast_nonneg b.toNat
    exact Port.timed_delivers linePort linePort.read hread 1 0
  silence := by
    rintro ⟨bytes,now⟩ rfl
    exact ⟨1,([],now+2),if_neg (linePort_clock now),rfl⟩

end ArduinoAT90USB.Core
