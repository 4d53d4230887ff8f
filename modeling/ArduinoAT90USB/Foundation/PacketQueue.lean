import Mathlib.Data.List.Basic

/-! A queue of packets read one element at a time. The head packet is the one under
the reader's control; an exhausted head stays in place until the next read. -/
namespace ArduinoAT90USB.Foundation.PacketQueue
variable {α : Type}

/-- Release exhausted packets and take the next element. -/
def next : List (List α) → Option (α × List (List α))
  | [] => none
  | [] :: rest => next rest
  | (x :: p) :: rest => some (x, p :: rest)

/-- The packets behind the one that holds the `k`-th element. -/
def later : Nat → List (List α) → List (List α)
  | _, [] => []
  | k, p :: rest => if k ≤ p.length then rest else later (k - p.length) rest

theorem next_eq_none (q : List (List α)) : next q = none ↔ q.flatten = [] := by
  induction q with
  | nil => simp [next]
  | cons p rest ih =>
    cases p with
    | nil => simpa [next] using ih
    | cons x p => simp [next]

/-- Only the packets that hold the element are touched, and the reader is left inside
one of them: what follows them in the queue is still in place. -/
theorem next_append {front : List (List α)} {x : α} {xs : List α} (h : front.flatten = x :: xs)
    (back : List (List α)) :
    ∃ left, left ≠ [] ∧ left.flatten = xs ∧ next (front ++ back) = some (x, left ++ back) := by
  induction front with
  | nil => simp at h
  | cons p rest ih =>
    cases p with
    | nil => exact ih (by simpa using h)
    | cons y p =>
      simp only [List.flatten_cons, List.cons_append, List.cons.injEq] at h
      obtain ⟨rfl,hxs⟩ := h
      exact ⟨p :: rest,by simp,by simpa using hxs,rfl⟩

theorem next_cons {q : List (List α)} {x : α} {xs : List α} (h : q.flatten = x :: xs) :
    ∃ left, left ≠ [] ∧ left.flatten = xs ∧ next q = some (x, left) := by
  obtain ⟨left,hl,hx,he⟩ := next_append h []
  exact ⟨left,hl,hx,by simpa using he⟩

theorem next_flatten {q left : List (List α)} {x : α} (h : next q = some (x, left)) : q.flatten = x :: left.flatten := by
  induction q with
  | nil => cases h
  | cons p rest ih =>
    cases p with
    | nil => exact ih h
    | cons y p =>
      cases h
      rfl

theorem later_zero (q : List (List α)) : later 0 q = q.tail := by
  cases q <;> rfl

theorem later_next {q left : List (List α)} {x : α} (h : next q = some (x, left)) (k : Nat) :
    later (k+1) q = later k left := by
  induction q with
  | nil => cases h
  | cons p rest ih =>
    cases p with
    | nil => exact ih h
    | cons y p =>
      cases h
      simp [later]

/-- Elements held by the front packets: what follows those packets is not reached. -/
theorem later_append {k : Nat} {front : List (List α)} (hne : front ≠ []) (h : k ≤ front.flatten.length)
    (back : List (List α)) : later k (front ++ back) = later k front ++ back := by
  induction front generalizing k with
  | nil => exact absurd rfl hne
  | cons p rest ih =>
    rw [List.cons_append, later, later]
    split
    · rfl
    · rename_i hlong
      rw [List.flatten_cons, List.length_append] at h
      refine ih ?_ (by omega)
      rintro rfl
      exact hlong (by simpa using h)

end ArduinoAT90USB.Foundation.PacketQueue
