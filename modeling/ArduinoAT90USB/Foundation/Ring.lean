import Mathlib.Logic.Function.Basic
import Mathlib.Tactic.Common

/-! A queue in a ring of `n` cells: `head` is the next cell to fill, `tail` the oldest one
in use, and one cell stays free so that equal indices mean an empty queue. -/
namespace ArduinoAT90USB.Foundation.Ring
variable {α : Type} {n head tail : Nat}

def next (n i : Nat) : Nat := (i + 1) % n

def count (n head tail : Nat) : Nat := (n + head - tail) % n

/-- The queued elements, oldest first. -/
def contents (n : Nat) (cells : Nat → α) (head tail : Nat) : List α :=
  (List.range (count n head tail)).map fun k => cells ((tail + k) % n)

private theorem mod_once {a : Nat} (h : a < n + n) : a % n = if a < n then a else a - n := by
  split
  · exact Nat.mod_eq_of_lt ‹_›
  · rw [Nat.mod_eq_sub_mod (by omega), Nat.mod_eq_of_lt (by omega)]

theorem next_lt (h : 0 < n) (i : Nat) : next n i < n := Nat.mod_lt _ h

theorem next_eq {i : Nat} (h : i < n) : next n i = if i + 1 < n then i + 1 else i + 1 - n := mod_once (by omega)

theorem count_eq (hh : head < n) (ht : tail < n) :
    count n head tail = if tail ≤ head then head - tail else n + head - tail := by
  rw [count, mod_once (by omega)]
  split_ifs <;> omega

theorem contents_length (cells : Nat → α) : (contents n cells head tail).length = count n head tail := by
  simp [contents]

section Bounded
variable (hh : head < n) (ht : tail < n)
include hh ht

theorem count_lt : count n head tail < n := by
  rw [count_eq hh ht]
  split <;> omega

theorem contents_eq_nil (cells : Nat → α) : contents n cells head tail = [] ↔ head = tail := by
  rw [← List.length_eq_zero_iff, contents_length, count_eq hh ht]
  split <;> omega

/-- The free cell is the last one exactly when `n - 1` elements are queued. -/
theorem next_eq_tail (cells : Nat → α) : next n head = tail ↔ (contents n cells head tail).length = n - 1 := by
  rw [contents_length, count_eq hh ht, next_eq hh]
  split_ifs <;> omega

theorem contents_update (cells : Nat → α) (x : α) :
    contents n (Function.update cells head x) head tail = contents n cells head tail := by
  refine List.map_congr_left fun k hk => ?_
  have hk := List.mem_range.mp hk
  rw [count_eq hh ht] at hk
  refine Function.update_of_ne ?_ x cells
  rw [mod_once (by split_ifs at hk <;> omega)]
  split_ifs at hk ⊢ <;> omega

theorem contents_push (cells : Nat → α) (h : next n head ≠ tail) :
    contents n cells (next n head) tail = contents n cells head tail ++ [cells head] := by
  have hcount : count n (next n head) tail = count n head tail + 1 := by
    rw [count_eq (next_lt (by omega) head) ht, count_eq hh ht]
    rw [next_eq hh] at h ⊢
    split_ifs at h ⊢ <;> omega
  have hlast : (tail + count n head tail) % n = head := by
    rw [count_eq hh ht, mod_once (by split_ifs <;> omega)]
    split_ifs <;> omega
  rw [contents, hcount, List.range_succ, List.map_append, contents, List.map_singleton, hlast]

theorem contents_pop (cells : Nat → α) (h : head ≠ tail) :
    contents n cells head tail = cells tail :: contents n cells head (next n tail) := by
  have hcount : count n head tail = count n head (next n tail) + 1 := by
    rw [count_eq hh (next_lt (by omega) tail), count_eq hh ht, next_eq ht]
    split_ifs <;> omega
  rw [contents, hcount, List.range_succ_eq_map, List.map_cons, Nat.add_zero, Nat.mod_eq_of_lt ht, List.map_map, contents]
  congr 1
  refine List.map_congr_left fun k _ => ?_
  simp only [Function.comp_apply, next, Nat.mod_add_mod, Nat.succ_eq_add_one]
  congr 2
  omega

end Bounded

end ArduinoAT90USB.Foundation.Ring
