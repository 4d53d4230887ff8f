import Mathlib.Data.List.Basic
import Mathlib.Tactic.Common

/-! Memories that are erased and programmed a page at a time, and the image left behind
by programming consecutive blocks of at most one page each. -/
namespace ArduinoAT90USB.Foundation.PagedMemory
variable {α : Type}

/-- `new` inside the page of `p` cells that contains address `a`, `m` everywhere else. -/
def setPage (p a : Nat) (new m : Nat → α) : Nat → α :=
  fun x => if x / p = a / p then new (x % p) else m x

def padded (blank : α) (block : List α) : Nat → α := fun i => (block[i]?).getD blank

/-- Program blocks into consecutive pages, the first one into page `k`. -/
def storeBlocks (p : Nat) (blank : α) : Nat → List (List α) → (Nat → α) → Nat → α
  | _, [], m => m
  | k, b :: rest, m => storeBlocks p blank (k+1) rest (setPage p (k*p) (padded blank b) m)

theorem setPage_same {p a b : Nat} (h : a / p = b / p) (new old m : Nat → α) :
    setPage p a new (setPage p b old m) = setPage p a new m := by
  funext x
  by_cases hx : x / p = a / p
  · simp [setPage, hx]
  · simp [setPage, hx, h ▸ hx]

theorem setPage_inside {p k i : Nat} (hi : i < p) (new m : Nat → α) :
    setPage p (k*p) new m (k*p + i) = new i := by
  have hp : 0 < p := by omega
  have hd : (k*p + i) / p = k := by
    rw [Nat.mul_comm, Nat.mul_add_div hp, Nat.div_eq_of_lt hi, Nat.add_zero]
  have hm : (k*p + i) % p = i := by
    rw [Nat.mul_comm, Nat.mul_add_mod, Nat.mod_eq_of_lt hi]
  simp [setPage, hd, hm, Nat.mul_div_cancel k hp]

theorem setPage_outside {p k x : Nat} (hp : 0 < p) (hx : x < k*p ∨ k*p + p ≤ x) (new m : Nat → α) :
    setPage p (k*p) new m x = m x := by
  have hne : x / p ≠ k := by
    intro he
    have hlow := Nat.div_mul_le_self x p
    have hhigh := Nat.lt_div_mul_add (a := x) hp
    rw [he] at hlow hhigh
    omega
  simp [setPage, hne, Nat.mul_div_cancel k hp]

theorem setPage_inj {p k : Nat} (hp : 0 < p) (new other m : Nat → α) :
    setPage p (k*p) new m = setPage p (k*p) other m ↔ ∀ i < p, new i = other i := by
  constructor
  · intro h i hi
    have hcell := congrFun h (k*p + i)
    rwa [setPage_inside hi, setPage_inside hi] at hcell
  · intro h
    funext x
    by_cases hx : x / p = k*p / p
    · simp [setPage, hx, h _ (Nat.mod_lt x hp)]
    · simp [setPage, hx]

/-- Reads that return the same from every memory are reads of the same addresses. -/
theorem addresses_of_reads {ι : Type} [DecidableEq ι] {x y : α} (hne : x ≠ y) {front back : List ι}
    (h : ∀ m : ι → α, front.map m = back.map m) : front = back := by
  have hlength : front.length = back.length := by
    simpa using congrArg List.length (h fun _ => x)
  refine List.ext_getElem hlength fun i h₁ h₂ => ?_
  -- a memory that marks one address
  have hmark := List.getElem_of_eq (h fun a => if a = front[i] then x else y) (by simpa using h₁)
  simp only [List.getElem_map, if_true] at hmark
  by_contra hdiff
  rw [if_neg (Ne.symm hdiff)] at hmark
  exact hne hmark

/-- Replacing pages one after the other reaches these pages and no others. -/
theorem foldl_setPage {p : Nat} (pages : List Nat) (new m : Nat → α) (x : Nat) :
    ((∃ a ∈ pages, x / p = a / p) → pages.foldl (fun m a => setPage p a new m) m x = new (x % p)) ∧
      ((¬ ∃ a ∈ pages, x / p = a / p) → pages.foldl (fun m a => setPage p a new m) m x = m x) := by
  induction pages generalizing m with
  | nil => simp
  | cons a rest ih =>
    rw [List.foldl_cons]
    obtain ⟨hin,hout⟩ := ih (setPage p a new m)
    constructor
    · intro hx
      by_cases hrest : ∃ b ∈ rest, x / p = b / p
      · exact hin hrest
      · have ha : x / p = a / p := by simpa [hrest] using hx
        rw [hout hrest, setPage, if_pos ha]
    · intro hx
      have hrest : ¬ ∃ b ∈ rest, x / p = b / p := fun ⟨b,hb,he⟩ => hx ⟨b,List.mem_cons_of_mem a hb,he⟩
      have ha : x / p ≠ a / p := fun he => hx ⟨a,List.mem_cons_self,he⟩
      rw [hout hrest, setPage, if_neg ha]

theorem storeBlocks_before {p : Nat} (hp : 0 < p) (blank : α) (blocks : List (List α)) (k x : Nat)
    (m : Nat → α) (hx : x < k*p) : storeBlocks p blank k blocks m x = m x := by
  induction blocks generalizing k m with
  | nil => rfl
  | cons b rest ih =>
    rw [storeBlocks, ih (k+1) _ (by rw [Nat.add_mul]; omega), setPage_outside hp (Or.inl hx)]

section Full
variable {p : Nat} {b : List α} {rest : List (List α)} (hfull : ∀ c ∈ (b :: rest).dropLast, c.length = p)
include hfull

private theorem full_head (hne : rest ≠ []) : b.length = p := by
  obtain ⟨next,more,rfl⟩ := List.exists_cons_of_ne_nil hne
  exact hfull b List.mem_cons_self

private theorem full_tail : ∀ c ∈ rest.dropLast, c.length = p := by
  intro c hc
  cases rest with
  | nil => simp at hc
  | cons next more => exact hfull c (List.mem_cons_of_mem b hc)

private theorem image_head {i : Nat} (hi : i < p) (blank : α) :
    padded blank b i = ((b :: rest).flatten[i]?).getD blank := by
  rw [padded, List.flatten_cons]
  by_cases hib : i < b.length
  · rw [List.getElem?_append_left hib]
  · have hlast : rest = [] := by
      by_contra hne
      have hlen := full_head hfull hne
      omega
    subst hlast
    simp

private theorem image_tail (hne : rest ≠ []) (j : Nat) : (b :: rest).flatten[p + j]? = rest.flatten[j]? := by
  have hlen := full_head hfull hne
  rw [List.flatten_cons, List.getElem?_append_right (by omega), hlen, Nat.add_sub_cancel_left]

end Full

/-- Blocks that fill their page, except perhaps the last, leave the concatenated image
in place, blanks up to the end of the last page and the other pages as they were. -/
theorem storeBlocks_image {p : Nat} (hp : 0 < p) (blank : α) (blocks : List (List α)) (k : Nat)
    (m : Nat → α) (hfull : ∀ b ∈ blocks.dropLast, b.length = p) (i : Nat) :
    storeBlocks p blank k blocks m (k*p + i) =
      if i < blocks.length * p then (blocks.flatten[i]?).getD blank else m (k*p + i) := by
  induction blocks generalizing k m i with
  | nil => simp [storeBlocks]
  | cons b rest ih =>
    have hpages : (b :: rest).length * p = rest.length * p + p := by rw [List.length_cons, Nat.add_mul, Nat.one_mul]
    rw [storeBlocks, hpages]
    by_cases hi : i < p
    · -- the first page is not touched again by the remaining blocks
      rw [storeBlocks_before hp _ _ _ _ _ (by rw [Nat.add_mul]; omega), setPage_inside hi, if_pos (by omega),
        image_head hfull hi]
    · obtain ⟨j,rfl⟩ : ∃ j, i = p + j := ⟨i - p,by omega⟩
      have haddr : k*p + (p + j) = (k+1)*p + j := by rw [Nat.add_mul]; omega
      have hstep := ih (k+1) (setPage p (k*p) (padded blank b) m) (full_tail hfull) j
      rw [haddr, hstep, setPage_outside hp (Or.inr (by rw [Nat.add_mul]; omega))]
      by_cases hj : j < rest.length * p
      · have hne : rest ≠ [] := by
          rintro rfl
          simp at hj
        rw [if_pos hj, if_pos (by omega), image_tail hfull hne]
      · rw [if_neg hj, if_neg (by omega)]

/-- Every image can be cut into full blocks and a last one that may be shorter. -/
theorem exists_blocks {p : Nat} (hp : 0 < p) (image : List α) :
    ∃ blocks : List (List α), blocks.flatten = image ∧ (∀ b ∈ blocks.dropLast, b.length = p) ∧
      ∀ b ∈ blocks, b.length ≤ p := by
  induction hn : image.length using Nat.strongRecOn generalizing image with
  | ind n ih =>
    by_cases hle : n ≤ p
    · exact ⟨[image],by simp,by simp,by simpa [hn] using hle⟩
    · obtain ⟨blocks,hflat,hfull,hfits⟩ := ih (n - p) (by omega) (image.drop p) (by simp [hn])
      have htake : (image.take p).length = p := by
        rw [List.length_take]
        omega
      refine ⟨image.take p :: blocks,by rw [List.flatten_cons, hflat, List.take_append_drop],?_,?_⟩
      · intro b hb
        cases blocks with
        | nil => simp at hb
        | cons c rest =>
          rcases List.mem_cons.mp hb with rfl | hb
          · exact htake
          · exact hfull b hb
      · intro b hb
        rcases List.mem_cons.mp hb with rfl | hb
        · exact Nat.le_of_eq htake
        · exact hfits b hb

end ArduinoAT90USB.Foundation.PagedMemory
