import Mathlib.Data.List.Infix

/-! Replacing a pattern in a list: the matches found from left to right and the pieces between
them, and when a search from right to left comes upon the same pieces. -/
namespace ArduinoAT90USB.Foundation.Substitution
variable {α : Type} {f r u a c : List α}

/-- `f` stands in `u` behind `a` and nowhere earlier, and `c` comes after it. -/
structure First (f u a c : List α) : Prop where
  split : u = a ++ (f ++ c)
  earliest : ∀ i < a.length, ¬ f <+: u.drop i

theorem First.cons {x : α} (h : First f u a c) (hx : ¬ f <+: x :: u) : First f (x :: u) (x :: a) c where
  split := congrArg (x :: ·) h.split
  earliest i hi := by
    cases i with
    | zero => exact hx
    | succ i => exact h.earliest i (Nat.lt_of_succ_lt_succ hi)

theorem First.occurs (h : First f u a c) : f <:+: u := ⟨a,c,by rw [h.split,List.append_assoc]⟩

theorem First.length (h : First f u a c) : u.length = a.length + (f.length + c.length) := by
  rw [h.split,List.length_append,List.length_append]

theorem First.unique {a' c' : List α} (h : First f u a c) (h' : First f u a' c') : a = a' ∧ c = c' := by
  have hmatch : f <+: u.drop a.length := by
    rw [h.split,List.drop_left]
    exact List.prefix_append f c
  have hmatch' : f <+: u.drop a'.length := by
    rw [h'.split,List.drop_left]
    exact List.prefix_append f c'
  have hlength : a.length = a'.length := by
    rcases Nat.lt_trichotomy a.length a'.length with hlt | heq | hlt
    · exact absurd hmatch (h'.earliest _ hlt)
    · exact heq
    · exact absurd hmatch' (h.earliest _ hlt)
  obtain ⟨ha,hrest⟩ := List.append_inj (h.split.symm.trans h'.split) hlength
  exact ⟨ha,List.append_cancel_left hrest⟩

theorem First.window {n : Nat} (h : First f u a c) (hn : a.length + n ≤ u.length) :
    ∃ w v, w.length = n ∧ u = a ++ (w ++ v) := by
  have hu : u = a ++ u.drop a.length := by
    have hdrop : u.drop a.length = f ++ c := by rw [h.split,List.drop_left]
    rw [hdrop]
    exact h.split
  refine ⟨(u.drop a.length).take n,(u.drop a.length).drop n,?_,?_⟩
  · rw [List.length_take,List.length_drop]
    omega
  · rw [List.take_append_drop]
    exact hu

/-- Nothing, or a first match. -/
theorem none_or_first (f u : List α) : ¬ f <:+: u ∨ ∃ a c, First f u a c := by
  induction u with
  | nil =>
    by_cases hf : f = []
    · subst hf
      exact .inr ⟨[],[],rfl,fun i hi => absurd hi (Nat.not_lt_zero i)⟩
    · exact .inl fun h => hf (List.infix_nil.mp h)
  | cons x u ih =>
    by_cases hx : f <+: x :: u
    · obtain ⟨c,hc⟩ := hx
      exact .inr ⟨[],c,hc.symm,fun i hi => absurd hi (Nat.not_lt_zero i)⟩
    · rcases ih with hnone | ⟨a,c,hfirst⟩
      · exact .inl fun h => (List.infix_cons_iff.mp h).elim hx hnone
      · exact .inr ⟨x :: a,c,hfirst.cons hx⟩

/-- Induction over the matches found from left to right. -/
theorem first_induction {P : List α → Prop} (hf : f ≠ []) (none : ∀ u, ¬ f <:+: u → P u)
    (first : ∀ u a c, First f u a c → P c → P u) (u : List α) : P u := by
  induction hn : u.length using Nat.strongRecOn generalizing u with
  | ind n ih =>
    rcases none_or_first f u with hnone | ⟨a,c,hfirst⟩
    · exact none u hnone
    · have := hfirst.length
      have := List.length_pos_iff.mpr hf
      exact first u a c hfirst (ih c.length (by omega) c rfl)

/-- `f` stands in `l ++ t` and begins in `l`. -/
def BeginsIn (f l t : List α) : Prop := ∃ i < l.length, f <+: (l ++ t).drop i

instance [DecidableEq α] (f l t : List α) : Decidable (BeginsIn f l t) :=
  inferInstanceAs (Decidable (∃ i < l.length, f <+: (l ++ t).drop i))

theorem BeginsIn.lead {l t : List α} (h : BeginsIn f l t) (lead : List α) : BeginsIn f (lead ++ l) t := by
  obtain ⟨i,hi,hmatch⟩ := h
  refine ⟨lead.length + i,by rw [List.length_append]; omega,?_⟩
  rw [List.append_assoc,List.drop_append,List.drop_of_length_le (Nat.le_add_right _ _),List.nil_append,
    Nat.add_sub_cancel_left]
  exact hmatch

/-- A match that begins in `l` does not depend on what is further away than its length. -/
theorem beginsIn_append {l t : List α} (ht : f.length ≤ t.length + 1) (x : List α) :
    BeginsIn f l (t ++ x) ↔ BeginsIn f l t := by
  have hreach {i : Nat} (hi : i < l.length) : (l ++ (t ++ x)).drop i = (l ++ t).drop i ++ x := by
    rw [← List.append_assoc,List.drop_append_of_le_length]
    rw [List.length_append]
    omega
  constructor
  · rintro ⟨i,hi,hmatch⟩
    refine ⟨i,hi,?_⟩
    rw [hreach hi] at hmatch
    refine List.prefix_of_prefix_length_le hmatch (List.prefix_append _ _) ?_
    rw [List.length_drop,List.length_append]
    omega
  · rintro ⟨i,hi,hmatch⟩
    refine ⟨i,hi,?_⟩
    rw [hreach hi]
    exact hmatch.trans (List.prefix_append _ _)

theorem beginsIn_middle (hf : f ≠ []) (a g x : List α) : BeginsIn f (a ++ (f ++ g)) x := by
  refine ⟨a.length,?_,?_⟩
  · have := List.length_pos_iff.mpr hf
    rw [List.length_append,List.length_append]
    omega
  · rw [List.append_assoc,List.drop_left,List.append_assoc]
    exact List.prefix_append _ _

theorem infix_of_not_beginsIn {l : List α} (hf : f ≠ []) (h : ¬ BeginsIn f l []) : ¬ f <:+: l := by
  rintro ⟨s,t,rfl⟩
  rw [List.append_assoc] at h
  exact h (beginsIn_middle hf s t [])

theorem intercalate_cons {h : List α} {hs : List (List α)} (hne : hs ≠ []) :
    r.intercalate (h :: hs) = h ++ (r ++ r.intercalate hs) := by
  obtain ⟨h',hs,rfl⟩ := List.exists_cons_of_ne_nil hne
  rw [List.intercalate_cons_cons,List.append_assoc]

section Pieces
variable [DecidableEq α]

/-- What is left of a list when the matches of `f` are taken out from left to right; the first `skip` elements
belong to a match already found. -/
def pieces (f : List α) : Nat → List α → List (List α)
  | _, [] => [[]]
  | skip+1, _ :: u => pieces f skip u
  | 0, x :: u => if f <+: x :: u then [] :: pieces f (f.length - 1) u else (pieces f 0 u).modifyHead (x :: ·)

/-- Every match, from left to right and without overlaps, is replaced. -/
def substitute (f r u : List α) : List α := r.intercalate (pieces f 0 u)

theorem pieces_skip (f p c : List α) : pieces f p.length (p ++ c) = pieces f 0 c := by
  induction p with
  | nil => rfl
  | cons x p ih =>
    rw [List.length_cons,List.cons_append,pieces]
    exact ih

theorem pieces_none (h : ¬ f <:+: u) : pieces f 0 u = [u] := by
  induction u with
  | nil => rfl
  | cons x u ih =>
    have hnone := not_or.mp fun h' => h (List.infix_cons_iff.mpr h')
    rw [pieces,if_neg hnone.1,ih hnone.2]
    rfl

theorem pieces_first (hf : f ≠ []) (h : First f u a c) : pieces f 0 u = a :: pieces f 0 c := by
  obtain ⟨y,f',rfl⟩ := List.exists_cons_of_ne_nil hf
  induction a generalizing u with
  | nil =>
    have hsplit := h.split
    rw [List.nil_append,List.cons_append] at hsplit
    rw [hsplit,pieces,if_pos ⟨c,rfl⟩,List.length_cons,Nat.add_sub_cancel,pieces_skip]
  | cons x a ih =>
    have hsplit := h.split
    rw [List.cons_append] at hsplit
    subst hsplit
    have hrest : First (y :: f') (a ++ (y :: f' ++ c)) a c :=
      ⟨rfl,fun i hi => h.earliest (i + 1) (Nat.succ_lt_succ hi)⟩
    have hx : ¬ y :: f' <+: x :: (a ++ (y :: f' ++ c)) := h.earliest 0 (Nat.succ_pos _)
    rw [pieces,if_neg hx,ih hrest]
    rfl

theorem pieces_ne_nil (f : List α) (skip : Nat) (u : List α) : pieces f skip u ≠ [] := by
  induction u generalizing skip with
  | nil => exact List.cons_ne_nil _ _
  | cons x u ih =>
    cases skip with
    | zero =>
      rw [pieces]
      split
      · exact List.cons_ne_nil _ _
      · intro h
        exact ih 0 (List.modifyHead_eq_nil_iff.mp h)
    | succ skip => exact ih skip

theorem intercalate_pieces (hf : f ≠ []) (u : List α) : f.intercalate (pieces f 0 u) = u := by
  induction u using first_induction hf with
  | none u hnone => rw [pieces_none hnone,List.intercalate_singleton]
  | first u a c hfirst ih => rw [pieces_first hf hfirst,intercalate_cons (pieces_ne_nil f 0 c),ih,hfirst.split]

theorem substitute_none (h : ¬ f <:+: u) : substitute f r u = u := by
  rw [substitute,pieces_none h,List.intercalate_singleton]

theorem substitute_first (hf : f ≠ []) (h : First f u a c) : substitute f r u = a ++ (r ++ substitute f r c) := by
  rw [substitute,pieces_first hf h,intercalate_cons (pieces_ne_nil f 0 c)]
  rfl

example : substitute [1, 1] [2] [1, 1, 1] = [2, 1] := by decide

def count (f u : List α) : Nat := (pieces f 0 u).length - 1

theorem count_none (h : ¬ f <:+: u) : count f u = 0 := by
  rw [count,pieces_none h]
  rfl

theorem count_first (hf : f ≠ []) (h : First f u a c) : count f u = count f c + 1 := by
  have := List.length_pos_iff.mpr (pieces_ne_nil f 0 c)
  rw [count,count,pieces_first hf h,List.length_cons]
  omega

theorem count_pos (hf : f ≠ []) (h : f <:+: u) : 0 < count f u := by
  rcases none_or_first f u with hnone | ⟨a,c,hfirst⟩
  · exact absurd h hnone
  · rw [count_first hf hfirst]
    exact Nat.succ_pos _

theorem substitute_length (hf : f ≠ []) (r u : List α) :
    (substitute f r u).length + count f u * f.length = u.length + count f u * r.length := by
  induction u using first_induction hf with
  | none u hnone => rw [substitute_none hnone,count_none hnone]; omega
  | first u a c hfirst ih =>
    rw [substitute_first hf hfirst,count_first hf hfirst,hfirst.length,Nat.succ_mul,Nat.succ_mul]
    simp only [List.length_append]
    omega

end Pieces

/-- The stretches of `n` elements at whose beginnings `g` is found from left to right, when the search goes on
behind each of them. -/
inductive Windows (g : List α) (n : Nat) : List α → List (List α) → Prop
  | none {u : List α} (h : ¬ g <:+: u) : Windows g n u []
  | next {a c w v : List α} {ws : List (List α)} (hfirst : First g (a ++ (w ++ v)) a c) (hw : w.length = n)
      (h : Windows g n v ws) : Windows g n (a ++ (w ++ v)) (w :: ws)

theorem Windows.length_le {n : Nat} {ws : List (List α)} (h : Windows f n u ws) : ws.length * n ≤ u.length := by
  induction h with
  | none h => rw [List.length_nil,Nat.zero_mul]; exact Nat.zero_le _
  | next hfirst hw h ih =>
    rw [List.length_cons,Nat.succ_mul,List.length_append,List.length_append]
    omega

theorem Windows.lengths {n : Nat} {ws : List (List α)} (h : Windows f n u ws) : ∀ w ∈ ws, w.length = n := by
  induction h with
  | none h => exact fun w hw => absurd hw List.not_mem_nil
  | next hfirst hw h ih => exact List.forall_mem_cons.mpr ⟨hw,ih⟩

theorem Windows.eq_nil_iff {n : Nat} {ws : List (List α)} (h : Windows f n u ws) : ws = [] ↔ ¬ f <:+: u := by
  cases h with
  | none h => exact iff_of_true rfl h
  | next hfirst hw h => exact iff_of_false (List.cons_ne_nil _ _) (not_not_intro hfirst.occurs)

theorem windows_count [DecidableEq α] (hf : f ≠ []) (u : List α) : Windows f f.length u (List.replicate (count f u) f) := by
  induction u using first_induction hf with
  | none u hnone =>
    rw [count_none hnone]
    exact .none hnone
  | first u a c hfirst ih =>
    rw [count_first hf hfirst,List.replicate_succ]
    have hsplit := hfirst.split
    subst hsplit
    exact .next hfirst rfl ih

/-! The search from right to left. -/
section Backwards

/-- Pieces between matches that a search from right to left comes upon too: behind the first element of the match on
its left (`lead` for the first piece), before the replacement of the match on its right (`trail` for the last), no
match begins in or before the piece. -/
def Apart (f r trail : List α) : List α → List (List α) → Prop
  | _, [] => True
  | lead, [h] => ¬ BeginsIn f (lead ++ h) trail
  | lead, h :: h' :: hs => ¬ BeginsIn f (lead ++ h) r ∧ Apart f r trail f.tail (h' :: hs)

instance decidableApart [DecidableEq α] (f r trail : List α) :
    (lead : List α) → (hs : List (List α)) → Decidable (Apart f r trail lead hs)
  | _, [] => .isTrue trivial
  | lead, [h] => inferInstanceAs (Decidable (¬ BeginsIn f (lead ++ h) trail))
  | lead, h :: h' :: hs =>
    have := decidableApart f r trail f.tail (h' :: hs)
    inferInstanceAs (Decidable (¬ BeginsIn f (lead ++ h) r ∧ Apart f r trail f.tail (h' :: hs)))

variable {trail lead g : List α} {hs : List (List α)}

theorem apart_snoc (hne : hs ≠ []) : Apart f r trail lead (hs ++ [g]) ↔
    Apart f r r lead hs ∧ ¬ BeginsIn f (f.tail ++ g) trail := by
  induction hs generalizing lead with
  | nil => exact absurd rfl hne
  | cons h hs ih =>
    cases hs with
    | nil => rfl
    | cons h' hs =>
      exact (and_congr_right fun _ => ih (List.cons_ne_nil h' hs)).trans and_assoc.symm

theorem Apart.without_lead (h : Apart f r trail lead hs) : Apart f r trail [] hs := by
  cases hs with
  | nil => trivial
  | cons g hs =>
    cases hs with
    | nil => exact fun hin => h (hin.lead lead)
    | cons g' hs => exact ⟨fun hin => h.1 (hin.lead lead),h.2⟩

theorem intercalate_length_le (hle : f.length ≤ r.length) (hs : List (List α)) :
    (f.intercalate hs).length ≤ (r.intercalate hs).length := by
  induction hs with
  | nil => exact Nat.le_refl _
  | cons g hs ih =>
    by_cases hne : hs = []
    · subst hne
      exact Nat.le_refl _
    · rw [intercalate_cons hne,intercalate_cons hne]
      simp only [List.length_append]
      omega

theorem intercalate_snoc (hne : hs ≠ []) : r.intercalate (hs ++ [g]) = r.intercalate hs ++ (r ++ g) := by
  induction hs with
  | nil => exact absurd rfl hne
  | cons h hs ih =>
    cases hs with
    | nil => rw [List.singleton_append,List.intercalate_cons_cons,List.intercalate_singleton,List.intercalate_singleton,
        List.append_assoc]
    | cons h' hs =>
      rw [List.cons_append,intercalate_cons (List.append_ne_nil_of_left_ne_nil (List.cons_ne_nil h' hs) _),
        ih (List.cons_ne_nil h' hs),intercalate_cons (List.cons_ne_nil h' hs)]
      simp only [List.append_assoc]

/-- The last match of `f` in `v ++ x` that begins in `v` stands behind `a`. -/
structure Last (f v x a y : List α) : Prop where
  split : v ++ x = a ++ (f ++ y)
  inside : a.length < v.length
  latest : ∀ i, a.length < i → i < v.length → ¬ f <+: (v ++ x).drop i

section Latest
variable {v x y : List α}

private theorem drop_behind (hf : f ≠ []) (a g x : List α) (i : Nat) :
    (a ++ (f ++ g) ++ x).drop (a.length + 1 + i) = (f.tail ++ g ++ x).drop i := by
  obtain ⟨c,f,rfl⟩ := List.exists_cons_of_ne_nil hf
  rw [List.append_assoc,Nat.add_assoc,← List.drop_drop,List.drop_left,Nat.add_comm 1]
  rfl

theorem Last.beginsIn (h : Last f v x a y) : BeginsIn f v x :=
  ⟨a.length,h.inside,by rw [h.split,List.drop_left]; exact List.prefix_append f y⟩

theorem Last.before (h : Last f v x a y) : a <+: v :=
  List.prefix_of_prefix_length_le ⟨_,h.split.symm⟩ (List.prefix_append v x) (Nat.le_of_lt h.inside)

/-- A match behind which none begins is the last one. -/
theorem Last.eq_of_apart (hf : f ≠ []) (h : Last f (a ++ (f ++ g)) x c y) (hnone : ¬ BeginsIn f (f.tail ++ g) x) :
    c = a ∧ y = g ++ x := by
  have hsplit := h.split
  have hpos := List.length_pos_iff.mpr hf
  have hinside := h.inside
  rw [List.length_append,List.length_append] at hinside
  have hge : a.length ≤ c.length := by
    apply Classical.byContradiction
    intro hlt
    refine h.latest a.length (by omega) (by rw [List.length_append,List.length_append]; omega) ?_
    rw [List.append_assoc,List.drop_left,List.append_assoc]
    exact List.prefix_append _ _
  have hle : c.length ≤ a.length := by
    apply Classical.byContradiction
    intro hlt
    refine hnone ⟨c.length - (a.length + 1),?_,?_⟩
    · rw [List.length_append,List.length_tail]
      omega
    · rw [← drop_behind hf a g x,Nat.add_sub_cancel' (by omega),hsplit,List.drop_left]
      exact List.prefix_append _ _
  rw [List.append_assoc,List.append_assoc] at hsplit
  obtain ⟨hca,hrest⟩ := List.append_inj hsplit (Nat.le_antisymm hge hle)
  exact ⟨hca.symm,(List.append_cancel_left hrest).symm⟩

/-- The last match cuts off a piece if it ends in `v`. -/
theorem Last.cut (hf : f ≠ []) (h : Last f v x a y) (hends : a.length + f.length ≤ v.length) :
    ∃ g, v = a ++ (f ++ g) ∧ y = g ++ x ∧ ¬ BeginsIn f (f.tail ++ g) x := by
  have hsplit : v ++ x = a ++ f ++ y := h.split.trans (List.append_assoc _ _ _).symm
  obtain ⟨g,rfl⟩ : a ++ f <+: v := by
    refine List.prefix_of_prefix_length_le ⟨y,hsplit.symm⟩ (List.prefix_append v x) ?_
    rw [List.length_append]
    exact hends
  rw [List.append_assoc,List.append_cancel_left_eq] at hsplit
  refine ⟨g,List.append_assoc _ _ _,hsplit.symm,?_⟩
  rintro ⟨i,hi,hmatch⟩
  have hpos := List.length_pos_iff.mpr hf
  rw [List.length_append,List.length_tail] at hi
  refine h.latest (a.length + 1 + i) (by omega) ?_ ?_
  · rw [List.length_append,List.length_append]
    omega
  · rw [List.append_assoc a f g,drop_behind hf]
    exact hmatch

end Latest

private theorem prefix_of_append_eq {x y z : List α} (h : x ++ (r ++ y) = r ++ z) : r <+: x ++ r := by
  have hleft : r <+: (x ++ r) ++ y := ⟨z,by rw [List.append_assoc]; exact h.symm⟩
  refine List.prefix_of_prefix_length_le hleft (List.prefix_append _ _) ?_
  rw [List.length_append]
  omega

/-- Two lists that go on as they began, in steps of the same `x`. -/
theorem prefix_of_periodic {x a b : List α} (hx : x ≠ []) (ha : a <+: x ++ a) (hb : b <+: x ++ b)
    (hle : a.length ≤ b.length) : a <+: b := by
  induction hn : a.length using Nat.strongRecOn generalizing a b with
  | ind n ih =>
    have hxa : x <+: x ++ a := List.prefix_append x a
    have hxb : x <+: x ++ b := List.prefix_append x b
    have hpos := List.length_pos_iff.mpr hx
    by_cases hshort : a.length ≤ x.length
    · have hax := List.prefix_of_prefix_length_le ha hxa hshort
      by_cases hbx : b.length ≤ x.length
      · exact List.prefix_of_prefix_length_le hax (List.prefix_of_prefix_length_le hb hxb hbx) hle
      · exact hax.trans (List.prefix_of_prefix_length_le hxb hb (by omega))
    · obtain ⟨a',rfl⟩ := List.prefix_of_prefix_length_le hxa ha (by omega)
      obtain ⟨b',rfl⟩ := List.prefix_of_prefix_length_le hxb hb (by omega)
      rw [List.prefix_append_right_inj] at ha hb ⊢
      rw [List.length_append] at hn
      rw [List.length_append,List.length_append] at hle
      exact ih a'.length (by omega) ha hb (by omega) rfl

variable [DecidableEq α]

/-- If the search from right to left leaves the same list behind, it has come upon the same pieces. -/
theorem Apart.eq_pieces (hf : f ≠ []) (hlt : f.length < r.length) (hne : hs ≠ []) (h : Apart f r [] [] hs)
    (hsame : r.intercalate hs = substitute f r (f.intercalate hs)) : hs = pieces f 0 (f.intercalate hs) := by
  induction hs with
  | nil => exact absurd rfl hne
  | cons g hs ih =>
    cases hs with
    | nil =>
      rw [List.intercalate_singleton]
      exact (pieces_none (infix_of_not_beginsIn hf h)).symm
    | cons g' hs =>
      rw [intercalate_cons (List.cons_ne_nil g' hs)] at hsame ⊢
      rw [intercalate_cons (List.cons_ne_nil g' hs)] at hsame
      rcases none_or_first f (g ++ (f ++ f.intercalate (g' :: hs))) with hnone | ⟨a,c,hfirst⟩
      · exact absurd ⟨g,_,by rw [List.append_assoc]⟩ hnone
      rw [substitute_first hf hfirst] at hsame
      rw [pieces_first hf hfirst]
      have hsplit := hfirst.split
      have hearly : a.length ≤ g.length := by
        apply Classical.byContradiction
        intro hlate
        refine hfirst.earliest g.length (by omega) ?_
        rw [List.drop_left]
        exact List.prefix_append _ _
      obtain ⟨x,rfl⟩ := List.prefix_of_prefix_length_le ⟨_,hsplit.symm⟩ (List.prefix_append g _) hearly
      rw [List.append_assoc,List.append_cancel_left_eq] at hsplit hsame
      by_cases hx : x = []
      · subst hx
        rw [List.nil_append,List.append_cancel_left_eq] at hsplit hsame
        rw [List.append_nil,← hsplit,← ih (List.cons_ne_nil g' hs) h.2.without_lead (hsplit ▸ hsame)]
      · -- a match that begins earlier than the piece ends would have gone on into the replacement
        have hfr := prefix_of_periodic hx (prefix_of_append_eq hsplit) (prefix_of_append_eq hsame) (Nat.le_of_lt hlt)
        refine absurd ⟨a.length,?_,?_⟩ h.1
        · have := List.length_pos_iff.mpr hx
          rw [List.nil_append,List.length_append]
          omega
        · rw [List.nil_append,List.append_assoc,List.drop_left]
          exact (prefix_of_append_eq hsplit).trans ((List.prefix_append_right_inj x).mpr hfr)

end Backwards

end ArduinoAT90USB.Foundation.Substitution
