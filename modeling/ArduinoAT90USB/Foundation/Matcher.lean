import ArduinoAT90USB.Foundation.Substitution

/-! A matcher that keeps only how many characters of its pattern it has seen. At a mismatch it
starts over, with the character that did not match or with the next one, and it may start
over in the middle of a match. -/
namespace ArduinoAT90USB.Foundation.Matcher
open Substitution
variable {α : Type} [DecidableEq α] {retry : Bool} {p : List α} {k : Nat}

/-- How many characters are matched after one more. With `retry` a character that does not go on
with the match can begin another. -/
def advance (retry : Bool) (p : List α) (k : Nat) (c : α) : Nat :=
  if p[k]? = some c then k + 1 else if retry ∧ p[0]? = some c then 1 else 0

def matched (retry : Bool) (p v : List α) : Nat := v.foldl (advance retry p) 0

/-- What is left unread when all of the pattern has been matched. -/
def scan (retry : Bool) (p : List α) : Nat → List α → Option (List α)
  | _, [] => none
  | k, c :: v => if advance retry p k c ≥ p.length then some v else scan retry p (advance retry p k c) v

section Steps
variable {c : α} {v w r : List α}

theorem advance_match (h : p[k]? = some c) : advance retry p k c = k + 1 := if_pos h

theorem advance_again (h : p[k]? ≠ some c) (hretry : retry = true) (hfirst : p[0]? = some c) :
    advance retry p k c = 1 := by
  rw [advance, if_neg h, if_pos ⟨hretry,hfirst⟩]

theorem advance_mismatch (retry : Bool) (h : p[k]? ≠ some c) : advance retry p k c ≤ 1 := by
  rw [advance, if_neg h]
  split_ifs <;> omega

theorem advance_le (retry : Bool) (p : List α) (k : Nat) (c : α) : advance retry p k c ≤ k + 1 := by
  by_cases h : p[k]? = some c
  · rw [advance_match h]
  · have := advance_mismatch retry h
    omega

omit [DecidableEq α] in
private theorem take_next (h : p[k]? = some c) : p.take (k+1) = p.take k ++ [c] := by
  rw [List.take_add_one, h]
  rfl

/-- What has been matched is what was read last. -/
theorem advance_suffix (retry : Bool) (h : p.take k <:+ v) (c : α) : p.take (advance retry p k c) <:+ v ++ [c] := by
  unfold advance
  split_ifs with hnext hfirst
  · rw [take_next hnext]
    obtain ⟨x,rfl⟩ := h
    exact ⟨x,(List.append_assoc _ _ _).symm⟩
  · rw [take_next hfirst.2, List.take_zero]
    exact List.suffix_append v [c]
  · rw [List.take_zero]
    exact List.nil_suffix

private theorem foldl_suffix (retry : Bool) (h : p.take k <:+ v) (w : List α) :
    p.take (w.foldl (advance retry p) k) <:+ v ++ w := by
  induction w generalizing k v with
  | nil => rwa [List.append_nil]
  | cons c w ih =>
    have hrest := ih (advance_suffix retry h c)
    rwa [List.append_assoc] at hrest

theorem matched_suffix (retry : Bool) (p v : List α) : p.take (matched retry p v) <:+ v := by
  have hstart : p.take 0 <:+ ([] : List α) := List.nil_suffix
  have h := foldl_suffix retry hstart v
  rwa [List.nil_append] at h

/-- A pattern that is reported has just been read. -/
theorem scan_sound (h : p.take k <:+ v) (hscan : scan retry p k w = some r) : ∃ x, w = x ++ r ∧ p <:+ v ++ x := by
  induction w generalizing k v with
  | nil => cases hscan
  | cons c w ih =>
    have hnext := advance_suffix retry h c
    rw [scan] at hscan
    split_ifs at hscan with hall
    · obtain rfl : w = r := Option.some.inj hscan
      rw [List.take_of_length_le hall] at hnext
      exact ⟨[c],rfl,hnext⟩
    · obtain ⟨x,rfl,hx⟩ := ih hnext hscan
      rw [List.append_assoc] at hx
      exact ⟨c :: x,rfl,hx⟩

theorem scan_occurs (hscan : scan retry p 0 w = some r) : p <:+: w := by
  have hstart : p.take 0 <:+ ([] : List α) := List.nil_suffix
  obtain ⟨x,rfl,hx⟩ := scan_sound hstart hscan
  exact hx.isInfix.trans (List.prefix_append x r).isInfix

theorem scan_length (hscan : scan retry p k w = some r) : p.length + r.length ≤ k + w.length := by
  induction w generalizing k with
  | nil => cases hscan
  | cons c w ih =>
    have hle := advance_le retry p k c
    rw [scan] at hscan
    rw [List.length_cons]
    split_ifs at hscan with hall
    · obtain rfl : w = r := Option.some.inj hscan
      omega
    · have := ih hscan
      omega

theorem scan_append_none (h : scan retry p k v = none) (w : List α) :
    scan retry p k (v ++ w) = scan retry p (v.foldl (advance retry p) k) w := by
  induction v generalizing k with
  | nil => rfl
  | cons c v ih =>
    rw [scan] at h
    rw [List.cons_append, scan]
    split_ifs at h ⊢
    exact ih h

theorem scan_none_lt (h : scan retry p k v = none) (hk : k < p.length) : v.foldl (advance retry p) k < p.length := by
  induction v generalizing k with
  | nil => exact hk
  | cons c v ih =>
    rw [scan] at h
    split_ifs at h with hall
    exact ih h (Nat.lt_of_not_le hall)

end Steps

section Phase
variable {i : Nat} {u a : List α}

omit [DecidableEq α] in
private theorem drop_next (hi : i < p.length) : ∃ c, p[i]? = some c ∧ p.drop i = c :: p.drop (i+1) :=
  ⟨p[i],List.getElem?_eq_getElem hi,List.drop_eq_getElem_cons hi⟩

/-- A match that has begun where the pattern begins is completed. -/
theorem scan_phase (hi : i < p.length) (c : List α) : scan retry p i (p.drop i ++ c) = some c := by
  induction hn : p.length - i generalizing i with
  | zero => omega
  | succ n ih =>
    obtain ⟨x,hx,hdrop⟩ := drop_next hi
    rw [hdrop, List.cons_append, scan, advance_match hx]
    split_ifs with hall
    · rw [List.drop_eq_nil_of_le hall, List.nil_append]
    · exact ih (Nat.lt_of_not_le hall) (by omega)

/-- A match that runs ahead of the pattern misses it: it breaks off too late to begin again. -/
private theorem scan_ahead (hi : 1 ≤ i) (hik : i < k) (hk : k < p.length) (c : List α) :
    scan retry p k (p.drop i ++ c) ≠ some c := by
  induction hn : p.length - i generalizing i k with
  | zero => omega
  | succ n ih =>
    obtain ⟨x,hx,hdrop⟩ := drop_next (Nat.lt_trans hik hk)
    rw [hdrop, List.cons_append, scan]
    intro hscan
    by_cases hmatch : p[k]? = some x
    · rw [advance_match hmatch] at hscan
      split_ifs at hscan with hall
      · have hlength := congrArg List.length (Option.some.inj hscan)
        rw [List.length_append, List.length_drop] at hlength
        omega
      · exact ih (by omega) (by omega) (Nat.lt_of_not_le hall) (by omega) hscan
    · -- At most one character is matched now, and fewer are left than are missing.
      have hrestart := advance_mismatch retry hmatch
      rw [if_neg (by omega)] at hscan
      have hlength := scan_length hscan
      rw [List.length_append, List.length_drop] at hlength
      omega

/-- The pattern that is read now will be recognised: nothing has been matched, or the match so far
breaks off at the pattern's first character, which begins another. -/
def InPhase (retry : Bool) (p : List α) (k : Nat) : Prop := k = 0 ∨ (retry = true ∧ p[k]? ≠ p[0]?)

instance (retry : Bool) (p : List α) (k : Nat) : Decidable (InPhase retry p k) :=
  inferInstanceAs (Decidable (_ ∨ _))

theorem scan_pattern_iff (hk : k < p.length) (c : List α) : scan retry p k (p ++ c) = some c ↔ InPhase retry p k := by
  obtain ⟨x,hx,hdrop⟩ := drop_next (i := 0) (Nat.zero_lt_of_lt hk)
  rw [List.drop_zero] at hdrop
  by_cases hzero : k = 0
  · subst hzero
    exact iff_of_true (scan_phase hk c) (.inl rfl)
  · rw [hdrop, List.cons_append, scan, ← hdrop]
    by_cases hmatch : p[k]? = some x
    · refine iff_of_false ?_ ?_
      · rw [advance_match hmatch]
        intro hscan
        split_ifs at hscan with hall
        · have hlength := congrArg List.length (Option.some.inj hscan)
          rw [List.length_append, List.length_drop] at hlength
          omega
        · exact scan_ahead (Nat.le_refl 1) (by omega) (Nat.lt_of_not_le hall) c hscan
      · rintro (h | ⟨_,h⟩)
        · exact hzero h
        · exact h (hmatch.trans hx.symm)
    · cases hretry : retry with
      | true =>
        refine iff_of_true ?_ (.inr ⟨rfl,fun h => hmatch (h.trans hx)⟩)
        rw [advance_again hmatch rfl hx, if_neg (by omega)]
        exact scan_phase (by omega) c
      | false =>
        -- The first character of the pattern is lost.
        refine iff_of_false ?_ ?_
        · have hnone : advance false p k x = 0 := by
            rw [advance, if_neg hmatch, if_neg fun h => Bool.false_ne_true h.1]
          rw [hnone, if_neg (by omega)]
          intro hscan
          have hlength := scan_length hscan
          rw [List.length_append, List.length_drop] at hlength
          omega
        · rintro (h | ⟨h,_⟩)
          · exact hzero h
          · cases h

/-- Nothing is reported before the first occurrence of the pattern has been read. -/
theorem scan_rest_le {c v r : List α} (h : First p u a c) (hv : v <+: u) (hscan : scan retry p 0 v = some r) :
    a.length + p.length + r.length ≤ v.length := by
  have hstart : p.take 0 <:+ ([] : List α) := List.nil_suffix
  obtain ⟨x,rfl,y,hy⟩ := scan_sound hstart hscan
  rw [List.nil_append] at hy
  subst hy
  rw [List.length_append, List.length_append]
  by_contra hearly
  refine h.earliest y.length (by omega) ?_
  obtain ⟨z,rfl⟩ := hv
  rw [List.append_assoc, List.append_assoc, List.drop_left]
  exact List.prefix_append p _

theorem scan_before (hp : p ≠ []) {c : List α} (h : First p u a c) : scan retry p 0 a = none := by
  cases hscan : scan retry p 0 a with
  | none => rfl
  | some r =>
    have hle := scan_rest_le h (h.split ▸ List.prefix_append a _) hscan
    have hpos := List.length_pos_iff.mpr hp
    omega

theorem matched_lt (hp : p ≠ []) {c : List α} (h : First p u a c) : matched retry p a < p.length :=
  scan_none_lt (scan_before hp h) (List.length_pos_iff.mpr hp)

/-- The first occurrence of the pattern is reported if and only if the matcher is in phase where
it begins. -/
theorem scan_first_iff (hp : p ≠ []) {c : List α} (h : First p u a c) :
    scan retry p 0 u = some c ↔ InPhase retry p (matched retry p a) := by
  have hsplit : scan retry p 0 u = scan retry p (matched retry p a) (p ++ c) := by
    rw [h.split]
    exact scan_append_none (scan_before hp h) (p ++ c)
  rw [hsplit]
  exact scan_pattern_iff (matched_lt hp h) c

/-- Beginnings of the pattern, the empty one included, each with a character that does not continue it. -/
inductive BrokenOff (p : List α) : List α → Prop
  | nil : BrokenOff p []
  | piece {k : Nat} {x : α} {v : List α} (hk : k < p.length) (hx : p[k]? ≠ some x) (hv : BrokenOff p v) :
      BrokenOff p (p.take k ++ x :: v)

/-- Characters that do not begin the pattern, and beginnings of it that are not continued by what follows, which in
the end is the pattern itself. -/
inductive Restarted (p : List α) : List α → Prop
  | nil : Restarted p []
  | other {x : α} {v : List α} (hx : p[0]? ≠ some x) (hv : Restarted p v) : Restarted p (x :: v)
  | piece {k : Nat} {v : List α} (hpos : 0 < k) (hk : k < p.length) (hnext : (v ++ p)[0]? ≠ p[k]?) (hv : Restarted p v) :
      Restarted p (p.take k ++ v)

theorem foldl_take (retry : Bool) (hk : k ≤ p.length) : (p.take k).foldl (advance retry p) 0 = k := by
  induction k with
  | zero => rfl
  | succ k ih =>
    obtain ⟨x,hx,_⟩ := drop_next (show k < p.length from hk)
    rw [take_next hx, List.foldl_append, ih (Nat.le_of_succ_le hk)]
    exact advance_match hx

theorem advance_lost {x : α} (h : p[k]? ≠ some x) : advance false p k x = 0 := by
  rw [advance, if_neg h, if_neg fun hretry => Bool.false_ne_true hretry.1]

/-- Where a match breaks off it is as if none had been begun. -/
theorem advance_restart {x : α} (h : p[k]? ≠ some x) : advance true p k x = advance true p 0 x := by
  rw [advance, if_neg h, advance]
  by_cases hfirst : p[0]? = some x
  · rw [if_pos ⟨rfl,hfirst⟩, if_pos hfirst]
  · rw [if_neg fun hboth => hfirst hboth.2, if_neg hfirst]

theorem BrokenOff.matched {v : List α} (h : BrokenOff p v) : matched false p v = 0 := by
  induction h with
  | nil => rfl
  | piece hk hx _ ih =>
    rw [Matcher.matched, List.foldl_append, foldl_take false (Nat.le_of_lt hk), List.foldl_cons, advance_lost hx]
    exact ih

theorem Restarted.inPhase {v : List α} (h : Restarted p v) : InPhase true p (Matcher.matched true p v) := by
  induction h with
  | nil => exact .inl rfl
  | @other x v hx _ ih =>
    have hnone : advance true p 0 x = 0 := by
      rw [advance, if_neg hx, if_neg fun hboth => hx hboth.2]
    rw [Matcher.matched, List.foldl_cons, hnone]
    exact ih
  | @piece k v hpos hk hnext _ ih =>
    rw [Matcher.matched, List.foldl_append, foldl_take true (Nat.le_of_lt hk)]
    cases v with
    | nil => exact .inr ⟨rfl,Ne.symm hnext⟩
    | cons x v =>
      rw [List.foldl_cons, advance_restart (Ne.symm hnext)]
      exact ih

theorem brokenOff_of_matched {v : List α} (hk : k < p.length) (hnone : scan false p k v = none)
    (h : v.foldl (advance false p) k = 0) : BrokenOff p (p.take k ++ v) := by
  induction v generalizing k with
  | nil =>
    obtain rfl : k = 0 := h
    exact .nil
  | cons x v ih =>
    rw [scan] at hnone
    split_ifs at hnone with hall
    rw [List.foldl_cons] at h
    have hrest := ih (Nat.lt_of_not_le hall) hnone h
    by_cases hx : p[k]? = some x
    · rwa [advance_match hx, take_next hx, List.append_assoc] at hrest
    · rw [advance_lost hx, List.take_zero] at hrest
      exact .piece hk hx hrest

theorem restarted_of_inPhase {v : List α} (hk : k < p.length) (hnone : scan true p k v = none)
    (h : InPhase true p (v.foldl (advance true p) k)) : Restarted p (p.take k ++ v) := by
  induction v generalizing k with
  | nil =>
    rcases h with hzero | ⟨-,hne⟩
    · obtain rfl : k = 0 := hzero
      exact .nil
    · refine .piece (Nat.pos_of_ne_zero ?_) hk (Ne.symm hne) .nil
      rintro rfl
      exact hne rfl
  | cons x v ih =>
    rw [scan] at hnone
    split_ifs at hnone with hall
    rw [List.foldl_cons] at h
    have hrest := ih (Nat.lt_of_not_le hall) hnone h
    by_cases hx : p[k]? = some x
    · rwa [advance_match hx, take_next hx, List.append_assoc] at hrest
    · -- the character begins another match, or none
      have hcut : Restarted p (x :: v) := by
        rw [advance_restart hx] at hrest
        by_cases hfirst : p[0]? = some x
        · rwa [advance_match hfirst, take_next hfirst, List.take_zero] at hrest
        · rw [advance, if_neg hfirst, if_neg fun hboth => hfirst hboth.2] at hrest
          exact .other hfirst hrest
      by_cases hzero : k = 0
      · subst hzero
        exact hcut
      · exact .piece (Nat.pos_of_ne_zero hzero) hk (Ne.symm hx) hcut

/-- What comes before the first occurrence leaves nothing matched if it is cut up in this way, and not otherwise. -/
theorem brokenOff_iff (hp : p ≠ []) {c : List α} (h : First p u a c) : BrokenOff p a ↔ matched false p a = 0 := by
  refine ⟨BrokenOff.matched,fun hzero => ?_⟩
  have hcut := brokenOff_of_matched (List.length_pos_iff.mpr hp) (scan_before hp h) hzero
  rwa [List.take_zero] at hcut

theorem restarted_iff (hp : p ≠ []) {c : List α} (h : First p u a c) : Restarted p a ↔ InPhase true p (matched true p a) := by
  refine ⟨Restarted.inPhase,fun hphase => ?_⟩
  have hcut := restarted_of_inPhase (List.length_pos_iff.mpr hp) (scan_before hp h) hphase
  rwa [List.take_zero] at hcut

/-- A scan that takes the end of the list for the pattern: it stops where the first occurrence
ends if this is also the end of the list, or if the matcher is in phase. -/
theorem scan_getD_iff (hp : p ≠ []) {c : List α} (h : First p u a c) :
    (scan retry p 0 u).getD [] = c ↔ (c ≠ [] → InPhase retry p (matched retry p a)) := by
  rw [← scan_first_iff hp h]
  cases hscan : scan retry p 0 u with
  | none =>
    rw [Option.getD_none]
    constructor
    · rintro rfl hmore
      exact absurd rfl hmore
    · intro hin
      by_contra hmore
      exact absurd (hin (Ne.symm hmore)) (by simp)
  | some r =>
    rw [Option.getD_some, Option.some_inj]
    refine ⟨fun hr _ => hr,fun hin => ?_⟩
    by_cases hmore : c = []
    · have hle := scan_rest_le h List.prefix_rfl hscan
      have hlength := h.length
      rw [hmore, List.length_nil] at hlength
      rw [hmore]
      exact List.length_eq_zero_iff.mp (by omega)
    · exact hin hmore

/-- The pattern can follow a part of itself, of length `k`, that the matcher does not let go of:
no occurrence begins earlier in the two. -/
structure Overlaps (retry : Bool) (p : List α) (k : Nat) : Prop where
  pos : k ≠ 0
  inside : k < p.length
  goesOn : retry = true → p[k]? = p[0]?
  apart : ∀ j < k, ¬ p <+: (p.take k ++ p).drop j

omit [DecidableEq α] in
private theorem prefix_drop_append {j : Nat} (hj : j + p.length ≤ u.length) (c : List α) :
    p <+: (u ++ c).drop j ↔ p <+: u.drop j := by
  rw [List.drop_append_of_le_length (by omega)]
  constructor
  · intro h
    exact List.prefix_of_prefix_length_le h (List.prefix_append _ c) (by rw [List.length_drop]; omega)
  · intro h
    exact h.trans (List.prefix_append _ c)

omit [DecidableEq α] in
theorem Overlaps.first (h : Overlaps retry p k) (c : List α) : First p (p.take k ++ (p ++ c)) (p.take k) c := by
  have hlength : (p.take k).length = k := List.length_take_of_le (Nat.le_of_lt h.inside)
  refine ⟨rfl,fun j hj => ?_⟩
  rw [hlength] at hj
  rw [← List.append_assoc, prefix_drop_append (by rw [List.length_append, hlength]; omega)]
  exact h.apart j hj

theorem Overlaps.missed (h : Overlaps retry p k) : ¬ InPhase retry p (matched retry p (p.take k)) := by
  rw [matched, foldl_take retry (Nat.le_of_lt h.inside)]
  rintro (hzero | ⟨hretry,hne⟩)
  · exact h.pos hzero
  · exact hne (h.goesOn hretry)

/-- Where the matcher is out of phase at a first occurrence, the pattern follows a part of itself. -/
theorem overlaps_of_missed (hp : p ≠ []) {c : List α} (h : First p u a c) (hout : ¬ InPhase retry p (matched retry p a)) :
    Overlaps retry p (matched retry p a) := by
  have hlt : matched retry p a < p.length := matched_lt hp h
  refine ⟨fun h0 => hout (.inl h0),hlt,?_,fun j hj hmatch => ?_⟩
  · intro hretry
    by_contra hne
    exact hout (.inr ⟨hretry,hne⟩)
  · obtain ⟨y,hy⟩ := matched_suffix retry p a
    have hlength : (p.take (matched retry p a)).length = matched retry p a := List.length_take_of_le (Nat.le_of_lt hlt)
    have hsum := congrArg List.length hy
    rw [List.length_append, hlength] at hsum
    refine h.earliest (y.length + j) (by omega) ?_
    have hu : u = y ++ (p.take (matched retry p a) ++ p ++ c) := by
      rw [← List.append_assoc, ← List.append_assoc, hy, List.append_assoc, ← h.split]
    rw [hu, ← List.drop_drop, List.drop_left, prefix_drop_append (by rw [List.length_append, hlength]; omega)]
    exact hmatch

/-- A pattern that does not overlap itself in this way is never missed, and any other one is. -/
theorem inPhase_always_iff (hp : p ≠ []) :
    (∀ u a c, First p u a c → InPhase retry p (matched retry p a)) ↔ ∀ k, ¬ Overlaps retry p k := by
  constructor
  · intro h k hk
    exact hk.missed (h _ _ _ (hk.first []))
  · intro h u a c hfirst
    by_contra hout
    exact h _ (overlaps_of_missed hp hfirst hout)

omit [DecidableEq α] in
private theorem constant_of_shift {x : α} (h : p <+: x :: p) : ∀ y ∈ p, y = x := by
  induction p generalizing x with
  | nil => exact fun y hy => absurd hy List.not_mem_nil
  | cons y p ih =>
    obtain ⟨rfl,hrest⟩ := List.cons_prefix_cons.mp h
    intro z hz
    rcases List.mem_cons.mp hz with rfl | hz
    · rfl
    · exact ih hrest z hz

omit [DecidableEq α] in
/-- Without `retry` only the patterns of one repeated character are never missed. -/
theorem overlaps_false_iff : (∀ k, ¬ Overlaps false p k) ↔ ∀ x ∈ p, ∀ y ∈ p, x = y := by
  cases p with
  | nil => exact iff_of_true (fun k h => absurd h.inside (Nat.not_lt_zero k)) (fun x hx => absurd hx List.not_mem_nil)
  | cons x p =>
    constructor
    · intro h
      have hhead : ∀ y ∈ p, y = x := by
        cases p with
        | nil => exact fun y hy => absurd hy List.not_mem_nil
        | cons z p =>
          by_contra hne
          refine h 1 ⟨Nat.one_ne_zero,by simp,fun h => absurd h (by decide),fun j hj hstands => hne ?_⟩
          obtain rfl : j = 0 := by omega
          exact constant_of_shift (List.cons_prefix_cons.mp hstands).2
      have hall : ∀ y ∈ x :: p, y = x := fun y hy => (List.mem_cons.mp hy).elim id (hhead y)
      exact fun y hy z hz => (hall y hy).trans (hall z hz).symm
    · intro h k hk
      have hreplicate : x :: p = List.replicate (x :: p).length x :=
        List.eq_replicate_of_mem fun y hy => h y hy x List.mem_cons_self
      refine hk.apart 0 (Nat.pos_of_ne_zero hk.pos) ?_
      rw [List.drop_zero, hreplicate, List.take_replicate, List.replicate_append_replicate, Nat.add_comm,
        ← List.replicate_append_replicate]
      exact List.prefix_append _ _

end Phase

end ArduinoAT90USB.Foundation.Matcher
