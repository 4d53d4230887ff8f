import Mathlib.Logic.Relation
import ArduinoAT90USB.Foundation.Memory

/-! A cursor that is moved from record to record until it is at the end, and searches that look at
the record behind every move. -/
namespace ArduinoAT90USB.Foundation.Cursor
open Memory

inductive Verdict
  | found
  | fail
  | notFound
  deriving DecidableEq

section Walk
variable {σ : Type} (atEnd : σ → Bool) (next : σ → Checked σ)

/-- From `p` the cursor comes to these places, one after the other; at the last one it is at the end. -/
inductive Visits : σ → List σ → Prop
  | done {p : σ} (h : atEnd p = true) : Visits p []
  | move {p q : σ} {qs : List σ} (h : atEnd p = false) (hnext : next p = .ok q) (rest : Visits q qs) : Visits p (q :: qs)

/-- The cursor is moved from `p` to `q`. -/
def Move (p q : σ) : Prop := atEnd p = false ∧ next p = .ok q

variable {atEnd next}

/-- A walk on which every move makes a number smaller comes to the end. -/
theorem visits_of_falls {p : σ} (worth : σ → Nat)
    (hfalls : ∀ q, Relation.ReflTransGen (Move atEnd next) p q → atEnd q = false → ∃ r, next q = .ok r ∧ worth r < worth q) :
    ∃ qs, Visits atEnd next p qs ∧ qs.length ≤ worth p := by
  induction hworth : worth p using Nat.strongRecOn generalizing p with
  | _ n ih =>
    cases hend : atEnd p with
    | true => exact ⟨[],.done hend,Nat.zero_le _⟩
    | false =>
      obtain ⟨q,hnext,hless⟩ := hfalls p .refl hend
      obtain ⟨qs,hrest,hlength⟩ := ih (worth q) (hworth ▸ hless) (fun r hr => hfalls r (hr.head ⟨hend,hnext⟩)) rfl
      refine ⟨q :: qs,.move hend hnext hrest,?_⟩
      rw [List.length_cons]
      omega

end Walk

section Scan
variable {σ : Type} (judge : σ → Verdict)

/-- Where a search ends that begins at `p`, with the places behind: at the first place with a
verdict, or in front of it if the verdict is `fail`. -/
def scan (p : σ) : List σ → Verdict × σ × List σ
  | [] => (.notFound,p,[])
  | q :: qs =>
    match judge q with
    | .found => (.found,q,qs)
    | .fail => (.fail,p,q :: qs)
    | .notFound => scan q qs

variable {judge} {p q : σ} {qs : List σ}

theorem scan_found (h : judge q = .found) : scan judge p (q :: qs) = (.found,q,qs) := by rw [scan,h]

theorem scan_fail (h : judge q = .fail) : scan judge p (q :: qs) = (.fail,p,q :: qs) := by rw [scan,h]

theorem scan_notFound (h : judge q = .notFound) : scan judge p (q :: qs) = scan judge q qs := by rw [scan,h]

theorem scan_mem (judge : σ → Verdict) (p : σ) (qs : List σ) : (scan judge p qs).2.1 ∈ p :: qs := by
  induction qs generalizing p with
  | nil => exact List.mem_cons_self
  | cons q qs ih =>
    cases hq : judge q with
    | found =>
      rw [scan_found hq]
      exact List.mem_cons_of_mem p List.mem_cons_self
    | fail =>
      rw [scan_fail hq]
      exact List.mem_cons_self
    | notFound =>
      rw [scan_notFound hq]
      exact List.mem_cons_of_mem p (ih q)

/-- The places that were passed by, and what ended the search. -/
inductive Scanned (judge : σ → Verdict) (qs : List σ) : Verdict × σ × List σ → Prop
  | found {passed rest : List σ} {q : σ} (hqs : qs = passed ++ q :: rest) (hpassed : ∀ x ∈ passed, judge x = .notFound)
      (hq : judge q = .found) : Scanned judge qs (.found,q,rest)
  | fail {passed rest : List σ} {p q : σ} (hqs : qs = passed ++ q :: rest) (hpassed : ∀ x ∈ passed, judge x = .notFound)
      (hq : judge q = .fail) : Scanned judge qs (.fail,p,q :: rest)
  | notFound {p : σ} (hpassed : ∀ x ∈ qs, judge x = .notFound) : Scanned judge qs (.notFound,p,[])

theorem scan_scanned (judge : σ → Verdict) (p : σ) (qs : List σ) : Scanned judge qs (scan judge p qs) := by
  induction qs generalizing p with
  | nil => exact .notFound fun x hx => absurd hx List.not_mem_nil
  | cons q qs ih =>
    cases hq : judge q with
    | found =>
      rw [scan_found hq]
      exact .found (List.nil_append _).symm (fun x hx => absurd hx List.not_mem_nil) hq
    | fail =>
      rw [scan_fail hq]
      exact .fail (List.nil_append _).symm (fun x hx => absurd hx List.not_mem_nil) hq
    | notFound =>
      rw [scan_notFound hq]
      generalize hscan : scan judge q qs = r
      cases hscan ▸ ih q with
      | found hqs hpassed hfound =>
        exact .found (by rw [hqs,List.cons_append]) (List.forall_mem_cons.mpr ⟨hq,hpassed⟩) hfound
      | fail hqs hpassed hfail =>
        exact .fail (by rw [hqs,List.cons_append]) (List.forall_mem_cons.mpr ⟨hq,hpassed⟩) hfail
      | notFound hpassed => exact .notFound (List.forall_mem_cons.mpr ⟨hq,hpassed⟩)

variable {atEnd : σ → Bool} {next : σ → Checked σ}

/-- The walk goes on from where the search has ended. -/
theorem Visits.scan (h : Visits atEnd next p qs) (judge : σ → Verdict) :
    Visits atEnd next (scan judge p qs).2.1 (scan judge p qs).2.2 := by
  induction h with
  | done h => exact .done h
  | move h hnext rest ih =>
    rename_i p q qs
    cases hq : judge q with
    | found =>
      rw [scan_found hq]
      exact rest
    | fail =>
      rw [scan_fail hq]
      exact .move h hnext rest
    | notFound =>
      rw [scan_notFound hq]
      exact ih

end Scan

/-- Two ways to cut a list at an element. -/
theorem cut_cases {α : Type} {passed passed' rest rest' : List α} {x y : α} (h : passed ++ x :: rest = passed' ++ y :: rest') :
    y ∈ passed ∨ x ∈ passed' ∨ (y = x ∧ rest' = rest) := by
  induction passed generalizing passed' with
  | nil =>
    cases passed' with
    | nil =>
      obtain ⟨rfl,rfl⟩ := List.cons.inj h
      exact .inr (.inr ⟨rfl,rfl⟩)
    | cons a more =>
      rw [(List.cons.inj h).1]
      exact .inr (.inl List.mem_cons_self)
  | cons a passed ih =>
    cases passed' with
    | nil =>
      rw [← (List.cons.inj h).1]
      exact .inl List.mem_cons_self
    | cons a' more => exact (ih (List.cons.inj h).2).imp (List.mem_cons_of_mem a) (Or.imp_left (List.mem_cons_of_mem a'))

/-- What does not see an element that is passed by does not see any number of them. -/
theorem skip {α β : Type} {f : List α → β} {P : α → Prop} (hstep : ∀ a rest, P a → f (a :: rest) = f rest) {passed : List α}
    (hpassed : ∀ a ∈ passed, P a) (rest : List α) : f (passed ++ rest) = f rest := by
  induction passed with
  | nil => rfl
  | cons a passed ih =>
    obtain ⟨ha,hmore⟩ := List.forall_mem_cons.mp hpassed
    exact (hstep a (passed ++ rest) ha).trans (ih hmore)

end ArduinoAT90USB.Foundation.Cursor
