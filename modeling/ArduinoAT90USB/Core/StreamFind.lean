import ArduinoAT90USB.Core.Stream
import ArduinoAT90USB.Foundation.CString
import ArduinoAT90USB.Foundation.Matcher
import Mathlib.Data.List.TakeWhile

/-! `Stream::find` and `findUntil`: two matchers over the bytes read, which treat a mismatch
differently, in a loop that a zero byte ends too. -/
namespace ArduinoAT90USB.Core
open Foundation.Memory Foundation.CString Foundation.Substitution Foundation.Matcher

namespace Port
variable {σ : Type} (port : Port σ)

/-- What the loop body does with the target: `index`, or nothing if the target is complete. -/
def matchTarget (target : Block) (targetLen : Nat) (c : Int) (index : Nat) : Checked (Option Nat) := do
  let t ← load target index
  let index := if c ≠ t.toNat then 0 else index
  let t ← load target index
  if c = t.toNat then
    if index + 1 ≥ targetLen then pure none else pure (some (index + 1))
  else pure (some index)

/-- What it does with the terminator: `termIndex`, or nothing if the terminator is complete. -/
def matchTerminator (terminator : Option Block) (termLen : Nat) (c : Int) (termIndex : Nat) : Checked (Option Nat) :=
  if termLen > 0 then do
    let t ← load (← deref terminator) termIndex
    if c = t.toNat then
      if termIndex + 1 ≥ termLen then pure none else pure (some (termIndex + 1))
    else pure (some 0)
  else pure (some 0)

def findUntilLoop (target : Block) (targetLen : Nat) (terminator : Option Block) (termLen : Nat) (timeout : UInt32) :
    Nat → σ → Nat → Nat → Checked (Bool × σ)
  | 0, _, _, _ => .error .hang
  | fuel+1, s, index, termIndex =>
    match port.timedRead timeout fuel s with
    | none => .error .hang
    | some c =>
      if c.1 > 0 then do
        match ← matchTarget target targetLen c.1 index with
        | none => pure (true, c.2)
        | some index =>
          match ← matchTerminator terminator termLen c.1 termIndex with
          | none => pure (false, c.2)
          | some termIndex =>
            findUntilLoop target targetLen terminator termLen timeout fuel c.2 index termIndex
      else pure (false, c.2)

def findUntil (target : Block) (targetLen : Nat) (terminator : Option Block) (termLen : Nat) (timeout : UInt32)
    (fuel : Nat) (s : σ) : Checked (Bool × σ) := do
  let t ← load target 0
  if t = 0 then pure (true, s)
  else port.findUntilLoop target targetLen terminator termLen timeout fuel s 0 0

def find (target : Block) (length : Nat) : UInt32 → Nat → σ → Checked (Bool × σ) :=
  port.findUntil target length none 0

/-- `findUntil(target, terminator)`. -/
def findUntilCstr (target terminator : Block) (timeout : UInt32) (fuel : Nat) (s : σ) : Checked (Bool × σ) := do
  let targetLen ← strlen target
  let termLen ← strlen terminator
  port.findUntil target targetLen (some terminator) termLen timeout fuel s

end Port

namespace Find
variable {target term block : List UInt8} {index termIndex : Nat} {b : UInt8}

/-- The outcome of a search: whether the target was found, and what is left unread. -/
def searched (target term : List UInt8) : Nat → Nat → List UInt8 → Bool × List UInt8
  | _, _, [] => (false, [])
  | index, termIndex, b :: bytes =>
    if b = 0 then (false, bytes)
    else if advance true target index b ≥ target.length then (true, bytes)
    else if term ≠ [] ∧ advance false term termIndex b ≥ term.length then (false, bytes)
    else searched target term (advance true target index b) (advance false term termIndex b) bytes

private theorem load_within (h : target <+: block) (hindex : index < target.length) :
    ∃ t, target[index]? = some t ∧ load block index = .ok t := by
  obtain ⟨rest,rfl⟩ := h
  refine ⟨target[index],List.getElem?_eq_getElem hindex,?_⟩
  rw [load, List.getElem?_append_left hindex, List.getElem?_eq_getElem hindex]

private theorem same_iff (b t : UInt8) : (b.toNat : Int) = t.toNat ↔ t = b := by
  rw [Int.natCast_inj, UInt8.toNat_inj, eq_comm]

theorem matchTarget_advance (h : target <+: block) (hindex : index < target.length) (b : UInt8) :
    Port.matchTarget block target.length b.toNat index =
      .ok (if advance true target index b ≥ target.length then none else some (advance true target index b)) := by
  obtain ⟨t,ht,hload⟩ := load_within h hindex
  obtain ⟨t₀,ht₀,hload₀⟩ := load_within h (Nat.zero_lt_of_lt hindex)
  rw [Port.matchTarget, hload, ok_bind]
  dsimp only
  by_cases hb : t = b
  · subst hb
    rw [if_neg (not_not_intro rfl), hload, ok_bind, if_pos rfl, advance_match ht]
    split_ifs <;> rfl
  · have hmismatch : target[index]? ≠ some b := by
      rw [ht]
      exact fun h => hb (Option.some.inj h)
    rw [if_pos (mt (same_iff b t).mp hb), hload₀, ok_bind]
    by_cases hb₀ : t₀ = b
    · subst hb₀
      rw [if_pos rfl, advance_again hmismatch rfl ht₀]
      split_ifs <;> rfl
    · have hnone : advance true target index b = 0 := by
        rw [advance, if_neg hmismatch, if_neg]
        rw [ht₀]
        exact fun h => hb₀ (Option.some.inj h.2)
      rw [if_neg (mt (same_iff b t₀).mp hb₀), hnone, if_neg (by omega)]
      rfl

theorem matchTerminator_advance (h : term <+: block) (hindex : termIndex < term.length) (b : UInt8) :
    Port.matchTerminator (some block) term.length b.toNat termIndex =
      .ok (if advance false term termIndex b ≥ term.length then none else some (advance false term termIndex b)) := by
  obtain ⟨t,ht,hload⟩ := load_within h hindex
  rw [Port.matchTerminator, if_pos (Nat.zero_lt_of_lt hindex), deref, ok_bind, hload, ok_bind]
  by_cases hb : t = b
  · subst hb
    rw [if_pos rfl, advance_match ht]
    split_ifs <;> rfl
  · have hnone : advance false term termIndex b = 0 := by
      rw [advance, if_neg, if_neg fun h => Bool.false_ne_true h.1]
      rw [ht]
      exact fun h => hb (Option.some.inj h)
    rw [if_neg (mt (same_iff b t).mp hb), hnone, if_neg (by omega)]
    rfl

/-- The terminator is not looked for, or it stands at the start of its block. -/
def Given (terminator : Option Block) (term : List UInt8) : Prop :=
  term = [] ∨ ∃ block, terminator = some block ∧ term <+: block

private theorem matchTerminator_given {terminator : Option Block} (h : Given terminator term)
    (hindex : term ≠ [] → termIndex < term.length) (b : UInt8) :
    Port.matchTerminator terminator term.length b.toNat termIndex =
      .ok (if term ≠ [] ∧ advance false term termIndex b ≥ term.length then none
        else some (advance false term termIndex b)) := by
  by_cases hterm : term = []
  · subst hterm
    rw [if_neg fun h => h.1 rfl]
    rfl
  · obtain ⟨block,rfl,hblock⟩ := h.resolve_left hterm
    rw [matchTerminator_advance hblock (hindex hterm)]
    simp only [ne_eq, hterm, not_false_eq_true, true_and]

section Runs
variable {σ : Type} {port : Port σ} {timeout : UInt32} {unread : σ → List UInt8}

private theorem findUntilLoop_turn (htarget : target <+: block) {terminator : Option Block} (hterm : Given terminator term)
    (hindex : index < target.length) (htermIndex : term ≠ [] → termIndex < term.length) {s u : σ} {fuel : Nat}
    (hread : port.timedRead timeout fuel s = some ((b.toNat : Int), u)) :
    port.findUntilLoop block target.length terminator term.length timeout (fuel+1) s index termIndex =
      if b = 0 then .ok (false, u)
      else if advance true target index b ≥ target.length then .ok (true, u)
      else if term ≠ [] ∧ advance false term termIndex b ≥ term.length then .ok (false, u)
      else port.findUntilLoop block target.length terminator term.length timeout fuel u
        (advance true target index b) (advance false term termIndex b) := by
  rw [Port.findUntilLoop, hread]
  dsimp only
  by_cases hb : b = 0
  · subst hb
    rfl
  · have hpos : (b.toNat : Int) > 0 := Int.natCast_pos.mpr (Nat.pos_of_ne_zero fun h => hb (UInt8.toNat_inj.mp h))
    rw [if_pos hpos, if_neg hb, matchTarget_advance htarget hindex, ok_bind]
    split_ifs with hall hstop
    · rfl
    · dsimp only
      rw [matchTerminator_given hterm htermIndex, ok_bind, if_pos hstop]
      rfl
    · dsimp only
      rw [matchTerminator_given hterm htermIndex, ok_bind, if_neg hstop]

theorem findUntilLoop_searched (hf : port.Feeds timeout unread) (htarget : target <+: block) {terminator : Option Block}
    (hterm : Given terminator term) (bytes : List UInt8) (hindex : index < target.length)
    (htermIndex : term ≠ [] → termIndex < term.length) {s : σ} (hs : unread s = bytes) :
    ∃ fuel u, (∀ more ≥ fuel, port.findUntilLoop block target.length terminator term.length timeout more s index
      termIndex = .ok ((searched target term index termIndex bytes).1, u)) ∧
      unread u = (searched target term index termIndex bytes).2 := by
  induction bytes generalizing index termIndex s with
  | nil =>
    obtain ⟨fuel,u,hread,hu⟩ := hf.silence s hs
    refine ⟨fuel+1,u,enough_fuel fun more hle => ?_,hu⟩
    rw [Port.findUntilLoop, Port.timedRead_mono hread hle]
    rfl
  | cons b bytes ih =>
    obtain ⟨fuel,u,hread,hu⟩ := hf.next s b bytes hs
    have hturn (more : Nat) (hle : more ≥ fuel) :=
      findUntilLoop_turn htarget hterm hindex htermIndex (Port.timedRead_mono hread hle)
    rw [searched]
    split_ifs with hzero hall hstop
    · exact ⟨fuel+1,u,enough_fuel fun more hle => (hturn more hle).trans (if_pos hzero),hu⟩
    · refine ⟨fuel+1,u,enough_fuel fun more hle => (hturn more hle).trans ?_,hu⟩
      rw [if_neg hzero, if_pos hall]
    · refine ⟨fuel+1,u,enough_fuel fun more hle => (hturn more hle).trans ?_,hu⟩
      rw [if_neg hzero, if_neg hall, if_pos hstop]
    · have hgoesOn : term ≠ [] → advance false term termIndex b < term.length :=
        fun hne => Nat.lt_of_not_le fun hle => hstop ⟨hne,hle⟩
      obtain ⟨fuel',v,hloop,hv⟩ := ih (Nat.lt_of_not_le hall) hgoesOn hu
      refine ⟨max fuel fuel' + 1,v,enough_fuel fun more hle => (hturn more (by omega)).trans ?_,hv⟩
      rw [if_neg hzero, if_neg hall, if_neg hstop]
      exact hloop more (by omega)

end Runs

/-- The bytes with which the loop goes on: a zero byte ends it as the timeout does. -/
def goesOn (b : UInt8) : Bool := b ≠ 0

/-- Without a terminator the search is a scan of the bytes before the first zero byte. -/
theorem searched_found {bytes r : List UInt8} (hscan : scan true target index (bytes.takeWhile goesOn) = some r) :
    searched target [] index termIndex bytes = (true, r ++ bytes.dropWhile goesOn) := by
  induction bytes generalizing index termIndex with
  | nil => cases hscan
  | cons b bytes ih =>
    by_cases hb : b = 0
    · subst hb
      cases hscan
    · have hkeep : goesOn b = true := decide_eq_true hb
      rw [List.takeWhile_cons_of_pos hkeep, scan] at hscan
      rw [searched, if_neg hb, List.dropWhile_cons_of_pos hkeep]
      split_ifs at hscan ⊢ with hall hstop
      · rw [← Option.some.inj hscan, List.takeWhile_append_dropWhile]
      · exact absurd rfl hstop.1
      · exact ih hscan

theorem searched_absent {bytes : List UInt8} (hscan : scan true target index (bytes.takeWhile goesOn) = none) :
    (searched target [] index termIndex bytes).1 = false := by
  induction bytes generalizing index termIndex with
  | nil => rfl
  | cons b bytes ih =>
    rw [searched]
    by_cases hb : b = 0
    · rw [if_pos hb]
    · have hkeep : goesOn b = true := decide_eq_true hb
      rw [List.takeWhile_cons_of_pos hkeep, scan] at hscan
      rw [if_neg hb]
      split_ifs at hscan ⊢ with hall hstop
      · rfl
      · exact ih hscan

/-- Where the target does not come, the search is a scan for the terminator. -/
theorem searched_terminator (hterm : term ≠ []) {bytes : List UInt8} (hbytes : 0 ∉ bytes)
    (hnone : scan true target index bytes = none) :
    searched target term index termIndex bytes = (false, (scan false term termIndex bytes).getD []) := by
  induction bytes generalizing index termIndex with
  | nil => rfl
  | cons b bytes ih =>
    obtain ⟨hb,hrest⟩ := not_or.mp fun h => hbytes (List.mem_cons.mpr h)
    rw [scan] at hnone
    rw [searched, scan, if_neg (Ne.symm hb)]
    split_ifs at hnone ⊢ with hall hstop hend hend
    · rfl
    · exact absurd hstop.2 hend
    · exact absurd ⟨hterm,hend⟩ hstop
    · exact ih hrest hnone

/-- `find(target, n)` is a search for the target in the bytes that the stream delivers. -/
def FindsTarget (target bytes : List UInt8) : Prop :=
  ∀ (σ : Type) (port : Port σ) (timeout : UInt32) (unread : σ → List UInt8), port.Feeds timeout unread →
    ∀ s, unread s = bytes → ∃ fuel u found,
      (∀ more ≥ fuel, port.find target target.length timeout more s = .ok (found, u)) ∧
      (found = true ↔ target <:+: bytes) ∧ (found = true → ∀ a c, First target bytes a c → unread u = c)

/-- `findUntil(target, terminator)` stops at the terminator, or else with the last byte. -/
def StopsAtTerminator (target term bytes : List UInt8) : Prop :=
  ∀ (σ : Type) (port : Port σ) (timeout : UInt32) (unread : σ → List UInt8), port.Feeds timeout unread →
    ∀ t e, Terminated target t → Terminated term e → ∀ s, unread s = bytes → ∃ fuel u,
      (∀ more ≥ fuel, port.findUntilCstr t e timeout more s = .ok (false, u)) ∧
      (¬ term <:+: bytes → unread u = []) ∧ ∀ a c, First term bytes a c → unread u = c

section Runs
variable {σ : Type} {port : Port σ} {timeout : UInt32} {unread : σ → List UInt8} {bytes : List UInt8}

private theorem load_head (h : target ≠ []) (hblock : target <+: block) :
    ∃ t, target.head? = some t ∧ load block 0 = .ok t := by
  obtain ⟨t,ht,hload⟩ := load_within hblock (List.length_pos_iff.mpr h)
  exact ⟨t,List.head?_eq_getElem? ▸ ht,hload⟩

private theorem find_zero (htarget : target ≠ []) (hzero : target.head? = some 0) (fuel : Nat) (s : σ) :
    port.find target target.length timeout fuel s = .ok (true, s) := by
  obtain ⟨t,ht,hload⟩ := load_head htarget List.prefix_rfl
  rw [Port.find, Port.findUntil, hload, ok_bind, if_pos (Option.some.inj (ht.symm.trans hzero))]
  rfl

theorem find_searched (hf : port.Feeds timeout unread) (htarget : target ≠ []) (hhead : target.head? ≠ some 0) {s : σ}
    (hs : unread s = bytes) : ∃ fuel u, (∀ more ≥ fuel, port.find target target.length timeout more s =
      .ok ((searched target [] 0 0 bytes).1, u)) ∧ unread u = (searched target [] 0 0 bytes).2 := by
  obtain ⟨t,ht,hload⟩ := load_head htarget List.prefix_rfl
  have hgiven : Given none [] := .inl rfl
  obtain ⟨fuel,u,hloop,hu⟩ := findUntilLoop_searched hf (List.prefix_refl target) hgiven bytes
    (List.length_pos_iff.mpr htarget) (fun h => absurd rfl h) hs
  refine ⟨fuel,u,fun more hle => ?_,hu⟩
  rw [Port.find, Port.findUntil, hload, ok_bind, if_neg fun h => hhead (ht.trans (congrArg some h))]
  exact hloop more hle

theorem findUntilCstr_searched (hf : port.Feeds timeout unread) {t e : Block} (ht : Terminated target t)
    (he : Terminated term e) (htarget : target ≠ []) (hterm : term ≠ []) {s : σ} (hs : unread s = bytes) :
    ∃ fuel u, (∀ more ≥ fuel, port.findUntilCstr t e timeout more s = .ok ((searched target term 0 0 bytes).1, u)) ∧
      unread u = (searched target term 0 0 bytes).2 := by
  have hblock : target <+: t := by
    obtain ⟨rest,rfl⟩ := ht.terminator
    exact List.prefix_append target _
  have hblock' : term <+: e := by
    obtain ⟨rest,rfl⟩ := he.terminator
    exact List.prefix_append term _
  obtain ⟨x,hx,hload⟩ := load_head htarget hblock
  have hne : x ≠ 0 := fun h => ht.clean (h ▸ List.mem_of_head? hx)
  obtain ⟨fuel,u,hloop,hu⟩ := findUntilLoop_searched hf hblock (.inr ⟨e,rfl,hblock'⟩) bytes
    (List.length_pos_iff.mpr htarget) (fun _ => List.length_pos_iff.mpr hterm) hs
  refine ⟨fuel,u,fun more hle => ?_,hu⟩
  rw [Port.findUntilCstr, strlen_text ht, ok_bind, strlen_text he, ok_bind, Port.findUntil, hload, ok_bind, if_neg hne]
  exact hloop more hle

end Runs

/-- A first occurrence before any zero byte is one in the bytes that the loop takes. -/
private theorem first_heard {bytes a c : List UInt8} (h : First target bytes a c) (hclean : 0 ∉ a ++ target) :
    First target (bytes.takeWhile goesOn) a (c.takeWhile goesOn) ∧ bytes.dropWhile goesOn = c.dropWhile goesOn := by
  have hkeep : ∀ b ∈ a ++ target, goesOn b = true := fun b hb => decide_eq_true fun h0 => hclean (h0 ▸ hb)
  have hsplit : bytes = (a ++ target) ++ c := by rw [h.split, List.append_assoc]
  have htake : bytes.takeWhile goesOn = (a ++ target) ++ c.takeWhile goesOn := by
    rw [hsplit, List.takeWhile_append_of_pos hkeep]
  refine ⟨⟨by rw [htake, List.append_assoc],fun i hi hstands => h.earliest i hi ?_⟩,?_⟩
  · exact hstands.trans (List.IsPrefix.drop (List.takeWhile_prefix goesOn) i)
  · rw [hsplit, List.dropWhile_append_of_pos hkeep]

/-- The target comes before any zero byte, and no beginning of it is still being continued where it begins. -/
def Heard (target bytes : List UInt8) : Prop :=
  ∃ a c, First target bytes a c ∧ 0 ∉ a ++ target ∧ Restarted target a

theorem searched_heard (htarget : target ≠ []) {bytes a c : List UInt8} (h : First target bytes a c)
    (hclean : 0 ∉ a ++ target) (hcut : Restarted target a) : searched target [] 0 0 bytes = (true, c) := by
  obtain ⟨hfirst,hrest⟩ := first_heard h hclean
  rw [searched_found ((scan_first_iff htarget hfirst).mpr hcut.inPhase), hrest, List.takeWhile_append_dropWhile]

/-- Only such a target is found where it comes first. -/
theorem heard_of_searched (htarget : target ≠ []) {bytes a c : List UInt8} (h : First target bytes a c)
    (hsearched : searched target [] 0 0 bytes = (true, c)) : Heard target bytes := by
  cases hscan : scan true target 0 (bytes.takeWhile goesOn) with
  | none =>
    have hfalse : (true, c).1 = false := hsearched ▸ searched_absent hscan
    cases hfalse
  | some r =>
    rw [searched_found hscan] at hsearched
    obtain ⟨_,hc⟩ := Prod.mk.inj hsearched
    have hstart : target.take 0 <:+ ([] : List UInt8) := List.nil_suffix
    obtain ⟨x,hx,_⟩ := scan_sound hstart hscan
    -- What has been read is all that comes before `c`.
    have hread : x = a ++ target := by
      have hbytes : x ++ c = (a ++ target) ++ c := by
        rw [← hc, ← List.append_assoc, ← hx, List.takeWhile_append_dropWhile, hc, List.append_assoc, ← h.split]
      exact List.append_cancel_right hbytes
    have hclean : 0 ∉ a ++ target := by
      intro h0
      have hmem : 0 ∈ bytes.takeWhile goesOn := by
        rw [hx, hread]
        exact List.mem_append_left r h0
      exact absurd (List.mem_takeWhile_imp hmem) (by decide)
    have hfirst := (first_heard h hclean).1
    have hr : c.takeWhile goesOn = r := by
      have hsplit := hfirst.split.symm.trans hx
      rw [hread, ← List.append_assoc] at hsplit
      exact List.append_cancel_left hsplit
    exact ⟨a,c,h,hclean,(restarted_iff htarget hfirst).mpr ((scan_first_iff htarget hfirst).mp (hr ▸ hscan))⟩

private theorem scan_absent {retry : Bool} {bytes : List UInt8} (h : ¬ target <:+: bytes) : scan retry target 0 bytes = none := by
  cases hscan : scan retry target 0 bytes with
  | none => rfl
  | some r => exact absurd (scan_occurs hscan) h

theorem findsTarget_of_heard (htarget : target ≠ []) (hhead : target.head? ≠ some 0) {bytes : List UInt8}
    (hheard : target <:+: bytes → Heard target bytes) : FindsTarget target bytes := by
  intro σ port timeout unread hf s hs
  obtain ⟨fuel,u,hfind,hu⟩ := find_searched hf htarget hhead hs
  by_cases hcomes : target <:+: bytes
  · obtain ⟨a,c,hfirst,hclean,hcut⟩ := hheard hcomes
    rw [searched_heard htarget hfirst hclean hcut] at hfind hu
    refine ⟨fuel,u,true,hfind,iff_of_true rfl hcomes,fun _ a' c' hfirst' => ?_⟩
    rw [hu, (hfirst.unique hfirst').2]
  · -- What ends the loop, a zero byte or the timeout, does not matter here.
    have hpart : ¬ target <:+: bytes.takeWhile goesOn := fun h => hcomes (h.trans (List.takeWhile_prefix goesOn).isInfix)
    rw [searched_absent (scan_absent hpart)] at hfind
    exact ⟨fuel,u,false,hfind,iff_of_false Bool.false_ne_true hcomes,fun h => absurd h Bool.false_ne_true⟩

/-- A target that begins with a zero byte is reported at once, before anything has been read. -/
theorem FindsTarget.head_ne_zero {bytes : List UInt8} (h : FindsTarget target bytes) (htarget : target ≠ []) :
    target.head? ≠ some 0 := by
  intro hzero
  obtain ⟨fuel,u,found,hfind,hfound,hrest⟩ := h _ linePort 1 Prod.fst linePort_feeds (bytes,0) rfl
  obtain ⟨rfl,rfl⟩ := Prod.mk.inj (Except.ok.inj ((find_zero htarget hzero fuel _).symm.trans (hfind fuel (Nat.le_refl _))))
  obtain ⟨a,c,hfirst⟩ := (none_or_first target bytes).resolve_left fun hnone => hnone (hfound.mp rfl)
  have hlength := hfirst.length
  have hpos := List.length_pos_iff.mpr htarget
  have hall : bytes = c := hrest rfl a c hfirst
  rw [← hall] at hlength
  omega

theorem FindsTarget.heard {bytes : List UInt8} (h : FindsTarget target bytes) (htarget : target ≠ [])
    (hcomes : target <:+: bytes) : Heard target bytes := by
  obtain ⟨fuel,u,found,hfind,hfound,hrest⟩ := h _ linePort 1 Prod.fst linePort_feeds (bytes,0) rfl
  obtain ⟨fuel',u',hfind',hu'⟩ := find_searched linePort_feeds htarget (h.head_ne_zero htarget) (s := (bytes,0)) rfl
  obtain ⟨hresult,rfl⟩ := Prod.mk.inj (Except.ok.inj (fuel_unique hfind hfind'))
  obtain ⟨a,c,hfirst⟩ := (none_or_first target bytes).resolve_left fun hnone => hnone hcomes
  have htrue := hfound.mpr hcomes
  exact heard_of_searched htarget hfirst (Prod.ext (hresult.symm.trans htrue) (hu'.symm.trans (hrest htrue a c hfirst)))

private theorem inPhase_false {p : List UInt8} {k : Nat} : InPhase false p k ↔ k = 0 := by
  rw [InPhase, or_iff_left fun h => Bool.false_ne_true h.1]

/-- Where the target does not come, `findUntil` ends where a scan for the terminator does. -/
theorem stopsAtTerminator_iff (htarget : target ≠ []) (hterm : term ≠ []) (htarget0 : 0 ∉ target) (hterm0 : 0 ∉ term)
    {bytes : List UInt8} (hbytes : 0 ∉ bytes) (hnone : ¬ target <:+: bytes) : StopsAtTerminator target term bytes ↔
      ∀ a c, First term bytes a c → (scan false term 0 bytes).getD [] = c := by
  have hsearched : searched target term 0 0 bytes = (false, (scan false term 0 bytes).getD []) :=
    searched_terminator hterm hbytes (scan_absent hnone)
  constructor
  · intro hstops a c hfirst
    obtain ⟨fuel,u,hfind,_,hrest⟩ := hstops _ linePort 1 Prod.fst linePort_feeds (target ++ [0]) (term ++ [0])
      ⟨htarget0,[],rfl⟩ ⟨hterm0,[],rfl⟩ (bytes,0) rfl
    obtain ⟨fuel',u',hfind',hu'⟩ := findUntilCstr_searched linePort_feeds ⟨htarget0,[],rfl⟩ ⟨hterm0,[],rfl⟩ htarget hterm
      (s := (bytes,0)) rfl
    obtain ⟨_,rfl⟩ := Prod.mk.inj (Except.ok.inj (fuel_unique hfind hfind'))
    rw [hsearched, hrest a c hfirst] at hu'
    exact hu'.symm
  · intro hend σ port timeout unread hf t e ht he s hs
    obtain ⟨fuel,u,hfind,hu⟩ := findUntilCstr_searched hf ht he htarget hterm hs
    rw [hsearched] at hfind hu
    refine ⟨fuel,u,hfind,fun habsent => ?_,fun a c hfirst => hu.trans (hend a c hfirst)⟩
    rw [hu, scan_absent habsent, Option.getD_none]

end Find
open Find

/-- `find(target, n)` is right about the bytes of a stream if and only if the target does not begin
with a zero byte and, should it come, comes before any zero byte and after bytes that can be cut up into
beginnings of it which were broken off; this is so in every stream if and only if the target does not overlap itself. -/
theorem find_substring {target : List UInt8} (htarget : target ≠ []) :
    (∀ bytes, FindsTarget target bytes ↔ target.head? ≠ some 0 ∧ (target <:+: bytes → Heard target bytes)) ∧
      ((∀ bytes a c, First target bytes a c → Restarted target a) ↔ ∀ k, ¬ Overlaps true target k) := by
  refine ⟨fun bytes => ⟨fun h => ⟨h.head_ne_zero htarget,h.heard htarget⟩,?_⟩,?_⟩
  · rintro ⟨hhead,hheard⟩
    exact findsTarget_of_heard htarget hhead hheard
  · rw [← inPhase_always_iff htarget]
    exact forall₃_congr fun bytes a c => forall_congr' fun hfirst => restarted_iff htarget hfirst

/-- `aab` comes in `xaab` after a byte that does not begin it, and what comes after it is left. -/
theorem find_substring_plain : FindsTarget [97,97,98] [120,97,97,98,99] := by
  refine ((find_substring (by decide)).1 _).mpr
    ⟨by decide,fun _ => ⟨[120],[99],⟨rfl,fun i hi => ?_⟩,by decide,.other (by decide) .nil⟩⟩
  obtain rfl : i = 0 := by simpa using hi
  decide

/-- In `aaab` the second `a` is taken for the one before the `b`. -/
theorem find_missed : (∃ u, linePort.find [97,97,98] 3 1 6 ([97,97,97,98],0) = .ok (false, u)) ∧
    [97,97,98] <:+: ([97,97,97,98] : List UInt8) :=
  ⟨⟨_,rfl⟩,by decide⟩

/-- Where the target does not come, `findUntil` stops at the terminator if and only if the
terminator is the last thing delivered or comes after bytes that can be cut up into beginnings of it, each
with the byte that broke it off; that is so for every stream if and only if the terminator repeats one character. -/
theorem findUntil_terminator {target term : List UInt8} (htarget : target ≠ []) (hterm : term ≠ []) (htarget0 : 0 ∉ target)
    (hterm0 : 0 ∉ term) :
    (∀ bytes, 0 ∉ bytes → ¬ target <:+: bytes → (StopsAtTerminator target term bytes ↔
      ∀ a c, First term bytes a c → c ≠ [] → BrokenOff term a)) ∧
      ((∀ bytes a c, First term bytes a c → BrokenOff term a) ↔ ∀ x ∈ term, ∀ y ∈ term, x = y) := by
  have hcut {bytes a c : List UInt8} (hfirst : First term bytes a c) :
      InPhase false term (matched false term a) ↔ BrokenOff term a :=
    inPhase_false.trans (brokenOff_iff hterm hfirst).symm
  constructor
  · intro bytes hbytes hnone
    rw [stopsAtTerminator_iff htarget hterm htarget0 hterm0 hbytes hnone]
    refine forall₂_congr fun a c => forall_congr' fun hfirst => ?_
    rw [← hcut hfirst]
    exact scan_getD_iff hterm hfirst
  · rw [← overlaps_false_iff, ← inPhase_always_iff hterm]
    exact forall₃_congr fun bytes a c => forall_congr' fun hfirst => (hcut hfirst).symm

/-- The terminator `;` stops the search for `x` in `a;b`. -/
theorem findUntil_terminator_single : StopsAtTerminator [120] [59] [97,59,98] := by
  have htarget : ([120] : List UInt8) ≠ [] := by decide
  have hterm : ([59] : List UInt8) ≠ [] := by decide
  obtain ⟨hstops,hconstant⟩ := findUntil_terminator htarget hterm (by decide) (by decide)
  refine (hstops [97,59,98] (by decide) (by decide)).mpr fun a c hfirst _ => hconstant.mpr (fun x hx y hy => ?_) _ a c hfirst
  rw [List.mem_singleton.mp hx, List.mem_singleton.mp hy]

/-- The terminator `ab` is missed in `aabc`: nothing is left unread. -/
theorem findUntil_missed : ∃ now, linePort.findUntilCstr [120,0] [97,98,0] 1 6 ([97,97,98,99],0) = .ok (false, ([], now)) :=
  ⟨_,rfl⟩

end ArduinoAT90USB.Core
