import ArduinoAT90USB.Foundation.Cursor

/-! The searches through a configuration descriptor: a block of descriptors that each begin with
their size and type. The position is a pointer and the number of bytes left, and every search looks
at the descriptor behind the one it stands on, also when no byte is left there. -/
namespace ArduinoAT90USB.Usb
open Foundation.Memory Foundation.Cursor

/-- `*BytesRem` and `*CurrConfigLoc`. -/
structure ConfigPos where
  bytesRem : UInt16
  loc : Nat

/-- `DSearch_Comp_Return_ErrorCodes_t`. -/
inductive SearchComp
  | found
  | fail
  | endOfDescriptor
  deriving DecidableEq

section Code
variable (b : Block)

def descriptorType (loc : Nat) : Checked UInt8 := load b (loc + 1)

def getNextDescriptor (p : ConfigPos) : Checked ConfigPos := do
  let size ← load b p.loc
  let currDescriptorSize := if p.bytesRem < size.toUInt16 then p.bytesRem else size.toUInt16
  pure ⟨p.bytesRem - currDescriptorSize,p.loc + currDescriptorSize.toNat⟩

def getNextDescriptorOfType (type : UInt8) : Nat → ConfigPos → Checked ConfigPos
  | 0, _ => .error .hang
  | fuel+1, p => do
    if p.bytesRem = 0 then return p
    let p ← getNextDescriptor b p
    if (← descriptorType b p.loc) = type then return p
    getNextDescriptorOfType type fuel p

def getNextDescriptorOfTypeBefore (type beforeType : UInt8) : Nat → ConfigPos → Checked ConfigPos
  | 0, _ => .error .hang
  | fuel+1, p => do
    if p.bytesRem = 0 then return p
    let p ← getNextDescriptor b p
    if (← descriptorType b p.loc) = type then return p
    else if (← descriptorType b p.loc) = beforeType then return {p with bytesRem := 0}
    else getNextDescriptorOfTypeBefore type beforeType fuel p

def getNextDescriptorOfTypeAfter (type afterType : UInt8) (fuel : Nat) (p : ConfigPos) : Checked ConfigPos := do
  let p ← getNextDescriptorOfType b afterType fuel p
  if p.bytesRem ≠ 0 then getNextDescriptorOfType b type fuel p else pure p

def getNextDescriptorComp (comparator : Nat → Checked Verdict) : Nat → ConfigPos → Checked (SearchComp × ConfigPos)
  | 0, _ => .error .hang
  | fuel+1, p => do
    if p.bytesRem = 0 then return (.endOfDescriptor,p)
    let next ← getNextDescriptor b p
    match ← comparator next.loc with
    | .found => pure (.found,next)
    | .fail => pure (.fail,p)
    | .notFound => getNextDescriptorComp comparator fuel next

end Code

/-- What `USB_GetNextDescriptorComp` returns for the verdict its search has ended with. -/
def SearchComp.ofVerdict : Verdict → SearchComp
  | .found => .found
  | .fail => .fail
  | .notFound => .endOfDescriptor

namespace ConfigPos

def atEnd (p : ConfigPos) : Bool := p.bytesRem = 0

/-- The end of the configuration descriptor. -/
def stop (p : ConfigPos) : Nat := p.loc + p.bytesRem.toNat

end ConfigPos

/-- The descriptors behind `p`, as far as there are bytes, and then the place behind the last one. -/
abbrev Descriptors (b : Block) : ConfigPos → List ConfigPos → Prop := Visits ConfigPos.atEnd (getNextDescriptor b)

/-- From `p` the moves lead to `q`. -/
abbrev Reaches (b : Block) : ConfigPos → ConfigPos → Prop := Relation.ReflTransGen (Move ConfigPos.atEnd (getNextDescriptor b))

/-- No descriptor that the moves from `p` lead to has the size zero. -/
def Sized (b : Block) (p : ConfigPos) : Prop := ∀ q, Reaches b p q → q.bytesRem ≠ 0 → b.getD q.loc 0 ≠ 0

section Moves
variable {b : Block} {p q : ConfigPos}

/-- A move ends where the descriptor says or at the end, whichever comes first. -/
theorem getNextDescriptor_stop (h : getNextDescriptor b p = .ok q) : q.stop = p.stop ∧ p.loc ≤ q.loc := by
  rw [getNextDescriptor] at h
  obtain ⟨size,-,hq⟩ := bind_eq_ok h
  obtain rfl := Except.ok.inj hq
  have hmin : (if p.bytesRem < size.toUInt16 then p.bytesRem else size.toUInt16) ≤ p.bytesRem := by
    split
    · exact UInt16.le_refl _
    · rename_i hle
      exact UInt16.not_lt.mp hle
  refine ⟨?_,Nat.le_add_right _ _⟩
  have hle := UInt16.le_iff_toNat_le.mp hmin
  rw [ConfigPos.stop,ConfigPos.stop,UInt16.toNat_sub_of_le _ _ hmin]
  dsimp only
  omega

theorem Reaches.stop (h : Reaches b p q) : q.stop = p.stop := by
  induction h with
  | refl => rfl
  | tail _ hmove ih => exact (getNextDescriptor_stop hmove.2).1.trans ih

theorem getNextDescriptor_falls (hmore : p.bytesRem ≠ 0) (hroom : p.loc < b.length) (hsize : b.getD p.loc 0 ≠ 0) :
    ∃ q, getNextDescriptor b p = .ok q ∧ q.bytesRem.toNat < p.bytesRem.toNat := by
  obtain ⟨q,hq⟩ : ∃ q, getNextDescriptor b p = .ok q := by
    rw [getNextDescriptor,load_inside hroom]
    exact ⟨_,rfl⟩
  refine ⟨q,hq,?_⟩
  have hstop := (getNextDescriptor_stop hq).1
  have hloc : p.loc < q.loc := by
    rw [getNextDescriptor,load_inside hroom,ok_bind] at hq
    obtain rfl := Except.ok.inj hq
    refine Nat.lt_add_of_pos_right (Nat.pos_of_ne_zero fun hzero => ?_)
    have hmin := UInt16.toNat_inj.mp (hzero.trans UInt16.toNat_zero.symm)
    split at hmin
    · exact hmore hmin
    · exact hsize (UInt8.toNat_inj.mp ((UInt8.toNat_toUInt16 _).symm.trans (congrArg UInt16.toNat hmin)))
  rw [ConfigPos.stop,ConfigPos.stop] at hstop
  omega

/-- A walk that meets no descriptor of size zero ends, after a move for each byte at most. -/
theorem Sized.descriptors (h : Sized b p) (hroom : p.stop ≤ b.length) :
    ∃ ps, Descriptors b p ps ∧ ps.length ≤ p.bytesRem.toNat := by
  refine visits_of_falls (fun q : ConfigPos => q.bytesRem.toNat) fun q hq hmore => ?_
  have hmore := of_decide_eq_false hmore
  have hbytes : q.bytesRem.toNat ≠ 0 := fun hzero => hmore (UInt16.toNat_inj.mp hzero)
  have hstop := Reaches.stop hq
  rw [ConfigPos.stop] at hstop
  exact getNextDescriptor_falls hmore (by omega) (h q hq hmore)

theorem Descriptors.stop {ps : List ConfigPos} (h : Descriptors b p ps) {q : ConfigPos} (hq : q ∈ ps) : q.stop = p.stop := by
  induction h with
  | done => cases hq
  | move _ hnext _ ih =>
    rcases List.mem_cons.mp hq with rfl | hq
    · exact (getNextDescriptor_stop hnext).1
    · exact (ih hq).trans (getNextDescriptor_stop hnext).1

theorem Descriptors.loc_le {ps : List ConfigPos} (h : Descriptors b p ps) {q : ConfigPos} (hq : q ∈ ps) : q.loc ≤ p.stop := by
  rw [← h.stop hq]
  exact Nat.le_add_right _ _

end Moves

section Searches
variable {b : Block} {p : ConfigPos} {ps : List ConfigPos} {fuel : Nat}

/-- A comparator that can be evaluated wherever the search comes to. -/
theorem getNextDescriptorComp_eq {comparator : Nat → Checked Verdict} (judge : ConfigPos → Verdict) (h : Descriptors b p ps)
    (hcomparator : ∀ q ∈ ps, comparator q.loc = .ok (judge q)) (hfuel : ps.length < fuel) :
    getNextDescriptorComp b comparator fuel p = .ok (.ofVerdict (scan judge p ps).1,(scan judge p ps).2.1) := by
  induction h generalizing fuel with
  | done hend =>
    cases fuel with
    | zero => cases hfuel
    | succ fuel => rw [getNextDescriptorComp,if_pos (of_decide_eq_true hend)]; rfl
  | move hmore hnext rest ih =>
    rename_i p q qs
    cases fuel with
    | zero => cases hfuel
    | succ fuel =>
      rw [getNextDescriptorComp,if_neg (of_decide_eq_false hmore),hnext,ok_bind,hcomparator q List.mem_cons_self,ok_bind]
      cases hq : judge q with
      | found => rw [scan_found hq]; rfl
      | fail => rw [scan_fail hq]; rfl
      | notFound =>
        rw [scan_notFound hq]
        exact ih (fun r hr => hcomparator r (List.mem_cons_of_mem q hr)) (Nat.lt_of_succ_lt_succ hfuel)

/-- A descriptor without a size that the comparator passes by is passed by forever. -/
theorem getNextDescriptorComp_stuck {comparator : Nat → Checked Verdict} (hmore : p.bytesRem ≠ 0) (hsize : load b p.loc = .ok 0)
    (hpassed : comparator p.loc = .ok .notFound) (fuel : Nat) : getNextDescriptorComp b comparator fuel p = .error .hang := by
  have hnext : getNextDescriptor b p = .ok p := by
    rw [getNextDescriptor,hsize,ok_bind,show (0 : UInt8).toUInt16 = 0 from rfl,if_neg (UInt16.not_lt.mpr UInt16.zero_le)]
    exact congrArg Except.ok (ConfigPos.mk.injEq .. ▸ ⟨UInt16.sub_zero _,rfl⟩)
  induction fuel with
  | zero => rfl
  | succ fuel ih =>
    rw [getNextDescriptorComp,if_neg hmore,hnext,ok_bind,hpassed,ok_bind]
    exact ih

end Searches

section Types
variable (b : Block) (type : UInt8)

/-- The comparator that looks for a type and gives up at one of the others. -/
def typeComparator (others : List UInt8) (loc : Nat) : Checked Verdict := do
  let found ← descriptorType b loc
  pure (if found = type then .found else if found ∈ others then .fail else .notFound)

/-- The search for a type is the search with a comparator that never gives up. -/
theorem getNextDescriptorOfType_eq_comp (fuel : Nat) (p : ConfigPos) :
    getNextDescriptorOfType b type fuel p = Prod.snd <$> getNextDescriptorComp b (typeComparator b type []) fuel p := by
  induction fuel generalizing p with
  | zero => rfl
  | succ fuel ih =>
    rw [getNextDescriptorOfType,getNextDescriptorComp]
    by_cases hend : p.bytesRem = 0
    · rw [if_pos hend,if_pos hend]
      rfl
    rw [if_neg hend,if_neg hend,map_bind]
    congr 1
    funext q
    rw [typeComparator]
    cases descriptorType b q.loc with
    | error => rfl
    | ok found =>
      rw [ok_bind,ok_bind,pure_bind]
      by_cases hfound : found = type
      · rw [if_pos hfound,if_pos hfound]
        rfl
      · rw [if_neg hfound,if_neg hfound,if_neg List.not_mem_nil]
        exact ih q

/-- A search that has given up at another type stands on the descriptor of that type, with no byte
left. -/
theorem getNextDescriptorOfTypeBefore_eq_comp (beforeType : UInt8) (fuel : Nat) (p : ConfigPos) :
    getNextDescriptorOfTypeBefore b type beforeType fuel p =
      getNextDescriptorComp b (typeComparator b type [beforeType]) fuel p >>= fun r =>
        if r.1 = .fail then (fun next => ⟨0,next.loc⟩) <$> getNextDescriptor b r.2 else pure r.2 := by
  induction fuel generalizing p with
  | zero => rfl
  | succ fuel ih =>
    rw [getNextDescriptorOfTypeBefore,getNextDescriptorComp]
    by_cases hend : p.bytesRem = 0
    · rw [if_pos hend,if_pos hend]
      rfl
    rw [if_neg hend,if_neg hend,bind_assoc]
    cases hnext : getNextDescriptor b p with
    | error => rfl
    | ok q =>
      rw [ok_bind,ok_bind,typeComparator]
      cases descriptorType b q.loc with
      | error => rfl
      | ok found =>
        rw [ok_bind,ok_bind,ok_bind,pure_bind]
        by_cases hfound : found = type
        · rw [if_pos hfound,if_pos hfound]
          rfl
        rw [if_neg hfound,if_neg hfound]
        by_cases hbefore : found = beforeType
        · rw [if_pos hbefore,if_pos (List.mem_singleton.mpr hbefore),pure_bind,if_pos rfl,hnext]
          rfl
        · rw [if_neg hbefore,if_neg fun hmem => hbefore (List.mem_singleton.mp hmem)]
          exact ih q

end Types

section First
variable {b : Block} {type : UInt8} {others : List UInt8} {p : ConfigPos} {ps : List ConfigPos} {fuel : Nat}

def typeAt (b : Block) (q : ConfigPos) : UInt8 := b.getD (q.loc + 1) 0

/-- `q` is inside the configuration and the first place with the type, and no place before it has one
of the other types; `rest` is behind it. -/
structure FirstOfType (b : Block) (type : UInt8) (others : List UInt8) (ps : List ConfigPos) (q : ConfigPos) (rest : List ConfigPos) :
    Prop where
  typed : typeAt b q = type
  inside : q.bytesRem ≠ 0
  first : ∃ passed, ps = passed ++ q :: rest ∧ ∀ x ∈ passed, typeAt b x ≠ type ∧ typeAt b x ∉ others

theorem FirstOfType.unique {q q' : ConfigPos} {rest rest' : List ConfigPos} (h : FirstOfType b type others ps q rest)
    (h' : FirstOfType b type others ps q' rest') : q' = q ∧ rest' = rest := by
  obtain ⟨passed,hps,hpassed⟩ := h.first
  obtain ⟨passed',hps',hpassed'⟩ := h'.first
  rcases cut_cases (hps.symm.trans hps') with hmem | hmem | heq
  · exact absurd h'.typed (hpassed q' hmem).1
  · exact absurd h.typed (hpassed' q hmem).1
  · exact heq

def typeVerdict (b : Block) (type : UInt8) (others : List UInt8) (q : ConfigPos) : Verdict :=
  if typeAt b q = type then .found else if typeAt b q ∈ others then .fail else .notFound

theorem typeVerdict_found {q : ConfigPos} (h : typeVerdict b type others q = .found) : typeAt b q = type := by
  rw [typeVerdict] at h
  split at h
  · assumption
  · split at h
    · cases h
    · cases h

theorem typeVerdict_fail {q : ConfigPos} (h : typeVerdict b type others q = .fail) : typeAt b q ≠ type ∧ typeAt b q ∈ others := by
  rw [typeVerdict] at h
  split at h
  · cases h
  · split at h
    · exact ⟨‹_›,‹_›⟩
    · cases h

theorem typeVerdict_notFound {q : ConfigPos} (h : typeVerdict b type others q = .notFound) :
    typeAt b q ≠ type ∧ typeAt b q ∉ others := by
  rw [typeVerdict] at h
  split at h
  · cases h
  · split at h
    · cases h
    · exact ⟨‹_›,‹_›⟩

/-- A search ends at the first place with the type, or there is none inside the configuration. -/
theorem scan_type (h : Descriptors b p ps) {verdict : Verdict} {q : ConfigPos} {rest : List ConfigPos}
    (hscan : scan (typeVerdict b type others) p ps = (verdict,q,rest)) :
    (verdict = .found ∧ FirstOfType b type others ps q rest) ∨
      ((verdict = .fail ∨ q.bytesRem = 0) ∧ ∀ q' rest', ¬ FirstOfType b type others ps q' rest') := by
  have hrest := h.scan (typeVerdict b type others)
  have hscanned := scan_scanned (typeVerdict b type others) p ps
  rw [hscan] at hrest hscanned
  cases hscanned with
  | @found passed _ _ hqs hpassed hq =>
    have hbefore : ∀ x ∈ passed, typeAt b x ≠ type ∧ typeAt b x ∉ others := fun x hx => typeVerdict_notFound (hpassed x hx)
    by_cases hend : q.bytesRem = 0
    · refine .inr ⟨.inr hend,fun q' rest' h' => ?_⟩
      obtain ⟨passed',hps',hpassed'⟩ := h'.first
      rcases cut_cases (hqs.symm.trans hps') with hmem | hmem | heq
      · exact (hbefore q' hmem).1 h'.typed
      · exact (hpassed' q hmem).1 (typeVerdict_found hq)
      · exact h'.inside (heq.1 ▸ hend)
    · exact .inl ⟨rfl,typeVerdict_found hq,hend,passed,hqs,hbefore⟩
  | @fail passed rest _ x hqs hpassed hx =>
    refine .inr ⟨.inl rfl,fun q' rest' h' => ?_⟩
    obtain ⟨passed',hps',hpassed'⟩ := h'.first
    rcases cut_cases (hqs.symm.trans hps') with hmem | hmem | heq
    · exact (typeVerdict_notFound (hpassed q' hmem)).1 h'.typed
    · exact (hpassed' x hmem).2 (typeVerdict_fail hx).2
    · exact (typeVerdict_fail hx).1 (heq.1 ▸ h'.typed)
  | notFound hpassed =>
    have hend : q.bytesRem = 0 := by
      cases hrest with
      | done hend => exact of_decide_eq_true hend
    refine .inr ⟨.inr hend,fun q' rest' h' => ?_⟩
    obtain ⟨passed',hps',-⟩ := h'.first
    exact (typeVerdict_notFound (hpassed q' (hps' ▸ List.mem_append_right _ List.mem_cons_self))).1 h'.typed

theorem typeComparator_search (h : Descriptors b p ps) (hroom : p.stop + 1 < b.length) (hfuel : ps.length < fuel) :
    getNextDescriptorComp b (typeComparator b type others) fuel p =
      .ok (.ofVerdict (scan (typeVerdict b type others) p ps).1,(scan (typeVerdict b type others) p ps).2.1) := by
  refine getNextDescriptorComp_eq (typeVerdict b type others) h (fun q hq => ?_) hfuel
  have hle := h.loc_le hq
  rw [typeComparator,descriptorType,load_inside (by omega)]
  rfl

/-- `q` is the first place of the type, or no byte is left there and there is no such place. -/
def Settles (b : Block) (type : UInt8) (others : List UInt8) (ps : List ConfigPos) (q : ConfigPos) : Prop :=
  (∃ rest, FirstOfType b type others ps q rest) ∨ (q.bytesRem = 0 ∧ ∀ q' rest, ¬ FirstOfType b type others ps q' rest)

/-- The search for a type, with where it goes on. -/
theorem getNextDescriptorOfType_first (type : UInt8) (h : Descriptors b p ps) (hroom : p.stop + 1 < b.length)
    (hfuel : ps.length < fuel) :
    ∃ q, getNextDescriptorOfType b type fuel p = .ok q ∧
      ((∃ rest, FirstOfType b type [] ps q rest ∧ Descriptors b q rest) ∨
        (q.bytesRem = 0 ∧ ∀ q' rest, ¬ FirstOfType b type [] ps q' rest)) := by
  have hrest := h.scan (typeVerdict b type [])
  have hscanned := scan_scanned (typeVerdict b type []) p ps
  rw [getNextDescriptorOfType_eq_comp,typeComparator_search h hroom hfuel]
  refine ⟨_,rfl,?_⟩
  obtain ⟨verdict,q,rest,hscan⟩ : ∃ verdict q rest, scan (typeVerdict b type []) p ps = (verdict,q,rest) := ⟨_,_,_,rfl⟩
  rw [hscan] at hrest hscanned ⊢
  rcases scan_type h hscan with ⟨-,hfirst⟩ | ⟨hends,hnone⟩
  · exact .inl ⟨rest,hfirst,hrest⟩
  · refine .inr ⟨hends.resolve_left fun hfail => ?_,hnone⟩
    subst hfail
    cases hscanned with
    | fail _ _ hx => exact absurd (typeVerdict_fail hx).2 List.not_mem_nil

theorem getNextDescriptorOfTypeBefore_first (type other : UInt8) (h : Descriptors b p ps) (hroom : p.stop + 1 < b.length)
    (hfuel : ps.length < fuel) :
    ∃ q, getNextDescriptorOfTypeBefore b type other fuel p = .ok q ∧ Settles b type [other] ps q := by
  have hrest := h.scan (typeVerdict b type [other])
  have hscanned := scan_scanned (typeVerdict b type [other]) p ps
  rw [getNextDescriptorOfTypeBefore_eq_comp,typeComparator_search h hroom hfuel,ok_bind]
  obtain ⟨verdict,q,rest,hscan⟩ : ∃ verdict q rest, scan (typeVerdict b type [other]) p ps = (verdict,q,rest) := ⟨_,_,_,rfl⟩
  have hends := scan_type h hscan
  rw [hscan] at hrest hscanned ⊢
  cases hscanned with
  | found =>
    exact ⟨q,rfl,hends.imp (fun hfirst => ⟨rest,hfirst.2⟩) (And.imp_left fun h => h.resolve_left fun h => Verdict.noConfusion h)⟩
  | @fail passed behind _ x =>
    -- the search has moved on to `x`, which made it fail
    have hnext : getNextDescriptor b q = .ok x := by
      cases hrest with
      | move _ hnext _ => exact hnext
    refine ⟨⟨0,x.loc⟩,?_,.inr ⟨rfl,?_⟩⟩
    · change (fun next => ConfigPos.mk 0 next.loc) <$> getNextDescriptor b q = _
      rw [hnext]
      rfl
    · exact (hends.resolve_left fun h => Verdict.noConfusion h.1).2
  | notFound =>
    have hnone := hends.resolve_left fun h => Verdict.noConfusion h.1
    exact ⟨q,rfl,.inr ⟨hnone.1.resolve_left fun h => Verdict.noConfusion h,hnone.2⟩⟩

theorem getNextDescriptorOfTypeAfter_first (type other : UInt8) (h : Descriptors b p ps) (hroom : p.stop + 1 < b.length)
    (hfuel : ps.length < fuel) :
    ∃ q, getNextDescriptorOfTypeAfter b type other fuel p = .ok q ∧
      ((∃ a behind rest, FirstOfType b other [] ps a behind ∧ FirstOfType b type [] behind q rest) ∨
        (q.bytesRem = 0 ∧ ∀ a behind q' rest, FirstOfType b other [] ps a behind → ¬ FirstOfType b type [] behind q' rest)) := by
  obtain ⟨a,ha,⟨behind,hfirst,hbehind⟩ | ⟨hend,hnone⟩⟩ := getNextDescriptorOfType_first other h hroom hfuel
  · obtain ⟨passed,hps,-⟩ := hfirst.first
    have hstop : a.stop = p.stop := h.stop (hps ▸ List.mem_append_right _ List.mem_cons_self)
    have hshort : behind.length < fuel := by
      rw [hps,List.length_append,List.length_cons] at hfuel
      omega
    rw [getNextDescriptorOfTypeAfter,ha,ok_bind,if_pos hfirst.inside]
    obtain ⟨q,hq,⟨rest,hsecond,-⟩ | ⟨hend,hnone⟩⟩ := getNextDescriptorOfType_first type hbehind (by omega) hshort
    · exact ⟨q,hq,.inl ⟨a,behind,rest,hfirst,hsecond⟩⟩
    · refine ⟨q,hq,.inr ⟨hend,fun a' behind' q' rest hfirst' => ?_⟩⟩
      rw [(hfirst.unique hfirst').2]
      exact hnone q' rest
  · rw [getNextDescriptorOfTypeAfter,ha,ok_bind,if_neg (not_not_intro hend)]
    exact ⟨a,rfl,.inr ⟨hend,fun a' behind q' rest hfirst => absurd hfirst (hnone a' behind)⟩⟩

end First

/-- In a block without a size zero and with two bytes behind it, the three searches by type leave bytes
exactly if the descriptor they are for is there, and then stand on it: the first of the type, the first
of the type before any of `other`, and the first of the type behind the first of `other`. -/
theorem typed_searches {b : Block} {p : ConfigPos} (hsized : Sized b p) (hroom : p.stop + 2 ≤ b.length) (type other : UInt8) :
    ∃ ps, Descriptors b p ps ∧ ps.length ≤ p.bytesRem.toNat ∧ ∀ fuel, ps.length < fuel →
      (∃ q, getNextDescriptorOfType b type fuel p = .ok q ∧ Settles b type [] ps q) ∧
      (∃ q, getNextDescriptorOfTypeBefore b type other fuel p = .ok q ∧ Settles b type [other] ps q) ∧
      ∃ q, getNextDescriptorOfTypeAfter b type other fuel p = .ok q ∧
        ((∃ a behind rest, FirstOfType b other [] ps a behind ∧ FirstOfType b type [] behind q rest) ∨
          (q.bytesRem = 0 ∧ ∀ a behind q' rest, FirstOfType b other [] ps a behind → ¬ FirstOfType b type [] behind q' rest)) := by
  obtain ⟨ps,h,hlength⟩ := hsized.descriptors (by omega)
  refine ⟨ps,h,hlength,fun fuel hfuel => ⟨?_,getNextDescriptorOfTypeBefore_first type other h hroom hfuel,
    getNextDescriptorOfTypeAfter_first type other h hroom hfuel⟩⟩
  obtain ⟨q,hq,⟨rest,hfirst,-⟩ | hnone⟩ := getNextDescriptorOfType_first type h hroom hfuel
  · exact ⟨q,hq,.inl ⟨rest,hfirst⟩⟩
  · exact ⟨q,hq,.inr hnone⟩

/-- An interface with one endpoint, and a second interface behind it. -/
def twoInterfaces : Block := [3,4,0,3,5,0,3,4,0,0,0]

theorem twoInterfaces_sized : Sized twoInterfaces ⟨9,0⟩ := by
  have hmoves : ∀ q, Reaches twoInterfaces ⟨9,0⟩ q → q ∈ [ConfigPos.mk 9 0,⟨6,3⟩,⟨3,6⟩,⟨0,9⟩] := by
    intro q hq
    induction hq with
    | refl => exact List.mem_cons_self
    | tail _ hmove ih =>
      obtain ⟨hmore,hnext⟩ := hmove
      simp only [List.mem_cons,List.not_mem_nil,or_false] at ih ⊢
      rcases ih with rfl | rfl | rfl | rfl
      · exact .inr (.inl (Except.ok.inj hnext).symm)
      · exact .inr (.inr (.inl (Except.ok.inj hnext).symm))
      · exact .inr (.inr (.inr (Except.ok.inj hnext).symm))
      · cases hmore
  intro q hq hmore
  have hmem := hmoves q hq
  simp only [List.mem_cons,List.not_mem_nil,or_false] at hmem
  rcases hmem with rfl | rfl | rfl | rfl
  · decide
  · decide
  · decide
  · exact absurd rfl hmore

theorem typed_searches_endpoint :
    ∃ ps, Descriptors twoInterfaces ⟨9,0⟩ ps ∧ ∃ q, getNextDescriptorOfType twoInterfaces 5 10 ⟨9,0⟩ = .ok q ∧
      Settles twoInterfaces 5 [] ps q := by
  obtain ⟨ps,h,hlength,hsearches⟩ := typed_searches twoInterfaces_sized (by decide) 5 4
  exact ⟨ps,h,(hsearches 10 (Nat.lt_of_le_of_lt hlength (by decide))).1⟩

end ArduinoAT90USB.Usb
