import ArduinoAT90USB.Core.WStringSound
import ArduinoAT90USB.Foundation.Runs

/-! What a String call leaves behind when memory is refused, for Strings in any state, and
what becomes of a chain of `operator +` whose links may each fail. -/
namespace ArduinoAT90USB.Core
open Foundation Foundation.Memory Foundation.CString Foundation.TaskLogic Foundation.Runs

namespace WString
variable {s s' : WString} {size : UInt16} {h : Heap}

/-- There is room already, or the request for it is granted. -/
def Grants (s : WString) (size : UInt16) (h : Heap) : Prop :=
  (s.buffer.isSome ∧ s.capacity ≥ size) ∨ (h.outcome h.calls).isSome

theorem reserve_denied (hg : ¬ s.Grants size h) : s.reserve size h = .ok (false, s) h.called := by
  obtain ⟨hsmall,hout⟩ := not_or.mp hg
  exact reserve_refused hsmall (Option.not_isSome_iff_eq_none.mp hout)

theorem reserve_served (hg : s.Grants size h) : Served (fun r => r.1 = true) h (s.reserve size h) := by
  by_cases henough : s.buffer.isSome ∧ s.capacity ≥ size
  · rw [reserve, if_pos henough]
    exact ⟨not_refused_self h,rfl⟩
  · obtain ⟨fresh,hout⟩ := Option.isSome_iff_exists.mp (hg.resolve_left henough)
    rw [reserve, if_neg henough, bind_ok (changeBuffer_granted hout size)]
    dsimp only
    rw [if_pos rfl]
    refine served_bind (served_check (Q := fun _ => True) (fun _ _ => trivial) (not_refused_called hout)) ?_
    exact fun s' h' _ hserved => ⟨hserved,rfl⟩

theorem copy_denied (hg : ¬ s.Grants size h) (c : List UInt8) : s.copy c size h = .ok ⟨none,0,0⟩ h.called := by
  rw [copy, bind_ok (reserve_denied hg)]
  rfl

theorem copy_served (hg : s.Grants size h) (c : List UInt8) :
    Served (fun s' => s'.buffer.isSome = true) h (s.copy c size h) := by
  rw [copy]
  refine served_bind (reserve_served hg) ?_
  rintro ⟨_,s'⟩ h' rfl hserved
  exact served_check (fun _ => putString_isSome) hserved

theorem concatBytes_denied {c : List UInt8} {length : UInt16} (hlength : length ≠ 0)
    (hg : ¬ s.Grants (s.len + length) h) : s.concatBytes (some c) length h = .ok (false, s) h.called := by
  rw [concatBytes]
  dsimp only
  rw [if_neg hlength, bind_ok (reserve_denied hg)]
  rfl

theorem concatBytes_served {c : List UInt8} {length : UInt16} (hlength : length ≠ 0) (hg : s.Grants (s.len + length) h) :
    Served (fun r => r.1 = true ∧ r.2.buffer.isSome = true ∧ r.2.len = s.len + length) h
      (s.concatBytes (some c) length h) := by
  rw [concatBytes]
  dsimp only
  rw [if_neg hlength]
  refine served_bind (reserve_served hg) ?_
  rintro ⟨_,s'⟩ h' rfl hserved
  exact served_bind (served_check (fun _ => putString_isSome) hserved) fun s' h' hs' hserved => ⟨hserved,rfl,hs',rfl⟩

theorem copy_onRefusal (s : WString) (c : List UInt8) (length : UInt16) (h : Heap) :
    OnRefusal ⟨none,0,0⟩ h (s.copy c length h) := by
  by_cases hg : s.Grants length h
  · exact (copy_served hg c).onRefusal _
  · rw [copy_denied hg]
    exact onRefusal_ok _ _ _

theorem assign_onRefusal (s rhs : WString) (h : Heap) : OnRefusal ⟨none,0,0⟩ h (s.assign rhs h) := by
  unfold assign
  cases rhs.buffer with
  | none => exact onRefusal_ok _ _ _
  | some b => exact copy_onRefusal s b rhs.len h

theorem assignCstr_onRefusal (s : WString) (p : Option (List UInt8)) (h : Heap) :
    OnRefusal ⟨none,0,0⟩ h (s.assignCstr p h) := by
  cases p with
  | none => exact onRefusal_ok _ _ _
  | some c => exact onRefusal_check_bind fun length _ => copy_onRefusal s c _ h

theorem construct_onRefusal (base : UInt8) (x : Operand) (h : Heap) :
    OnRefusal ⟨none,0,0⟩ h (construct base x h) := by
  cases x with
  | string t => exact assign_onRefusal init t h
  | cstr p => exact assignCstr_onRefusal init p h
  | char c => exact assignCstr_onRefusal init (some [c, 0]) h
  | number n => exact onRefusal_check_bind fun buf _ => assignCstr_onRefusal init _ h

theorem reserve_false {h' : Heap} (hs : s.reserve size h = .ok (false, s') h') : s' = s := by
  by_cases hg : s.Grants size h
  · have hserved := reserve_served hg
    rw [hs] at hserved
    cases hserved.2
  · rw [reserve_denied hg] at hs
    cases hs
    rfl

private theorem concatBytes_false {p : Option (List UInt8)} {length : UInt16} {h' : Heap}
    (hs : s.concatBytes p length h = .ok (false, s') h') : s' = s := by
  cases p with
  | none =>
    cases hs
    rfl
  | some c =>
    by_cases hzero : length = 0
    · subst hzero
      cases hs
    · by_cases hg : s.Grants (s.len + length) h
      · have hserved := concatBytes_served (c := c) hzero hg
        rw [hs] at hserved
        cases hserved.2.1
      · rw [concatBytes_denied hzero hg] at hs
        cases hs
        rfl

theorem concat_false {x : Operand} {h' : Heap} (hs : s.concat x h = .ok (false, s') h') : s' = s := by
  cases x with
  | string t => exact concatBytes_false hs
  | char c => exact concatBytes_false (show s.concatBytes (some [c, 0]) 1 h = _ from hs)
  | cstr p =>
    cases p with
    | none =>
      cases hs
      rfl
    | some c =>
      obtain ⟨length,_,hs⟩ := check_bind_eq_ok hs
      exact concatBytes_false hs
  | number n =>
    obtain ⟨buf,_,hs⟩ := check_bind_eq_ok hs
    obtain ⟨length,_,hs⟩ := check_bind_eq_ok hs
    exact concatBytes_false hs

theorem replace_onRefusal (s find text : WString) (h : Heap) : OnRefusal s h (s.replace find text h) := by
  unfold replace
  split_ifs
  · exact onRefusal_ok _ _ _
  · refine onRefusal_check_bind fun b _ => onRefusal_check_bind fun needle _ => ?_
    split_ifs
    · exact onRefusal_check_bind fun b _ => onRefusal_self _ _ _
    · exact onRefusal_check_bind fun r _ => onRefusal_self _ _ _
    · refine onRefusal_check_bind fun total _ => ?_
      split_ifs
      · exact onRefusal_ok _ _ _
      · -- The one request is made after everything has been counted and before anything is moved.
        cases hout : h.outcome h.calls with
        | none =>
          rw [bind_ok (changeBuffer_refused hout total)]
          exact onRefusal_ok _ _ _
        | some fresh =>
          rw [bind_ok (changeBuffer_granted hout total)]
          exact (served_check (Q := fun _ => True) (fun _ _ => trivial) (not_refused_called hout)).onRefusal s
      · exact (served_check (Q := fun _ => True) (fun _ _ => trivial) (not_refused_self h)).onRefusal s

end WString

/-- An operand of a chain and its characters, if it has any: NULs may be among them. The
block of a C string has fewer than 2^16 bytes. -/
inductive Operand.Spells : Operand → Option (List UInt8) → Prop
  | string {t : WString} {w : Option (List UInt8)} (h : t.Shows w) : Spells (.string t) w
  | null : Spells (.cstr none) none
  | cstr {t c : List UInt8} (h : Terminated t c) (size : c.length < 65536) : Spells (.cstr (some c)) (some t)
  | char (c : UInt8) : Spells (.char c) (some [c])
  | number (n : Number) : Spells (.number n) (some (n.text 10))

structure Piece where
  operand : Operand
  text : Option (List UInt8)
  spells : operand.Spells text

/-- A chain of `operator +` on its way: the helper object once there is one, the heap, and
all the characters so far, which no code reads. -/
structure Chain where
  helper : Option WString
  heap : Heap
  joined : List UInt8
  fault : Option Fault

namespace Chain

def start (heap : Heap) : Chain := ⟨none,heap,[],none⟩

/-- The helper is made from the first operand; the others are added to it. -/
def next (c : Chain) (p : Piece) : Alloc WString :=
  match c.helper with
  | none => WString.construct 10 p.operand
  | some s => s.plus p.operand

def step (c : Chain) (p : Piece) : Chain :=
  let joined := c.joined ++ p.text.getD []
  match c.next p c.heap with
  | .ok s heap => ⟨some s,heap,joined,c.fault⟩
  | .error f heap => ⟨c.helper,heap,joined,some f⟩

/-- The helper is invalid or holds everything that was added. -/
structure FullOrInvalid (c : Chain) : Prop where
  safe : c.fault = none
  full : ∀ s, c.helper = some s → s = ⟨none,0,0⟩ ∨ s.Holds (some c.joined)

/-- The next link gets its memory although its result cannot be whole: what was there has
been lost to an earlier failure, or the text is too long, or it has a NUL in it. -/
def Breaks (c : Chain) (p : Piece) : Prop := ∃ t, p.text = some t ∧
  match c.helper with
  | none => (c.heap.outcome c.heap.calls).isSome ∧ 0 ∈ t
  | some s => t ≠ [] ∧ s.Grants (s.len + UInt16.ofNat t.length) c.heap ∧
      (s.buffer = none ∧ c.joined ≠ [] ∨ 65535 ≤ c.joined.length + t.length ∨ 0 ∈ t)

end Chain

theorem Operand.Spells.denotes {x : Operand} {o : Option (List UInt8)} (hx : x.Spells o)
    (hclean : ∀ t, o = some t → 0 ∉ t) : x.Denotes 10 o := by
  cases hx with
  | string h => exact .string (h.holds hclean)
  | null => exact .null
  | cstr h size => exact .cstr h
  | char c => exact .char fun h0 => hclean _ rfl (List.mem_singleton.mpr h0.symm)
  | number n => exact .number n

theorem Operand.Spells.length_lt {x : Operand} {o : Option (List UInt8)} (hx : x.Spells o) :
    (o.getD []).length < 65535 := by
  cases hx with
  | string h =>
    cases h with
    | invalid => decide
    | valid length allocated size =>
      rw [List.length_append, List.length_cons] at allocated
      rw [Option.getD_some]
      omega
  | null => decide
  | cstr h size =>
    obtain ⟨_,rest,rfl⟩ := h
    rw [List.length_append, List.length_cons] at size
    rw [Option.getD_some]
    omega
  | char c => exact Nat.lt_of_sub_eq_succ rfl
  | number n =>
    have hroom : n.concatRoom ≤ 12 := by cases n <;> exact Nat.le_of_ble_eq_true rfl
    exact Nat.lt_trans n.text_lt_concatRoom (Nat.lt_of_le_of_lt hroom (by decide))

namespace WString
variable {s : WString} {h : Heap} {x : Operand} {t : List UInt8}

/-- Only Strings and single characters can bring a NUL. -/
theorem construct_spelled (hx : x.Spells (some t)) (hnul : 0 ∈ t) (h : Heap) :
    ∃ c length, construct 10 x h = init.copy c length h := by
  cases hx with
  | string h =>
    cases h with
    | valid length allocated size => exact ⟨_,_,rfl⟩
  | cstr hc size => exact absurd hnul hc.clean
  | char c =>
    obtain rfl : 0 = c := List.mem_singleton.mp hnul
    exact ⟨[0, 0],0,rfl⟩
  | number n => exact absurd hnul (n.text_clean 10)

theorem concat_spelled (hx : x.Spells (some t)) (s : WString) (h : Heap) :
    ∃ rest, s.concat x h = s.concatBytes (some (t ++ 0 :: rest)) (UInt16.ofNat t.length) h := by
  cases hx with
  | string h =>
    cases h with
    | @valid _ rest capacity len length allocated size => exact ⟨rest,by rw [concat, eq_ofNat length]⟩
  | cstr hc size =>
    obtain ⟨c,⟨_,rest,rfl⟩,hconcat⟩ := concat_some (s := s) (.cstr hc) h
    exact ⟨rest,hconcat⟩
  | char c => exact ⟨[],rfl⟩
  | number n =>
    obtain ⟨c,⟨_,rest,rfl⟩,hconcat⟩ := concat_some (s := s) (.number n) h
    exact ⟨rest,hconcat⟩

theorem ofNat_length_ne_zero (hx : x.Spells (some t)) (ht : t ≠ []) : UInt16.ofNat t.length ≠ 0 := by
  intro h0
  have hlen := congrArg UInt16.toNat h0
  rw [toNat_length (t := t) hx.length_lt] at hlen
  exact ht (List.length_eq_zero_iff.mp hlen)

theorem plus_denied (hx : x.Spells (some t)) (ht : t ≠ []) (hg : ¬ s.Grants (s.len + UInt16.ofNat t.length) h) :
    s.plus x h = .ok ⟨none,0,0⟩ h.called := by
  obtain ⟨rest,hconcat⟩ := concat_spelled hx s h
  rw [concatBytes_denied (ofNat_length_ne_zero hx ht) hg] at hconcat
  rw [plus, bind_ok hconcat]
  rfl

theorem plus_served (hx : x.Spells (some t)) (ht : t ≠ []) (hg : s.Grants (s.len + UInt16.ofNat t.length) h) :
    Served (fun s' => s'.buffer.isSome = true ∧ s'.len = s.len + UInt16.ofNat t.length) h (s.plus x h) := by
  obtain ⟨rest,hconcat⟩ := concat_spelled hx s h
  have hserved := concatBytes_served (c := t ++ 0 :: rest) (ofNat_length_ne_zero hx ht) hg
  rw [← hconcat] at hserved
  refine served_bind hserved ?_
  rintro ⟨_,s'⟩ h' ⟨rfl,hs'⟩ hh
  exact ⟨hh,hs'⟩

/-- The links that leave the helper as it should be. -/
theorem plus_whole {joined : List UInt8} (hs : s = ⟨none,0,0⟩ ∨ s.Holds (some joined)) (hx : x.Spells (some t))
    (ht : t ≠ []) (hkept : s.buffer = none → joined = []) (hfit : joined.length + t.length < 65535) (hclean : 0 ∉ t) :
    ∃ h' s', s.plus x h = .ok s' h' ∧ (s' = ⟨none,0,0⟩ ∨ s'.Holds (some (joined ++ t))) := by
  have hdenotes := hx.denotes fun u hu => Option.some.inj hu ▸ hclean
  obtain ⟨v,hv,hjoined⟩ : ∃ v, s.Holds v ∧ v.getD [] = joined := by
    rcases hs with rfl | hs
    · exact ⟨none,.invalid,(hkept rfl).symm⟩
    · exact ⟨some joined,hs,rfl⟩
  obtain ⟨h',s',hplus,hholds⟩ := plus_spec hv hdenotes (hjoined.symm ▸ hfit) h
  refine ⟨h',s',hplus,?_⟩
  obtain ⟨y,t,rfl⟩ := List.exists_cons_of_ne_nil ht
  cases hg : granted h h' with
  | false =>
    rw [hg] at hholds
    cases hholds
    exact .inl rfl
  | true =>
    rw [hg] at hholds
    exact .inr (hjoined ▸ hholds)

end WString

namespace Chain
variable {c : Chain} {p : Piece}

/-- A chain that is in order, and empty until there is a helper. -/
structure Sound (c : Chain) : Prop extends c.FullOrInvalid where
  empty : c.helper = none → c.joined = []

private theorem sound_step (hc : c.Sound) {s : WString} {h : Heap} (hnext : c.next p c.heap = .ok s h)
    (hs : s = ⟨none,0,0⟩ ∨ s.Holds (some (c.joined ++ p.text.getD []))) : (c.step p).Sound := by
  rw [step, hnext]
  exact ⟨⟨hc.safe,fun s' hs' => Option.some.inj hs' ▸ hs⟩,nofun⟩

private theorem Sound.first (hc : c.Sound) (hhelper : c.helper = none) (hok : ¬ c.Breaks p) : (c.step p).Sound := by
  have hnext : c.next p = WString.construct 10 p.operand := by rw [next, hhelper]
  by_cases hclean : ∀ t, p.text = some t → 0 ∉ t
  · obtain ⟨h',s',hs,hholds⟩ := WString.construct_spec (p.spells.denotes hclean) p.spells.length_lt c.heap
    refine sound_step hc (hnext ▸ hs) ?_
    rw [hc.empty hhelper, List.nil_append]
    cases ho : p.text with
    | none =>
      rw [ho, ite_self] at hholds
      cases hholds
      exact .inl rfl
    | some t =>
      rw [ho] at hholds
      split_ifs at hholds
      · exact .inr hholds
      · cases hholds
        exact .inl rfl
  · obtain ⟨t,hclean⟩ := not_forall.mp hclean
    obtain ⟨ht,hnul⟩ := Classical.not_imp.mp hclean
    have hnul := Classical.not_not.mp hnul
    obtain ⟨b,length,hcopy⟩ := WString.construct_spelled (ht ▸ p.spells) hnul c.heap
    have hg : ¬ WString.init.Grants length c.heap := by
      rintro (⟨hsome,_⟩ | hout)
      · cases hsome
      · exact hok ⟨t,ht,by rw [hhelper]; exact ⟨hout,hnul⟩⟩
    rw [WString.copy_denied hg] at hcopy
    exact sound_step hc (hnext ▸ hcopy) (.inl rfl)

private theorem Sound.link (hc : c.Sound) {s : WString} (hhelper : c.helper = some s) (hok : ¬ c.Breaks p) :
    (c.step p).Sound := by
  have hnext : c.next p = s.plus p.operand := by rw [next, hhelper]
  have hs := hc.full s hhelper
  have hx := p.spells
  cases ho : p.text with
  | none =>
    rw [ho] at hx
    have hconcat := WString.concat_none (s := s) (hx.denotes nofun) c.heap
    refine sound_step hc (s := ⟨none,0,0⟩) (h := c.heap) ?_ (.inl rfl)
    rw [hnext, WString.plus, bind_ok hconcat]
    rfl
  | some t =>
    rw [ho] at hx
    by_cases ht : t = []
    · subst ht
      obtain ⟨rest,hconcat⟩ := WString.concat_spelled hx s c.heap
      refine sound_step hc (s := s) (h := c.heap) ?_ ?_
      · rw [hnext, WString.plus, bind_ok (hconcat.trans rfl)]
        rfl
      · rw [ho, Option.getD_some, List.append_nil]
        exact hs
    · by_cases hg : s.Grants (s.len + UInt16.ofNat t.length) c.heap
      · have hwhole : ¬ (s.buffer = none ∧ c.joined ≠ [] ∨ 65535 ≤ c.joined.length + t.length ∨ 0 ∈ t) :=
          fun h => hok ⟨t,ho,by rw [hhelper]; exact ⟨ht,hg,h⟩⟩
        obtain ⟨hkept,hwhole⟩ := not_or.mp hwhole
        obtain ⟨hfit,hclean⟩ := not_or.mp hwhole
        obtain ⟨h',s',hplus,hs'⟩ := WString.plus_whole hs hx ht
          (fun hnone => Classical.byContradiction fun hlost => hkept ⟨hnone,hlost⟩) (Nat.lt_of_not_le hfit) hclean
        exact sound_step hc (hnext ▸ hplus) (ho ▸ hs')
      · exact sound_step hc (hnext ▸ WString.plus_denied hx ht hg) (.inl rfl)

theorem Sound.step (hc : c.Sound) (p : Piece) (hok : ¬ c.Breaks p) : (c.step p).Sound := by
  cases hhelper : c.helper with
  | none => exact hc.first hhelper hok
  | some s => exact hc.link hhelper hok

/-- A link that was served has not left an invalid helper behind. -/
private theorem not_full_of_served {Q : WString → Prop} (hserved : Served Q c.heap (c.next p c.heap))
    (hQ : ∀ s, Q s → s.buffer.isSome = true ∧ ¬ s.Holds (some (c.joined ++ p.text.getD []))) :
    ¬ (c.step p).FullOrInvalid := by
  intro hfull
  unfold Chain.step at hfull
  cases hnext : c.next p c.heap with
  | error f h =>
    rw [hnext] at hfull
    cases hfull.safe
  | ok s h =>
    rw [hnext] at hfull hserved
    obtain ⟨hvalid,hpart⟩ := hQ s hserved.2
    rcases hfull.full s rfl with rfl | hholds
    · cases hvalid
    · exact hpart hholds

theorem Sound.breaks (hc : c.Sound) (hbreaks : c.Breaks p) : ¬ (c.step p).FullOrInvalid := by
  obtain ⟨t,ht,hbreaks⟩ := hbreaks
  have hx := p.spells
  rw [ht] at hx
  cases hhelper : c.helper with
  | none =>
    rw [hhelper] at hbreaks
    obtain ⟨hout,hnul⟩ := hbreaks
    obtain ⟨b,length,hcopy⟩ := WString.construct_spelled hx hnul c.heap
    have hserved : Served _ c.heap (WString.init.copy b length c.heap) := WString.copy_served (.inr hout) b
    rw [← hcopy] at hserved
    refine not_full_of_served (by rw [next, hhelper]; exact hserved) fun s hs => ⟨hs,fun hholds => ?_⟩
    rw [ht, Option.getD_some] at hholds
    exact hholds.block.1 (List.mem_append_right _ hnul)
  | some s =>
    rw [hhelper] at hbreaks
    obtain ⟨hne,hg,hwhy⟩ := hbreaks
    refine not_full_of_served (by rw [next, hhelper]; exact WString.plus_served hx hne hg) ?_
    rintro s' ⟨hvalid,hlen⟩
    refine ⟨hvalid,fun hholds => ?_⟩
    rw [ht, Option.getD_some] at hholds
    rcases hwhy with ⟨hnone,hlost⟩ | hlong | hnul
    · obtain rfl : s = ⟨none,0,0⟩ := (hc.full s hhelper).resolve_right fun hs => by
        obtain ⟨_,_,rest,hsome,_⟩ := hs.block
        rw [hsome] at hnone
        cases hnone
      have htotal := hholds.len_toNat
      rw [hlen, UInt16.zero_add, WString.toNat_length (t := t) hx.length_lt, Option.getD_some,
        List.length_append] at htotal
      exact hlost (List.length_eq_zero_iff.mp (by omega))
    · have hshort := hholds.length_lt
      rw [List.length_append] at hshort
      omega
    · exact hholds.block.1 (List.mem_append_right _ hnul)

end Chain

def Operand.Absent : Operand → Prop
  | .string t => t.buffer = none
  | .cstr p => p = none
  | .char _ | .number _ => False

/-- The promises about single calls: an addition that reports failure has changed nothing,
nor has a replacement without the memory for it, and an assignment or a constructor that
fails leaves the invalid String. -/
structure FailsCleanly (s : WString) (h : Heap) : Prop where
  reserve (size : UInt16) (s' : WString) (h' : Heap) : s.reserve size h = .ok (false, s') h' → s' = s
  concat (x : Operand) (s' : WString) (h' : Heap) : s.concat x h = .ok (false, s') h' → s' = s
  replace (find text : WString) : OnRefusal s h (s.replace find text h)
  assign (rhs : WString) : OnRefusal ⟨none,0,0⟩ h (s.assign rhs h)
  assignInvalid (rhs : WString) : rhs.buffer = none → s.assign rhs h = .ok ⟨none,0,0⟩ h
  assignCstr (p : Option (List UInt8)) : OnRefusal ⟨none,0,0⟩ h (s.assignCstr p h)
  assignNull : s.assignCstr none h = .ok ⟨none,0,0⟩ h
  construct (base : UInt8) (x : Operand) : OnRefusal ⟨none,0,0⟩ h (WString.construct base x h)
  constructAbsent (base : UInt8) (x : Operand) : x.Absent → WString.construct base x h = .ok ⟨none,0,0⟩ h

theorem fails_cleanly (s : WString) (h : Heap) : FailsCleanly s h where
  reserve _ _ _ := WString.reserve_false
  concat _ _ _ := WString.concat_false
  replace find text := WString.replace_onRefusal s find text h
  assign rhs := WString.assign_onRefusal s rhs h
  assignInvalid rhs hrhs := by rw [WString.assign, hrhs]; rfl
  assignCstr p := WString.assignCstr_onRefusal s p h
  assignNull := rfl
  construct base x := WString.construct_onRefusal base x h
  constructAbsent base x hx := by
    cases x with
    | string t => rw [WString.construct, WString.assign, show t.buffer = none from hx]; rfl
    | cstr p => rw [show p = none from hx]; rfl
    | char c => exact hx.elim
    | number n => exact hx.elim

/-- Single calls fail as they should. A chain of additions is whole or invalid at every link
exactly if no link breaks it: an invalid helper is revived by the next operand that gets
memory, and then holds that one alone. -/
theorem failure_atomic (h : Heap) : (∀ s : WString, FailsCleanly s h) ∧ ∀ pieces : List Piece,
    (Always Chain.step Chain.FullOrInvalid (.start h) pieces ↔
      Admits Chain.step (fun c p => ¬ c.Breaks p) (.start h) pieces) := by
  refine ⟨fun s => fails_cleanly s h,fun pieces => always_iff_admits (I := Chain.Sound) ?_ ?_ ?_ ?_ pieces⟩
  · exact fun _ p hc hok => hc.step p hok
  · exact fun _ hc => hc.toFullOrInvalid
  · exact fun _ _ hc hbreaks => hc.breaks (Classical.not_not.mp hbreaks)
  · exact ⟨⟨rfl,nofun⟩,fun _ => rfl⟩

private def literal (t : List UInt8) (ht : 0 ∉ t) (hsize : (t ++ [0]).length < 65536) : Piece :=
  ⟨.cstr (some (t ++ [0])),some t,.cstr ⟨ht,[],rfl⟩ hsize⟩

/-- The memory for "ab" is refused and that for "c" granted: the sum of the two is "c". -/
theorem sum_truncated : ¬ Always Chain.step Chain.FullOrInvalid
    (.start ⟨fun i => if i = 0 then none else some fun _ => 7,0⟩)
    [literal [97, 98] (by decide) (by decide),literal [99] (by decide) (by decide)] := by
  intro hall
  rcases hall.last.full ⟨some [99, 0],1,1⟩ rfl with hinvalid | hholds
  · cases hinvalid
  · exact absurd hholds.len_toNat (by decide)

end ArduinoAT90USB.Core
