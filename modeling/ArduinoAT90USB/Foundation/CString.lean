import ArduinoAT90USB.Foundation.Memory
import ArduinoAT90USB.Foundation.Substitution

/-! The string functions of the C library. A pointer that is only read through is the list
of bytes from where it points to the end of its block; one that is written through is a
block and an index into it. -/
namespace ArduinoAT90USB.Foundation.CString
open Memory Substitution

/-- A C string with the text `t` starts here. -/
structure Terminated (t : List UInt8) (s : List UInt8) : Prop where
  clean : 0 ∉ t
  terminator : ∃ rest, s = t ++ 0 :: rest

def strlen : List UInt8 → Checked Nat
  | [] => .error .bounds
  | b :: s => if b = 0 then .ok 0 else (· + 1) <$> strlen s

def strcpy : List UInt8 → Block → Nat → Checked Block
  | [], _, _ => .error .bounds
  | b :: src, dst, i => do
    let dst ← store dst i b
    if b = 0 then pure dst else strcpy src dst (i+1)

/-- `memcpy` from another block. -/
def memcpy : Nat → List UInt8 → Block → Nat → Checked Block
  | 0, _, dst, _ => pure dst
  | _+1, [], _, _ => .error .bounds
  | n+1, b :: src, dst, i => do
    let dst ← store dst i b
    memcpy n src dst (i+1)

/-- `memcpy` inside a block, byte by byte upwards. -/
def memcpyWithin : Nat → Block → Nat → Nat → Checked Block
  | 0, b, _, _ => pure b
  | n+1, b, dst, src => do
    let x ← load b src
    let b ← store b dst x
    memcpyWithin n b (dst+1) (src+1)

def memmove (n : Nat) (b : Block) (dst src : Nat) : Checked Block :=
  if src + n ≤ b.length then memcpy n (b.drop src) b dst else .error .bounds

/-- `strcpy` inside a block; the read pointer leaves the block before the fuel is used up. -/
def strcpyWithin : Nat → Block → Nat → Nat → Checked Block
  | 0, _, _, _ => .error .hang
  | fuel+1, b, dst, src => do
    let x ← load b src
    let b ← store b dst x
    if x = 0 then pure b else strcpyWithin fuel b (dst+1) (src+1)

/-- At most `n` characters are copied and the rest of the `n` filled with NULs. -/
def strncpy : Nat → List UInt8 → Block → Nat → Checked Block
  | 0, _, dst, _ => pure dst
  | _+1, [], _, _ => .error .bounds
  | n+1, b :: src, dst, i => do
    let dst ← store dst i b
    strncpy n (if b = 0 then [0] else src) dst (i+1)

def strcmp : List UInt8 → List UInt8 → Checked Int
  | a :: s, b :: t =>
    if a ≠ b then .ok (a.toNat - b.toNat) else if a = 0 then .ok 0 else strcmp s t
  | _, _ => .error .bounds

def strncmp : Nat → List UInt8 → List UInt8 → Checked Int
  | 0, _, _ => .ok 0
  | n+1, a :: s, b :: t =>
    if a ≠ b then .ok (a.toNat - b.toNat) else if a = 0 then .ok 0 else strncmp n s t
  | _, _, _ => .error .bounds

/-- The distance to the first `c`; the terminator can be searched for too. -/
def strchr (c : UInt8) : List UInt8 → Checked (Option Nat)
  | [] => .error .bounds
  | b :: s =>
    if b = c then .ok (some 0) else if b = 0 then .ok none else Option.map (· + 1) <$> strchr c s

def strrchr (c : UInt8) : List UInt8 → Checked (Option Nat)
  | [] => .error .bounds
  | b :: s =>
    if b = 0 then .ok (if c = 0 then some 0 else none)
    else do
      match ← strrchr c s with
      | some i => pure (some (i + 1))
      | none => pure (if b = c then some 0 else none)

/-- The text of `needle` stands at the start of `s`. -/
def startsWith : List UInt8 → List UInt8 → Checked Bool
  | _, [] => .error .bounds
  | s, c :: needle =>
    if c = 0 then .ok true
    else match s with
      | [] => .error .bounds
      | b :: s => if b = c then startsWith s needle else .ok false

def strstr (needle : List UInt8) : List UInt8 → Checked (Option Nat)
  | [] => do if ← startsWith [] needle then pure (some 0) else .error .bounds
  | b :: s => do
    if ← startsWith (b :: s) needle then pure (some 0)
    else if b = 0 then pure none
    else Option.map (· + 1) <$> strstr needle s

def mapChars (f : UInt8 → UInt8) : List UInt8 → Checked (List UInt8)
  | [] => .error .bounds
  | b :: s => if b = 0 then .ok (b :: s) else (f b :: ·) <$> mapChars f s

def isspace (c : UInt8) : Bool := c = 32 ∨ (9 ≤ c ∧ c ≤ 13)
def tolower (c : UInt8) : UInt8 := if 65 ≤ c ∧ c ≤ 90 then c + 32 else c
def toupper (c : UInt8) : UInt8 := if 97 ≤ c ∧ c ≤ 122 then c - 32 else c

section Specs
variable {t s : List UInt8}

theorem Terminated.cons {c : UInt8} (h : Terminated (c :: t) s) : c ≠ 0 ∧ ∃ s', s = c :: s' ∧ Terminated t s' := by
  obtain ⟨hclean,rest,rfl⟩ := h
  refine ⟨fun h0 => hclean (h0 ▸ List.mem_cons_self),t ++ 0 :: rest,rfl,?_,rest,rfl⟩
  exact fun h0 => hclean (List.mem_cons_of_mem c h0)

theorem terminated_takeWhile (h : 0 ∈ s) : Terminated (s.takeWhile (· ≠ 0)) s := by
  induction s with
  | nil => cases h
  | cons b s ih =>
    by_cases hb : b = 0
    · subst hb
      exact ⟨List.not_mem_nil,s,rfl⟩
    · obtain ⟨hclean,rest,hs⟩ := ih ((List.mem_cons.mp h).resolve_left (Ne.symm hb))
      rw [List.takeWhile_cons_of_pos (by simpa using hb)]
      refine ⟨fun h0 => ?_,rest,congrArg (b :: ·) hs⟩
      exact (List.mem_cons.mp h0).elim (fun h => hb h.symm) hclean

/-- The first NUL is at or before any other. -/
theorem terminated_before (t rest : List UInt8) : ∃ u, Terminated u (t ++ 0 :: rest) ∧ u.length ≤ t.length := by
  induction t with
  | nil => exact ⟨[],⟨List.not_mem_nil,rest,rfl⟩,Nat.le_refl 0⟩
  | cons c t ih =>
    by_cases hc : c = 0
    · subst hc
      exact ⟨[],⟨List.not_mem_nil,t ++ 0 :: rest,rfl⟩,Nat.zero_le _⟩
    · obtain ⟨u,⟨hclean,rest',hu⟩,hlength⟩ := ih
      refine ⟨c :: u,⟨?_,rest',congrArg (c :: ·) hu⟩,Nat.succ_le_succ hlength⟩
      exact fun h0 => (List.mem_cons.mp h0).elim (fun h => hc h.symm) hclean

/-- A pattern without a NUL stands before the terminator. -/
theorem prefix_text {f : List UInt8} (hf : 0 ∉ f) (t rest : List UInt8) : f <+: t ++ 0 :: rest ↔ f <+: t := by
  constructor
  · intro h
    by_cases hlen : f.length ≤ t.length
    · exact List.prefix_of_prefix_length_le h (List.prefix_append t _) hlen
    · have hnul : t ++ [0] <+: f := by
        refine List.prefix_of_prefix_length_le ⟨rest,by rw [List.append_assoc]; rfl⟩ h ?_
        rw [List.length_append,List.length_singleton]
        omega
      exact absurd (hnul.subset (List.mem_append_right t (List.mem_singleton_self 0))) hf
  · exact fun h => h.trans (List.prefix_append t _)

theorem strlen_text (h : Terminated t s) : strlen s = .ok t.length := by
  induction t generalizing s with
  | nil =>
    obtain ⟨_,rest,rfl⟩ := h
    rfl
  | cons c t ih =>
    obtain ⟨hc,s,rfl,ht⟩ := h.cons
    rw [strlen, if_neg hc, ih ht]
    rfl

theorem strcpy_text (h : Terminated t s) (pre : Block) {old : Block} (hold : old.length = t.length + 1) (post : Block) :
    strcpy s (pre ++ (old ++ post)) pre.length = .ok (pre ++ (t ++ 0 :: post)) := by
  induction t generalizing s pre old with
  | nil =>
    obtain ⟨_,rest,rfl⟩ := h
    obtain ⟨x,rfl⟩ := List.length_eq_one_iff.mp hold
    rw [List.nil_append, strcpy, List.singleton_append, store_append]
    rfl
  | cons c t ih =>
    obtain ⟨hc,s,rfl,ht⟩ := h.cons
    obtain ⟨x,old,rfl⟩ := List.exists_cons_of_length_eq_add_one hold
    have hrest := ih ht (pre ++ [c]) (Nat.succ.inj hold)
    rw [List.append_assoc, List.append_assoc, List.length_append] at hrest
    rw [strcpy, List.cons_append, store_append]
    exact (if_neg hc).trans hrest

/-- A copy that ends inside the block keeps its size. -/
theorem strcpy_inside (h : Terminated t s) {b : Block} {i : Nat} (hroom : i + t.length < b.length) :
    ∃ b', strcpy s b i = .ok b' ∧ b'.length = b.length := by
  have hsplit : b = b.take i ++ ((b.drop i).take (t.length + 1) ++ (b.drop i).drop (t.length + 1)) := by
    rw [List.take_append_drop,List.take_append_drop]
  have hold : ((b.drop i).take (t.length + 1)).length = t.length + 1 := by
    rw [List.length_take,List.length_drop]
    omega
  have hpre : (b.take i).length = i := by
    rw [List.length_take]
    omega
  have hcopy := strcpy_text h (b.take i) hold ((b.drop i).drop (t.length + 1))
  rw [← hsplit,hpre] at hcopy
  refine ⟨_,hcopy,?_⟩
  simp only [List.length_append,List.length_cons,List.length_drop,hpre]
  omega

/-- Nothing behind the terminator is written. -/
theorem strcpy_above (h : Terminated t s) {b b' : Block} {i : Nat} (hcopy : strcpy s b i = .ok b') {j : Nat}
    (hj : i + t.length < j) : b'[j]? = b[j]? := by
  induction t generalizing s b i with
  | nil =>
    obtain ⟨_,rest,rfl⟩ := h
    obtain ⟨c,hstore,hend⟩ := bind_eq_ok hcopy
    cases hend
    exact store_other hstore (Nat.ne_of_lt hj)
  | cons x t ih =>
    obtain ⟨hx,s,rfl,ht⟩ := h.cons
    rw [List.length_cons] at hj
    obtain ⟨c,hstore,hrest⟩ := bind_eq_ok hcopy
    rw [if_neg hx] at hrest
    rw [ih ht hrest (by omega)]
    exact store_other hstore (by omega)

theorem memcpy_text (src pre : Block) {old : Block} (hsrc : old.length ≤ src.length) (post : Block) :
    memcpy old.length src (pre ++ (old ++ post)) pre.length = .ok (pre ++ (src.take old.length ++ post)) := by
  induction old generalizing src pre with
  | nil => rfl
  | cons x old ih =>
    obtain ⟨c,src,rfl⟩ := List.exists_cons_of_length_pos (Nat.lt_of_lt_of_le (Nat.succ_pos _) hsrc)
    have hrest := ih src (pre ++ [c]) (Nat.le_of_succ_le_succ hsrc)
    rw [List.append_assoc,List.append_assoc,List.length_append] at hrest
    rw [List.length_cons,memcpy,List.cons_append,store_append,ok_bind]
    exact hrest

theorem memcpy_length {n : Nat} {src : List UInt8} {b b' : Block} {i : Nat} (h : memcpy n src b i = .ok b') :
    b'.length = b.length ∧ (n = 0 ∨ i + n ≤ b.length) := by
  induction n generalizing src b i with
  | zero =>
    cases h
    exact ⟨rfl,.inl rfl⟩
  | succ n ih =>
    cases src with
    | nil => cases h
    | cons c src =>
      obtain ⟨d,hstore,hrest⟩ := bind_eq_ok h
      obtain ⟨hlength,hinside⟩ := store_length hstore
      obtain ⟨hsame,hroom⟩ := ih hrest
      exact ⟨hsame.trans hlength,.inr (by omega)⟩

theorem memcpy_drop {n : Nat} {src : List UInt8} {b b' : Block} {i k : Nat} (h : memcpy n src b i = .ok b')
    (hk : i + n ≤ k) : b'.drop k = b.drop k := by
  induction n generalizing src b i with
  | zero =>
    cases h
    rfl
  | succ n ih =>
    cases src with
    | nil => cases h
    | cons c src =>
      obtain ⟨d,hstore,hrest⟩ := bind_eq_ok h
      rw [ih hrest (by omega)]
      exact store_drop hstore (by omega)

theorem memcpyWithin_drop {n : Nat} {b b' : Block} {dst src k : Nat} (h : memcpyWithin n b dst src = .ok b')
    (hk : dst + n ≤ k) : b'.drop k = b.drop k := by
  induction n generalizing b dst src with
  | zero =>
    cases h
    rfl
  | succ n ih =>
    obtain ⟨x,_,h⟩ := bind_eq_ok h
    obtain ⟨c,hstore,h⟩ := bind_eq_ok h
    rw [ih h (by omega)]
    exact store_drop hstore (by omega)

theorem memmove_length {n : Nat} {b b' : Block} {dst src : Nat} (h : memmove n b dst src = .ok b') :
    b'.length = b.length ∧ (n = 0 ∨ dst + n ≤ b.length) := by
  rw [memmove] at h
  split at h
  · exact memcpy_length h
  · cases h

/-- A move upwards leaves a gap behind it. -/
theorem memmove_up (pre mid post : Block) {d : Nat} (hd : d ≤ post.length) : ∃ gap post' : Block,
    memmove mid.length (pre ++ (mid ++ post)) (pre.length + d) pre.length = .ok (pre ++ (gap ++ (mid ++ post'))) ∧
      gap.length = d ∧ d + post'.length = post.length := by
  have hgap : ((mid ++ post).take d).length = d := by
    rw [List.length_take,List.length_append]
    omega
  have hmid : (((mid ++ post).drop d).take mid.length).length = mid.length := by
    rw [List.length_take,List.length_drop,List.length_append]
    omega
  have hfits : (((mid ++ post).drop d).take mid.length).length ≤ (mid ++ post).length := by
    rw [hmid,List.length_append]
    omega
  have hcopy := memcpy_text (mid ++ post) (pre ++ (mid ++ post).take d) hfits (((mid ++ post).drop d).drop mid.length)
  rw [List.take_append_drop,hmid,List.take_left,List.length_append,hgap,List.append_assoc,List.take_append_drop,
    List.append_assoc] at hcopy
  refine ⟨_,((mid ++ post).drop d).drop mid.length,?_,hgap,?_⟩
  · rw [memmove,if_pos (by simp only [List.length_append]; omega),List.drop_left]
    exact hcopy
  · rw [List.length_drop,List.length_drop,List.length_append]
    omega

theorem memcpyWithin_length {n : Nat} {b b' : Block} {dst src : Nat} (h : memcpyWithin n b dst src = .ok b') :
    b'.length = b.length := by
  induction n generalizing b dst src with
  | zero =>
    cases h
    rfl
  | succ n ih =>
    obtain ⟨x,_,h⟩ := bind_eq_ok h
    obtain ⟨c,hstore,h⟩ := bind_eq_ok h
    exact (ih h).trans (store_length hstore).1

private theorem load_behind (pre gap : Block) (c : UInt8) (post : Block) :
    load (pre ++ (gap ++ c :: post)) (pre.length + gap.length) = .ok c := by
  have h := load_append (pre ++ gap) post c
  rwa [List.length_append,List.append_assoc] at h

/-- One byte moved down to the end of `pre`: what it leaves is part of the gap. -/
private theorem move_down (pre gap : Block) (c : UInt8) (post : Block) : ∃ gap' : Block, gap'.length = gap.length ∧
    store (pre ++ (gap ++ c :: post)) pre.length c = .ok (pre ++ [c] ++ (gap' ++ post)) ∧
      ∀ n, (gap ++ c :: post).drop (n + 1) = (gap' ++ post).drop n := by
  cases gap with
  | nil => exact ⟨[],rfl,by rw [List.nil_append,store_append,List.append_assoc]; rfl,fun _ => rfl⟩
  | cons g gap =>
    refine ⟨gap ++ [c],by rw [List.length_append]; rfl,?_,?_⟩
    · rw [List.cons_append,store_append,List.append_assoc,List.append_assoc,List.singleton_append,List.singleton_append]
    · intro n
      rw [List.append_assoc,List.singleton_append]
      rfl

/-- An upward copy to an earlier place of the block reads nothing it has written. -/
theorem memcpyWithin_down (pre gap mid post : Block) :
    memcpyWithin mid.length (pre ++ (gap ++ (mid ++ post))) pre.length (pre.length + gap.length) =
      .ok (pre ++ (mid ++ (gap ++ (mid ++ post)).drop mid.length)) := by
  induction mid generalizing pre gap with
  | nil => rfl
  | cons c mid ih =>
    obtain ⟨gap',hlength,hstore,hdrop⟩ := move_down pre gap c (mid ++ post)
    have hrest := ih (pre ++ [c]) gap'
    rw [List.length_append,List.length_singleton,hlength,Nat.add_right_comm] at hrest
    rw [List.length_cons,memcpyWithin,List.cons_append,load_behind,ok_bind,hstore,ok_bind,hrest,hdrop,
      List.append_assoc,List.singleton_append,List.cons_append]

theorem strcpyWithin_down (h : 0 ∉ t) (pre gap post : Block) {fuel : Nat} (hfuel : t.length < fuel) :
    strcpyWithin fuel (pre ++ (gap ++ (t ++ 0 :: post))) pre.length (pre.length + gap.length) =
      .ok (pre ++ (t ++ 0 :: (gap ++ (t ++ 0 :: post)).drop (t.length + 1))) := by
  induction t generalizing pre gap fuel with
  | nil =>
    obtain ⟨fuel,rfl⟩ := Nat.exists_eq_add_one_of_ne_zero (Nat.ne_of_gt hfuel)
    obtain ⟨gap',_,hstore,hdrop⟩ := move_down pre gap 0 post
    rw [strcpyWithin,List.nil_append,load_behind,ok_bind,hstore,ok_bind,if_pos rfl,List.append_assoc,List.length_nil,hdrop]
    rfl
  | cons c t ih =>
    obtain ⟨hc,ht⟩ := not_or.mp fun h' => h (List.mem_cons.mpr h')
    obtain ⟨fuel,rfl⟩ := Nat.exists_eq_add_one_of_ne_zero (Nat.ne_of_gt (Nat.lt_of_le_of_lt (Nat.zero_le _) hfuel))
    obtain ⟨gap',hlength,hstore,hdrop⟩ := move_down pre gap c (t ++ 0 :: post)
    have hrest := ih ht (pre ++ [c]) gap' (Nat.lt_of_succ_lt_succ hfuel)
    rw [List.length_append,List.length_singleton,hlength,Nat.add_right_comm] at hrest
    rw [strcpyWithin,List.cons_append,load_behind,ok_bind,hstore,ok_bind,if_neg (Ne.symm hc),hrest,List.length_cons,
      hdrop,List.append_assoc,List.singleton_append,List.cons_append]

/-- An upward copy of a text that is written over before its end is reached does not end inside the block:
between the two pointers there never is a NUL. -/
theorem strcpyWithin_chases {b : Block} {dst src fuel : Nat} (hlt : src < dst) (hdst : dst ≤ b.length)
    (hbetween : ∀ i, src ≤ i → i < dst → b[i]? ≠ some 0) (hfuel : b.length < fuel + dst) :
    strcpyWithin fuel b dst src = .error .bounds := by
  induction fuel generalizing b dst src with
  | zero => omega
  | succ fuel ih =>
    obtain ⟨x,hx⟩ : ∃ x, b[src]? = some x := ⟨_,List.getElem?_eq_getElem (by omega)⟩
    have hx0 : x ≠ 0 := by
      rintro rfl
      exact hbetween src (Nat.le_refl src) hlt hx
    rw [strcpyWithin,load,hx]
    dsimp only
    rw [ok_bind,store]
    by_cases hroom : dst < b.length
    · rw [if_pos hroom,ok_bind,if_neg hx0]
      refine ih (Nat.succ_lt_succ hlt) ?_ ?_ ?_
      · rw [List.length_set]
        exact hroom
      · intro i hi hidst
        by_cases heq : dst = i
        · subst heq
          rw [List.getElem?_set_self hroom]
          simpa using hx0
        · rw [List.getElem?_set_ne heq]
          exact hbetween i (by omega) (by omega)
      · rw [List.length_set]
        omega
    · rw [if_neg hroom]
      rfl

theorem mapChars_text (f : UInt8 → UInt8) (h : 0 ∉ t) (rest : List UInt8) :
    mapChars f (t ++ 0 :: rest) = .ok (t.map f ++ 0 :: rest) := by
  induction t with
  | nil => rfl
  | cons c t ih =>
    obtain ⟨hc,ht⟩ := not_or.mp fun h' => h (List.mem_cons.mpr h')
    rw [List.cons_append, mapChars, if_neg (Ne.symm hc), ih ht]
    rfl

/-- The sign of a number is that of the lexicographic comparison of two texts. -/
structure Compares (x y : List UInt8) (d : Int) : Prop where
  less : d < 0 ↔ x < y
  same : d = 0 ↔ x = y
  greater : d > 0 ↔ y < x

/-- Texts whose first bytes differ compare as these do. -/
private theorem compares_head {a b : UInt8} (h : a ≠ b) (x y : List UInt8) :
    Compares (a :: x) (b :: y) (a.toNat - b.toNat) := by
  have hne : a.toNat ≠ b.toNat := fun h' => h (UInt8.toNat_inj.mp h')
  refine ⟨?_,?_,?_⟩
  · rw [List.cons_lt_cons_iff, or_iff_left fun h' => h h'.1, UInt8.lt_iff_toNat_lt]
    omega
  · exact ⟨fun h' => absurd h' (by omega),fun h' => absurd (List.cons.inj h').1 h⟩
  · rw [List.cons_lt_cons_iff, or_iff_left fun h' => h h'.1.symm, UInt8.lt_iff_toNat_lt]
    omega

private theorem compares_tail (a : UInt8) {x y : List UInt8} {d : Int} (h : Compares x y d) :
    Compares (a :: x) (a :: y) d := by
  have hirrefl : ¬ a < a := UInt8.lt_irrefl a
  refine ⟨?_,?_,?_⟩
  · simpa [List.cons_lt_cons_iff, hirrefl] using h.less
  · simpa using h.same
  · simpa [List.cons_lt_cons_iff, hirrefl] using h.greater

private theorem compares_nil {b : UInt8} (hb : b ≠ 0) (y : List UInt8) :
    Compares [] (b :: y) (0 - b.toNat) ∧ Compares (b :: y) [] b.toNat := by
  have hpos : b.toNat ≠ 0 := fun h => hb (UInt8.toNat_inj.mp h)
  refine ⟨⟨?_,?_,?_⟩,⟨?_,?_,?_⟩⟩ <;> simp <;> omega

theorem strcmp_text {x y : List UInt8} (hx : Terminated x s) (hy : Terminated y t) :
    ∃ d, strcmp s t = .ok d ∧ Compares x y d := by
  induction x generalizing y s t with
  | nil =>
    obtain ⟨rest,rfl⟩ := hx.terminator
    cases y with
    | nil =>
      obtain ⟨rest',rfl⟩ := hy.terminator
      exact ⟨0,rfl,by simp,by simp,by simp⟩
    | cons b y =>
      obtain ⟨hb,t',rfl,_⟩ := hy.cons
      exact ⟨0 - b.toNat,if_pos (Ne.symm hb),(compares_nil hb y).1⟩
  | cons a x ih =>
    obtain ⟨ha,s',rfl,hx'⟩ := hx.cons
    cases y with
    | nil =>
      obtain ⟨rest,rfl⟩ := hy.terminator
      refine ⟨a.toNat,?_,(compares_nil ha x).2⟩
      rw [List.nil_append, strcmp, if_pos ha]
      rfl
    | cons b y =>
      obtain ⟨hb,t',rfl,hy'⟩ := hy.cons
      by_cases hab : a = b
      · subst hab
        obtain ⟨d,hd,hcompares⟩ := ih hx' hy'
        refine ⟨d,?_,compares_tail a hcompares⟩
        rw [strcmp, if_neg (not_not_intro rfl), if_neg ha, hd]
      · exact ⟨a.toNat - b.toNat,if_pos hab,compares_head hab x y⟩

theorem startsWith_text {f needle : List UInt8} (hf : Terminated f needle) (h : Terminated t s) :
    startsWith s needle = .ok (decide (f <+: t)) := by
  induction f generalizing needle t s with
  | nil =>
    obtain ⟨_,rest,rfl⟩ := hf
    rw [List.nil_append,startsWith.eq_def]
    dsimp only
    rw [if_pos rfl,decide_eq_true List.nil_prefix]
  | cons c f ih =>
    obtain ⟨hc,needle,rfl,hf'⟩ := hf.cons
    rw [startsWith.eq_def]
    dsimp only
    rw [if_neg hc]
    cases t with
    | nil =>
      obtain ⟨_,rest,rfl⟩ := h
      rw [List.nil_append]
      dsimp only
      rw [if_neg (Ne.symm hc),decide_eq_false fun hle => List.cons_ne_nil c f (List.prefix_nil.mp hle)]
    | cons b t =>
      obtain ⟨_,s,rfl,ht⟩ := h.cons
      dsimp only
      by_cases hb : b = c
      · rw [if_pos hb,ih hf' ht]
        simp only [List.cons_prefix_cons,hb,true_and]
      · rw [if_neg hb,decide_eq_false fun hle => hb (List.cons_prefix_cons.mp hle).1.symm]

/-- The search finds the first match in the text before the terminator. -/
theorem strstr_text {f needle : List UInt8} (hf : Terminated f needle) (h : Terminated t s) :
    (strstr needle s = .ok none ∧ ¬ f <:+: t) ∨ ∃ a c, strstr needle s = .ok (some a.length) ∧ First f t a c := by
  induction t generalizing s with
  | nil =>
    have hstart := startsWith_text hf h
    obtain ⟨_,rest,rfl⟩ := h
    by_cases hnil : f <+: []
    · refine .inr ⟨[],[],?_,(List.prefix_nil.mp hnil).symm ▸ rfl,fun i hi => absurd hi (Nat.not_lt_zero i)⟩
      rw [List.nil_append] at hstart ⊢
      rw [strstr,hstart,ok_bind,decide_eq_true hnil]
      rfl
    · refine .inl ⟨?_,fun hin => hnil ((List.infix_nil.mp hin).symm ▸ List.nil_prefix)⟩
      rw [List.nil_append] at hstart ⊢
      rw [strstr,hstart,ok_bind,decide_eq_false hnil]
      rfl
  | cons b t ih =>
    have hstart := startsWith_text hf h
    obtain ⟨hb,s,rfl,ht⟩ := h.cons
    rw [strstr,hstart,ok_bind]
    by_cases hle : f <+: b :: t
    · obtain ⟨c,hc⟩ := hle
      refine .inr ⟨[],c,?_,hc.symm,fun i hi => absurd hi (Nat.not_lt_zero i)⟩
      rw [decide_eq_true ⟨c,hc⟩]
      rfl
    · rw [decide_eq_false hle,if_neg Bool.false_ne_true,if_neg hb]
      rcases ih ht with ⟨hnone,hnot⟩ | ⟨a,c,hsome,hfirst⟩
      · refine .inl ⟨by rw [hnone]; rfl,fun hin => (List.infix_cons_iff.mp hin).elim hle hnot⟩
      · exact .inr ⟨b :: a,c,by rw [hsome]; rfl,hfirst.cons hle⟩

theorem tolower_ne_zero (c : UInt8) (hc : c ≠ 0) : tolower c ≠ 0 := by
  unfold tolower
  split_ifs with hupper
  · intro h0
    have hlow : 65 ≤ c.toNat := UInt8.le_iff_toNat_le.mp hupper.1
    have hhigh : c.toNat ≤ 90 := UInt8.le_iff_toNat_le.mp hupper.2
    have hsum : (c + 32).toNat = (c.toNat + 32) % 256 := UInt8.toNat_add c 32
    rw [h0] at hsum
    have hzero : (0 : UInt8).toNat = 0 := rfl
    omega
  · exact hc

theorem toupper_ne_zero (c : UInt8) (hc : c ≠ 0) : toupper c ≠ 0 := by
  unfold toupper
  split_ifs with hlower
  · intro h0
    have hlow : 97 ≤ c.toNat := UInt8.le_iff_toNat_le.mp hlower.1
    have hdiff : (c - 32).toNat = c.toNat - 32 :=
      UInt8.toNat_sub_of_le c 32 (UInt8.le_iff_toNat_le.mpr (Nat.le_trans (by decide) hlow))
    rw [h0] at hdiff
    have hzero : (0 : UInt8).toNat = 0 := rfl
    omega
  · exact hc

end Specs

/-! Given blocks, no string function uses NULL. -/
section Guards

theorem strlen_guarded (s : List UInt8) : Guarded (strlen s) := by
  induction s with
  | nil => exact guarded_bounds
  | cons b s ih => exact guarded_ite (fun _ => guarded_ok _) (fun _ => guarded_map _ ih)

theorem strcpy_guarded (src : List UInt8) (dst : Block) (i : Nat) : Guarded (strcpy src dst i) := by
  induction src generalizing dst i with
  | nil => exact guarded_bounds
  | cons b src ih =>
    exact guarded_bind (store_guarded _ _ _) fun dst _ => guarded_ite (fun _ => guarded_ok _) (fun _ => ih dst _)

theorem strncpy_guarded (n : Nat) (src : List UInt8) (dst : Block) (i : Nat) : Guarded (strncpy n src dst i) := by
  induction n generalizing src dst i with
  | zero => exact guarded_ok _
  | succ n ih =>
    cases src with
    | nil => exact guarded_bounds
    | cons b src => exact guarded_bind (store_guarded _ _ _) fun dst _ => ih _ dst _

theorem strcmp_guarded (s t : List UInt8) : Guarded (strcmp s t) := by
  induction s generalizing t with
  | nil => exact guarded_bounds
  | cons a s ih =>
    cases t with
    | nil => exact guarded_bounds
    | cons b t => exact guarded_ite (fun _ => guarded_ok _) (fun _ => guarded_ite (fun _ => guarded_ok _) fun _ => ih t)

theorem strncmp_guarded (n : Nat) (s t : List UInt8) : Guarded (strncmp n s t) := by
  induction n generalizing s t with
  | zero => exact guarded_ok _
  | succ n ih =>
    cases s with
    | nil => exact guarded_bounds
    | cons a s =>
      cases t with
      | nil => exact guarded_bounds
      | cons b t =>
        exact guarded_ite (fun _ => guarded_ok _) (fun _ => guarded_ite (fun _ => guarded_ok _) fun _ => ih s t)

theorem strchr_guarded (c : UInt8) (s : List UInt8) : Guarded (strchr c s) := by
  induction s with
  | nil => exact guarded_bounds
  | cons b s ih =>
    exact guarded_ite (fun _ => guarded_ok _) (fun _ => guarded_ite (fun _ => guarded_ok _) fun _ => guarded_map _ ih)

theorem strrchr_guarded (c : UInt8) (s : List UInt8) : Guarded (strrchr c s) := by
  induction s with
  | nil => exact guarded_bounds
  | cons b s ih =>
    refine guarded_ite (fun _ => guarded_ok _) (fun _ => guarded_bind ih fun i _ => ?_)
    cases i with
    | none => exact guarded_ok _
    | some i => exact guarded_ok _

theorem startsWith_guarded (s needle : List UInt8) : Guarded (startsWith s needle) := by
  induction needle generalizing s with
  | nil =>
    rw [startsWith]
    exact guarded_bounds
  | cons c needle ih =>
    cases s with
    | nil => exact guarded_ite (fun _ => guarded_ok _) (fun _ => guarded_bounds)
    | cons b s =>
      exact guarded_ite (fun _ => guarded_ok _) (fun _ => guarded_ite (fun _ => ih s) fun _ => guarded_ok _)

theorem strstr_guarded (needle s : List UInt8) : Guarded (strstr needle s) := by
  induction s with
  | nil =>
    refine guarded_bind (startsWith_guarded _ _) fun found _ => ?_
    exact guarded_ite (fun _ => guarded_ok _) (fun _ => guarded_bounds)
  | cons b s ih =>
    refine guarded_bind (startsWith_guarded _ _) fun found _ => ?_
    exact guarded_ite (fun _ => guarded_ok _) (fun _ => guarded_ite (fun _ => guarded_ok _) fun _ => guarded_map _ ih)

end Guards

end ArduinoAT90USB.Foundation.CString
