import ArduinoAT90USB.Core.WStringGuards

/-! The queries on Strings of which either may be invalid, beside the same queries with the
empty String in its place. -/
namespace ArduinoAT90USB.Core
open Foundation Foundation.Memory Foundation.CString Foundation.TaskLogic

/-- The empty String for an invalid one. -/
def WString.orEmpty (s : WString) : WString := if s.buffer.isSome then s else ⟨some [0],0,0⟩

/-- The overloads with fewer arguments call these, from 0, `len - 1` or `len - s2.len`, and
up to `len`. -/
inductive Query
  | compareTo
  | equals
  | equalsCstr (cstr : Option (List UInt8))
  | equalsIgnoreCase
  | startsWith
  | startsWithAt (offset : UInt16)
  | endsWith
  | charAt (loc : UInt16)
  | getBytes (buf : Option Block) (bufsize index : UInt16)
  | indexOfChar (ch : UInt8) (fromIndex : UInt16)
  | indexOf (fromIndex : UInt16)
  | lastIndexOfChar (ch : UInt8) (fromIndex : UInt16)
  | lastIndexOf (fromIndex : UInt16)
  | substring (left right : UInt16)
  | toInt

inductive Query.Answer
  | order (n : Int)
  | truth (b : Bool)
  | char (c : UInt8)
  | bytes (buf : Option Block)
  | index (i : Int16)
  | string (out : WString)
  | number (n : Int32)

namespace Query

/-- The query to `s`, where it has another String with `t` as that one. -/
def run (s t : WString) : Query → Alloc Answer
  | compareTo => check (.order <$> s.compareTo t)
  | equals => check (.truth <$> s.equals t)
  | equalsCstr cstr => check (.truth <$> s.equalsCstr cstr)
  | equalsIgnoreCase => check (.truth <$> s.equalsIgnoreCase t)
  | startsWith => check (.truth <$> s.startsWith t)
  | startsWithAt offset => check (.truth <$> s.startsWithAt t offset)
  | endsWith => check (.truth <$> s.endsWith t)
  | charAt loc => check (.char <$> s.charAt loc)
  | getBytes buf bufsize index => check (.bytes <$> s.getBytes buf bufsize index)
  | indexOfChar ch fromIndex => check (.index <$> s.indexOfChar ch fromIndex)
  | indexOf fromIndex => check (.index <$> s.indexOf t fromIndex)
  | lastIndexOfChar ch fromIndex => check (.index <$> Prod.fst <$> s.lastIndexOfChar ch fromIndex)
  | lastIndexOf fromIndex => check (.index <$> s.lastIndexOf t fromIndex)
  | substring left right => .string <$> Prod.fst <$> s.substring left right
  | toInt => check (.number <$> s.toInt)

end Query

namespace WString

section Empty
variable {s t : WString} {v w : Option (List UInt8)}

theorem orEmpty_of_isSome (hs : s.buffer.isSome = true) : s.orEmpty = s := if_pos hs

theorem orEmpty_isSome (s : WString) : s.orEmpty.buffer.isSome = true := by
  unfold orEmpty
  split_ifs with hs
  · exact hs
  · rfl

theorem Shows.orEmpty_len (hs : s.Shows v) : s.orEmpty.len = s.len := by
  cases hs with
  | invalid => rfl
  | valid length allocated size => rfl

theorem Shows.pointer_drop {u : List UInt8} (hs : s.Shows (some u)) {i : Nat} (hi : i ≤ u.length) :
    ∃ rest, s.pointer i = .ok (u.drop i ++ 0 :: rest) := by
  cases hs with
  | @valid _ rest capacity len length allocated size =>
    refine ⟨rest,?_⟩
    rw [pointer_ok _ rfl (by rw [List.length_append]; omega), List.drop_append_of_le_length hi]

theorem Shows.orEmpty_shows (hs : s.Shows v) : s.orEmpty.Shows (some (v.getD [])) := by
  cases hs with
  | invalid => exact .valid (t := []) rfl rfl (by decide)
  | valid length allocated size => exact .valid length allocated size

theorem Shows.orEmpty_self (hs : s.Shows v) (hlen : s.len ≠ 0) : s.orEmpty = s := orEmpty_of_isSome (hs.isSome hlen)

/-- The first byte of a valid String, which is the terminator of an empty one. -/
theorem Shows.first (hs : s.Shows v) (hvalid : s.buffer.isSome = true) :
    ∃ c rest, s.buffer = some (c :: rest) ∧ (s.len = 0 → c = 0) := by
  cases hs with
  | invalid => cases hvalid
  | @valid t rest capacity len length allocated size =>
    cases t with
    | nil => exact ⟨0,rest,rfl,fun _ => rfl⟩
    | cons c t => exact ⟨c,t ++ 0 :: rest,rfl,fun hlen => absurd (length.symm.trans (congrArg UInt16.toNat hlen)) nofun⟩

private theorem strcmp_empty_left (c : UInt8) (rest : List UInt8) : strcmp [0] (c :: rest) = .ok (0 - c.toNat) := by
  by_cases hc : c = 0
  · subst hc
    rfl
  · rw [strcmp, if_pos (Ne.symm hc)]
    rfl

private theorem strcmp_empty_right (c : UInt8) (rest : List UInt8) : strcmp (c :: rest) [0] = .ok c.toNat := by
  by_cases hc : c = 0
  · subst hc
    rfl
  · rw [strcmp, if_pos hc]
    rfl

/-- The difference to the empty String is the first character, on either side. -/
private theorem compareTo_empty {c : UInt8} {rest : Block} {capacity len : UInt16} (hc : len = 0 → c = 0) :
    compareTo ⟨none,0,0⟩ ⟨some (c :: rest),capacity,len⟩ = .ok (0 - c.toNat) ∧
      compareTo ⟨some (c :: rest),capacity,len⟩ ⟨none,0,0⟩ = .ok c.toNat := by
  by_cases hlen : len = 0
  · obtain rfl := hc hlen
    subst hlen
    exact ⟨rfl,rfl⟩
  · have hpos : len > 0 := UInt16.pos_iff_ne_zero.mpr hlen
    constructor
    · rw [compareTo, if_pos (.inl rfl), if_pos ⟨rfl,hpos⟩]
      rfl
    · rw [compareTo, if_pos (.inr rfl), if_neg (fun h => Bool.false_ne_true h.1), if_pos ⟨rfl,hpos⟩]
      rfl

theorem compareTo_orEmpty (hs : s.Shows v) (ht : t.Shows w) : s.orEmpty.compareTo t.orEmpty = s.compareTo t := by
  by_cases hsv : s.buffer.isSome = true
  · by_cases htv : t.buffer.isSome = true
    · rw [orEmpty_of_isSome hsv, orEmpty_of_isSome htv]
    · obtain ⟨c,rest,hb,hc⟩ := hs.first hsv
      obtain ⟨b,capacity,len⟩ := s
      subst hb
      cases ht with
      | invalid => exact (strcmp_empty_right c rest).trans (compareTo_empty hc).2.symm
      | valid => exact absurd rfl htv
  · cases hs with
    | valid => exact absurd rfl hsv
    | invalid =>
      by_cases htv : t.buffer.isSome = true
      · obtain ⟨c,rest,hb,hc⟩ := ht.first htv
        obtain ⟨b,capacity,len⟩ := t
        subst hb
        exact (strcmp_empty_left c rest).trans (compareTo_empty hc).1.symm
      · cases ht with
        | invalid => rfl
        | valid => exact absurd rfl htv

theorem equals_orEmpty (hs : s.Shows v) (ht : t.Shows w) : s.orEmpty.equals t.orEmpty = s.equals t := by
  rw [equals, equals, compareTo_orEmpty hs ht, hs.orEmpty_len, ht.orEmpty_len]

theorem equalsCstr_orEmpty (hs : s.Shows v) (cstr : Option (List UInt8)) :
    s.orEmpty.equalsCstr cstr = s.equalsCstr cstr := by
  by_cases hlen : s.len = 0
  · unfold equalsCstr
    rw [hs.orEmpty_len, if_pos hlen, if_pos hlen]
  · rw [hs.orEmpty_self hlen]

theorem equalsIgnoreCase_orEmpty (hs : s.Shows v) (ht : t.Shows w) :
    s.orEmpty.equalsIgnoreCase t.orEmpty = s.equalsIgnoreCase t := by
  rw [equalsIgnoreCase, equalsIgnoreCase, hs.orEmpty_len, ht.orEmpty_len]
  split_ifs with hsame hlen
  · rfl
  · rfl
  · rw [hs.orEmpty_self hlen, ht.orEmpty_self (Classical.not_not.mp hsame ▸ hlen)]

theorem charAt_orEmpty (hs : s.Shows v) (loc : UInt16) : s.orEmpty.charAt loc = s.charAt loc := by
  by_cases hin : loc ≥ s.len
  · rw [charAt, charAt, hs.orEmpty_len, if_pos (.inl hin), if_pos (.inl hin)]
  · rw [hs.orEmpty_self (ne_zero_of_not_ge hin)]

theorem getBytes_orEmpty (hs : s.Shows v) (buf : Option Block) (bufsize index : UInt16) :
    s.orEmpty.getBytes buf bufsize index = s.getBytes buf bufsize index := by
  by_cases hin : index ≥ s.len
  · unfold getBytes
    rw [hs.orEmpty_len]
    simp only [if_pos hin]
  · rw [hs.orEmpty_self (ne_zero_of_not_ge hin)]

theorem indexOfChar_orEmpty (hs : s.Shows v) (ch : UInt8) (fromIndex : UInt16) :
    s.orEmpty.indexOfChar ch fromIndex = s.indexOfChar ch fromIndex := by
  by_cases hin : fromIndex ≥ s.len
  · rw [indexOfChar, indexOfChar, hs.orEmpty_len, if_pos hin, if_pos hin]
  · rw [hs.orEmpty_self (ne_zero_of_not_ge hin)]

theorem indexOf_orEmpty (hs : s.Shows v) {fromIndex : UInt16} (ht : ¬ fromIndex ≥ s.len → t.buffer.isSome = true) :
    s.orEmpty.indexOf t.orEmpty fromIndex = s.indexOf t fromIndex := by
  by_cases hin : fromIndex ≥ s.len
  · rw [indexOf, indexOf, hs.orEmpty_len, if_pos hin, if_pos hin]
  · rw [hs.orEmpty_self (ne_zero_of_not_ge hin), orEmpty_of_isSome (ht hin)]

theorem lastIndexOfChar_orEmpty (hs : s.Shows v) (ch : UInt8) (fromIndex : UInt16) :
    Prod.fst <$> s.orEmpty.lastIndexOfChar ch fromIndex = Prod.fst <$> s.lastIndexOfChar ch fromIndex := by
  by_cases hin : fromIndex ≥ s.len
  · rw [lastIndexOfChar, lastIndexOfChar, hs.orEmpty_len, if_pos hin, if_pos hin]
    rfl
  · rw [hs.orEmpty_self (ne_zero_of_not_ge hin)]

theorem lastIndexOf_orEmpty (hs : s.Shows v) (ht : t.Shows w) (fromIndex : UInt16) :
    s.orEmpty.lastIndexOf t.orEmpty fromIndex = s.lastIndexOf t fromIndex := by
  by_cases hnone : t.len = 0 ∨ s.len = 0 ∨ t.len > s.len
  · rw [lastIndexOf, lastIndexOf, hs.orEmpty_len, ht.orEmpty_len, if_pos hnone, if_pos hnone]
  · obtain ⟨htlen,hnone⟩ := not_or.mp hnone
    rw [hs.orEmpty_self (not_or.mp hnone).1, ht.orEmpty_self htlen]

theorem toInt_orEmpty (hs : s.Shows v) : s.orEmpty.toInt = s.toInt := by
  cases hs with
  | invalid => rfl
  | valid => rfl

/-- Beyond the end of an invalid String nothing is looked at. -/
theorem substringOrdered_orEmpty (hs : s.Shows v) {left : UInt16} (hleft : ¬ left > s.len → s.buffer.isSome = true)
    (right : UInt16) :
    Prod.fst <$> s.orEmpty.substringOrdered left right = Prod.fst <$> s.substringOrdered left right := by
  by_cases hbeyond : left > s.len
  · unfold substringOrdered
    rw [hs.orEmpty_len]
    simp only [if_pos hbeyond, map_bind, map_pure]
  · rw [orEmpty_of_isSome (hleft hbeyond)]

end Empty

section Ends
variable {s t : WString} {v w : Option (List UInt8)} {offset : UInt16}

/-- Where `startsWith` would find the second String if both were valid: an empty text anywhere
in the first, and in the empty String a text that begins with NUL. -/
def StartsEmpty (s t : WString) (offset : UInt16) : Prop :=
  (t.buffer = none ∧ offset ≤ s.len) ∨ (s.buffer = none ∧ offset = 0 ∧ t.orEmpty.get 0 = .ok 0)

theorem startsWithAt_invalid (h : s.buffer = none ∨ t.buffer = none) : s.startsWithAt t offset = .ok false :=
  if_pos (.inr (h.imp Option.isNone_iff_eq_none.mpr Option.isNone_iff_eq_none.mpr))

theorem eq_invalid (hs : s.Shows v) (hnone : s.buffer = none) : s = ⟨none,0,0⟩ := by
  cases hs with
  | invalid => rfl
  | valid => cases hnone

theorem startsWithAt_compare {c : Block} (hs : s.buffer.isSome = true) (ht : t.buffer = some c)
    (hoffset : ¬ offset > s.len - t.len) : s.startsWithAt t offset =
      s.pointer offset.toNat >>= fun p => (· == 0) <$> strncmp t.len.toNat p c := by
  have hvalid : ¬ (offset > s.len - t.len ∨ s.buffer.isNone = true ∨ t.buffer.isNone = true) := by
    obtain ⟨b,hb⟩ := Option.isSome_iff_exists.mp hs
    rw [hb, ht]
    rintro (h | h | h)
    · exact hoffset h
    · cases h
    · cases h
  have hneedle : t.pointer 0 = .ok c := pointer_ok t ht (Nat.zero_le _)
  rw [startsWithAt, if_neg hvalid, hneedle]
  rfl

theorem startsWithAt_startsEmpty (hs : s.Shows v) (ht : t.Shows w) (h : StartsEmpty s t offset) :
    s.orEmpty.startsWithAt t.orEmpty offset = .ok true := by
  rcases h with ⟨hnone,hoffset⟩ | ⟨hnone,rfl,hfirst⟩
  · obtain rfl := eq_invalid ht hnone
    have hin : ¬ offset > s.orEmpty.len - 0 := by
      rw [UInt16.sub_zero, hs.orEmpty_len]
      exact UInt16.not_lt.mpr hoffset
    obtain ⟨rest,hp⟩ := hs.orEmpty_shows.pointer_drop (i := offset.toNat)
      (hs.len_toNat ▸ UInt16.le_iff_toNat_le.mp hoffset)
    refine (startsWithAt_compare (t := ⟨some [0],0,0⟩) s.orEmpty_isSome rfl hin).trans ?_
    rw [hp]
    rfl
  · obtain rfl := eq_invalid hs hnone
    obtain ⟨c,rest,hb,_⟩ := ht.orEmpty_shows.first t.orEmpty_isSome
    rw [get, hb] at hfirst
    obtain rfl : c = 0 := Except.ok.inj hfirst
    refine (startsWithAt_compare (s := ⟨some [0],0,0⟩) rfl hb (UInt16.not_lt.mpr UInt16.zero_le)).trans ?_
    cases t.orEmpty.len.toNat with
    | zero => rfl
    | succ n => rfl

private theorem strncmp_empty {c : UInt8} (hc : c ≠ 0) (n : Nat) (rest : List UInt8) :
    strncmp (n + 1) [0] (c :: rest) = .ok (0 - c.toNat) := by
  rw [strncmp, if_pos (Ne.symm hc)]
  rfl

/-- The empty String starts with no other text; past its terminator the comparison is out of
bounds. -/
private theorem empty_startsWithAt (ht : t.Shows w) (hvalid : t.buffer.isSome = true)
    (hfirst : offset = 0 → t.get 0 ≠ .ok 0) : startsWithAt ⟨some [0],0,0⟩ t offset ≠ .ok true := by
  intro hok
  obtain ⟨c,rest,hb,hzero⟩ := ht.first hvalid
  by_cases hpast : offset > 0 - t.len
  · rw [startsWithAt, if_pos (.inl hpast)] at hok
    cases hok
  · rw [startsWithAt_compare (s := ⟨some [0],0,0⟩) rfl hb hpast] at hok
    have hget : t.get 0 = .ok c := by rw [get, hb]; rfl
    by_cases hlen : t.len = 0
    · rw [hlen] at hpast
      exact hfirst (UInt16.le_zero_iff.mp (UInt16.not_lt.mp hpast)) (hget.trans (congrArg Except.ok (hzero hlen)))
    · obtain ⟨n,hn⟩ := Nat.exists_eq_add_one_of_ne_zero fun h0 => hlen (UInt16.toNat_inj.mp h0)
      rw [hn] at hok
      cases hi : offset.toNat with
      | zero =>
        have hc : c ≠ 0 := fun hc => hfirst (UInt16.toNat_inj.mp hi) (hget.trans (congrArg Except.ok hc))
        have hp : pointer ⟨some [0],0,0⟩ 0 = .ok [0] := rfl
        rw [hi, hp, ok_bind, strncmp_empty hc] at hok
        have hdiff : (0 : Int) - c.toNat = 0 := beq_iff_eq.mp (Except.ok.inj hok)
        exact hc (UInt8.toNat_inj.mp (by rw [UInt8.toNat_zero]; omega))
      | succ i =>
        rw [hi] at hok
        cases i with
        | zero => cases hok
        | succ i =>
          have hp : pointer ⟨some [0],0,0⟩ (i + 1 + 1) = .error .bounds := by
            rw [pointer, deref, ok_bind, if_neg (by simp)]
          rw [hp] at hok
          cases hok

theorem startsWithAt_orEmpty (hs : s.Shows v) (ht : t.Shows w) (h : ¬ StartsEmpty s t offset) {found : Bool}
    (hfound : s.orEmpty.startsWithAt t.orEmpty offset = .ok found) : s.startsWithAt t offset = .ok found := by
  obtain ⟨hneedle,hhay⟩ := not_or.mp h
  by_cases htv : t.buffer = none
  · rw [startsWithAt_invalid (.inr htv)]
    obtain rfl := eq_invalid ht htv
    have hpast : offset > s.orEmpty.len - 0 := by
      rw [UInt16.sub_zero, hs.orEmpty_len]
      exact UInt16.not_le.mp fun hle => hneedle ⟨rfl,hle⟩
    rwa [startsWithAt, if_pos (.inl hpast)] at hfound
  · have htv : t.buffer.isSome = true := Option.isSome_iff_ne_none.mpr htv
    rw [orEmpty_of_isSome htv] at hfound hhay
    by_cases hsv : s.buffer = none
    · rw [startsWithAt_invalid (.inl hsv)]
      obtain rfl := eq_invalid hs hsv
      cases found with
      | false => rfl
      | true => exact absurd hfound (empty_startsWithAt ht htv fun h0 hget => hhay ⟨rfl,h0,hget⟩)
    · rwa [orEmpty_of_isSome (Option.isSome_iff_ne_none.mpr hsv)] at hfound

/-- The second String is empty and would be found if both were valid. -/
def EndsEmpty (s t : WString) : Prop := (s.buffer = none ∨ t.buffer = none) ∧ t.len = 0

theorem startsEmpty_iff (hs : s.Shows v) (ht : t.Shows w) (hlen : ¬ s.len < t.len) :
    StartsEmpty s t 0 ↔ EndsEmpty s t := by
  constructor
  · rintro (⟨hnone,_⟩ | ⟨hnone,_,_⟩)
    · exact ⟨.inr hnone,by rw [eq_invalid ht hnone]⟩
    · rw [eq_invalid hs hnone] at hlen
      exact ⟨.inl hnone,UInt16.le_zero_iff.mp (UInt16.not_lt.mp hlen)⟩
  · rintro ⟨hnone | hnone,hzero⟩
    · obtain ⟨c,rest,hb,hc⟩ := ht.orEmpty_shows.first t.orEmpty_isSome
      refine .inr ⟨hnone,rfl,?_⟩
      rw [get, hb, hc (ht.orEmpty_len.trans hzero)]
      rfl
    · exact .inl ⟨hnone,UInt16.zero_le⟩

theorem startsWith_invalid (h : s.buffer = none ∨ t.buffer = none) : s.startsWith t = .ok false := by
  unfold startsWith
  split_ifs
  · rfl
  · exact startsWithAt_invalid h

theorem startsWith_endsEmpty (hs : s.Shows v) (ht : t.Shows w) (h : EndsEmpty s t) :
    s.orEmpty.startsWith t.orEmpty = .ok true := by
  have hlen : ¬ s.len < t.len := by
    rw [h.2]
    exact UInt16.not_lt.mpr UInt16.zero_le
  rw [startsWith, hs.orEmpty_len, ht.orEmpty_len, if_neg hlen]
  exact startsWithAt_startsEmpty hs ht ((startsEmpty_iff hs ht hlen).mpr h)

theorem startsWith_orEmpty (hs : s.Shows v) (ht : t.Shows w) (h : ¬ EndsEmpty s t) {found : Bool}
    (hfound : s.orEmpty.startsWith t.orEmpty = .ok found) : s.startsWith t = .ok found := by
  rw [startsWith, hs.orEmpty_len, ht.orEmpty_len] at hfound
  unfold startsWith
  split_ifs at hfound ⊢ with hlen
  · exact hfound
  · exact startsWithAt_orEmpty hs ht (fun hempty => h ((startsEmpty_iff hs ht hlen).mp hempty)) hfound

theorem endsWith_invalid (h : s.buffer = none ∨ t.buffer = none) : s.endsWith t = .ok false :=
  if_pos (.inr (h.imp Option.isNone_iff_eq_none.mpr Option.isNone_iff_eq_none.mpr))

theorem endsWith_endsEmpty (hs : s.Shows v) (ht : t.Shows w) (h : EndsEmpty s t) :
    s.orEmpty.endsWith t.orEmpty = .ok true := by
  have hs' := hs.orEmpty_shows
  have ht' := ht.orEmpty_shows
  have hzero : t.orEmpty.len = 0 := ht.orEmpty_len.trans h.2
  have hvalid : ¬ (s.orEmpty.len < t.orEmpty.len ∨ s.orEmpty.buffer.isNone = true ∨ t.orEmpty.buffer.isNone = true) := by
    rw [hzero, Option.isNone_eq_false_iff.mpr s.orEmpty_isSome, Option.isNone_eq_false_iff.mpr t.orEmpty_isSome]
    rintro (hlt | hnone | hnone)
    · exact UInt16.not_lt.mpr UInt16.zero_le hlt
    · cases hnone
    · cases hnone
  obtain ⟨rest,hend⟩ := hs'.pointer_drop (Nat.le_refl _)
  obtain ⟨c,rest',hb,hc⟩ := ht'.first t.orEmpty_isSome
  have hneedle : t.orEmpty.pointer 0 = .ok (0 :: rest') := by
    rw [pointer_ok _ hb (Nat.zero_le _), hc hzero]
    rfl
  have hlength : s.orEmpty.len.toNat = (v.getD []).length := hs'.len_toNat
  rw [List.drop_length, ← hlength] at hend
  rw [endsWith, if_neg hvalid, hzero, UInt16.sub_zero, hend, hneedle]
  rfl

theorem endsWith_orEmpty (hs : s.Shows v) (ht : t.Shows w) (h : ¬ EndsEmpty s t) :
    s.orEmpty.endsWith t.orEmpty = s.endsWith t := by
  by_cases hlen : s.len < t.len
  · rw [endsWith, endsWith, hs.orEmpty_len, ht.orEmpty_len, if_pos (.inl hlen), if_pos (.inl hlen)]
  · by_cases hzero : t.len = 0
    · obtain ⟨hsv,htv⟩ := not_or.mp fun hnone => h ⟨hnone,hzero⟩
      rw [orEmpty_of_isSome (Option.isSome_iff_ne_none.mpr hsv), orEmpty_of_isSome (Option.isSome_iff_ne_none.mpr htv)]
    · have hslen : s.len ≠ 0 := fun h0 => hlen (h0 ▸ UInt16.pos_iff_ne_zero.mpr hzero)
      rw [hs.orEmpty_self hslen, ht.orEmpty_self hzero]

end Ends

end WString

namespace Query
variable {q : Query} {s t : WString} {v w : Option (List UInt8)} {h : Heap}

/-- NULL is not used, and whenever the query has an answer for the empty String in the place
of an invalid one, it gives that. -/
structure Harmless (q : Query) (s t : WString) (h : Heap) : Prop where
  guarded : GuardedRun (fun _ => True) (q.run s t h)
  empty : ∀ a h', q.run s.orEmpty t.orEmpty h = .ok a h' → q.run s t h = .ok a h'

/-- The queries an invalid String goes wrong in: those that find an empty text, the search
for an invalid String, and the part of one that begins at 0. -/
def Confuses (s t : WString) : Query → Prop
  | startsWith | endsWith => s.EndsEmpty t
  | startsWithAt offset => s.StartsEmpty t offset
  | indexOf fromIndex => t.buffer = none ∧ fromIndex < s.len
  | substring left right => s.buffer = none ∧ (left = 0 ∨ right = 0)
  | _ => False

private theorem harmless_check {α : Type} {f : α → Answer} {x : WString → WString → Checked α}
    (hrun : ∀ s t, q.run s t = check (f <$> x s t)) (hguard : Guarded (x s t))
    (hagree : ∀ a, x s.orEmpty t.orEmpty = .ok a → x s t = .ok a) : q.Harmless s t h := by
  constructor
  · rw [hrun]
    exact guardedRun_check (guarded_map f hguard) fun _ _ => trivial
  · intro a h' hok
    rw [hrun] at hok ⊢
    cases hx : x s.orEmpty t.orEmpty with
    | error e =>
      rw [hx] at hok
      cases hok
    | ok b =>
      rw [hx] at hok
      rw [hagree b hx]
      exact hok

private theorem harmless_eq {α : Type} {f : α → Answer} {x : WString → WString → Checked α}
    (hrun : ∀ s t, q.run s t = check (f <$> x s t)) (hguard : Guarded (x s t)) (heq : x s.orEmpty t.orEmpty = x s t) :
    q.Harmless s t h :=
  harmless_check hrun hguard fun _ ha => heq.symm.trans ha

private theorem not_harmless_truth {x : WString → WString → Checked Bool}
    (hrun : ∀ s t, q.run s t = check (.truth <$> x s t)) (hx : x s t = .ok false)
    (hempty : x s.orEmpty t.orEmpty = .ok true) : ¬ q.Harmless s t h := by
  intro hh
  have hok := hh.empty (.truth true) h (by rw [hrun, hempty]; rfl)
  rw [hrun, hx] at hok
  cases hok

/-- The lower bound of a part decides whether the buffer is touched. -/
private theorem substring_ordered (left right : UInt16) : ∃ lower upper, (lower = 0 ↔ left = 0 ∨ right = 0) ∧
    ∀ s : WString, s.substring left right = s.substringOrdered lower upper := by
  by_cases hswap : left > right
  · refine ⟨right,left,⟨.inr,?_⟩,fun s => if_pos hswap⟩
    rintro (rfl | hright)
    · exact absurd hswap (UInt16.not_lt.mpr UInt16.zero_le)
    · exact hright
  · refine ⟨left,right,⟨.inl,?_⟩,fun s => if_neg hswap⟩
    rintro (hleft | rfl)
    · exact hleft
    · exact UInt16.le_zero_iff.mp (UInt16.not_lt.mp hswap)

private theorem harmless_substring (hs : s.Shows v) {left right : UInt16}
    (hq : ¬ Confuses s t (.substring left right)) : (substring left right).Harmless s t h := by
  obtain ⟨lower,upper,hlower,hordered⟩ := substring_ordered left right
  have hvalid : ¬ lower > s.len → s.buffer.isSome = true := by
    intro hin
    refine Option.isSome_iff_ne_none.mpr fun hnone => ?_
    rw [WString.eq_invalid hs hnone] at hin
    exact hq ⟨hnone,hlower.mp (UInt16.le_zero_iff.mp (UInt16.not_lt.mp hin))⟩
  constructor
  · rw [run, hordered]
    exact guardedRun_map _ (guardedRun_map _ (WString.substringOrdered_guarded hvalid upper h))
  · intro a h' hok
    rwa [run, hordered, WString.substringOrdered_orEmpty hs hvalid, ← hordered] at hok

theorem harmless (hs : s.Shows v) (ht : t.Shows w) (hq : ¬ q.Confuses s t) : q.Harmless s t h := by
  cases q with
  | compareTo => exact harmless_eq (fun _ _ => rfl) (s.compareTo_guarded t) (WString.compareTo_orEmpty hs ht)
  | equals => exact harmless_eq (fun _ _ => rfl) (s.equals_guarded t) (WString.equals_orEmpty hs ht)
  | equalsCstr cstr =>
    exact harmless_eq (x := fun s _ => s.equalsCstr cstr) (fun _ _ => rfl) (WString.equalsCstr_guarded hs cstr)
      (WString.equalsCstr_orEmpty hs cstr)
  | equalsIgnoreCase =>
    exact harmless_eq (fun _ _ => rfl) (WString.equalsIgnoreCase_guarded hs ht) (WString.equalsIgnoreCase_orEmpty hs ht)
  | startsWith =>
    exact harmless_check (fun _ _ => rfl) (s.startsWith_guarded t) fun a => WString.startsWith_orEmpty hs ht hq
  | startsWithAt offset =>
    exact harmless_check (x := fun s t => s.startsWithAt t offset) (fun _ _ => rfl) (s.startsWithAt_guarded t offset)
      fun a => WString.startsWithAt_orEmpty hs ht hq
  | endsWith => exact harmless_eq (fun _ _ => rfl) (s.endsWith_guarded t) (WString.endsWith_orEmpty hs ht hq)
  | charAt loc =>
    exact harmless_eq (x := fun s _ => s.charAt loc) (fun _ _ => rfl) (s.charAt_guarded loc)
      (WString.charAt_orEmpty hs loc)
  | getBytes buf bufsize index =>
    exact harmless_eq (x := fun s _ => s.getBytes buf bufsize index) (fun _ _ => rfl)
      (WString.getBytes_guarded hs buf bufsize index) (WString.getBytes_orEmpty hs buf bufsize index)
  | indexOfChar ch fromIndex =>
    exact harmless_eq (x := fun s _ => s.indexOfChar ch fromIndex) (fun _ _ => rfl)
      (WString.indexOfChar_guarded hs ch fromIndex) (WString.indexOfChar_orEmpty hs ch fromIndex)
  | indexOf fromIndex =>
    have hneedle (hin : ¬ fromIndex ≥ s.len) : t.buffer.isSome = true :=
      Option.isSome_iff_ne_none.mpr fun hnone => hq ⟨hnone,UInt16.not_le.mp hin⟩
    exact harmless_eq (x := fun s t => s.indexOf t fromIndex) (fun _ _ => rfl) (WString.indexOf_guarded hs hneedle)
      (WString.indexOf_orEmpty hs hneedle)
  | lastIndexOfChar ch fromIndex =>
    exact harmless_eq (x := fun s _ => Prod.fst <$> s.lastIndexOfChar ch fromIndex) (fun _ _ => rfl)
      (guarded_map _ (WString.lastIndexOfChar_guarded hs ch fromIndex)) (WString.lastIndexOfChar_orEmpty hs ch fromIndex)
  | lastIndexOf fromIndex =>
    exact harmless_eq (x := fun s t => s.lastIndexOf t fromIndex) (fun _ _ => rfl)
      (WString.lastIndexOf_guarded hs ht fromIndex) (WString.lastIndexOf_orEmpty hs ht fromIndex)
  | substring left right => exact harmless_substring hs hq
  | toInt =>
    exact harmless_eq (x := fun s _ => s.toInt) (fun _ _ => rfl) s.toInt_guarded (WString.toInt_orEmpty hs)

private theorem indexOf_null (hs : s.Shows v) {fromIndex : UInt16} (hnone : t.buffer = none) (hin : fromIndex < s.len) :
    s.indexOf t fromIndex = .error .null := by
  have hvalid := hs.orEmpty_self (WString.ne_zero_of_not_ge (UInt16.not_le.mpr hin))
  have hle : fromIndex.toNat ≤ (v.getD []).length := hs.len_toNat ▸ Nat.le_of_lt (UInt16.lt_iff_toNat_lt.mp hin)
  obtain ⟨rest,hp⟩ := hs.orEmpty_shows.pointer_drop hle
  rw [hvalid] at hp
  rw [WString.indexOf, if_neg (UInt16.not_le.mpr hin), hp, ok_bind, WString.pointer, hnone]
  rfl

private theorem substringOrdered_null (right : UInt16) (h : Heap) :
    ∃ h', WString.substringOrdered ⟨none,0,0⟩ 0 right h = .error .null h' := by
  obtain ⟨h',out,hout,_⟩ := WString.assignCstr_spec .invalid (t := []) ⟨List.not_mem_nil,[],rfl⟩ (by decide) h
  refine ⟨h',?_⟩
  rw [WString.substringOrdered, bind_ok (show WString.construct 10 (.cstr (some [0])) h = _ from hout)]
  rfl

theorem not_harmless (hs : s.Shows v) (ht : t.Shows w) (hq : q.Confuses s t) : ¬ q.Harmless s t h := by
  cases q with
  | startsWith =>
    exact not_harmless_truth (fun _ _ => rfl) (WString.startsWith_invalid hq.1) (WString.startsWith_endsEmpty hs ht hq)
  | startsWithAt offset =>
    exact not_harmless_truth (x := fun s t => s.startsWithAt t offset) (fun _ _ => rfl)
      (WString.startsWithAt_invalid (hq.elim (fun h => .inr h.1) fun h => .inl h.1))
      (WString.startsWithAt_startsEmpty hs ht hq)
  | endsWith =>
    exact not_harmless_truth (fun _ _ => rfl) (WString.endsWith_invalid hq.1) (WString.endsWith_endsEmpty hs ht hq)
  | indexOf fromIndex =>
    intro hh
    have hguard := hh.guarded
    rw [run, indexOf_null hs hq.1 hq.2] at hguard
    exact hguard rfl
  | substring left right =>
    intro hh
    have hguard := hh.guarded
    obtain ⟨lower,upper,hlower,hordered⟩ := substring_ordered left right
    obtain ⟨h',hnull⟩ := substringOrdered_null upper h
    rw [run, hordered, WString.eq_invalid hs hq.1, hlower.mpr hq.2, map_eq_pure_bind, map_eq_pure_bind,
      bind_error (bind_error hnull _)] at hguard
    exact hguard rfl
  | compareTo | equals | equalsCstr | equalsIgnoreCase | charAt | getBytes | indexOfChar | lastIndexOfChar | lastIndexOf
  | toInt => exact hq.elim

end Query

/-- A String as calls leave it, and its text unless it is invalid. -/
structure ShownString where
  object : WString
  text : Option (List UInt8)
  shows : object.Shows text

/-- An invalid String is taken for the empty one and NULL left alone, except where a test
for an empty text fails, where an invalid String is searched for, and where a part of one
begins at 0. -/
theorem queries_harmless (q : Query) (s t : ShownString) (h : Heap) :
    q.Harmless s.object t.object h ↔ ¬ q.Confuses s.object t.object :=
  ⟨fun hh hq => Query.not_harmless s.shows t.shows hq hh,Query.harmless s.shows t.shows⟩

/-- NULL is searched for in "a". -/
theorem indexOf_invalid_null : ¬ (Query.indexOf 0).Harmless ⟨some [97, 0],1,1⟩ ⟨none,0,0⟩ ⟨fun _ => none,0⟩ :=
  fun hh => hh.guarded rfl

end ArduinoAT90USB.Core
