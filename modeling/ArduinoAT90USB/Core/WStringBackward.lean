import ArduinoAT90USB.Core.WStringShrink

/-! `replace` by a longer text: the matches are counted from the left and replaced from the right,
in a block that was made large enough for as many as were counted. -/
namespace ArduinoAT90USB.Core
open Foundation Foundation.Memory Foundation.CString Foundation.TaskLogic Foundation.Substitution
  Foundation.Loop Foundation.AvrInt

namespace WString
variable {f r needle : List UInt8}

section LastIndex
variable {t : List UInt8} {b : Block} {fromIndex : Nat}

theorem lastIndexLoop_text (hneedle : Terminated f needle) (hb : Terminated t b) (hfrom : fromIndex < t.length) {fuel p : Nat}
    (hpos : 0 < fuel) (hfuel : fromIndex + 1 < fuel + p) (found : Int16) :
    (lastIndexLoop needle b fromIndex fuel p found = .ok found ∧ ∀ j, p ≤ j → j ≤ fromIndex → ¬ f <+: b.drop j) ∨
      ∃ k, lastIndexLoop needle b fromIndex fuel p found = .ok (Int16.ofNat k) ∧ p ≤ k ∧ k ≤ fromIndex ∧ f <+: b.drop k ∧
        ∀ j, k < j → j ≤ fromIndex → ¬ f <+: b.drop j := by
  obtain ⟨hclean,rest,rfl⟩ := hb
  have hsees {j : Nat} (hj : j ≤ fromIndex) : f <+: (t ++ 0 :: rest).drop j ↔ f <+: t.drop j := by
    rw [List.drop_append_of_le_length (by omega),prefix_text hneedle.clean]
  induction fuel generalizing p found with
  | zero => exact absurd hpos (Nat.lt_irrefl 0)
  | succ fuel ih =>
    rw [lastIndexLoop]
    by_cases hp : p ≤ fromIndex
    · rw [if_pos hp]
      have hrest : Terminated (t.drop p) ((t ++ 0 :: rest).drop p) := by
        rw [List.drop_append_of_le_length (by omega)]
        exact ⟨fun h0 => hclean (List.mem_of_mem_drop h0),rest,rfl⟩
      rcases strstr_text hneedle hrest with ⟨hsearch,hnone⟩ | ⟨a,c,hsearch,hfirst⟩
      · rw [hsearch]
        refine .inl ⟨rfl,fun j hpj hj hmatch => hnone ?_⟩
        have hsuffix := List.drop_suffix (j - p) (t.drop p)
        rw [List.drop_drop,Nat.add_sub_cancel' hpj] at hsuffix
        exact ((hsees hj).mp hmatch).isInfix.trans hsuffix.isInfix
      · rw [hsearch]
        dsimp only [ok_bind]
        have hbefore {j : Nat} (hpj : p ≤ j) (hlt : j < p + a.length) (hj : j ≤ fromIndex) : ¬ f <+: (t ++ 0 :: rest).drop j := by
          have := hfirst.earliest (j - p) (by omega)
          rwa [List.drop_drop,Nat.add_sub_cancel' hpj,← hsees hj] at this
        rcases ih (p := p + a.length + 1) (by omega) (by omega)
            (if p + a.length ≤ fromIndex then Int16.ofNat (p + a.length) else found) with
          ⟨hloop,hnone⟩ | ⟨k,hloop,hpk,hk,hmatch,hafter⟩
        · by_cases hat : p + a.length ≤ fromIndex
          · rw [if_pos hat] at hloop ⊢
            refine .inr ⟨p + a.length,hloop,by omega,hat,?_,fun j hlt hj => hnone j hlt hj⟩
            rw [hsees hat,← List.drop_drop,hfirst.split,List.drop_left]
            exact List.prefix_append f c
          · rw [if_neg hat] at hloop ⊢
            exact .inl ⟨hloop,fun j hpj hj => hbefore hpj (by omega) hj⟩
        · exact .inr ⟨k,hloop,by omega,hk,hmatch,hafter⟩
    · rw [if_neg hp]
      exact .inl ⟨rfl,fun j hpj hj => absurd (Nat.le_trans hpj hj) hp⟩

theorem lastIndexOf_text {s find : WString} {v tail rest : List UInt8} (hb : s.buffer = some (v ++ (tail ++ 0 :: rest)))
    (hlen : s.len.toNat = (v ++ tail).length) (hv : 0 ∉ v) (hfind : find.Shows (some f)) (hclean : 0 ∉ f) (hf : f ≠ [])
    {index : UInt16} (hindex : index.toNat + 1 = v.length) :
    (s.lastIndexOf find index = .ok (-1) ∧ ¬ BeginsIn f v tail) ∨
      ∃ a y, s.lastIndexOf find index = .ok (Int16.ofNat a.length) ∧ Last f v tail a y := by
  obtain ⟨frest,hneedle,_⟩ := hfind.block
  have hflen : find.len.toNat = f.length := hfind.len_toNat
  rw [List.length_append] at hlen
  have hs0 : s.len ≠ 0 := fun h0 => by rw [h0,UInt16.toNat_zero] at hlen; omega
  rw [lastIndexOf]
  by_cases hlong : find.len > s.len
  · rw [if_pos (.inr (.inr hlong))]
    refine .inl ⟨rfl,?_⟩
    rintro ⟨i,hi,hmatch⟩
    have hmore := UInt16.lt_iff_toNat_lt.mp hlong
    have hle := hmatch.length_le
    rw [List.length_drop,List.length_append] at hle
    omega
  · obtain ⟨t,⟨ht,rest',hrest⟩,_⟩ := terminated_before tail rest
    have htext : Terminated (v ++ t) (v ++ (tail ++ 0 :: rest)) :=
      ⟨fun h0 => (List.mem_append.mp h0).elim hv ht,rest',by rw [hrest,List.append_assoc]⟩
    have hinside : ¬ index ≥ s.len := by
      intro hge
      have := UInt16.le_iff_toNat_le.mp hge
      omega
    rw [if_neg (by simp only [not_or]; exact ⟨len_ne_zero hflen hf,hs0,hlong⟩),pointer_ok s hb (Nat.zero_le _),
      pointer_ok find hneedle (Nat.zero_le _)]
    dsimp only [ok_bind]
    rw [if_neg hinside,List.drop_zero,List.drop_zero]
    have hin : index.toNat < (v ++ t).length := by
      rw [List.length_append]
      omega
    have hfuel : 0 < index.toNat + 2 := Nat.succ_pos _
    have hsees {i : Nat} (hi : i ≤ index.toNat) : f <+: (v ++ (tail ++ 0 :: rest)).drop i ↔ f <+: (v ++ tail).drop i := by
      rw [← List.append_assoc,List.drop_append_of_le_length (by rw [List.length_append]; omega),prefix_text hclean]
    rcases lastIndexLoop_text (p := 0) ⟨hclean,frest,rfl⟩ htext hin hfuel (Nat.lt_succ_self _) (-1) with
      ⟨hloop,hnone⟩ | ⟨k,hloop,_,hk,hmatch,hafter⟩
    · exact .inl ⟨hloop,fun ⟨i,hi,hmatch⟩ => hnone i (Nat.zero_le i) (by omega) ((hsees (by omega)).mpr hmatch)⟩
    · obtain ⟨y,hmatch⟩ := (hsees hk).mp hmatch
      have hlength : ((v ++ tail).take k).length = k := by
        rw [List.length_take,List.length_append]
        omega
      refine .inr ⟨(v ++ tail).take k,y,by rw [hlength]; exact hloop,?_,by omega,?_⟩
      · rw [hmatch,List.take_append_drop]
      · intro i hlt hi hmatch
        exact hafter i (by omega) (by omega) ((hsees (by omega)).mpr hmatch)

end LastIndex

section Turn
variable (find : WString) (text : List UInt8) (replaceLen diff : UInt16)

/-- The match at `index` is replaced, and what comes after it moves up. -/
def splice (s : WString) (index : Int16) : Checked WString := do
  let readFrom := index.toUInt16.toNat + find.len.toNat
  let b ← deref s.buffer
  let b ← memmove (s.len - UInt16.ofNat readFrom).toNat b (readFrom + diff.toNat) readFrom
  let b ← store b (s.len + diff).toNat 0
  let b ← memcpy replaceLen.toNat text b index.toUInt16.toNat
  pure {s with buffer := some b, len := s.len + diff}

/-- A turn of the loop for a longer text, over the String and `index`. -/
def longerTurn (p : WString × Int16) : Checked (Option (WString × Int16)) :=
  if p.2 < 0 then pure none
  else do
    let index ← p.1.lastIndexOf find p.2.toUInt16
    if index < 0 then pure none
    else
      let s ← splice find text replaceLen diff p.1 index
      pure (some (s, index - 1))

theorem replaceLonger_loop (fuel : Nat) (p : WString × Int16) :
    replaceLonger find text replaceLen diff fuel p.1 p.2 = Prod.fst <$> loop (longerTurn find text replaceLen diff) fuel p := by
  induction fuel generalizing p with
  | zero => rfl
  | succ fuel ih =>
    rw [replaceLonger,loop,longerTurn]
    by_cases hp : p.2 < 0
    · rw [if_pos hp,if_pos hp]
      rfl
    · rw [if_neg hp,if_neg hp]
      cases p.1.lastIndexOf find p.2.toUInt16 with
      | error e => rfl
      | ok index =>
        dsimp only [ok_bind]
        by_cases hindex : index < 0
        · rw [if_pos hindex,if_pos hindex]
          rfl
        · rw [if_neg hindex,if_neg hindex,splice]
          simp only [bind_assoc,pure_bind,map_bind,← ih]

end Turn

section Splice
variable {s s' find : WString} {text a y rest : List UInt8} {replaceLen : UInt16}
  (hb : s.buffer = some (a ++ (f ++ (y ++ 0 :: rest)))) (hlen : s.len.toNat = a.length + f.length + y.length)
  (hflen : find.len.toNat = f.length) (htext : Supplies text replaceLen r) (hlt : f.length < r.length)
  (ha : a.length < 32768)
include hb hlen hflen htext hlt ha

private theorem splice_eq : splice find text replaceLen (replaceLen - find.len) s (Int16.ofNat a.length) = (do
    let b ← memmove y.length (a ++ f ++ (y ++ 0 :: rest)) ((a ++ f).length + (r.length - f.length)) (a ++ f).length
    let b ← store b (s.len + (replaceLen - find.len)).toNat 0
    let b ← memcpy replaceLen.toNat text b a.length
    pure {s with buffer := some b, len := s.len + (replaceLen - find.len)}) := by
  have hdiff : (replaceLen - find.len).toNat = r.length - f.length := by
    have := htext.length
    have := replaceLen.toNat_lt
    rw [UInt16.toNat_sub]
    omega
  have hread : (s.len - UInt16.ofNat (a ++ f).length).toNat = y.length := by
    have := s.len.toNat_lt
    rw [UInt16.toNat_sub,List.length_append,UInt16.toNat_ofNat_of_lt' (show a.length + f.length < 65536 by omega)]
    omega
  rw [splice,hb,(int16_ofNat ha).2.1,hflen,hdiff,← List.length_append,hread,List.append_assoc]
  rfl

/-- If there is room for the longer text, it takes the place of the match. -/
theorem splice_fits (hblock : (a ++ (f ++ (y ++ 0 :: rest))).length < 65536)
    (hroom : a.length + r.length + y.length < (a ++ (f ++ (y ++ 0 :: rest))).length) :
    ∃ rest', splice find text replaceLen (replaceLen - find.len) s (Int16.ofNat a.length) =
      .ok {s with buffer := some (a ++ (r ++ (y ++ 0 :: rest'))), len := s.len + (replaceLen - find.len)} ∧
        (a ++ (r ++ (y ++ 0 :: rest'))).length = (a ++ (f ++ (y ++ 0 :: rest))).length ∧
        (s.len + (replaceLen - find.len)).toNat = a.length + r.length + y.length := by
  have hnewlen : (s.len + (replaceLen - find.len)).toNat = a.length + r.length + y.length := by
    have := htext.length
    rw [UInt16.toNat_add,UInt16.toNat_sub]
    omega
  simp only [List.length_append,List.length_cons] at hblock hroom
  obtain ⟨gap,post,hmove,hgap,hpost⟩ := memmove_up (a ++ f) y (0 :: rest) (show r.length - f.length ≤ (0 :: rest).length by
    rw [List.length_cons]
    omega)
  rw [List.length_cons] at hpost
  obtain ⟨z,rest',rfl⟩ := List.exists_cons_of_length_pos (show 0 < post.length by omega)
  rw [List.length_cons] at hpost
  have hat : (a ++ f ++ (gap ++ y)).length = a.length + r.length + y.length := by
    simp only [List.length_append]
    omega
  have hstore := store_append (a ++ f ++ (gap ++ y)) rest' z 0
  rw [hat] at hstore
  have hold : (f ++ gap).length = r.length := by
    rw [List.length_append]
    omega
  have hcopy := htext.memcpy a hold (y ++ 0 :: rest')
  refine ⟨rest',?_,?_,hnewlen⟩
  · rw [splice_eq hb hlen hflen htext hlt ha,hmove,ok_bind,hnewlen]
    simp only [List.append_assoc] at hstore hcopy ⊢
    rw [hstore,ok_bind,hcopy]
    rfl
  · simp only [List.length_append,List.length_cons]
    omega

/-- Nothing is written outside the block only if there is room. -/
theorem room_of_splice (h : splice find text replaceLen (replaceLen - find.len) s (Int16.ofNat a.length) = .ok s')
    (hblock : (a ++ (f ++ (y ++ 0 :: rest))).length < 65536) :
    a.length + r.length + y.length < (a ++ (f ++ (y ++ 0 :: rest))).length := by
  rw [splice_eq hb hlen hflen htext hlt ha,List.append_assoc] at h
  obtain ⟨b₁,hmove,h⟩ := bind_eq_ok h
  obtain ⟨b₂,hstore,h⟩ := bind_eq_ok h
  obtain ⟨b₃,hcopy,_⟩ := bind_eq_ok h
  obtain ⟨hsame,hmoved⟩ := memmove_length hmove
  obtain ⟨hsame',hinside⟩ := store_length hstore
  obtain ⟨_,hcopied⟩ := memcpy_length hcopy
  have hrlen := htext.length
  rw [UInt16.toNat_add,UInt16.toNat_sub,hsame] at hinside
  rw [hsame',hsame] at hcopied
  simp only [List.length_append,List.length_cons] at hblock hmoved hinside hcopied ⊢
  omega

end Splice

/-- The text `v` is still to be searched, from its end. Of what comes after it a match can see no more than `trail`. -/
structure Stage (f v trail tail : List UInt8) (capacity : UInt16) (p : WString × Int16) : Prop where
  shows : p.1.Shows (some (v ++ tail))
  capacity : p.1.capacity = capacity
  clean : 0 ∉ v
  small : v.length ≤ 32768
  index : p.2 = Int16.ofNat v.length - 1
  seen : tail = trail ∨ f.length ≤ trail.length ∧ trail <+: tail

section Stages
variable {find : WString} {text v trail tail : List UInt8} {replaceLen capacity : UInt16} {p : WString × Int16}

theorem Stage.beginsIn_iff (h : Stage f v trail tail capacity p) (l : List UInt8) :
    BeginsIn f l tail ↔ BeginsIn f l trail := by
  rcases h.seen with rfl | ⟨hlong,x,rfl⟩
  · rfl
  · exact beginsIn_append (Nat.le_succ_of_le hlong) x

theorem Stage.index_toInt (h : Stage f v trail tail capacity p) : p.2.toInt + 1 = v.length := by
  have hsmall := h.small
  rw [h.index]
  cases hn : v.length with
  | zero => rfl
  | succ n =>
    rw [int16_ofNat_pred,(int16_ofNat (by omega)).2.2]
    rfl

/-- A turn ends the loop if no match is left. Otherwise the last one is replaced if there is room for that. -/
theorem longerTurn_stage (h : Stage f v trail tail capacity p) (hfind : find.Shows (some f)) (hclean : 0 ∉ f) (hf : f ≠ [])
    (htext : Supplies text replaceLen r) (hlt : f.length < r.length) :
    (longerTurn find text replaceLen (replaceLen - find.len) p = .ok none ∧ ¬ BeginsIn f v tail) ∨
      ∃ a y, Last f v tail a y ∧
        (a.length + r.length + y.length ≤ capacity.toNat → ∃ p',
          longerTurn find text replaceLen (replaceLen - find.len) p = .ok (some p') ∧ Stage f a r (r ++ y) capacity p') ∧
        ∀ o, longerTurn find text replaceLen (replaceLen - find.len) p = .ok o →
          a.length + r.length + y.length ≤ capacity.toNat := by
  have hflen : find.len.toNat = f.length := hfind.len_toNat
  obtain ⟨s,index⟩ := p
  obtain ⟨hshows,rfl,hv,hsmall,hindex,_⟩ := h
  dsimp only at hshows hindex ⊢
  obtain ⟨rest,hb,hblock,hsize⟩ := hshows.block
  have hlen : s.len.toNat = (v ++ tail).length := hshows.len_toNat
  rw [List.append_assoc] at hb
  rw [longerTurn]
  cases hn : v.length with
  | zero =>
    obtain rfl := List.length_eq_zero_iff.mp hn
    refine .inl ⟨?_,fun ⟨i,hi,_⟩ => absurd hi (Nat.not_lt_zero i)⟩
    rw [hindex]
    rfl
  | succ n =>
    rw [hn,int16_ofNat_pred] at hindex
    obtain ⟨hnonneg,hunsigned,_⟩ := int16_ofNat (n := n) (by omega)
    subst hindex
    rw [if_neg hnonneg]
    rcases lastIndexOf_text hb hlen hv hfind hclean hf (hunsigned ▸ hn.symm) with ⟨hnone,hnot⟩ | ⟨a,y,hsome,hlast⟩
    · refine .inl ⟨?_,hnot⟩
      rw [hnone]
      rfl
    · have hinside := hlast.inside
      have ha : a.length < 32768 := by omega
      rw [← List.append_assoc,hlast.split,List.append_assoc,List.append_assoc] at hb
      rw [hlast.split,List.append_assoc,List.append_assoc] at hblock
      rw [hlast.split,List.length_append,List.length_append,← Nat.add_assoc] at hlen
      rw [hsome]
      dsimp only [ok_bind]
      rw [if_neg (int16_ofNat ha).1]
      refine .inr ⟨a,y,hlast,fun hroom => ?_,fun o hturn => ?_⟩
      · obtain ⟨rest',hsplice,hlength,hnewlen⟩ := splice_fits hb hlen hflen htext hlt ha (by omega) (by omega)
        refine ⟨(⟨some (a ++ (r ++ (y ++ 0 :: rest'))),s.capacity,s.len + (replaceLen - find.len)⟩, Int16.ofNat a.length - 1),
          by rw [hsplice]; rfl,?_,rfl,?_,Nat.le_of_lt ha,rfl,.inr ⟨Nat.le_of_lt hlt,_,rfl⟩⟩
        · rw [← List.append_assoc r,← List.append_assoc a] at hlength ⊢
          refine .valid ?_ (by omega) (by omega)
          rw [hnewlen,List.length_append,List.length_append,Nat.add_assoc]
        · exact fun h0 => hv (hlast.before.subset h0)
      · obtain ⟨s',hsplice,_⟩ := bind_eq_ok hturn
        have hroom := room_of_splice hb hlen hflen htext hlt ha hsplice (by omega)
        omega

end Stages

/-- Every match that the loop comes upon ends where the text replaced before it begins, or further on the left. -/
def NeverAgain (find : WString) (text : List UInt8) (replaceLen diff : UInt16) (start : WString × Int16) : Prop :=
  ∀ p p', Reached (longerTurn find text replaceLen diff) start p →
    longerTurn find text replaceLen diff p = .ok (some p') → p'.2.toInt + 1 + find.len.toNat ≤ p.2.toInt + 1

/-- The loop is on the way to the text `w`: the matches left are the ones between the pieces. -/
inductive Growing (f r w : List UInt8) (capacity : UInt16) (p : WString × Int16) : Prop
  | intro (hs : List (List UInt8)) (trail tail : List UInt8) (stage : Stage f (f.intercalate hs) trail tail capacity p)
      (pieces : hs ≠ []) (apart : Apart f r trail [] hs) (result : r.intercalate hs ++ tail = w)
      (room : w.length ≤ capacity.toNat)

theorem Growing.index_toInt {w : List UInt8} {capacity : UInt16} {p : WString × Int16} (h : Growing f r w capacity p) :
    0 ≤ p.2.toInt + 1 := by
  obtain ⟨hs,trail,tail,stage,_⟩ := h
  rw [stage.index_toInt]
  exact Int.natCast_nonneg _

section Runs
variable {find : WString} {text : List UInt8} {replaceLen capacity : UInt16} {p : WString × Int16}
  (hfind : find.Shows (some f)) (hclean : 0 ∉ f) (hf : f ≠ []) (htext : Supplies text replaceLen r)
  (hlt : f.length < r.length)
include hfind hclean hf htext hlt

theorem longerTurn_growing {w : List UInt8} (h : Growing f r w capacity p) :
    (longerTurn find text replaceLen (replaceLen - find.len) p = .ok none ∧ p.1.Shows (some w)) ∨
      ∃ p', longerTurn find text replaceLen (replaceLen - find.len) p = .ok (some p') ∧ Growing f r w capacity p' ∧
        p'.2.toInt + 1 + find.len.toNat ≤ p.2.toInt + 1 := by
  obtain ⟨hs,trail,tail,stage,hne,hapart,rfl,hroom⟩ := h
  rcases List.eq_nil_or_concat hs with rfl | ⟨hs,g,rfl⟩
  · exact absurd rfl hne
  rw [List.concat_eq_append] at stage hapart hroom ⊢
  by_cases hone : hs = []
  · subst hone
    rw [List.nil_append,List.intercalate_singleton] at stage ⊢
    rcases longerTurn_stage stage hfind hclean hf htext hlt with ⟨hturn,_⟩ | ⟨a,y,hlast,_⟩
    · exact .inl ⟨hturn,stage.shows⟩
    · exact absurd ((stage.beginsIn_iff g).mp hlast.beginsIn) hapart
  · obtain ⟨hbefore,hnone⟩ := (apart_snoc hone).mp hapart
    rw [intercalate_snoc hone] at stage hroom ⊢
    rcases longerTurn_stage stage hfind hclean hf htext hlt with ⟨_,hnot⟩ | ⟨a,y,hlast,hfits,_⟩
    · exact absurd (beginsIn_middle hf _ g tail) hnot
    · obtain ⟨rfl,rfl⟩ := hlast.eq_of_apart hf (fun h => hnone ((stage.beginsIn_iff _).mp h))
      have hlonger := intercalate_length_le (Nat.le_of_lt hlt) hs
      simp only [List.length_append] at hroom
      obtain ⟨p',hturn,stage'⟩ := hfits (by rw [List.length_append]; omega)
      have hindex := stage.index_toInt
      have hindex' := stage'.index_toInt
      have hflen : find.len.toNat = f.length := hfind.len_toNat
      refine .inr ⟨p',hturn,.intro hs r _ stage' hone hbefore ?_ ?_,?_⟩
      · simp only [List.append_assoc]
      · simp only [List.length_append]
        omega
      · rw [hindex,hindex',hflen]
        simp only [List.length_append]
        omega

/-- The loop ends with the text `w`, without having replaced anything twice. -/
theorem replaceLonger_growing {w : List UInt8} (h : Growing f r w capacity p) {fuel : Nat}
    (hfuel : (p.2.toInt + 1).toNat < fuel) :
    (∃ s, replaceLonger find text replaceLen (replaceLen - find.len) fuel p.1 p.2 = .ok s ∧ s.Shows (some w)) ∧
      NeverAgain find text replaceLen (replaceLen - find.len) p := by
  have hturn (p : WString × Int16) (h : Growing f r w capacity p) :=
    longerTurn_growing hfind hclean hf htext hlt h
  constructor
  · have hmeasured (p : WString × Int16) (h : Growing f r w capacity p) :
        (longerTurn find text replaceLen (replaceLen - find.len) p = .ok none ∧ p.1.Shows (some w)) ∨
          ∃ p', longerTurn find text replaceLen (replaceLen - find.len) p = .ok (some p') ∧ Growing f r w capacity p' ∧
            (p'.2.toInt + 1).toNat < (p.2.toInt + 1).toNat := by
      rcases hturn p h with hend | ⟨p',hnext,hgrowing,hbelow⟩
      · exact .inl hend
      · have hindex := hgrowing.index_toInt
        have hpos := List.length_pos_iff.mpr hf
        have hflen : find.len.toNat = f.length := hfind.len_toNat
        exact .inr ⟨p',hnext,hgrowing,by omega⟩
    obtain ⟨q,hloop,hq⟩ := loop_total hmeasured h hfuel
    rw [replaceLonger_loop,hloop]
    exact ⟨q.1,rfl,hq⟩
  · intro p₁ p₂ hreached hnext
    exact (turn_next hturn (hreached.holds hturn h) hnext).2

/-- A loop that ends, and has replaced nothing twice, has come upon the matches between such pieces. -/
theorem loop_pieces {v trail tail : List UInt8} (h : Stage f v trail tail capacity p)
    (hnever : NeverAgain find text replaceLen (replaceLen - find.len) p) {fuel : Nat} {q : WString × Int16}
    (hloop : loop (longerTurn find text replaceLen (replaceLen - find.len)) fuel p = .ok q) :
    ∃ hs, hs ≠ [] ∧ v = f.intercalate hs ∧ Apart f r trail [] hs ∧ q.1.Shows (some (r.intercalate hs ++ tail)) := by
  induction fuel generalizing v trail tail p with
  | zero => cases hloop
  | succ fuel ih =>
    rcases longerTurn_stage h hfind hclean hf htext hlt with ⟨hend,hnone⟩ | ⟨a,y,hlast,hfits,hroom⟩
    · rw [loop_ends hend] at hloop
      cases hloop
      refine ⟨[v],List.cons_ne_nil _ _,List.intercalate_singleton.symm,?_,?_⟩
      · exact fun hin => hnone ((h.beginsIn_iff v).mpr hin)
      · rw [List.intercalate_singleton]
        exact h.shows
    · obtain ⟨o,hturn,_⟩ := bind_eq_ok hloop
      obtain ⟨p',hnext,h'⟩ := hfits (hroom o hturn)
      rw [loop_next hnext] at hloop
      have hends := hnever p p' .start hnext
      have hflen : find.len.toNat = f.length := hfind.len_toNat
      rw [h.index_toInt,h'.index_toInt,hflen] at hends
      obtain ⟨g,rfl,rfl,hnone⟩ := hlast.cut hf (by omega)
      obtain ⟨hs,hne,rfl,hapart,hshows⟩ := ih h' (fun q q' hq => hnever q q' (hq.head hnext)) hloop
      refine ⟨hs ++ [g],List.append_ne_nil_of_left_ne_nil hne _,(intercalate_snoc hne).symm,?_,?_⟩
      · exact (apart_snoc hne).mpr ⟨hapart,fun hin => hnone ((h.beginsIn_iff _).mpr hin)⟩
      · rw [intercalate_snoc hne]
        simpa only [List.append_assoc] using hshows

end Runs

end WString
end ArduinoAT90USB.Core
