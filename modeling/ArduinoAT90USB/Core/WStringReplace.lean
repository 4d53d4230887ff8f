import ArduinoAT90USB.Core.WStringConcat
import ArduinoAT90USB.Foundation.AvrInt
import ArduinoAT90USB.Foundation.Loop

/-! `replace` by a text that is not longer: one pass over the block, which is read and written
at the same time. -/
namespace ArduinoAT90USB.Core
open Foundation Foundation.Memory Foundation.CString Foundation.TaskLogic Foundation.Substitution
  Foundation.Loop Foundation.AvrInt

/-- The variables of the pass. -/
structure Pass where
  block : Block
  len : UInt16
  writeTo : Nat
  readFrom : Nat

namespace WString
section Turns
variable (needle text : List UInt8)

/-- A turn of the loop for a text of the same length. -/
def equalTurn (replaceLen : UInt16) (p : Block × Nat) : Checked (Option (Block × Nat)) := do
  match ← strstr needle (p.1.drop p.2) with
  | none => pure none
  | some n =>
    let b ← memcpy replaceLen.toNat text p.1 (p.2 + n)
    pure (some (b, p.2 + n + replaceLen.toNat))

/-- A turn of the loop for a shorter text. -/
def shorterTurn (findLen replaceLen diff : UInt16) (p : Pass) : Checked (Option Pass) := do
  match ← strstr needle (p.block.drop p.readFrom) with
  | none => pure none
  | some n =>
    let b ← memcpyWithin n p.block p.writeTo p.readFrom
    let b ← memcpy replaceLen.toNat text b (p.writeTo + n)
    pure (some ⟨b,p.len + diff,p.writeTo + n + replaceLen.toNat,p.readFrom + n + findLen.toNat⟩)

/-- A turn of the loop that counts, over `readFrom` and `size`. -/
def sizeTurn (b : Block) (findLen diff : UInt16) (p : Nat × UInt16) : Checked (Option (Nat × UInt16)) := do
  match ← strstr needle (b.drop p.1) with
  | none => pure none
  | some n => pure (some (p.1 + n + findLen.toNat, p.2 + diff))

theorem replaceEqual_loop (replaceLen : UInt16) (fuel : Nat) (p : Block × Nat) :
    replaceEqual needle text replaceLen fuel p.1 p.2 = Prod.fst <$> loop (equalTurn needle text replaceLen) fuel p := by
  induction fuel generalizing p with
  | zero => rfl
  | succ fuel ih =>
    rw [replaceEqual,loop,equalTurn]
    cases strstr needle (p.1.drop p.2) with
    | error e => rfl
    | ok o =>
      cases o with
      | none => rfl
      | some n =>
        dsimp only [ok_bind]
        cases memcpy replaceLen.toNat text p.1 (p.2 + n) with
        | error e => rfl
        | ok b => exact ih (b, p.2 + n + replaceLen.toNat)

theorem replaceShorter_loop (findLen replaceLen diff : UInt16) (fuel : Nat) (p : Pass) :
    replaceShorter needle text findLen replaceLen diff fuel p.block p.len p.writeTo p.readFrom = (do
      let p ← loop (shorterTurn needle text findLen replaceLen diff) fuel p
      let b ← strcpyWithin (p.block.length + 1) p.block p.writeTo p.readFrom
      pure (b, p.len)) := by
  induction fuel generalizing p with
  | zero => rfl
  | succ fuel ih =>
    rw [replaceShorter,loop,shorterTurn]
    cases strstr needle (p.block.drop p.readFrom) with
    | error e => rfl
    | ok o =>
      cases o with
      | none => rfl
      | some n =>
        dsimp only [ok_bind]
        cases memcpyWithin n p.block p.writeTo p.readFrom with
        | error e => rfl
        | ok b =>
          dsimp only [ok_bind]
          cases memcpy replaceLen.toNat text b (p.writeTo + n) with
          | error e => rfl
          | ok b => exact ih ⟨b,p.len + diff,p.writeTo + n + replaceLen.toNat,p.readFrom + n + findLen.toNat⟩

theorem replaceSize_loop (b : Block) (findLen diff : UInt16) (fuel : Nat) (p : Nat × UInt16) :
    replaceSize needle b findLen diff fuel p.1 p.2 = Prod.snd <$> loop (sizeTurn needle b findLen diff) fuel p := by
  induction fuel generalizing p with
  | zero => rfl
  | succ fuel ih =>
    rw [replaceSize,loop,sizeTurn]
    cases strstr needle (b.drop p.1) with
    | error e => rfl
    | ok o =>
      cases o with
      | none => rfl
      | some n => exact ih (p.1 + n + findLen.toNat, p.2 + diff)

end Turns

/-- The pass has replaced what it has read of the text `u`: `done` is written, and the unread part stands where it
stood, behind a gap of bytes that are read no more. -/
inductive Scanned (f r u rest : List UInt8) (b : Block) (writeTo readFrom : Nat) : Prop
  | intro (done gap seen v : List UInt8) (block : b = done ++ (gap ++ (v ++ 0 :: rest)))
      (written : writeTo = done.length) (read : readFrom = seen.length) (split : u = seen ++ v)
      (gone : done.length + gap.length = seen.length) (result : done ++ substitute f r v = substitute f r u)

/-- What the replacement is copied from. -/
structure Supplies (text : List UInt8) (replaceLen : UInt16) (r : List UInt8) : Prop where
  length : replaceLen.toNat = r.length
  bytes : r <+: text

section Scan
variable {f r u rest needle text : List UInt8} {replaceLen findLen diff : UInt16} {b : Block} {writeTo readFrom : Nat}

theorem scanned_start (f r u rest : List UInt8) : Scanned f r u rest (u ++ 0 :: rest) 0 0 :=
  .intro [] [] [] u rfl rfl rfl rfl rfl rfl

theorem Scanned.unread (h : Scanned f r u rest b writeTo readFrom) :
    b.drop readFrom = (u ++ 0 :: rest).drop readFrom ∧ readFrom ≤ u.length := by
  obtain ⟨done,gap,seen,v,rfl,_,rfl,rfl,gone,_⟩ := h
  rw [List.append_assoc,List.drop_left,← List.append_assoc,← gone,← List.length_append,List.drop_left]
  exact ⟨rfl,by rw [List.length_append,List.length_append]; omega⟩

private theorem scanned_next {done seen v a c : List UInt8} (gap rest : List UInt8) (hf : f ≠ []) (split : u = seen ++ v)
    (result : done ++ substitute f r v = substitute f r u) (hfirst : First f v a c)
    (gone : done.length + (a.length + r.length) + gap.length = seen.length + (a.length + f.length)) :
    Scanned f r u rest (done ++ (a ++ (r ++ (gap ++ (c ++ 0 :: rest))))) (done.length + a.length + r.length)
      (seen.length + a.length + f.length) := by
  refine .intro (done ++ (a ++ r)) gap (seen ++ (a ++ f)) c ?_ ?_ ?_ ?_ ?_ ?_
  · rw [List.append_assoc,List.append_assoc]
  · rw [List.length_append,List.length_append,Nat.add_assoc]
  · rw [List.length_append,List.length_append,Nat.add_assoc]
  · rw [split,hfirst.split,List.append_assoc,List.append_assoc]
  · simpa only [List.length_append] using gone
  · rw [← result,substitute_first hf hfirst,List.append_assoc,List.append_assoc]

theorem Supplies.memcpy (h : Supplies text replaceLen r) (pre : Block) {old : Block}
    (hold : old.length = r.length) (post : Block) :
    memcpy replaceLen.toNat text (pre ++ (old ++ post)) pre.length = .ok (pre ++ (r ++ post)) := by
  have htake : text.take r.length = r := (List.prefix_iff_eq_take.mp h.bytes).symm
  have hcopy := memcpy_text text pre (hold ▸ h.bytes.length_le) post
  rwa [hold,htake,← h.length] at hcopy

theorem equalTurn_scanned (hneedle : Terminated f needle) (hf : f ≠ []) (hu : 0 ∉ u) (htext : Supplies text replaceLen r)
    (hlen : r.length = f.length) {p : Block × Nat} (h : Scanned f r u rest p.1 p.2 p.2) :
    (equalTurn needle text replaceLen p = .ok none ∧ p.1 = substitute f r u ++ 0 :: rest) ∨
      ∃ p', equalTurn needle text replaceLen p = .ok (some p') ∧ Scanned f r u rest p'.1 p'.2 p'.2 ∧ p.2 < p'.2 := by
  obtain ⟨b,readFrom⟩ := p
  dsimp only at h
  obtain ⟨done,gap,seen,v,rfl,hw,hr,rfl,gone,result⟩ := h
  obtain rfl : gap = [] := List.length_eq_zero_iff.mp (by omega)
  have hv : Terminated v (v ++ 0 :: rest) := ⟨fun h0 => hu (List.mem_append_right seen h0),rest,rfl⟩
  have hdrop : (done ++ ([] ++ (v ++ 0 :: rest))).drop readFrom = v ++ 0 :: rest := by
    rw [hw,List.drop_left,List.nil_append]
  rcases strstr_text hneedle hv with ⟨hnone,hnot⟩ | ⟨a,c,hsome,hfirst⟩
  · refine .inl ⟨?_,?_⟩
    · rw [equalTurn,hdrop,hnone]
      rfl
    · rw [← result,substitute_none hnot,List.nil_append,List.append_assoc]
  · have hpos := List.length_pos_iff.mpr hf
    have hcopy := htext.memcpy (done ++ a) hlen.symm (c ++ 0 :: rest)
    rw [List.length_append,List.append_assoc,List.append_assoc,← hw] at hcopy
    have hblock : done ++ ([] ++ (v ++ 0 :: rest)) = done ++ (a ++ (f ++ (c ++ 0 :: rest))) := by
      rw [hfirst.split,List.nil_append,List.append_assoc,List.append_assoc]
    have hnext := scanned_next [] rest hf rfl result hfirst (by rw [hlen]; omega)
    refine .inr ⟨(done ++ (a ++ (r ++ (c ++ 0 :: rest))), readFrom + a.length + r.length),?_,?_,by dsimp only; omega⟩
    · rw [equalTurn,hdrop,hsome]
      dsimp only [ok_bind]
      rw [hblock,hcopy,htext.length]
      rfl
    · rw [← hw,← hr,← hlen] at hnext
      exact hnext

theorem replaceEqual_substitutes (hneedle : Terminated f needle) (hf : f ≠ []) (hu : 0 ∉ u)
    (htext : Supplies text replaceLen r) (hlen : r.length = f.length) (rest : List UInt8) {fuel : Nat}
    (hfuel : u.length < fuel) :
    replaceEqual needle text replaceLen fuel (u ++ 0 :: rest) 0 = .ok (substitute f r u ++ 0 :: rest) := by
  have hturn (p : Block × Nat) (h : Scanned f r u rest p.1 p.2 p.2) :
      (equalTurn needle text replaceLen p = .ok none ∧ p.1 = substitute f r u ++ 0 :: rest) ∨
        ∃ p', equalTurn needle text replaceLen p = .ok (some p') ∧ Scanned f r u rest p'.1 p'.2 p'.2 ∧
          u.length - p'.2 < u.length - p.2 := by
    rcases equalTurn_scanned hneedle hf hu htext hlen h with hend | ⟨p',hnext,hscan,hlt⟩
    · exact .inl hend
    · have := hscan.unread.2
      exact .inr ⟨p',hnext,hscan,by omega⟩
  obtain ⟨p,hloop,hp⟩ := loop_total hturn (s := (u ++ 0 :: rest, 0)) (scanned_start f r u rest) hfuel
  rw [replaceEqual_loop needle text replaceLen fuel (u ++ 0 :: rest, 0),hloop]
  exact congrArg _ hp

/-- `len` counts what is written and what is unread. -/
structure PassInv (f r u rest : List UInt8) (p : Pass) : Prop where
  scanned : Scanned f r u rest p.block p.writeTo p.readFrom
  len : p.len.toNat = p.writeTo + (u.length - p.readFrom)
  sized : p.block.length = u.length + 1 + rest.length

theorem passInv_start {len : UInt16} (hlen : len.toNat = u.length) (f r rest : List UInt8) :
    PassInv f r u rest ⟨u ++ 0 :: rest,len,0,0⟩ := by
  refine ⟨scanned_start f r u rest,?_,?_⟩
  · rw [Nat.sub_zero,Nat.zero_add]
    exact hlen
  · rw [List.length_append,List.length_cons]
    omega

/-- No match is left: what is unread belongs behind what is written. -/
inductive PassEnd (f r u rest : List UInt8) (p : Pass) : Prop
  | intro (done gap v : List UInt8) (block : p.block = done ++ (gap ++ (v ++ 0 :: rest)))
      (written : p.writeTo = done.length) (read : p.readFrom = done.length + gap.length)
      (result : done ++ v = substitute f r u) (clean : 0 ∉ v) (len : p.len.toNat = (substitute f r u).length)
      (sized : p.block.length = u.length + 1 + rest.length)

private theorem len_shrinks {len findLen replaceLen : UInt16} (hle : findLen.toNat ≤ len.toNat)
    (hshort : replaceLen.toNat ≤ findLen.toNat) :
    (len + (replaceLen - findLen)).toNat = len.toNat - findLen.toNat + replaceLen.toNat := by
  have hlen := len.toNat_lt
  have hfind := findLen.toNat_lt
  rw [UInt16.toNat_add,UInt16.toNat_sub]
  omega

/-- The text before a match is moved down; then there is room for the replacement before the rest. -/
private theorem move_before_match (done gap a f tail : Block) {n : Nat} (hn : n ≤ f.length) : ∃ old gap' : Block,
    memcpyWithin a.length (done ++ (gap ++ (a ++ (f ++ tail)))) done.length (done.length + gap.length) =
        .ok (done ++ (a ++ (old ++ (gap' ++ tail)))) ∧ old.length = n ∧ n + gap'.length = gap.length + f.length := by
  have hlength : ((gap ++ (a ++ f)).drop a.length).length = gap.length + f.length := by
    rw [List.length_drop,List.length_append,List.length_append]
    omega
  have hsplit : (gap ++ (a ++ (f ++ tail))).drop a.length = (gap ++ (a ++ f)).drop a.length ++ tail := by
    rw [← List.append_assoc a,← List.append_assoc gap,List.drop_append_of_le_length]
    rw [List.length_append,List.length_append]
    omega
  refine ⟨((gap ++ (a ++ f)).drop a.length).take n,((gap ++ (a ++ f)).drop a.length).drop n,?_,?_,?_⟩
  · rw [memcpyWithin_down,hsplit,← List.append_assoc (List.take _ _),List.take_append_drop]
  · rw [List.length_take,hlength]
    omega
  · rw [List.length_drop,hlength]
    omega

theorem shorterTurn_inv (hneedle : Terminated f needle) (hf : f ≠ []) (hu : 0 ∉ u) (htext : Supplies text replaceLen r)
    (hfind : findLen.toNat = f.length) (hle : r.length ≤ f.length) {p : Pass} (h : PassInv f r u rest p) :
    (shorterTurn needle text findLen replaceLen (replaceLen - findLen) p = .ok none ∧ PassEnd f r u rest p) ∨
      ∃ p', shorterTurn needle text findLen replaceLen (replaceLen - findLen) p = .ok (some p') ∧
        PassInv f r u rest p' ∧ p.readFrom < p'.readFrom := by
  obtain ⟨⟨done,gap,seen,v,hblock,hw,hr,rfl,gone,result⟩,hlen,hsized⟩ := h
  have hclean : 0 ∉ v := fun h0 => hu (List.mem_append_right seen h0)
  have hread : p.readFrom = done.length + gap.length := hr.trans gone.symm
  have hdrop : p.block.drop p.readFrom = v ++ 0 :: rest := by
    rw [hblock,hread,← List.append_assoc,← List.length_append,List.drop_left]
  rw [List.length_append,hr,Nat.add_sub_cancel_left,hw] at hlen
  rcases strstr_text hneedle ⟨hclean,rest,rfl⟩ with ⟨hnone,hnot⟩ | ⟨a,c,hsome,hfirst⟩
  · rw [substitute_none hnot] at result
    refine .inl ⟨?_,.intro done gap v hblock hw hread result hclean ?_ hsized⟩
    · rw [shorterTurn,hdrop,hnone]
      rfl
    · rw [hlen,← result,List.length_append]
  · have hpos := List.length_pos_iff.mpr hf
    have hvlen := hfirst.length
    obtain ⟨old,gap',hmove,hold,hgap⟩ := move_before_match done gap a f (c ++ 0 :: rest) hle
    have hcopy := htext.memcpy (done ++ a) hold (gap' ++ (c ++ 0 :: rest))
    rw [List.length_append,List.append_assoc,List.append_assoc] at hcopy
    have hblock' : p.block = done ++ (gap ++ (a ++ (f ++ (c ++ 0 :: rest)))) := by
      rw [hblock,hfirst.split,List.append_assoc,List.append_assoc]
    refine .inr ⟨⟨done ++ (a ++ (r ++ (gap' ++ (c ++ 0 :: rest)))),p.len + (replaceLen - findLen),
      done.length + a.length + r.length,seen.length + a.length + f.length⟩,?_,⟨?_,?_,?_⟩,?_⟩
    · rw [shorterTurn,hdrop,hsome]
      dsimp only [ok_bind]
      rw [hblock',hw,hread,hmove]
      dsimp only [ok_bind]
      rw [hcopy,htext.length,hfind,gone]
      rfl
    · exact scanned_next gap' rest hf rfl result hfirst (by omega)
    · have hshort := htext.length
      rw [len_shrinks (by omega) (by omega),List.length_append]
      dsimp only
      omega
    · have hsame : (done ++ (gap ++ (a ++ (f ++ (c ++ 0 :: rest))))).length = (seen ++ v).length + 1 + rest.length := by
        rw [← hblock']
        exact hsized
      simp only [List.length_append] at hsame ⊢
      omega
    · dsimp only
      omega

theorem replaceShorter_substitutes (hneedle : Terminated f needle) (hf : f ≠ []) (hu : 0 ∉ u)
    (htext : Supplies text replaceLen r) (hfind : findLen.toNat = f.length) (hle : r.length ≤ f.length)
    (rest : List UInt8) {len : UInt16} (hlen : len.toNat = u.length) {fuel : Nat} (hfuel : u.length < fuel) :
    ∃ rest' len', replaceShorter needle text findLen replaceLen (replaceLen - findLen) fuel (u ++ 0 :: rest) len 0 0 =
        .ok (substitute f r u ++ 0 :: rest', len') ∧ len'.toNat = (substitute f r u).length ∧
      (substitute f r u ++ 0 :: rest').length = (u ++ 0 :: rest).length := by
  have hturn (p : Pass) (h : PassInv f r u rest p) :
      (shorterTurn needle text findLen replaceLen (replaceLen - findLen) p = .ok none ∧ PassEnd f r u rest p) ∨
        ∃ p', shorterTurn needle text findLen replaceLen (replaceLen - findLen) p = .ok (some p') ∧
          PassInv f r u rest p' ∧ u.length - p'.readFrom < u.length - p.readFrom := by
    rcases shorterTurn_inv hneedle hf hu htext hfind hle h with hend | ⟨p',hnext,hinv,hlt⟩
    · exact .inl hend
    · have := hinv.scanned.unread.2
      exact .inr ⟨p',hnext,hinv,by omega⟩
  obtain ⟨p,hloop,done,gap,v,hblock,hw,hread,hresult,hclean,hplen,hsized⟩ := loop_total hturn (passInv_start hlen f r rest) hfuel
  have hroom : v.length < p.block.length + 1 := by
    simp only [hblock,List.length_append]
    omega
  have hcopy := strcpyWithin_down hclean done gap rest hroom
  rw [← hblock,← hread,← hw,← List.append_assoc done v,hresult] at hcopy
  refine ⟨(gap ++ (v ++ 0 :: rest)).drop (v.length + 1),p.len,?_,hplen,?_⟩
  · have hrun := replaceShorter_loop needle text findLen replaceLen (replaceLen - findLen) fuel ⟨u ++ 0 :: rest,len,0,0⟩
    dsimp only at hrun
    rw [hrun,hloop,ok_bind,hcopy]
    rfl
  · rw [← hresult]
    rw [hblock] at hsized
    simp only [List.length_append,List.length_cons,List.length_drop] at hsized ⊢
    omega

end Scan

section Count
variable {f u needle : List UInt8} {findLen : UInt16}

/-- The counting pass adds the difference once for each stretch it skips. -/
theorem replaceSize_windows (hneedle : Terminated f needle) (hpos : 0 < findLen.toNat) (hu : 0 ∉ u) {ws : List (List UInt8)}
    (hws : Windows f findLen.toNat u ws) (seen rest : List UInt8) (diff size : UInt16) {fuel : Nat} (hfuel : u.length < fuel) :
    replaceSize needle (seen ++ (u ++ 0 :: rest)) findLen diff fuel seen.length size =
      .ok (size + UInt16.ofNat ws.length * diff) := by
  induction hws generalizing seen size fuel with
  | none hnone =>
    obtain ⟨fuel,rfl⟩ := Nat.exists_eq_add_one_of_ne_zero (Nat.ne_of_gt (Nat.lt_of_le_of_lt (Nat.zero_le _) hfuel))
    rw [replaceSize,List.drop_left]
    rcases strstr_text hneedle ⟨hu,rest,rfl⟩ with ⟨hsearch,_⟩ | ⟨a,c,_,hfirst⟩
    · rw [hsearch]
      exact congrArg Except.ok (by simp)
    · exact absurd hfirst.occurs hnone
  | @next a c w v ws hfirst hw _ ih =>
    obtain ⟨fuel,rfl⟩ := Nat.exists_eq_add_one_of_ne_zero (Nat.ne_of_gt (Nat.lt_of_le_of_lt (Nat.zero_le _) hfuel))
    rw [replaceSize,List.drop_left]
    rcases strstr_text hneedle ⟨hu,rest,rfl⟩ with ⟨_,hnone⟩ | ⟨a',c',hsearch,hfirst'⟩
    · exact absurd hfirst.occurs hnone
    · obtain ⟨rfl,-⟩ := hfirst.unique hfirst'
      rw [List.length_append,List.length_append] at hfuel
      have hv : 0 ∉ v := fun h0 => hu (List.mem_append_right a (List.mem_append_right w h0))
      have hrest := ih hv (seen ++ (a ++ w)) (size + diff) (show v.length < fuel by omega)
      have hnext : seen.length + a.length + findLen.toNat = (seen ++ (a ++ w)).length := by
        rw [← hw,List.length_append,List.length_append,Nat.add_assoc]
      have hblock : seen ++ (a ++ (w ++ v) ++ 0 :: rest) = seen ++ (a ++ w) ++ (v ++ 0 :: rest) := by
        simp only [List.append_assoc]
      have hsum : size + diff + UInt16.ofNat ws.length * diff = size + UInt16.ofNat (ws.length + 1) * diff := by
        rw [UInt16.ofNat_add,UInt16.add_mul,UInt16.add_assoc,UInt16.add_comm diff]
        rw [show UInt16.ofNat 1 = 1 from rfl,UInt16.one_mul]
      rw [hsearch]
      dsimp only [ok_bind]
      rw [hnext,hblock,hrest,List.length_cons,hsum]

theorem replaceSize_block (hneedle : Terminated f needle) (hpos : 0 < findLen.toNat) (hu : 0 ∉ u) {ws : List (List UInt8)}
    (hws : Windows f findLen.toNat u ws) (rest : List UInt8) (diff size : UInt16) :
    replaceSize needle (u ++ 0 :: rest) findLen diff ((u ++ 0 :: rest).length + 1) 0 size =
      .ok (size + UInt16.ofNat ws.length * diff) := by
  refine replaceSize_windows hneedle hpos hu hws [] rest diff size ?_
  rw [List.length_append]
  omega

theorem replaceSize_text (hneedle : Terminated f needle) (hf : f ≠ []) (hfind : findLen.toNat = f.length) (hu : 0 ∉ u)
    (rest : List UInt8) (diff size : UInt16) :
    replaceSize needle (u ++ 0 :: rest) findLen diff ((u ++ 0 :: rest).length + 1) 0 size =
      .ok (size + UInt16.ofNat (count f u) * diff) := by
  have hws := windows_count hf u
  rw [← hfind] at hws
  have hcount := replaceSize_block hneedle (hfind ▸ List.length_pos_iff.mpr hf) hu hws rest diff size
  rwa [List.length_replicate] at hcount

end Count

theorem len_ne_zero {s : WString} {t : List UInt8} (hlen : s.len.toNat = t.length) (ht : t ≠ []) : s.len ≠ 0 := by
  intro h0
  rw [h0,UInt16.toNat_zero] at hlen
  exact ht (List.length_eq_zero_iff.mp hlen.symm)

/-- The block is changed if it is too small. -/
def grow (s : WString) (size : UInt16) : Alloc (Bool × WString) :=
  if size > s.capacity then s.changeBuffer size else pure (true, s)

/-! `replace` once it has looked at the lengths. -/
section Branches
variable {s find : WString} {b needle : Block} (hb : s.buffer = some b) (hneedle : find.buffer = some needle)
  (hs : s.len ≠ 0) (hf : find.len ≠ 0) (replace : WString)
include hb hneedle hs hf

theorem replace_equal (hdiff : (replace.len - find.len).toInt16 = 0) (h : Heap) :
    s.replace find replace h = (do
      let b ← check (replaceEqual needle (replace.buffer.getD []) replace.len (b.length + 1) b 0)
      pure {s with buffer := some b} : Alloc WString) h := by
  rw [WString.replace,if_neg (not_or.mpr ⟨hs,hf⟩),check_bind (pointer_ok s hb (Nat.zero_le _)),
    check_bind (pointer_ok find hneedle (Nat.zero_le _)),if_pos hdiff]
  rfl

theorem replace_shorter (hdiff : (replace.len - find.len).toInt16 < 0) (h : Heap) :
    s.replace find replace h = (do
      let (b, len) ← check (replaceShorter needle (replace.buffer.getD []) find.len replace.len (replace.len - find.len)
        (b.length + 1) b s.len 0 0)
      pure {s with buffer := some b, len := len} : Alloc WString) h := by
  have hne : ¬ (replace.len - find.len).toInt16 = 0 := fun h0 => absurd (h0 ▸ hdiff) (by decide)
  rw [WString.replace,if_neg (not_or.mpr ⟨hs,hf⟩),check_bind (pointer_ok s hb (Nat.zero_le _)),
    check_bind (pointer_ok find hneedle (Nat.zero_le _)),if_neg hne,if_pos hdiff]
  rfl

theorem replace_longer (hdiff : ¬ (replace.len - find.len).toInt16 < 0) (hne : ¬ (replace.len - find.len).toInt16 = 0)
    (h : Heap) : s.replace find replace h = (do
      let size ← check (replaceSize needle b find.len (replace.len - find.len) (b.length + 1) 0 s.len)
      if size = s.len then pure s
      else
        let (enough, s) ← s.grow size
        if enough then check (replaceLonger find (replace.buffer.getD []) replace.len (replace.len - find.len)
          (b.length + 1) s (s.len - 1).toInt16)
        else pure s : Alloc WString) h := by
  rw [WString.replace,if_neg (not_or.mpr ⟨hs,hf⟩),check_bind (pointer_ok s hb (Nat.zero_le _)),
    check_bind (pointer_ok find hneedle (Nat.zero_le _)),if_neg hne,if_neg hdiff]
  refine congrFun (congrArg (_ >>= ·) (funext fun size => ?_)) h
  rw [grow]
  split
  · rfl
  · split <;> rfl

end Branches

theorem grow_len {s s' : WString} {size : UInt16} {enough : Bool} {h h' : Heap}
    (hgrow : s.grow size h = .ok (enough, s') h') : s'.len = s.len := by
  rw [grow] at hgrow
  split at hgrow
  · cases hout : h.outcome h.calls with
    | none =>
      rw [changeBuffer_refused hout] at hgrow
      cases hgrow
      rfl
    | some fresh =>
      rw [changeBuffer_granted hout] at hgrow
      cases hgrow
      rfl
  · cases hgrow
    rfl

/-- The last index of a text of more than 32768 characters is a negative `int`. -/
theorem last_index_neg {len : UInt16} (hlong : 32768 < len.toNat) : (len - 1).toInt16 < 0 := by
  have hlt := len.toNat_lt
  have hone : (1 : UInt16).toNat = 1 := rfl
  rw [toInt16_neg_iff,UInt16.toNat_sub]
  omega

/-- The loop for a longer text does nothing in such a text. -/
theorem replace_longer_idle {s find replace s' : WString} {b needle : Block} (hb : s.buffer = some b)
    (hneedle : find.buffer = some needle) (hf : find.len ≠ 0) (hdiff : ¬ (replace.len - find.len).toInt16 < 0)
    (hne : ¬ (replace.len - find.len).toInt16 = 0) (hlong : 32768 < s.len.toNat) {h h' : Heap}
    (hrun : s.replace find replace h = .ok s' h') : s'.len = s.len := by
  have hs : s.len ≠ 0 := by
    intro h0
    rw [h0,UInt16.toNat_zero] at hlong
    omega
  rw [replace_longer hb hneedle hs hf replace hdiff hne] at hrun
  obtain ⟨size,_,hrun⟩ := check_bind_eq_ok hrun
  split at hrun
  · cases hrun
    rfl
  · obtain ⟨⟨enough,grown⟩,h₁,hgrow,hrun⟩ := run_bind_eq_ok hrun
    have hlen := grow_len hgrow
    have hindex : (grown.len - 1).toInt16 < 0 := last_index_neg (hlen ▸ hlong)
    dsimp only at hrun
    split at hrun
    · rw [replaceLonger,if_pos hindex] at hrun
      cases hrun
      exact hlen
    · cases hrun
      exact hlen

end WString
end ArduinoAT90USB.Core
