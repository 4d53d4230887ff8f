import ArduinoAT90USB.Core.Stream
import ArduinoAT90USB.Core.WStringConcat

/-! `Stream::readString`, which appends the bytes one at a time. Each is copied as a C string of
its own, and of a zero byte the terminator is all there is. -/
namespace ArduinoAT90USB.Core
open Foundation Foundation.Memory Foundation.CString Foundation.TaskLogic

namespace Port
variable {σ : Type} (port : Port σ)

/-- The `while` loop; the result is the String and what has become of the port. -/
def readStringLoop (timeout : UInt32) : Nat → σ → WString → Alloc (Option (WString × σ))
  | 0, _, _ => pure none
  | fuel+1, s, ret =>
    match port.timedRead timeout fuel s with
    | none => pure none
    | some c =>
      if c.1 ≥ 0 then do
        let r ← ret.concat (.char (UInt8.ofNat c.1.toNat))
        readStringLoop timeout fuel c.2 r.2
      else pure (some (ret, c.2))

def readString (timeout : UInt32) (fuel : Nat) (s : σ) : Alloc (Option (WString × σ)) := do
  let ret ← WString.construct 10 (.cstr (some [0]))
  port.readStringLoop timeout fuel s ret

end Port

namespace WString
variable {b : List UInt8} {x c : UInt8} {h : Heap}

/-- The bytes of a text in a block with one byte more, which need not be the terminator. -/
def filled (b : List UInt8) (x : UInt8) : WString := ⟨some (b ++ [x]),UInt16.ofNat b.length,UInt16.ofNat b.length⟩

/-- Only a NUL is a terminator. -/
private theorem filled_shows (hs : (filled b x).Shows (some b)) : x = 0 := by
  obtain ⟨s,hfilled⟩ : ∃ s, filled b x = s := ⟨_,rfl⟩
  rw [hfilled] at hs
  cases hs with
  | valid length allocated size =>
    have hbuffer := Option.some.inj (congrArg WString.buffer hfilled)
    exact (List.cons.inj (List.append_cancel_left hbuffer)).1

private theorem resize_next (b : List UInt8) (x : UInt8) (fresh : Nat → UInt8) :
    resize (b ++ [x]) (b.length + 2) fresh = b ++ [x,fresh (b.length + 1)] := by
  have hmore : b.length + 2 - (b ++ [x]).length = 1 := by
    rw [List.length_append, List.length_singleton]
    omega
  rw [resize, hmore, List.take_of_length_le (by simp), List.append_assoc, List.length_append]
  rfl

/-- Room is made for one byte more; in an empty text the terminator is written again. -/
private theorem filled_reserve (hb : b.length + 1 < 65535) {fresh : Nat → UInt8} (hout : h.outcome h.calls = some fresh) :
    ∃ x', (filled b x).reserve (UInt16.ofNat (b.length + 1)) h =
      .ok (true, ⟨some (b ++ [x',fresh (b.length + 1)]),UInt16.ofNat (b.length + 1),UInt16.ofNat b.length⟩) h.called := by
  have hlen : (UInt16.ofNat b.length).toNat = b.length := toNat_length (by omega)
  have hnew : (UInt16.ofNat (b.length + 1)).toNat = b.length + 1 := toNat_length (t := x :: b) hb
  have hsize : (UInt16.ofNat (b.length + 1) + 1).toNat = b.length + 2 := by
    rw [toNat_next (by omega), hnew]
  have hsmall : ¬ ((filled b x).buffer.isSome ∧ (filled b x).capacity ≥ UInt16.ofNat (b.length + 1)) := by
    rintro ⟨_,hcap⟩
    have hle : (UInt16.ofNat (b.length + 1)).toNat ≤ (UInt16.ofNat b.length).toNat := UInt16.le_iff_toNat_le.mp hcap
    omega
  have hblock : resize ((filled b x).buffer.getD []) (UInt16.ofNat (b.length + 1) + 1).toNat fresh =
      b ++ [x,fresh (b.length + 1)] := by
    rw [hsize]
    exact resize_next b x fresh
  -- `reserve` writes `buffer[0] = 0` if the length is zero.
  cases b with
  | nil =>
    refine ⟨0,reserve_granted hsmall hout ?_⟩
    rw [hblock]
    rfl
  | cons a b =>
    refine ⟨x,reserve_granted hsmall hout ?_⟩
    have hsome : ¬ UInt16.ofNat (a :: b).length = 0 := by
      intro hzero
      rw [hzero] at hlen
      cases hlen
    rw [hblock]
    exact if_neg hsome

/-- A byte is appended as it is; behind a zero byte the block stays as it was found. -/
theorem filled_concat (hb : b.length + 1 < 65535) {fresh : Nat → UInt8} (hout : h.outcome h.calls = some fresh) :
    (filled b x).concat (.char c) h =
      .ok (true, filled (b ++ [c]) (if c = 0 then fresh (b.length + 1) else 0)) h.called := by
  obtain ⟨x',hreserve⟩ := filled_reserve (x := x) hb hout
  have hlen : (UInt16.ofNat b.length).toNat = b.length := toNat_length (by omega)
  have hnewlen : UInt16.ofNat b.length + 1 = UInt16.ofNat (b.length + 1) := (UInt16.ofNat_add _ _).symm
  have hcopy : strcpy [c,0] (b ++ [x',fresh (b.length + 1)]) (UInt16.ofNat b.length).toNat =
      .ok (b ++ [c] ++ [if c = 0 then fresh (b.length + 1) else 0]) := by
    rw [hlen, List.append_assoc]
    split_ifs with hc
    · subst hc
      have htext : Terminated [] [0,0] := ⟨List.not_mem_nil,[0],rfl⟩
      have hold : [x'].length = ([] : List UInt8).length + 1 := rfl
      exact strcpy_text htext b hold [fresh (b.length + 1)]
    · have htext : Terminated [c] [c,0] := ⟨fun h0 => hc (List.mem_singleton.mp h0).symm,[],rfl⟩
      have hold : [x',fresh (b.length + 1)].length = [c].length + 1 := rfl
      exact strcpy_text htext b hold []
  have hfilled : filled (b ++ [c]) (if c = 0 then fresh (b.length + 1) else 0) =
      ⟨some (b ++ [c] ++ [if c = 0 then fresh (b.length + 1) else 0]),UInt16.ofNat b.length + 1,
        UInt16.ofNat b.length + 1⟩ := by
    rw [filled, List.length_append, List.length_singleton, hnewlen]
  rw [← hnewlen] at hreserve
  rw [hfilled]
  exact concatBytes_copied (s := filled b x) (by decide) hreserve hcopy

end WString
open WString

/-- The byte behind the bytes that have been appended: what was there before the first of them,
the terminator of the last, or, if that is zero, a byte found in new memory. -/
def Behind (h : Heap) (bytes : List UInt8) (x y : UInt8) : Prop :=
  match bytes.getLast? with
  | none => y = x
  | some c => if c = 0 then ∃ i fresh j, h.outcome i = some fresh ∧ y = fresh j else y = 0

theorem readStringLoop_filled {σ : Type} {port : Port σ} {timeout : UInt32} {unread : σ → List UInt8}
    (hf : port.Feeds timeout unread) (bytes : List UInt8) {b : List UInt8} {x : UInt8}
    (hroom : b.length + bytes.length < 65535) {h : Heap} (hh : Ample h) {s : σ} (hs : unread s = bytes) :
    ∃ fuel t h' y, (∀ more ≥ fuel, port.readStringLoop timeout more s (filled b x) h =
      .ok (some (filled (b ++ bytes) y, t)) h') ∧ unread t = [] ∧ Behind h bytes x y := by
  induction bytes generalizing b x h s with
  | nil =>
    obtain ⟨fuel,t,hread,ht⟩ := hf.silence s hs
    refine ⟨fuel+1,t,h,x,enough_fuel fun more hle => ?_,ht,rfl⟩
    rw [Port.readStringLoop, Port.timedRead_mono hread (by omega), List.append_nil]
    rfl
  | cons c bytes ih =>
    obtain ⟨fuel,t,hread,ht⟩ := hf.next s c bytes hs
    obtain ⟨fresh,hout⟩ := Option.isSome_iff_exists.mp (hh h.calls)
    rw [List.length_cons] at hroom
    obtain ⟨fuel',u,h',y,hloop,hu,hy⟩ := ih (b := b ++ [c]) (x := if c = 0 then fresh (b.length + 1) else 0)
      (by rw [List.length_append, List.length_singleton]; omega) (h := h.called) hh ht
    refine ⟨max fuel fuel' + 1,u,h',y,enough_fuel fun more hle => ?_,hu,?_⟩
    · have hstep : port.readStringLoop timeout (more+1) s (filled b x) h = port.readStringLoop timeout more t
          (filled (b ++ [c]) (if c = 0 then fresh (b.length + 1) else 0)) h.called := by
        rw [Port.readStringLoop, Port.timedRead_mono hread (by omega)]
        dsimp only
        rw [if_pos (Int.natCast_nonneg _), Int.toNat_natCast, UInt8.ofNat_toNat,
          bind_ok (filled_concat (by omega) hout)]
      rw [hstep, hloop more (by omega), List.append_assoc, List.singleton_append]
    · cases bytes with
      | nil =>
        obtain rfl : y = if c = 0 then fresh (b.length + 1) else 0 := hy
        change if c = 0 then _ else _
        split_ifs with hc
        · exact ⟨h.calls,fresh,b.length + 1,hout,rfl⟩
        · rfl
      | cons d bytes => exact hy

private theorem construct_empty {h : Heap} (hh : Ample h) :
    construct 10 (.cstr (some [0])) h = .ok (filled [] 0) h.called := by
  obtain ⟨fresh,hout⟩ := Option.isSome_iff_exists.mp (hh h.calls)
  have hreserve : init.reserve 0 h = .ok (true, filled [] 0) h.called :=
    reserve_granted (by decide) hout rfl
  rw [construct, check_bind (show strlen [0] = .ok 0 from rfl), copy]
  exact bind_ok hreserve _

theorem readString_filled {σ : Type} {port : Port σ} {timeout : UInt32} {unread : σ → List UInt8}
    (hf : port.Feeds timeout unread) {bytes : List UInt8} (hroom : bytes.length < 65535) {h : Heap} (hh : Ample h)
    {s : σ} (hs : unread s = bytes) : ∃ fuel t h' y, (∀ more ≥ fuel, port.readString timeout more s h =
      .ok (some (filled bytes y, t)) h') ∧ unread t = [] ∧ Behind h bytes 0 y := by
  have hroom' : ([] : List UInt8).length + bytes.length < 65535 := by rwa [List.length_nil, Nat.zero_add]
  obtain ⟨fuel,t,h',y,hloop,ht,hy⟩ := readStringLoop_filled hf bytes (x := 0) hroom' (h := h.called) hh hs
  refine ⟨fuel,t,h',y,fun more hle => ?_,ht,hy⟩
  rw [Port.readString, bind_ok (construct_empty hh)]
  exact hloop more hle

/-- Whatever stream delivers the bytes and whatever is found in new memory, the String has them
all, in their order, and a NUL behind them. -/
def ReadsBack (bytes : List UInt8) : Prop :=
  ∀ (σ : Type) (port : Port σ) (timeout : UInt32) (unread : σ → List UInt8), port.Feeds timeout unread →
    ∀ s, unread s = bytes → ∀ h, Ample h → ∃ fuel t h' ret, (∀ more ≥ fuel, port.readString timeout more s h =
      .ok (some (ret, t)) h') ∧ unread t = [] ∧ ret.Shows (some bytes)

/-- `readString` keeps the bytes and the terminator if and only if the last byte is not zero and
the length has room in a String. -/
theorem readString_readsBack (bytes : List UInt8) :
    ReadsBack bytes ↔ bytes.length < 65535 ∧ bytes.getLast? ≠ some 0 := by
  constructor
  · intro hreads
    obtain ⟨fuel,t,h',ret,hret,_,hshows⟩ := hreads _ linePort 1 Prod.fst linePort_feeds (bytes,0) rfl onesHeap onesHeap_ample
    have hroom : bytes.length < 65535 := by
      have hlength := hshows.within
      rw [hshows.len_toNat, Option.getD_some] at hlength
      omega
    refine ⟨hroom,fun hlast => ?_⟩
    obtain ⟨fuel',t',h'',y,hfilled,_,hy⟩ := readString_filled linePort_feeds hroom onesHeap_ample (s := (bytes,0)) rfl
    rw [Behind, hlast] at hy
    obtain ⟨_,_,_,hout,rfl⟩ := hy
    obtain rfl := Option.some.inj hout
    obtain ⟨hsome,_⟩ := EStateM.Result.ok.inj (fuel_unique hret hfilled)
    obtain ⟨rfl,_⟩ := Prod.mk.inj (Option.some.inj hsome)
    have hone : (1 : UInt8) = 0 := filled_shows hshows
    exact absurd hone (by decide)
  · rintro ⟨hroom,hlast⟩ σ port timeout unread hf s hs h hh
    obtain ⟨fuel,t,h',y,hfilled,ht,hy⟩ := readString_filled hf hroom hh hs
    have hzero : y = 0 := by
      unfold Behind at hy
      cases hc : bytes.getLast? with
      | none =>
        rw [hc] at hy
        exact hy
      | some c =>
        rw [hc] at hy hlast
        dsimp only at hy
        rwa [if_neg fun h0 => hlast (congrArg some h0)] at hy
    subst hzero
    exact ⟨fuel,t,h',filled bytes 0,hfilled,ht,exactly_shows hroom⟩

/-- Of the bytes `a` and zero, with a one found behind them, the String is not terminated. -/
theorem readString_unterminated : ∃ t h', linePort.readString 1 4 ([97,0],0) onesHeap =
    .ok (some (⟨some [97,0,1],2,2⟩, t)) h' :=
  ⟨_,_,rfl⟩

end ArduinoAT90USB.Core
