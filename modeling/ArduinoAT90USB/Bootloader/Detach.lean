import ArduinoAT90USB.Bootloader.Trace

/-! A host that leaves in the middle of a command. `FetchNextCommandByte` reports it by an
in-band 0 that no caller tells from data, so a programming command whose operands were cut
short programs bytes nobody sent. -/
namespace ArduinoAT90USB.Bootloader
open Foundation Foundation.AvrInt Foundation.TaskLogic

/-- No fetch has failed since a page was last erased. -/
def whole : List Event → Bool
  | [] => true
  | .erase _ :: _ => true
  | .fetch none :: _ => false
  | _ :: log => whole log

/-- The word is made of the byte, or of the two bytes, received last. -/
def wordReceived (w : UInt16) : List Event → Bool
  | .fetch (some high) :: .fetch (some low) :: _ =>
    w = toUInt16 (promote high <<< 8 ||| promote low) || w = high.toUInt16
  | .fetch (some b) :: _ => w = b.toUInt16
  | _ => false

/-- What an access passes on has just been received; a page is written only if its
payload has come in whole. -/
def Event.backed : Event → List Event → Bool
  | .fill _ w, log => wordReceived w log
  | .eepromWrite _ b, log | .lockBitsSet b, log => log.head? = some (.fetch (some b))
  | .write _, log => whole log
  | _, _ => true

def Sourced : List Event → Prop
  | [] => True
  | e :: log => e.backed log = true ∧ Sourced log

/-- The programming command at the head of the bytes, if there is one, has all its operands. -/
def operandsArrive : List UInt8 → Bool
  | [] => true
  | c :: rest =>
    if c = 'l'.toUInt8 ∨ c = 'C'.toUInt8 ∨ c = 'c'.toUInt8 ∨ c = 'D'.toUInt8 then !rest.isEmpty
    else if c = 'B'.toUInt8 then match rest with
      | high :: low :: t :: payload => t != 'E'.toUInt8 && t != 'F'.toUInt8 ||
          decide ((toUInt16 (promote high <<< 8 ||| promote low)).toNat ≤ payload.length)
      | _ => true
    else true

/-- The host stays, or has sent the operands of the next command before it leaves. -/
def Boot.Complete (s : Boot) : Prop := s.usb.fuse = none ∨ operandsArrive s.usb.out.flatten = true

theorem backed_of_programs {e : Event} (h : e.programs = false) (log : List Event) : e.backed log = true := by
  cases e <;> first | rfl | cases h

theorem sourced_passive : Passive (fun s => Sourced s.log) (fun s => Sourced s.log) :=
  passive_of_log fun _ log he h => ⟨backed_of_programs he log,h⟩

theorem sourced_of_suffix {log later : List Event} (h : log <:+ later) (hs : Sourced later) : Sourced log := by
  obtain ⟨new,rfl⟩ := h
  induction new with
  | nil => exact hs
  | cons e new ih => exact ih hs.2

theorem whole_of_not_mem {log : List Event} (h : Event.fetch none ∉ log) : whole log = true := by
  induction log with
  | nil => rfl
  | cons e log ih =>
    rw [List.mem_cons, not_or] at h
    obtain ⟨hne,hlog⟩ := h
    cases e with
    | fetch b =>
      cases b with
      | none => exact absurd rfl hne
      | some b => exact ih hlog
    | erase a => rfl
    | respond | fill | write | rwwEnable | flashRead | eepromRead | eepromWrite | lockBitsSet => exact ih hlog

theorem ends_operand {I W : Boot → Prop} {s : Boot} (hc : s.usb.fuse = none ∨ s.usb.out.flatten ≠ [])
    {k : UInt8 → Task Unit} (hk : ∀ b t, t.dev = s.dev → t.log = .fetch (some b) :: s.log →
      t.usb.out.flatten = s.usb.out.flatten.tail → (t.usb.fuse = none ↔ s.usb.fuse = none) → Ends I W (k b t))
    (hwait : ∀ t : Boot, t.log = s.log → s.usb.fuse = none → W t) :
    Ends I W ((fetchNextCommandByte >>= k) s) := by
  refine ends_fetch (fun t hd hf hl hgone hfuse => ?_) fun t _ hl _ => hwait t hl
  cases hbytes : s.usb.out.flatten with
  | nil => exact absurd hbytes (hc.elim (fun hn h => absurd hn (hgone h)) id)
  | cons b rest =>
    rw [hbytes] at hl hf
    exact hk b t hd hl (by rw [hbytes]; exact hf) hfuse

theorem wordReceived_byte (b : UInt8) (log : List Event) :
    wordReceived b.toUInt16 (.fetch (some b) :: log) = true := by
  unfold wordReceived
  split <;> simp_all

abbrev EndsSourced {α : Type} (r : EStateM.Result Unit Boot α) : Prop :=
  Ends (fun s => Sourced s.log) (fun s => Sourced s.log) r

/-- A command that fetches one operand and passes it on. -/
theorem passOn_sourced {s : Boot} (h : Sourced s.log) (hc : s.usb.fuse = none ∨ s.usb.out.flatten ≠ [])
    (e : UInt8 → Device → Event) (f : UInt8 → Device → Device → Device) {k : Task Unit}
    (he : ∀ b d log, (e b d).backed (.fetch (some b) :: log) = true)
    (hk : Keeps (fun s : Boot => Sourced s.log) (fun s => Sourced s.log) k) :
    EndsSourced ((fetchNextCommandByte >>= fun b => getDevice >>= fun d => perform (e b d) (f b d) >>= fun _ => k)
      s) := by
  refine ends_operand hc (fun b t hd hl _ _ => ?_) fun t hl _ => by rw [hl]; exact h
  refine hk.ends _ ?_
  change Sourced (e b t.dev :: t.log)
  rw [hl]
  exact ⟨he _ _ _,rfl,h⟩

private theorem remaining {n : Nat} {s t : Boot} (hc : s.usb.fuse = none ∨ n+1 ≤ s.usb.out.flatten.length)
    (hf : t.usb.out.flatten = s.usb.out.flatten.tail) (hfuse : t.usb.fuse = none ↔ s.usb.fuse = none) :
    t.usb.fuse = none ∨ n ≤ t.usb.out.flatten.length := by
  rcases hc with hc | hc
  · exact .inl (hfuse.mpr hc)
  · right
    rw [hf, List.length_tail]
    omega

private theorem next_arrives {n : Nat} {s : Boot} (hc : s.usb.fuse = none ∨ n+1 ≤ s.usb.out.flatten.length) :
    s.usb.fuse = none ∨ s.usb.out.flatten ≠ [] := by
  refine hc.imp_right fun h hnil => ?_
  rw [hnil] at h
  exact absurd h (Nat.not_succ_le_zero n)

theorem writeEepromLoop_sourced (n : Nat) {s : Boot} (h : Sourced s.log)
    (hc : s.usb.fuse = none ∨ n ≤ s.usb.out.flatten.length) : EndsSourced (writeEepromLoop n s) := by
  induction n generalizing s with
  | zero => exact h
  | succ n ih =>
    refine ends_operand (next_arrives hc) (fun b t hd hl hf hfuse => ?_) fun t hl _ => by rw [hl]; exact h
    have hs : Sourced (.eepromWrite t.dev.eepromPointer b :: t.log) := by
      rw [hl]
      exact ⟨by simp [Event.backed],rfl,h⟩
    exact ih hs (remaining hc hf hfuse)

/-- The flash loop. With a low byte pending, that byte was the last one received. -/
theorem writeFlashLoop_sourced (n : Nat) (highByte : Bool) (lowByte : UInt8) {s : Boot}
    (h : Sourced s.log) (hw : whole s.log = true)
    (hphase : highByte = true → s.log.head? = some (.fetch (some lowByte)))
    (hc : s.usb.fuse = none ∨ n ≤ s.usb.out.flatten.length) :
    Ends (fun t => Sourced t.log ∧ whole t.log = true) (fun t => Sourced t.log)
      (writeFlashLoop n highByte lowByte s) := by
  induction n generalizing highByte lowByte s with
  | zero => exact ⟨h,hw⟩
  | succ n ih =>
    cases highByte with
    | false =>
      refine ends_operand (next_arrives hc) (fun b t hd hl hf hfuse => ?_) fun t hl _ => by rw [hl]; exact h
      exact ih true b (by rw [hl]; exact ⟨rfl,h⟩) (by rw [hl]; exact hw) (fun _ => by rw [hl]; rfl)
        (remaining hc hf hfuse)
    | true =>
      refine ends_operand (next_arrives hc) (fun b t hd hl hf hfuse => ?_) fun t hl _ => by rw [hl]; exact h
      obtain ⟨before,hbefore⟩ := List.head?_eq_some_iff.mp (hphase rfl)
      have hs : Sourced (.fill t.dev.currAddress (toUInt16 (promote b <<< 8 ||| promote lowByte)) :: t.log) := by
        rw [hl]
        exact ⟨by simp [Event.backed, wordReceived, hbefore],rfl,h⟩
      have hwhole : whole (.fill t.dev.currAddress (toUInt16 (promote b <<< 8 ||| promote lowByte)) :: t.log) =
          true := by
        rw [hl]
        exact hw
      exact ih false lowByte hs hwhole (fun hfalse => absurd hfalse (by decide)) (remaining hc hf hfuse)

theorem writeFlashBlock_sourced {s : Boot} (h : Sourced s.log) (blockSize : UInt16)
    (hc : s.usb.fuse = none ∨ blockSize.toNat ≤ s.usb.out.flatten.length) :
    EndsSourced (writeFlashBlock blockSize s) := by
  have hloop := writeFlashLoop_sourced blockSize.toNat false 0
    (s := ⟨s.dev.bootPageErase s.dev.currAddress, s.usb, .erase s.dev.currAddress :: s.log⟩)
    ⟨rfl,h⟩ rfl (fun hf => absurd hf (by decide)) hc
  exact ends_bind (k := fun _ => bootPageWrite s.dev.currAddress) hloop fun _ t ht => ⟨ht.2,ht.1⟩

theorem writeBlock_sourced {s : Boot} (h : Sourced s.log) (blockSize : UInt16) (memoryType : UInt8)
    (hc : s.usb.fuse = none ∨ blockSize.toNat ≤ s.usb.out.flatten.length) :
    EndsSourced (writeBlock blockSize memoryType s) := by
  refine ends_bind ?_ fun _ => (sourced_passive.respond _).ends
  by_cases ht : memoryType = 'F'.toUInt8
  · rw [writePayload, if_pos ht]
    exact writeFlashBlock_sourced h blockSize hc
  · rw [writePayload, if_neg ht]
    exact writeEepromLoop_sourced _ h hc

theorem operandsArrive_block (high low t : UInt8) (payload : List UInt8) :
    operandsArrive ('B'.toUInt8 :: high :: low :: t :: payload) = true ↔
      (t ≠ 'E'.toUInt8 ∧ t ≠ 'F'.toUInt8) ∨
        (toUInt16 (promote high <<< 8 ||| promote low)).toNat ≤ payload.length := by
  rw [operandsArrive, if_neg (by decide), if_pos rfl]
  simp

theorem operandsArrive_operand {c : UInt8}
    (hc : c = 'l'.toUInt8 ∨ c = 'C'.toUInt8 ∨ c = 'c'.toUInt8 ∨ c = 'D'.toUInt8) (rest : List UInt8) :
    operandsArrive (c :: rest) = true ↔ rest ≠ [] := by
  simp [operandsArrive, hc]

theorem block_sourced {s : Boot} (h : Sourced s.log)
    (hc : s.usb.fuse = none ∨ operandsArrive ('B'.toUInt8 :: s.usb.out.flatten) = true) :
    EndsSourced (readWriteMemoryBlock 'B'.toUInt8 s) := by
  refine ends_block (Q := Sourced) (fun b log hlog => ⟨rfl,hlog⟩) h (fun _ _ _ ht _ => ht) ?_ ?_
  · exact fun _ t ht _ => (sourced_passive.respond _).ends t ht
  · intro high low t payload u hbytes ht hu _ hpayload hfuse
    rw [if_neg (by decide)]
    refine writeBlock_sourced hu _ _ ?_
    rw [hfuse, hpayload]
    rw [hbytes, operandsArrive_block] at hc
    exact hc.imp_right fun harrive => harrive.resolve_left ht

theorem eraseApplication_sourced :
    Keeps (fun s : Boot => Sourced s.log) (fun s => Sourced s.log) eraseApplication := by
  refine keeps_seq (keeps_forM _ _ fun a _ => ?_) (sourced_passive.respond _)
  exact ⟨fun s h => ⟨rfl,rfl,h⟩⟩

/-- A failed fetch means that the host is gone, with nothing left to read. -/
def Boot.Gone (s : Boot) : Prop := Event.fetch none ∈ s.log → s.usb.out = []

theorem Usb.awaitIn_used {u : Usb} (h : u.out = []) : u.awaitIn.2.out = [] := by
  unfold Usb.awaitIn
  split
  · exact h
  · split
    · exact h
    · exact h
    · exact congrArg (List.take 1) h

theorem Usb.writeNextResponseByte_used (b : UInt8) {u : Usb} (h : u.out = []) :
    (u.writeNextResponseByte b).out = [] := by
  have hwait := Usb.awaitIn_used (u.clearIn_out.trans h)
  unfold Usb.writeNextResponseByte
  split
  · exact h
  · split <;> rename_i he <;> rw [he] at hwait <;> exact hwait

theorem Usb.finishResponse_used {u : Usb} (h : u.out = []) : u.finishResponse.out = [] := by
  have hsent := u.clearIn_out.trans h
  have hwait := Usb.awaitIn_used hsent
  unfold Usb.finishResponse
  cases hfull : u.isInAllowed with
  | true =>
    cases he : u.clearIn.awaitIn with
    | mk ready w =>
      rw [he] at hwait
      cases ready with
      | true => simpa [he, Usb.clearOut] using congrArg List.tail hwait
      | false => simpa [he] using hwait
  | false =>
    cases he : u.clearIn.awaitIn with
    | mk ready v =>
      rw [he] at hwait
      have hlast := Usb.awaitIn_used (v.clearIn_out.trans hwait)
      cases ready with
      | false => exact hwait
      | true =>
        cases hw : v.clearIn.awaitIn with
        | mk ready w =>
          rw [hw] at hlast
          cases ready with
          | true => simpa [hw, Usb.clearOut] using congrArg List.tail hlast
          | false => simpa [hw] using hlast

private theorem gone_cons {s : Boot} (h : s.Gone) {e : Event} (he : e ≠ .fetch none)
    (hm : Event.fetch none ∈ e :: s.log) : s.usb.out = [] := by
  rcases List.mem_cons.mp hm with hm | hm
  · exact absurd hm.symm he
  · exact h hm

private theorem access_ne {e : Event} (h : e.isAccess = true) : e ≠ .fetch none := by
  rintro rfl
  cases h

theorem gone_closed : FullyClosed Boot.Gone Boot.Gone where
  fetch := by
    constructor
    intro s h
    cases hn : PacketQueue.next s.usb.out with
    | some x =>
      rw [fetch_byte hn]
      intro hm
      have hout := gone_cons h (by simp) hm
      rw [hout] at hn
      cases hn
    | none =>
      cases hf : s.usb.fuse with
      | none => rw [fetch_waits hn hf]; exact fun _ => rfl
      | some n => rw [fetch_unattached hn hf]; exact fun _ => rfl
  respond b := ⟨fun s h hm => Usb.writeNextResponseByte_used b (gone_cons h (by simp) hm)⟩
  assign _ _ := ⟨fun s h => h⟩
  rwwEnable := ⟨fun s h hm => gone_cons (s := s) h (by simp) hm⟩
  perform e f he _ _ := ⟨fun s h hm => gone_cons (s := s) h (access_ne he) hm⟩
  observe e f he := ⟨fun s h hm => gone_cons (s := s) h (access_ne (he s.dev).1) hm⟩
  paging e f he := ⟨fun s h hm => gone_cons (s := s) h (access_ne he) hm⟩

theorem cdcTask_gone {s : Boot} (h : s.Gone) : (final (cdcTask s)).Gone := by
  refine cdcTask_final h (fun _ => ?_) fun t ht hm => Usb.finishResponse_used (ht hm)
  exact (keeps_bind gone_closed.fetch gone_closed.command).ends s h

theorem cdcTask_sourced {s : Boot} (hgone : s.Gone) (h : Sourced s.log) (hc : s.Complete) :
    Sourced (final (cdcTask s)).log := by
  refine cdcTask_final (I := fun s => Sourced s.log) h (fun hout => ?_) fun t ht => ht
  refine ends_fetch (fun t hd hf hl _ hfuse => ?_) fun t _ hl _ _ => by rw [hl]; exact h
  have ht : Sourced t.log := by rw [hl]; exact ⟨rfl,h⟩
  cases hbytes : s.usb.out.flatten with
  | nil =>
    refine (sourced_passive.traffic.dispatch 0 (fun _ => sourced_passive.readBlock)
      (fun _ => sourced_passive.readFlashWord) (fun _ => eraseApplication_sourced) ?_ ?_ ?_ ?_ ?_ ?_).ends t ht
    all_goals exact fun h => absurd h (by decide)
  | cons c rest =>
    rw [hbytes] at hf
    have harrive : t.usb.fuse = none ∨ operandsArrive (c :: t.usb.out.flatten) = true := by
      rw [hfuse, hf]
      simpa only [Boot.Complete, hbytes, List.tail_cons] using hc
    have hoperand (hp : c = 'l'.toUInt8 ∨ c = 'C'.toUInt8 ∨ c = 'c'.toUInt8 ∨ c = 'D'.toUInt8) :
        t.usb.fuse = none ∨ t.usb.out.flatten ≠ [] := harrive.imp_right (operandsArrive_operand hp _).mp
    change EndsSourced (processCommand c t)
    by_cases hm : c = 'm'.toUInt8
    · subst hm
      have hbefore : whole s.log = true := whole_of_not_mem fun hmem => hout (hgone hmem)
      have hwhole : whole t.log = true := by
        rw [hl, hbytes]
        exact hbefore
      exact (sourced_passive.respond _).ends _ ⟨hwhole,ht⟩
    by_cases hb : c = 'B'.toUInt8
    · subst hb
      exact block_sourced ht harrive
    by_cases hlock : c = 'l'.toUInt8
    · subst hlock
      refine ends_operand (hoperand (by decide)) (fun b v _ hv _ _ => ?_) fun v hv _ => by rw [hv]; exact ht
      refine (sourced_passive.respond _).ends _ ?_
      change Sourced (.lockBitsSet b :: v.log)
      rw [hv]
      exact ⟨by simp [Event.backed],rfl,ht⟩
    by_cases hhigh : c = 'C'.toUInt8
    · subst hhigh
      exact passOn_sourced ht (hoperand (by decide)) (fun b d => .fill d.currAddress b.toUInt16) _
        (fun b _ => wordReceived_byte b) (sourced_passive.respond _)
    by_cases hlow : c = 'c'.toUInt8
    · subst hlow
      exact passOn_sourced ht (hoperand (by decide)) (fun b d => .fill (d.currAddress ||| 0x01) b.toUInt16) _
        (fun b _ => wordReceived_byte b) (keeps_seq (sourced_passive.assign _ fun _ => rfl) (sourced_passive.respond _))
    by_cases hd : c = 'D'.toUInt8
    · subst hd
      exact passOn_sourced ht (hoperand (by decide)) (fun b d => .eepromWrite d.eepromPointer b) _
        (fun b d log => by simp [Event.backed]) (keeps_seq (sourced_passive.assign _ fun _ => rfl) (sourced_passive.respond _))
    refine (sourced_passive.traffic.dispatch c (fun _ => sourced_passive.readBlock)
      (fun _ => sourced_passive.readFlashWord) (fun _ => eraseApplication_sourced) ?_ ?_ ?_ ?_ ?_ ?_).ends t ht
    all_goals exact fun h => absurd h (by assumption)

section Missing

abbrev EndsUnsourced {α : Type} (r : EStateM.Result Unit Boot α) : Prop :=
  Ends (fun s => ¬ Sourced s.log) (fun s => ¬ Sourced s.log) r

theorem unsourced_closed : FullyClosed (fun s => ¬ Sourced s.log) (fun s => ¬ Sourced s.log) :=
  fullyClosed_of_log (P := fun log => ¬ Sourced log) fun _ _ h hs => h hs.2

theorem ends_missing {I W : Boot → Prop} {s : Boot} (hfuse : s.usb.fuse ≠ none) (hnil : s.usb.out.flatten = [])
    {k : UInt8 → Task Unit} (hk : ∀ t, t.log = .fetch none :: s.log → Ends I W (k 0 t)) :
    Ends I W ((fetchNextCommandByte >>= k) s) := by
  refine ends_fetch (fun t _ _ hl _ _ => ?_) fun t _ _ _ hn => absurd hn hfuse
  rw [hnil] at hl ⊢
  exact hk t hl

private theorem shorter {n : Nat} {s t : Boot} (hnil : s.usb.out.flatten ≠ [])
    (hshort : s.usb.out.flatten.length < n+1) (hf : t.usb.out.flatten = s.usb.out.flatten.tail) :
    t.usb.out.flatten.length < n := by
  have hpos := List.length_pos_iff.mpr hnil
  rw [hf, List.length_tail]
  omega

theorem writeEepromLoop_unsourced (n : Nat) {s : Boot} (hfuse : s.usb.fuse ≠ none)
    (hshort : s.usb.out.flatten.length < n) : EndsUnsourced (writeEepromLoop n s) := by
  induction n generalizing s with
  | zero => exact absurd hshort (Nat.not_lt_zero _)
  | succ n ih =>
    by_cases hnil : s.usb.out.flatten = []
    · refine ends_missing hfuse hnil fun t hl => ?_
      refine (unsourced_closed.traffic.writeEepromLoop unsourced_closed.program n).ends _ ?_
      change ¬ Sourced (.eepromWrite t.dev.eepromPointer 0 :: t.log)
      rw [hl]
      exact fun h => absurd h.1 (by simp [Event.backed])
    · refine ends_operand (.inr hnil) (fun b t _ _ hf hu => ?_) fun t _ hn => absurd hn hfuse
      exact ih (s := ⟨_, t.usb, _⟩) (fun h => hfuse (hu.mp h)) (shorter hnil hshort hf)

private theorem broken_fetch {n : Nat} {s t : Boot} (hf : t.usb.out.flatten = s.usb.out.flatten.tail)
    (hl : t.log = .fetch s.usb.out.flatten.head? :: s.log)
    (h : whole s.log = false ∨ s.usb.out.flatten.length < n+1) :
    whole t.log = false ∨ t.usb.out.flatten.length < n := by
  cases hbytes : s.usb.out.flatten with
  | nil =>
    rw [hl, hbytes]
    exact .inl rfl
  | cons b rest =>
    refine h.imp (fun hw => ?_) fun hshort => shorter (by simp [hbytes]) hshort hf
    rw [hl, hbytes]
    exact hw

/-- Once a fetch has failed the payload stays broken, whatever else the loop does. -/
theorem writeFlashLoop_broken (n : Nat) (highByte : Bool) (lowByte : UInt8) {s : Boot}
    (hfuse : s.usb.fuse ≠ none) (h : whole s.log = false ∨ s.usb.out.flatten.length < n) :
    Ends (fun t => whole t.log = false) (fun _ => False) (writeFlashLoop n highByte lowByte s) := by
  induction n generalizing highByte lowByte s with
  | zero => exact h.resolve_right (Nat.not_lt_zero _)
  | succ n ih =>
    cases highByte with
    | false =>
      refine ends_fetch (fun t _ hf hl _ hu => ?_) fun t _ _ _ hn => absurd hn hfuse
      exact ih true _ (fun h => hfuse (hu.mp h)) (broken_fetch hf hl h)
    | true =>
      refine ends_fetch (fun t _ hf hl _ hu => ?_) fun t _ _ _ hn => absurd hn hfuse
      exact ih false lowByte (fun h => hfuse (hu.mp h)) (broken_fetch (t := t) hf hl h)

theorem writeBlock_unsourced {s : Boot} (hfuse : s.usb.fuse ≠ none) (blockSize : UInt16) (memoryType : UInt8)
    (hshort : s.usb.out.flatten.length < blockSize.toNat) : EndsUnsourced (writeBlock blockSize memoryType s) := by
  refine ends_bind ?_ fun _ => (unsourced_closed.respond _).ends
  by_cases ht : memoryType = 'F'.toUInt8
  · rw [writePayload, if_pos ht]
    have hloop := writeFlashLoop_broken blockSize.toNat false 0
      (s := ⟨s.dev.bootPageErase s.dev.currAddress, s.usb, .erase s.dev.currAddress :: s.log⟩) hfuse (.inr hshort)
    have hwrite : Ends (fun t => ¬ Sourced t.log) (fun _ => False) (writeFlashBlock blockSize s) :=
      ends_bind (k := fun _ => bootPageWrite s.dev.currAddress) hloop fun _ t ht hs => by
        simpa [Event.backed, ht] using hs.1
    exact hwrite.mono (fun _ h => h) fun t h => absurd h id
  · rw [writePayload, if_neg ht]
    exact writeEepromLoop_unsourced _ hfuse hshort

theorem block_unsourced {s : Boot} (hfuse : s.usb.fuse ≠ none)
    (hc : operandsArrive ('B'.toUInt8 :: s.usb.out.flatten) = false) :
    EndsUnsourced (readWriteMemoryBlock 'B'.toUInt8 s) := by
  refine ends_block (Q := fun _ => True) (fun _ _ h => h) trivial (fun _ hn => absurd hn hfuse) ?_ ?_
  · intro hbad
    match hbytes : s.usb.out.flatten with
    | high :: low :: t :: payload =>
      rw [hbytes, ← Bool.not_eq_true, operandsArrive_block] at hc
      exact absurd (.inl (hbad high low t payload hbytes)) hc
    | [] | [_] | [_, _] =>
      rw [hbytes] at hc
      cases hc
  · intro high low t payload u hbytes ht _ _ hpayload hu
    rw [hbytes, ← Bool.not_eq_true, operandsArrive_block, not_or, Nat.not_le] at hc
    rw [if_neg (by decide)]
    exact writeBlock_unsourced (fun hn => hfuse (hu.mp hn)) _ _ (by rw [hpayload]; exact hc.2)

private theorem operand_unsourced {s : Boot} (hfuse : s.usb.fuse ≠ none) (hnil : s.usb.out.flatten = [])
    (e : Device → Event) (f : Device → Device → Device) {k : Task Unit}
    (he : ∀ d log, (e d).backed (.fetch none :: log) = false)
    (hk : Keeps (fun s : Boot => ¬ Sourced s.log) (fun s => ¬ Sourced s.log) k) {m : UInt8 → Task Unit}
    (hm : m 0 = getDevice >>= fun d => perform (e d) (f d) >>= fun _ => k) :
    EndsUnsourced ((fetchNextCommandByte >>= m) s) := by
  refine ends_missing hfuse hnil fun t hl => ?_
  rw [hm]
  refine hk.ends _ ?_
  change ¬ Sourced (e t.dev :: t.log)
  rw [hl]
  exact fun h => absurd h.1 (by simp [he])

theorem processCommand_unsourced {s : Boot} {c : UInt8} (hfuse : s.usb.fuse ≠ none)
    (hc : operandsArrive (c :: s.usb.out.flatten) = false) : EndsUnsourced (processCommand c s) := by
  by_cases hp : c = 'l'.toUInt8 ∨ c = 'C'.toUInt8 ∨ c = 'c'.toUInt8 ∨ c = 'D'.toUInt8
  · have hnil : s.usb.out.flatten = [] := by
      rw [← Bool.not_eq_true, operandsArrive_operand hp] at hc
      exact Classical.not_not.mp hc
    have hrespond := unsourced_closed.respond '\r'.toUInt8
    have hadvance := keeps_seq (unsourced_closed.assign .advance fun _ => rfl) hrespond
    rcases hp with rfl | rfl | rfl | rfl
    · exact operand_unsourced hfuse hnil (fun _ => .lockBitsSet 0) (fun _ => .bootLockBitsSet 0)
        (fun _ _ => rfl) hrespond rfl
    · exact operand_unsourced hfuse hnil (fun d => .fill d.currAddress 0) (fun d => .bootPageFill d.currAddress 0)
        (fun _ _ => rfl) hrespond rfl
    · exact operand_unsourced hfuse hnil (fun d => .fill (d.currAddress ||| 0x01) 0)
        (fun d => .bootPageFill (d.currAddress ||| 0x01) 0) (fun _ _ => rfl) hadvance rfl
    · exact operand_unsourced hfuse hnil (fun d => .eepromWrite d.eepromPointer 0)
        (fun d => .eepromWriteByte d.eepromPointer 0) (fun _ _ => rfl) hadvance rfl
  · by_cases hb : c = 'B'.toUInt8
    · subst hb
      exact block_unsourced hfuse hc
    · simp [operandsArrive, hp, hb] at hc

theorem cdcTask_unsourced {s : Boot} (hc : ¬ s.Complete) : ¬ Sourced (final (cdcTask s)).log := by
  obtain ⟨hfuse,harrive⟩ := not_or.mp hc
  rw [Bool.not_eq_true] at harrive
  have hout : s.usb.out ≠ [] := by
    intro h
    rw [h] at harrive
    cases harrive
  have hrun : EndsUnsourced (((fetchNextCommandByte >>= processCommand) >>= fun _ => finishResponse) s) := by
    refine ends_bind (J := fun s : Boot => ¬ Sourced s.log) ?_ fun _ t ht => by exact ht
    refine ends_fetch (fun t _ hf _ _ hu => ?_) fun t _ _ _ hn => absurd hn hfuse
    refine processCommand_unsourced (fun hn => hfuse (hu.mp hn)) ?_
    rw [hf]
    cases hbytes : s.usb.out.flatten with
    | nil => rw [hbytes] at harrive; cases harrive
    | cons c rest => rw [hbytes] at harrive; exact harrive
  rw [cdcTask_busy hout]
  exact hrun.final

end Missing

/-- Whole runs from an empty log, with the host leaving at any point: everything programmed
was received, and every page written had its payload, exactly if no programming command
is started whose operands do not arrive. -/
theorem only_received_is_programmed (dev : Device) (usb : Usb) (n : Nat) :
    Sourced (runTasks n ⟨dev, usb, []⟩).log ↔ ∀ k < n, (runTasks k ⟨dev, usb, []⟩).Complete := by
  have hstart : Boot.Gone ⟨dev, usb, []⟩ := fun h => absurd h List.not_mem_nil
  have hrun := runTasks_iff (P := fun s => Sourced s.log) (C := Boot.Complete) (fun s => cdcTask_gone)
    (fun s hs => ⟨fun h => ⟨sourced_of_suffix (cdcTask_extends s) h,
      Classical.byContradiction fun hc => cdcTask_unsourced hc h⟩,fun h => cdcTask_sourced hs h.1 h.2⟩) n hstart
  exact hrun.trans (and_iff_right trivial)

/-- A flash block of two bytes whose host leaves after the header: a word of zeros is programmed. -/
theorem zeros_are_programmed :
    ¬ ∀ (usb : Usb) (n : Nat), Sourced (runTasks n ⟨.reset, usb, []⟩).log := by
  intro h
  have hs := h {Usb.attached [['B'.toUInt8, 0x00, 0x02, 'F'.toUInt8]] with fuse := some 0} 1
  have hfill : [.fill 0 0, .fetch none, .fetch none, .erase 0, .fetch (some 'F'.toUInt8), .fetch (some 0x02),
      .fetch (some 0x00), .fetch (some 'B'.toUInt8)] <:+
      (runTasks 1 ⟨.reset, {Usb.attached [['B'.toUInt8, 0x00, 0x02, 'F'.toUInt8]] with fuse := some 0}, []⟩).log := by
    decide
  exact absurd (sourced_of_suffix hfill hs).1 (by decide)

end ArduinoAT90USB.Bootloader
