import ArduinoAT90USB.Bootloader.Command
import ArduinoAT90USB.Bootloader.Response

/-! `CDC_Task` carries out the commands it is sent. `Runs` is the big-step reading of a
program of the bootloader: which operand bytes it takes, what becomes of the device and
what it answers, wherever the packet boundaries fall. -/
namespace ArduinoAT90USB.Bootloader
open Foundation Foundation.AvrInt Foundation.TaskLogic Foundation.Framing

def Usb.writeAll (bytes : List UInt8) (u : Usb) : Usb :=
  bytes.foldl (fun u b => u.writeNextResponseByte b) u

/-- From device `d`, with `bytes` next in the packets `front`, the program ends in `e`
having answered `r`. The packets `back` are not touched, nor any if no byte is taken. -/
structure Runs (m : Task Unit) (d : Device) (bytes : List UInt8) (e : Device) (r : List UInt8) : Prop where
  run : ∀ (usb : Usb) (log : List Event) (front back : List (List UInt8)) (rest : List UInt8),
    usb.out = front ++ back → front.flatten = bytes ++ rest →
    ∃ left after, left.flatten = rest ∧ (front ≠ [] → left ≠ []) ∧ (bytes = [] → left = front) ∧
      m ⟨d, usb, log⟩ = .ok () ⟨e, Usb.writeAll r {usb with out := left ++ back}, after⟩

section Rules
variable {d e e₁ : Device} {bytes more r : List UInt8}

private theorem out_self {usb : Usb} {q : List (List UInt8)} (h : usb.out = q) : {usb with out := q} = usb := by
  subst h
  rfl

theorem runs_pure : Runs (pure ()) d [] d [] := by
  constructor
  intro usb log front back rest ho hf
  refine ⟨front,log,hf,id,fun _ => rfl,?_⟩
  rw [out_self ho]
  rfl

theorem runs_fetch {k : UInt8 → Task Unit} {b : UInt8} (h : Runs (k b) d bytes e r) :
    Runs (fetchNextCommandByte >>= k) d (b :: bytes) e r := by
  constructor
  intro usb log front back rest ho hf
  obtain ⟨left,hl,hx,hn⟩ := PacketQueue.next_append hf back
  rw [← ho] at hn
  have hstep : fetchNextCommandByte ⟨d, usb, log⟩ =
      .ok b ⟨d, {usb with out := left ++ back}, .fetch (some b) :: log⟩ := fetch_byte hn
  obtain ⟨left₁,after,hr,hne,_,hm⟩ := h.run {usb with out := left ++ back} (.fetch (some b) :: log) left back rest rfl hx
  refine ⟨left₁,after,hr,fun _ => hne hl,fun hb => absurd hb (List.cons_ne_nil _ _),?_⟩
  rw [bind_ok hstep, hm]

theorem runs_getDevice {k : Device → Task Unit} (h : Runs (k d) d bytes e r) :
    Runs (getDevice >>= k) d bytes e r :=
  ⟨fun usb log front back rest ho hf => h.run usb log front back rest ho hf⟩

theorem runs_observe {α : Type} {k : α → Task Unit} {ev : Device → Event} {f : Device → α}
    (h : Runs (k (f d)) d bytes e r) : Runs (observe ev f >>= k) d bytes e r :=
  ⟨fun usb log front back rest ho hf => h.run usb (ev d :: log) front back rest ho hf⟩

theorem runs_perform {k : Task Unit} {ev : Event} {f : Device → Device}
    (h : Runs k (f d) bytes e r) : Runs (perform ev f >>= fun _ => k) d bytes e r :=
  ⟨fun usb log front back rest ho hf => h.run usb (ev :: log) front back rest ho hf⟩

theorem runs_assign {k : Task Unit} {f : Device → Device}
    (h : Runs k (f d) bytes e r) : Runs (assign f >>= fun _ => k) d bytes e r :=
  ⟨fun usb log front back rest ho hf => h.run usb log front back rest ho hf⟩

/-- Nothing is fetched once the answer has begun: a host that leaves meanwhile may take
the remaining packets with it. -/
theorem runs_respond {k : Task Unit} {b : UInt8} (h : Runs k d [] e r) :
    Runs (writeNextResponseByte b >>= fun _ => k) d [] e (b :: r) := by
  constructor
  intro usb log front back rest ho hf
  obtain ⟨left,after,_,_,hl,hm⟩ := h.run (usb.writeNextResponseByte b) (.respond b :: log)
    (usb.writeNextResponseByte b).out [] (usb.writeNextResponseByte b).out.flatten (by simp) rfl
  rw [hl rfl, List.append_nil] at hm
  refine ⟨front,after,hf,id,fun _ => rfl,?_⟩
  rw [out_self ho]
  exact hm

theorem runs_respondAll (bytes : List UInt8) : Runs (respondAll bytes) d [] d bytes := by
  induction bytes with
  | nil => exact runs_pure
  | cons b rest ih => exact runs_respond ih

theorem runs_respond_last {b : UInt8} : Runs (writeNextResponseByte b) d [] d [b] :=
  runs_respondAll [b]

theorem runs_seq {m k : Task Unit} (hm : Runs m d bytes e₁ []) (hk : Runs k e₁ more e r) :
    Runs (m >>= fun _ => k) d (bytes ++ more) e r := by
  constructor
  intro usb log front back rest ho hf
  obtain ⟨left,after,hl,hne,hs,he⟩ := hm.run usb log front back (more ++ rest) ho (by rw [hf, List.append_assoc])
  obtain ⟨left₁,after₁,hl₁,hne₁,hs₁,he₁⟩ := hk.run {usb with out := left ++ back} after left back rest rfl hl
  refine ⟨left₁,after₁,hl₁,fun h => hne₁ (hne h),?_,?_⟩
  · intro h
    obtain ⟨hb,hmore⟩ := List.append_eq_nil_iff.mp h
    rw [hs₁ hmore, hs hb]
  · rw [bind_ok he]
    exact he₁

theorem runs_then {m k : Task Unit} (hm : Runs m d bytes e₁ []) (hk : Runs k e₁ [] e r) :
    Runs (m >>= fun _ => k) d bytes e r := by
  simpa only [List.append_nil] using runs_seq hm hk

theorem runs_last {m : Task Unit} (h : Runs (m >>= fun _ => pure ()) d bytes e r) : Runs m d bytes e r := by
  simpa only [bind_pure_unit] using h

theorem runs_ite {p : Prop} [Decidable p] {m k : Task Unit} {x y : Device × List UInt8}
    (hm : p → Runs m d bytes x.1 x.2) (hk : ¬ p → Runs k d bytes y.1 y.2) :
    Runs (if p then m else k) d bytes (if p then x else y).1 (if p then x else y).2 := by
  by_cases h : p
  · simpa only [if_pos h] using hm h
  · simpa only [if_neg h] using hk h

theorem runs_skip {p : Prop} [Decidable p] {m k : Task Unit} (hp : ¬ p) (hk : Runs k d bytes e r) :
    Runs (if p then m else k) d bytes e r := by
  rwa [if_neg hp]

end Rules

theorem runs_advanceIf (highByte : Bool) (d : Device) :
    Runs (advanceIf highByte) d [] (if highByte then d.advance else d) [] := by
  cases highByte with
  | false => exact runs_pure
  | true => exact runs_assign runs_pure

theorem runs_readFlashLoop (n : Nat) (highByte : Bool) (d : Device) :
    Runs (readFlashLoop n highByte) d [] (d.readFlash n highByte).1 (d.readFlash n highByte).2 := by
  induction n generalizing highByte d with
  | zero => exact runs_pure
  | succ n ih =>
    refine runs_getDevice (runs_observe (runs_respond ?_))
    exact runs_seq (runs_advanceIf highByte d) (ih _ _)

theorem runs_readEepromLoop (n : Nat) (d : Device) :
    Runs (readEepromLoop n) d [] (d.readEeprom n).1 (d.readEeprom n).2 := by
  induction n generalizing d with
  | zero => exact runs_pure
  | succ n ih => exact runs_getDevice (runs_observe (runs_respond (runs_assign (ih _))))

theorem runs_writeFlashLoop (payload : List UInt8) (highByte : Bool) (lowByte : UInt8) (d : Device) :
    Runs (writeFlashLoop payload.length highByte lowByte) d payload (d.writeFlash payload highByte lowByte) [] := by
  induction payload generalizing highByte lowByte d with
  | nil => exact runs_pure
  | cons b rest ih =>
    cases highByte with
    | false => exact runs_fetch (ih _ _ _)
    | true => exact runs_fetch (runs_getDevice (runs_perform (runs_assign (ih _ _ _))))

theorem runs_writeEepromLoop (payload : List UInt8) (d : Device) :
    Runs (writeEepromLoop payload.length) d payload (d.writeEeprom payload) [] := by
  induction payload generalizing d with
  | nil => exact runs_pure
  | cons b rest ih => exact runs_fetch (runs_getDevice (runs_perform (runs_assign (ih _))))

theorem runs_eraseApplication (d : Device) :
    Runs eraseApplication d [] d.eraseApplication ['\r'.toUInt8] := by
  have hloop (pages : List UInt32) (d : Device) :
      Runs (pages.forM fun a => do bootPageErase a; bootPageWrite a) d []
        (pages.foldl (fun d a => (d.bootPageErase a).bootPageWrite a) d) [] := by
    induction pages generalizing d with
    | nil => exact runs_pure
    | cons a rest ih =>
      exact runs_seq (runs_perform (runs_last (runs_perform runs_pure))) (ih _)
  exact runs_seq (hloop applicationPages d) runs_respond_last

theorem runs_plain {c : UInt8} (h : takesOperands c = false) (d : Device) :
    Runs (processCommand c) d [] (Command.execPlain c d).1 (Command.execPlain c d).2 := by
  have hne (k : Char) (hk : k ∈ ['T', 'A', 'l', 'B', 'g', 'C', 'c', 'D']) : c ≠ k.toUInt8 := by
    intro he
    have := List.any_eq_false.mp h k hk
    simp [he] at this
  have hfuse (f : Device → UInt8) : Runs (do writeNextResponseByte (f (← getDevice))) d [] d [f d] :=
    runs_getDevice runs_respond_last
  refine runs_ite (fun _ => runs_respond (runs_last (runs_assign runs_pure))) fun _ => ?_
  refine runs_skip (hne 'T' (by decide)) ?_
  refine runs_ite (fun _ => runs_respond_last) fun _ => ?_
  refine runs_ite (fun _ => runs_respondAll _) fun _ => ?_
  refine runs_ite (fun _ => runs_respond_last) fun _ => ?_
  refine runs_skip (hne 'A' (by decide)) ?_
  refine runs_ite (fun _ => runs_respond_last) fun _ => ?_
  refine runs_ite (fun _ => runs_respondAll _) fun _ => ?_
  refine runs_ite (fun _ => runs_respondAll _) fun _ => ?_
  refine runs_ite (fun _ => runs_respondAll _) fun _ => ?_
  refine runs_ite (fun _ => runs_eraseApplication d) fun _ => ?_
  refine runs_skip (hne 'l' (by decide)) ?_
  refine runs_ite (fun _ => hfuse _) fun _ => ?_
  refine runs_ite (fun _ => hfuse _) fun _ => ?_
  refine runs_ite (fun _ => hfuse _) fun _ => ?_
  refine runs_ite (fun _ => hfuse _) fun _ => ?_
  refine runs_ite (fun _ => runs_respondAll _) fun _ => ?_
  refine runs_skip (not_or.mpr ⟨hne 'B' (by decide),hne 'g' (by decide)⟩) ?_
  refine runs_skip (hne 'C' (by decide)) (runs_skip (hne 'c' (by decide)) ?_)
  refine runs_ite (fun _ => runs_getDevice (runs_perform runs_respond_last)) fun _ => ?_
  refine runs_ite (fun _ => runs_getDevice (runs_observe (runs_respondAll _))) fun _ => ?_
  refine runs_skip (hne 'D' (by decide)) ?_
  refine runs_ite (fun _ => runs_getDevice (runs_observe (runs_respond
    (runs_last (runs_assign runs_pure))))) fun _ => ?_
  exact runs_ite (fun _ => runs_respond_last) fun _ => runs_pure

private theorem runs_block {command high low t : UInt8} {bytes r : List UInt8} {d e : Device}
    (h : Runs (if t ≠ 'E'.toUInt8 ∧ t ≠ 'F'.toUInt8 then writeNextResponseByte '?'.toUInt8
      else if command = 'g'.toUInt8 then
        readBlock (toUInt16 (promote high <<< 8 ||| promote low)) t
      else writeBlock (toUInt16 (promote high <<< 8 ||| promote low)) t) d bytes e r) :
    Runs (readWriteMemoryBlock command) d (high :: low :: t :: bytes) e r :=
  runs_fetch (runs_fetch (runs_fetch h))

private theorem runs_readBlock (t : MemoryType) {n : Nat} (h : n < 65536) (d : Device) :
    Runs (readWriteMemoryBlock 'g'.toUInt8) d (sizeBytes n ++ [t.code])
      ((Command.readBlock t n h).exec d).1 ((Command.readBlock t n h).exec d).2 := by
  apply runs_block
  rw [if_neg (by cases t <;> decide), if_pos rfl]
  cases t with
  | flash =>
    refine runs_perform ?_
    rw [if_pos (by rfl), sizeBytes_word h]
    exact runs_readFlashLoop n false _
  | eeprom =>
    refine runs_perform ?_
    rw [if_neg (by decide), sizeBytes_word h]
    exact runs_readEepromLoop n _

private theorem runs_writeBlock (t : MemoryType) {payload : List UInt8} (h : payload.length < 65536)
    (d : Device) :
    Runs (readWriteMemoryBlock 'B'.toUInt8) d (sizeBytes payload.length ++ t.code :: payload)
      ((Command.writeBlock t payload h).exec d).1 ((Command.writeBlock t payload h).exec d).2 := by
  apply runs_block
  rw [if_neg (by cases t <;> decide), if_neg (by decide)]
  cases t with
  | flash =>
    refine runs_then ?_ runs_respond_last
    rw [writePayload, if_pos (by rfl)]
    refine runs_getDevice (runs_perform (runs_then ?_ (runs_last (runs_perform runs_pure))))
    rw [sizeBytes_word h]
    exact runs_writeFlashLoop _ _ _ _
  | eeprom =>
    refine runs_then ?_ runs_respond_last
    rw [writePayload, if_neg (by decide), sizeBytes_word h]
    exact runs_writeEepromLoop payload d

/-- Every complete command: the dispatcher takes exactly its operands, has its effect on
the device and gives its answer. -/
theorem runs_command (c : Command) (d : Device) :
    Runs (processCommand c.head) d c.operands (c.exec d).1 (c.exec d).2 := by
  cases c with
  | plain c h => exact runs_plain h d
  | selectDevice b => exact runs_fetch (k := fun _ => writeNextResponseByte '\r'.toUInt8) runs_respond_last
  | setAddress high low =>
    exact runs_fetch (runs_assign (runs_fetch (runs_getDevice (runs_assign runs_respond_last))))
  | setLockBits b => exact runs_fetch (runs_perform runs_respond_last)
  | fillHighByte b => exact runs_fetch (runs_getDevice (runs_perform runs_respond_last))
  | fillLowByte b => exact runs_fetch (runs_getDevice (runs_perform (runs_assign runs_respond_last)))
  | writeEepromByte b =>
    exact runs_fetch (runs_getDevice (runs_perform (runs_assign runs_respond_last)))
  | readBlock t n h => exact runs_readBlock t h d
  | writeBlock t payload h => exact runs_writeBlock t h d
  | badBlock read high low t h =>
    cases read with
    | false => exact runs_block (by rw [if_pos h]; exact runs_respond_last)
    | true => exact runs_block (by rw [if_pos h]; exact runs_respond_last)

private theorem streaming_writeAll {sent : List (List UInt8)} {r : List UInt8} {u : Usb}
    (h : u.Streaming sent r) (bytes : List UInt8) :
    (u.writeAll bytes).Streaming sent (r ++ bytes) ∧ (u.writeAll bytes).out = u.out := by
  induction bytes generalizing u r with
  | nil => exact ⟨by rw [List.append_nil]; exact h,rfl⟩
  | cons b rest ih =>
    obtain ⟨hs,ho⟩ := ih (h.write b)
    rw [List.append_assoc] at hs
    exact ⟨hs,ho.trans (h.write_out b)⟩

/-- An answer leaves an attached device's endpoint as it found it, one bank released and
one framed transfer sent. -/
theorem Usb.Idle.transfer {u : Usb} (h : u.Idle) (r : List UInt8) :
    ∃ packets, Framed cdcTxrxEpsize r packets ∧
      (u.writeAll r).finishResponse = {u with out := u.out.tail, sent := u.sent ++ packets} := by
  obtain ⟨hs,ho⟩ := streaming_writeAll h.streaming r
  obtain ⟨packets,hp,hf⟩ := hs.finish
  refine ⟨packets,by simpa using hp,?_⟩
  rw [hf, ho, hs.present, hs.ready]
  rcases u with ⟨out,bank,ready,wire,fuse⟩
  obtain rfl : fuse = none := h.present
  obtain rfl : ready = true := h.ready
  obtain rfl : bank = [] := h.empty
  rfl

/-- One task carries out one command. Bytes that share a packet with its end are released
with that packet. -/
theorem cdcTask_command {s : Boot} (hi : s.usb.Idle) (c : Command) {front back : List (List UInt8)}
    {rest : List UInt8} (ho : s.usb.out = front ++ back) (hf : front.flatten = c.encode ++ rest) :
    ∃ left packets log, left ≠ [] ∧ left.flatten = rest ∧ Framed cdcTxrxEpsize (c.exec s.dev).2 packets ∧
      cdcTask s = .ok () ⟨(c.exec s.dev).1,
        {s.usb with out := left.tail ++ back, sent := s.usb.sent ++ packets}, log⟩ := by
  have hfront : front ≠ [] := by
    rintro rfl
    simp [Command.encode] at hf
  have hout : s.usb.out ≠ [] := by
    rw [ho]
    exact List.append_ne_nil_of_left_ne_nil hfront back
  have hruns : Runs (fetchNextCommandByte >>= processCommand) s.dev c.encode (c.exec s.dev).1 (c.exec s.dev).2 :=
    runs_fetch (runs_command c s.dev)
  obtain ⟨left,log,hl,hne,_,hm⟩ := hruns.run s.usb s.log front back rest ho hf
  have hidle : Usb.Idle {s.usb with out := left ++ back} := ⟨hi.present,hi.ready,hi.empty⟩
  obtain ⟨packets,hp,ht⟩ := hidle.transfer (c.exec s.dev).2
  refine ⟨left,packets,log,hne hfront,hl,hp,?_⟩
  rw [cdcTask_busy hout, bind_ok hm]
  simp only [finishResponse, ht, List.tail_append_of_ne_nil (hne hfront)]

theorem cdcTask_device {s : Boot} (c : Command) {rest : List UInt8}
    (ho : s.usb.out.flatten = c.encode ++ rest) : (final (cdcTask s)).dev = (c.exec s.dev).1 := by
  have hout : s.usb.out ≠ [] := by
    intro h
    simp [h, Command.encode] at ho
  have hruns : Runs (fetchNextCommandByte >>= processCommand) s.dev c.encode (c.exec s.dev).1 (c.exec s.dev).2 :=
    runs_fetch (runs_command c s.dev)
  obtain ⟨left,log,_,_,_,hm⟩ := hruns.run s.usb s.log s.usb.out [] rest (List.append_nil _).symm ho
  rw [cdcTask_busy hout, bind_ok hm]
  rfl

end ArduinoAT90USB.Bootloader
