import ArduinoAT90USB.Bootloader.Command
import ArduinoAT90USB.Bootloader.Invariant

/-! The log of a run only grows. `Opens` finds the first memory access of a program in it,
which is also the way to show that an access was made at all. -/
namespace ArduinoAT90USB.Bootloader
open Foundation Foundation.AvrInt Foundation.TaskLogic

/-- The memory an access goes to and the byte address where it starts; a fill selects a word. -/
def Event.target? : Event → Option (MemoryType × Nat)
  | .erase a | .write a | .flashRead a _ => some (.flash, a.toNat)
  | .fill a _ => some (.flash, a.toNat / 2 * 2)
  | .eepromRead p | .eepromWrite p _ => some (.eeprom, p.toNat)
  | _ => none

def firstAccess (log : List Event) : Option (MemoryType × Nat) := log.reverse.findSome? Event.target?

theorem logged_closed (l : List Event) : FullyClosed (fun s => l <:+ s.log) (fun s => l <:+ s.log) :=
  fullyClosed_of_log fun e _ h => h.trans (List.suffix_cons e _)

abbrev Extends (m : Task Unit) : Prop := ∀ l, Keeps (fun s : Boot => l <:+ s.log) (fun s => l <:+ s.log) m

/-- With `bytes` next from the host, the first memory access of the program is `e`. -/
structure Opens (m : Task Unit) (d : Device) (bytes : List UInt8) (e : Event) : Prop where
  first : ∀ (usb : Usb) (log : List Event) (rest : List UInt8), usb.out.flatten = bytes ++ rest →
    ∃ quiet, (∀ x ∈ quiet, x.target? = none) ∧ e :: (quiet ++ log) <:+ (final (m ⟨d, usb, log⟩)).log

section Rules
variable {d : Device} {bytes : List UInt8} {e : Event}

theorem opens_fetch {k : UInt8 → Task Unit} {b : UInt8} (h : Opens (k b) d bytes e) :
    Opens (fetchNextCommandByte >>= k) d (b :: bytes) e := by
  constructor
  intro usb log rest hf
  obtain ⟨left,_,hx,hn⟩ := PacketQueue.next_cons hf
  have hstep : fetchNextCommandByte ⟨d, usb, log⟩ =
      .ok b ⟨d, {usb with out := left}, .fetch (some b) :: log⟩ := fetch_byte hn
  obtain ⟨quiet,hq,hs⟩ := h.first {usb with out := left} (.fetch (some b) :: log) rest hx
  refine ⟨quiet ++ [.fetch (some b)],?_,?_⟩
  · intro x hx
    rcases List.mem_append.mp hx with hx | hx
    · exact hq x hx
    · rw [List.mem_singleton.mp hx]
      rfl
  · rw [bind_ok hstep, List.append_assoc]
    exact hs

theorem opens_getDevice {k : Device → Task Unit} (h : Opens (k d) d bytes e) :
    Opens (getDevice >>= k) d bytes e :=
  ⟨fun usb log rest hf => h.first usb log rest hf⟩

theorem opens_rwwEnable {k : Task Unit} (h : Opens k d.bootRwwEnable bytes e) :
    Opens (bootRwwEnable >>= fun _ => k) d bytes e := by
  constructor
  intro usb log rest hf
  obtain ⟨quiet,hq,hs⟩ := h.first usb (.rwwEnable :: log) rest hf
  refine ⟨quiet ++ [.rwwEnable],?_,?_⟩
  · intro x hx
    rcases List.mem_append.mp hx with hx | hx
    · exact hq x hx
    · rw [List.mem_singleton.mp hx]
      rfl
  · rw [List.append_assoc]
    exact hs

theorem opens_perform {k : Task Unit} {f : Device → Device} (hk : Extends k) :
    Opens (perform e f >>= fun _ => k) d bytes e := by
  constructor
  intro usb log rest _
  refine ⟨[],by simp,?_⟩
  exact ((hk (e :: log)).ends _ (List.suffix_refl _)).final

theorem opens_observe {α : Type} {k : α → Task Unit} {ev : Device → Event} {f : Device → α}
    (hk : ∀ a, Extends (k a)) : Opens (observe ev f >>= k) d bytes (ev d) := by
  constructor
  intro usb log rest _
  refine ⟨[],by simp,?_⟩
  exact ((hk (f d) (ev d :: log)).ends _ (List.suffix_refl _)).final

theorem opens_then {m k : Task Unit} (hm : Opens m d bytes e) (hk : Extends k) :
    Opens (m >>= fun _ => k) d bytes e := by
  constructor
  intro usb log rest hf
  obtain ⟨quiet,hq,hs⟩ := hm.first usb log rest hf
  refine ⟨quiet,hq,?_⟩
  cases he : m ⟨d, usb, log⟩ with
  | ok a t =>
    rw [he] at hs
    rw [bind_ok he]
    exact ((hk _).ends t hs).final
  | error a t =>
    rw [he] at hs
    rw [bind_error he]
    exact hs

end Rules

theorem extends_respond (b : UInt8) : Extends (writeNextResponseByte b) :=
  fun l => (logged_closed l).respond b

theorem opens_block (command : UInt8) {high low t : UInt8} {bytes : List UInt8} {d : Device}
    {e : Event} (ht : ¬ (t ≠ 'E'.toUInt8 ∧ t ≠ 'F'.toUInt8))
    (h : Opens (if command = 'g'.toUInt8 then
        readBlock (toUInt16 (promote high <<< 8 ||| promote low)) t
      else writeBlock (toUInt16 (promote high <<< 8 ||| promote low)) t) d bytes e) :
    Opens (readWriteMemoryBlock command) d (high :: low :: t :: bytes) e := by
  refine opens_fetch (opens_fetch (opens_fetch ?_))
  rwa [if_neg ht]

theorem opens_commitPage (d : Device) {bytes : List UInt8} : Opens commitPage d bytes (.write d.currAddress) :=
  opens_getDevice (opens_perform (extends_respond _))

/-- The page of a flash block is erased as soon as the block's header has been read. -/
theorem opens_writeFlashBlock (high low : UInt8) (d : Device) {bytes : List UInt8} :
    Opens (readWriteMemoryBlock 'B'.toUInt8) d (high :: low :: MemoryType.flash.code :: bytes)
      (.erase d.currAddress) := by
  refine opens_block _ (by decide) ?_
  rw [if_neg (by decide)]
  refine opens_then ?_ (extends_respond _)
  rw [writePayload, if_pos (by rfl)]
  refine opens_getDevice (opens_perform fun l => ?_)
  exact keeps_seq ((logged_closed l).traffic.writeFlashLoop (logged_closed l).program _ _ _) ((logged_closed l).paging _ _ rfl)

theorem cdcTask_opens {s : Boot} {c : UInt8} {operands rest : List UInt8} {e : Event}
    (h : Opens (processCommand c) s.dev operands e) (ho : s.usb.out.flatten = c :: operands ++ rest) :
    ∃ quiet, (∀ x ∈ quiet, x.target? = none) ∧ e :: (quiet ++ s.log) <:+ (final (cdcTask s)).log := by
  have hall : Opens ((fetchNextCommandByte >>= processCommand) >>= fun _ => finishResponse)
      s.dev (c :: operands) e := opens_then (opens_fetch h) fun l => ⟨fun t h => h⟩
  have hout : s.usb.out ≠ [] := by
    intro h
    simp [h] at ho
  rw [cdcTask_busy hout]
  exact hall.first s.usb s.log rest ho

theorem cdcTask_extends (s : Boot) : s.log <:+ (final (cdcTask s)).log := by
  have hclosed := logged_closed s.log
  refine cdcTask_final (I := fun t => s.log <:+ t.log) (List.suffix_refl _) (fun _ => ?_) fun t h => h
  exact (keeps_bind hclosed.fetch hclosed.command).ends s (List.suffix_refl _)

end ArduinoAT90USB.Bootloader
