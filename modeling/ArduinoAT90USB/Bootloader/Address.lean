import ArduinoAT90USB.Bootloader.Packets
import ArduinoAT90USB.Bootloader.Trace

/-! The `'A'` command. The high byte is shifted as a sixteen-bit `int` before it is widened,
so a word address keeps its meaning only while the shifted byte stays below the sign bit. -/
namespace ArduinoAT90USB.Bootloader
open Foundation Foundation.AvrInt Foundation.TaskLogic

/-- The memory in which a command starts at the address counter. -/
def Command.memory? : Command → Option MemoryType
  | plain c _ => if c = 'm'.toUInt8 ∨ c = 'R'.toUInt8 then some .flash
      else if c = 'd'.toUInt8 then some .eeprom else none
  | fillHighByte _ | fillLowByte _ => some .flash
  | writeEepromByte _ => some .eeprom
  | readBlock t n _ => if n = 0 then none else some t
  | writeBlock .flash _ _ => some .flash
  | writeBlock .eeprom payload _ => if payload = [] then none else some .eeprom
  | _ => none

/-- Where a memory command starts, given the address counter. -/
def Device.start (d : Device) : MemoryType → Nat
  | .flash => d.currAddress.toNat
  | .eeprom => d.eepromPointer.toNat

theorem opens_readBlock (t : MemoryType) {n : Nat} (hn : n < 65536) (h0 : n ≠ 0) (d : Device) :
    ∃ e, Opens (readWriteMemoryBlock 'g'.toUInt8) d (sizeBytes n ++ [t.code]) e ∧
      e.target? = some (t, d.start t) := by
  obtain ⟨m,rfl⟩ := Nat.exists_eq_succ_of_ne_zero h0
  cases t with
  | flash =>
    refine ⟨.flashRead d.currAddress false,opens_block _ (by decide) ?_,rfl⟩
    rw [if_pos rfl]
    refine opens_rwwEnable ?_
    rw [if_pos (by rfl), sizeBytes_word hn]
    have hor : d.currAddress = d.bootRwwEnable.currAddress ||| (if false = true then 1 else 0) := by
      simp [Device.bootRwwEnable]
    rw [hor]
    refine opens_getDevice (opens_observe fun b l => ?_)
    exact keeps_seq ((logged_closed l).respond b)
      (keeps_seq ((logged_closed l).traffic.advanceIf _) ((logged_closed l).readFlashLoop _ _))
  | eeprom =>
    refine ⟨.eepromRead d.eepromPointer,opens_block _ (by decide) ?_,rfl⟩
    rw [if_pos rfl]
    refine opens_rwwEnable ?_
    rw [if_neg (by decide), sizeBytes_word hn]
    refine opens_getDevice (opens_observe fun b l => ?_)
    exact keeps_seq ((logged_closed l).respond b)
      (keeps_seq ((logged_closed l).assign _ fun _ => rfl) ((logged_closed l).traffic.readEepromLoop _))

theorem opens_writeEepromBlock {b : UInt8} {payload : List UInt8} (h : (b :: payload).length < 65536)
    (d : Device) : Opens (readWriteMemoryBlock 'B'.toUInt8) d
      (sizeBytes (b :: payload).length ++ MemoryType.eeprom.code :: b :: payload)
      (.eepromWrite d.eepromPointer b) := by
  refine opens_block _ (by decide) ?_
  rw [if_neg (by decide)]
  refine opens_then ?_ (extends_respond _)
  rw [writePayload, if_neg (by decide), sizeBytes_word h]
  refine opens_fetch (opens_getDevice (opens_perform fun l => ?_))
  exact keeps_seq ((logged_closed l).assign _ fun _ => rfl) ((logged_closed l).traffic.writeEepromLoop (logged_closed l).program _)

private theorem opens_plain {c : UInt8} {h : takesOperands c = false} {t : MemoryType}
    (hc : (Command.plain c h).memory? = some t) (d : Device) :
    ∃ e, Opens (processCommand c) d [] e ∧ e.target? = some (t, d.start t) := by
  simp only [Command.memory?] at hc
  split at hc
  · rename_i hf
    cases hc
    rcases hf with rfl | rfl
    · exact ⟨.write d.currAddress,opens_commitPage d,rfl⟩
    · refine ⟨.flashRead d.currAddress d.rwwBusy,opens_getDevice (opens_observe fun w l => ?_),rfl⟩
      exact (logged_closed l).traffic.respondAll _
  · split at hc
    · rename_i he
      cases hc
      subst he
      refine ⟨.eepromRead d.eepromPointer,opens_getDevice (opens_observe fun b l => ?_),rfl⟩
      exact keeps_seq ((logged_closed l).respond b) ((logged_closed l).assign _ fun _ => rfl)
    · cases hc

/-- Every command with a memory starts there at the counter, which `'A'` leaves even. -/
theorem opens_command {c : Command} {t : MemoryType} (hc : c.memory? = some t) (d : Device)
    (heven : d.currAddress.toNat % 2 = 0) :
    ∃ e, Opens (processCommand c.head) d c.operands e ∧ e.target? = some (t, d.start t) := by
  cases c with
  | plain c h => exact opens_plain hc d
  | fillHighByte b =>
    cases hc
    refine ⟨.fill d.currAddress b.toUInt16,opens_fetch (opens_getDevice (opens_perform (extends_respond _))),?_⟩
    simp only [Event.target?, Device.start, Nat.div_mul_cancel (Nat.dvd_of_mod_eq_zero heven)]
  | fillLowByte b =>
    cases hc
    refine ⟨.fill (d.currAddress ||| 0x01) b.toUInt16,?_,?_⟩
    · refine opens_fetch (opens_getDevice (opens_perform fun l => ?_))
      exact keeps_seq ((logged_closed l).assign _ fun _ => rfl) ((logged_closed l).respond _)
    · have hor : (d.currAddress ||| 1).toNat / 2 = d.currAddress.toNat / 2 := by
        rw [UInt32.toNat_or, Nat.or_div_two]
        simp
      simp only [Event.target?, Device.start, hor, Nat.div_mul_cancel (Nat.dvd_of_mod_eq_zero heven)]
  | writeEepromByte b =>
    cases hc
    refine ⟨.eepromWrite d.eepromPointer b,opens_fetch (opens_getDevice (opens_perform fun l => ?_)),rfl⟩
    exact keeps_seq ((logged_closed l).assign _ fun _ => rfl) ((logged_closed l).respond _)
  | readBlock t₁ n h =>
    simp only [Command.memory?] at hc
    split at hc
    · cases hc
    · rename_i h0
      cases hc
      exact opens_readBlock t h h0 d
  | writeBlock t₁ payload h =>
    cases t₁ with
    | flash => cases hc; exact ⟨_,opens_writeFlashBlock _ _ d,rfl⟩
    | eeprom =>
      cases payload with
      | nil => cases hc
      | cons b payload => cases hc; exact ⟨_,opens_writeEepromBlock h d,rfl⟩
  | selectDevice | setAddress | setLockBits | badBlock => cases hc

private theorem firstAccess_of_suffix {e : Event} {quiet log : List Event} {x : MemoryType × Nat}
    (hq : ∀ y ∈ quiet, y.target? = none) (he : e.target? = some x) (h : e :: quiet <:+ log) :
    firstAccess log = some x := by
  obtain ⟨later,rfl⟩ := h
  have hnone : quiet.reverse.findSome? Event.target? = none :=
    List.findSome?_eq_none_iff.mpr fun y hy => hq y (List.mem_reverse.mp hy)
  simp [firstAccess, List.findSome?_append, hnone, he]

theorem cdcTask_firstAccess {s : Boot} {c : Command} {t : MemoryType} (hc : c.memory? = some t)
    (heven : s.dev.currAddress.toNat % 2 = 0) {rest : List UInt8}
    (ho : s.usb.out.flatten = c.encode ++ rest) (hl : s.log = []) :
    firstAccess (final (cdcTask s)).log = some (t, s.dev.start t) := by
  obtain ⟨e,hopen,he⟩ := opens_command hc s.dev heven
  obtain ⟨quiet,hq,hs⟩ := cdcTask_opens hopen ho
  rw [hl, List.append_nil] at hs
  exact firstAccess_of_suffix hq he hs

/-- The counter holds the byte address of word `w`, and the next memory command starts there. -/
structure Addressed (w : UInt16) (s : Boot) : Prop where
  counter : s.dev.currAddress.toNat = 2 * w.toNat
  next : ∀ (c : Command) (t : MemoryType) (q : List (List UInt8)) (rest : List UInt8),
    c.memory? = some t → q.flatten = c.encode ++ rest →
    firstAccess (final (cdcTask {s.receive q with log := []})).log =
      some (t, match t with | .flash => 2 * w.toNat | .eeprom => w.toNat)

theorem addressed_of_counter {w : UInt16} {s : Boot} (h : s.dev.currAddress.toNat = 2 * w.toNat) :
    Addressed w s := by
  refine ⟨h,fun c t q rest hc hq => ?_⟩
  have hfirst := cdcTask_firstAccess hc (s := {s.receive q with log := []})
    (show s.dev.currAddress.toNat % 2 = 0 by omega) hq rfl
  rw [hfirst]
  cases t with
  | flash => exact congrArg (fun a => some (MemoryType.flash, a)) h
  | eeprom =>
    have hw := w.toNat_lt
    have hp : s.dev.eepromPointer.toNat = w.toNat := by
      rw [Device.eepromPointer, UInt32.toNat_toUInt16, UInt32.toNat_shiftRight, h]
      simp only [UInt32.reduceToNat, Nat.reduceMod, Nat.shiftRight_eq_div_pow]
      omega
    exact congrArg (fun a => some (MemoryType.eeprom, a)) hp

/-- What `'A'` computes: bit 7 of the high byte is lost, and bit 6 becomes a sign. -/
theorem setAddress_toNat (high low : UInt8) :
    (toUInt32 (promote high <<< 9) ||| toUInt32 (promote low <<< 1)).toNat =
      (if high.toNat % 128 < 64 then high.toNat % 128 * 512 else high.toNat % 128 * 512 + 4294901760) +
        2 * low.toNat := by
  have hl := low.toNat_lt
  have hlow : (toUInt32 (promote low <<< 1)).toNat = 2 * low.toNat := by
    rw [toUInt32_toNat, promote_shift_toNat, if_pos (by omega)]
    omega
  obtain ⟨k,hk⟩ : ∃ k, (toUInt32 (promote high <<< 9)).toNat = 2^9 * k ∧
      2^9 * k = if high.toNat % 128 < 64 then high.toNat % 128 * 512 else high.toNat % 128 * 512 + 4294901760 := by
    rw [toUInt32_toNat, promote_shift_toNat]
    split <;> split
    · exact ⟨high.toNat % 128,by omega,by omega⟩
    · omega
    · omega
    · exact ⟨high.toNat % 128 + 8388480,by omega,by omega⟩
  rw [UInt32.toNat_or, hlow, hk.1, ← Nat.two_pow_add_eq_or_of_lt (by omega), hk.2]

private theorem setAddress_exact (w : UInt16) :
    (toUInt32 (promote (w >>> 8).toUInt8 <<< 9) ||| toUInt32 (promote w.toUInt8 <<< 1)).toNat = 2 * w.toNat ↔
      w.toNat < 0x4000 := by
  have hw := w.toNat_lt
  rw [setAddress_toNat, high_toNat, UInt16.toNat_toUInt8]
  split <;> omega

/-- `'A'` obeys the address law for word addresses below `0x4000` and for no others. -/
theorem address_law (s : Boot) (w : UInt16) (rest : List UInt8)
    (h : s.usb.out.flatten = (Command.setAddress (w >>> 8).toUInt8 w.toUInt8).encode ++ rest) :
    Addressed w (final (cdcTask s)) ↔ w.toNat < 0x4000 := by
  have hdev := cdcTask_device (.setAddress (w >>> 8).toUInt8 w.toUInt8) h
  have hcounter : (final (cdcTask s)).dev.currAddress =
      toUInt32 (promote (w >>> 8).toUInt8 <<< 9) ||| toUInt32 (promote w.toUInt8 <<< 1) := by
    rw [hdev]
    rfl
  constructor
  · intro ha
    have hc := ha.counter
    rwa [hcounter, setAddress_exact] at hc
  · intro hw
    apply addressed_of_counter
    rw [hcounter, setAddress_exact]
    exact hw

theorem address_law_page : Addressed 0x0080 (final (cdcTask (Boot.start [['A'.toUInt8, 0x00, 0x80]]))) :=
  (address_law (Boot.start [['A'.toUInt8, 0x00, 0x80]]) 0x0080 [] (by decide)).mpr (by decide)

/-- Word `0x4000`, in the middle of the application section, becomes byte address `0xFFFF8000`. -/
theorem address_law_fails :
    ¬ ∀ (s : Boot) (w : UInt16) (rest : List UInt8),
      s.usb.out.flatten = (Command.setAddress (w >>> 8).toUInt8 w.toUInt8).encode ++ rest →
      Addressed w (final (cdcTask s)) := by
  intro h
  have ha := (h (Boot.start [['A'.toUInt8, 0x40, 0x00]]) 0x4000 [] (by decide)).counter
  exact absurd ha (by decide)

end ArduinoAT90USB.Bootloader
