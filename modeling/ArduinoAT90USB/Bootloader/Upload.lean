import ArduinoAT90USB.Bootloader.Packets
import Mathlib.Data.List.Induction

/-! Uploading a firmware image in page-sized blocks and reading it back. Payload bytes
reach the page buffer in pairs; each block erases its page first and commits it last. -/
namespace ArduinoAT90USB.Bootloader
open Foundation Foundation.AvrInt Foundation.PagedMemory Foundation.Framing

namespace Device

/-- A fill at an even offset of a page sets the two bytes of that word. -/
theorem bufferByte_fill {a : UInt32} {page offset : Nat} (ha : a.toNat = page * spmPageSize + offset)
    (he : offset % 2 = 0) (ho : offset < spmPageSize) (low high : UInt8) (d : Device) (i : Nat) :
    (d.bootPageFill a (toUInt16 (promote high <<< 8 ||| promote low))).bufferByte i =
      if i = offset then low else if i = offset+1 then high else d.bufferByte i := by
  have hslot : slot a = offset / 2 := by
    rw [slot, ha, Nat.add_comm, Nat.add_mul_mod_self_right, Nat.mod_eq_of_lt ho]
  simp only [bufferByte, bootPageFill, hslot]
  by_cases hi : i / 2 = offset / 2
  · simp only [if_pos hi, word_low, word_high]
    rcases Nat.mod_two_eq_zero_or_one i with hp | hp
    · rw [if_pos hp, if_pos (show i = offset by omega)]
    · rw [if_neg (by omega), if_neg (show i ≠ offset by omega), if_pos (show i = offset+1 by omega)]
  · simp [hi, show i ≠ offset by rintro rfl; exact hi rfl, show i ≠ offset+1 by omega]

private theorem advance_toNat {d : Device} (h : d.currAddress.toNat + 2 < 4294967296) :
    d.advance.currAddress.toNat = d.currAddress.toNat + 2 := by
  rw [advance, UInt32.toNat_add]
  exact Nat.mod_eq_of_lt h

private theorem bufferByte_advance (d : Device) (i : Nat) : d.advance.bufferByte i = d.bufferByte i := rfl

/-- The page buffer after a payload of whole words, written from `offset` on. -/
structure Filled (offset : Nat) (payload : List UInt8) (d e : Device) : Prop where
  flash : e.flash = d.flash
  address : e.currAddress.toNat = d.currAddress.toNat + payload.length
  buffer : ∀ i, e.bufferByte i =
    if offset ≤ i then (payload[i - offset]?).getD (d.bufferByte i) else d.bufferByte i

/-- Two bytes at a time: the phase is back at the low byte after each word. -/
theorem writeFlash_filled (payload : List UInt8) (lowByte : UInt8) (d : Device) (page offset : Nat)
    (ha : d.currAddress.toNat = page * spmPageSize + offset) (he : offset % 2 = 0)
    (hp : payload.length % 2 = 0) (hl : offset + payload.length ≤ spmPageSize)
    (hb : page * spmPageSize + spmPageSize < 4294967296) : Filled offset payload d (d.writeFlash payload false lowByte) := by
  induction payload using List.twoStepInduction generalizing lowByte d offset with
  | nil => exact ⟨rfl,rfl,fun i => by simp [writeFlash]⟩
  | singleton b => simp at hp
  | cons_cons low high rest ih _ =>
    have hsize : spmPageSize = 256 := rfl
    simp only [List.length_cons] at hp hl
    have hadv : (d.bootPageFill d.currAddress
        (toUInt16 (promote high <<< 8 ||| promote low))).advance.currAddress.toNat = d.currAddress.toNat + 2 := by
      apply advance_toNat
      change d.currAddress.toNat + 2 < _
      omega
    have hrest := ih low _ (offset+2) (hadv.trans (show _ = page * spmPageSize + (offset+2) by omega)) (by omega)
      (by omega) (by omega)
    refine ⟨hrest.flash,?_,fun i => ?_⟩
    · rw [writeFlash, writeFlash, hrest.address, hadv, List.length_cons, List.length_cons]
      omega
    · have hword := bufferByte_fill ha he (by omega) low high d i
      rw [writeFlash, writeFlash, hrest.buffer, bufferByte_advance, hword]
      rcases Nat.lt_or_ge i (offset+2) with hi | hi
      · rw [if_neg (by omega)]
        by_cases hlt : offset ≤ i
        · obtain rfl | rfl : i = offset ∨ i = offset+1 := by omega
          · simp
          · simp
        · rw [if_neg (by omega), if_neg (by omega), if_neg hlt]
      · obtain ⟨j,rfl⟩ : ∃ j, i = offset+2+j := ⟨i - (offset+2),by omega⟩
        rw [if_pos hi, if_neg (show offset + 2 + j ≠ offset by omega),
          if_neg (show offset + 2 + j ≠ offset + 1 by omega), if_pos (show offset ≤ offset + 2 + j by omega),
          Nat.add_sub_cancel_left, show offset + 2 + j - offset = j+2 by omega]
        rfl

end Device

theorem exec_writeBlock {d : Device} {k : Nat} {block : List UInt8} (h : block.length < 65536)
    (ha : d.currAddress.toNat = k * spmPageSize) (hclear : d.pageBuffer = fun _ => 0xFFFF)
    (heven : block.length % 2 = 0) (hfit : block.length ≤ spmPageSize)
    (hb : k * spmPageSize + spmPageSize < 4294967296) :
    ∃ e, (Command.writeBlock .flash block h).exec d = (e, ['\r'.toUInt8]) ∧
      e.flash = setPage spmPageSize (k * spmPageSize) (padded 0xFF block) d.flash ∧
      e.pageBuffer = (fun _ => 0xFFFF) ∧ e.currAddress.toNat = k * spmPageSize + block.length := by
  have hstart : (d.bootPageErase d.currAddress).currAddress.toNat = k * spmPageSize + 0 := by
    rw [Nat.add_zero]
    exact ha
  have hfill := Device.writeFlash_filled block 0 (d.bootPageErase d.currAddress) k 0 hstart (Nat.zero_mod 2) heven
    (by omega) hb
  refine ⟨_,rfl,?_,rfl,?_⟩
  · have hbuffer : ((d.bootPageErase d.currAddress).writeFlash block false 0).bufferByte = padded 0xFF block := by
      funext i
      rw [hfill.buffer, if_pos (Nat.zero_le i), Nat.sub_zero, padded, Device.bufferByte_clear (d := d.bootPageErase d.currAddress) hclear]
    have hpage : (Device.bootPageErase d.currAddress d).flash =
        setPage spmPageSize (k * spmPageSize) (fun _ => 0xFF) d.flash := by rw [← ha]; rfl
    change setPage spmPageSize d.currAddress.toNat _ _ = _
    rw [hbuffer, hfill.flash, hpage, ha, setPage_same rfl]
  · exact hfill.address.trans (congrArg (· + block.length) ha)

def uploadCommands (blocks : List (List UInt8)) (h : ∀ b ∈ blocks, b.length ≤ spmPageSize) : List Command :=
  blocks.pmap (fun b hb => .writeBlock .flash b (Nat.lt_of_le_of_lt hb (by decide))) h

theorem execAll_upload {blocks : List (List UInt8)} (h : ∀ b ∈ blocks, b.length ≤ spmPageSize)
    (hfull : ∀ b ∈ blocks.dropLast, b.length = spmPageSize) (heven : ∀ b ∈ blocks, b.length % 2 = 0)
    {d : Device} {k : Nat} (ha : d.currAddress.toNat = k * spmPageSize)
    (hclear : d.pageBuffer = fun _ => 0xFFFF) (hb : (k + blocks.length) * spmPageSize < 4294967296) :
    (Command.execAll (uploadCommands blocks h) d).1.flash = storeBlocks spmPageSize 0xFF k blocks d.flash ∧
      (Command.execAll (uploadCommands blocks h) d).1.currAddress.toNat =
        k * spmPageSize + blocks.flatten.length ∧
      (Command.execAll (uploadCommands blocks h) d).2 = List.replicate blocks.length ['\r'.toUInt8] := by
  induction blocks generalizing d k with
  | nil => exact ⟨rfl,ha.trans (Nat.add_zero _).symm,rfl⟩
  | cons block rest ih =>
    rw [List.length_cons, Nat.add_mul, Nat.add_mul] at hb
    obtain ⟨e,hexec,hflash,hclear₁,haddr⟩ := exec_writeBlock (Nat.lt_of_le_of_lt (h block List.mem_cons_self)
      (show spmPageSize < 65536 by decide)) ha hclear (heven block List.mem_cons_self) (h block List.mem_cons_self)
      (by omega)
    have hexecAll : Command.execAll (uploadCommands (block :: rest) h) d =
        ((Command.execAll (uploadCommands rest fun b hb => h b (List.mem_cons_of_mem _ hb)) e).1,
          ['\r'.toUInt8] :: (Command.execAll (uploadCommands rest fun b hb => h b (List.mem_cons_of_mem _ hb)) e).2) := by
      simp only [uploadCommands, List.pmap_cons, Command.execAll, hexec]
    rw [hexecAll]
    cases rest with
    | nil => exact ⟨hflash,by simpa [uploadCommands, Command.execAll] using haddr,rfl⟩
    | cons next rest =>
      -- only a full block is followed by another one
      have hblock : block.length = spmPageSize := hfull block List.mem_cons_self
      obtain ⟨hf,hc,hr⟩ := ih (fun b hb => h b (List.mem_cons_of_mem _ hb))
        (fun b hb => hfull b (List.mem_cons_of_mem _ hb)) (fun b hb => heven b (List.mem_cons_of_mem _ hb))
        (show e.currAddress.toNat = (k+1) * spmPageSize by rw [haddr, hblock, Nat.add_mul, Nat.one_mul]) hclear₁
        (by simp only [List.length_cons, Nat.add_mul] at hb ⊢; omega)
      refine ⟨?_,?_,?_⟩
      · rw [hf, hflash]
        rfl
      · have hlen : (block :: next :: rest).flatten.length = spmPageSize + (next :: rest).flatten.length := by
          rw [List.flatten_cons, List.length_append, hblock]
        rw [hc, hlen, Nat.add_mul]
        omega
      · rw [hr]
        rfl

theorem readFlash_words (m : Nat) {d : Device} (heven : d.currAddress.toNat % 2 = 0)
    (hb : d.currAddress.toNat + 2*m < 4294967296) :
    (d.readFlash (2*m) false).1.flash = d.flash ∧
      (d.readFlash (2*m) false).1.currAddress.toNat = d.currAddress.toNat + 2*m ∧
      (d.readFlash (2*m) false).2 = (List.range' d.currAddress.toNat (2*m)).map d.flash := by
  induction m generalizing d with
  | zero => exact ⟨rfl,rfl,rfl⟩
  | succ m ih =>
    have hadv : d.advance.currAddress.toNat = d.currAddress.toNat + 2 := Device.advance_toNat (by omega)
    have hor : (d.currAddress ||| 1).toNat = d.currAddress.toNat + 1 := by
      rw [UInt32.toNat_or]
      obtain ⟨j,hj⟩ : ∃ j, d.currAddress.toNat = 2^1 * j := ⟨d.currAddress.toNat / 2,by omega⟩
      rw [hj, show (1 : UInt32).toNat = 1 from rfl, ← Nat.two_pow_add_eq_or_of_lt (by decide)]
    obtain ⟨hf,ha,hr⟩ := ih (show d.advance.currAddress.toNat % 2 = 0 by omega) (by omega)
    have hstep : d.readFlash (2*(m+1)) false = ((d.advance.readFlash (2*m) false).1,
        d.flash d.currAddress.toNat :: d.flash (d.currAddress.toNat + 1) :: (d.advance.readFlash (2*m) false).2) := by
      rw [← hor]
      simp [Nat.mul_succ, Device.readFlash, Device.pgmReadByteFar]
    rw [hstep]
    refine ⟨hf,by rw [ha, hadv]; omega,?_⟩
    rw [hr, hadv, Nat.mul_succ, List.range'_succ, List.range'_succ]
    rfl

def readCommands (lengths : List Nat) (h : ∀ n ∈ lengths, n < 65536) : List Command :=
  lengths.pmap (fun n hn => .readBlock .flash n hn) h

theorem execAll_read {lengths : List Nat} (h : ∀ n ∈ lengths, n < 65536) (heven : ∀ n ∈ lengths, n % 2 = 0)
    {d : Device} (ha : d.currAddress.toNat % 2 = 0) (hb : d.currAddress.toNat + lengths.sum < 4294967296) :
    (Command.execAll (readCommands lengths h) d).2.flatten =
      (List.range' d.currAddress.toNat lengths.sum).map d.flash := by
  induction lengths generalizing d with
  | nil => rfl
  | cons n rest ih =>
    obtain ⟨m,rfl⟩ : ∃ m, n = 2*m := ⟨n / 2,by have := heven n List.mem_cons_self; omega⟩
    rw [List.sum_cons] at hb ⊢
    obtain ⟨hf,hc,hr⟩ := readFlash_words m (d := d.bootRwwEnable) ha (show d.currAddress.toNat + 2*m < _ by omega)
    have hexec : Command.execAll (readCommands (2*m :: rest) h) d =
        ((Command.execAll (readCommands rest fun n hn => h n (List.mem_cons_of_mem _ hn))
            (d.bootRwwEnable.readFlash (2*m) false).1).1,
          (d.bootRwwEnable.readFlash (2*m) false).2 ::
            (Command.execAll (readCommands rest fun n hn => h n (List.mem_cons_of_mem _ hn))
              (d.bootRwwEnable.readFlash (2*m) false).1).2) := rfl
    have hrest := ih (fun n hn => h n (List.mem_cons_of_mem _ hn))
      (fun n hn => heven n (List.mem_cons_of_mem _ hn)) (d := (d.bootRwwEnable.readFlash (2*m) false).1)
      (by rw [hc]; change (d.currAddress.toNat + 2*m) % 2 = 0; omega)
      (by rw [hc]; change d.currAddress.toNat + 2*m + rest.sum < _; omega)
    rw [hexec, List.flatten_cons, hrest, hr, hf, hc, ← List.map_append]
    exact congrArg (List.map d.flash) (List.range'_append_1)

/-- A firmware image of whole words below the boot section, cut into blocks of one page;
only the last block may be shorter. -/
structure Upload where
  blocks : List (List UInt8)
  full : ∀ b ∈ blocks.dropLast, b.length = spmPageSize
  fits : ∀ b ∈ blocks, b.length ≤ spmPageSize
  even : blocks.flatten.length % 2 = 0
  bound : blocks.flatten.length ≤ bootStartAddr

namespace Upload

def image (u : Upload) : List UInt8 := u.blocks.flatten

def commands (u : Upload) : List Command := uploadCommands u.blocks u.fits

private theorem length_eq (u : Upload) {last : List UInt8} {init : List (List UInt8)}
    (h : u.blocks = init ++ [last]) : u.image.length = init.length * spmPageSize + last.length := by
  have hi : ∀ b ∈ init, b.length = spmPageSize := by simpa [h] using u.full
  rw [image, h, List.flatten_append, List.length_append, flatten_length_of_full hi]
  simp

theorem even_blocks (u : Upload) : ∀ b ∈ u.blocks, b.length % 2 = 0 := by
  intro b hb
  have hsize : spmPageSize = 256 := rfl
  rcases List.eq_nil_or_concat u.blocks with hnil | ⟨init,last,h⟩
  · simp [hnil] at hb
  · rw [List.concat_eq_append] at h
    rw [h] at hb
    rcases List.mem_append.mp hb with hb | hb
    · rw [u.full b (by simpa [h] using hb)]
      rfl
    · rw [List.mem_singleton.mp hb]
      have hlen := u.length_eq h
      have heven : u.image.length % 2 = 0 := u.even
      rw [hsize] at hlen
      omega

theorem pages_bound (u : Upload) : u.blocks.length * spmPageSize < 4294967296 := by
  have hsize : spmPageSize = 256 := rfl
  have hb : u.image.length ≤ 126976 := u.bound
  rcases List.eq_nil_or_concat u.blocks with hnil | ⟨init,last,h⟩
  · simp [hnil]
  · rw [List.concat_eq_append] at h
    have hlen := u.length_eq h
    rw [h, List.length_append, List.length_singleton, Nat.add_mul]
    omega

theorem image_length_le (u : Upload) : u.image.length ≤ u.blocks.length * spmPageSize := by
  rcases List.eq_nil_or_concat u.blocks with hnil | ⟨init,last,h⟩
  · simp [image, hnil]
  · rw [List.concat_eq_append] at h
    have hlast := u.fits last (by simp [h])
    rw [u.length_eq h, h, List.length_append, List.length_singleton, Nat.add_mul]
    omega

end Upload

/-- The state after an upload into `s`. -/
structure Uploaded (u : Upload) (s t : Boot) : Prop where
  answers : t.usb.sent = s.usb.sent ++ List.replicate u.blocks.length ['\r'.toUInt8]
  image : ∀ a (h : a < u.image.length), t.dev.flash a = u.image[a]
  blank : ∀ a, u.image.length ≤ a → a < u.blocks.length * spmPageSize → t.dev.flash a = 0xFF
  later : ∀ a, u.blocks.length * spmPageSize ≤ a → t.dev.flash a = s.dev.flash a
  address : t.dev.currAddress.toNat = u.image.length
  ready : t.usb.Idle

private theorem acknowledgements {n : Nat} {groups : List (List (List UInt8))}
    (h : List.Forall₂ (Framed cdcTxrxEpsize) (List.replicate n ['\r'.toUInt8]) groups) :
    groups.flatten = List.replicate n ['\r'.toUInt8] := by
  induction n generalizing groups with
  | zero => cases h; rfl
  | succ n ih =>
    cases h with
    | cons hp hrest => rw [List.flatten_cons, hp.single (by decide), ih hrest]; rfl

theorem upload_stores (u : Upload) {s : Boot} (hi : s.usb.Idle) (h0 : s.dev.currAddress = 0)
    (hclear : s.dev.pageBuffer = fun _ => 0xFFFF) {q : List (List UInt8)} (hq : Cut u.commands q)
    {n : Nat} (hn : u.blocks.length < n) : Uploaded u s (runTasks n (s.receive q)) := by
  have hstart : s.dev.currAddress.toNat = 0 * spmPageSize := by
    rw [h0]
    rfl
  obtain ⟨hflash,haddr,hanswers⟩ := execAll_upload u.fits u.full u.even_blocks hstart hclear
    (by simpa using u.pages_bound)
  obtain ⟨groups,log,hg,hr⟩ := runTasks_cut hq s hi (by simpa [Upload.commands, uploadCommands] using hn)
  have himage (a : Nat) : (Command.execAll u.commands s.dev).1.flash a =
      if a < u.blocks.length * spmPageSize then (u.image[a]?).getD 0xFF else s.dev.flash a := by
    have h := storeBlocks_image (show 0 < spmPageSize by decide) 0xFF u.blocks 0 s.dev.flash u.full a
    rw [Nat.zero_mul, Nat.zero_add] at h
    rw [Upload.commands, hflash, h]
    rfl
  rw [hr]
  refine ⟨?_,fun a ha => ?_,fun a ha hb => ?_,fun a ha => ?_,?_,hi.present,hi.ready,hi.empty⟩
  · rw [Upload.commands, hanswers] at hg
    exact congrArg (s.usb.sent ++ ·) (acknowledgements hg)
  · have hle := u.image_length_le
    refine (himage a).trans ?_
    rw [if_pos (by omega), List.getElem?_eq_getElem ha]
    rfl
  · refine (himage a).trans ?_
    rw [if_pos hb, List.getElem?_eq_none ha]
    rfl
  · refine (himage a).trans ?_
    rw [if_neg (by omega)]
  · refine haddr.trans ?_
    rw [Nat.zero_mul, Nat.zero_add]
    rfl

/-- The same bootloader with the address counter back at the start of flash. -/
def Boot.rewind (s : Boot) : Boot := {s with dev := s.dev.setCurrAddress 0}

theorem upload_reads_back {u : Upload} {s t : Boot} (h : Uploaded u s t) {lengths : List Nat}
    (hl : ∀ x ∈ lengths, x < 65536) (heven : ∀ x ∈ lengths, x % 2 = 0) (hsum : lengths.sum = u.image.length)
    {q : List (List UInt8)} (hq : Cut (readCommands lengths hl) q) {n : Nat} (hn : lengths.length < n) :
    (runTasks n (t.rewind.receive q)).usb.sent.flatten = t.usb.sent.flatten ++ u.image := by
  have hidle : t.rewind.usb.Idle := h.ready
  have hcarried := carriedOut_of_cut hq hidle (by simpa [readCommands] using hn)
  have hb : u.image.length ≤ 126976 := u.bound
  have hread := execAll_read hl heven (d := t.rewind.dev) rfl (show 0 + lengths.sum < _ by omega)
  rw [hcarried.answers, hread, hsum]
  refine congrArg (t.usb.sent.flatten ++ ·) ?_
  refine List.ext_getElem (by simp) fun i h₁ h₂ => ?_
  simp only [List.getElem_map, List.getElem_range', Nat.one_mul]
  exact (congrArg t.dev.flash (Nat.zero_add i)).trans (h.image i h₂)

/-- Upload round trip: every image of whole words that ends below the boot section can be
cut into blocks; however they are packetised, each is acknowledged, the image is in place
with the rest of its last page blank and later pages as before, and reading any even
lengths that add up to it returns it. -/
theorem upload_round_trip (image : List UInt8) (heven : image.length % 2 = 0)
    (hbound : image.length ≤ bootStartAddr) :
    (∃ u : Upload, u.image = image) ∧
      ∀ u : Upload, u.image = image → ∀ s : Boot, s.usb.Idle → s.dev.currAddress = 0 →
        s.dev.pageBuffer = (fun _ => 0xFFFF) → ∀ q, Cut u.commands q → ∀ n, u.blocks.length < n →
        Uploaded u s (runTasks n (s.receive q)) ∧
        ∀ (lengths : List Nat) (h : ∀ x ∈ lengths, x < 65536), (∀ x ∈ lengths, x % 2 = 0) →
          lengths.sum = image.length → ∀ q', Cut (readCommands lengths h) q' → ∀ n', lengths.length < n' →
          (runTasks n' ((runTasks n (s.receive q)).rewind.receive q')).usb.sent.flatten =
            (runTasks n (s.receive q)).usb.sent.flatten ++ image := by
  constructor
  · obtain ⟨blocks,hflat,hfull,hfits⟩ := exists_blocks (show 0 < spmPageSize by decide) image
    exact ⟨⟨blocks,hfull,hfits,by rw [hflat]; exact heven,by rw [hflat]; exact hbound⟩,hflat⟩
  · rintro u rfl s hi h0 hclear q hq n hn
    have hup := upload_stores u hi h0 hclear hq hn
    exact ⟨hup,fun lengths hl he hsum q' hq' n' hn' => upload_reads_back hup hl he hsum hq' hn'⟩

private def oneWord : Upload := ⟨[[0x0C, 0x94]],by simp,by decide,by decide,by decide⟩

private def oneWordPackets : List (List UInt8) := [['B'.toUInt8, 0, 2, 'F'.toUInt8], [0x0C, 0x94]]

private theorem oneWord_cut : Cut oneWord.commands oneWordPackets := by
  have h : Cut oneWord.commands (oneWordPackets ++ []) := .command (by decide) (.done (by simp))
  exact h

private theorem oneWord_read : Cut (readCommands [2] (by decide)) [['g'.toUInt8, 0, 2, 'F'.toUInt8]] :=
  Cut.single (readCommands [2] (by decide))

theorem upload_round_trip_word :
    Uploaded oneWord (Boot.start []) (runTasks 2 ((Boot.start []).receive oneWordPackets)) ∧
      (runTasks 2 ((runTasks 2 ((Boot.start []).receive oneWordPackets)).rewind.receive
        [['g'.toUInt8, 0, 2, 'F'.toUInt8]])).usb.sent.flatten =
        (runTasks 2 ((Boot.start []).receive oneWordPackets)).usb.sent.flatten ++ [0x0C, 0x94] := by
  have htrip := (upload_round_trip [0x0C, 0x94] (by decide) (by decide)).2 oneWord rfl (Boot.start [])
    ⟨rfl,rfl,rfl⟩ rfl rfl oneWordPackets oneWord_cut 2 (by decide)
  exact ⟨htrip.1,htrip.2 [2] (by decide) (by decide) (by decide) _ oneWord_read 2 (by decide)⟩

end ArduinoAT90USB.Bootloader
