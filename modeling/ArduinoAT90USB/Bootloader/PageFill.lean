import ArduinoAT90USB.Bootloader.Address

/-! Programming a page word by word with `'C'`, `'c'` and `'m'`, against programming it with one
block. Both paths fill the page buffer; `'C'` and `'c'` each store their byte as a whole word in
the same slot, so that the second replaces the first and the high byte is lost. -/
namespace ArduinoAT90USB.Bootloader
open Foundation Foundation.AvrInt Foundation.PagedMemory

/-- The bytes of words as a block carries them, low byte first. -/
def wordBytes (words : List UInt16) : List UInt8 := words.flatMap fun w : UInt16 => [w.toUInt8, (w >>> 8).toUInt8]

theorem wordBytes_length (words : List UInt16) : (wordBytes words).length = 2 * words.length := by
  induction words with
  | nil => rfl
  | cons w rest ih =>
    change (wordBytes rest).length + 1 + 1 = _
    rw [ih, List.length_cons]
    omega

theorem wordBytes_bound {words : List UInt16} (h : words.length ≤ spmPageSize / 2) : (wordBytes words).length < 65536 := by
  have hsize : spmPageSize / 2 = 128 := rfl
  rw [wordBytes_length]
  omega

namespace Device

/-- Words put into the page buffer one after the other, from the address counter on. -/
def fillWords : List UInt16 → Device → Device
  | [], d => d
  | w :: rest, d => fillWords rest (d.bootPageFill d.currAddress w).advance

theorem fillWords_flash (words : List UInt16) (d : Device) : (d.fillWords words).flash = d.flash := by
  induction words generalizing d with
  | nil => rfl
  | cons w rest ih => exact ih _

theorem writeFlash_words (words : List UInt16) (lowByte : UInt8) (d : Device) :
    d.writeFlash (wordBytes words) false lowByte = d.fillWords words := by
  induction words generalizing lowByte d with
  | nil => rfl
  | cons w rest ih =>
    change writeFlash (wordBytes rest) false w.toUInt8 (d.bootPageFill d.currAddress (toUInt16 _)).advance = _
    rw [word_join, ih]
    rfl

private theorem slot_or_one (a : UInt32) : slot (a ||| 1) = slot a := by
  have hor : (a ||| 1).toNat / 2 = a.toNat / 2 := by
    rw [UInt32.toNat_or, Nat.or_div_two]
    simp
  have hsize : spmPageSize = 256 := rfl
  rw [slot, slot, hsize]
  omega

/-- The low byte's address selects the slot of the high byte's, and replaces what is there. -/
theorem bootPageFill_again (a : UInt32) (v w : UInt16) (d : Device) :
    (d.bootPageFill a v).bootPageFill (a ||| 1) w = d.bootPageFill a w := by
  simp only [bootPageFill, slot_or_one]
  congr 1
  funext i
  split <;> rfl

theorem fillWords_buffer (words : List UInt16) (d : Device) (h : slot d.currAddress + words.length ≤ spmPageSize / 2) (i : Nat) :
    (d.fillWords words).pageBuffer i =
      if slot d.currAddress ≤ i then (words[i - slot d.currAddress]?).getD (d.pageBuffer i) else d.pageBuffer i := by
  induction words generalizing d with
  | nil => simp [fillWords]
  | cons w rest ih =>
    have hsize : spmPageSize / 2 = 128 := rfl
    rw [List.length_cons, hsize] at h
    by_cases hlast : rest = []
    · subst hlast
      simp only [fillWords, advance, bootPageFill]
      by_cases hi : i = slot d.currAddress
      · simp [hi]
      · rw [if_neg hi]
        split
        · rw [show i - slot d.currAddress = i - slot d.currAddress - 1 + 1 by omega]
          simp
        · rfl
    · have hpos := List.length_pos_of_ne_nil hlast
      have hnext : slot (d.bootPageFill d.currAddress w).advance.currAddress = slot d.currAddress + 1 := by
        change slot (d.currAddress + 2) = _
        have hstart : d.currAddress.toNat % 256 / 2 + (rest.length + 1) ≤ 128 := h
        change (d.currAddress + 2).toNat % 256 / 2 = d.currAddress.toNat % 256 / 2 + 1
        rw [UInt32.toNat_add]
        change (d.currAddress.toNat + 2) % 4294967296 % 256 / 2 = _
        omega
      rw [fillWords, ih _ (by rw [hnext, hsize]; omega), hnext]
      change (if slot d.currAddress + 1 ≤ i then (rest[i - (slot d.currAddress + 1)]?).getD _ else _) = _
      simp only [advance, bootPageFill]
      by_cases hi : i = slot d.currAddress
      · rw [if_neg (by omega), if_pos hi, if_pos (by omega), hi, Nat.sub_self]
        rfl
      · rw [if_neg hi]
        by_cases hle : slot d.currAddress + 1 ≤ i
        · rw [if_pos hle, if_pos (by omega), show i - slot d.currAddress = i - (slot d.currAddress + 1) + 1 by omega]
          rfl
        · rw [if_neg hle, if_neg (by omega)]

/-- A page that holds the bytes of the page buffer is read back in its words. -/
theorem pgmReadWordFar_page {d e : Device} {m : Nat → UInt8} {k i : Nat} {a : UInt32}
    (he : e.flash = setPage spmPageSize (k * spmPageSize) d.bufferByte m) (ha : a.toNat = k * spmPageSize + 2*i)
    (hi : i < spmPageSize / 2) : e.pgmReadWordFar a = d.pageBuffer i := by
  have hsize : spmPageSize / 2 = 128 := rfl
  have hcell (j : Nat) (hj : j < spmPageSize) : e.flash (k * spmPageSize + j) = d.bufferByte j := by
    rw [he, setPage_inside hj]
  have hword := (bufferByte_word d i _).mpr rfl
  change toUInt16 (promote (e.flash (a.toNat + 1)) <<< 8 ||| promote (e.flash a.toNat)) = _
  rw [ha, Nat.add_assoc, hcell (2*i) (by omega), hcell (2*i + 1) (by omega), hword.1, hword.2, word_join]

end Device

namespace Command

/-- The `'A'` command for a word address. -/
def seek (w : UInt16) : Command := .setAddress (w >>> 8).toUInt8 w.toUInt8

/-- A word in two halves, the high byte first. -/
def fillWord (w : UInt16) : List Command := [.fillHighByte (w >>> 8).toUInt8,.fillLowByte w.toUInt8]

/-- Programming words one by one, from word address `start` on. -/
def bytewise (start : UInt16) (words : List UInt16) : List Command :=
  seek start :: words.flatMap fillWord ++ [seek start,commitPage]

def blockwise (start : UInt16) (words : List UInt16) (h : words.length ≤ spmPageSize / 2) : List Command :=
  [seek start,.writeBlock .flash (wordBytes words) (wordBytes_bound h)]

def readBack (start : UInt16) : Nat → List Command
  | 0 => []
  | k+1 => seek start :: readWord :: readBack (start + 1) k

theorem readBack_length (start : UInt16) (k : Nat) : (readBack start k).length = 2*k := by
  induction k generalizing start with
  | zero => rfl
  | succ k ih =>
    change (readBack (start + 1) k).length + 1 + 1 = _
    rw [ih]
    omega

theorem bytewise_length (start : UInt16) (words : List UInt16) : (bytewise start words).length = 2 * words.length + 3 := by
  have hfill : (words.flatMap fillWord).length = words.length * 2 := by simp [fillWord]
  rw [bytewise, List.length_append, List.length_cons, hfill]
  change words.length * 2 + 1 + 2 = _
  omega

end Command

def seekAddress (w : UInt16) : UInt32 := toUInt32 (promote (w >>> 8).toUInt8 <<< 9) ||| toUInt32 (promote w.toUInt8 <<< 1)

/-- Within a page the addresses of `'A'` run through the bytes of one page, wherever it takes that page to be. -/
theorem seekAddress_page (start : UInt16) (h : 2 * start.toNat % spmPageSize = 0) :
    ∃ k, ∀ i < spmPageSize / 2, (seekAddress (start + UInt16.ofNat i)).toNat = k * spmPageSize + 2*i := by
  have hs := start.toNat_lt
  have hsize : spmPageSize = 256 := rfl
  rw [hsize] at h ⊢
  refine ⟨(seekAddress start).toNat / 256,fun i hi => ?_⟩
  have hsum : (start + UInt16.ofNat i).toNat = start.toNat + i := by
    rw [UInt16.toNat_add, UInt16.toNat_ofNat_of_lt' (Nat.lt_trans hi (by decide))]
    omega
  have hbytes (w : UInt16) : (seekAddress w).toNat =
      (if w.toNat / 256 % 128 < 64 then w.toNat / 256 % 128 * 512 else w.toNat / 256 % 128 * 512 + 4294901760) +
        2 * (w.toNat % 256) := by
    rw [seekAddress, setAddress_toNat, high_toNat, UInt16.toNat_toUInt8]
  rw [hbytes, hbytes, hsum, show (start.toNat + i) / 256 = start.toNat / 256 by omega]
  split <;> omega

section Paths
variable {start : UInt16} {words : List UInt16} {d : Device}

/-- The words that the two halves make up: the low bytes alone. -/
def lowWords (words : List UInt16) : List UInt16 := words.map fun w => w.toUInt8.toUInt16

theorem execAll_fillWords (words : List UInt16) (d : Device) :
    (Command.execAll (words.flatMap Command.fillWord) d).1 = d.fillWords (lowWords words) := by
  induction words generalizing d with
  | nil => rfl
  | cons w rest ih =>
    rw [List.flatMap_cons, Command.execAll_append]
    refine (ih _).trans ?_
    have hfill : (Command.execAll (Command.fillWord w) d).1 = (d.bootPageFill d.currAddress w.toUInt8.toUInt16).advance :=
      congrArg Device.advance (d.bootPageFill_again d.currAddress _ _)
    rw [hfill]
    rfl

theorem bytewise_flash (start : UInt16) (words : List UInt16) (d : Device) :
    (Command.execAll (Command.bytewise start words) d).1.flash =
      setPage spmPageSize (seekAddress start).toNat
        ((d.setCurrAddress (seekAddress start)).fillWords (lowWords words)).bufferByte d.flash := by
  have hfill := execAll_fillWords words (d.setCurrAddress (seekAddress start))
  change (Command.execAll (words.flatMap Command.fillWord ++ _) (d.setCurrAddress (seekAddress start))).1.flash = _
  rw [Command.execAll_append, hfill]
  change setPage spmPageSize (seekAddress start).toNat _ (Device.fillWords _ _).flash = _
  rw [Device.fillWords_flash]
  rfl

theorem blockwise_flash (start : UInt16) (words : List UInt16) (h : words.length ≤ spmPageSize / 2) (d : Device) :
    (Command.execAll (Command.blockwise start words h) d).1.flash =
      setPage spmPageSize (seekAddress start).toNat
        (((d.setCurrAddress (seekAddress start)).bootPageErase (seekAddress start)).fillWords words).bufferByte d.flash := by
  change (Device.bootPageWrite (seekAddress start) (Device.writeFlash (wordBytes words) false 0 _)).flash = _
  rw [Device.writeFlash_words]
  change setPage spmPageSize (seekAddress start).toNat _ (Device.fillWords _ _).flash = _
  rw [Device.fillWords_flash]
  exact setPage_same rfl _ (fun _ => 0xFF) d.flash

private theorem toUInt8_toUInt16_iff (w : UInt16) : w.toUInt8.toUInt16 = w ↔ w.toNat < 256 := by
  rw [← UInt16.toNat_inj, UInt8.toNat_toUInt16, UInt16.toNat_toUInt8]
  omega

theorem lowWords_eq_iff (words : List UInt16) : lowWords words = words ↔ ∀ w ∈ words, w.toNat < 256 := by
  have hid : lowWords words = words ↔ words.map (fun w => w.toUInt8.toUInt16) = words.map id := by
    rw [List.map_id]
    rfl
  rw [hid, List.map_eq_map_iff]
  exact forall₂_congr fun w _ => toUInt8_toUInt16_iff w

section Filled
variable {k : Nat} (hk : (seekAddress start).toNat = k * spmPageSize) (hclear : d.pageBuffer = fun _ => 0xFFFF)
include hk hclear

private theorem filled_word (hfit : words.length ≤ spmPageSize / 2) (i : Nat) :
    ((d.setCurrAddress (seekAddress start)).fillWords words).pageBuffer i = (words[i]?).getD 0xFFFF := by
  have hslot : Device.slot (seekAddress start) = 0 := by
    rw [Device.slot, hk, Nat.mul_mod_left]
  have hbuffer := Device.fillWords_buffer words (d.setCurrAddress (seekAddress start))
    (by change Device.slot (seekAddress start) + _ ≤ _; omega) i
  change _ = if Device.slot (seekAddress start) ≤ i then (words[i - Device.slot (seekAddress start)]?).getD (d.pageBuffer i)
    else d.pageBuffer i at hbuffer
  rw [hbuffer, hslot, if_pos (Nat.zero_le i), Nat.sub_zero, hclear]

/-- Both paths leave the same flash just when no high byte gets lost. -/
theorem same_flash_iff (hfit : words.length ≤ spmPageSize / 2) :
    (Command.execAll (Command.bytewise start words) d).1.flash =
      (Command.execAll (Command.blockwise start words hfit) d).1.flash ↔ lowWords words = words := by
  have hlow : (lowWords words).length = words.length := List.length_map _
  have hbytewise := @filled_word start (lowWords words) d k hk hclear (hlow ▸ hfit)
  have hblockwise := filled_word (d := d.bootPageErase (seekAddress start)) hk hclear hfit
  rw [bytewise_flash, blockwise_flash, hk, setPage_inj (by decide), Device.bufferByte_eq_iff]
  constructor
  · intro hsame
    refine List.ext_getElem hlow fun i h₁ h₂ => ?_
    have hi := hsame i (Nat.lt_of_lt_of_le h₂ hfit)
    rw [hbytewise] at hi
    have hword := hi.trans (hblockwise i)
    rwa [List.getElem?_eq_getElem h₁, List.getElem?_eq_getElem h₂] at hword
  · intro heq i _
    rw [heq] at hbytewise ⊢
    exact (hbytewise i).trans (hblockwise i).symm

theorem bytewise_word (hfit : words.length ≤ spmPageSize / 2) {i : Nat} (hi : i < words.length) {a : UInt32}
    (ha : a.toNat = k * spmPageSize + 2*i) :
    (Command.execAll (Command.bytewise start words) d).1.pgmReadWordFar a = words[i].toUInt8.toUInt16 := by
  have hlow : (lowWords words).length = words.length := List.length_map _
  have hflash := bytewise_flash start words d
  rw [hk] at hflash
  rw [Device.pgmReadWordFar_page hflash ha (by omega), filled_word hk hclear (hlow ▸ hfit)]
  simp [lowWords, List.getElem?_eq_getElem hi]

end Filled

theorem execAll_readBack (words : List UInt16) (start : UInt16) (d : Device)
    (h : ∀ i (hi : i < words.length), d.pgmReadWordFar (seekAddress (start + UInt16.ofNat i)) = words[i]) :
    (Command.execAll (Command.readBack start words.length) d).2.flatten =
      words.flatMap fun w : UInt16 => ['\r'.toUInt8,(w >>> 8).toUInt8,w.toUInt8] := by
  induction words generalizing start d with
  | nil => rfl
  | cons w rest ih =>
    have hfirst : d.pgmReadWordFar (seekAddress start) = w := by
      simpa using h 0 (Nat.zero_lt_succ _)
    have hrest := ih (start + 1) (d.setCurrAddress (seekAddress start)) fun i hi => by
      have hword := h (i+1) (Nat.succ_lt_succ hi)
      rw [UInt16.ofNat_add, UInt16.add_comm (UInt16.ofNat i), ← UInt16.add_assoc] at hword
      exact hword
    have hanswer : [(d.pgmReadWordFar (seekAddress start) >>> 8).toUInt8,(d.pgmReadWordFar (seekAddress start) &&& 0xFF).toUInt8] =
        [(w >>> 8).toUInt8,w.toUInt8] := by
      rw [hfirst, masked_toUInt8]
    rw [List.flatMap_cons, ← hrest]
    exact congrArg (fun answer => '\r'.toUInt8 :: (answer ++ _)) hanswer

end Paths

section Runs
variable {start : UInt16} {words : List UInt16} {s : Boot} {q₁ q₂ : List (List UInt8)} {n : Nat}

theorem programmed_same_iff (hpage : 2 * start.toNat % spmPageSize = 0) (hfit : words.length ≤ spmPageSize / 2)
    (hi : s.usb.Idle) (hclear : s.dev.pageBuffer = fun _ => 0xFFFF) (h₁ : Cut (Command.bytewise start words) q₁)
    (h₂ : Cut (Command.blockwise start words hfit) q₂) (hn : 2 * words.length + 3 < n) :
    (runTasks n (s.receive q₁)).dev.flash = (runTasks n (s.receive q₂)).dev.flash ↔ ∀ w ∈ words, w.toNat < 256 := by
  obtain ⟨k,haddress⟩ := seekAddress_page start hpage
  have hbytewise := carriedOut_of_cut h₁ hi (by rw [Command.bytewise_length]; exact hn)
  have hblockwise := carriedOut_of_cut h₂ hi (show 2 < n by omega)
  rw [hbytewise.device, hblockwise.device, same_flash_iff (by simpa using haddress 0 (by decide)) hclear hfit, lowWords_eq_iff]

theorem programmed_reads_back (hpage : 2 * start.toNat % spmPageSize = 0) (hfit : words.length ≤ spmPageSize / 2)
    (hi : s.usb.Idle) (hclear : s.dev.pageBuffer = fun _ => 0xFFFF) (h₁ : Cut (Command.bytewise start words) q₁)
    (h₂ : Cut (Command.readBack start words.length) q₂) (hn : 2 * words.length + 3 < n) (hlow : ∀ w ∈ words, w.toNat < 256) :
    (runTasks n ((runTasks n (s.receive q₁)).receive q₂)).usb.sent.flatten = (runTasks n (s.receive q₁)).usb.sent.flatten ++
      words.flatMap (fun w : UInt16 => ['\r'.toUInt8,(w >>> 8).toUInt8,w.toUInt8]) := by
  obtain ⟨k,haddress⟩ := seekAddress_page start hpage
  have hbytewise := carriedOut_of_cut h₁ hi (by rw [Command.bytewise_length]; exact hn)
  have hreadBack := carriedOut_of_cut h₂ hbytewise.ready (n := n) (by rw [Command.readBack_length]; omega)
  rw [hreadBack.answers, execAll_readBack]
  intro i hi
  rw [hbytewise.device, bytewise_word (by simpa using haddress 0 (by decide)) hclear hfit hi
    (haddress i (Nat.lt_of_lt_of_le hi hfit))]
  exact (toUInt8_toUInt16_iff _).mpr (hlow _ (List.getElem_mem hi))

end Runs

private theorem smallWord_bytewise : Cut (Command.bytewise 0x80 [0x0034])
    [['A'.toUInt8,0x00,0x80], ['C'.toUInt8,0x00], ['c'.toUInt8,0x34], ['A'.toUInt8,0x00,0x80], ['m'.toUInt8]] :=
  Cut.single (Command.bytewise 0x80 [0x0034])

private theorem smallWord_blockwise : Cut (Command.blockwise 0x80 [0x0034] (by decide))
    [['A'.toUInt8,0x00,0x80], ['B'.toUInt8,0,2,'F'.toUInt8,0x34,0x00]] :=
  Cut.single (Command.blockwise 0x80 [0x0034] (by decide))

private theorem smallWord_readBack : Cut (Command.readBack 0x80 1) [['A'.toUInt8,0x00,0x80], ['R'.toUInt8]] :=
  Cut.single (Command.readBack 0x80 1)

end ArduinoAT90USB.Bootloader
