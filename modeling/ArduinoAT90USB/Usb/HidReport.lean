import ArduinoAT90USB.Usb.HidLayout
import ArduinoAT90USB.Foundation.BitStream

/-! The fields of a report, read and written with the offsets and sizes that the parser has
found. -/
namespace ArduinoAT90USB.Usb
open Foundation.Memory Foundation.Table Foundation.BitStream

/-- The values in a `HID_ReportItem_t`. -/
structure HidItemValue where
  value : UInt32
  previousValue : UInt32
deriving DecidableEq

/-- Where a report's data begin: behind its ID, if it has one. -/
def HidReportItem.dataStart (item : HidReportItem) : Nat := if item.reportID ≠ 0 then 1 else 0

/-- The loop of `USB_GetHIDReportItemInfo`. -/
def getFieldBits (reportData : Block) (start : Nat) : Nat → UInt16 → UInt32 → UInt32 → Checked UInt32
  | 0, _, _, value => .ok value
  | dataBitsRem + 1, currentBit, bitMask, value => do
    let byte ← load reportData (start + currentBit.toNat / 8)
    getFieldBits reportData start dataBitsRem (currentBit + 1) (bitMask <<< 1)
      (if byte.toNat &&& 1 <<< (currentBit.toNat % 8) ≠ 0 then value ||| bitMask else value)

def readField (reportData : Block) (item : HidReportItem) (v : HidItemValue) : Checked (Bool × HidItemValue) := do
  let value ← getFieldBits reportData item.dataStart item.attributes.bitSize.toNat item.bitOffset 1 0
  .ok (true,⟨value,v.value⟩)

/-- The item's window of a report, as far as 32 bits hold it. -/
def HidReportItem.valueIn (item : HidReportItem) (report : Block) : UInt32 :=
  UInt32.ofNat (window (report.drop item.dataStart) item.bitOffset.toNat item.attributes.bitSize.toNat)

/-- `USB_GetHIDReportItemInfo`, on an item. -/
def getHIDReportItemInfo (reportData : Block) (item : HidReportItem) (v : HidItemValue) : Checked (Bool × HidItemValue) :=
  if item.reportID ≠ 0 then do
    let id ← load reportData 0
    if item.reportID ≠ id then .ok (false,v) else readField reportData item v
  else readField reportData item v

/-- One round of `USB_SetHIDReportItemInfo`. The masks of the value and of the report are those of
the loop above, in the other's place. -/
def setFieldBit (start : Nat) (value : UInt32) (currentBit : UInt16) (bitMask : UInt32) (reportData : Block) : Checked Block :=
  if value.toNat &&& 1 <<< (currentBit.toNat % 8) ≠ 0 then do
    let byte ← load reportData (start + currentBit.toNat / 8)
    store reportData (start + currentBit.toNat / 8) (byte ||| bitMask.toUInt8)
  else .ok reportData

def setFieldBits (start : Nat) (value : UInt32) : Nat → UInt16 → UInt32 → Block → Checked Block
  | 0, _, _, reportData => .ok reportData
  | dataBitsRem + 1, currentBit, bitMask, reportData => do
    let reportData ← setFieldBit start value currentBit bitMask reportData
    setFieldBits start value dataBitsRem (currentBit + 1) (bitMask <<< 1) reportData

def setReportID (reportData : Block) (item : HidReportItem) : Checked Block :=
  if item.reportID ≠ 0 then store reportData 0 item.reportID else .ok reportData

/-- `USB_SetHIDReportItemInfo`, on an item. -/
def setHIDReportItemInfo (reportData : Block) (item : HidReportItem) (v : HidItemValue) : Checked (Block × HidItemValue) := do
  let reportData ← setReportID reportData item
  let reportData ← setFieldBits item.dataStart v.value item.attributes.bitSize.toNat item.bitOffset 1 reportData
  .ok (reportData,{v with previousValue := v.value})

/-- `USB_GetHIDReportSize`: the entries that are not in use are looked at too. -/
def getHIDReportSize (info : HidReportInfo) (reportID : UInt8) (reportType : HidItemType) : Checked UInt16 := do
  match ← search info.reportIDSizes (fun r => r.reportID = reportID) (List.range maxReportIDs) with
  | none => .ok 0
  | some i =>
    let size ← fetch info.reportIDSizes i
    let reportSizeBits := size.reportSizeBits reportType
    .ok (reportSizeBits / 8 + if reportSizeBits % 8 ≠ 0 then 1 else 0)

section Loops
variable (reportData : Block) (start offset : Nat)

private theorem mask_shift (j : Nat) : UInt32.ofNat (2 ^ j) <<< 1 = UInt32.ofNat (2 ^ (j + 1)) := by
  apply UInt32.toNat_inj.mp
  rw [UInt32.toNat_shiftLeft,UInt32.toNat_ofNat',UInt32.toNat_ofNat']
  change (2 ^ j % 2 ^ 32) <<< 1 % 2 ^ 32 = _
  rw [Nat.shiftLeft_eq,Nat.pow_one,Nat.mod_mul_mod,← Nat.pow_succ]

private theorem currentBit_succ (offset j : Nat) : UInt16.ofNat (offset + j) + 1 = UInt16.ofNat (offset + (j + 1)) := by
  rw [← Nat.add_assoc]
  exact (UInt16.ofNat_add (offset + j) 1).symm

private theorem testBit_mask (value : UInt32) (j : Nat) {k : Nat} (hk : k < 32) :
    (value ||| UInt32.ofNat (2 ^ j)).toNat.testBit k = (value.toNat.testBit k || decide (j = k)) := by
  rw [UInt32.toNat_or,Nat.testBit_or,UInt32.toNat_ofNat',Nat.testBit_mod_two_pow,Nat.testBit_two_pow,decide_eq_true hk,
    Bool.true_and]

private theorem load_bit {reportData : Block} {start m : Nat} (h : start + m / 8 < reportData.length) :
    ∃ byte, load reportData (start + m / 8) = .ok byte ∧ byte.toNat.testBit (m % 8) = bitAt (reportData.drop start) m := by
  refine ⟨reportData[start + m / 8],?_,?_⟩
  · rw [load,List.getElem?_eq_getElem h]
  · rw [bitAt,List.getD_eq_getElem?_getD,List.getElem?_drop,List.getElem?_eq_getElem h]
    rfl

/-- The bits that are left are added to the value, at the places they have in the field. -/
private theorem getFieldBits_spec (n j : Nat) (value : UInt32) (hend : offset + (j + n) ≤ 2 ^ 16)
    (hinside : ∀ k, j ≤ k → k < j + n → start + (offset + k) / 8 < reportData.length) :
    ∃ value', getFieldBits reportData start n (UInt16.ofNat (offset + j)) (UInt32.ofNat (2 ^ j)) value = .ok value' ∧
      ∀ k < 32, value'.toNat.testBit k =
        (value.toNat.testBit k || (decide (j ≤ k ∧ k < j + n) && bitAt (reportData.drop start) (offset + k))) := by
  induction n generalizing j value with
  | zero =>
    refine ⟨value,rfl,?_⟩
    intro k _
    rw [decide_eq_false (by omega),Bool.false_and,Bool.or_false]
  | succ n ih =>
    obtain ⟨byte,hload,hbit⟩ := load_bit (hinside j (Nat.le_refl j) (by omega))
    have hcurrent : (UInt16.ofNat (offset + j)).toNat = offset + j := by
      rw [UInt16.toNat_ofNat',Nat.mod_eq_of_lt (by omega)]
    obtain ⟨value',hrest,hbits⟩ := ih (j + 1)
      (if byte.toNat &&& 1 <<< ((offset + j) % 8) ≠ 0 then value ||| UInt32.ofNat (2 ^ j) else value) (by omega)
      fun k hk hlt => hinside k (by omega) (by omega)
    refine ⟨value',?_,?_⟩
    · rw [getFieldBits,hcurrent,hload,ok_bind,mask_shift,currentBit_succ]
      exact hrest
    · intro k hk
      rw [hbits k hk]
      have hvalue : (if byte.toNat &&& 1 <<< ((offset + j) % 8) ≠ 0 then value ||| UInt32.ofNat (2 ^ j) else value).toNat.testBit k =
          (value.toNat.testBit k || (decide (j = k) && bitAt (reportData.drop start) (offset + j))) := by
        rw [← hbit]
        by_cases hset : byte.toNat.testBit ((offset + j) % 8) = true
        · rw [if_pos ((and_shift_ne_zero _ _).mpr hset),testBit_mask value j hk,hset,Bool.and_true]
        · rw [if_neg (fun hne => hset ((and_shift_ne_zero _ _).mp hne)),Bool.eq_false_iff.mpr hset,Bool.and_false,Bool.or_false]
      rw [hvalue,Bool.or_assoc]
      congr 1
      by_cases hjk : j = k
      · subst hjk
        rw [decide_eq_true rfl,decide_eq_false (by omega),decide_eq_true (by omega),Bool.false_and,Bool.or_false]
      · have hround : (j + 1 ≤ k ∧ k < j + 1 + n) ↔ (j ≤ k ∧ k < j + (n + 1)) := by omega
        rw [decide_eq_false hjk,Bool.false_and,Bool.false_or,decide_eq_decide.mpr hround]

theorem getFieldBits_eq (n : Nat) (hend : offset + n ≤ 2 ^ 16) (hinside : offset + n ≤ 8 * (reportData.length - start)) :
    getFieldBits reportData start n (UInt16.ofNat offset) 1 0 =
      .ok (UInt32.ofNat (window (reportData.drop start) offset n)) := by
  obtain ⟨value,hvalue,hbits⟩ := getFieldBits_spec reportData start offset n 0 0
    (by omega) fun k _ hk => by omega
  have heq : value = UInt32.ofNat (window (reportData.drop start) offset n) := by
    apply UInt32.toNat_inj.mp
    apply Nat.eq_of_testBit_eq
    intro k
    rw [UInt32.toNat_ofNat',Nat.testBit_mod_two_pow,testBit_window]
    by_cases hk : k < 32
    · rw [hbits k hk,decide_eq_true hk]
      simp
    · rw [decide_eq_false hk,Nat.testBit_lt_two_pow (Nat.lt_of_lt_of_le value.toNat_lt (Nat.pow_le_pow_right (by decide) (by omega)))]
      rfl
  rw [← heq]
  exact hvalue

private theorem store_bit {b : Block} {q : Nat} (x : UInt8) (h : start + q < b.length) :
    ∃ b', store b (start + q) x = .ok b' ∧ b'.length = b.length ∧ b'.take start = b.take start ∧
      ∀ m, bitAt (b'.drop start) m = if m / 8 = q then x.toNat.testBit (m % 8) else bitAt (b.drop start) m := by
  refine ⟨b.set (start + q) x,if_pos h,List.length_set,List.take_set_of_le (by omega),?_⟩
  intro m
  rw [bitAt,bitAt,List.getD_eq_getElem?_getD,List.getD_eq_getElem?_getD,List.getElem?_drop,List.getElem?_drop]
  by_cases hq : m / 8 = q
  · rw [if_pos hq,hq,List.getElem?_set_self h]
    rfl
  · rw [if_neg hq,List.getElem?_set_ne (by omega)]

private theorem testBit_byteMask (byte : UInt8) (j : Nat) {i : Nat} (hi : i < 8) :
    (byte ||| (UInt32.ofNat (2 ^ j)).toUInt8).toNat.testBit i = (byte.toNat.testBit i || decide (j = i)) := by
  rw [UInt8.toNat_or,Nat.testBit_or,UInt32.toNat_toUInt8,UInt32.toNat_ofNat',Nat.testBit_mod_two_pow,Nat.testBit_mod_two_pow,
    Nat.testBit_two_pow,decide_eq_true hi,decide_eq_true (by omega : i < 32),Bool.true_and,Bool.true_and]

/-- Round `j` sets bit `j` of the byte that holds the field's bit `j`, if the value has a one at
that bit's place in its byte. -/
private theorem setFieldBit_spec (value : UInt32) (j : Nat) {b : Block} (hend : offset + j < 2 ^ 16)
    (hinside : start + (offset + j) / 8 < b.length) :
    ∃ b', setFieldBit start value (UInt16.ofNat (offset + j)) (UInt32.ofNat (2 ^ j)) b = .ok b' ∧ b'.length = b.length ∧
      b'.take start = b.take start ∧
      ∀ m, bitAt (b'.drop start) m = (bitAt (b.drop start) m ||
        (decide (m % 8 = j ∧ (offset + m % 8) / 8 = m / 8) && value.toNat.testBit ((offset + m % 8) % 8))) := by
  have hcurrent : (UInt16.ofNat (offset + j)).toNat = offset + j := by
    rw [UInt16.toNat_ofNat',Nat.mod_eq_of_lt hend]
  rw [setFieldBit,hcurrent]
  by_cases hset : value.toNat.testBit ((offset + j) % 8) = true
  · rw [if_pos ((and_shift_ne_zero _ _).mpr hset)]
    have hload : load b (start + (offset + j) / 8) = .ok b[start + (offset + j) / 8] := by
      rw [load,List.getElem?_eq_getElem hinside]
    obtain ⟨b',hstore,hlen,hbelow,hbits⟩ := store_bit start (b[start + (offset + j) / 8] ||| (UInt32.ofNat (2 ^ j)).toUInt8) hinside
    rw [hload,ok_bind]
    refine ⟨b',hstore,hlen,hbelow,?_⟩
    intro m
    rw [hbits m]
    by_cases hm : m / 8 = (offset + j) / 8
    · rw [if_pos hm,testBit_byteMask _ j (Nat.mod_lt m (by decide))]
      congr 1
      · rw [bitAt,List.getD_eq_getElem?_getD,List.getElem?_drop,hm,List.getElem?_eq_getElem hinside]
        rfl
      · by_cases hmj : m % 8 = j
        · rw [hmj,hset,Bool.and_true]
          exact decide_eq_decide.mpr (by omega)
        · rw [decide_eq_false (fun h => hmj h.symm),decide_eq_false (fun h => hmj h.1),Bool.false_and]
    · rw [if_neg hm,decide_eq_false,Bool.false_and,Bool.or_false]
      rintro ⟨hmj,hbyte⟩
      rw [hmj] at hbyte
      exact hm hbyte.symm
  · rw [if_neg (fun hne => hset ((and_shift_ne_zero _ _).mp hne))]
    refine ⟨b,rfl,rfl,rfl,?_⟩
    intro m
    by_cases hmj : m % 8 = j
    · rw [hmj,Bool.eq_false_iff.mpr hset,Bool.and_false,Bool.or_false]
    · rw [decide_eq_false (fun h => hmj h.1),Bool.false_and,Bool.or_false]

private theorem setFieldBits_spec (value : UInt32) (n j : Nat) (b : Block) (hend : offset + (j + n) ≤ 2 ^ 16)
    (hinside : ∀ k, j ≤ k → k < j + n → start + (offset + k) / 8 < b.length) :
    ∃ b', setFieldBits start value n (UInt16.ofNat (offset + j)) (UInt32.ofNat (2 ^ j)) b = .ok b' ∧
      b'.length = b.length ∧ b'.take start = b.take start ∧
      ∀ m, bitAt (b'.drop start) m = (bitAt (b.drop start) m ||
        (decide (j ≤ m % 8 ∧ m % 8 < j + n ∧ (offset + m % 8) / 8 = m / 8) && value.toNat.testBit ((offset + m % 8) % 8))) := by
  induction n generalizing j b with
  | zero =>
    refine ⟨b,rfl,rfl,rfl,?_⟩
    intro m
    rw [decide_eq_false (by omega),Bool.false_and,Bool.or_false]
  | succ n ih =>
    obtain ⟨b₁,hround,hlen,hbelow,hbits⟩ := setFieldBit_spec start offset value j (by omega) (hinside j (Nat.le_refl j) (by omega))
    obtain ⟨b',hrest,hlen',hbelow',hbits'⟩ := ih (j + 1) b₁ (by omega) fun k hk hlt => by
      rw [hlen]
      exact hinside k (by omega) (by omega)
    refine ⟨b',?_,hlen'.trans hlen,hbelow'.trans hbelow,?_⟩
    · rw [setFieldBits,hround,ok_bind,mask_shift,currentBit_succ]
      exact hrest
    · intro m
      rw [hbits' m,hbits m,Bool.or_assoc]
      congr 1
      by_cases hmj : m % 8 = j
      · rw [decide_eq_false (by omega : ¬ (j + 1 ≤ m % 8 ∧ _)),Bool.false_and,Bool.or_false]
        congr 1
        exact decide_eq_decide.mpr (by omega)
      · rw [decide_eq_false (fun h => hmj h.1),Bool.false_and,Bool.false_or]
        congr 1
        exact decide_eq_decide.mpr (by omega)

end Loops
section Sizes
variable {filter : HidReportItem → Bool} {info : HidReportInfo} {c : HidContext}

private theorem bytes_enough (n : Nat) (h : n < 2 ^ 16) :
    n ≤ 8 * (UInt16.ofNat n / 8 + if UInt16.ofNat n % 8 ≠ 0 then 1 else 0).toNat := by
  have hn : (UInt16.ofNat n).toNat = n := by rw [UInt16.toNat_ofNat',Nat.mod_eq_of_lt h]
  by_cases hrest : UInt16.ofNat n % 8 ≠ 0
  · rw [if_pos hrest,UInt16.toNat_add,UInt16.toNat_div,hn]
    change n ≤ 8 * ((n / 8 + 1) % 2 ^ 16)
    omega
  · rw [if_neg hrest,UInt16.toNat_add,UInt16.toNat_div,hn]
    have hzero := congrArg UInt16.toNat (not_not.mp hrest)
    rw [UInt16.toNat_mod,hn] at hzero
    change n % 8 = 0 at hzero
    change n ≤ 8 * ((n / 8 + 0) % 2 ^ 16)
    omega

/-- The entry that is found for a report's ID is the report's own. -/
private theorem find_size (hv : c.Valid) (hle : c.reports.length ≤ maxReportIDs) {report : Nat} {id : UInt8}
    (hreport : c.reports[report]? = some id) :
    ((List.range maxReportIDs).find? fun i => (sizeInfo c.reports c.fields i).reportID = id) = some report := by
  obtain ⟨hlt,hget⟩ := List.getElem?_eq_some_iff.mp hreport
  rw [List.find?_range_eq_some]
  refine ⟨?_,List.mem_range.mpr (by omega),?_⟩
  · rw [sizeInfo,List.getD_eq_getElem?_getD,hreport]
    exact decide_eq_true rfl
  · intro j hj
    have hne : c.reports[j] ≠ id := by
      rw [← hget]
      exact fun heq => absurd ((List.Nodup.getElem_inj_iff hv.nodup).mp heq) (by omega)
    rw [sizeInfo,List.getD_eq_getElem?_getD,List.getElem?_eq_getElem (by omega)]
    simpa using hne

theorem getHIDReportSize_eq (hv : c.Valid) (h : info.Describes filter c) (hc : c.Counted) {report : Nat} {id : UInt8}
    (hreport : c.reports[report]? = some id) (type : HidItemType) :
    ∃ size, getHIDReportSize info id type = .ok size ∧ bits c.fields report type ≤ 8 * size.toNat := by
  have hle := h.reports_le
  have hlt := (List.getElem?_eq_some_iff.mp hreport).1
  refine ⟨_,?_,bytes_enough _ (hc report type)⟩
  unfold getHIDReportSize
  rw [h.sizes.search _ fun i hi => List.mem_range.mp hi,find_size hv hle hreport,ok_bind]
  dsimp only
  rw [h.sizes.fetch (by omega),ok_bind]
  rfl

end Sizes

private theorem get_own {item : HidReportItem} {report : Block} (v : HidItemValue)
    (hend : item.bitOffset.toNat + item.attributes.bitSize.toNat ≤ 2 ^ 16)
    (hinside : item.bitOffset.toNat + item.attributes.bitSize.toNat ≤ 8 * (report.length - item.dataStart))
    (hid : item.reportID ≠ 0 → report[0]? = some item.reportID) :
    getHIDReportItemInfo report item v = .ok (true,⟨item.valueIn report,v.value⟩) := by
  have hread : readField report item v = .ok (true,⟨item.valueIn report,v.value⟩) := by
    have hbits := getFieldBits_eq report item.dataStart item.bitOffset.toNat _ hend hinside
    rw [UInt16.ofNat_toNat] at hbits
    rw [readField,hbits,ok_bind]
    rfl
  unfold getHIDReportItemInfo
  by_cases hreport : item.reportID ≠ 0
  · rw [if_pos hreport,load,hid hreport]
    change (if item.reportID ≠ item.reportID then _ else _) = _
    rw [if_neg (fun h => h rfl),hread]
  · rw [if_neg hreport,hread]

section RoundTrip
variable {item : HidReportItem} {len : Nat}

private theorem setReportID_cleared (hstart : item.dataStart ≤ len) :
    ∃ b, setReportID (List.replicate len 0) item = .ok b ∧ b.length = len ∧
      (item.reportID ≠ 0 → (b.take item.dataStart)[0]? = some item.reportID) ∧
      ∀ m, bitAt (b.drop item.dataStart) m = false := by
  have hzeros : ∀ k m, bitAt (List.replicate k 0) m = false := by
    intro k m
    rw [bitAt,List.getD_eq_getElem?_getD,List.getElem?_replicate]
    split
    · exact Nat.zero_testBit _
    · exact Nat.zero_testBit _
  unfold setReportID
  by_cases hreport : item.reportID ≠ 0
  · have hone : item.dataStart = 1 := if_pos hreport
    obtain ⟨k,rfl⟩ : ∃ k, len = k + 1 := ⟨len - 1,by omega⟩
    rw [if_pos hreport,hone]
    refine ⟨item.reportID :: List.replicate k 0,rfl,by simp,fun _ => rfl,hzeros k⟩
  · have hzero : item.dataStart = 0 := if_neg hreport
    rw [if_neg hreport,hzero]
    exact ⟨_,rfl,List.length_replicate,fun h => absurd h hreport,hzeros len⟩

/-- The report has what is written of a value. -/
private def Written (item : HidReportItem) (value : UInt32) (report : Block) : Prop :=
  ∀ m, bitAt (report.drop item.dataStart) m =
    (decide (m % 8 < item.attributes.bitSize.toNat ∧ (item.bitOffset.toNat + m % 8) / 8 = m / 8) &&
      value.toNat.testBit ((item.bitOffset.toNat + m % 8) % 8))

private theorem set_cleared (v : HidItemValue) (hstart : item.dataStart ≤ len)
    (hend : item.bitOffset.toNat + item.attributes.bitSize.toNat ≤ 2 ^ 16)
    (hinside : item.bitOffset.toNat + item.attributes.bitSize.toNat ≤ 8 * (len - item.dataStart)) :
    ∃ report, setHIDReportItemInfo (List.replicate len 0) item v = .ok (report,{v with previousValue := v.value}) ∧
      report.length = len ∧ (item.reportID ≠ 0 → report[0]? = some item.reportID) ∧ Written item v.value report := by
  obtain ⟨b,hstore,hlen,hid,hclear⟩ := setReportID_cleared hstart
  obtain ⟨report,hset,hlen',hbelow,hbits⟩ := setFieldBits_spec item.dataStart item.bitOffset.toNat v.value
    item.attributes.bitSize.toNat 0 b (by omega) fun k _ hk => by omega
  refine ⟨report,?_,hlen'.trans hlen,?_,?_⟩
  · rw [Nat.add_zero,UInt16.ofNat_toNat] at hset
    unfold setHIDReportItemInfo
    rw [hstore,ok_bind,show (1 : UInt32) = UInt32.ofNat (2 ^ 0) from rfl,hset]
    rfl
  · intro hreport
    have hone : item.dataStart = 1 := if_pos hreport
    have hfirst := hid hreport
    rw [← hbelow,hone,List.getElem?_take_of_lt (by decide)] at hfirst
    exact hfirst
  · intro m
    rw [hbits m,hclear m,Bool.false_or]
    congr 1
    exact decide_eq_decide.mpr (by omega)

private theorem testBit_back {report : Block} {value : UInt32} {k : Nat} (hk : k < item.attributes.bitSize.toNat) (hk' : k < 32)
    (hbits : Written item value report) :
    (item.valueIn report).toNat.testBit k =
      (decide ((item.bitOffset.toNat + k) % 8 < item.attributes.bitSize.toNat ∧
          (item.bitOffset.toNat + (item.bitOffset.toNat + k) % 8) / 8 = (item.bitOffset.toNat + k) / 8) &&
        value.toNat.testBit ((item.bitOffset.toNat + (item.bitOffset.toNat + k) % 8) % 8)) := by
  rw [HidReportItem.valueIn,UInt32.toNat_ofNat',Nat.testBit_mod_two_pow,testBit_window,decide_eq_true hk,decide_eq_true hk',
    Bool.true_and,Bool.true_and,hbits]

/-- The written value comes back if its window of the report holds it. -/
private theorem round_trip_iff (v : HidItemValue) (hstart : item.dataStart ≤ len)
    (hend : item.bitOffset.toNat + item.attributes.bitSize.toNat ≤ 2 ^ 16)
    (hinside : item.bitOffset.toNat + item.attributes.bitSize.toNat ≤ 8 * (len - item.dataStart)) :
    ∃ report, ((∃ report v', setHIDReportItemInfo (List.replicate len 0) item v = .ok (report,v') ∧
        getHIDReportItemInfo report item v' = .ok (true,⟨v.value,v.value⟩)) ↔ item.valueIn report = v.value) ∧
      Written item v.value report := by
  obtain ⟨report,hset,hlen,hid,hbits⟩ := set_cleared v hstart hend hinside
  have hget := get_own {v with previousValue := v.value} hend (by rw [hlen]; exact hinside) hid
  refine ⟨report,⟨?_,?_⟩,hbits⟩
  · rintro ⟨report',v',hset',hget'⟩
    rw [hset] at hset'
    cases hset'
    rw [hget] at hget'
    simp only [Except.ok.injEq,Prod.mk.injEq,HidItemValue.mk.injEq] at hget'
    exact hget'.2.1
  · intro hback
    rw [hback] at hget
    exact ⟨report,_,hset,hget⟩

private theorem first_lost {report : Block} (hoffset : item.bitOffset.toNat % 8 ≠ 0) (hsize : item.attributes.bitSize.toNat ≠ 0)
    (hbits : Written item 1 report) : item.valueIn report ≠ 1 := by
  intro hback
  have hfirst := testBit_back (k := 0) (by omega) (by decide) hbits
  rw [hback] at hfirst
  obtain ⟨hcond,hone⟩ := Bool.and_eq_true_iff.mp (hfirst.symm.trans rfl)
  have hplace := Nat.testBit_one_eq_true_iff_self_eq_zero.mp hone
  have hbyte := (of_decide_eq_true hcond).2
  omega

private theorem ninth_lost {report : Block} (hoffset : item.bitOffset.toNat % 8 = 0) (hsize : 8 < item.attributes.bitSize.toNat)
    (hbits : Written item 256 report) : item.valueIn report ≠ 256 := by
  intro hback
  have hninth := testBit_back (k := 8) hsize (by decide) hbits
  rw [hback] at hninth
  obtain ⟨hcond,-⟩ := Bool.and_eq_true_iff.mp (hninth.symm.trans rfl)
  have hbyte := (of_decide_eq_true hcond).2
  omega

private theorem byte_kept {report : Block} {value : UInt32} (hoffset : item.bitOffset.toNat % 8 = 0)
    (hsize : item.attributes.bitSize.toNat ≤ 8) (hvalue : value.toNat < 2 ^ item.attributes.bitSize.toNat)
    (hbits : Written item value report) : item.valueIn report = value := by
  apply UInt32.toNat_inj.mp
  apply Nat.eq_of_testBit_eq
  intro k
  by_cases hk : k < item.attributes.bitSize.toNat
  · rw [testBit_back hk (by omega) hbits,decide_eq_true (by omega),Bool.true_and,
      show (item.bitOffset.toNat + (item.bitOffset.toNat + k) % 8) % 8 = k by omega]
  · rw [Nat.testBit_lt_two_pow (Nat.lt_of_lt_of_le hvalue (Nat.pow_le_pow_right (by decide) (by omega))),
      HidReportItem.valueIn,UInt32.toNat_ofNat',Nat.testBit_mod_two_pow,testBit_window,decide_eq_false hk,Bool.false_and,
      Bool.and_false]

end RoundTrip

/-- Every value a field can hold comes back from a cleared report it was written into exactly if
the field has no bits, or begins at a byte and has at most eight. -/
theorem set_get_iff (item : HidReportItem) (len : Nat) (hstart : item.dataStart ≤ len)
    (hend : item.bitOffset.toNat + item.attributes.bitSize.toNat ≤ 2 ^ 16)
    (hinside : item.bitOffset.toNat + item.attributes.bitSize.toNat ≤ 8 * (len - item.dataStart)) :
    (∀ v : HidItemValue, v.value.toNat < 2 ^ item.attributes.bitSize.toNat →
      ∃ report v', setHIDReportItemInfo (List.replicate len 0) item v = .ok (report,v') ∧
        getHIDReportItemInfo report item v' = .ok (true,⟨v.value,v.value⟩)) ↔
      item.attributes.bitSize.toNat = 0 ∨ (item.bitOffset.toNat % 8 = 0 ∧ item.attributes.bitSize.toNat ≤ 8) := by
  constructor
  · intro hall
    by_contra hnot
    obtain ⟨hsize,hbad⟩ := not_or.mp hnot
    by_cases hoffset : item.bitOffset.toNat % 8 = 0
    · have hlong : 8 < item.attributes.bitSize.toNat := by
        have := not_and.mp hbad hoffset
        omega
      obtain ⟨report,hiff,hbits⟩ := round_trip_iff ⟨256,0⟩ hstart hend hinside
      refine ninth_lost hoffset hlong hbits (hiff.mp (hall ⟨256,0⟩ ?_))
      exact Nat.lt_of_lt_of_le (by decide : 256 < 2 ^ 9) (Nat.pow_le_pow_right (by decide) hlong)
    · obtain ⟨report,hiff,hbits⟩ := round_trip_iff ⟨1,0⟩ hstart hend hinside
      refine first_lost hoffset hsize hbits (hiff.mp (hall ⟨1,0⟩ ?_))
      exact Nat.one_lt_two_pow hsize
  · rintro hgood v hv
    obtain ⟨report,hiff,hbits⟩ := round_trip_iff v hstart hend hinside
    apply hiff.mpr
    rcases hgood with hzero | ⟨hoffset,hsize⟩
    · have hvalue : v.value = 0 := by
        rw [hzero] at hv
        exact UInt32.toNat_inj.mp (Nat.lt_one_iff.mp hv)
      rw [hvalue,HidReportItem.valueIn,hzero,window,Nat.pow_zero,Nat.mod_one]
      rfl
    · exact byte_kept hoffset hsize hv hbits

theorem set_get_iff_two_bytes :
    ¬ ∀ v : HidItemValue, v.value.toNat < 2 ^ 16 →
      ∃ report v', setHIDReportItemInfo (List.replicate 3 0) ⟨0,.output,0,1,none,⟨16,⟨0,0⟩,⟨0,0⟩,⟨0,0⟩,⟨0,0⟩⟩⟩ v = .ok (report,v') ∧
        getHIDReportItemInfo report ⟨0,.output,0,1,none,⟨16,⟨0,0⟩,⟨0,0⟩,⟨0,0⟩,⟨0,0⟩⟩⟩ v' = .ok (true,⟨v.value,v.value⟩) :=
  fun hall => absurd ((set_get_iff ⟨0,.output,0,1,none,⟨16,⟨0,0⟩,⟨0,0⟩,⟨0,0⟩,⟨0,0⟩⟩⟩ 3 (by decide) (by decide) (by decide)).mp hall)
    (by decide)

end ArduinoAT90USB.Usb
