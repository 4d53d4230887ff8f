import ArduinoAT90USB.Library.KeyboardHost

/-! What `getKeys` makes of a report, against the US layout of the HID keyboard usages. The
layout is written down by usage number here, the driver's table row by row. -/
namespace ArduinoAT90USB.Library

private def inRow (first usage : UInt8) (row : List Char) : UInt8 :=
  (row.getD (usage.toNat - first.toNat) '\x00').val.toUInt8

/-- The ASCII character of a usage on a US keyboard, 0 where there is none. The two keys that
only other keyboards have, 0x32 and 0x64, repeat the backslash. -/
def usLayout (usage : UInt8) (shift : Bool) : UInt8 :=
  if 0x04 ≤ usage ∧ usage ≤ 0x1D then
    (if shift then 'A' else 'a').val.toUInt8 + (usage - 0x04)
  else if 0x1E ≤ usage ∧ usage ≤ 0x27 then
    inRow 0x1E usage (if shift then ['!', '@', '#', '$', '%', '^', '&', '*', '(', ')']
      else ['1', '2', '3', '4', '5', '6', '7', '8', '9', '0'])
  else if 0x28 ≤ usage ∧ usage ≤ 0x2C then
    -- enter, escape, backspace, tab, space
    inRow 0x28 usage ['\n', '\x1b', '\x08', '\t', ' ']
  else if 0x2D ≤ usage ∧ usage ≤ 0x38 then
    inRow 0x2D usage (if shift then ['_', '+', '{', '}', '|', '|', ':', '\x22', '~', '<', '>', '?']
      else ['-', '=', '[', ']', '\\', '\\', ';', '\x27', '\x60', ',', '.', '/'])
  else if usage = 0x4C then '\x7f'.val.toUInt8
  else if 0x54 ≤ usage ∧ usage ≤ 0x63 then
    inRow 0x54 usage ['/', '*', '-', '+', '\n', '1', '2', '3', '4', '5', '6', '7', '8', '9', '0', '.']
  else if usage = 0x64 then (if shift then '|' else '\\').val.toUInt8
  else if usage = 0x67 then '='.val.toUInt8
  else 0

def shifted (modifier : UInt8) : Bool := decide (modifier &&& shiftModifiers ≠ 0)

/-- What a key should be reported as. -/
def KeyMapType.character (map : KeyMapType) (shift : Bool) (code : UInt8) : UInt8 :=
  if map = .none then code else usLayout code shift

/-- The usages whose entry is not the layout's: escape, backspace, tab, delete, the key 0x32,
and with shift the 8. -/
def misprints (shift : Bool) : List UInt8 :=
  [0x29, 0x2A, 0x2B, 0x4C, 0x32] ++ if shift then [0x25] else []

/-- The row `_mapKey` reads for a key code, if it reads one. -/
def tableRow (code : UInt8) : Option Nat :=
  if code.toNat > usKeyMap.length ∨ code = 0 then none else some (code.toNat - 1)

def tableValue (shift : Bool) (code : UInt8) : UInt8 :=
  match tableRow code with
  | none => 0
  | some row =>
    let entry := usKeyMap.getD row (0,0)
    if shift then entry.2 else entry.1

/-- The events of the USB tasks have left a configured keyboard, and no error is recorded. -/
structure UsbHost.Ready (s : UsbHost) : Prop where
  declared : s.keyHost.map.Declared
  configured : s.hostState = .configured
  fine : s.keyHost.stat ≠ .error
  clear : s.keyHost.err = .none

/-- The keys are those of the report, under the map they name. -/
structure KeysPressed.Carries (pressed : KeysPressed) (report : KeyboardReport) : Prop where
  modifier : pressed.modifier = report.modifier
  raw : pressed.keys.map KeyDesc.raw = report.keyCode.toList
  value : pressed.keys.map KeyDesc.value =
    report.keyCode.toList.map (pressed.map.character (shifted report.modifier))

theorem tableRow_bound {code : UInt8} {row : Nat} (h : tableRow code = some row) : row < usKeyMap.length := by
  unfold tableRow at h
  split at h
  · cases h
  · cases h
    have hpos : code.toNat ≠ 0 := fun h0 => ‹¬ (_ ∨ code = 0)› (Or.inr (UInt8.toNat_inj.mp h0))
    omega

private theorem table_rows : ∀ (n : Fin 256) (shift : Bool),
    tableValue shift (UInt8.ofNat n.val) = usLayout (UInt8.ofNat n.val) shift ↔ UInt8.ofNat n.val ∉ misprints shift := by
  decide +kernel

theorem tableValue_layout (shift : Bool) (code : UInt8) :
    tableValue shift code = usLayout code shift ↔ code ∉ misprints shift := by
  have h := table_rows ⟨code.toNat,code.toNat_lt⟩ shift
  rwa [UInt8.ofNat_toNat] at h

section Mapping
variable {k : KeyboardHost}

theorem mapKey_none (h : k.map = .none) (code modifier : UInt8) :
    (k.mapKey code modifier ⟨0,0⟩).2 = ⟨code,code⟩ := by
  simp only [KeyboardHost.mapKey, h]

theorem mapKey_usEnglish (h : k.map = .usEnglish) (code modifier : UInt8) :
    (k.mapKey code modifier ⟨0,0⟩).2 = ⟨code,tableValue (shifted modifier) code⟩ := by
  simp only [KeyboardHost.mapKey, h, tableValue, tableRow]
  split
  · rfl
  · simp only [shifted, decide_eq_true_eq]

theorem mapKey_raw (code modifier : UInt8) (desc : KeyDesc) : (k.mapKey code modifier desc).2.raw = code := by
  unfold KeyboardHost.mapKey
  split
  · rfl
  · dsimp only
    split <;> rfl
  · rfl

theorem mapKey_character (h : k.map.Declared) (code modifier : UInt8) :
    (k.mapKey code modifier ⟨0,0⟩).2.value = k.map.character (shifted modifier) code ↔
      k.map = .none ∨ code ∉ misprints (shifted modifier) := by
  rcases h with h | h
  · rw [mapKey_none h]
    simp [KeyMapType.character, h]
  · rw [mapKey_usEnglish h,← tableValue_layout]
    simp [KeyMapType.character, h]

theorem characters_iff (h : k.map.Declared) (modifier : UInt8) (codes : List UInt8) :
    codes.map (fun code => (k.mapKey code modifier ⟨0,0⟩).2.value) = codes.map (k.map.character (shifted modifier)) ↔
      k.map = .none ∨ ∀ code ∈ codes, code ∉ misprints (shifted modifier) := by
  rw [List.map_inj_left]
  simp only [mapKey_character h]
  by_cases hnone : k.map = .none <;> simp [hnone]

theorem mapKeys_map (h : k.map.Declared) (modifier : UInt8) (codes : List UInt8) :
    (k.mapKeys modifier codes (List.replicate codes.length ⟨0,0⟩)).2 =
      codes.map fun code => (k.mapKey code modifier ⟨0,0⟩).2 := by
  induction codes with
  | nil => rfl
  | cons code codes ih =>
    change (k.mapKey code modifier ⟨0,0⟩).2 :: (KeyboardHost.mapKeys modifier (k.mapKey code modifier ⟨0,0⟩).1 codes
      (List.replicate codes.length ⟨0,0⟩)).2 = _
    rw [mapKey_declared h,ih,List.map_cons]

end Mapping

/-- With a configured keyboard and no error, `getKeys` gives the mapped codes of the report;
the modifier it gives is the one it was initialised with. -/
theorem getKeys_ready {s : UsbHost} {events : List HostEvent} (h : (events.foldl UsbHost.event s).Ready)
    (report : KeyboardReport) :
    (s.getKeys events (some report)).2 =
      let k := (events.foldl UsbHost.event s).keyHost
      ⟨.connected,k.map,0,report.keyCode.toList.map fun code => (k.mapKey code report.modifier ⟨0,0⟩).2⟩ := by
  have hkeys := mapKeys_map h.declared report.modifier report.keyCode.toList
  rw [Vector.length_toList] at hkeys
  unfold UsbHost.getKeys
  simp only [h.fine, h.configured, mapKeys_declared h.declared, h.clear, hkeys, ne_eq, not_true, if_false]

private theorem shifted_zero : shifted 0 = false := by decide

/-- For every report that reaches a configured keyboard: the codes are given back and the table
is read within its bounds. The characters are the layout's exactly for the codes that are not
misprinted, and the whole result is what was sent exactly if no modifier was down as well. -/
theorem getKeys_carries (s : UsbHost) (events : List HostEvent) (h : (events.foldl UsbHost.event s).Ready)
    (report : KeyboardReport) :
    let map := (events.foldl UsbHost.event s).keyHost.map
    let pressed := (s.getKeys events (some report)).2
    (pressed.status = .connected ∧ pressed.map = map ∧ pressed.modifier = 0) ∧
      pressed.keys.map KeyDesc.raw = report.keyCode.toList ∧
      (∀ code row, tableRow code = some row → row < usKeyMap.length) ∧
      (∀ i : Fin 6, (pressed.keys.map KeyDesc.value)[i.val]? =
          some (map.character (shifted report.modifier) report.keyCode[i]) ↔
        map = .none ∨ report.keyCode[i] ∉ misprints (shifted report.modifier)) ∧
      (pressed.Carries report ↔
        report.modifier = 0 ∧ (map = .none ∨ ∀ code ∈ report.keyCode.toList, code ∉ misprints false)) := by
  intro map pressed
  have hpressed : pressed = _ := getKeys_ready h report
  have hraw : pressed.keys.map KeyDesc.raw = report.keyCode.toList := by
    rw [hpressed,List.map_map]
    simp [Function.comp_def, mapKey_raw]
  have hvalue : pressed.keys.map KeyDesc.value = report.keyCode.toList.map (fun code =>
      ((events.foldl UsbHost.event s).keyHost.mapKey code report.modifier ⟨0,0⟩).2.value) := by
    rw [hpressed,List.map_map]
    rfl
  have hmodifier : pressed.modifier = 0 := by rw [hpressed]
  have hmap : pressed.map = map := by rw [hpressed]
  refine ⟨⟨by rw [hpressed],hmap,hmodifier⟩,hraw,fun _ _ => tableRow_bound,fun i => ?_,?_⟩
  · rw [hvalue]
    simp [mapKey_character h.declared, map]
  · constructor
    · rintro ⟨hm,_,hv⟩
      have hzero : report.modifier = 0 := hm.symm.trans hmodifier
      rw [hvalue,hmap,characters_iff h.declared,hzero,shifted_zero] at hv
      exact ⟨hzero,hv⟩
    · rintro ⟨hzero,hv⟩
      refine ⟨hmodifier.trans hzero.symm,hraw,?_⟩
      rw [hvalue,hmap,characters_iff h.declared,hzero,shifted_zero]
      exact hv

def UsbHost.attached : UsbHost :=
  [HostEvent.deviceAttached,.deviceEnumerationComplete ⟨0,0,0,0,0⟩].foldl UsbHost.event (.start .usEnglish .powered)

theorem UsbHost.attached_ready : ([].foldl UsbHost.event UsbHost.attached).Ready := ⟨Or.inr rfl,rfl,by decide,rfl⟩

/-- Two keys are down, an a and a 1. -/
theorem getKeys_carries_two :
    (UsbHost.attached.getKeys [] (some ⟨0,#v[0x04,0x1E,0,0,0,0]⟩)).2.Carries ⟨0,#v[0x04,0x1E,0,0,0,0]⟩ :=
  (getKeys_carries .attached [] UsbHost.attached_ready ⟨0,#v[0x04,0x1E,0,0,0,0]⟩).2.2.2.2.mpr ⟨rfl,Or.inr (by simp [misprints])⟩

/-- The shift key is not reported, and escape comes out as an exclamation mark. -/
theorem getKeys_drops_modifier :
    (¬ ∀ report : KeyboardReport, (UsbHost.attached.getKeys [] (some report)).2.modifier = report.modifier) ∧
      ¬ ∀ report : KeyboardReport, (UsbHost.attached.getKeys [] (some report)).2.keys.map KeyDesc.value =
        report.keyCode.toList.map (UsbHost.attached.keyHost.map.character (shifted report.modifier)) := by
  constructor
  · intro h
    have hbad := h ⟨0x02,#v[0x04,0,0,0,0,0]⟩
    rw [getKeys_ready UsbHost.attached_ready] at hbad
    exact absurd hbad (by decide)
  · intro h
    have hbad := h ⟨0,#v[0x29,0,0,0,0,0]⟩
    rw [getKeys_ready UsbHost.attached_ready,List.map_map] at hbad
    rcases (characters_iff UsbHost.attached_ready.declared 0 _).mp hbad with hmap | hcodes
    · exact KeyMapType.noConfusion hmap
    · exact hcodes 0x29 (by simp) (by decide)

end ArduinoAT90USB.Library
