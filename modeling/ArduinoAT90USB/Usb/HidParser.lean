import ArduinoAT90USB.Foundation.ShiftQueue
import Mathlib.Logic.Function.Basic

/-! `HIDParser.c`: a report descriptor is a sequence of short items. Global items change the top
of a small stack of tables, local items collect usages, and every main item closes a collection,
opens one or declares fields of a report. All tables have fixed sizes. -/
namespace ArduinoAT90USB.Usb
open Foundation.Memory Foundation.Table Foundation.ShiftQueue

abbrev stateTableStackDepth : Nat := 2
abbrev usageStackDepth : Nat := 8
abbrev maxCollections : Nat := 10
abbrev maxReportItems : Nat := 20
abbrev maxReportIDs : Nat := 10

/-- `sizeof(HID_StateTable_t)`; the AVR does not pad. -/
def sizeofStateTable : Nat := 28
/-- `sizeof(HID_ReportItem_t)`. -/
def sizeofReportItem : Nat := 42

structure HidMinMax where
  minimum : UInt32
  maximum : UInt32
deriving DecidableEq

structure HidUnit where
  type : UInt32
  exponent : UInt8
deriving DecidableEq

structure HidUsage where
  page : UInt16
  usage : UInt16
deriving DecidableEq

/-- `Parent` points into `CollectionPaths`. -/
structure HidCollectionPath where
  type : UInt8
  usage : HidUsage
  parent : Option Nat
deriving DecidableEq

structure HidItemAttributes where
  bitSize : UInt8
  usage : HidUsage
  unit : HidUnit
  logical : HidMinMax
  physical : HidMinMax
deriving DecidableEq

/-- `HID_ReportItemTypes_t`. -/
inductive HidItemType
  | input
  | output
  | feature
deriving DecidableEq

/-- `HID_ReportItem_t` without the values, which the parser leaves as they are on its stack. -/
structure HidReportItem where
  bitOffset : UInt16
  itemType : HidItemType
  itemFlags : UInt16
  reportID : UInt8
  collectionPath : Option Nat
  attributes : HidItemAttributes
deriving DecidableEq

structure HidReportSizeInfo where
  reportID : UInt8
  reportSizeBits : HidItemType → UInt16

/-- An assignment to `ReportSizeBits[type]`. -/
def HidReportSizeInfo.setSize (r : HidReportSizeInfo) (type : HidItemType) (sizeBits : UInt16) : HidReportSizeInfo :=
  {r with reportSizeBits := Function.update r.reportSizeBits type sizeBits}

structure HidStateTable where
  attributes : HidItemAttributes
  reportCount : UInt8
  reportID : UInt8
deriving DecidableEq

structure HidReportInfo where
  totalReportItems : Nat
  reportItems : Vector HidReportItem maxReportItems
  collectionPaths : Vector HidCollectionPath maxCollections
  totalDeviceReports : Nat
  reportIDSizes : Vector HidReportSizeInfo maxReportIDs
  largestReportSizeBits : UInt16
  usingReportIDs : Bool

/-- `HID_Parse_ErrorCodes_t` apart from `HID_PARSE_Successful`. -/
inductive HidParseError
  | hidStackOverflow
  | hidStackUnderflow
  | insufficientReportItems
  | unexpectedEndCollection
  | insufficientCollectionPaths
  | usageListOverflow
  | insufficientReportIDItems
  | noUnfilteredReportItems
deriving DecidableEq

/-! What `memset` leaves. -/

def HidItemAttributes.zero : HidItemAttributes := ⟨0,⟨0,0⟩,⟨0,0⟩,⟨0,0⟩,⟨0,0⟩⟩
def HidCollectionPath.zero : HidCollectionPath := ⟨0,⟨0,0⟩,none⟩
def HidReportItem.zero : HidReportItem := ⟨0,.input,0,0,none,.zero⟩
def HidReportSizeInfo.zero : HidReportSizeInfo := ⟨0,fun _ => 0⟩
def HidStateTable.zero : HidStateTable := ⟨.zero,0,0⟩
def HidReportInfo.zero : HidReportInfo :=
  ⟨0,Vector.replicate _ .zero,Vector.replicate _ .zero,0,Vector.replicate _ .zero,0,false⟩

/-- The types and tags the parser knows. -/
inductive HidTag
  | push
  | pop
  | usagePage
  | logicalMinimum
  | logicalMaximum
  | physicalMinimum
  | physicalMaximum
  | unitExponent
  | unit
  | reportSize
  | reportCount
  | reportID
  | usage
  | usageMinimum
  | usageMaximum
  | collection
  | endCollection
  | field (type : HidItemType)
  | other
deriving DecidableEq

/-- An item: its first byte and its data. -/
structure HidItem where
  header : UInt8
  data : UInt32
deriving DecidableEq

namespace HidItem

/-- `HIDReportItem & (HID_RI_TYPE_MASK | HID_RI_TAG_MASK)`. -/
def tag (item : HidItem) : HidTag :=
  match item.header &&& 0xFC with
  | 0xA4 => .push
  | 0xB4 => .pop
  | 0x04 => .usagePage
  | 0x14 => .logicalMinimum
  | 0x24 => .logicalMaximum
  | 0x34 => .physicalMinimum
  | 0x44 => .physicalMaximum
  | 0x54 => .unitExponent
  | 0x64 => .unit
  | 0x74 => .reportSize
  | 0x94 => .reportCount
  | 0x84 => .reportID
  | 0x08 => .usage
  | 0x18 => .usageMinimum
  | 0x28 => .usageMaximum
  | 0xA0 => .collection
  | 0xC0 => .endCollection
  | 0x80 => .field .input
  | 0x90 => .field .output
  | 0xB0 => .field .feature
  | _ => .other

/-- `(HIDReportItem & HID_RI_TYPE_MASK) == HID_RI_TYPE_MAIN`. -/
def isMain (item : HidItem) : Bool := item.header &&& 0x0C = 0

/-- `ReportItemData & HID_IOF_CONSTANT`. -/
def isConstant (item : HidItem) : Bool := item.data &&& 1 ≠ 0

/-- The items of a descriptor, and whether the last one has all its data; the source reads the
missing bytes behind the descriptor. -/
def split : List UInt8 → List HidItem × Bool
  | [] => ([],true)
  | header :: rest =>
    match header &&& 0x03 with
    | 0x03 =>
      match rest with
      | a :: b :: c :: d :: rest =>
        let data := d.toUInt32 <<< 24 ||| c.toUInt32 <<< 16 ||| b.toUInt32 <<< 8 ||| a.toUInt32
        (⟨header,data⟩ :: (split rest).1,(split rest).2)
      | _ => ([],false)
    | 0x02 =>
      match rest with
      | a :: b :: rest => (⟨header,b.toUInt32 <<< 8 ||| a.toUInt32⟩ :: (split rest).1,(split rest).2)
      | _ => ([],false)
    | 0x01 =>
      match rest with
      | a :: rest => (⟨header,a.toUInt32⟩ :: (split rest).1,(split rest).2)
      | _ => ([],false)
    | _ => (⟨header,0⟩ :: (split rest).1,(split rest).2)

end HidItem

/-- Why the parser stops: an access outside an array, or a code it returns. -/
inductive HidStop
  | fault (fault : Fault)
  | returned (code : HidParseError) (info : HidReportInfo)

abbrev HidParsing := Except HidStop

def checked {α : Type} : Checked α → HidParsing α
  | .ok a => .ok a
  | .error e => .error (.fault e)

/-- The local variables of `USB_ProcessHIDReport` and the record it fills in; pointers into the
tables are indices. -/
structure HidParser where
  info : HidReportInfo
  stateTable : Vector HidStateTable stateTableStackDepth
  currStateTable : Nat
  currCollectionPath : Option Nat
  currReportIDInfo : Nat
  usageList : Vector UInt16 usageStackDepth
  usageListSize : Nat
  usageMinMax : HidMinMax

namespace HidParser

/-- Before the loop, with the local arrays as they are found. -/
def init (stateTable : Vector HidStateTable stateTableStackDepth) (usageList : Vector UInt16 usageStackDepth) :
    HidParser where
  info := {HidReportInfo.zero with totalDeviceReports := 1}
  stateTable := stateTable.set 0 .zero
  currStateTable := 0
  currCollectionPath := none
  currReportIDInfo := 0
  usageList := usageList
  usageListSize := 0
  usageMinMax := ⟨0,0⟩

/-- `memcpy` is given the size of a report item, which is more than a state table has. -/
def push (p : HidParser) : HidParsing HidParser :=
  if p.currStateTable = stateTableStackDepth - 1 then .error (.returned .hidStackOverflow p.info)
  else if (p.currStateTable + 1) * sizeofStateTable + sizeofReportItem ≤ stateTableStackDepth * sizeofStateTable then do
    let table ← checked (fetch p.stateTable p.currStateTable)
    let stateTable ← checked (modify p.stateTable (p.currStateTable + 1) fun _ => table)
    .ok {p with stateTable := stateTable, currStateTable := p.currStateTable + 1}
  else .error (.fault .bounds)

def pop (p : HidParser) : HidParsing HidParser :=
  if p.currStateTable = 0 then .error (.returned .hidStackUnderflow p.info)
  else .ok {p with currStateTable := p.currStateTable - 1}

/-- A store into `*CurrStateTable`. -/
def setTable (p : HidParser) (f : HidStateTable → HidStateTable) : HidParsing HidParser := do
  let stateTable ← checked (modify p.stateTable p.currStateTable f)
  .ok {p with stateTable := stateTable}

def setAttributes (p : HidParser) (f : HidItemAttributes → HidItemAttributes) : HidParsing HidParser :=
  p.setTable fun t => {t with attributes := f t.attributes}

/-- The loop over `ReportIDSizes` for the entry of a report ID. -/
def findReport (info : HidReportInfo) (id : UInt8) : Checked (Option Nat) :=
  search info.reportIDSizes (fun r => r.reportID = id) (List.range info.totalDeviceReports)

def selectReport (p : HidParser) (id : UInt8) : HidParsing HidParser := do
  let p ← p.setTable fun t => {t with reportID := id}
  let p ←
    if p.info.usingReportIDs then do
      match ← checked (findReport p.info id) with
      | some i => .ok {p with currReportIDInfo := i}
      | none =>
        let i := p.info.totalDeviceReports
        if i = maxReportIDs then .error (.returned .insufficientReportIDItems p.info)
        else do
          let sizes ← checked (modify p.info.reportIDSizes i fun _ => .zero)
          .ok {p with currReportIDInfo := i, info.totalDeviceReports := i + 1, info.reportIDSizes := sizes}
    else .ok p
  let sizes ← checked (modify p.info.reportIDSizes p.currReportIDInfo fun r => {r with reportID := id})
  .ok {p with info.usingReportIDs := true, info.reportIDSizes := sizes}

def addUsage (p : HidParser) (usage : UInt16) : HidParsing HidParser :=
  if p.usageListSize = usageStackDepth then .error (.returned .usageListOverflow p.info)
  else do
    let usageList ← checked (modify p.usageList p.usageListSize fun _ => usage)
    .ok {p with usageList := usageList, usageListSize := p.usageListSize + 1}

/-- The next usage: from the list, which is shifted down, or else from the range; `old` stays if
there is neither. -/
def takeUsage (p : HidParser) (old : UInt16) : HidParsing (UInt16 × HidParser) :=
  if p.usageListSize ≠ 0 then do
    let usage ← checked (fetch p.usageList 0)
    let usageList ← checked (shiftDown p.usageList p.usageListSize)
    .ok (usage,{p with usageList := usageList, usageListSize := p.usageListSize - 1})
  else if p.usageMinMax.minimum ≤ p.usageMinMax.maximum then
    .ok (p.usageMinMax.minimum.toUInt16,{p with usageMinMax.minimum := p.usageMinMax.minimum + 1})
  else .ok (old,p)

/-- The loop from the second path on to one without a parent. -/
def findPath (info : HidReportInfo) : Checked (Option Nat) :=
  search info.collectionPaths (fun c => c.parent = none) (List.range' 1 (maxCollections - 1))

/-- The path for a new collection, linked to the open one. The first level always gets the first
path, the others are searched from the second one on. -/
def openPath (p : HidParser) : HidParsing (Nat × HidParser) :=
  match p.currCollectionPath with
  | none => .ok (0,{p with currCollectionPath := some 0})
  | some parent => do
    match ← checked (findPath p.info) with
    | none => .error (.returned .insufficientCollectionPaths p.info)
    | some i =>
      let paths ← checked (modify p.info.collectionPaths i fun c => {c with parent := some parent})
      .ok (i,{p with currCollectionPath := some i, info.collectionPaths := paths})

/-- `Type` and `Usage` of the path `i`. -/
def describePath (p : HidParser) (i : Nat) (type : UInt8) : HidParsing HidParser := do
  let table ← checked (fetch p.stateTable p.currStateTable)
  let path ← checked (fetch p.info.collectionPaths i)
  let (usage,p) ← p.takeUsage path.usage.usage
  let paths ← checked (modify p.info.collectionPaths i fun c =>
    {c with type := type, usage := ⟨table.attributes.usage.page,usage⟩})
  .ok {p with info.collectionPaths := paths}

def openCollection (p : HidParser) (type : UInt8) : HidParsing HidParser := do
  let (i,p) ← p.openPath
  p.describePath i type

def closeCollection (p : HidParser) : HidParsing HidParser :=
  match p.currCollectionPath with
  | none => .error (.returned .unexpectedEndCollection p.info)
  | some i => do
    let path ← checked (fetch p.info.collectionPaths i)
    .ok {p with currCollectionPath := path.parent}

/-- The report gets `bitSize` more bits of a type; the offset is where it ended before. -/
def growReport (p : HidParser) (type : HidItemType) (bitSize : UInt8) : HidParsing (UInt16 × HidParser) := do
  let size ← checked (fetch p.info.reportIDSizes p.currReportIDInfo)
  let bitOffset := size.reportSizeBits type
  let sizeBits := bitOffset + bitSize.toUInt16
  let sizes ← checked (modify p.info.reportIDSizes p.currReportIDInfo fun r => r.setSize type sizeBits)
  .ok (bitOffset,{p with
    info.reportIDSizes := sizes
    info.largestReportSizeBits := max p.info.largestReportSizeBits sizeBits})

/-- The item is written behind the kept ones in any case; one that is not kept is overwritten by
the next. `filter` is `CALLBACK_HIDParser_FilterHIDReportItem`. -/
def storeItem (filter : HidReportItem → Bool) (constant : Bool) (newReportItem : HidReportItem) (p : HidParser) :
    HidParsing HidParser :=
  if p.info.totalReportItems = maxReportItems then .error (.returned .insufficientReportItems p.info)
  else do
    let items ← checked (modify p.info.reportItems p.info.totalReportItems fun _ => newReportItem)
    .ok {p with
      info.reportItems := items
      info.totalReportItems := p.info.totalReportItems + if !constant && filter newReportItem then 1 else 0}

/-- One round of the loop over `ReportCount`. -/
def addField (filter : HidReportItem → Bool) (type : HidItemType) (item : HidItem) (p : HidParser) :
    HidParsing HidParser := do
  let table ← checked (fetch p.stateTable p.currStateTable)
  let (usage,p) ← p.takeUsage table.attributes.usage.usage
  let (bitOffset,p) ← p.growReport type table.attributes.bitSize
  p.storeItem filter item.isConstant {
    bitOffset := bitOffset
    itemType := type
    itemFlags := item.data.toUInt16
    reportID := table.reportID
    collectionPath := p.currCollectionPath
    attributes := {table.attributes with usage.usage := usage}}

def addFields (filter : HidReportItem → Bool) (type : HidItemType) (item : HidItem) : Nat → HidParser → HidParsing HidParser
  | 0, p => .ok p
  | n + 1, p => do
    let p ← p.addField filter type item
    addFields filter type item n p

/-- The switch over type and tag. -/
def dispatch (filter : HidReportItem → Bool) (p : HidParser) (item : HidItem) : HidParsing HidParser :=
  match item.tag with
  | .push => p.push
  | .pop => p.pop
  -- a page of 32 bits is first set to its upper half, which the assignment after it undoes
  | .usagePage => p.setAttributes fun a => {a with usage.page := item.data.toUInt16}
  | .logicalMinimum => p.setAttributes fun a => {a with logical.minimum := item.data}
  | .logicalMaximum => p.setAttributes fun a => {a with logical.maximum := item.data}
  | .physicalMinimum => p.setAttributes fun a => {a with physical.minimum := item.data}
  | .physicalMaximum => p.setAttributes fun a => {a with physical.maximum := item.data}
  | .unitExponent => p.setAttributes fun a => {a with unit.exponent := item.data.toUInt8}
  | .unit => p.setAttributes fun a => {a with unit.type := item.data}
  | .reportSize => p.setAttributes fun a => {a with bitSize := item.data.toUInt8}
  | .reportCount => p.setTable fun t => {t with reportCount := item.data.toUInt8}
  | .reportID => p.selectReport item.data.toUInt8
  | .usage => p.addUsage item.data.toUInt16
  | .usageMinimum => .ok {p with usageMinMax.minimum := item.data}
  | .usageMaximum => .ok {p with usageMinMax.maximum := item.data}
  | .collection => p.openCollection item.data.toUInt8
  | .endCollection => p.closeCollection
  | .field type => do
    let table ← checked (fetch p.stateTable p.currStateTable)
    p.addFields filter type item table.reportCount.toNat
  | .other => .ok p

/-- The usages are forgotten after a main item. -/
def endItem (item : HidItem) (p : HidParser) : HidParser :=
  if item.isMain then {p with usageMinMax := ⟨0,0⟩, usageListSize := 0} else p

/-- The loop body, on an item with all its data. -/
def step (filter : HidReportItem → Bool) (p : HidParser) (item : HidItem) : HidParsing HidParser := do
  let p ← p.dispatch filter item
  .ok (p.endItem item)

end HidParser

/-- `USB_ProcessHIDReport`; `ok` is `HID_PARSE_Successful`. -/
def processHIDReport (filter : HidReportItem → Bool) (stateTable : Vector HidStateTable stateTableStackDepth)
    (usageList : Vector UInt16 usageStackDepth) (reportData : List UInt8) : HidParsing HidReportInfo := do
  let (items,complete) := HidItem.split reportData
  let p ← items.foldlM (HidParser.step filter) (HidParser.init stateTable usageList)
  if !complete then .error (.fault .bounds)
  else if p.info.totalReportItems = 0 then .error (.returned .noUnfilteredReportItems p.info)
  else .ok p.info

end ArduinoAT90USB.Usb
