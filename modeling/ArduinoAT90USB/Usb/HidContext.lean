import ArduinoAT90USB.Usb.HidParser
import Mathlib.Algebra.Ring.Nat
import Mathlib.Data.List.Basic
import Mathlib.Data.List.Nodup

/-! What a report descriptor declares, with tables as large as it needs. A field belongs to a
report, told by its place in the order in which the reports are first named, and starts behind
the fields of its type that the descriptor has declared for that report before. -/
namespace ArduinoAT90USB.Usb

/-- A declared field and its report. -/
structure HidField where
  report : Nat
  item : HidReportItem

structure HidContext where
  table : HidStateTable
  usages : List UInt16
  usageMinMax : HidMinMax
  collections : Nat → HidCollectionPath
  /-- Collections below the first level that have been opened. -/
  children : Nat
  current : Option Nat
  reports : List UInt8
  usingReportIDs : Bool
  report : Nat
  fields : List HidField

def bits (fields : List HidField) (report : Nat) (type : HidItemType) : Nat :=
  ((fields.filter fun f => f.report = report ∧ f.item.itemType = type).map fun f => f.item.attributes.bitSize.toNat).sum

theorem bits_append (fields fields' : List HidField) (report : Nat) (type : HidItemType) :
    bits (fields ++ fields') report type = bits fields report type + bits fields' report type := by
  unfold bits
  rw [List.filter_append,List.map_append,List.sum_append]

theorem bits_singleton (f : HidField) (report : Nat) (type : HidItemType) :
    bits [f] report type = if f.report = report ∧ f.item.itemType = type then f.item.attributes.bitSize.toNat else 0 := by
  unfold bits
  by_cases hf : f.report = report ∧ f.item.itemType = type
  · simp [hf]
  · simp [hf]

/-- The entry of a report in `ReportIDSizes`. -/
def sizeInfo (reports : List UInt8) (fields : List HidField) (report : Nat) : HidReportSizeInfo :=
  ⟨reports.getD report 0,fun type => UInt16.ofNat (bits fields report type)⟩

/-- What the parser keeps: variable fields that pass the filter. -/
def HidReportItem.kept (filter : HidReportItem → Bool) (item : HidReportItem) : Bool :=
  item.itemFlags &&& 1 = 0 && filter item

namespace HidContext

def start : HidContext where
  table := .zero
  usages := []
  usageMinMax := ⟨0,0⟩
  collections := fun _ => .zero
  children := 0
  current := none
  reports := [0]
  usingReportIDs := false
  report := 0
  fields := []

def setAttributes (c : HidContext) (f : HidItemAttributes → HidItemAttributes) : HidContext :=
  {c with table.attributes := f c.table.attributes}

/-- The first report ID names the report that has been described so far. -/
def selectReport (c : HidContext) (id : UInt8) : HidContext :=
  let c := {c with table.reportID := id}
  if c.usingReportIDs then
    if id ∈ c.reports then {c with report := c.reports.idxOf id}
    else {c with report := c.reports.length, reports := c.reports ++ [id]}
  else {c with usingReportIDs := true, reports := [id]}

/-- The usage that comes next, `old` if there is none. -/
def nextUsage (c : HidContext) (old : UInt16) : UInt16 :=
  match c.usages with
  | usage :: _ => usage
  | [] => if c.usageMinMax.minimum ≤ c.usageMinMax.maximum then c.usageMinMax.minimum.toUInt16 else old

def dropUsage (c : HidContext) : HidContext :=
  match c.usages with
  | _ :: rest => {c with usages := rest}
  | [] =>
    if c.usageMinMax.minimum ≤ c.usageMinMax.maximum then
      {c with usageMinMax.minimum := c.usageMinMax.minimum + 1}
    else c

/-- The collection `i` is opened below `parent`. -/
def enter (c : HidContext) (i : Nat) (parent : Option Nat) (type : UInt8) : HidContext :=
  {c.dropUsage with
    current := some i
    collections := Function.update c.collections i
      ⟨type,⟨c.table.attributes.usage.page,c.nextUsage (c.collections i).usage.usage⟩,parent⟩}

/-- Every collection on the first level takes the place of the one before it. -/
def openCollection (c : HidContext) (type : UInt8) : HidContext :=
  match c.current with
  | none => c.enter 0 none type
  | some parent => {c.enter (c.children + 1) (some parent) type with children := c.children + 1}

def closeCollection (c : HidContext) : HidContext :=
  {c with current := c.current.bind fun i => (c.collections i).parent}

/-- The field that a main item declares next. -/
def field (c : HidContext) (type : HidItemType) (item : HidItem) : HidField where
  report := c.report
  item := {
    bitOffset := UInt16.ofNat (bits c.fields c.report type)
    itemType := type
    itemFlags := item.data.toUInt16
    reportID := c.table.reportID
    collectionPath := c.current
    attributes := {c.table.attributes with usage.usage := c.nextUsage c.table.attributes.usage.usage}}

def addField (type : HidItemType) (item : HidItem) (c : HidContext) : HidContext :=
  {c.dropUsage with fields := c.fields ++ [c.field type item]}

def addFields (type : HidItemType) (item : HidItem) : Nat → HidContext → HidContext
  | 0, c => c
  | n + 1, c => addFields type item n (c.addField type item)

def dispatch (c : HidContext) (item : HidItem) : HidContext :=
  match item.tag with
  | .push | .pop | .other => c
  | .usagePage => c.setAttributes fun a => {a with usage.page := item.data.toUInt16}
  | .logicalMinimum => c.setAttributes fun a => {a with logical.minimum := item.data}
  | .logicalMaximum => c.setAttributes fun a => {a with logical.maximum := item.data}
  | .physicalMinimum => c.setAttributes fun a => {a with physical.minimum := item.data}
  | .physicalMaximum => c.setAttributes fun a => {a with physical.maximum := item.data}
  | .unitExponent => c.setAttributes fun a => {a with unit.exponent := item.data.toUInt8}
  | .unit => c.setAttributes fun a => {a with unit.type := item.data}
  | .reportSize => c.setAttributes fun a => {a with bitSize := item.data.toUInt8}
  | .reportCount => {c with table.reportCount := item.data.toUInt8}
  | .reportID => c.selectReport item.data.toUInt8
  | .usage => {c with usages := c.usages ++ [item.data.toUInt16]}
  | .usageMinimum => {c with usageMinMax.minimum := item.data}
  | .usageMaximum => {c with usageMinMax.maximum := item.data}
  | .collection => c.openCollection item.data.toUInt8
  | .endCollection => c.closeCollection
  | .field type => c.addFields type item c.table.reportCount.toNat

def endItem (item : HidItem) (c : HidContext) : HidContext :=
  if item.isMain then {c with usageMinMax := ⟨0,0⟩, usages := []} else c

def next (c : HidContext) (item : HidItem) : HidContext := (c.dispatch item).endItem item

def kept (filter : HidReportItem → Bool) (c : HidContext) : List HidReportItem :=
  (c.fields.map HidField.item).filter (HidReportItem.kept filter)

def largest (c : HidContext) : UInt16 :=
  c.fields.foldl (fun m f => max m (f.item.bitOffset + f.item.attributes.bitSize.toUInt16)) 0

/-- All of a main item's fields find a place. -/
def FieldsFit (filter : HidReportItem → Bool) (type : HidItemType) (item : HidItem) : Nat → HidContext → Prop
  | 0, _ => True
  | n + 1, c => (c.kept filter).length < maxReportItems ∧ FieldsFit filter type item n (c.addField type item)

/-- A path is left for a new collection. -/
def HasPath (c : HidContext) : Prop := c.current = none ∨ c.children + 1 < maxCollections

/-- The item makes the parser leave its tables: any `PUSH`, and a usage taken from a full list. -/
def Harmful (c : HidContext) (item : HidItem) : Prop :=
  match item.tag with
  | .push => True
  | .collection => c.HasPath ∧ c.usages.length = usageStackDepth
  | .field _ => c.table.reportCount ≠ 0 ∧ c.usages.length = usageStackDepth
  | _ => False

/-- The tables have room for what the item declares. -/
def Fits (filter : HidReportItem → Bool) (c : HidContext) (item : HidItem) : Prop :=
  match item.tag with
  | .pop => False
  | .reportID => c.usingReportIDs = true → item.data.toUInt8 ∈ c.reports ∨ c.reports.length < maxReportIDs
  | .usage => c.usages.length < usageStackDepth
  | .collection => c.HasPath
  | .endCollection => c.current ≠ none
  | .field type => FieldsFit filter type item c.table.reportCount.toNat c
  | _ => True

/-- What holds of every context a descriptor leads to. -/
structure Valid (c : HidContext) : Prop where
  linked : ∀ i, (c.collections i).parent ≠ none ↔ 1 ≤ i ∧ i ≤ c.children
  descending : ∀ i j, (c.collections i).parent = some j → j < i
  current_le : ∀ i, c.current = some i → i ≤ c.children
  nodup : c.reports.Nodup
  unused : c.usingReportIDs = false → c.reports = [0]
  named : c.reports[c.report]? = some c.table.reportID
  owned : ∀ f ∈ c.fields, f.report < c.reports.length ∧
    (c.usingReportIDs = false ∨ f.item.reportID ≠ 0 → c.reports[f.report]? = some f.item.reportID)
  placed : ∀ before f after, c.fields = before ++ f :: after →
    f.item.bitOffset = UInt16.ofNat (bits before f.report f.item.itemType)

variable {c : HidContext}

theorem Valid.report_lt (h : c.Valid) : c.report < c.reports.length := (List.getElem?_eq_some_iff.mp h.named).1

theorem valid_start : start.Valid where
  linked i := by
    refine iff_of_false (fun hne => hne rfl) ?_
    rintro ⟨hpos,hle⟩
    exact absurd (Nat.le_trans hpos hle) (by decide)
  descending _ _ h := by cases h
  current_le _ h := by cases h
  nodup := List.nodup_singleton 0
  unused _ := rfl
  named := rfl
  owned := nofun
  placed before f after h := by simp [start] at h

theorem dropUsage_eq (c : HidContext) : ∃ usages range, c.dropUsage = {c with usages := usages, usageMinMax := range} := by
  unfold dropUsage
  split
  · exact ⟨_,_,rfl⟩
  · split
    · exact ⟨c.usages,_,rfl⟩
    · exact ⟨c.usages,c.usageMinMax,rfl⟩

theorem dropUsage_collections (c : HidContext) : c.dropUsage.collections = c.collections := by
  obtain ⟨usages,range,heq⟩ := c.dropUsage_eq
  rw [heq]

theorem enter_children (c : HidContext) (i : Nat) (parent : Option Nat) (type : UInt8) :
    (c.enter i parent type).children = c.children := by
  obtain ⟨usages,range,heq⟩ := c.dropUsage_eq
  rw [enter,heq]

theorem dropUsage_length (c : HidContext) : c.dropUsage.usages.length ≤ c.usages.length := by
  unfold dropUsage
  split
  case h_1 usage rest heq =>
    rw [heq]
    exact Nat.le_succ _
  case h_2 heq =>
    split
    · exact Nat.le_refl _
    · exact Nat.le_refl _

theorem Valid.dropUsage (h : c.Valid) : c.dropUsage.Valid := by
  obtain ⟨usages,range,heq⟩ := c.dropUsage_eq
  rw [heq]
  exact {h with}

theorem Valid.setAttributes (h : c.Valid) (f : HidItemAttributes → HidItemAttributes) : (c.setAttributes f).Valid := {h with}

theorem Valid.selectReport (h : c.Valid) (id : UInt8) : (c.selectReport id).Valid := by
  unfold HidContext.selectReport
  dsimp only
  split
  case isTrue husing =>
    split
    case isTrue hmem => exact {h with named := List.getElem?_idxOf hmem}
    case isFalse hnew =>
      refine {h with nodup := ?_, unused := ?_, named := ?_, owned := ?_}
      · exact List.nodup_append.mpr ⟨h.nodup,List.nodup_singleton id,by simpa using fun a ha => ne_of_mem_of_not_mem ha hnew⟩
      · intro hnot
        rw [husing] at hnot
        cases hnot
      · exact List.getElem?_concat_length
      · intro f hf
        obtain ⟨hlt,hid⟩ := h.owned f hf
        refine ⟨by rw [List.length_append]; omega,?_⟩
        rw [List.getElem?_append_left hlt]
        exact hid
  case isFalse husing =>
    -- everything so far has no report ID and belongs to the only report
    have hunused : c.usingReportIDs = false := by simpa using husing
    have hreports := h.unused hunused
    have hfirst : c.report = 0 := by
      have := h.report_lt
      rw [hreports,List.length_singleton] at this
      omega
    refine {h with nodup := List.nodup_singleton id, unused := nofun, named := ?_, owned := ?_}
    · change [id][c.report]? = some id
      rw [hfirst]
      rfl
    · intro f hf
      obtain ⟨hlt,hid⟩ := h.owned f hf
      have hzero := hid (Or.inl hunused)
      rw [hreports,List.length_singleton] at hlt
      have hf0 : f.report = 0 := by omega
      rw [hreports,hf0] at hzero
      refine ⟨by rw [hf0]; simp,?_⟩
      rintro (hno | hne)
      · cases hno
      · exact absurd (Option.some.inj hzero).symm hne

theorem Valid.enter_first (h : c.Valid) (type : UInt8) : (c.enter 0 none type).Valid := by
  have hd := h.dropUsage
  obtain ⟨usages,range,heq⟩ := c.dropUsage_eq
  unfold enter
  rw [heq] at hd ⊢
  refine {hd with linked := ?_, descending := ?_, current_le := ?_}
  · intro i
    by_cases hi : i = 0
    · subst hi
      simp
    · change (Function.update c.collections 0 _ i).parent ≠ none ↔ _
      rw [Function.update_of_ne hi]
      exact h.linked i
  · intro i j
    by_cases hi : i = 0
    · subst hi
      simp
    · change (Function.update c.collections 0 _ i).parent = some j → _
      rw [Function.update_of_ne hi]
      exact h.descending i j
  · intro i hi
    cases hi
    exact Nat.zero_le _

theorem Valid.enter_child (h : c.Valid) {parent : Nat} (hcur : c.current = some parent) (type : UInt8) :
    {c.enter (c.children + 1) (some parent) type with children := c.children + 1}.Valid := by
  have hd := h.dropUsage
  obtain ⟨usages,range,heq⟩ := c.dropUsage_eq
  unfold enter
  rw [heq] at hd ⊢
  refine {hd with linked := ?_, descending := ?_, current_le := ?_}
  · intro i
    by_cases hi : i = c.children + 1
    · subst hi
      simp
    · change (Function.update c.collections _ _ i).parent ≠ none ↔ 1 ≤ i ∧ i ≤ c.children + 1
      rw [Function.update_of_ne hi,h.linked i]
      omega
  · intro i j
    by_cases hi : i = c.children + 1
    · subst hi
      have := h.current_le parent hcur
      simp only [Function.update_self,Option.some.injEq]
      omega
    · change (Function.update c.collections _ _ i).parent = some j → _
      rw [Function.update_of_ne hi]
      exact h.descending i j
  · intro i hi
    cases hi
    exact Nat.le_refl _

theorem Valid.openCollection (h : c.Valid) (type : UInt8) : (c.openCollection type).Valid := by
  unfold HidContext.openCollection
  split
  · exact h.enter_first type
  case h_2 parent hcur => exact h.enter_child hcur type

theorem Valid.closeCollection (h : c.Valid) : c.closeCollection.Valid := by
  refine {h with current_le := ?_}
  intro j hj
  obtain ⟨i,hi,hparent⟩ := Option.bind_eq_some_iff.mp hj
  have := h.current_le i hi
  have := h.descending i j hparent
  change j ≤ c.children
  omega

theorem Valid.addField (h : c.Valid) (type : HidItemType) (item : HidItem) : (c.addField type item).Valid := by
  have hd := h.dropUsage
  obtain ⟨usages,range,heq⟩ := c.dropUsage_eq
  unfold HidContext.addField
  rw [heq] at hd ⊢
  refine {hd with owned := ?_, placed := ?_}
  · intro f hf
    rcases List.mem_append.mp hf with hold | hnew
    · exact h.owned f hold
    · rw [List.mem_singleton.mp hnew]
      exact ⟨h.report_lt,fun _ => h.named⟩
  · intro before f after hsplit
    change c.fields ++ [c.field type item] = before ++ f :: after at hsplit
    rcases List.eq_nil_or_concat after with rfl | ⟨after',last,rfl⟩
    · obtain ⟨rfl,hf⟩ := List.append_inj' hsplit rfl
      cases hf
      rfl
    · rw [List.concat_eq_append,← List.cons_append,← List.append_assoc] at hsplit
      exact h.placed before f after' (List.append_inj' hsplit rfl).1

theorem Valid.addFields (type : HidItemType) (item : HidItem) (n : Nat) (h : c.Valid) : (c.addFields type item n).Valid := by
  induction n generalizing c with
  | zero => exact h
  | succ n ih => exact ih (h.addField type item)

theorem Valid.next (h : c.Valid) (item : HidItem) : (c.next item).Valid := by
  have hdispatch : (c.dispatch item).Valid := by
    unfold HidContext.dispatch
    cases item.tag with
    | reportID => exact h.selectReport _
    | collection => exact h.openCollection _
    | endCollection => exact h.closeCollection
    | field type => exact Valid.addFields type item _ h
    | push | pop | other => exact h
    | reportCount | usage | usageMinimum | usageMaximum => exact {h with}
    | _ => exact h.setAttributes _
  unfold HidContext.next endItem
  split
  · exact {hdispatch with}
  · exact hdispatch

end HidContext
end ArduinoAT90USB.Usb
