import ArduinoAT90USB.Usb.HidSimulation

/-! Which descriptors the parser accepts, which make it leave its tables, and how the fields of
an accepted one lie in their reports. -/
namespace ArduinoAT90USB.Usb
open Foundation.Memory Foundation.Table Foundation.ShiftQueue Foundation.Runs

/-- What a descriptor declares. -/
def declared (descriptor : List UInt8) : HidContext := (HidItem.split descriptor).1.foldl HidContext.next .start

/-- The items that are kept. -/
def HidReportInfo.items (info : HidReportInfo) : List HidReportItem := info.reportItems.toList.take info.totalReportItems

/-- The record shows what the descriptor declares: the kept fields in order, the collections and
the sizes of the reports, modulo `2 ^ 16`. -/
structure HidReportInfo.Describes (filter : HidReportItem → Bool) (info : HidReportInfo) (c : HidContext) : Prop where
  items : info.items = c.kept filter
  paths : Tabulates info.collectionPaths c.collections
  reports : info.totalDeviceReports = c.reports.length
  reports_le : c.reports.length ≤ maxReportIDs
  sizes : Tabulates info.reportIDSizes (sizeInfo c.reports c.fields)
  usingIDs : info.usingReportIDs = c.usingReportIDs
  largest : info.largestReportSizeBits = c.largest

theorem Parses.describes {filter : HidReportItem → Bool} {p : HidParser} {c : HidContext} (h : Parses filter p c) :
    p.info.Describes filter c where
  items := by
    rw [HidReportInfo.items,h.total]
    exact h.items.toList_take
  paths := h.paths
  reports := h.reports
  reports_le := h.reports_le
  sizes := h.sizes
  usingIDs := h.usingIDs
  largest := h.largest

section Runs
variable (filter : HidReportItem → Bool) (stateTable : Vector HidStateTable stateTableStackDepth)
  (usageList : Vector UInt16 usageStackDepth) {descriptor : List UInt8}

private theorem follows_init : Follows filter (.init stateTable usageList) .start :=
  ⟨HidContext.valid_start,parses_init filter stateTable usageList⟩

private theorem step_simulated (p : HidParser) (c : HidContext) (item : HidItem) (h : Follows filter p c)
    (hgood : Good filter c item) : ∃ p', p.step filter item = .ok p' ∧ Follows filter p' (c.next item) := h.step_good hgood

private theorem process_good (hgood : Admits HidContext.next (Good filter) .start (HidItem.split descriptor).1) :
    ∃ p, Follows filter p (declared descriptor) ∧
      processHIDReport filter stateTable usageList descriptor =
        if (HidItem.split descriptor).2 = false then .error (.fault .bounds)
        else if p.info.totalReportItems = 0 then .error (.returned .noUnfilteredReportItems p.info)
        else .ok p.info := by
  obtain ⟨p,hrun,hp⟩ := simulated_run (step_simulated filter) (follows_init filter stateTable usageList) hgood
  refine ⟨p,hp,?_⟩
  unfold processHIDReport
  dsimp only
  rw [hrun,parsing_ok_bind]
  cases (HidItem.split descriptor).2 with
  | true => rfl
  | false => rfl

private theorem process_bad (hbad : ¬ Admits HidContext.next (Good filter) .start (HidItem.split descriptor).1) :
    ∃ before item after, (HidItem.split descriptor).1 = before ++ item :: after ∧
      Admits HidContext.next (Good filter) .start before ∧ ¬ Good filter (before.foldl HidContext.next .start) item ∧
      (((before.foldl HidContext.next .start).Harmful item ∧
          processHIDReport filter stateTable usageList descriptor = .error (.fault .bounds)) ∨
        (¬ (before.foldl HidContext.next .start).Harmful item ∧
          ∃ code info, processHIDReport filter stateTable usageList descriptor = .error (.returned code info))) := by
  obtain ⟨before,item,after,p,hsplit,hadm,hnot,hp,hstop⟩ :=
    stopped_run (step_simulated filter) (follows_init filter stateTable usageList) hbad
  have hprocess : ∀ e, p.step filter item = .error e →
      processHIDReport filter stateTable usageList descriptor = .error e := by
    intro e he
    unfold processHIDReport
    dsimp only
    rw [hstop e he]
    rfl
  refine ⟨before,item,after,hsplit,hadm,hnot,?_⟩
  by_cases hharmful : (before.foldl HidContext.next .start).Harmful item
  · exact Or.inl ⟨hharmful,hprocess _ (hp.step_harmful hharmful)⟩
  · obtain ⟨code,info,hcode⟩ := hp.step_refused hharmful fun hfits => hnot ⟨hharmful,hfits⟩
    exact Or.inr ⟨hharmful,code,info,hprocess _ hcode⟩

private theorem process_ok {info : HidReportInfo} (h : processHIDReport filter stateTable usageList descriptor = .ok info) :
    (HidItem.split descriptor).2 = true ∧ Admits HidContext.next (Good filter) .start (HidItem.split descriptor).1 ∧
      (declared descriptor).kept filter ≠ [] ∧ (declared descriptor).Valid ∧ info.Describes filter (declared descriptor) := by
  by_cases hgood : Admits HidContext.next (Good filter) .start (HidItem.split descriptor).1
  · obtain ⟨p,hp,hprocess⟩ := process_good filter stateTable usageList hgood
    rw [hprocess] at h
    split_ifs at h with hcut htotal
    cases h
    refine ⟨by simpa using hcut,hgood,?_,hp.valid,hp.parses.describes⟩
    intro hnone
    exact htotal (hp.parses.total.trans (by rw [hnone]; rfl))
  · obtain ⟨before,item,after,-,-,-,hresult⟩ := process_bad filter stateTable usageList hgood
    rcases hresult with ⟨-,hfault⟩ | ⟨-,code,info',hcode⟩
    · rw [hfault] at h
      cases h
    · rw [hcode] at h
      cases h

end Runs

/-- For every descriptor and filter, and whatever the local arrays hold at first: the parser reads
or writes outside its tables or behind the descriptor exactly if, after items that all fit, it
meets a `PUSH` or takes a usage from a full list, or if all items fit and the last is cut off. -/
theorem processHIDReport_fault_iff (filter : HidReportItem → Bool) (stateTable : Vector HidStateTable stateTableStackDepth)
    (usageList : Vector UInt16 usageStackDepth) (descriptor : List UInt8) :
    (∃ f, processHIDReport filter stateTable usageList descriptor = .error (.fault f)) ↔
      (∃ before item after, (HidItem.split descriptor).1 = before ++ item :: after ∧
          Admits HidContext.next (Good filter) .start before ∧ (before.foldl HidContext.next .start).Harmful item) ∨
        (Admits HidContext.next (Good filter) .start (HidItem.split descriptor).1 ∧ (HidItem.split descriptor).2 = false) := by
  by_cases hgood : Admits HidContext.next (Good filter) .start (HidItem.split descriptor).1
  · obtain ⟨p,-,hprocess⟩ := process_good filter stateTable usageList hgood
    rw [hprocess]
    constructor
    · rintro ⟨f,hf⟩
      by_cases hcut : (HidItem.split descriptor).2 = false
      · exact Or.inr ⟨hgood,hcut⟩
      · rw [if_neg hcut] at hf
        split at hf
        · cases hf
        · cases hf
    · rintro (⟨before,item,after,hsplit,-,hharmful⟩ | ⟨-,hcut⟩)
      · rw [hsplit] at hgood
        exact absurd hgood (not_admits_split fun h => h.1 hharmful)
      · exact ⟨.bounds,if_pos hcut⟩
  · obtain ⟨before,item,after,hsplit,hadm,hnot,hresult⟩ := process_bad filter stateTable usageList hgood
    rcases hresult with ⟨hharmful,hfault⟩ | ⟨hharmless,code,info,hcode⟩
    · exact iff_of_true ⟨_,hfault⟩ (Or.inl ⟨before,item,after,hsplit,hadm,hharmful⟩)
    · refine iff_of_false ?_ ?_
      · rintro ⟨f,hf⟩
        rw [hcode] at hf
        cases hf
      · rintro (⟨before',item',after',hsplit',hadm',hharmful⟩ | ⟨hall,-⟩)
        · obtain ⟨rfl,rfl⟩ := first_bad_unique (hsplit.symm.trans hsplit') hadm hadm' hnot fun h => h.1 hharmful
          exact hharmless hharmful
        · exact hgood hall

section Places
variable {c : HidContext}

/-- No report has more bits than a 16-bit offset can count. -/
def HidContext.Counted (c : HidContext) : Prop := ∀ report type, bits c.fields report type < 2 ^ 16

theorem counted_of_sum (h : (c.fields.map fun f => f.item.attributes.bitSize.toNat).sum < 2 ^ 16) : c.Counted := by
  intro report type
  refine Nat.lt_of_le_of_lt ?_ h
  induction c.fields with
  | nil => exact Nat.le_refl 0
  | cons f rest ih =>
    rw [← List.singleton_append,bits_append,bits_singleton,List.map_append,List.sum_append]
    refine Nat.add_le_add ?_ ih
    split
    · simp
    · exact Nat.zero_le _

private theorem bits_take_mono (fields : List HidField) (report : Nat) (type : HidItemType) {i j : Nat} (h : i ≤ j) :
    bits (fields.take i) report type ≤ bits (fields.take j) report type := by
  have hsplit := List.take_append_drop i (fields.take j)
  rw [List.take_take,Nat.min_eq_left h] at hsplit
  rw [← hsplit,bits_append]
  exact Nat.le_add_right _ _

/-- A field ends where the next one of its report and type can begin. -/
private theorem field_end (hv : c.Valid) (hc : c.Counted) {i : Nat} {f : HidField} (hf : c.fields[i]? = some f) :
    f.item.bitOffset.toNat + f.item.attributes.bitSize.toNat = bits (c.fields.take (i + 1)) f.report f.item.itemType ∧
      f.item.bitOffset.toNat = bits (c.fields.take i) f.report f.item.itemType := by
  obtain ⟨hi,hget⟩ := List.getElem?_eq_some_iff.mp hf
  have hsplit : c.fields = c.fields.take i ++ f :: c.fields.drop (i + 1) := by
    rw [← hget,List.getElem_cons_drop,List.take_append_drop]
  have hle := bits_take_mono c.fields f.report f.item.itemType (Nat.le_of_lt hi)
  rw [List.take_length] at hle
  have hoffset : f.item.bitOffset.toNat = bits (c.fields.take i) f.report f.item.itemType := by
    rw [hv.placed _ f _ hsplit,UInt16.toNat_ofNat',Nat.mod_eq_of_lt (Nat.lt_of_le_of_lt hle (hc _ _))]
  refine ⟨?_,hoffset⟩
  rw [List.take_add_one,hf,bits_append,hoffset]
  congr 1
  exact ((bits_singleton f _ _).trans (if_pos ⟨rfl,rfl⟩)).symm

private theorem fields_pairwise (hv : c.Valid) (hc : c.Counted) :
    c.fields.Pairwise fun f g => f.report = g.report → f.item.itemType = g.item.itemType →
      f.item.bitOffset.toNat + f.item.attributes.bitSize.toNat ≤ g.item.bitOffset.toNat := by
  rw [List.pairwise_iff_getElem]
  intro i j hi hj hij hreport htype
  rw [(field_end hv hc (List.getElem?_eq_getElem hi)).1,(field_end hv hc (List.getElem?_eq_getElem hj)).2,hreport,htype]
  exact bits_take_mono c.fields _ _ hij

/-- The report of a field that has an ID, or of any field where none is used. -/
private theorem same_report (hv : c.Valid) {f g : HidField} (hf : f ∈ c.fields) (hg : g ∈ c.fields)
    (hid : f.item.reportID = g.item.reportID) (hnamed : f.item.reportID ≠ 0 ∨ c.usingReportIDs = false) :
    f.report = g.report := by
  obtain ⟨hlt,hfirst⟩ := hv.owned f hf
  have hsecond := (hv.owned g hg).2
  rw [← hid] at hsecond
  exact (List.getElem?_inj hlt hv.nodup).mp ((hfirst hnamed.symm).trans (hsecond hnamed.symm).symm)

theorem HidReportInfo.Describes.field {filter : HidReportItem → Bool} {info : HidReportInfo} (h : info.Describes filter c)
    {a : HidReportItem} (ha : a ∈ info.items) : ∃ f ∈ c.fields, f.item = a := by
  rw [h.items,HidContext.kept] at ha
  exact List.mem_map.mp (List.mem_filter.mp ha).1

theorem HidContext.Valid.field_le (hv : c.Valid) (hc : c.Counted) {f : HidField} (hf : f ∈ c.fields) :
    f.item.bitOffset.toNat + f.item.attributes.bitSize.toNat ≤ bits c.fields f.report f.item.itemType := by
  obtain ⟨i,hi,rfl⟩ := List.getElem_of_mem hf
  have hle := bits_take_mono c.fields c.fields[i].report c.fields[i].item.itemType (Nat.succ_le_of_lt hi)
  rw [List.take_length] at hle
  rw [(field_end hv hc (List.getElem?_eq_getElem hi)).1]
  exact hle

end Places

theorem processHIDReport_describes {filter : HidReportItem → Bool} {stateTable : Vector HidStateTable stateTableStackDepth}
    {usageList : Vector UInt16 usageStackDepth} {descriptor : List UInt8} {info : HidReportInfo}
    (h : processHIDReport filter stateTable usageList descriptor = .ok info) :
    (declared descriptor).Valid ∧ info.Describes filter (declared descriptor) :=
  (process_ok filter stateTable usageList h).2.2.2

/-- In an accepted descriptor whose reports stay below `2 ^ 16` bits, of two kept fields of one
type and report ID the later one begins where the earlier one ends or behind it; fields without
an ID are compared only if no report has one. -/
theorem processHIDReport_disjoint {filter : HidReportItem → Bool} {stateTable : Vector HidStateTable stateTableStackDepth}
    {usageList : Vector UInt16 usageStackDepth} {descriptor : List UInt8} {info : HidReportInfo}
    (h : processHIDReport filter stateTable usageList descriptor = .ok info) (hcounted : (declared descriptor).Counted) :
    info.items.Pairwise fun a b => a.itemType = b.itemType → a.reportID = b.reportID →
      (a.reportID ≠ 0 ∨ info.usingReportIDs = false) →
      a.bitOffset.toNat + a.attributes.bitSize.toNat ≤ b.bitOffset.toNat := by
  obtain ⟨hv,hinfo⟩ := processHIDReport_describes h
  rw [hinfo.items,hinfo.usingIDs,HidContext.kept]
  refine (List.pairwise_map.mpr ?_).filter _
  refine (fields_pairwise hv hcounted).imp_of_mem ?_
  intro f g hf hg hend htype hid hnamed
  exact hend (same_report hv hf hg hid hnamed) htype

theorem processHIDReport_disjoint_two_bytes :
    ∃ info, processHIDReport (fun _ => true) (Vector.replicate _ .zero) (Vector.replicate _ 0)
        [0x05,0x07,0x75,0x08,0x95,0x02,0x81,0x00] = .ok info ∧
      info.items.Pairwise fun a b => a.itemType = b.itemType → a.reportID = b.reportID →
        (a.reportID ≠ 0 ∨ info.usingReportIDs = false) →
        a.bitOffset.toNat + a.attributes.bitSize.toNat ≤ b.bitOffset.toNat := by
  obtain ⟨info,h⟩ : ∃ info, processHIDReport (fun _ => true) (Vector.replicate _ .zero) (Vector.replicate _ 0)
      [0x05,0x07,0x75,0x08,0x95,0x02,0x81,0x00] = .ok info := ⟨_,rfl⟩
  exact ⟨info,h,processHIDReport_disjoint h (counted_of_sum (by decide))⟩

end ArduinoAT90USB.Usb
