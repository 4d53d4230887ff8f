import ArduinoAT90USB.Usb.HidContext
import ArduinoAT90USB.Foundation.Runs

/-! The parser against what the descriptor declares: as long as its tables have room, they hold
the declared collections, reports and kept fields; it stops with a code where one is full, and
leaves them in two cases only. -/
namespace ArduinoAT90USB.Usb
open Foundation.Memory Foundation.Table Foundation.ShiftQueue Foundation.Runs

section Checks
variable {α β : Type}

theorem checked_ok_bind (a : α) (k : α → HidParsing β) : (checked (.ok a) >>= k) = k a := rfl

theorem parsing_ok_bind (a : α) (k : α → HidParsing β) : ((.ok a : HidParsing α) >>= k) = k a := rfl

end Checks

/-- The parser's variables show the context, the kept items apart. -/
structure Tables (p : HidParser) (c : HidContext) : Prop where
  level : p.currStateTable = 0
  table : p.stateTable[0]? = some c.table
  usages : Holds p.usageList c.usages
  usageCount : p.usageListSize = c.usages.length
  range : p.usageMinMax = c.usageMinMax
  paths : Tabulates p.info.collectionPaths c.collections
  children : c.children < maxCollections
  current : p.currCollectionPath = c.current
  reports : p.info.totalDeviceReports = c.reports.length
  reports_le : c.reports.length ≤ maxReportIDs
  sizes : Tabulates p.info.reportIDSizes (sizeInfo c.reports c.fields)
  report : p.currReportIDInfo = c.report
  usingIDs : p.info.usingReportIDs = c.usingReportIDs
  largest : p.info.largestReportSizeBits = c.largest

/-- And the kept items. -/
structure Parses (filter : HidReportItem → Bool) (p : HidParser) (c : HidContext) : Prop extends Tables p c where
  items : Holds p.info.reportItems (c.kept filter)
  total : p.info.totalReportItems = (c.kept filter).length

section Steps
variable {filter : HidReportItem → Bool} {p : HidParser} {c : HidContext}

theorem parses_init (filter : HidReportItem → Bool) (stateTable : Vector HidStateTable stateTableStackDepth)
    (usageList : Vector UInt16 usageStackDepth) : Parses filter (.init stateTable usageList) .start where
  level := rfl
  table := Vector.getElem?_set_self (by decide)
  usages := Holds.nil usageList
  usageCount := rfl
  range := rfl
  paths := tabulates_replicate _
  children := by decide
  current := rfl
  reports := rfl
  reports_le := by decide
  sizes := by
    intro i hi
    change (Vector.replicate maxReportIDs HidReportSizeInfo.zero)[i]? = _
    rw [Vector.getElem?_replicate,if_pos hi,sizeInfo]
    cases i with
    | zero => rfl
    | succ i => rfl
  report := rfl
  usingIDs := rfl
  items := Holds.nil _
  total := rfl
  largest := rfl

theorem Parses.fetch_table (h : Parses filter p c) : fetch p.stateTable p.currStateTable = .ok c.table := by
  rw [fetch,h.level,h.table]

theorem Parses.setTable (h : Parses filter p c) (f : HidStateTable → HidStateTable) :
    ∃ p', p.setTable f = .ok p' ∧ Parses filter p' {c with table := f c.table} := by
  have hget := h.table
  rw [Vector.getElem?_eq_getElem (by decide),Option.some.injEq] at hget
  have hset : p.setTable f = .ok {p with stateTable := p.stateTable.set 0 (f p.stateTable[0])} := by
    rw [HidParser.setTable,h.level,modify_inside p.stateTable f (by decide)]
    rfl
  refine ⟨_,hset,{h with table := ?_}⟩
  rw [Vector.getElem?_set_self (by decide),hget]

theorem Parses.takeUsage (h : Parses filter p c) (hroom : c.usages.length ≠ usageStackDepth) (old : UInt16) :
    ∃ p', p.takeUsage old = .ok (c.nextUsage old,p') ∧ Parses filter p' c.dropUsage := by
  have hholds := h.usages
  have hcount := h.usageCount
  unfold HidParser.takeUsage HidContext.nextUsage HidContext.dropUsage at *
  cases husages : c.usages with
  | cons usage rest =>
    rw [husages] at hholds hroom hcount
    have hfits := hholds.fits
    rw [List.length_cons] at hroom hfits hcount
    obtain ⟨usageList,hshift,hrest⟩ := shiftDown_holds hholds (by omega)
    rw [hcount,if_pos (Nat.succ_ne_zero _),hholds.first,checked_ok_bind,hshift,checked_ok_bind]
    exact ⟨_,rfl,{h with usages := hrest, usageCount := rfl}⟩
  | nil =>
    rw [husages,List.length_nil] at hcount
    rw [hcount,if_neg (by decide),h.range]
    split
    case isTrue hle =>
      exact ⟨_,rfl,{h with range := rfl, usageCount := rfl, usages := Holds.nil _}⟩
    case isFalse hgt => exact ⟨p,rfl,h⟩

theorem Parses.takeUsage_full (h : Parses filter p c) (hfull : c.usages.length = usageStackDepth) (old : UInt16) :
    p.takeUsage old = .error (.fault .bounds) := by
  unfold HidParser.takeUsage
  rw [h.usageCount,hfull,if_pos (by decide),fetch_inside p.usageList (by decide),checked_ok_bind,
    shiftDown_full p.usageList (by decide)]
  rfl

private theorem find_report (reports : List UInt8) (id : UInt8) :
    ((List.range reports.length).find? fun i => reports.getD i 0 = id) =
      if id ∈ reports then some (reports.idxOf id) else none := by
  split
  case isTrue hmem =>
    have hlt := List.idxOf_lt_length_of_mem hmem
    rw [List.find?_range_eq_some]
    refine ⟨?_,List.mem_range.mpr hlt,?_⟩
    · rw [List.getD_eq_getElem?_getD,List.getElem?_idxOf hmem]
      exact decide_eq_true rfl
    · intro j hj
      have hne := List.not_of_lt_findIdx hj
      rw [List.getD_eq_getElem?_getD,List.getElem?_eq_getElem (by omega)]
      simpa using hne
  case isFalse hnew =>
    rw [List.find?_eq_none]
    intro i hi hid
    have hlt := List.mem_range.mp hi
    rw [List.getD_eq_getElem?_getD,List.getElem?_eq_getElem hlt] at hid
    exact hnew (of_decide_eq_true hid ▸ List.getElem_mem hlt)

theorem Parses.findReport (h : Parses filter p c) (id : UInt8) :
    HidParser.findReport p.info id = .ok (if id ∈ c.reports then some (c.reports.idxOf id) else none) := by
  have hle := h.reports_le
  rw [HidParser.findReport,h.reports,h.sizes.search _ fun i hi => by have := List.mem_range.mp hi; omega]
  exact congrArg Except.ok (find_report c.reports id)

theorem bits_eq_zero {fields : List HidField} {report : Nat} (h : ∀ f ∈ fields, f.report < report) (type : HidItemType) :
    bits fields report type = 0 := by
  rw [bits,List.filter_eq_nil_iff.mpr]
  · rfl
  · intro f hf hmatch
    have := h f hf
    have := (of_decide_eq_true hmatch).1
    omega

section Sizes
variable {reports : List UInt8} {fields : List HidField}

private theorem sizeInfo_append (h : ∀ f ∈ fields, f.report < reports.length) (id : UInt8) :
    sizeInfo (reports ++ [id]) fields =
      Function.update (Function.update (sizeInfo reports fields) reports.length .zero) reports.length
        {HidReportSizeInfo.zero with reportID := id} := by
  funext r
  rw [Function.update_idem]
  by_cases hr : r = reports.length
  · subst hr
    rw [Function.update_self,sizeInfo,List.getD_eq_getElem?_getD,List.getElem?_concat_length]
    simp only [bits_eq_zero h]
    rfl
  · rw [Function.update_of_ne hr,sizeInfo,sizeInfo,List.getD_eq_getElem?_getD,List.getD_eq_getElem?_getD]
    congr 2
    rcases Nat.lt_or_gt_of_ne hr with hlt | hgt
    · exact List.getElem?_append_left hlt
    · rw [List.getElem?_eq_none (by rw [List.length_append,List.length_singleton]; omega),List.getElem?_eq_none (by omega)]

private theorem sizeInfo_named {report : Nat} {id : UInt8} (h : reports[report]? = some id) :
    Function.update (sizeInfo reports fields) report {sizeInfo reports fields report with reportID := id} =
      sizeInfo reports fields := by
  have hid : (sizeInfo reports fields report).reportID = id := by
    change reports.getD report 0 = id
    rw [List.getD_eq_getElem?_getD,h]
    rfl
  rw [← hid]
  exact Function.update_eq_self report (sizeInfo reports fields)

private theorem sizeInfo_first (id : UInt8) :
    Function.update (sizeInfo [0] fields) 0 {sizeInfo [0] fields 0 with reportID := id} = sizeInfo [id] fields := by
  funext r
  cases r with
  | zero => rfl
  | succ r => rfl

end Sizes

/-- The switch to a report, as far as there is an entry for it. -/
theorem Parses.selectReport (h : Parses filter p c) (hv : c.Valid) {id : UInt8}
    (hfits : c.usingReportIDs = true → id ∈ c.reports ∨ c.reports.length < maxReportIDs) :
    ∃ p', p.selectReport id = .ok p' ∧ Parses filter p' (c.selectReport id) := by
  obtain ⟨p₁,htable,h₁⟩ := h.setTable fun t => {t with reportID := id}
  have hvalid := hv.selectReport id
  unfold HidParser.selectReport
  unfold HidContext.selectReport at *
  dsimp only at *
  rw [htable,parsing_ok_bind]
  by_cases husing : c.usingReportIDs = true
  · simp only [if_pos husing] at hvalid ⊢
    rw [if_pos (h₁.usingIDs.trans husing),h₁.findReport]
    dsimp only
    by_cases hmem : id ∈ c.reports
    · simp only [if_pos hmem] at hvalid ⊢
      have hlt := hvalid.report_lt
      have hle := h.reports_le
      obtain ⟨sizes,hsizes,htab⟩ := h₁.sizes.modify (i := c.reports.idxOf id) (by dsimp only at hlt; omega)
        fun r => {r with reportID := id}
      rw [checked_ok_bind]
      dsimp only
      rw [parsing_ok_bind,hsizes,checked_ok_bind]
      refine ⟨_,rfl,{h₁ with report := rfl, usingIDs := husing.symm, sizes := ?_}⟩
      rwa [← sizeInfo_named hvalid.named]
    · have hlt := (hfits husing).resolve_left hmem
      have hnew := sizeInfo_append (fun f hf => (hv.owned f hf).1) id
      obtain ⟨sizes,hsizes,htab⟩ := h₁.sizes.modify hlt fun _ => .zero
      obtain ⟨sizes',hsizes',htab'⟩ := htab.modify hlt fun r => {r with reportID := id}
      rw [Function.update_self] at htab'
      have hcount : p₁.info.totalDeviceReports = c.reports.length := h₁.reports
      rw [if_neg hmem,checked_ok_bind]
      dsimp only
      rw [hcount,if_neg (by omega),hsizes,checked_ok_bind,parsing_ok_bind,hsizes',checked_ok_bind]
      refine ⟨_,rfl,?_⟩
      rw [if_neg hmem]
      refine {h₁ with report := rfl, usingIDs := husing.symm, reports := ?_, reports_le := ?_, sizes := ?_}
      · rw [List.length_append]
        rfl
      · rw [List.length_append]
        exact hlt
      · rw [hnew]
        exact htab'
  · rw [if_neg husing] at hvalid ⊢
    have hreports := hv.unused (by simpa using husing)
    have hfirst : c.report = 0 := by
      have := hv.report_lt
      rw [hreports,List.length_singleton] at this
      omega
    have husing₁ : p₁.info.usingReportIDs = false := h₁.usingIDs.trans (by simpa using husing)
    obtain ⟨sizes,hsizes,htab⟩ := h₁.sizes.modify (i := 0) (by decide) fun r => {r with reportID := id}
    have hreport : p₁.currReportIDInfo = 0 := h₁.report.trans hfirst
    rw [husing₁,if_neg (by decide),parsing_ok_bind,hreport,hsizes,checked_ok_bind]
    refine ⟨_,rfl,{h₁ with usingIDs := rfl, report := hfirst.symm, reports := ?_, reports_le := ?_, sizes := ?_}⟩
    · exact h₁.reports.trans (by rw [hreports]; rfl)
    · exact Nat.succ_le_of_lt (by decide)
    · dsimp only at htab
      rwa [hreports,sizeInfo_first] at htab

theorem Parses.selectReport_full (h : Parses filter p c) {id : UInt8} (husing : c.usingReportIDs = true)
    (hnew : id ∉ c.reports) (hfull : c.reports.length = maxReportIDs) :
    ∃ info, p.selectReport id = .error (.returned .insufficientReportIDItems info) := by
  obtain ⟨p₁,htable,h₁⟩ := h.setTable fun t => {t with reportID := id}
  refine ⟨p₁.info,?_⟩
  unfold HidParser.selectReport
  rw [htable,parsing_ok_bind,if_pos (h₁.usingIDs.trans husing),h₁.findReport,if_neg hnew,checked_ok_bind]
  dsimp only
  rw [if_pos (h₁.reports.trans hfull)]
  rfl

theorem Parses.addUsage (h : Parses filter p c) (hroom : c.usages.length < usageStackDepth) (usage : UInt16) :
    ∃ p', p.addUsage usage = .ok p' ∧ Parses filter p' {c with usages := c.usages ++ [usage]} := by
  obtain ⟨usageList,hmodify,husages⟩ := h.usages.append hroom usage
  unfold HidParser.addUsage
  rw [h.usageCount,if_neg (by omega),hmodify,checked_ok_bind]
  refine ⟨_,rfl,{h with usages := husages, usageCount := ?_}⟩
  rw [List.length_append]
  rfl

/-- The collection `i` is the open one, linked but not described yet. -/
private def link (c : HidContext) (i : Nat) (parent : Option Nat) (children : Nat) : HidContext :=
  {c with
    current := some i
    collections := Function.update c.collections i {c.collections i with parent := parent}
    children := children}

private theorem link_dropUsage (c : HidContext) (i : Nat) (parent : Option Nat) (children : Nat) :
    (link c i parent children).dropUsage = link c.dropUsage i parent children := by
  unfold HidContext.dropUsage link
  dsimp only
  split
  · rfl
  · split
    · rfl
    · rfl

private theorem Parses.findPath (h : Parses filter p c) (hv : c.Valid) :
    HidParser.findPath p.info = .ok (if c.children + 1 < maxCollections then some (c.children + 1) else none) := by
  have hmem : ∀ i ∈ List.range' 1 (maxCollections - 1), 1 ≤ i ∧ i < maxCollections := by
    intro i hi
    have := List.mem_range'_1.mp hi
    omega
  rw [HidParser.findPath,h.paths.search _ fun i hi => (hmem i hi).2]
  congr 1
  split
  case isTrue hlt =>
    rw [List.find?_range'_eq_some]
    refine ⟨?_,List.mem_range'_1.mpr (by omega),?_⟩
    · have := mt (hv.linked (c.children + 1)).mp (by omega)
      simpa using this
    · intro j hj hlt'
      simpa using (hv.linked j).mpr (by omega)
  case isFalse hfull =>
    rw [List.find?_eq_none]
    intro i hi
    have := hmem i hi
    simpa using (hv.linked i).mpr (by omega)

theorem Parses.openPath (h : Parses filter p c) (hv : c.Valid) (hpath : c.HasPath) :
    (c.current = none ∧ ∃ p', p.openPath = .ok (0,p') ∧ Parses filter p' (link c 0 none c.children)) ∨
      ∃ parent, c.current = some parent ∧ c.children + 1 < maxCollections ∧
        ∃ p', p.openPath = .ok (c.children + 1,p') ∧
          Parses filter p' (link c (c.children + 1) (some parent) (c.children + 1)) := by
  unfold HidParser.openPath
  rw [h.current]
  cases hcur : c.current with
  | none =>
    refine Or.inl ⟨rfl,_,rfl,{h with current := rfl, paths := ?_}⟩
    have hroot : (c.collections 0).parent = none := by
      have := mt (hv.linked 0).mp (by omega)
      simpa using this
    have hself : Function.update c.collections 0 {c.collections 0 with parent := none} = c.collections := by
      rw [← hroot]
      exact Function.update_eq_self 0 c.collections
    change Tabulates _ (Function.update c.collections 0 {c.collections 0 with parent := none})
    rw [hself]
    exact h.paths
  | some parent =>
    have hlt : c.children + 1 < maxCollections := hpath.resolve_left (by rw [hcur]; exact nofun)
    obtain ⟨paths,hmodify,htab⟩ := h.paths.modify hlt fun path => {path with parent := some parent}
    right
    dsimp only
    rw [h.findPath hv,if_pos hlt,checked_ok_bind]
    dsimp only
    rw [hmodify,checked_ok_bind]
    exact ⟨parent,rfl,hlt,_,rfl,{h with current := rfl, children := hlt, paths := htab}⟩

theorem Parses.openPath_full (h : Parses filter p c) (hv : c.Valid) (hpath : ¬ c.HasPath) :
    ∃ info, p.openPath = .error (.returned .insufficientCollectionPaths info) := by
  obtain ⟨hcur,hfull⟩ := not_or.mp hpath
  obtain ⟨parent,hparent⟩ := Option.ne_none_iff_exists'.mp hcur
  refine ⟨p.info,?_⟩
  unfold HidParser.openPath
  rw [h.current,hparent]
  dsimp only
  rw [h.findPath hv,if_neg hfull]
  rfl

private theorem Parses.describePath {i children : Nat} {parent : Option Nat} (h : Parses filter p (link c i parent children))
    (hi : i < maxCollections) (hroom : c.usages.length ≠ usageStackDepth) (type : UInt8) :
    ∃ p', p.describePath i type = .ok p' ∧ Parses filter p' {c.enter i parent type with children := children} := by
  have hpath : fetch p.info.collectionPaths i = .ok {c.collections i with parent := parent} := by
    rw [h.paths.fetch hi]
    exact congrArg Except.ok (Function.update_self i _ c.collections)
  obtain ⟨p₁,htake,h₁⟩ := h.takeUsage hroom (c.collections i).usage.usage
  rw [link_dropUsage] at h₁
  obtain ⟨paths,hmodify,htab⟩ := h₁.paths.modify hi fun path =>
    {path with type := type, usage := ⟨c.table.attributes.usage.page,c.nextUsage (c.collections i).usage.usage⟩}
  have hcollections : Function.update (link c.dropUsage i parent children).collections i
      {(link c.dropUsage i parent children).collections i with
        type := type, usage := ⟨c.table.attributes.usage.page,c.nextUsage (c.collections i).usage.usage⟩} =
      (c.enter i parent type).collections := by
    simp only [link,HidContext.enter,HidContext.dropUsage_collections,Function.update_idem,Function.update_self]
  rw [hcollections] at htab
  unfold HidParser.describePath
  rw [h.fetch_table,checked_ok_bind,hpath,checked_ok_bind]
  dsimp only
  rw [htake,parsing_ok_bind]
  refine ⟨{p₁ with info.collectionPaths := paths},?_,{h₁ with paths := htab}⟩
  exact congrArg (checked · >>= _) hmodify

theorem Parses.openCollection (h : Parses filter p c) (hv : c.Valid) (hpath : c.HasPath)
    (hroom : c.usages.length ≠ usageStackDepth) (type : UInt8) :
    ∃ p', p.openCollection type = .ok p' ∧ Parses filter p' (c.openCollection type) := by
  unfold HidParser.openCollection HidContext.openCollection
  rcases h.openPath hv hpath with ⟨hcur,p₁,hopen,h₁⟩ | ⟨parent,hcur,hlt,p₁,hopen,h₁⟩
  · obtain ⟨p',hdescribe,h'⟩ := h₁.describePath (by decide) hroom type
    rw [hopen,hcur]
    refine ⟨p',hdescribe,?_⟩
    rwa [← HidContext.enter_children c 0 none type] at h'
  · rw [hopen,hcur]
    exact h₁.describePath hlt hroom type

private theorem Parses.describePath_full {i children : Nat} {parent : Option Nat} (h : Parses filter p (link c i parent children))
    (hi : i < maxCollections) (hfull : c.usages.length = usageStackDepth) (type : UInt8) :
    p.describePath i type = .error (.fault .bounds) := by
  unfold HidParser.describePath
  rw [h.fetch_table,checked_ok_bind,h.paths.fetch hi,checked_ok_bind,h.takeUsage_full hfull]
  rfl

theorem Parses.openCollection_full (h : Parses filter p c) (hv : c.Valid) (hpath : c.HasPath)
    (hfull : c.usages.length = usageStackDepth) (type : UInt8) :
    p.openCollection type = .error (.fault .bounds) := by
  unfold HidParser.openCollection
  rcases h.openPath hv hpath with ⟨hcur,p₁,hopen,h₁⟩ | ⟨parent,hcur,hlt,p₁,hopen,h₁⟩
  · rw [hopen]
    exact h₁.describePath_full (by decide) hfull type
  · rw [hopen]
    exact h₁.describePath_full hlt hfull type

theorem Parses.closeCollection (h : Parses filter p c) (hv : c.Valid) (hcur : c.current ≠ none) :
    ∃ p', p.closeCollection = .ok p' ∧ Parses filter p' c.closeCollection := by
  obtain ⟨i,hi⟩ := Option.ne_none_iff_exists'.mp hcur
  have hle := hv.current_le i hi
  have hlt := h.children
  unfold HidParser.closeCollection
  rw [h.current,hi]
  dsimp only
  rw [h.paths.fetch (by omega),checked_ok_bind]
  refine ⟨_,rfl,{h with current := ?_}⟩
  rw [HidContext.closeCollection,hi]
  rfl

private theorem ofNat_bits_add (n : Nat) (size : UInt8) : UInt16.ofNat (n + size.toNat) = UInt16.ofNat n + size.toUInt16 := by
  apply UInt16.toNat_inj.mp
  simp

private theorem sizeInfo_concat (reports : List UInt8) (fields : List HidField) (f : HidField) :
    sizeInfo reports (fields ++ [f]) =
      Function.update (sizeInfo reports fields) f.report
        ((sizeInfo reports fields f.report).setSize f.item.itemType
          (UInt16.ofNat (bits fields f.report f.item.itemType) + f.item.attributes.bitSize.toUInt16)) := by
  funext r
  by_cases hr : r = f.report
  · subst hr
    rw [Function.update_self,sizeInfo,HidReportSizeInfo.setSize]
    congr 1
    funext type
    by_cases htype : type = f.item.itemType
    · subst htype
      rw [Function.update_self,bits_append,bits_singleton,if_pos ⟨rfl,rfl⟩,ofNat_bits_add]
    · rw [Function.update_of_ne htype,bits_append,bits_singleton,if_neg (fun h => htype h.2.symm),Nat.add_zero]
      rfl
  · rw [Function.update_of_ne hr,sizeInfo,sizeInfo]
    congr 1
    funext type
    rw [bits_append,bits_singleton,if_neg (fun h => hr h.1.symm),Nat.add_zero]

private theorem isConstant_eq (item : HidItem) : item.isConstant = !decide (item.data.toUInt16 &&& 1 = 0) := by
  have hbit : (item.data &&& 1 = 0) ↔ (item.data.toUInt16 &&& 1 = 0) := by
    rw [← UInt32.toNat_inj,← UInt16.toNat_inj,UInt32.toNat_and,UInt16.toNat_and,UInt32.toNat_toUInt16]
    change item.data.toNat &&& 1 = 0 ↔ item.data.toNat % 2 ^ 16 &&& 1 = 0
    rw [Nat.and_one_is_mod,Nat.and_one_is_mod]
    omega
  rw [HidItem.isConstant,← decide_not]
  exact decide_eq_decide.mpr (not_congr hbit)

private theorem Tables.growReport (h : Tables p c) (hv : c.Valid) {f : HidField} (hreport : f.report = c.report)
    (hoffset : f.item.bitOffset = UInt16.ofNat (bits c.fields f.report f.item.itemType)) :
    ∃ p', p.growReport f.item.itemType f.item.attributes.bitSize = .ok (f.item.bitOffset,p') ∧
      Tables p' {c with fields := c.fields ++ [f]} ∧
      p'.info.reportItems = p.info.reportItems ∧ p'.info.totalReportItems = p.info.totalReportItems := by
  have hlt : f.report < maxReportIDs := hreport ▸ Nat.lt_of_lt_of_le hv.report_lt h.reports_le
  obtain ⟨sizes,hmodify,hsizes⟩ := h.sizes.modify hlt fun r =>
    r.setSize f.item.itemType (f.item.bitOffset + f.item.attributes.bitSize.toUInt16)
  unfold HidParser.growReport
  rw [h.report.trans hreport.symm,h.sizes.fetch hlt,checked_ok_bind]
  dsimp only [sizeInfo]
  rw [← hoffset,hmodify,checked_ok_bind]
  refine ⟨_,rfl,{h with report := hreport, sizes := ?_, largest := ?_},rfl,rfl⟩
  · rw [sizeInfo_concat,← hoffset]
    exact hsizes
  · rw [h.largest,HidContext.largest,HidContext.largest,List.foldl_append]
    rfl

private theorem Tables.storeItem (h : Tables p c) (filter : HidReportItem → Bool) {q : List HidReportItem}
    (hitems : Holds p.info.reportItems q)
    (htotal : p.info.totalReportItems = q.length) (hplace : q.length < maxReportItems) (constant : Bool) (new : HidReportItem) :
    ∃ p', p.storeItem filter constant new = .ok p' ∧ Tables p' c ∧
      Holds p'.info.reportItems (q ++ if !constant && filter new then [new] else []) ∧
      p'.info.totalReportItems = (q ++ if !constant && filter new then [new] else []).length := by
  obtain ⟨items,hstore,husages⟩ := hitems.append hplace new
  unfold HidParser.storeItem
  rw [htotal,if_neg (by omega),hstore,checked_ok_bind]
  refine ⟨_,rfl,{h with},?_,?_⟩
  · cases !constant && filter new with
    | true => exact husages
    | false =>
      change Holds items (q ++ [])
      rw [List.append_nil]
      exact husages.of_append
  · rw [List.length_append]
    cases !constant && filter new with
    | true => rfl
    | false => rfl

private theorem kept_concat (fields : List HidField) (type : HidItemType) (item : HidItem) :
    ((fields ++ [c.field type item]).map HidField.item).filter (HidReportItem.kept filter) =
      (fields.map HidField.item).filter (HidReportItem.kept filter) ++
        if !item.isConstant && filter (c.field type item).item then [(c.field type item).item] else [] := by
  rw [List.map_append,List.filter_append,isConstant_eq,Bool.not_not]
  congr 1
  rw [List.map_singleton,List.filter_singleton,Bool.cond_eq_ite]
  rfl

theorem Parses.addField (h : Parses filter p c) (hv : c.Valid) (hroom : c.usages.length ≠ usageStackDepth)
    (hplace : (c.kept filter).length < maxReportItems) (type : HidItemType) (item : HidItem) :
    ∃ p', p.addField filter type item = .ok p' ∧ Parses filter p' (c.addField type item) := by
  obtain ⟨p₁,htake,h₁⟩ := h.takeUsage hroom c.table.attributes.usage.usage
  have hv₁ := hv.dropUsage
  obtain ⟨usages,range,heq⟩ := c.dropUsage_eq
  unfold HidContext.addField
  rw [heq] at h₁ hv₁ ⊢
  obtain ⟨p₂,hgrow,h₂,hitems₂,htotal₂⟩ :=
    h₁.toTables.growReport hv₁ (f := c.field type item) rfl rfl
  have hkept₂ : Holds p₂.info.reportItems (c.kept filter) := hitems₂.symm ▸ h₁.items
  obtain ⟨p₃,hstore,h₃,hitems₃,htotal₃⟩ := h₂.storeItem filter hkept₂ (htotal₂.trans h₁.total) hplace
    item.isConstant (c.field type item).item
  have hcurrent : p₂.currCollectionPath = c.current := h₂.current
  rw [HidContext.kept,← kept_concat] at hitems₃ htotal₃
  refine ⟨p₃,?_,{h₃ with items := hitems₃, total := htotal₃}⟩
  unfold HidParser.addField
  rw [h.fetch_table,checked_ok_bind,htake,parsing_ok_bind]
  dsimp only
  rw [show p₁.growReport type c.table.attributes.bitSize = _ from hgrow,parsing_ok_bind]
  dsimp only
  rw [hcurrent]
  exact hstore

theorem Parses.addField_full (h : Parses filter p c) (hfull : c.usages.length = usageStackDepth) (type : HidItemType)
    (item : HidItem) : p.addField filter type item = .error (.fault .bounds) := by
  unfold HidParser.addField
  rw [h.fetch_table,checked_ok_bind,h.takeUsage_full hfull]
  rfl

theorem Parses.addField_crowded (h : Parses filter p c) (hv : c.Valid) (hroom : c.usages.length ≠ usageStackDepth)
    (hfull : (c.kept filter).length = maxReportItems) (type : HidItemType) (item : HidItem) :
    ∃ info, p.addField filter type item = .error (.returned .insufficientReportItems info) := by
  obtain ⟨p₁,htake,h₁⟩ := h.takeUsage hroom c.table.attributes.usage.usage
  have hv₁ := hv.dropUsage
  obtain ⟨usages,range,heq⟩ := c.dropUsage_eq
  rw [heq] at h₁ hv₁
  obtain ⟨p₂,hgrow,h₂,-,htotal₂⟩ := h₁.toTables.growReport hv₁ (f := c.field type item) rfl rfl
  refine ⟨p₂.info,?_⟩
  unfold HidParser.addField
  rw [h.fetch_table,checked_ok_bind,htake,parsing_ok_bind]
  dsimp only
  rw [show p₁.growReport type c.table.attributes.bitSize = _ from hgrow,parsing_ok_bind]
  exact if_pos (htotal₂.trans (h₁.total.trans hfull))

/-- The loop over `ReportCount`: every round leaves a usage list with a place to spare. -/
theorem Parses.addFields (type : HidItemType) (item : HidItem) (n : Nat) (h : Parses filter p c) (hv : c.Valid)
    (hroom : n ≠ 0 → c.usages.length < usageStackDepth) :
    (c.FieldsFit filter type item n → ∃ p', p.addFields filter type item n = .ok p' ∧ Parses filter p' (c.addFields type item n)) ∧
      (¬ c.FieldsFit filter type item n →
        ∃ info, p.addFields filter type item n = .error (.returned .insufficientReportItems info)) := by
  induction n generalizing p c with
  | zero => exact ⟨fun _ => ⟨p,rfl,h⟩,fun hnot => absurd trivial hnot⟩
  | succ n ih =>
    replace hroom := hroom (Nat.succ_ne_zero n)
    unfold HidParser.addFields
    by_cases hplace : (c.kept filter).length < maxReportItems
    · obtain ⟨p₁,hadd,h₁⟩ := h.addField hv (by omega) hplace type item
      obtain ⟨hfit,hnot⟩ := ih h₁ (hv.addField type item) fun _ => Nat.lt_of_le_of_lt c.dropUsage_length hroom
      rw [hadd,parsing_ok_bind]
      exact ⟨fun hfields => hfit hfields.2,fun hfields => hnot fun hrest => hfields ⟨hplace,hrest⟩⟩
    · have hfits := h.items.fits
      obtain ⟨info,hstop⟩ := h.addField_crowded hv (by omega) (by omega) type item
      rw [hstop]
      exact ⟨fun hfields => absurd hfields.1 hplace,fun _ => ⟨info,rfl⟩⟩

/-- An item that is neither harmful nor too much. -/
def Good (filter : HidReportItem → Bool) (c : HidContext) (item : HidItem) : Prop := ¬ c.Harmful item ∧ c.Fits filter item

theorem Parses.setAttributes (h : Parses filter p c) (f : HidItemAttributes → HidItemAttributes) :
    ∃ p', p.setAttributes f = .ok p' ∧ Parses filter p' (c.setAttributes f) := h.setTable fun t => {t with attributes := f t.attributes}

/-- A main item that is not harmful and declares fields finds a place to spare in the usage list. -/
theorem Parses.room_of_harmless (h : Parses filter p c)
    (hharmless : ¬ (c.table.reportCount ≠ 0 ∧ c.usages.length = usageStackDepth)) (hcount : c.table.reportCount.toNat ≠ 0) :
    c.usages.length < usageStackDepth := by
  have hfits := h.usages.fits
  have hne : c.table.reportCount ≠ 0 := fun h0 => hcount (by rw [h0]; rfl)
  have := not_and.mp hharmless hne
  omega

theorem Parses.dispatch_good (h : Parses filter p c) (hv : c.Valid) {item : HidItem} (hgood : Good filter c item) :
    ∃ p', p.dispatch filter item = .ok p' ∧ Parses filter p' (c.dispatch item) := by
  obtain ⟨hharmless,hfits⟩ := hgood
  unfold HidParser.dispatch HidContext.dispatch
  unfold HidContext.Harmful at hharmless
  unfold HidContext.Fits at hfits
  cases htag : item.tag with
  | push =>
    rw [htag] at hharmless
    exact absurd trivial hharmless
  | pop =>
    rw [htag] at hfits
    exact absurd hfits id
  | reportCount => exact h.setTable fun t => {t with reportCount := item.data.toUInt8}
  | reportID =>
    rw [htag] at hfits
    exact h.selectReport hv hfits
  | usage =>
    rw [htag] at hfits
    exact h.addUsage hfits _
  | usageMinimum | usageMaximum => exact ⟨_,rfl,{h with range := by dsimp only; rw [h.range]}⟩
  | collection =>
    rw [htag] at hharmless hfits
    exact h.openCollection hv hfits (fun hfull => hharmless ⟨hfits,hfull⟩) _
  | endCollection =>
    rw [htag] at hfits
    exact h.closeCollection hv hfits
  | field type =>
    rw [htag] at hharmless hfits
    dsimp only
    rw [h.fetch_table,checked_ok_bind]
    exact (Parses.addFields type item _ h hv (h.room_of_harmless hharmless)).1 hfits
  | other => exact ⟨p,rfl,h⟩
  | _ => exact h.setAttributes _

theorem Parses.dispatch_harmful (h : Parses filter p c) (hv : c.Valid) {item : HidItem} (hharmful : c.Harmful item) :
    p.dispatch filter item = .error (.fault .bounds) := by
  unfold HidParser.dispatch
  unfold HidContext.Harmful at hharmful
  cases htag : item.tag with
  | push =>
    dsimp only
    rw [HidParser.push,h.level,if_neg (by decide),if_neg (by decide)]
  | collection =>
    rw [htag] at hharmful
    exact h.openCollection_full hv hharmful.1 hharmful.2 _
  | field type =>
    rw [htag] at hharmful
    obtain ⟨n,hn⟩ : ∃ n, c.table.reportCount.toNat = n + 1 :=
      Nat.exists_eq_succ_of_ne_zero fun h0 => hharmful.1 (UInt8.toNat_inj.mp h0)
    dsimp only
    rw [h.fetch_table,checked_ok_bind,hn,HidParser.addFields,h.addField_full hharmful.2]
    rfl
  | _ =>
    rw [htag] at hharmful
    exact absurd hharmful id

theorem Parses.dispatch_refused (h : Parses filter p c) (hv : c.Valid) {item : HidItem} (hharmless : ¬ c.Harmful item)
    (hfits : ¬ c.Fits filter item) : ∃ code info, p.dispatch filter item = .error (.returned code info) := by
  unfold HidParser.dispatch
  unfold HidContext.Harmful at hharmless
  unfold HidContext.Fits at hfits
  cases htag : item.tag with
  | pop =>
    dsimp only
    rw [HidParser.pop,if_pos h.level]
    exact ⟨_,_,rfl⟩
  | reportID =>
    rw [htag] at hfits
    obtain ⟨husing,hnot⟩ := Classical.not_imp.mp hfits
    obtain ⟨hnew,hfull⟩ := not_or.mp hnot
    have hle := h.reports_le
    obtain ⟨info,hstop⟩ := h.selectReport_full husing hnew (by omega)
    exact ⟨_,info,hstop⟩
  | usage =>
    rw [htag] at hfits
    have hle := h.usages.fits
    have hcount := h.usageCount
    dsimp only at hfits ⊢
    rw [HidParser.addUsage,if_pos (by omega)]
    exact ⟨_,_,rfl⟩
  | collection =>
    rw [htag] at hfits
    obtain ⟨info,hstop⟩ := h.openPath_full hv hfits
    dsimp only
    rw [HidParser.openCollection,hstop]
    exact ⟨_,info,rfl⟩
  | endCollection =>
    rw [htag] at hfits
    have hcur : p.currCollectionPath = none := h.current.trans (not_not.mp hfits)
    dsimp only
    rw [HidParser.closeCollection,hcur]
    exact ⟨_,_,rfl⟩
  | field type =>
    rw [htag] at hharmless hfits
    dsimp only
    rw [h.fetch_table,checked_ok_bind]
    obtain ⟨info,hstop⟩ := (Parses.addFields type item _ h hv (h.room_of_harmless hharmless)).2 hfits
    exact ⟨_,info,hstop⟩
  | _ =>
    rw [htag] at hfits
    exact absurd trivial hfits

/-- The parser's variables and the context, which is one a descriptor leads to. -/
structure Follows (filter : HidReportItem → Bool) (p : HidParser) (c : HidContext) : Prop where
  valid : c.Valid
  parses : Parses filter p c

theorem Follows.step_good (h : Follows filter p c) {item : HidItem} (hgood : Good filter c item) :
    ∃ p', p.step filter item = .ok p' ∧ Follows filter p' (c.next item) := by
  obtain ⟨p₁,hdispatch,h₁⟩ := h.parses.dispatch_good h.valid hgood
  unfold HidParser.step
  rw [hdispatch,parsing_ok_bind]
  refine ⟨_,rfl,h.valid.next item,?_⟩
  unfold HidParser.endItem HidContext.next HidContext.endItem
  split
  · exact {h₁ with range := rfl, usageCount := rfl, usages := Holds.nil _}
  · exact h₁

theorem Follows.step_harmful (h : Follows filter p c) {item : HidItem} (hharmful : c.Harmful item) :
    p.step filter item = .error (.fault .bounds) := by
  unfold HidParser.step
  rw [h.parses.dispatch_harmful h.valid hharmful]
  rfl

theorem Follows.step_refused (h : Follows filter p c) {item : HidItem} (hharmless : ¬ c.Harmful item)
    (hfits : ¬ c.Fits filter item) : ∃ code info, p.step filter item = .error (.returned code info) := by
  obtain ⟨code,info,hstop⟩ := h.parses.dispatch_refused h.valid hharmless hfits
  refine ⟨code,info,?_⟩
  unfold HidParser.step
  rw [hstop]
  rfl

end Steps
end ArduinoAT90USB.Usb
