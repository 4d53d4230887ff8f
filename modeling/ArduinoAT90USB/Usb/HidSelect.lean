import ArduinoAT90USB.Usb.HidInterfaces

/-! The search of `HID_Host_ConfigurePipes` is shown to end with what `select` chooses, whatever bytes
the device has sent, and the driver to be set up for it. -/
namespace ArduinoAT90USB.Usb
open Foundation.Memory Foundation.Cursor ConfigItem

section Searches
variable {b : Block} {p : ConfigPos} {ps : List ConfigPos} {limit : Nat}

/-- The descriptors at these places. -/
abbrev items (b : Block) (ps : List ConfigPos) : List ConfigItem := ps.map fun q => itemAt b q.loc

/-- How a search from `p` ends, with the descriptors `ps` before it: on the first one that is found, or in
front of one that makes it fail, or at the end. -/
inductive Searched (b : Block) (judge : ConfigItem → Verdict) (p : ConfigPos) (ps : List ConfigPos) : SearchComp → ConfigPos → Prop
  | found {passed : List ConfigItem} {q : ConfigPos} {rest : List ConfigPos}
      (hitems : items b ps = passed ++ itemAt b q.loc :: items b rest)
      (hpassed : ∀ d ∈ passed, judge d = .notFound) (hq : judge (itemAt b q.loc) = .found) (hrest : Descriptors b q rest)
      (hstop : q.stop = p.stop) (hless : rest.length < ps.length) : Searched b judge p ps .found q
  | passed {passed : List ConfigItem} {code : SearchComp} {q : ConfigPos} {rest : List ConfigPos} (hcode : code ≠ .found)
      (hitems : items b ps = passed ++ items b rest) (hpassed : ∀ d ∈ passed, judge d = .notFound)
      (hend : ∀ d ∈ (items b rest).head?, judge d = .fail) (hrest : Descriptors b q rest) (hstop : q.stop = p.stop)
      (hle : rest.length ≤ ps.length) : Searched b judge p ps code q

theorem search_ends {comparator : Nat → Checked Verdict} {judge : ConfigItem → Verdict} (h : Descriptors b p ps)
    (hcomparator : ∀ loc ≤ p.stop, comparator loc = .ok (judge (itemAt b loc))) (hlimit : ps.length < limit) :
    ∃ code q, getNextDescriptorComp b comparator limit p = .ok (code,q) ∧ Searched b judge p ps code q := by
  refine ⟨_,_,getNextDescriptorComp_eq (fun q => judge (itemAt b q.loc)) h (fun q hq => hcomparator q.loc (h.loc_le hq)) hlimit,?_⟩
  have hrest := h.scan fun q => judge (itemAt b q.loc)
  have hscanned := scan_scanned (fun q => judge (itemAt b q.loc)) p ps
  have hstop : (scan (fun q => judge (itemAt b q.loc)) p ps).2.1.stop = p.stop := by
    rcases List.mem_cons.mp (scan_mem (fun q => judge (itemAt b q.loc)) p ps) with heq | hmem
    · rw [heq]
    · exact h.stop hmem
  revert hrest hscanned hstop
  generalize scan (fun q => judge (itemAt b q.loc)) p ps = r
  intro hrest hscanned hstop
  cases hscanned with
  | found hqs hpassed hq =>
    obtain rfl := hqs
    refine .found List.map_append (List.forall_mem_map.mpr hpassed) hq hrest hstop ?_
    rw [List.length_append,List.length_cons]
    omega
  | fail hqs hpassed hq =>
    obtain rfl := hqs
    refine .passed (fun h => SearchComp.noConfusion h) List.map_append (List.forall_mem_map.mpr hpassed) ?_ hrest hstop ?_
    · rintro d ⟨⟩
      exact hq
    · rw [List.length_append]
      exact Nat.le_add_left _ _
  | notFound hpassed =>
    refine .passed (fun h => SearchComp.noConfusion h) (List.append_nil _).symm (List.forall_mem_map.mpr hpassed) ?_ hrest hstop
      (Nat.zero_le _)
    rintro d ⟨⟩

theorem ConfigItem.interfaceVerdict_ne_fail (d : ConfigItem) : d.interfaceVerdict ≠ .fail := by
  cases d with
  | interface i =>
    rw [interfaceVerdict]
    split
    · exact fun h => Verdict.noConfusion h
    · exact fun h => Verdict.noConfusion h
  | hid | endpoint | other => exact fun h => Verdict.noConfusion h

theorem interfaceVerdict_found {d : ConfigItem} (h : d.interfaceVerdict = .found) : ∃ i, d = .interface i ∧ i.cls = hidClass := by
  cases d with
  | interface i =>
    rw [interfaceVerdict] at h
    split at h
    · rename_i hclass
      exact ⟨i,rfl,hclass⟩
    · cases h
  | hid | endpoint | other => cases h

variable {protocol : UInt8} {pipes : Pipes} {fuel : Nat}

theorem nextInterface_none {code : SearchComp} {q : ConfigPos} (h : getNextDescriptorComp b (nextHIDInterface b) limit p = .ok (code,q))
    (hcode : code ≠ .found) : nextInterface b protocol limit (fuel + 1) p = .ok none := by
  rw [nextInterface,h,ok_bind]
  exact if_pos hcode

theorem nextInterface_some {q : ConfigPos} (h : getNextDescriptorComp b (nextHIDInterface b) limit p = .ok (.found,q))
    (hprotocol : protocol = 0 ∨ load b (q.loc + 7) = .ok protocol) : nextInterface b protocol limit (fuel + 1) p = .ok (some q) := by
  rw [nextInterface,h,ok_bind]
  by_cases hany : protocol = 0
  · exact if_neg (not_not_intro hany)
  · have hload := hprotocol.resolve_left hany
    refine (if_pos hany).trans ?_
    rw [hload,ok_bind]
    exact if_neg fun h => h rfl

theorem nextInterface_next {q : ConfigPos} {other : UInt8} (h : getNextDescriptorComp b (nextHIDInterface b) limit p = .ok (.found,q))
    (hany : protocol ≠ 0) (hload : load b (q.loc + 7) = .ok other) (hother : other ≠ protocol) :
    nextInterface b protocol limit (fuel + 1) p = nextInterface b protocol limit fuel q := by
  rw [nextInterface,h,ok_bind]
  refine (if_pos hany).trans ?_
  rw [hload,ok_bind]
  exact if_pos hother

theorem nextInterface_ends (pipes : Pipes) (h : Descriptors b p ps) (hroom : p.stop + 9 ≤ b.length) (hlimit : ps.length < limit)
    (hfuel : ps.length < fuel) :
    (nextInterface b protocol limit fuel p = .ok none ∧ select protocol pipes (interfaces (items b ps)) = none) ∨
    ∃ q rest i, nextInterface b protocol limit fuel p = .ok (some q) ∧ Descriptors b q rest ∧ q.stop = p.stop ∧ rest.length < ps.length ∧
      itemAt b q.loc = .interface i ∧ i.Wanted protocol ∧
      select protocol pipes (interfaces (items b ps)) =
        select protocol pipes ((i,own (items b rest)) :: interfaces (items b rest)) := by
  induction fuel generalizing p ps with
  | zero => cases hfuel
  | succ fuel ih =>
    have hcomparator : ∀ loc ≤ p.stop, nextHIDInterface b loc = .ok (itemAt b loc).interfaceVerdict := fun loc hloc =>
      nextHIDInterface_eq (by omega)
    obtain ⟨code,q,hsearch,hended⟩ := search_ends h hcomparator hlimit
    cases hended with
    | @passed passed _ _ rest hcode hitems hpassed hend hrest hstop hle =>
      have hnil : items b rest = [] := by
        cases hrest : items b rest with
        | nil => rfl
        | cons d more =>
          rw [hrest] at hend
          exact absurd (hend d rfl) d.interfaceVerdict_ne_fail
      refine .inl ⟨nextInterface_none hsearch hcode,?_⟩
      rw [hitems,hnil,select_skip hpassed]
      rfl
    | @found passed _ rest hitems hpassed hq hrest hstop hless =>
      obtain ⟨i,hi,hclass⟩ := interfaceVerdict_found hq
      have hselect : select protocol pipes (interfaces (items b ps)) =
          select protocol pipes ((i,own (items b rest)) :: interfaces (items b rest)) := by
        rw [hitems,select_skip hpassed,hi,interfaces]
      have hlast : q.loc ≤ q.stop := Nat.le_add_right _ _
      have hprotocol : load b (q.loc + 7) = .ok i.protocol := by
        rw [load_inside (by omega),show i = interfaceAt b q.loc from read_of_item hi]
        rfl
      by_cases hwanted : protocol = 0 ∨ i.protocol = protocol
      · refine .inr ⟨q,rest,i,nextInterface_some hsearch ?_,hrest,hstop,hless,hi,⟨hclass,hwanted⟩,hselect⟩
        exact hwanted.imp_right fun h => by rw [hprotocol,h]
      · obtain ⟨hany,hother⟩ := not_or.mp hwanted
        rw [select,if_neg fun h : i.Wanted protocol => hwanted h.2] at hselect
        rw [nextInterface_next hsearch hany hprotocol hother,hselect]
        rcases ih hrest (by omega) (by omega) (by omega) with hnone | ⟨q',rest',i',hnext,hrest',hstop',hless',hfound⟩
        · exact .inl hnone
        · exact .inr ⟨q',rest',i',hnext,hrest',hstop'.trans hstop,Nat.lt_trans hless' hless,hfound⟩

end Searches

/-- The pointers of the search point to an interface and a HID descriptor and to the endpoints
that were taken. -/
structure HidSearch.Holds (b : Block) (stop : Nat) (i : InterfaceDescriptor) (reportLength : UInt16) (c : Endpoints) (s : HidSearch) :
    Prop where
  interface : ∃ loc ≤ stop, s.hidInterface = some loc ∧ i = interfaceAt b loc
  hid : ∃ loc ≤ stop, s.hidDescriptor = some loc ∧ reportLength = wordAt b (loc + 7)
  dataIN : c.dataIN = s.dataINEndpoint.map (endpointAt b)
  dataOUT : c.dataOUT = s.dataOUTEndpoint.map (endpointAt b)
  insideIN : ∀ loc ∈ s.dataINEndpoint, loc ≤ stop
  insideOUT : ∀ loc ∈ s.dataOUTEndpoint, loc ≤ stop

/-- What the search is left with, for what is to be selected. -/
inductive Finds (b : Block) (stop : Nat) : Option HidSelection → Except HidEnumError HidSearch → Prop
  | none : Finds b stop none (.error .noCompatibleInterfaceFound)
  | some {sel : HidSelection} {s : HidSearch}
      (h : s.Holds b stop sel.interface sel.reportLength ⟨some sel.dataIN,sel.dataOUT⟩) : Finds b stop (some sel) (.ok s)

section Turns
variable {b : Block} {p q : ConfigPos} {ps : List ConfigPos} {limit fuel : Nat} {protocol : UInt8} {pipes : Pipes}

theorem hidVerdict_found {d : ConfigItem} (h : d.hidVerdict = .found) : ∃ reportLength, d = .hid reportLength := by
  cases d with
  | hid reportLength => exact ⟨reportLength,rfl⟩
  | interface | endpoint | other => cases h

theorem own_of_fail {judge : ConfigItem → Verdict} (hjudge : ∀ d, judge d = .fail → d.isInterface = true) {items : List ConfigItem}
    (h : ∀ d ∈ items.head?, judge d = .fail) : own items = [] := by
  cases items with
  | nil => rfl
  | cons d items =>
    have hd := hjudge d (h d rfl)
    rw [own,List.takeWhile_cons,hd]
    rfl

theorem interface_of_hid_fail (d : ConfigItem) (h : d.hidVerdict = .fail) : d.isInterface = true := by
  cases d with
  | interface i => rfl
  | hid | endpoint | other => cases h

theorem interface_of_endpoint_fail (d : ConfigItem) (h : d.endpointVerdict pipes = .fail) : d.isInterface = true := by
  cases d with
  | interface i => rfl
  | endpoint e =>
    rw [endpointVerdict] at h
    split at h
    · cases h
    · cases h
  | hid | other => cases h

/-- The block that enters an interface finds the one that is to be tried next. -/
theorem enterInterface_ends (protocol : UInt8) (pipes : Pipes) (h : Descriptors b p ps) (hroom : p.stop + 9 ≤ b.length)
    (hlimit : ps.length < limit) :
    (enterInterface b protocol limit p = .ok (.error .noCompatibleInterfaceFound) ∧
      select protocol pipes (interfaces (items b ps)) = none) ∨
    ∃ s rest i reportLength, enterInterface b protocol limit p = .ok (.ok s) ∧ s.Holds b p.stop i reportLength ⟨none,none⟩ ∧
      Descriptors b s.pos rest ∧ s.pos.stop = p.stop ∧ rest.length < ps.length ∧
      select protocol pipes (interfaces (items b ps)) = resume protocol pipes i reportLength ⟨none,none⟩ (items b rest) := by
  rcases nextInterface_ends pipes h hroom hlimit hlimit with ⟨hnext,hnone⟩ | ⟨q,qs,i,hnext,hq,hstop,hless,hi,hwanted,hselect⟩
  · refine .inl ⟨?_,hnone⟩
    rw [enterInterface,hnext]
    rfl
  have hcomparator : ∀ loc ≤ q.stop, nextHIDDescriptor b loc = .ok (itemAt b loc).hidVerdict := fun loc hloc =>
    nextHIDDescriptor_eq (by omega)
  obtain ⟨code,r,hsearch,hended⟩ := search_ends hq hcomparator (by omega : qs.length < limit)
  rw [enterInterface,hnext,ok_bind]
  dsimp only
  rw [hsearch,ok_bind]
  rw [select,if_pos hwanted] at hselect
  cases hended with
  | @passed passed _ _ rest hcode hitems hpassed hend =>
    have hskip : ∀ d ∈ passed, d.isInterface = false := fun d hd => not_interface_of_hidVerdict (hpassed d hd)
    rw [hitems,own_skip hskip,own_of_fail interface_of_hid_fail hend,List.append_nil,← List.append_nil passed,
      behindHid_skip hpassed] at hselect
    exact .inl ⟨if_pos hcode,hselect⟩
  | @found passed _ rest hitems hpassed hr hrest hrstop hrless =>
    obtain ⟨reportLength,hhid⟩ := hidVerdict_found hr
    have hskip : ∀ d ∈ passed, d.isInterface = false := fun d hd => not_interface_of_hidVerdict (hpassed d hd)
    refine .inr ⟨⟨r,none,none,some q.loc,some r.loc⟩,rest,i,reportLength,rfl,?_,hrest,hrstop.trans hstop,Nat.lt_trans hrless hless,?_⟩
    · refine ⟨⟨q.loc,?_,rfl,read_of_item hi⟩,⟨r.loc,?_,rfl,read_of_item hhid⟩,rfl,rfl,?_,?_⟩
      · rw [← hstop]
        exact Nat.le_add_right _ _
      · rw [← hstop,← hrstop]
        exact Nat.le_add_right _ _
      · rintro loc ⟨⟩
      · rintro loc ⟨⟩
    · have hown : own (.hid reportLength :: items b rest) = .hid reportLength :: own (items b rest) := rfl
      rw [hselect,hitems,hhid,own_skip hskip,hown,behindHid_skip hpassed,interfaces_skip hskip]
      rfl

theorem endpointVerdict_found {d : ConfigItem} (h : d.endpointVerdict pipes = .found) :
    ∃ e, d = .endpoint e ∧ ¬ pipes.isEndpointBound e.endpointAddress = true := by
  cases d with
  | endpoint e =>
    rw [endpointVerdict] at h
    split at h
    · cases h
    · rename_i hfree
      exact ⟨e,rfl,hfree⟩
  | interface | hid | other => cases h

/-- The search with the endpoint at `q` taken. -/
def HidSearch.take (b : Block) (s : HidSearch) (q : ConfigPos) : HidSearch :=
  if (endpointAt b q.loc).endpointAddress &&& dirIn = dirIn then {s with pos := q, dataINEndpoint := some q.loc}
  else {s with pos := q, dataOUTEndpoint := some q.loc}

variable {s : HidSearch}

theorem searchEndpoints_take (hboth : ¬ (s.dataINEndpoint.isSome = true ∧ s.dataOUTEndpoint.isSome = true))
    (hsearch : nextEndpoint b pipes limit s = .ok (.found,q)) (hroom : q.loc + 2 < b.length) :
    searchEndpoints b protocol pipes limit (fuel + 1) s = searchEndpoints b protocol pipes limit fuel (s.take b q) := by
  rw [searchEndpoints,if_neg hboth,hsearch,ok_bind]
  refine (if_pos rfl).trans ?_
  rw [load_inside hroom,ok_bind,HidSearch.take]
  by_cases hdir : b.getD (q.loc + 2) 0 &&& dirIn = dirIn
  · rw [if_pos hdir]
    exact congrArg _ (if_pos hdir).symm
  · rw [if_neg hdir]
    exact congrArg _ (if_neg hdir).symm

section Leave
variable {code : SearchComp} (hboth : ¬ (s.dataINEndpoint.isSome = true ∧ s.dataOUTEndpoint.isSome = true))
  (hsearch : nextEndpoint b pipes limit s = .ok (code,q)) (hcode : code ≠ .found)
include hboth hsearch hcode

/-- The turns that leave an interface: with an IN endpoint, for no other one, or for the next one. -/
theorem searchEndpoints_done (hIN : s.dataINEndpoint.isSome = true) :
    searchEndpoints b protocol pipes limit (fuel + 1) s = .ok (.ok {s with pos := q}) := by
  rw [searchEndpoints,if_neg hboth,hsearch,ok_bind]
  refine (if_neg hcode).trans ?_
  rw [if_pos hIN]
  rfl

variable (hIN : ¬ s.dataINEndpoint.isSome = true)
include hIN

theorem searchEndpoints_fails {code : HidEnumError} (henter : enterInterface b protocol limit q = .ok (.error code)) :
    searchEndpoints b protocol pipes limit (fuel + 1) s = .ok (.error code) := by
  rw [searchEndpoints,if_neg hboth,hsearch,ok_bind]
  refine (if_neg hcode).trans ?_
  rw [if_neg hIN,henter]
  rfl

theorem searchEndpoints_enters {s' : HidSearch} (henter : enterInterface b protocol limit q = .ok (.ok s')) :
    searchEndpoints b protocol pipes limit (fuel + 1) s = searchEndpoints b protocol pipes limit fuel s' := by
  rw [searchEndpoints,if_neg hboth,hsearch,ok_bind]
  refine (if_neg hcode).trans ?_
  rw [if_neg hIN,henter]
  rfl

end Leave

theorem HidSearch.Holds.take {stop : Nat} {i : InterfaceDescriptor} {reportLength : UInt16} {c : Endpoints}
    (h : s.Holds b stop i reportLength c) (hq : q.loc ≤ stop) :
    (s.take b q).Holds b stop i reportLength (c.take (endpointAt b q.loc)) := by
  rw [HidSearch.take,Endpoints.take]
  split
  · refine ⟨h.interface,h.hid,rfl,h.dataOUT,?_,h.insideOUT⟩
    rintro loc ⟨⟩
    exact hq
  · refine ⟨h.interface,h.hid,h.dataIN,rfl,h.insideIN,?_⟩
    rintro loc ⟨⟩
    exact hq

theorem HidSearch.take_pos : (s.take b q).pos = q := by
  rw [HidSearch.take]
  split
  · rfl
  · rfl

theorem Endpoints.choose_both {c : Endpoints} (h : c.dataIN.isSome = true ∧ c.dataOUT.isSome = true) (es : List EndpointDescriptor) :
    c.choose es = c := by
  cases es with
  | nil => rfl
  | cons e es => rw [choose,if_pos h]

section Resume
variable {stop : Nat} {i : InterfaceDescriptor} {reportLength : UInt16} {c : Endpoints}

theorem HidSearch.Holds.isSomeIN (h : s.Holds b stop i reportLength c) : s.dataINEndpoint.isSome = c.dataIN.isSome := by
  rw [h.dataIN,Option.isSome_map]

theorem HidSearch.Holds.isSomeOUT (h : s.Holds b stop i reportLength c) : s.dataOUTEndpoint.isSome = c.dataOUT.isSome := by
  rw [h.dataOUT,Option.isSome_map]

theorem HidSearch.Holds.finds (h : s.Holds b stop i reportLength c) (hIN : c.dataIN.isSome = true) (otherwise : Option HidSelection) :
    Finds b stop ((c.selection i reportLength).or otherwise) (.ok s) := by
  obtain ⟨e,he⟩ := Option.isSome_iff_exists.mp hIN
  rw [Endpoints.selection,he]
  refine .some ⟨h.interface,h.hid,?_,h.dataOUT,h.insideIN,h.insideOUT⟩
  rw [← h.dataIN,he]

theorem resume_take {passed rest : List ConfigItem} {e : EndpointDescriptor} (hpassed : ∀ d ∈ passed, d.endpointVerdict pipes = .notFound)
    (hfree : ¬ pipes.isEndpointBound e.endpointAddress = true) (hboth : ¬ (c.dataIN.isSome = true ∧ c.dataOUT.isSome = true)) :
    resume protocol pipes i reportLength c (passed ++ .endpoint e :: rest) = resume protocol pipes i reportLength (c.take e) rest := by
  have hskip : ∀ d ∈ passed, d.isInterface = false := fun d hd => not_interface_of_endpointVerdict (hpassed d hd)
  have hown : own (.endpoint e :: rest) = .endpoint e :: own rest := rfl
  rw [resume,resume,own_skip hskip,hown,freeEndpoints_skip hpassed,freeEndpoints,if_neg hfree,Endpoints.choose,if_neg hboth,
    interfaces_skip hskip,interfaces]

theorem resume_end {passed rest : List ConfigItem} (hpassed : ∀ d ∈ passed, d.endpointVerdict pipes = .notFound)
    (hend : ∀ d ∈ rest.head?, d.endpointVerdict pipes = .fail) :
    resume protocol pipes i reportLength c (passed ++ rest) =
      (c.selection i reportLength).or (select protocol pipes (interfaces rest)) := by
  have hskip : ∀ d ∈ passed, d.isInterface = false := fun d hd => not_interface_of_endpointVerdict (hpassed d hd)
  rw [resume,own_skip hskip,own_of_fail interface_of_endpoint_fail hend,freeEndpoints_skip hpassed,interfaces_skip hskip]
  rfl

/-- From an interface that was entered, with the endpoints taken so far, the loop ends with what is
still to be selected. -/
theorem searchEndpoints_resume (hs : s.Holds b stop i reportLength c) (h : Descriptors b s.pos ps) (hstop : s.pos.stop = stop)
    (hroom : stop + 9 ≤ b.length) (hlimit : ps.length < limit) (hfuel : ps.length < fuel) :
    ∃ r, searchEndpoints b protocol pipes limit fuel s = .ok r ∧
      Finds b stop (resume protocol pipes i reportLength c (items b ps)) r := by
  induction fuel generalizing s ps i reportLength c with
  | zero => cases hfuel
  | succ fuel ih =>
    by_cases hboth : s.dataINEndpoint.isSome = true ∧ s.dataOUTEndpoint.isSome = true
    · refine ⟨.ok s,by rw [searchEndpoints,if_pos hboth]; rfl,?_⟩
      rw [hs.isSomeIN,hs.isSomeOUT] at hboth
      rw [resume,Endpoints.choose_both hboth]
      exact hs.finds hboth.1 _
    have hinterface : nextEndpoint b pipes limit s = getNextDescriptorComp b (nextHIDInterfaceEndpoint b pipes) limit s.pos := by
      obtain ⟨loc,-,hloc,-⟩ := hs.interface
      rw [nextEndpoint,hloc]
      rfl
    have hcomparator : ∀ loc ≤ s.pos.stop, nextHIDInterfaceEndpoint b pipes loc = .ok ((itemAt b loc).endpointVerdict pipes) :=
      fun loc hloc => nextHIDInterfaceEndpoint_eq pipes (by omega)
    obtain ⟨code,q,hsearch,hended⟩ := search_ends h hcomparator hlimit
    rw [← hinterface] at hsearch
    cases hended with
    | @found passed _ rest hitems hpassed hq hrest hqstop hless =>
      obtain ⟨e,he,hfree⟩ := endpointVerdict_found hq
      have hle : q.loc ≤ q.stop := Nat.le_add_right _ _
      rw [searchEndpoints_take hboth hsearch (by omega)]
      rw [hs.isSomeIN,hs.isSomeOUT] at hboth
      rw [hitems,he,resume_take hpassed hfree hboth,show e = endpointAt b q.loc from read_of_item he]
      refine ih (hs.take (by omega)) ?_ ?_ (by omega) (by omega)
      · rw [HidSearch.take_pos]
        exact hrest
      · rw [HidSearch.take_pos,hqstop,hstop]
    | @passed passed _ _ rest hcode hitems hpassed hend hrest hqstop hle =>
      rw [hitems,resume_end hpassed hend]
      by_cases hIN : s.dataINEndpoint.isSome = true
      · refine ⟨_,searchEndpoints_done hboth hsearch hcode hIN,?_⟩
        rw [hs.isSomeIN] at hIN
        have hleft : HidSearch.Holds b stop i reportLength c {s with pos := q} :=
          ⟨hs.interface,hs.hid,hs.dataIN,hs.dataOUT,hs.insideIN,hs.insideOUT⟩
        exact hleft.finds hIN _
      have hnone : c.selection i reportLength = none := by
        rw [hs.isSomeIN,Bool.not_eq_true,Option.isSome_eq_false_iff,Option.isNone_iff_eq_none] at hIN
        rw [Endpoints.selection,hIN]
        rfl
      rw [hnone,Option.none_or]
      rcases enterInterface_ends protocol pipes hrest (by omega) (by omega : rest.length < limit) with
        ⟨henter,hselect⟩ | ⟨s',rest',i',reportLength',henter,hs',hrest',hstop',hless,hselect⟩
      · rw [hselect]
        exact ⟨_,searchEndpoints_fails hboth hsearch hcode hIN henter,.none⟩
      · rw [hselect,searchEndpoints_enters hboth hsearch hcode hIN henter]
        rw [hqstop,hstop] at hs' hstop'
        exact ih hs' hrest' hstop' (by omega) (by omega)

end Resume

theorem searchEndpoints_ends (protocol : UInt8) (pipes : Pipes) (h : Descriptors b p ps) (hroom : p.stop + 9 ≤ b.length)
    (hlimit : ps.length < limit) (hfuel : ps.length < fuel) :
    ∃ r, searchEndpoints b protocol pipes limit (fuel + 1) ⟨p,none,none,none,none⟩ = .ok r ∧
      Finds b p.stop (select protocol pipes (interfaces (items b ps))) r := by
  have hnone : ¬ ((none : Option Nat).isSome = true ∧ (none : Option Nat).isSome = true) := fun h => Bool.noConfusion h.1
  have hsearch : nextEndpoint b pipes limit ⟨p,none,none,none,none⟩ = .ok (.endOfDescriptor,p) := rfl
  have hcode : SearchComp.endOfDescriptor ≠ .found := fun h => SearchComp.noConfusion h
  have hIN : ¬ (none : Option Nat).isSome = true := fun h => Bool.noConfusion h
  rcases enterInterface_ends protocol pipes h hroom hlimit with
    ⟨henter,hselect⟩ | ⟨s,rest,i,reportLength,henter,hs,hrest,hstop,hless,hselect⟩
  · rw [hselect]
    exact ⟨_,searchEndpoints_fails hnone hsearch hcode hIN henter,.none⟩
  · rw [hselect,searchEndpoints_enters hnone hsearch hcode hIN henter]
    exact searchEndpoints_resume hs hrest hstop hroom (by omega) (by omega)

end Turns

/-- The entry of the driver's table for an endpoint. -/
def PipeTable.bound (t : PipeTable) (e : EndpointDescriptor) : PipeTable :=
  {t with size := e.endpointSize, endpointAddress := e.endpointAddress, type := epTypeInterrupt}

namespace HidSelection

/-- The OUT entry of the table; it is left alone if there is no OUT endpoint. -/
def outEntry (t : PipeTable) (sel : HidSelection) : PipeTable := sel.dataOUT.elim t t.bound

def configuredOUT (cfgOk : Pipes → Nat → Bool) (t : PipeTable) (pipes : Pipes) (sel : HidSelection) : Bool × Pipes :=
  sel.dataOUT.elim (true,pipes) fun e => pipes.configurePipeTable cfgOk (t.bound e)

/-- Whether the pipes for the selection can be configured, and the pipes after the attempt. -/
def configured (cfgOk : Pipes → Nat → Bool) (h : HidHost) (pipes : Pipes) (sel : HidSelection) : Bool × Pipes :=
  let first := pipes.configurePipeTable cfgOk (h.dataINPipe.bound sel.dataIN)
  if first.1 then sel.configuredOUT cfgOk h.dataOUTPipe first.2 else first

/-- The driver's state for the selection. -/
def state (sel : HidSelection) : HidHostState :=
  ⟨true,sel.interface.interfaceNumber,sel.interface.subClass != nonBootProtocol,false,false,sel.reportLength,8⟩

end HidSelection

/-- The driver is set up for the selection; it is active if its pipes could be configured. -/
structure HidHost.Serves (before : HidHost) (sel : HidSelection) (active : Bool) (h : HidHost) : Prop where
  dataIN : h.dataINPipe = before.dataINPipe.bound sel.dataIN
  dataOUT : active = true → h.dataOUTPipe = sel.outEntry before.dataOUTPipe
  state : h.state = if active then sel.state else .clear

section Opening
variable {b : Block} {stop : Nat} {cfgOk : Pipes → Nat → Bool} {pipes : Pipes} {h : HidHost} {sel : HidSelection} {s : HidSearch}

theorem load16_inside {loc : Nat} (h : loc + 1 < b.length) : load16 b loc = .ok (wordAt b loc) := by
  rw [load16,load_inside (by omega),ok_bind,load_inside h]
  rfl

theorem bindPipe_eq (t : PipeTable) {loc : Nat} (h : loc + 5 < b.length) : bindPipe b t loc = .ok (t.bound (endpointAt b loc)) := by
  rw [bindPipe,load16_inside h,ok_bind,load_inside (by omega)]
  rfl

theorem openOUTPipe_eq (hs : s.Holds b stop sel.interface sel.reportLength ⟨some sel.dataIN,sel.dataOUT⟩) (hroom : stop + 9 ≤ b.length)
    (h : HidHost) (pipes : Pipes) :
    openOUTPipe cfgOk b h pipes s.dataOUTEndpoint =
      .ok ((sel.configuredOUT cfgOk h.dataOUTPipe pipes).1,{h with dataOUTPipe := sel.outEntry h.dataOUTPipe},
        (sel.configuredOUT cfgOk h.dataOUTPipe pipes).2) := by
  have hOUT : sel.dataOUT = s.dataOUTEndpoint.map (endpointAt b) := hs.dataOUT
  rw [HidSelection.configuredOUT,HidSelection.outEntry,hOUT]
  cases hloc : s.dataOUTEndpoint with
  | none => rfl
  | some loc =>
    have hinside := hs.insideOUT loc hloc
    rw [openOUTPipe,bindPipe_eq _ (by omega)]
    rfl

theorem activate_eq (hs : s.Holds b stop sel.interface sel.reportLength ⟨some sel.dataIN,sel.dataOUT⟩) (hroom : stop + 9 ≤ b.length)
    (h : HidHost) (hclear : h.state = .clear) : activate b h s = .ok {h with state := sel.state} := by
  obtain ⟨interface,hinterface,hpointer,hi⟩ := hs.interface
  obtain ⟨hid,hhid,hpointer',hlength⟩ := hs.hid
  rw [activate,hpointer,hpointer',pointer,ok_bind,load_inside (by omega),ok_bind,pointer,ok_bind,load16_inside (by omega),ok_bind,
    load_inside (by omega),HidSelection.state,hi,hlength,hclear]
  rfl

theorem openPipes_eq (cfgOk : Pipes → Nat → Bool) (pipes : Pipes)
    (hs : s.Holds b stop sel.interface sel.reportLength ⟨some sel.dataIN,sel.dataOUT⟩) (hroom : stop + 9 ≤ b.length)
    (h : HidHost) (hclear : h.state = .clear) :
    ∃ h', openPipes cfgOk b h pipes s = .ok (.noError,h',(sel.configured cfgOk h pipes).2) ∧
      h.Serves sel (sel.configured cfgOk h pipes).1 h' := by
  obtain ⟨locIN,hIN,heIN⟩ := Option.map_eq_some_iff.mp hs.dataIN.symm
  have hinside := hs.insideIN locIN hIN
  rw [openPipes,hIN,pointer,ok_bind,bindPipe_eq _ (by omega),ok_bind,heIN,HidSelection.configured]
  generalize pipes.configurePipeTable cfgOk (h.dataINPipe.bound sel.dataIN) = first
  obtain ⟨good,pipes⟩ := first
  cases good with
  | false => exact ⟨{h with dataINPipe := h.dataINPipe.bound sel.dataIN},rfl,rfl,fun h => Bool.noConfusion h,hclear⟩
  | true =>
    change ∃ h', (openOUTPipe cfgOk b {h with dataINPipe := h.dataINPipe.bound sel.dataIN} pipes s.dataOUTEndpoint >>= _) = _ ∧ _
    rw [openOUTPipe_eq hs hroom,ok_bind]
    dsimp only
    rw [if_pos rfl]
    generalize sel.configuredOUT cfgOk h.dataOUTPipe pipes = second
    obtain ⟨good,pipes⟩ := second
    cases good with
    | false => exact ⟨_,rfl,rfl,fun h => Bool.noConfusion h,hclear⟩
    | true =>
      refine ⟨⟨h.dataINPipe.bound sel.dataIN,sel.outEntry h.dataOUTPipe,h.hidInterfaceProtocol,sel.state⟩,?_,rfl,fun _ => rfl,rfl⟩
      change (activate b _ s >>= _) = _
      rw [activate_eq hs hroom ⟨h.dataINPipe.bound sel.dataIN,sel.outEntry h.dataOUTPipe,h.hidInterfaceProtocol,h.state⟩ hclear]
      rfl

end Opening

section Driver
variable {b : Block} {size : UInt16} {ps : List ConfigPos} {limit : Nat}

/-- For any bytes that a device has sent as its configuration descriptor, as long as no descriptor has
the size zero: the driver comes to an end and looks at no byte behind the block, and it is set up
for what is to be selected among the descriptors and the bytes behind the last one. -/
theorem configurePipes_selects (cfgOk : Pipes → Nat → Bool) (h : HidHost) (pipes : Pipes) (htype : b.getD 1 0 = dtypeConfiguration)
    (hdescriptors : Descriptors b ⟨size,0⟩ ps) (hroom : size.toNat + 9 ≤ b.length) (hlimit : ps.length + 1 < limit) :
    (select h.hidInterfaceProtocol pipes (interfaces (items b ps)) = none →
      configurePipes cfgOk b limit size h pipes = .ok (.noCompatibleInterfaceFound,{h with state := .clear},pipes)) ∧
    ∀ sel, select h.hidInterfaceProtocol pipes (interfaces (items b ps)) = some sel →
      ∃ h', configurePipes cfgOk b limit size h pipes = .ok (.noError,h',(sel.configured cfgOk h pipes).2) ∧
        h.Serves sel (sel.configured cfgOk h pipes).1 h' := by
  obtain ⟨fuel,rfl⟩ : ∃ fuel, limit = fuel + 1 := ⟨limit - 1,by omega⟩
  have hstop : (ConfigPos.mk size 0).stop = size.toNat := Nat.zero_add _
  obtain ⟨r,hsearch,hfinds⟩ := searchEndpoints_ends h.hidInterfaceProtocol pipes hdescriptors (by omega)
    (by omega : ps.length < fuel + 1) (by omega : ps.length < fuel)
  have hload : descriptorType b 0 = .ok dtypeConfiguration := by
    rw [← htype]
    exact load_inside (by omega)
  rw [configurePipes,hload,ok_bind,if_neg fun h => h rfl,hsearch,ok_bind]
  rw [hstop] at hfinds
  constructor
  · intro hnone
    rw [hnone] at hfinds
    cases hfinds with
    | none => rfl
  · intro sel hsome
    rw [hsome] at hfinds
    cases hfinds with
    | some hs =>
      obtain ⟨h',hopen,hserves⟩ := openPipes_eq cfgOk pipes hs hroom {h with state := .clear} rfl
      exact ⟨h',hopen,hserves.dataIN,hserves.dataOUT,hserves.state⟩

end Driver

end ArduinoAT90USB.Usb
