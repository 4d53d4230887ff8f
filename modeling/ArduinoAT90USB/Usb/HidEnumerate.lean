import Mathlib.Algebra.Ring.Nat
import Mathlib.Data.List.GetD
import Mathlib.Data.List.TakeWhile
import ArduinoAT90USB.Usb.HidSelect

/-! Configuration descriptors as a device should send them, with the bytes the buffer happens to hold
behind them: when these bytes do not matter, and when they do. -/
namespace ArduinoAT90USB.Usb
open Foundation.Memory Foundation.Cursor ConfigItem

/-- A descriptor that begins with its length. -/
structure ConfigDescriptor where
  bytes : List UInt8
  header : 2 ≤ bytes.length
  sized : (bytes.getD 0 0).toNat = bytes.length

namespace ConfigDescriptor

def layout (ds : List ConfigDescriptor) : Block := ds.flatMap bytes

def item (d : ConfigDescriptor) : ConfigItem := itemAt d.bytes 0

/-- The fields the driver reads are there. -/
def Complete (d : ConfigDescriptor) : Prop :=
  match d.item with
  | .interface _ => 8 ≤ d.bytes.length
  | .hid _ => 9 ≤ d.bytes.length
  | .endpoint _ => 6 ≤ d.bytes.length
  | .other => True

/-- The places behind the descriptors that begin at `loc`. -/
def places (loc : Nat) : List ConfigDescriptor → List ConfigPos
  | [] => []
  | d :: ds => ⟨UInt16.ofNat (layout ds).length,loc + d.bytes.length⟩ :: places (loc + d.bytes.length) ds

theorem layout_cons (d : ConfigDescriptor) (ds : List ConfigDescriptor) : layout (d :: ds) = d.bytes ++ layout ds := rfl

end ConfigDescriptor

open ConfigDescriptor

theorem ofNat_ne_zero {n : Nat} (hpos : 0 < n) (hsmall : n < 2 ^ 16) : UInt16.ofNat n ≠ 0 := by
  intro hzero
  have htoNat := congrArg UInt16.toNat hzero
  rw [UInt16.toNat_ofNat_of_lt' hsmall] at htoNat
  exact Nat.ne_of_gt hpos htoNat

section Layout

theorem getNextDescriptor_layout (pre post : Block) (d : ConfigDescriptor) (rest : Nat) (hsmall : d.bytes.length + rest < 2 ^ 16) :
    getNextDescriptor (pre ++ (d.bytes ++ post)) ⟨UInt16.ofNat (d.bytes.length + rest),pre.length⟩ =
      .ok ⟨UInt16.ofNat rest,pre.length + d.bytes.length⟩ := by
  have hheader := d.header
  have hload : load (pre ++ (d.bytes ++ post)) pre.length = .ok (d.bytes.getD 0 0) := by
    rw [load_inside (by rw [List.length_append,List.length_append]; omega),List.getD_append_right _ _ _ _ (Nat.le_refl _),
      Nat.sub_self,List.getD_append _ _ _ _ (by omega)]
  have hlength : d.bytes.length < UInt16.size := Nat.lt_of_le_of_lt (Nat.le_add_right _ rest) hsmall
  have hsize : (d.bytes.getD 0 0).toUInt16 = UInt16.ofNat d.bytes.length := by
    rw [← UInt16.toNat_inj,UInt8.toNat_toUInt16,d.sized,UInt16.toNat_ofNat_of_lt' hlength]
  have hle : ¬ UInt16.ofNat (d.bytes.length + rest) < UInt16.ofNat d.bytes.length := by
    rw [UInt16.lt_iff_toNat_lt,UInt16.toNat_ofNat_of_lt' hsmall,UInt16.toNat_ofNat_of_lt' hlength]
    omega
  rw [getNextDescriptor,hload,ok_bind,hsize,if_neg hle]
  have hrem : UInt16.ofNat (d.bytes.length + rest) - UInt16.ofNat d.bytes.length = UInt16.ofNat rest := by
    rw [Nat.add_comm,UInt16.ofNat_add,UInt16.add_sub_cancel]
  dsimp only
  rw [hrem,UInt16.toNat_ofNat_of_lt' hlength]
  rfl

theorem descriptors_layout (ds : List ConfigDescriptor) (hsmall : (layout ds).length < 2 ^ 16) (pre post : Block) :
    Descriptors (pre ++ (layout ds ++ post)) ⟨UInt16.ofNat (layout ds).length,pre.length⟩ (places pre.length ds) := by
  induction ds generalizing pre with
  | nil => exact .done rfl
  | cons d ds ih =>
    rw [layout_cons,List.length_append] at hsmall
    have hheader := d.header
    have hmore : ConfigPos.atEnd ⟨UInt16.ofNat (layout (d :: ds)).length,pre.length⟩ = false := by
      rw [layout_cons,List.length_append]
      exact decide_eq_false (ofNat_ne_zero (by omega) hsmall)
    have hrest := ih (by omega) (pre ++ d.bytes)
    rw [List.length_append,List.append_assoc,← List.append_assoc d.bytes] at hrest
    refine .move hmore ?_ hrest
    rw [layout_cons,List.append_assoc,List.length_append]
    exact getNextDescriptor_layout pre (layout ds ++ post) d (layout ds).length hsmall

theorem itemAt_behind (pre b : Block) : itemAt (pre ++ b) pre.length = itemAt b 0 := by
  simp only [itemAt,interfaceAt,endpointAt,wordAt,Nat.add_assoc,List.getD_append_right _ _ _ _ (Nat.le_add_right _ _),
    Nat.add_sub_cancel_left,Nat.zero_add]

theorem ConfigDescriptor.Complete.itemAt_append {d : ConfigDescriptor} (h : d.Complete) (post : Block) :
    itemAt (d.bytes ++ post) 0 = d.item := by
  have hheader := d.header
  have htype : (d.bytes ++ post).getD (0 + 1) 0 = d.bytes.getD (0 + 1) 0 := List.getD_append _ _ _ _ (by omega)
  rw [Complete] at h
  by_cases hinterface : d.bytes.getD (0 + 1) 0 = dtypeInterface
  · rw [item,itemAt_interface hinterface] at h ⊢
    rw [itemAt_interface (htype.trans hinterface)]
    dsimp only at h
    simp (disch := omega) only [interfaceAt,List.getD_append]
  by_cases hhid : d.bytes.getD (0 + 1) 0 = hidDtypeHID
  · rw [item,itemAt_hid hhid] at h ⊢
    rw [itemAt_hid (htype.trans hhid)]
    dsimp only at h
    simp (disch := omega) only [wordAt,List.getD_append]
  by_cases hendpoint : d.bytes.getD (0 + 1) 0 = dtypeEndpoint
  · rw [item,itemAt_endpoint hendpoint] at h ⊢
    rw [itemAt_endpoint (htype.trans hendpoint)]
    dsimp only at h
    simp (disch := omega) only [endpointAt,wordAt,List.getD_append]
  · rw [item,itemAt_other hinterface hhid hendpoint]
    exact itemAt_other (htype ▸ hinterface) (htype ▸ hhid) (htype ▸ hendpoint)

/-- The driver sees the descriptors behind the first one, and the bytes behind the last one as one more. -/
theorem items_layout {ds : List ConfigDescriptor} (hcomplete : ∀ d ∈ ds, d.Complete) (d : ConfigDescriptor) (pre stale : Block) :
    items (pre ++ (layout (d :: ds) ++ stale)) (places pre.length (d :: ds)) = ds.map item ++ [itemAt stale 0] := by
  induction ds generalizing d pre with
  | nil =>
    have hlast : pre ++ (layout [d] ++ stale) = (pre ++ d.bytes) ++ stale := by
      rw [layout_cons,List.append_assoc,List.append_assoc]
      rfl
    rw [hlast,places,places,items,List.map_singleton,← List.length_append]
    exact congrArg (fun x => [x]) (itemAt_behind _ _)
  | cons e ds ih =>
    obtain ⟨he,hmore⟩ := List.forall_mem_cons.mp hcomplete
    have hnext : pre ++ (layout (d :: e :: ds) ++ stale) = (pre ++ d.bytes) ++ (layout (e :: ds) ++ stale) := by
      rw [layout_cons,List.append_assoc,List.append_assoc]
    rw [hnext,places,items,List.map_cons,← List.length_append]
    have hfirst : itemAt ((pre ++ d.bytes) ++ (layout (e :: ds) ++ stale)) (pre ++ d.bytes).length = e.item := by
      rw [itemAt_behind,layout_cons,List.append_assoc,he.itemAt_append]
    exact congrArg₂ List.cons hfirst (ih hmore e (pre ++ d.bytes))

end Layout

section Stale
variable {protocol : UInt8} {pipes : Pipes}

theorem freeEndpoints_append (ds es : List ConfigItem) :
    freeEndpoints pipes (ds ++ es) = freeEndpoints pipes ds ++ freeEndpoints pipes es := by
  induction ds with
  | nil => rfl
  | cons d ds ih =>
    cases d with
    | endpoint e =>
      rw [List.cons_append,freeEndpoints,freeEndpoints,ih]
      split
      · rfl
      · rfl
    | interface | hid | other => exact ih

theorem freeEndpoints_of_not_endpoint {x : ConfigItem} (hx : ∀ e, x ≠ .endpoint e) : freeEndpoints pipes [x] = [] := by
  cases x with
  | endpoint e => exact absurd rfl (hx e)
  | interface | hid | other => rfl

theorem behindHid_append_of_some {ds rest : List ConfigItem} {reportLength : UInt16} (h : behindHid ds = some (reportLength,rest))
    (es : List ConfigItem) : behindHid (ds ++ es) = some (reportLength,rest ++ es) := by
  induction ds with
  | nil => cases h
  | cons d ds ih =>
    cases d with
    | hid n =>
      cases h
      rfl
    | interface | endpoint | other => exact ih h

theorem behindHid_append_of_none {ds : List ConfigItem} (h : behindHid ds = none) (es : List ConfigItem) :
    behindHid (ds ++ es) = behindHid es := by
  induction ds with
  | nil => rfl
  | cons d ds ih =>
    cases d with
    | hid n => cases h
    | interface | endpoint | other => exact ih h

/-- One more descriptor behind all others belongs to the last interface, if it is not one itself. -/
theorem own_append_singleton (ds : List ConfigItem) (x : ConfigItem) :
    own (ds ++ [x]) = own ds ∨ (own (ds ++ [x]) = ds ++ [x] ∧ own ds = ds ∧ interfaces ds = []) := by
  by_cases hall : ∀ d ∈ ds, d.isInterface = false
  · have hown : own ds = ds := by
      have h := own_skip hall []
      rw [List.append_nil] at h
      exact h.trans (List.append_nil ds)
    have hnone : interfaces ds = [] := by
      have h := interfaces_skip hall []
      rw [List.append_nil] at h
      exact h
    rw [own_skip hall]
    cases hx : x.isInterface with
    | true =>
      left
      rw [own,List.takeWhile_cons,hx,hown]
      exact List.append_nil ds
    | false =>
      right
      rw [own,List.takeWhile_cons,hx]
      exact ⟨rfl,hown,hnone⟩
  · left
    rw [own,List.takeWhile_append,if_neg fun hlength => hall ?_]
    · rfl
    · intro d hd
      have hself := ((List.takeWhile_prefix _).eq_of_length hlength)
      have hkept := List.takeWhile_eq_self_iff.mp hself d hd
      rwa [Bool.not_eq_true'] at hkept

/-- One more descriptor behind all others, if it is not an endpoint, does not change what is selected. -/
theorem select_append {x : ConfigItem} (hx : ∀ e, x ≠ .endpoint e) (ds : List ConfigItem) :
    select protocol pipes (interfaces (ds ++ [x])) = select protocol pipes (interfaces ds) := by
  induction ds with
  | nil =>
    cases x with
    | interface i =>
      change (if i.Wanted protocol then none else none) = none
      exact ite_self _
    | hid | other => rfl
    | endpoint e => exact absurd rfl (hx e)
  | cons d ds ih =>
    cases d with
    | interface i =>
      rw [List.cons_append,interfaces,interfaces,select,select,ih]
      rcases own_append_singleton ds x with hown | ⟨hown,hsame,hnone⟩
      · rw [hown]
      rw [hown,hsame,hnone]
      cases hbehind : behindHid ds with
      | none =>
        rw [behindHid_append_of_none hbehind]
        cases x with
        | hid n => rfl
        | interface | other => rfl
        | endpoint e => exact absurd rfl (hx e)
      | some found =>
        rw [behindHid_append_of_some hbehind]
        dsimp only
        rw [freeEndpoints_append,freeEndpoints_of_not_endpoint hx,List.append_nil]
    | hid | endpoint | other => exact ih

end Stale

/-- The block that holds the descriptors of a configuration and then bytes that are not part of it. -/
def configBlock (config : ConfigDescriptor) (ds : List ConfigDescriptor) (stale : Block) : Block := layout (config :: ds) ++ stale

theorem places_last (loc : Nat) (d : ConfigDescriptor) (ds : List ConfigDescriptor) :
    ∃ q ∈ places loc (d :: ds), q.loc = loc + (layout (d :: ds)).length := by
  induction ds generalizing loc d with
  | nil =>
    refine ⟨_,List.mem_cons_self,?_⟩
    rw [layout_cons,List.length_append]
    rfl
  | cons e ds ih =>
    obtain ⟨q,hq,hloc⟩ := ih (loc + d.bytes.length) e
    refine ⟨q,List.mem_cons_of_mem _ hq,?_⟩
    rw [hloc,layout_cons d,List.length_append,Nat.add_assoc]

section Enumeration
variable {config : ConfigDescriptor} {ds : List ConfigDescriptor} {stale : Block} {limit : Nat}

theorem places_length (loc : Nat) (ds : List ConfigDescriptor) : (places loc ds).length = ds.length := by
  induction ds generalizing loc with
  | nil => rfl
  | cons d ds ih => rw [places,List.length_cons,List.length_cons,ih]

/-- The driver is set up for what is selected among the descriptors and the bytes behind them. -/
theorem configurePipes_layout (cfgOk : Pipes → Nat → Bool) (h : HidHost) (pipes : Pipes)
    (hconfig : config.bytes.getD 1 0 = dtypeConfiguration)
    (hcomplete : ∀ d ∈ ds, d.Complete) (hsmall : (layout (config :: ds)).length < 2 ^ 16) (hstale : 9 ≤ stale.length)
    (hlimit : ds.length + 2 < limit) :
    (select h.hidInterfaceProtocol pipes (interfaces (ds.map item ++ [itemAt stale 0])) = none →
      configurePipes cfgOk (configBlock config ds stale) limit (UInt16.ofNat (layout (config :: ds)).length) h pipes =
        .ok (.noCompatibleInterfaceFound,{h with state := .clear},pipes)) ∧
    ∀ sel, select h.hidInterfaceProtocol pipes (interfaces (ds.map item ++ [itemAt stale 0])) = some sel →
      ∃ h', configurePipes cfgOk (configBlock config ds stale) limit (UInt16.ofNat (layout (config :: ds)).length) h pipes =
          .ok (.noError,h',(sel.configured cfgOk h pipes).2) ∧ h.Serves sel (sel.configured cfgOk h pipes).1 h' := by
  have hheader := config.header
  have htype : (configBlock config ds stale).getD 1 0 = dtypeConfiguration := by
    rw [configBlock,layout_cons,List.append_assoc,List.getD_append _ _ _ _ (by omega),hconfig]
  have hdescriptors : Descriptors (configBlock config ds stale) ⟨UInt16.ofNat (layout (config :: ds)).length,0⟩
      (places 0 (config :: ds)) :=
    descriptors_layout (config :: ds) hsmall [] stale
  have hroom : (UInt16.ofNat (layout (config :: ds)).length).toNat + 9 ≤ (configBlock config ds stale).length := by
    rw [UInt16.toNat_ofNat_of_lt' hsmall,configBlock,List.length_append]
    exact Nat.add_le_add_left hstale _
  have hitems : items (configBlock config ds stale) (places 0 (config :: ds)) = ds.map item ++ [itemAt stale 0] :=
    items_layout hcomplete config [] stale
  have hplaces : (places 0 (config :: ds)).length + 1 < limit := by
    rw [places_length,List.length_cons]
    exact hlimit
  rw [← hitems]
  exact configurePipes_selects cfgOk h pipes htype hdescriptors hroom hplaces

theorem itemAt_ne_endpoint {b : Block} (h : b.getD 1 0 ≠ dtypeEndpoint) (e : EndpointDescriptor) : itemAt b 0 ≠ .endpoint e := by
  rw [itemAt]
  split
  · exact fun h => ConfigItem.noConfusion h
  · split
    · exact fun h => ConfigItem.noConfusion h
    · exact fun h => ConfigItem.noConfusion h

/-- Endpoints that are all IN replace each other. -/
theorem Endpoints.choose_allIN (es : List EndpointDescriptor) (hIN : ∀ e ∈ es, e.endpointAddress &&& dirIn = dirIn)
    (first : Option EndpointDescriptor)
    {e : EndpointDescriptor} (he : e.endpointAddress &&& dirIn = dirIn) : Endpoints.choose ⟨first,none⟩ (es ++ [e]) = ⟨some e,none⟩ := by
  have hone (first : Option EndpointDescriptor) : ¬ (first.isSome = true ∧ (none : Option EndpointDescriptor).isSome = true) :=
    fun h => Bool.noConfusion h.2
  induction es generalizing first with
  | nil =>
    rw [List.nil_append,choose,if_neg (hone first),take,if_pos he]
    rfl
  | cons x es ih =>
    obtain ⟨hx,hmore⟩ := List.forall_mem_cons.mp hIN
    rw [List.cons_append,choose,if_neg (hone first),take,if_pos hx]
    exact ih hmore _

/-- A descriptor without a size that is passed by, behind others that are passed by. -/
theorem search_hangs {comparator : Nat → Checked Verdict} {more : Nat} (hmore : 0 < more) {post : Block} (ds : List ConfigDescriptor)
    (hsmall : (layout ds).length + more < 2 ^ 16) (pre : Block) (hpassed : ∀ q ∈ places pre.length ds, comparator q.loc = .ok .notFound)
    (hstuck : comparator (pre.length + (layout ds).length) = .ok .notFound) (fuel : Nat) :
    getNextDescriptorComp (pre ++ (layout ds ++ 0 :: post)) comparator fuel ⟨UInt16.ofNat ((layout ds).length + more),pre.length⟩ =
      .error .hang := by
  induction ds generalizing pre fuel with
  | nil => exact getNextDescriptorComp_stuck (ofNat_ne_zero (by omega) hsmall) (load_append pre post 0) hstuck fuel
  | cons d ds ih =>
    cases fuel with
    | zero => rfl
    | succ fuel =>
      rw [layout_cons,List.length_append] at hsmall
      have hheader := d.header
      obtain ⟨hd,hrest⟩ := List.forall_mem_cons.mp hpassed
      have hlength : (layout (d :: ds)).length + more = d.bytes.length + ((layout ds).length + more) := by
        rw [layout_cons,List.length_append,Nat.add_assoc]
      have hblock : pre ++ (layout (d :: ds) ++ 0 :: post) = (pre ++ d.bytes) ++ (layout ds ++ 0 :: post) := by
        rw [layout_cons,List.append_assoc,List.append_assoc]
      have hnext := getNextDescriptor_layout pre (layout ds ++ 0 :: post) d ((layout ds).length + more) (by omega)
      rw [← List.append_assoc] at hnext
      rw [hlength,hblock,getNextDescriptorComp,if_neg (ofNat_ne_zero (by omega) (by omega)),hnext,ok_bind,hd,ok_bind]
      rw [layout_cons,List.length_append,← Nat.add_assoc,← List.length_append] at hstuck
      have htail := ih (by omega) (pre ++ d.bytes) (by rw [List.length_append]; exact hrest) hstuck fuel
      rw [List.length_append] at htail
      exact htail

end Enumeration

/-- The descriptors of a boot keyboard. -/
def keyboardConfig : ConfigDescriptor := ⟨[9,2,34,0,1,1,0,0xA0,50],by decide,by decide⟩
def keyboardInterface : ConfigDescriptor := ⟨[9,4,0,0,1,3,1,1,0],by decide,by decide⟩
def keyboardHid : ConfigDescriptor := ⟨[9,0x21,0x11,1,0,1,0x22,63,0],by decide,by decide⟩
def keyboardEndpoint : ConfigDescriptor := ⟨[7,5,0x81,3,8,0,10],by decide,by decide⟩

/-- `Keyboard_HID_Interface`: the pipes 1 and 2, and the protocol of a boot keyboard. -/
def keyboardHIDInterface : HidHost := ⟨⟨0x81,1,0,0,0⟩,⟨2,1,0,0,0⟩,1,.clear⟩

theorem keyboard_complete : ∀ d ∈ [keyboardInterface,keyboardHid,keyboardEndpoint], d.Complete := by
  simp [Complete,item,itemAt,keyboardInterface,keyboardHid,keyboardEndpoint,dtypeInterface,hidDtypeHID,dtypeEndpoint]

def Pipes.reset : Pipes := Vector.replicate pipeTotalPipes ⟨0,0,0,0,false⟩

/-- For complete descriptors the driver is set up for what is selected among them, and the bytes behind
the last one do not matter unless they look like an endpoint descriptor. -/
theorem configurePipes_complete (cfgOk : Pipes → Nat → Bool) (h : HidHost) (pipes : Pipes) {config : ConfigDescriptor}
    {ds : List ConfigDescriptor} (stale : Block) (limit : Nat) (hconfig : config.bytes.getD 1 0 = dtypeConfiguration)
    (hcomplete : ∀ d ∈ ds, d.Complete) (hsmall : (layout (config :: ds)).length < 2 ^ 16) (hstale : 9 ≤ stale.length)
    (hbehind : stale.getD 1 0 ≠ dtypeEndpoint) (hlimit : ds.length + 2 < limit) :
    (select h.hidInterfaceProtocol pipes (interfaces (ds.map item)) = none →
      configurePipes cfgOk (configBlock config ds stale) limit (UInt16.ofNat (layout (config :: ds)).length) h pipes =
        .ok (.noCompatibleInterfaceFound,{h with state := .clear},pipes)) ∧
    ∀ sel, select h.hidInterfaceProtocol pipes (interfaces (ds.map item)) = some sel →
      ∃ h', configurePipes cfgOk (configBlock config ds stale) limit (UInt16.ofNat (layout (config :: ds)).length) h pipes =
          .ok (.noError,h',(sel.configured cfgOk h pipes).2) ∧ h.Serves sel (sel.configured cfgOk h pipes).1 h' := by
  rw [← select_append (itemAt_ne_endpoint hbehind) (ds.map item)]
  exact configurePipes_layout cfgOk h pipes hconfig hcomplete hsmall hstale hlimit

theorem configurePipes_complete_keyboard :
    ∃ h' pipes', configurePipes (fun _ _ => true)
      (configBlock keyboardConfig [keyboardInterface,keyboardHid,keyboardEndpoint] (List.replicate 9 0)) 6 34
      keyboardHIDInterface .reset = .ok (.noError,h',pipes') ∧ h'.dataINPipe.endpointAddress = 0x81 := by
  have hconfig : keyboardConfig.bytes.getD 1 0 = dtypeConfiguration := rfl
  have hcomplete := keyboard_complete
  obtain ⟨h',hrun,hserves⟩ := (configurePipes_complete (fun _ _ => true) keyboardHIDInterface .reset (List.replicate 9 0) 6 hconfig
    hcomplete
    (by decide) (by decide) (by decide) (by decide)).2
    ⟨⟨0,3,1,1⟩,63,⟨0x81,8⟩,none⟩ rfl
  exact ⟨h',_,hrun,by rw [hserves.dataIN]; rfl⟩

/-- If the HID interface is the last one and has only IN endpoints, bytes behind the configuration that
look like one more of them take the pipe: its endpoint address is read from these bytes. -/
theorem configurePipes_stale (cfgOk : Pipes → Nat → Bool) (h : HidHost) (pipes : Pipes) {config : ConfigDescriptor}
    {ds : List ConfigDescriptor} (stale : Block) (limit : Nat) (hconfig : config.bytes.getD 1 0 = dtypeConfiguration)
    (hcomplete : ∀ d ∈ ds, d.Complete) (hsmall : (layout (config :: ds)).length < 2 ^ 16) (hstale : 9 ≤ stale.length)
    (hlimit : ds.length + 2 < limit) {before own behind : List ConfigItem} {i : InterfaceDescriptor} {reportLength : UInt16}
    (hitems : ds.map item = before ++ .interface i :: own) (hbefore : ∀ d ∈ before, d.interfaceVerdict = .notFound)
    (hwanted : i.Wanted h.hidInterfaceProtocol) (hown : ∀ d ∈ own, d.isInterface = false)
    (hhid : behindHid own = some (reportLength,behind))
    (hIN : ∀ e ∈ freeEndpoints pipes behind, e.endpointAddress &&& dirIn = dirIn) (htype : stale.getD 1 0 = dtypeEndpoint)
    (hfree : pipes.isEndpointBound (stale.getD 2 0) = false) (hdir : stale.getD 2 0 &&& dirIn = dirIn) :
    ∃ h' pipes', configurePipes cfgOk (configBlock config ds stale) limit (UInt16.ofNat (layout (config :: ds)).length) h pipes =
      .ok (.noError,h',pipes') ∧ h'.dataINPipe.endpointAddress = stale.getD 2 0 := by
  have hphantom : itemAt stale 0 = .endpoint (endpointAt stale 0) := itemAt_endpoint htype
  have hselect : select h.hidInterfaceProtocol pipes (interfaces (ds.map item ++ [itemAt stale 0])) =
      some ⟨i,reportLength,endpointAt stale 0,none⟩ := by
    have hlast : ∀ d ∈ own ++ [ConfigItem.endpoint (endpointAt stale 0)], d.isInterface = false :=
      List.forall_mem_append.mpr ⟨hown,List.forall_mem_singleton.mpr rfl⟩
    have hall := own_skip hlast []
    rw [List.append_nil] at hall
    rw [hphantom,hitems,List.append_assoc,select_skip hbefore,List.cons_append,interfaces,select,if_pos hwanted,
      hall.trans (List.append_nil _),behindHid_append_of_some hhid]
    dsimp only
    rw [freeEndpoints_append]
    have hone : freeEndpoints pipes [ConfigItem.endpoint (endpointAt stale 0)] = [endpointAt stale 0] :=
      if_neg (by rw [show (endpointAt stale 0).endpointAddress = stale.getD 2 0 from rfl,hfree]; exact Bool.false_ne_true)
    rw [hone,Endpoints.choose_allIN _ hIN none hdir]
    rfl
  obtain ⟨h',hrun,hserves⟩ := (configurePipes_layout cfgOk h pipes hconfig hcomplete hsmall hstale hlimit).2 _ hselect
  refine ⟨h',_,hrun,?_⟩
  rw [hserves.dataIN]
  rfl

/-- The keyboard's endpoint is 0x81, but the driver is bound to 0x83. -/
theorem configurePipes_stale_keyboard :
    ∃ h' pipes', configurePipes (fun _ _ => true)
      (configBlock keyboardConfig [keyboardInterface,keyboardHid,keyboardEndpoint] [7,5,0x83,3,8,0,10,0,0])
      6 34 keyboardHIDInterface .reset = .ok (.noError,h',pipes') ∧ h'.dataINPipe.endpointAddress = 0x83 := by
  have hconfig : keyboardConfig.bytes.getD 1 0 = dtypeConfiguration := rfl
  have hitems : [keyboardInterface,keyboardHid,keyboardEndpoint].map item =
      [] ++ .interface ⟨0,3,1,1⟩ :: [.hid 63,.endpoint ⟨0x81,8⟩] := rfl
  refine configurePipes_stale (fun _ _ => true) keyboardHIDInterface .reset [7,5,0x83,3,8,0,10,0,0] 6 hconfig keyboard_complete
    (by decide)
    (by decide) (by decide) hitems (fun d hd => absurd hd List.not_mem_nil) ⟨rfl,.inr rfl⟩ ?_ rfl ?_ rfl rfl rfl
  · simp [isInterface]
  · have hfree : freeEndpoints .reset [.endpoint ⟨0x81,8⟩] = [⟨0x81,8⟩] := rfl
    rw [hfree]
    exact List.forall_mem_singleton.mpr rfl

/-- A device that sends a descriptor without a size before any HID interface, and which does not look
like one itself, keeps the host in the search forever. -/
theorem configurePipes_hangs (cfgOk : Pipes → Nat → Bool) (h : HidHost) (pipes : Pipes) {config : ConfigDescriptor}
    {ds : List ConfigDescriptor} (post : Block) (more : Nat) (hconfig : config.bytes.getD 1 0 = dtypeConfiguration)
    (hpassed : ∀ q ∈ places 0 (config :: ds), nextHIDInterface (configBlock config ds (0 :: post)) q.loc = .ok .notFound)
    (hmore : 0 < more) (hsmall : (layout (config :: ds)).length + more < 2 ^ 16) (limit : Nat) :
    configurePipes cfgOk (configBlock config ds (0 :: post)) limit (UInt16.ofNat ((layout (config :: ds)).length + more)) h pipes =
      .error .hang := by
  have hheader := config.header
  have hload : descriptorType (configBlock config ds (0 :: post)) 0 = .ok dtypeConfiguration := by
    have hroom : 0 + 1 < (configBlock config ds (0 :: post)).length := by
      rw [configBlock,layout_cons,List.length_append,List.length_append]
      omega
    rw [descriptorType,load_inside hroom,configBlock,layout_cons,List.append_assoc,List.getD_append _ _ _ _ (by omega),hconfig]
  have hstuck : nextHIDInterface (configBlock config ds (0 :: post)) (layout (config :: ds)).length = .ok .notFound := by
    obtain ⟨q,hq,hloc⟩ := places_last 0 config ds
    rw [← Nat.zero_add (layout _).length,← hloc]
    exact hpassed q hq
  have hsearch (fuel : Nat) : getNextDescriptorComp (configBlock config ds (0 :: post))
      (nextHIDInterface (configBlock config ds (0 :: post))) fuel ⟨UInt16.ofNat ((layout (config :: ds)).length + more),0⟩ =
        .error .hang := by
    refine search_hangs hmore (config :: ds) hsmall [] hpassed ?_ fuel
    rw [List.length_nil,Nat.zero_add]
    exact hstuck
  rw [configurePipes,hload,ok_bind,if_neg fun h => h rfl]
  cases limit with
  | zero => rfl
  | succ limit =>
    have henter (protocol : UInt8) : enterInterface (configBlock config ds (0 :: post)) protocol (limit + 1)
        ⟨UInt16.ofNat ((layout (config :: ds)).length + more),0⟩ = .error .hang := by
      rw [enterInterface,nextInterface,hsearch]
      rfl
    rw [searchEndpoints,if_neg fun h => Bool.noConfusion h.1]
    change (enterInterface _ _ _ _ >>= _) >>= _ = _
    rw [henter]
    rfl

theorem configurePipes_hangs_zeros :
    configurePipes (fun _ _ => true) (configBlock keyboardConfig [] (List.replicate 26 0)) 1000 34 keyboardHIDInterface .reset =
      .error .hang := by
  have hconfig : keyboardConfig.bytes.getD 1 0 = dtypeConfiguration := rfl
  have hpassed : ∀ q ∈ places 0 [keyboardConfig], nextHIDInterface (configBlock keyboardConfig [] (0 :: List.replicate 25 0)) q.loc =
      .ok .notFound := List.forall_mem_singleton.mpr rfl
  exact configurePipes_hangs (fun _ _ => true) keyboardHIDInterface .reset (List.replicate 25 0) 25 hconfig hpassed (by decide)
    (by decide) 1000

end ArduinoAT90USB.Usb
