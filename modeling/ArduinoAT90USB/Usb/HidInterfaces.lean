import ArduinoAT90USB.Usb.HidHost

/-! Which interface `HID_Host_ConfigurePipes` chooses: the descriptors are cut at the interface
descriptors, and the interfaces are tried one after the other. -/
namespace ArduinoAT90USB.Usb
open Foundation.Memory Foundation.Cursor

/-- `USB_Descriptor_Interface_t`. -/
structure InterfaceDescriptor where
  interfaceNumber : UInt8
  cls : UInt8
  subClass : UInt8
  protocol : UInt8

/-- `USB_Descriptor_Endpoint_t`. -/
structure EndpointDescriptor where
  endpointAddress : UInt8
  endpointSize : UInt16

/-- A descriptor as far as the driver looks at it; of a HID descriptor it takes the report length. -/
inductive ConfigItem
  | interface (i : InterfaceDescriptor)
  | hid (reportLength : UInt16)
  | endpoint (e : EndpointDescriptor)
  | other

namespace ConfigItem

def isInterface : ConfigItem → Bool
  | .interface _ => true
  | _ => false

/-- The descriptors of an interface: those up to the next one. -/
def own (items : List ConfigItem) : List ConfigItem := items.takeWhile fun d => !d.isInterface

def interfaces : List ConfigItem → List (InterfaceDescriptor × List ConfigItem)
  | [] => []
  | .interface i :: rest => (i,own rest) :: interfaces rest
  | .hid _ :: rest | .endpoint _ :: rest | .other :: rest => interfaces rest

/-- The first HID descriptor's report length, and what is behind that descriptor. -/
def behindHid : List ConfigItem → Option (UInt16 × List ConfigItem)
  | [] => none
  | .hid reportLength :: rest => some (reportLength,rest)
  | .interface _ :: rest | .endpoint _ :: rest | .other :: rest => behindHid rest

/-- The endpoints that no pipe is bound to. -/
def freeEndpoints (pipes : Pipes) : List ConfigItem → List EndpointDescriptor
  | [] => []
  | .endpoint e :: rest =>
    if pipes.isEndpointBound e.endpointAddress then freeEndpoints pipes rest else e :: freeEndpoints pipes rest
  | .interface _ :: rest | .hid _ :: rest | .other :: rest => freeEndpoints pipes rest

end ConfigItem

/-- The endpoints that were taken so far. -/
structure Endpoints where
  dataIN : Option EndpointDescriptor
  dataOUT : Option EndpointDescriptor

namespace Endpoints

def take (c : Endpoints) (e : EndpointDescriptor) : Endpoints :=
  if e.endpointAddress &&& dirIn = dirIn then {c with dataIN := some e} else {c with dataOUT := some e}

/-- An endpoint takes the place of an earlier one, until there is one in each direction. -/
def choose (c : Endpoints) : List EndpointDescriptor → Endpoints
  | [] => c
  | e :: rest => if c.dataIN.isSome ∧ c.dataOUT.isSome then c else (c.take e).choose rest

end Endpoints

structure HidSelection where
  interface : InterfaceDescriptor
  reportLength : UInt16
  dataIN : EndpointDescriptor
  dataOUT : Option EndpointDescriptor

namespace InterfaceDescriptor

/-- A HID interface, with the protocol if one is asked for. -/
def Wanted (protocol : UInt8) (i : InterfaceDescriptor) : Prop := i.cls = hidClass ∧ (protocol = 0 ∨ i.protocol = protocol)

instance (protocol : UInt8) (i : InterfaceDescriptor) : Decidable (i.Wanted protocol) :=
  inferInstanceAs (Decidable (_ ∧ (_ ∨ _)))

end InterfaceDescriptor

/-- What is selected at an interface with these endpoints. -/
def Endpoints.selection (i : InterfaceDescriptor) (reportLength : UInt16) (c : Endpoints) : Option HidSelection :=
  c.dataIN.map fun e => ⟨i,reportLength,e,c.dataOUT⟩

open ConfigItem

/-- The first wanted interface that has an IN endpoint behind its HID descriptor. A wanted interface
without a HID descriptor ends the search. -/
def select (protocol : UInt8) (pipes : Pipes) : List (InterfaceDescriptor × List ConfigItem) → Option HidSelection
  | [] => none
  | (i,items) :: rest =>
    if i.Wanted protocol then
      match behindHid items with
      | none => none
      | some (reportLength,behind) =>
        ((Endpoints.choose ⟨none,none⟩ (freeEndpoints pipes behind)).selection i reportLength).or (select protocol pipes rest)
    else select protocol pipes rest

/-- What is still selected if these endpoints of an interface have been taken. -/
def resume (protocol : UInt8) (pipes : Pipes) (i : InterfaceDescriptor) (reportLength : UInt16) (c : Endpoints)
    (items : List ConfigItem) : Option HidSelection :=
  ((c.choose (freeEndpoints pipes (own items))).selection i reportLength).or (select protocol pipes (interfaces items))

section Reading
variable (b : Block) (loc : Nat)

def wordAt : UInt16 := (b.getD loc 0).toUInt16 ||| (b.getD (loc + 1) 0).toUInt16 <<< 8

def interfaceAt : InterfaceDescriptor := ⟨b.getD (loc + 2) 0,b.getD (loc + 5) 0,b.getD (loc + 6) 0,b.getD (loc + 7) 0⟩

def endpointAt : EndpointDescriptor := ⟨b.getD (loc + 2) 0,wordAt b (loc + 4)⟩

/-- The descriptor that begins at `loc`. -/
def itemAt : ConfigItem :=
  let type := b.getD (loc + 1) 0
  if type = dtypeInterface then .interface (interfaceAt b loc)
  else if type = hidDtypeHID then .hid (wordAt b (loc + 7))
  else if type = dtypeEndpoint then .endpoint (endpointAt b loc)
  else .other

end Reading

namespace ConfigItem

/-- What the three comparators say of a descriptor. -/
def interfaceVerdict : ConfigItem → Verdict
  | .interface i => if i.cls = hidClass then .found else .notFound
  | .hid _ | .endpoint _ | .other => .notFound

def hidVerdict : ConfigItem → Verdict
  | .hid _ => .found
  | .interface _ => .fail
  | .endpoint _ | .other => .notFound

def endpointVerdict (pipes : Pipes) : ConfigItem → Verdict
  | .endpoint e => if pipes.isEndpointBound e.endpointAddress then .notFound else .found
  | .interface _ => .fail
  | .hid _ | .other => .notFound

end ConfigItem

section Comparators
variable {b : Block} {loc : Nat}

theorem itemAt_interface (h : b.getD (loc + 1) 0 = dtypeInterface) : itemAt b loc = .interface (interfaceAt b loc) := if_pos h

theorem itemAt_hid (h : b.getD (loc + 1) 0 = hidDtypeHID) : itemAt b loc = .hid (wordAt b (loc + 7)) := by
  rw [itemAt,h]
  rfl

theorem itemAt_endpoint (h : b.getD (loc + 1) 0 = dtypeEndpoint) : itemAt b loc = .endpoint (endpointAt b loc) := by
  rw [itemAt,h]
  rfl

theorem itemAt_other (hinterface : b.getD (loc + 1) 0 ≠ dtypeInterface) (hhid : b.getD (loc + 1) 0 ≠ hidDtypeHID)
    (hendpoint : b.getD (loc + 1) 0 ≠ dtypeEndpoint) : itemAt b loc = .other := by
  rw [itemAt,if_neg hinterface,if_neg hhid,if_neg hendpoint]

theorem nextHIDInterface_eq (h : loc + 5 < b.length) : nextHIDInterface b loc = .ok (itemAt b loc).interfaceVerdict := by
  have htype : descriptorType b loc = .ok (b.getD (loc + 1) 0) := load_inside (by omega)
  rw [nextHIDInterface,htype,ok_bind]
  by_cases hinterface : b.getD (loc + 1) 0 = dtypeInterface
  · rw [if_pos hinterface,itemAt_interface hinterface,load_inside h,ok_bind]
    by_cases hclass : b.getD (loc + 5) 0 = hidClass
    · rw [if_pos hclass,interfaceVerdict,interfaceAt,if_pos hclass]
      rfl
    · rw [if_neg hclass,interfaceVerdict,interfaceAt,if_neg hclass]
      rfl
  · rw [if_neg hinterface,itemAt,if_neg hinterface]
    split
    · rfl
    · split <;> rfl

theorem nextHIDDescriptor_eq (h : loc + 1 < b.length) : nextHIDDescriptor b loc = .ok (itemAt b loc).hidVerdict := by
  have htype : descriptorType b loc = .ok (b.getD (loc + 1) 0) := load_inside h
  rw [nextHIDDescriptor,htype,ok_bind]
  by_cases hhid : b.getD (loc + 1) 0 = hidDtypeHID
  · rw [if_pos hhid,itemAt_hid hhid]
    rfl
  by_cases hinterface : b.getD (loc + 1) 0 = dtypeInterface
  · rw [if_neg hhid,if_pos hinterface,itemAt_interface hinterface]
    rfl
  · rw [if_neg hhid,if_neg hinterface,itemAt,if_neg hinterface,if_neg hhid]
    split <;> rfl

theorem nextHIDInterfaceEndpoint_eq (pipes : Pipes) (h : loc + 2 < b.length) :
    nextHIDInterfaceEndpoint b pipes loc = .ok ((itemAt b loc).endpointVerdict pipes) := by
  have htype : descriptorType b loc = .ok (b.getD (loc + 1) 0) := load_inside (by omega)
  rw [nextHIDInterfaceEndpoint,htype,ok_bind]
  by_cases hendpoint : b.getD (loc + 1) 0 = dtypeEndpoint
  · rw [if_pos hendpoint,itemAt_endpoint hendpoint,load_inside h,ok_bind]
    by_cases hbound : pipes.isEndpointBound (b.getD (loc + 2) 0) = true
    · rw [if_neg (not_not_intro hbound),endpointVerdict,endpointAt,if_pos hbound]
      rfl
    · rw [if_pos hbound,endpointVerdict,endpointAt,if_neg hbound]
      rfl
  by_cases hinterface : b.getD (loc + 1) 0 = dtypeInterface
  · rw [if_neg hendpoint,if_pos hinterface,itemAt_interface hinterface]
    rfl
  · rw [if_neg hendpoint,if_neg hinterface,itemAt,if_neg hinterface,if_neg hendpoint]
    split <;> rfl

/-- What a descriptor is read as, if it has the type for it. -/
def ConfigItem.ReadAt (b : Block) (loc : Nat) : ConfigItem → Prop
  | .interface i => i = interfaceAt b loc
  | .hid reportLength => reportLength = wordAt b (loc + 7)
  | .endpoint e => e = endpointAt b loc
  | .other => True

theorem itemAt_read (b : Block) (loc : Nat) : (itemAt b loc).ReadAt b loc := by
  rw [itemAt]
  split
  · rfl
  · split
    · rfl
    · split
      · rfl
      · trivial

theorem read_of_item {d : ConfigItem} (h : itemAt b loc = d) : d.ReadAt b loc := h ▸ itemAt_read b loc

end Comparators

section Lists
variable {protocol : UInt8} {pipes : Pipes} {passed : List ConfigItem}

theorem interfaces_skip (hpassed : ∀ d ∈ passed, d.isInterface = false) (rest : List ConfigItem) :
    interfaces (passed ++ rest) = interfaces rest := by
  refine skip (fun d rest hd => ?_) hpassed rest
  cases d with
  | interface i => cases hd
  | hid | endpoint | other => rfl

theorem own_skip (hpassed : ∀ d ∈ passed, d.isInterface = false) (rest : List ConfigItem) : own (passed ++ rest) = passed ++ own rest :=
  List.takeWhile_append_of_pos fun d hd => by rw [hpassed d hd]; rfl

theorem select_skip (hpassed : ∀ d ∈ passed, d.interfaceVerdict = .notFound) (rest : List ConfigItem) :
    select protocol pipes (interfaces (passed ++ rest)) = select protocol pipes (interfaces rest) := by
  refine skip (f := fun items => select protocol pipes (interfaces items)) (fun d rest hd => ?_) hpassed rest
  cases d with
  | interface i =>
    have hclass : i.cls ≠ hidClass := fun h => by
      rw [interfaceVerdict,if_pos h] at hd
      cases hd
    exact if_neg fun h => hclass h.1
  | hid | endpoint | other => rfl

theorem behindHid_skip (hpassed : ∀ d ∈ passed, d.hidVerdict = .notFound) (rest : List ConfigItem) :
    behindHid (passed ++ rest) = behindHid rest := by
  refine skip (fun d rest hd => ?_) hpassed rest
  cases d with
  | hid => cases hd
  | interface | endpoint | other => rfl

theorem freeEndpoints_skip (hpassed : ∀ d ∈ passed, d.endpointVerdict pipes = .notFound) (rest : List ConfigItem) :
    freeEndpoints pipes (passed ++ rest) = freeEndpoints pipes rest := by
  refine skip (fun d rest hd => ?_) hpassed rest
  cases d with
  | endpoint e =>
    refine if_pos (Classical.byContradiction fun hfree => ?_)
    rw [endpointVerdict,if_neg hfree] at hd
    cases hd
  | interface | hid | other => rfl

theorem not_interface_of_hidVerdict {d : ConfigItem} (h : d.hidVerdict = .notFound) : d.isInterface = false := by
  cases d with
  | interface i => cases h
  | hid | endpoint | other => rfl

theorem not_interface_of_endpointVerdict {d : ConfigItem} (h : d.endpointVerdict pipes = .notFound) : d.isInterface = false := by
  cases d with
  | interface i => cases h
  | hid | endpoint | other => rfl

end Lists

end ArduinoAT90USB.Usb
