import Mathlib.Tactic.Common

/-! The USB keyboard host: LUFA's event handlers and `getKeys` keep a status and an error code
in two fields. Events come between the calls of `getKeys` or from the USB tasks at its start. -/
namespace ArduinoAT90USB.Library

inductive LUFAErr
  | none
  | cfgDesc
  | dev
  | setCfg
  | setProto
  | hard
  | noMap
  | xmit
  | recv
  deriving DecidableEq

inductive LUFAStat
  | connected
  | notConnected
  | error
  deriving DecidableEq

/-- `KeyMapType`; a C++ enumeration can hold values that name no map. -/
inductive KeyMapType
  | none
  | usEnglish
  | undeclared (value : UInt16)
  deriving DecidableEq

def KeyMapType.Declared (map : KeyMapType) : Prop := map = .none ∨ map = .usEnglish

/-- `USB_Host_States_t`. -/
inductive HostState
  | waitForDevice
  | unattached
  | powered
  | poweredWaitForDeviceSettle
  | poweredWaitForConnect
  | poweredDoReset
  | poweredConfigPipe
  | default
  | defaultPostReset
  | defaultPostAddressSet
  | addressed
  | configured
  deriving DecidableEq

structure KeyDesc where
  raw : UInt8
  value : UInt8
  deriving DecidableEq

structure KeysPressed where
  status : LUFAStat
  map : KeyMapType
  modifier : UInt8
  keys : List KeyDesc

/-- `USB_KeyboardReport_Data_t`. -/
structure KeyboardReport where
  modifier : UInt8
  keyCode : Vector UInt8 6

private def keyPair (plain shifted : Char) : UInt8 × UInt8 := (plain.val.toUInt8,shifted.val.toUInt8)

/-- `m_usKeyMap`: what a key code gives without and with shift, from code 1 on. -/
def usKeyMap : List (UInt8 × UInt8) :=
  [List.replicate 3 (0,0),
   [keyPair 'a' 'A', keyPair 'b' 'B', keyPair 'c' 'C', keyPair 'd' 'D', keyPair 'e' 'E', keyPair 'f' 'F', keyPair 'g' 'G',
    keyPair 'h' 'H', keyPair 'i' 'I', keyPair 'j' 'J', keyPair 'k' 'K', keyPair 'l' 'L', keyPair 'm' 'M', keyPair 'n' 'N',
    keyPair 'o' 'O', keyPair 'p' 'P', keyPair 'q' 'Q', keyPair 'r' 'R', keyPair 's' 'S', keyPair 't' 'T', keyPair 'u' 'U',
    keyPair 'v' 'V', keyPair 'w' 'W', keyPair 'x' 'X', keyPair 'y' 'Y', keyPair 'z' 'Z'],
   [keyPair '1' '!', keyPair '2' '@', keyPair '3' '#', keyPair '4' '$', keyPair '5' '%', keyPair '6' '^', keyPair '7' '&',
    keyPair '8' '&', keyPair '9' '(', keyPair '0' ')'],
   -- enter, escape, backspace, tab, space
   [(10,10), (33,33), (10,10), (11,11), (32,32)],
   -- the hash mark and the grave accent both give ASCII 96 and a tilde
   [keyPair '-' '_', keyPair '=' '+', keyPair '[' '{', keyPair ']' '}', (92,124), (96,126), keyPair ';' ':', (39,34),
    (96,126), keyPair ',' '<', keyPair '.' '>', keyPair '/' '?'],
   -- caps lock, F1 to F12, print screen and the five keys after it
   List.replicate 19 (0,0),
   -- delete
   [(177,177)],
   List.replicate 7 (0,0),
   [keyPair '/' '/', keyPair '*' '*', keyPair '-' '-', keyPair '+' '+', (10,10), keyPair '1' '1', keyPair '2' '2',
    keyPair '3' '3', keyPair '4' '4', keyPair '5' '5', keyPair '6' '6', keyPair '7' '7', keyPair '8' '8', keyPair '9' '9',
    keyPair '0' '0', keyPair '.' '.', (92,124)],
   List.replicate 2 (0,0),
   [keyPair '=' '=']].flatten

/-- `HID_KEYBOARD_MODIFIER_LEFTSHIFT | HID_KEYBOARD_MODIFIER_RIGHTSHIFT`. -/
def shiftModifiers : UInt8 := 0x22

/-- The fields of `ArduinoLUFA` and `KeyboardHost`. -/
structure KeyboardHost where
  err : LUFAErr
  stat : LUFAStat
  map : KeyMapType

/-- `KeyHost` and LUFA's `USB_HostState`. -/
structure UsbHost where
  keyHost : KeyboardHost
  hostState : HostState

/-- What the LUFA calls of one enumeration return, 0 for success; `clearConfiguration` is the
`USB_Host_SetDeviceConfiguration(0)` after a refused boot protocol. -/
structure Enumeration where
  getConfigDescriptor : UInt8
  configurePipes : UInt8
  setConfiguration : UInt8
  setBootProtocol : UInt8
  clearConfiguration : UInt8

inductive HostEvent
  | deviceAttached
  | deviceUnattached
  | deviceEnumerationComplete (calls : Enumeration)
  | deviceEnumerationFailed (err suberr : UInt8)
  | hostError (err : UInt8)
  /-- LUFA's own state machine moves on. -/
  | hostState (next : HostState)

namespace KeyboardHost

/-- `KeyboardHost::KeyboardHost(c_map)`. -/
def construct (map : KeyMapType) : KeyboardHost := ⟨.none,.notConnected,map⟩

def record (stat : LUFAStat) (err : LUFAErr) (k : KeyboardHost) : KeyboardHost :=
  {k with stat := stat, err := err}

def mapKey (k : KeyboardHost) (code modifier : UInt8) (desc : KeyDesc) : KeyboardHost × KeyDesc :=
  let desc := {desc with raw := code}
  match k.map with
  | .none => (k,{desc with value := desc.raw})
  | .usEnglish =>
    if code.toNat > usKeyMap.length ∨ code = 0 then (k,desc)
    else
      let entry := usKeyMap.getD (code.toNat - 1) (0,0)
      (k,{desc with value := if modifier &&& shiftModifiers ≠ 0 then entry.2 else entry.1})
  | .undeclared _ => (k.record .error .noMap,desc)

def mapKeys (modifier : UInt8) : KeyboardHost → List UInt8 → List KeyDesc → KeyboardHost × List KeyDesc
  | k, code :: codes, desc :: descs =>
    let mapped := k.mapKey code modifier desc
    let rest := mapKeys modifier mapped.1 codes descs
    (rest.1,mapped.2 :: rest.2)
  | k, _, descs => (k,descs)

end KeyboardHost

namespace UsbHost

def start (map : KeyMapType) (hostState : HostState) : UsbHost := ⟨.construct map,hostState⟩

def record (stat : LUFAStat) (err : LUFAErr) (s : UsbHost) : UsbHost :=
  {s with keyHost := s.keyHost.record stat err}

/-- `USB_Host_SetDeviceConfiguration`, whose request returned `result`. -/
def setDeviceConfiguration (number result : UInt8) (s : UsbHost) : UsbHost :=
  if result = 0 then {s with hostState := if number = 0 then .addressed else .configured} else s

def deviceEnumerationComplete (calls : Enumeration) (s : UsbHost) : UsbHost :=
  if calls.getConfigDescriptor ≠ 0 then s.record .error .cfgDesc
  else if calls.configurePipes ≠ 0 then s.record .error .dev
  else
    let s := s.setDeviceConfiguration 1 calls.setConfiguration
    if calls.setConfiguration ≠ 0 then s.record .error .setCfg
    else if calls.setBootProtocol ≠ 0 then
      (s.record .error .setProto).setDeviceConfiguration 0 calls.clearConfiguration
    else s

def event (s : UsbHost) : HostEvent → UsbHost
  | .deviceAttached => s.record .connected .none
  | .deviceUnattached => s.record .notConnected .none
  | .deviceEnumerationComplete calls => s.deviceEnumerationComplete calls
  | .deviceEnumerationFailed _ _ => s.record .error .hard
  -- USB_Disable leaves USB_HostState as it is
  | .hostError _ => s.record .error .hard
  | .hostState next => {s with hostState := next}

/-- `getKeys`; `events` come from the USB tasks at its start, `report` is the report waiting. -/
def getKeys (s : UsbHost) (events : List HostEvent) (report : Option KeyboardReport) : UsbHost × KeysPressed :=
  let s := events.foldl event s
  let keys : KeysPressed := ⟨.connected,s.keyHost.map,0,List.replicate 6 ⟨0,0⟩⟩
  if s.keyHost.stat = .error then (s,{keys with status := .error})
  else if s.hostState ≠ .configured then (s,{keys with status := .notConnected})
  else
    let mapped := match report with
      | some report => s.keyHost.mapKeys report.modifier report.keyCode.toList keys.keys
      | none => (s.keyHost,keys.keys)
    let keys := {keys with keys := mapped.2}
    ({s with keyHost := mapped.1},if mapped.1.err ≠ .none then {keys with status := .error} else keys)

end UsbHost

inductive HostAction
  | event (e : HostEvent)
  | getKeys (events : List HostEvent) (report : Option KeyboardReport)

def UsbHost.step (s : UsbHost) : HostAction → UsbHost
  | .event e => s.event e
  | .getKeys events report => (s.getKeys events report).1

/-- The events an action delivers. -/
def HostAction.events : HostAction → List HostEvent
  | .event e => [e]
  | .getKeys events _ => events

/-- One of the four calls of an enumeration failed. -/
def Enumeration.Fails (calls : Enumeration) : Prop :=
  calls.getConfigDescriptor ≠ 0 ∨ calls.configurePipes ≠ 0 ∨ calls.setConfiguration ≠ 0 ∨ calls.setBootProtocol ≠ 0

instance (calls : Enumeration) : Decidable calls.Fails := inferInstanceAs (Decidable (_ ∨ _ ∨ _ ∨ _))

/-- An attached or unattached device starts afresh, a failure is recorded until then. -/
def errorRecorded (recorded : Bool) : HostEvent → Bool
  | .deviceAttached | .deviceUnattached => false
  | .deviceEnumerationComplete calls => recorded || decide calls.Fails
  | .deviceEnumerationFailed _ _ | .hostError _ => true
  | .hostState _ => recorded

/-- The fields agree with each other and with what was recorded. -/
structure UsbHost.Consistent (s : UsbHost) (recorded : Bool) : Prop where
  fields : s.keyHost.stat = .error ↔ s.keyHost.err ≠ .none
  recorded : s.keyHost.stat = .error ↔ recorded = true
  declared : s.keyHost.map.Declared

section Consistency
variable {s : UsbHost} {recorded : Bool}

private theorem record_error (h : s.Consistent recorded) {err : LUFAErr} (herr : err ≠ .none) :
    (s.record .error err).Consistent true :=
  ⟨iff_of_true rfl herr,iff_of_true rfl rfl,h.declared⟩

private theorem record_fresh (h : s.Consistent recorded) {stat : LUFAStat} (hstat : stat ≠ .error) :
    (s.record stat .none).Consistent false :=
  ⟨iff_of_false hstat (not_not_intro rfl),iff_of_false hstat Bool.false_ne_true,h.declared⟩

private theorem setDeviceConfiguration_keyHost (number result : UInt8) (s : UsbHost) :
    (s.setDeviceConfiguration number result).keyHost = s.keyHost := by
  unfold UsbHost.setDeviceConfiguration
  split <;> rfl

private theorem consistent_of_keyHost {t : UsbHost} (h : s.Consistent recorded) (ht : t.keyHost = s.keyHost) :
    t.Consistent recorded := by
  obtain ⟨hfields,hrecorded,hdeclared⟩ := h
  rw [← ht] at hfields hrecorded hdeclared
  exact ⟨hfields,hrecorded,hdeclared⟩

private theorem enumeration_consistent (h : s.Consistent recorded) (calls : Enumeration) :
    (s.deviceEnumerationComplete calls).Consistent (recorded || decide calls.Fails) := by
  have hset := consistent_of_keyHost h (setDeviceConfiguration_keyHost 1 calls.setConfiguration s)
  have failing (hf : calls.Fails) : (recorded || decide calls.Fails) = true := by
    rw [decide_eq_true hf,Bool.or_true]
  unfold UsbHost.deviceEnumerationComplete
  split
  next hget =>
    rw [failing (Or.inl hget)]
    exact record_error h LUFAErr.noConfusion
  next hget =>
    split
    next hpipes =>
      rw [failing (Or.inr (Or.inl hpipes))]
      exact record_error h LUFAErr.noConfusion
    next hpipes =>
      dsimp only
      split
      next hcfg =>
        rw [failing (Or.inr (Or.inr (Or.inl hcfg)))]
        exact record_error hset LUFAErr.noConfusion
      next hcfg =>
        split
        next hboot =>
          rw [failing (Or.inr (Or.inr (Or.inr hboot)))]
          exact consistent_of_keyHost (record_error hset LUFAErr.noConfusion) (setDeviceConfiguration_keyHost _ _ _)
        next hboot =>
          have hnot : ¬ calls.Fails := by
            rintro (hf | hf | hf | hf)
            · exact hget hf
            · exact hpipes hf
            · exact hcfg hf
            · exact hboot hf
          rwa [decide_eq_false hnot,Bool.or_false]

private theorem event_consistent (h : s.Consistent recorded) (e : HostEvent) :
    (s.event e).Consistent (errorRecorded recorded e) := by
  cases e with
  | deviceAttached => exact record_fresh h LUFAStat.noConfusion
  | deviceUnattached => exact record_fresh h LUFAStat.noConfusion
  | deviceEnumerationComplete calls => exact enumeration_consistent h calls
  | deviceEnumerationFailed err suberr => exact record_error h LUFAErr.noConfusion
  | hostError err => exact record_error h LUFAErr.noConfusion
  | hostState next => exact consistent_of_keyHost h rfl

private theorem events_consistent (h : s.Consistent recorded) (events : List HostEvent) :
    (events.foldl UsbHost.event s).Consistent (events.foldl errorRecorded recorded) := by
  induction events generalizing s recorded with
  | nil => exact h
  | cons e rest ih => exact ih (event_consistent h e)

theorem mapKey_declared {k : KeyboardHost} (h : k.map.Declared) (code modifier : UInt8) (desc : KeyDesc) :
    (k.mapKey code modifier desc).1 = k := by
  unfold KeyboardHost.mapKey
  rcases h with h | h <;> rw [h]
  dsimp only
  split <;> rfl

theorem mapKeys_declared {k : KeyboardHost} (h : k.map.Declared) (modifier : UInt8) (codes : List UInt8)
    (descs : List KeyDesc) : (k.mapKeys modifier codes descs).1 = k := by
  induction codes generalizing descs with
  | nil => rfl
  | cons code codes ih =>
    cases descs with
    | nil => rfl
    | cons desc descs =>
      change (KeyboardHost.mapKeys modifier (k.mapKey code modifier desc).1 codes descs).1 = k
      rw [mapKey_declared h,ih descs]

/-- With a declared map `getKeys` records nothing of its own, so that its error branches are
those of the events before it. -/
private theorem getKeys_spec (h : s.Consistent recorded) (events : List HostEvent) (report : Option KeyboardReport) :
    let after := events.foldl UsbHost.event s
    let result := s.getKeys events report
    result.1 = after ∧
      (after.keyHost.stat = .error → result.2.status = .error ∧ result.2.keys = List.replicate 6 ⟨0,0⟩) ∧
      (after.keyHost.stat ≠ .error → result.2.status ≠ .error ∧
        (result.2.status = .connected → after.hostState = .configured)) := by
  intro after result
  have hafter : after.Consistent _ := events_consistent h events
  have hresult : result = s.getKeys events report := rfl
  unfold UsbHost.getKeys at hresult
  rw [show events.foldl UsbHost.event s = after from rfl] at hresult
  by_cases hstat : after.keyHost.stat = .error
  · rw [if_pos hstat] at hresult
    rw [hresult]
    exact ⟨rfl,fun _ => ⟨rfl,rfl⟩,fun hne => absurd hstat hne⟩
  · have hnone : after.keyHost.err = .none := by
      by_contra herr
      exact hstat (hafter.fields.mpr herr)
    rw [if_neg hstat] at hresult
    by_cases hconf : after.hostState = .configured
    · rw [if_neg (not_not_intro hconf)] at hresult
      cases report with
      | none =>
        simp only [hnone, ne_eq, not_true, if_false] at hresult
        rw [hresult]
        exact ⟨rfl,fun he => absurd he hstat,fun _ => ⟨LUFAStat.noConfusion,fun _ => hconf⟩⟩
      | some report =>
        simp only [mapKeys_declared hafter.declared, hnone, ne_eq, not_true, if_false] at hresult
        rw [hresult]
        exact ⟨rfl,fun he => absurd he hstat,fun _ => ⟨LUFAStat.noConfusion,fun _ => hconf⟩⟩
    · rw [if_pos hconf] at hresult
      rw [hresult]
      exact ⟨rfl,fun he => absurd he hstat,fun _ => ⟨LUFAStat.noConfusion,LUFAStat.noConfusion⟩⟩

private theorem step_consistent (h : s.Consistent recorded) (a : HostAction) :
    (s.step a).Consistent (a.events.foldl errorRecorded recorded) := by
  cases a with
  | event e => exact event_consistent h e
  | getKeys events report =>
    change (s.getKeys events report).1.Consistent _
    rw [(getKeys_spec h events report).1]
    exact events_consistent h events

private theorem actions_consistent (h : s.Consistent recorded) (actions : List HostAction) :
    (actions.foldl UsbHost.step s).Consistent ((actions.flatMap HostAction.events).foldl errorRecorded recorded) := by
  induction actions generalizing s recorded with
  | nil => exact h
  | cons a rest ih =>
    rw [List.flatMap_cons,List.foldl_append]
    exact ih (step_consistent h a)

private theorem start_consistent {map : KeyMapType} (h : map.Declared) (hostState : HostState) :
    (UsbHost.start map hostState).Consistent false :=
  ⟨iff_of_false LUFAStat.noConfusion (not_not_intro rfl),iff_of_false LUFAStat.noConfusion Bool.false_ne_true,h⟩

end Consistency

/-- After any events and calls the status and the error agree; and whatever the next `getKeys`
meets, it reports an error exactly if one was recorded since the device was last attached or
unattached, with no keys, and a connection only in the configured state. -/
theorem getKeys_reports (map : KeyMapType) (h : map.Declared) (hostState : HostState) (actions : List HostAction) :
    let s := actions.foldl UsbHost.step (UsbHost.start map hostState)
    (s.keyHost.stat = .error ↔ s.keyHost.err ≠ .none) ∧
      ∀ events report,
        let delivered := actions.flatMap HostAction.events ++ events
        let result := s.getKeys events report
        (result.2.status = .error ↔ delivered.foldl errorRecorded false = true) ∧
          (result.2.status = .error → result.2.keys = List.replicate 6 ⟨0,0⟩) ∧
          (result.2.status = .connected → result.1.hostState = .configured) := by
  intro s
  have hs : s.Consistent _ := actions_consistent (start_consistent h hostState) actions
  refine ⟨hs.fields,fun events report => ?_⟩
  have hafter := events_consistent hs events
  obtain ⟨hstate,herror,hfine⟩ := getKeys_spec hs events report
  dsimp only
  rw [List.foldl_append,hstate,← hafter.recorded]
  by_cases hstat : (events.foldl UsbHost.event s).keyHost.stat = .error
  · obtain ⟨hstatus,hkeys⟩ := herror hstat
    refine ⟨iff_of_true hstatus hstat,fun _ => hkeys,fun hconn => ?_⟩
    rw [hstatus] at hconn
    exact LUFAStat.noConfusion hconn
  · obtain ⟨hstatus,hconn⟩ := hfine hstat
    exact ⟨iff_of_false hstatus hstat,fun he => absurd he hstatus,hconn⟩

/-- The keyboard refuses the boot protocol. -/
theorem getKeys_reports_refusal :
    let s := [HostAction.event .deviceAttached,.event (.deviceEnumerationComplete ⟨0,0,0,1,0⟩)].foldl UsbHost.step
      (.start .usEnglish .powered)
    (s.getKeys [] none).2.status = .error :=
  ((getKeys_reports .usEnglish (Or.inr rfl) .powered
    [.event .deviceAttached,.event (.deviceEnumerationComplete ⟨0,0,0,1,0⟩)]).2 [] none).1.mpr (by decide)

end ArduinoAT90USB.Library
