import ArduinoAT90USB.Foundation.PacketQueue

/-! The two CDC data endpoints. `out` is what the host delivers, its head being the bank
the processor may read; `fuse` says how long the host stays: `none` for ever, `some n`
for `n` more waits on the IN endpoint or until the packets are used up. -/
namespace ArduinoAT90USB.Bootloader
open Foundation

def cdcTxrxEpsize : Nat := 16

structure Usb where
  out : List (List UInt8)
  inBank : List UInt8
  inReady : Bool
  sent : List (List UInt8)
  fuse : Option Nat

namespace Usb

/-- Nothing written to the IN bank yet, the host present, and `packets` on their way. -/
def attached (packets : List (List UInt8)) : Usb := ⟨packets, [], true, [], none⟩

def isOutReceived (u : Usb) : Bool := !u.out.isEmpty

/-- `Endpoint_ClearOUT`: the bank is released together with whatever is unread in it. -/
def clearOut (u : Usb) : Usb := {u with out := u.out.tail}

/-- `Endpoint_IsReadWriteAllowed` with the IN endpoint selected. -/
def isInAllowed (u : Usb) : Bool := u.inReady && decide (u.inBank.length < cdcTxrxEpsize)

/-- `Endpoint_ClearIN`; the bank is not the processor's again until the host has read it. -/
def clearIn (u : Usb) : Usb :=
  if u.inReady then {u with sent := u.sent ++ [u.inBank], inBank := [], inReady := false} else u

/-- The host is gone: the packet in the bank stays, no other one arrives. -/
def unattach (u : Usb) : Usb := {u with out := u.out.take 1, fuse := some 0}

/-- The loop on `Endpoint_IsINReady`; `false` when it saw `DEVICE_STATE_Unattached`. -/
def awaitIn (u : Usb) : Bool × Usb :=
  if u.inReady then (true, u)
  else match u.fuse with
    | none => (true, {u with inReady := true})
    | some (n+1) => (true, {u with inReady := true, fuse := some n})
    | some 0 => (false, u.unattach)

def write8 (b : UInt8) (u : Usb) : Usb := {u with inBank := u.inBank ++ [b]}

def writeNextResponseByte (b : UInt8) (u : Usb) : Usb :=
  if u.isInAllowed then u.write8 b
  else match u.clearIn.awaitIn with
    | (true, v) => v.write8 b
    | (false, v) => v

/-- The end of `CDC_Task`: send the bank, an empty packet after a full one, and release
the command's packet once the host has read everything. -/
def finishResponse (u : Usb) : Usb :=
  let isEndpointFull := !u.isInAllowed
  let first := if isEndpointFull then
      match u.clearIn.awaitIn with
      | (true, v) => (true, v.clearIn)
      | (false, v) => (false, v)
    else (true, u.clearIn)
  match first with
  | (false, v) => v
  | (true, v) => match v.awaitIn with
    | (false, w) => w
    | (true, w) => w.clearOut

theorem clearIn_out (u : Usb) : u.clearIn.out = u.out := by
  unfold clearIn
  split <;> rfl

theorem clearIn_fuse (u : Usb) : u.clearIn.fuse = u.fuse := by
  unfold clearIn
  split <;> rfl

theorem awaitIn_present {u : Usb} (h : u.fuse = none) : u.awaitIn = (true, {u with inReady := true}) := by
  unfold awaitIn
  split
  · rename_i hready
    rcases u with ⟨out,bank,ready,sent,fuse⟩
    cases hready
    rfl
  · rw [h]

end Usb

end ArduinoAT90USB.Bootloader
