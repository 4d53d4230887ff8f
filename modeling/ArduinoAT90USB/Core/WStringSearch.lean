import ArduinoAT90USB.Core.WString

/-! The methods of `class String` that compare, search and take parts, and `replace` for
Strings, which searches as it edits. -/
namespace ArduinoAT90USB.Core
open Foundation Foundation.Memory Foundation.CString

namespace WString

/-- `buffer + i` as a pointer to read from. -/
def pointer (s : WString) (i : Nat) : Checked (List UInt8) := do
  let b ← deref s.buffer
  if i ≤ b.length then pure (b.drop i) else .error .bounds

/-- `buffer[i]`. -/
def get (s : WString) (i : Nat) : Checked UInt8 := do
  let b ← deref s.buffer
  load b i

def compareTo (s t : WString) : Checked Int := do
  if s.buffer.isNone ∨ t.buffer.isNone then
    if t.buffer.isSome ∧ t.len > 0 then pure (0 - (← t.get 0).toNat)
    else if s.buffer.isSome ∧ s.len > 0 then pure (← s.get 0).toNat
    else pure 0
  else strcmp (← s.pointer 0) (← t.pointer 0)

def equals (s t : WString) : Checked Bool := do
  if s.len = t.len then pure ((← s.compareTo t) == 0) else pure false

/-- `equals(const char *cstr)`. -/
def equalsCstr (s : WString) (cstr : Option (List UInt8)) : Checked Bool :=
  if s.len = 0 then
    match cstr with
    | none => pure true
    | some c => do pure ((← load c 0) == 0)
  else
    match cstr with
    | none => do pure ((← s.get 0) == 0)
    | some c => do pure ((← strcmp (← s.pointer 0) c) == 0)

/-- The loop of `equalsIgnoreCase`. -/
def sameIgnoringCase : List UInt8 → List UInt8 → Checked Bool
  | [], _ => .error .bounds
  | a :: s, t =>
    if a = 0 then pure true
    else match t with
      | [] => .error .bounds
      | b :: t => if tolower a ≠ tolower b then pure false else sameIgnoringCase s t

/-- `equalsIgnoreCase` of another object. -/
def equalsIgnoreCase (s t : WString) : Checked Bool := do
  if s.len ≠ t.len then pure false
  else if s.len = 0 then pure true
  else sameIgnoringCase (← s.pointer 0) (← t.pointer 0)

/-- `startsWith(s2, offset)`; the difference of the lengths is unsigned. -/
def startsWithAt (s t : WString) (offset : UInt16) : Checked Bool := do
  if offset > s.len - t.len ∨ s.buffer.isNone ∨ t.buffer.isNone then pure false
  else pure ((← strncmp t.len.toNat (← s.pointer offset.toNat) (← t.pointer 0)) == 0)

def startsWith (s t : WString) : Checked Bool :=
  if s.len < t.len then pure false else s.startsWithAt t 0

def endsWith (s t : WString) : Checked Bool := do
  if s.len < t.len ∨ s.buffer.isNone ∨ t.buffer.isNone then pure false
  else pure ((← strcmp (← s.pointer (s.len - t.len).toNat) (← t.pointer 0)) == 0)

/-- `charAt`, which is `operator[]`. -/
def charAt (s : WString) (loc : UInt16) : Checked UInt8 :=
  if loc ≥ s.len ∨ s.buffer.isNone then pure 0 else s.get loc.toNat

/-- `getBytes`, with the caller's buffer before and after. -/
def getBytes (s : WString) (buf : Option Block) (bufsize index : UInt16) : Checked (Option Block) :=
  match buf with
  | none => pure none
  | some buf =>
    if bufsize = 0 then pure (some buf)
    else if index ≥ s.len then some <$> store buf 0 0
    else do
      let n := if bufsize - 1 > s.len - index then s.len - index else bufsize - 1
      let buf ← strncpy n.toNat (← s.pointer index.toNat) buf 0
      some <$> store buf n.toNat 0

/-- A pointer difference as the `int` that is returned, or -1. -/
def position (start : Nat) : Option Nat → Int16
  | some i => Int16.ofNat (start + i)
  | none => -1

def indexOfChar (s : WString) (ch : UInt8) (fromIndex : UInt16) : Checked Int16 := do
  if fromIndex ≥ s.len then pure (-1)
  else pure (position fromIndex.toNat (← strchr ch (← s.pointer fromIndex.toNat)))

def indexOf (s t : WString) (fromIndex : UInt16) : Checked Int16 := do
  if fromIndex ≥ s.len then pure (-1)
  else
    let hay ← s.pointer fromIndex.toNat
    let needle ← t.pointer 0
    pure (position fromIndex.toNat (← strstr needle hay))

/-- The search is made on a buffer cut off after `fromIndex`, which is restored. -/
def lastIndexOfChar (s : WString) (ch : UInt8) (fromIndex : UInt16) : Checked (Int16 × WString) := do
  if fromIndex ≥ s.len then pure (-1, s)
  else
    let tempchar ← s.get (fromIndex + 1).toNat
    let cut ← s.put (fromIndex + 1).toNat 0
    let temp ← strrchr ch (← cut.pointer 0)
    let s ← cut.put (fromIndex + 1).toNat tempchar
    pure (position 0 temp, s)

/-- The `for` loop of `lastIndexOf`, from the index `p`. -/
def lastIndexLoop (needle b : List UInt8) (fromIndex : Nat) : Nat → Nat → Int16 → Checked Int16
  | 0, _, _ => .error .hang
  | fuel+1, p, found =>
    if p ≤ fromIndex then do
      match ← strstr needle (b.drop p) with
      | none => pure found
      | some i =>
        let found := if p + i ≤ fromIndex then Int16.ofNat (p + i) else found
        lastIndexLoop needle b fromIndex fuel (p + i + 1) found
    else pure found

def lastIndexOf (s t : WString) (fromIndex : UInt16) : Checked Int16 := do
  if t.len = 0 ∨ s.len = 0 ∨ t.len > s.len then pure (-1)
  else
    let fromIndex := if fromIndex ≥ s.len then s.len - 1 else fromIndex
    let b ← s.pointer 0
    let needle ← t.pointer 0
    lastIndexLoop needle b fromIndex.toNat (fromIndex.toNat + 2) 0 (-1)

/-- `out = buffer + left` with the buffer cut off at `right` meanwhile. -/
def copyRange (s out : WString) (left right : UInt16) : Alloc (WString × WString) := do
  let temp ← check (s.get right.toNat)
  let cut ← check (s.put right.toNat 0)
  let text ← check (cut.pointer left.toNat)
  let out ← out.assignCstr (some text)
  let s ← check (cut.put right.toNat temp)
  pure (out, s)

/-- `substring(left, right)` with its arguments in order: the new object and this one. -/
def substringOrdered (s : WString) (left right : UInt16) : Alloc (WString × WString) := do
  let out ← construct 10 (.cstr (some [0]))
  if left > s.len then pure (out, s)
  else s.copyRange out left (if right > s.len then s.len else right)

def substring (s : WString) (left right : UInt16) : Alloc (WString × WString) :=
  if left > right then s.substringOrdered right left else s.substringOrdered left right

/-- The digits of `atol`, modulo 2^32. -/
def atolDigits : List UInt8 → Int32 → Checked Int32
  | [], _ => .error .bounds
  | c :: s, v =>
    if 48 ≤ c ∧ c ≤ 57 then atolDigits s (v * 10 + Int32.ofNat (c.toNat - 48)) else .ok v

def atol : List UInt8 → Checked Int32
  | [] => .error .bounds
  | c :: s =>
    if isspace c then atol s
    else if c = '-'.toUInt8 then (- ·) <$> atolDigits s 0
    else if c = '+'.toUInt8 then atolDigits s 0
    else atolDigits (c :: s) 0

def toInt (s : WString) : Checked Int32 := do
  if s.buffer.isSome then atol (← s.pointer 0) else pure 0

def replaceEqual (needle text : List UInt8) (replaceLen : UInt16) : Nat → Block → Nat → Checked Block
  | 0, _, _ => .error .hang
  | fuel+1, b, readFrom => do
    match ← strstr needle (b.drop readFrom) with
    | none => pure b
    | some n =>
      let b ← memcpy replaceLen.toNat text b (readFrom + n)
      replaceEqual needle text replaceLen fuel b (readFrom + n + replaceLen.toNat)

/-- `replace` by a shorter text: everything moves down in one pass. -/
def replaceShorter (needle text : List UInt8) (findLen replaceLen diff : UInt16) :
    Nat → Block → UInt16 → Nat → Nat → Checked (Block × UInt16)
  | 0, _, _, _, _ => .error .hang
  | fuel+1, b, len, writeTo, readFrom => do
    match ← strstr needle (b.drop readFrom) with
    | none =>
      let b ← strcpyWithin (b.length + 1) b writeTo readFrom
      pure (b, len)
    | some n =>
      let b ← memcpyWithin n b writeTo readFrom
      let b ← memcpy replaceLen.toNat text b (writeTo + n)
      replaceShorter needle text findLen replaceLen diff fuel b (len + diff) (writeTo + n + replaceLen.toNat)
        (readFrom + n + findLen.toNat)

/-- The size of the result for a longer text. -/
def replaceSize (needle b : List UInt8) (findLen diff : UInt16) : Nat → Nat → UInt16 → Checked UInt16
  | 0, _, _ => .error .hang
  | fuel+1, readFrom, size => do
    match ← strstr needle (b.drop readFrom) with
    | none => pure size
    | some n => replaceSize needle b findLen diff fuel (readFrom + n + findLen.toNat) (size + diff)

/-- `replace` by a longer text, from the last occurrence to the first. -/
def replaceLonger (find : WString) (text : List UInt8) (replaceLen diff : UInt16) :
    Nat → WString → Int16 → Checked WString
  | 0, _, _ => .error .hang
  | fuel+1, s, index =>
    if index < 0 then pure s
    else do
      let index ← s.lastIndexOf find index.toUInt16
      if index < 0 then pure s
      else
        let readFrom := index.toUInt16.toNat + find.len.toNat
        let b ← deref s.buffer
        let b ← memmove (s.len - UInt16.ofNat readFrom).toNat b (readFrom + diff.toNat) readFrom
        let b ← store b (s.len + diff).toNat 0
        let b ← memcpy replaceLen.toNat text b index.toUInt16.toNat
        replaceLonger find text replaceLen diff fuel {s with buffer := some b, len := s.len + diff} (index - 1)

/-- `replace(const String& find, const String& replace)` for other objects; `diff` is an
`int` when its sign is looked at. -/
def replace (s find replace : WString) : Alloc WString := do
  if s.len = 0 ∨ find.len = 0 then pure s
  else
    let diff := replace.len - find.len
    let text := replace.buffer.getD []
    let b ← check (s.pointer 0)
    let needle ← check (find.pointer 0)
    if diff.toInt16 = 0 then
      let b ← check (replaceEqual needle text replace.len (b.length + 1) b 0)
      pure {s with buffer := some b}
    else if diff.toInt16 < 0 then
      let (b, len) ← check (replaceShorter needle text find.len replace.len diff (b.length + 1) b s.len 0 0)
      pure {s with buffer := some b, len := len}
    else
      let size ← check (replaceSize needle b find.len diff (b.length + 1) 0 s.len)
      if size = s.len then pure s
      else
        let (enough, s) ← if size > s.capacity then s.changeBuffer size else pure (true, s)
        if enough then check (replaceLonger find text replace.len diff (b.length + 1) s (s.len - 1).toInt16)
        else pure s

end WString

end ArduinoAT90USB.Core
