import ArduinoAT90USB.Foundation.CString
import ArduinoAT90USB.Foundation.Numeral

/-! `class String` of `WString.cpp`. Methods pass the object explicitly and arguments that
are Strings are other objects. `unsigned int` and `size_t` have sixteen bits. -/
namespace ArduinoAT90USB.Core
open Foundation Foundation.Memory Foundation.CString Foundation.Numeral

structure WString where
  buffer : Option Block
  capacity : UInt16
  len : UInt16

/-- The built-in types a String can be made from or joined with. -/
inductive Number
  | uchar (v : UInt8)
  | int (v : Int16)
  | uint (v : UInt16)
  | long (v : Int32)
  | ulong (v : UInt32)

namespace Number

/-- `utoa` and `ultoa`: an unusable radix gives the empty text. -/
def unsignedText (n : Nat) (radix : UInt8) : List UInt8 :=
  if radix < 2 ∨ 36 < radix then []
  else (numeral radix.toNat n).map fun d => UInt8.ofNat (if d < 10 then d + 48 else d + 87)

/-- `itoa` and `ltoa`: only decimal numbers have a sign. -/
def signedText (negative : Bool) (magnitude bits : Nat) (radix : UInt8) : List UInt8 :=
  if radix = 10 ∧ negative then '-'.toUInt8 :: unsignedText magnitude radix else unsignedText bits radix

def text (radix : UInt8) : Number → List UInt8
  | uchar v => unsignedText v.toNat radix
  | int v => signedText (v < 0) (-v).toUInt16.toNat v.toUInt16.toNat radix
  | uint v => unsignedText v.toNat radix
  | long v => signedText (v < 0) (-v).toUInt32.toNat v.toUInt32.toNat radix
  | ulong v => unsignedText v.toNat radix

/-- The local `char buf[]` of the constructors. -/
def constructorRoom : Number → Nat
  | uchar _ => 9
  | int _ => 18
  | uint _ => 17
  | long _ => 34
  | ulong _ => 33

/-- The local `char buf[]` of `concat`. -/
def concatRoom : Number → Nat
  | uchar _ => 4
  | int _ => 7
  | uint _ => 6
  | long _ => 12
  | ulong _ => 11

end Number

def format (room : Nat) (text : List UInt8) : Checked Block :=
  if text.length < room then .ok (text ++ [0]) else .error .bounds

namespace WString

def init : WString := ⟨none,0,0⟩

/-- The buffer is freed; nothing else of the object is left. -/
def invalidate (_ : WString) : WString := ⟨none,0,0⟩

def changeBuffer (s : WString) (maxStrLen : UInt16) : Alloc (Bool × WString) := do
  match ← realloc s.buffer (maxStrLen + 1) with
  | some newbuffer => pure (true, {s with buffer := some newbuffer, capacity := maxStrLen})
  | none => pure (false, s)

def put (s : WString) (i : Nat) (c : UInt8) : Checked WString := do
  let b ← deref s.buffer
  let b ← store b i c
  pure {s with buffer := some b}

/-- `if (len == 0) buffer[0] = 0;` -/
def terminateEmpty (s : WString) : Checked WString := if s.len = 0 then s.put 0 0 else pure s

def reserve (s : WString) (size : UInt16) : Alloc (Bool × WString) := do
  if s.buffer.isSome ∧ s.capacity ≥ size then pure (true, s)
  else
    let (changed, s) ← s.changeBuffer size
    if changed then
      let s ← check s.terminateEmpty
      pure (true, s)
    else pure (false, s)

/-- `strcpy(buffer + i, cstr)`. -/
def putString (s : WString) (i : Nat) (cstr : List UInt8) : Checked WString := do
  let b ← deref s.buffer
  let b ← strcpy cstr b i
  pure {s with buffer := some b}

def copy (s : WString) (cstr : List UInt8) (length : UInt16) : Alloc WString := do
  let (reserved, s) ← s.reserve length
  if reserved then check ({s with len := length}.putString 0 cstr) else pure s.invalidate

/-- `operator = (const String &rhs)` for another object. -/
def assign (s rhs : WString) : Alloc WString :=
  match rhs.buffer with
  | some b => s.copy b rhs.len
  | none => pure s.invalidate

/-- `operator = (const char *cstr)`. -/
def assignCstr (s : WString) (cstr : Option (List UInt8)) : Alloc WString :=
  match cstr with
  | some c => do
    let length ← check (strlen c)
    s.copy c (UInt16.ofNat length)
  | none => pure s.invalidate

/-- `concat(const char *cstr, unsigned int length)`. -/
def concatBytes (s : WString) (cstr : Option (List UInt8)) (length : UInt16) : Alloc (Bool × WString) :=
  let newlen := s.len + length
  match cstr with
  | none => pure (false, s)
  | some c =>
    if length = 0 then pure (true, s)
    else do
      let (reserved, s) ← s.reserve newlen
      if reserved then
        let s ← check (s.putString s.len.toNat c)
        pure (true, {s with len := newlen})
      else pure (false, s)

end WString

/-- What a String can be made from, assigned or joined with. -/
inductive Operand
  | string (t : WString)
  | cstr (p : Option (List UInt8))
  | char (c : UInt8)
  | number (n : Number)

namespace WString

/-- The constructors; `base` matters for numbers only. -/
def construct (base : UInt8) : Operand → Alloc WString
  | .string t => init.assign t
  | .cstr p =>
    match p with
    | some c => do
      let length ← check (strlen c)
      init.copy c (UInt16.ofNat length)
    | none => pure init
  | .char c => init.assignCstr (some [c, 0])
  | .number n => do
    let buf ← check (format n.constructorRoom (n.text base))
    init.assignCstr (some buf)

/-- The public `concat` overloads. -/
def concat (s : WString) : Operand → Alloc (Bool × WString)
  | .string t => s.concatBytes t.buffer t.len
  | .cstr p =>
    match p with
    | none => pure (false, s)
    | some c => do
      let length ← check (strlen c)
      s.concatBytes (some c) (UInt16.ofNat length)
  | .char c => s.concatBytes (some [c, 0]) 1
  | .number n => do
    let buf ← check (format n.concatRoom (n.text 10))
    let length ← check (strlen buf)
    s.concatBytes (some buf) (UInt16.ofNat length)

/-- The `operator +` overloads, on the helper object that holds the left side. -/
def plus (s : WString) (x : Operand) : Alloc WString := do
  let (joined, s) ← s.concat x
  if joined then pure s else pure s.invalidate

def setCharAt (s : WString) (loc : UInt16) (c : UInt8) : Checked WString :=
  if loc < s.len then s.put loc.toNat c else pure s

/-- `for (char *p = buffer; *p; p++)` with an assignment to `*p`. -/
def forEachChar (s : WString) (f : UInt8 → UInt8) : Checked WString :=
  match s.buffer with
  | none => pure s
  | some b => do
    let b ← mapChars f b
    pure {s with buffer := some b}

def toLowerCase (s : WString) : Checked WString := s.forEachChar tolower
def toUpperCase (s : WString) : Checked WString := s.forEachChar toupper
def replaceChar (s : WString) (find replace : UInt8) : Checked WString :=
  s.forEachChar fun c => if c = find then replace else c

/-- `while (isspace(*begin)) begin++`. -/
def trimBegin : List UInt8 → Checked Nat
  | [] => .error .bounds
  | b :: s => if isspace b then (· + 1) <$> trimBegin s else .ok 0

/-- `while (isspace(*end) && end >= begin) end--`, on `end + 1`. -/
def trimEnd (b : Block) (begin : Nat) : Nat → Checked Nat
  | 0 => .error .bounds
  | last+1 => do
    if isspace (← load b last) ∧ begin ≤ last then trimEnd b begin last else pure (last + 1)

/-- `if (begin > buffer) memcpy(buffer, begin, len);` -/
def trimMove (b : Block) (len begin : Nat) : Checked Block :=
  if begin > 0 then memcpyWithin len b 0 begin else pure b

def trim (s : WString) : Checked WString :=
  match s.buffer with
  | none => pure s
  | some b =>
    if s.len = 0 then pure s
    else do
      let begin ← trimBegin b
      let stop ← trimEnd b begin s.len.toNat
      let len := UInt16.ofNat (stop - begin)
      let b ← trimMove b len.toNat begin
      let b ← store b len.toNat 0
      pure {s with buffer := some b, len := len}

end WString

end ArduinoAT90USB.Core
