import ArduinoAT90USB.Core.WStringParts
import ArduinoAT90USB.Foundation.Runs

/-! Programs over any number of Strings, with memory that may be refused at any request.
Beside the objects runs the text each of them stands for. -/
namespace ArduinoAT90USB.Core
open Foundation Foundation.Memory Foundation.CString Foundation.Runs Foundation.TaskLogic

/-- An argument, where a String is given by its place in the program. -/
inductive Arg
  | string (i : Nat)
  | cstr (p : Option (List UInt8))
  | char (c : UInt8)
  | number (n : Number)

/-- One call. `plus` is `operator +` on the helper object that holds the left side, and
`concat` is also `operator +=`. The new object of a constructor, or of `substring`, takes
the place `target`. -/
inductive StringOp
  | construct (target : Nat) (x : Arg) (base : UInt8)
  | assign (target i : Nat)
  | assignCstr (target : Nat) (p : Option (List UInt8))
  | concat (target : Nat) (x : Arg)
  | plus (target : Nat) (x : Arg)
  | reserve (target : Nat) (size : UInt16)
  | setCharAt (target : Nat) (loc : UInt16) (c : UInt8)
  | toLowerCase (target : Nat)
  | toUpperCase (target : Nat)
  | trim (target : Nat)
  | replaceChar (target : Nat) (find replace : UInt8)
  | substring (target source : Nat) (left right : UInt16)

/-- A list of bytes for each valid String. -/
abbrev Texts := Nat → Option (List UInt8)

def update {α : Type} (f : Nat → α) (target : Nat) (a : α) : Nat → α := fun i => if i = target then a else f i

namespace Arg

def operand (store : Nat → WString) : Arg → Operand
  | string i => .string (store i)
  | cstr p => .cstr p
  | char c => .char c
  | number n => .number n

def text (base : UInt8) (texts : Texts) : Arg → Option (List UInt8)
  | string i => texts i
  | cstr p => p.map (List.takeWhile (· ≠ 0))
  | char c => some [c]
  | number n => some (n.text base)

/-- Another String, a pointer to a C string or NULL, or a character other than NUL. -/
def Proper (target : Nat) : Arg → Prop
  | string i => i ≠ target
  | cstr (some c) => 0 ∈ c
  | cstr none => True
  | char c => c ≠ 0
  | number _ => True

instance (target : Nat) : (x : Arg) → Decidable (x.Proper target)
  | string i => inferInstanceAs (Decidable (i ≠ target))
  | cstr (some c) => inferInstanceAs (Decidable (0 ∈ c))
  | cstr none => inferInstanceAs (Decidable True)
  | char c => inferInstanceAs (Decidable (c ≠ 0))
  | number _ => inferInstanceAs (Decidable True)

end Arg

namespace StringOp

def run (store : Nat → WString) : StringOp → Alloc (Nat → WString)
  | construct target x base => do pure (update store target (← WString.construct base (x.operand store)))
  | assign target i => do pure (update store target (← (store target).assign (store i)))
  | assignCstr target p => do pure (update store target (← (store target).assignCstr p))
  | concat target x => do pure (update store target (← (store target).concat (x.operand store)).2)
  | plus target x => do pure (update store target (← (store target).plus (x.operand store)))
  | reserve target size => do pure (update store target (← (store target).reserve size).2)
  | setCharAt target loc c => do pure (update store target (← check ((store target).setCharAt loc c)))
  | toLowerCase target => do pure (update store target (← check (store target).toLowerCase))
  | toUpperCase target => do pure (update store target (← check (store target).toUpperCase))
  | trim target => do pure (update store target (← check (store target).trim))
  | replaceChar target find replace => do
    pure (update store target (← check ((store target).replaceChar find replace)))
  | substring target source left right => do
    let (out, s) ← (store source).substring left right
    pure (update (update store source s) target out)

/-- The same call on the texts; `ok` says that its last request for memory was granted. -/
def effect (ok : Bool) (texts : Texts) : StringOp → Texts
  | construct target x base => update texts target (if ok then x.text base texts else none)
  | assign target i => update texts target (if ok then texts i else none)
  | assignCstr target p => update texts target (if ok then (Arg.cstr p).text 10 texts else none)
  | concat target x => update texts target (WString.joined ok (texts target) (x.text 10 texts))
  | plus target x => update texts target (WString.summed ok (texts target) (x.text 10 texts))
  | reserve target _ => update texts target (if ok then some ((texts target).getD []) else texts target)
  | setCharAt target loc c => update texts target ((texts target).map fun t => t.set loc.toNat c)
  | toLowerCase target => update texts target ((texts target).map (List.map tolower))
  | toUpperCase target => update texts target ((texts target).map (List.map toupper))
  | trim target => update texts target ((texts target).map WString.trimmed)
  | replaceChar target find replace =>
    update texts target ((texts target).map (List.map fun c => if c = find then replace else c))
  | substring target source left right =>
    update texts target (if ok then (texts source).map (WString.slice · left right) else none)

/-- The text of an argument, or 0 for none. -/
def argLength (base : UInt8) (texts : Texts) (x : Arg) : Nat := ((x.text base texts).getD []).length

end StringOp

/-- The Strings of a program, the heap, and the texts, which no code reads. -/
structure StringProgram where
  store : Nat → WString
  heap : Heap
  texts : Texts
  fault : Option Fault

namespace StringProgram

/-- Before the first call there is nothing. -/
def start (outcome : Nat → Option (Nat → UInt8)) : StringProgram :=
  ⟨fun _ => .init,⟨outcome,0⟩,fun _ => none,none⟩

def step (m : StringProgram) (op : StringOp) : StringProgram :=
  match op.run m.store m.heap with
  | .ok store heap => {m with store := store, heap := heap, texts := op.effect (granted m.heap heap) m.texts}
  | .error f heap => {m with heap := heap, fault := some f}

/-- Proper arguments, no NUL among the characters, and lengths below 65535. -/
def Fits (m : StringProgram) : StringOp → Prop
  | .construct target x base => x.Proper target ∧ StringOp.argLength base m.texts x < 65535
  | .assign target i => i ≠ target
  | .assignCstr target p => (Arg.cstr p).Proper target ∧ StringOp.argLength 10 m.texts (.cstr p) < 65535
  | .concat target x | .plus target x =>
    x.Proper target ∧ ((m.texts target).getD []).length + StringOp.argLength 10 m.texts x < 65535
  | .reserve _ size => size.toNat < 65535
  | .setCharAt _ _ c | .replaceChar _ _ c => c ≠ 0
  | .toLowerCase _ | .toUpperCase _ | .trim _ => True
  | .substring target source _ _ => source ≠ target ∧ (m.texts source).isSome = true

/-- Nothing has gone wrong, and every String holds its text. -/
structure Represented (m : StringProgram) : Prop where
  safe : m.fault = none
  holds : ∀ i, (m.store i).Holds (m.texts i)

end StringProgram

private theorem denotes_arg {store : Nat → WString} {texts : Texts} (hstore : ∀ i, (store i).Holds (texts i))
    {target : Nat} {x : Arg} (hx : x.Proper target) (base : UInt8) :
    (x.operand store).Denotes base (x.text base texts) := by
  cases x with
  | string i => exact .string (hstore i)
  | char c => exact .char hx
  | number n => exact .number n
  | cstr p =>
    cases p with
    | none => exact .null
    | some c => exact .cstr (terminated_takeWhile hx)

namespace StringProgram
variable {m : StringProgram}

private theorem represented_update (hm : m.Represented) {op : StringOp} {target : Nat} {s : WString} {h : Heap}
    {w : Option (List UInt8)} (hrun : op.run m.store m.heap = .ok (update m.store target s) h)
    (heffect : op.effect (granted m.heap h) m.texts = update m.texts target w) (hs : s.Holds w) :
    (m.step op).Represented := by
  rw [step, hrun]
  refine ⟨hm.safe,fun i => ?_⟩
  dsimp only
  rw [heffect]
  unfold update
  split_ifs
  · exact hs
  · exact hm.holds i

private theorem represented_check (hm : m.Represented) {op : StringOp} {target : Nat} {w : Option (List UInt8)}
    {x : Checked WString} (hop : op.run m.store = do pure (update m.store target (← check x)))
    (heffect : ∀ ok, op.effect ok m.texts = update m.texts target w) (hx : ∃ s, x = .ok s ∧ s.Holds w) :
    (m.step op).Represented := by
  obtain ⟨s,hs,hholds⟩ := hx
  refine represented_update hm (h := m.heap) ?_ (heffect _) hholds
  rw [hop, check_bind hs]
  rfl

theorem Represented.step (hm : m.Represented) (op : StringOp) (hfit : m.Fits op) : (m.step op).Represented := by
  have hholds := hm.holds
  cases op with
  | construct target x base =>
    obtain ⟨h,s,hrun,hs⟩ := WString.construct_spec (denotes_arg hholds hfit.1 base) hfit.2 m.heap
    exact represented_update hm (bind_ok hrun _) rfl hs
  | assign target i =>
    obtain ⟨h,s,hrun,hs⟩ := WString.assign_spec (hholds target) (hholds i) m.heap
    exact represented_update hm (bind_ok hrun _) rfl hs
  | assignCstr target p =>
    cases p with
    | none => exact represented_update hm rfl (congrArg (update m.texts target) (ite_self none)) .invalid
    | some c =>
      obtain ⟨h,s,hrun,_,hs⟩ := WString.assignCstr_spec (hholds target) (terminated_takeWhile hfit.1) hfit.2 m.heap
      exact represented_update hm (bind_ok hrun _) rfl hs
  | concat target x =>
    obtain ⟨h,s,hrun,hs⟩ := WString.concat_spec (hholds target) (denotes_arg hholds hfit.1 10) hfit.2 m.heap
    exact represented_update hm (bind_ok hrun _) rfl hs
  | plus target x =>
    obtain ⟨h,s,hrun,hs⟩ := WString.plus_spec (hholds target) (denotes_arg hholds hfit.1 10) hfit.2 m.heap
    exact represented_update hm (bind_ok hrun _) rfl hs
  | reserve target size =>
    obtain ⟨h,s,hrun,hs⟩ := WString.reserve_holds (hholds target) hfit m.heap
    exact represented_update hm (bind_ok hrun _) rfl hs
  | setCharAt target loc c =>
    exact represented_check hm rfl (fun _ => rfl) (WString.setCharAt_spec (hholds target) loc hfit)
  | toLowerCase target =>
    exact represented_check hm rfl (fun _ => rfl) (WString.forEachChar_spec (hholds target) tolower_ne_zero)
  | toUpperCase target =>
    exact represented_check hm rfl (fun _ => rfl) (WString.forEachChar_spec (hholds target) toupper_ne_zero)
  | trim target => exact represented_check hm rfl (fun _ => rfl) (WString.trim_spec (hholds target))
  | replaceChar target find replace =>
    refine represented_check hm rfl (fun _ => rfl) (WString.forEachChar_spec (hholds target) fun c hc => ?_)
    split_ifs
    · exact hfit
    · exact hc
  | substring target source left right =>
    obtain ⟨t,ht⟩ := Option.isSome_iff_exists.mp hfit.2
    have hsource := hholds source
    rw [ht] at hsource
    obtain ⟨h,out,hrun,hs⟩ := WString.substring_spec hsource left right m.heap
    have hsame : update m.store source (m.store source) = m.store := by
      funext i
      unfold update
      split_ifs with hi
      · rw [hi]
      · rfl
    refine represented_update hm (h := h) ((bind_ok hrun _).trans ?_) (congrArg (update m.texts target) ?_) hs
    · dsimp only
      rw [hsame]
      rfl
    · rw [ht]
      rfl

end StringProgram

/-- Whatever is called and whatever memory is refused, every String is invalid or holds
exactly the text it should, in a block of the right size. -/
theorem strings_represented (outcome : Nat → Option (Nat → UInt8)) (ops : List StringOp)
    (h : Admits StringProgram.step StringProgram.Fits (.start outcome) ops) :
    Always StringProgram.step StringProgram.Represented (.start outcome) ops :=
  h.always (fun _ op hm hfit => hm.step op hfit) ⟨rfl,fun _ => .invalid⟩

/-- The second of three requests is refused: the first String stays as it is. -/
theorem strings_represented_refused :
    Admits StringProgram.step StringProgram.Fits (.start fun i => if i = 1 then none else some fun _ => 7)
        [.construct 0 (.cstr (some [32, 97, 0])) 10,.concat 0 (.char 98),.construct 1 (.string 0) 10,.trim 1] ∧
      Always StringProgram.step StringProgram.Represented (.start fun i => if i = 1 then none else some fun _ => 7)
        [.construct 0 (.cstr (some [32, 97, 0])) 10,.concat 0 (.char 98),.construct 1 (.string 0) 10,.trim 1] := by
  have h : Admits StringProgram.step StringProgram.Fits (.start fun i => if i = 1 then none else some fun _ => 7)
      [.construct 0 (.cstr (some [32, 97, 0])) 10,.concat 0 (.char 98),.construct 1 (.string 0) 10,.trim 1] := by
    refine ⟨⟨?_,?_⟩,⟨?_,?_⟩,⟨?_,?_⟩,trivial,trivial⟩
    all_goals decide
  exact ⟨h,strings_represented _ _ h⟩

end ArduinoAT90USB.Core
