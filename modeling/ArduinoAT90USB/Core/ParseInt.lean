import ArduinoAT90USB.Core.Print
import ArduinoAT90USB.Core.Stream

/-! `Stream::parseInt`, and that it reads back what `Print` writes. -/
namespace ArduinoAT90USB.Core
open Foundation.Numeral

def noSkipChar : UInt8 := 1

/-- `c >= '0' && c <= '9'`. -/
def isDigit (c : Int) : Bool := '0'.toNat ≤ c ∧ c ≤ '9'.toNat

namespace Port
variable {σ : Type} (port : Port σ)

/-- What the loop of `parseInt` does with a character: the sign and the value so far. -/
def parseIntStep (skipChar : UInt8) (c : Int) (acc : Bool × Int32) : Bool × Int32 :=
  if c = skipChar.toNat then acc
  else if c = '-'.toNat then (true, acc.2)
  else if isDigit c then (acc.1, acc.2 * 10 + Int32.ofInt c - Int32.ofNat '0'.toNat)
  else acc

/-- `if (isNegative) value = -value;` -/
def signed (acc : Bool × Int32) : Int32 := if acc.1 then -acc.2 else acc.2

def parseIntLoop (skipChar : UInt8) (timeout : UInt32) : Nat → Int → Bool × Int32 → σ → Option (Int32 × σ)
  | 0, _, _, _ => none
  | fuel+1, c, acc, s =>
    let acc := parseIntStep skipChar c acc
    match port.timedPeek timeout fuel (port.read s).2 with
    | none => none
    | some (c, s) =>
      if isDigit c ∨ c = skipChar.toNat then parseIntLoop skipChar timeout fuel c acc s
      else some (signed acc, s)

/-- `parseInt(char skipChar)`. -/
def parseIntSkip (skipChar : UInt8) (timeout : UInt32) (fuel : Nat) (s : σ) : Option (Int32 × σ) :=
  match port.peekNextDigit timeout fuel s with
  | none => none
  | some (c, s) =>
    if c < 0 then some (0, s) else port.parseIntLoop skipChar timeout fuel c (false, 0) s

def parseInt : UInt32 → Nat → σ → Option (Int32 × σ) := port.parseIntSkip noSkipChar

/-- The stream delivers the bytes of `unread`: each arrives within the timeout of the peek
that waits for it and is taken by the next read, and after the last one a peek times out. -/
structure Delivers (timeout : UInt32) (unread : σ → List UInt8) : Prop where
  next : ∀ s b rest, unread s = b :: rest → ∃ fuel t, port.timedPeek timeout fuel s = some ((b.toNat : Int), t) ∧
    unread t = b :: rest ∧ unread (port.read t).2 = rest
  silence : ∀ s, unread s = [] → ∃ fuel t, port.timedPeek timeout fuel s = some (-1, t) ∧ unread t = []

def startsNumber (c : Int) : Bool := c = '-'.toNat ∨ isDigit c

def inNumber (skipChar b : UInt8) : Bool := isDigit b.toNat ∨ b = skipChar

def digitsOf (bytes : List UInt8) : List Nat :=
  (bytes.filter fun b => isDigit b.toNat).map (·.toNat - '0'.toNat)

/-- The number that a first byte and the bytes after it stand for. -/
def number (b : UInt8) (run : List UInt8) : Int :=
  if b = '-'.toUInt8 then -(value 10 (digitsOf (b :: run)) : Int) else value 10 (digitsOf (b :: run))

variable {port} {timeout : UInt32} {unread : σ → List UInt8}

private theorem peekNextDigit_found {fuel : Nat} {s t : σ} {b : UInt8} (hb : startsNumber b.toNat = true)
    (h : port.timedPeek timeout fuel s = some ((b.toNat : Int), t)) :
    port.peekNextDigit timeout (fuel+1) s = some ((b.toNat : Int), t) := by
  have hstart : (b.toNat : Int) = '-'.toNat ∨ (b.toNat : Int) ≥ '0'.toNat ∧ (b.toNat : Int) ≤ '9'.toNat := by
    simpa [startsNumber, isDigit] using hb
  rw [peekNextDigit, h]
  dsimp only
  rw [if_neg (by omega)]
  split_ifs with hminus hdigit
  · rfl
  · rfl
  · exact absurd hstart (not_or.mpr ⟨hminus,hdigit⟩)

private theorem peekNextDigit_discards {fuel : Nat} {s t : σ} {b : UInt8} (hb : startsNumber b.toNat = false)
    (h : port.timedPeek timeout fuel s = some ((b.toNat : Int), t)) :
    port.peekNextDigit timeout (fuel+1) s = port.peekNextDigit timeout fuel (port.read t).2 := by
  have hstart : ¬ ((b.toNat : Int) = '-'.toNat ∨ (b.toNat : Int) ≥ '0'.toNat ∧ (b.toNat : Int) ≤ '9'.toNat) := by
    simpa [startsNumber, isDigit] using hb
  rw [peekNextDigit, h]
  dsimp only
  rw [if_neg (by omega), if_neg (not_or.mp hstart).1, if_neg (not_or.mp hstart).2]

theorem startsNumber_true {b : UInt8} :
    startsNumber b.toNat = true ↔ isDigit b.toNat = true ∨ b = '-'.toUInt8 := by
  rw [startsNumber, decide_eq_true_iff, Int.natCast_inj, or_comm, ← UInt8.toNat_inj]
  rfl

theorem startsNumber_false {b : UInt8} :
    startsNumber b.toNat = false ↔ isDigit b.toNat = false ∧ b ≠ '-'.toUInt8 := by
  rw [← Bool.not_eq_true, startsNumber_true, not_or, Bool.not_eq_true]

theorem inNumber_iff {skipChar b : UInt8} :
    inNumber skipChar b = true ↔ isDigit b.toNat = true ∨ (b.toNat : Int) = skipChar.toNat := by
  rw [inNumber, decide_eq_true_iff, Int.natCast_inj, UInt8.toNat_inj]

private theorem isDigit_iff (b : UInt8) : isDigit b.toNat = true ↔ 48 ≤ b.toNat ∧ b.toNat ≤ 57 := by
  rw [isDigit, decide_eq_true_iff, Int.ofNat_le, Int.ofNat_le]
  rfl

private theorem digitsOf_digit {b : UInt8} (hb : isDigit b.toNat = true) (run : List UInt8) :
    digitsOf (b :: run) = (b.toNat - '0'.toNat) :: digitsOf run := by
  rw [digitsOf, List.filter_cons, if_pos hb]
  rfl

private theorem digitsOf_other {b : UInt8} (hb : ¬ isDigit b.toNat = true) (run : List UInt8) :
    digitsOf (b :: run) = digitsOf run := by
  rw [digitsOf, List.filter_cons, if_neg hb]
  rfl

private theorem parseIntStep_digit {b : UInt8} (hb : isDigit b.toNat = true) (negative : Bool) (v : Nat) :
    parseIntStep noSkipChar b.toNat (negative, Int32.ofNat v) =
      (negative, Int32.ofNat (v * 10 + (b.toNat - '0'.toNat))) := by
  have hrange := (isDigit_iff b).mp hb
  have hskip : noSkipChar.toNat = 1 := by decide
  have hminus : '-'.toNat = 45 := rfl
  have hzero : '0'.toNat = 48 := rfl
  have hsplit : b.toNat = b.toNat - 48 + 48 := by omega
  rw [parseIntStep, if_neg (by omega), if_neg (by omega), if_pos hb, hzero, hsplit, Int32.ofInt_eq_ofNat, Int32.ofNat_add,
    ← Int32.add_assoc, Int32.add_sub_cancel, Nat.add_sub_cancel, Int32.ofNat_add, Int32.ofNat_mul]
  rfl

private theorem parseInt_run (run : List UInt8) (hrun : ∀ b ∈ run, inNumber noSkipChar b = true) (negative : Bool)
    (v : Nat) : run.foldl (fun acc b => parseIntStep noSkipChar b.toNat acc) (negative, Int32.ofNat v) =
      (negative, Int32.ofNat ((digitsOf run).foldl (fun v d => v * 10 + d) v)) := by
  induction run generalizing v with
  | nil => rfl
  | cons b run ih =>
    have hrest := ih fun x hx => hrun x (List.mem_cons_of_mem b hx)
    rw [List.foldl_cons]
    by_cases hb : isDigit b.toNat = true
    · rw [digitsOf_digit hb, parseIntStep_digit hb]
      exact hrest _
    · have hskip := (inNumber_iff.mp (hrun b List.mem_cons_self)).resolve_left hb
      rw [digitsOf_other hb, parseIntStep, if_pos hskip]
      exact hrest v

private theorem ofInt_neg_natCast (n : Nat) : Int32.ofInt (-(n : Int)) = -Int32.ofNat n := by
  rw [Int32.ofInt_neg, Int32.ofInt_eq_ofNat]

private theorem signed_run {b : UInt8} (hb : startsNumber b.toNat = true) {rest : List UInt8} :
    signed ((rest.takeWhile (inNumber noSkipChar)).foldl (fun acc b => parseIntStep noSkipChar b.toNat acc)
      (parseIntStep noSkipChar b.toNat (false, 0))) =
        Int32.ofInt (number b (rest.takeWhile (inNumber noSkipChar))) := by
  have hrun : ∀ x ∈ rest.takeWhile (inNumber noSkipChar), inNumber noSkipChar x = true :=
    fun x hx => List.mem_takeWhile_imp hx
  unfold number
  split_ifs with hminus
  · subst hminus
    have hfirst : parseIntStep noSkipChar '-'.toUInt8.toNat (false, 0) = (true, Int32.ofNat 0) := by decide
    rw [hfirst, parseInt_run _ hrun, ofInt_neg_natCast]
    rfl
  · have hdigit : isDigit b.toNat = true := (startsNumber_true.mp hb).resolve_right hminus
    have hfold := parseInt_run (b :: rest.takeWhile (inNumber noSkipChar)) (fun x hx => by
      rcases List.mem_cons.mp hx with rfl | hx
      · exact inNumber_iff.mpr (.inl hdigit)
      · exact hrun x hx) false 0
    rw [List.foldl_cons] at hfold
    rw [show ((false, 0) : Bool × Int32) = (false, Int32.ofNat 0) from rfl, hfold, Int32.ofInt_eq_ofNat]
    rfl

namespace Delivers
variable (hd : port.Delivers timeout unread)
include hd

/-- Bytes that start no number are discarded: what a peek comes to after them, it comes to now. -/
private theorem peekNextDigit_after (After : σ → Prop) {result : Int} {rest : List UInt8}
    (hafter : ∀ s, unread s = rest →
      ∃ fuel t, (∀ more ≥ fuel, port.peekNextDigit timeout more s = some (result, t)) ∧ After t)
    (pre : List UInt8) (hpre : ∀ x ∈ pre, startsNumber x.toNat = false) {s : σ} (hs : unread s = pre ++ rest) :
    ∃ fuel t, (∀ more ≥ fuel, port.peekNextDigit timeout more s = some (result, t)) ∧ After t := by
  induction pre generalizing s with
  | nil => exact hafter s hs
  | cons x pre ih =>
    obtain ⟨fuel,t,hpeek,_,hread⟩ := hd.next s x (pre ++ rest) hs
    obtain ⟨fuel',u,hrest,hu⟩ := ih (fun y hy => hpre y (List.mem_cons_of_mem x hy)) hread
    refine ⟨max fuel fuel' + 1,u,enough_fuel fun more hle => ?_,hu⟩
    rw [peekNextDigit_discards (hpre x List.mem_cons_self) (timedPeek_mono hpeek (by omega))]
    exact hrest more (by omega)

theorem peekNextDigit {b : UInt8} (hb : startsNumber b.toNat = true) (rest pre : List UInt8)
    (hpre : ∀ x ∈ pre, startsNumber x.toNat = false) {s : σ} (hs : unread s = pre ++ b :: rest) :
    ∃ fuel t, (∀ more ≥ fuel, port.peekNextDigit timeout more s = some ((b.toNat : Int), t)) ∧
      unread (port.read t).2 = rest := by
  refine hd.peekNextDigit_after (fun t => unread (port.read t).2 = rest) (fun s hs => ?_) pre hpre hs
  obtain ⟨fuel,t,hpeek,_,hread⟩ := hd.next s b rest hs
  refine ⟨fuel+1,t,enough_fuel fun more hle => ?_,hread⟩
  exact peekNextDigit_found hb (timedPeek_mono hpeek hle)

theorem peekNextDigit_silent (bytes : List UInt8) (hbytes : ∀ x ∈ bytes, startsNumber x.toNat = false) {s : σ}
    (hs : unread s = bytes) :
    ∃ fuel t, (∀ more ≥ fuel, port.peekNextDigit timeout more s = some (-1, t)) ∧ unread t = [] := by
  refine hd.peekNextDigit_after (fun t => unread t = []) (fun s hs => ?_) bytes hbytes (hs.trans (List.append_nil bytes).symm)
  obtain ⟨fuel,t,hpeek,ht⟩ := hd.silence s hs
  refine ⟨fuel+1,t,enough_fuel fun more hle => ?_,ht⟩
  rw [Port.peekNextDigit, timedPeek_mono hpeek hle]
  rfl

/-- The loop takes the character it has peeked and the bytes it goes on with. -/
theorem parseIntLoop (skipChar : UInt8) (bytes : List UInt8) (c : Int) (acc : Bool × Int32) {s : σ}
    (hs : unread (port.read s).2 = bytes) :
    ∃ fuel t, (∀ more ≥ fuel, port.parseIntLoop skipChar timeout more c acc s =
      some (signed ((bytes.takeWhile (inNumber skipChar)).foldl (fun acc b => parseIntStep skipChar b.toNat acc)
        (parseIntStep skipChar c acc)), t)) ∧ unread t = bytes.dropWhile (inNumber skipChar) := by
  induction bytes generalizing c acc s with
  | nil =>
    obtain ⟨fuel,t,hpeek,ht⟩ := hd.silence _ hs
    refine ⟨fuel+1,t,enough_fuel fun more hle => ?_,ht⟩
    rw [Port.parseIntLoop, timedPeek_mono hpeek (by omega)]
    exact if_neg (not_or.mpr ⟨by decide,by omega⟩)
  | cons b bytes ih =>
    obtain ⟨fuel,t,hpeek,ht,hread⟩ := hd.next _ b bytes hs
    by_cases hb : inNumber skipChar b = true
    · obtain ⟨fuel',u,hloop,hu⟩ := ih b.toNat (parseIntStep skipChar c acc) hread
      rw [List.takeWhile_cons_of_pos hb, List.dropWhile_cons_of_pos hb]
      refine ⟨max fuel fuel' + 1,u,enough_fuel fun more hle => ?_,hu⟩
      rw [Port.parseIntLoop, timedPeek_mono hpeek (by omega)]
      exact (if_pos (inNumber_iff.mp hb)).trans (hloop more (by omega))
    · rw [List.takeWhile_cons_of_neg hb, List.dropWhile_cons_of_neg hb]
      refine ⟨fuel+1,t,enough_fuel fun more hle => ?_,ht⟩
      rw [Port.parseIntLoop, timedPeek_mono hpeek (by omega)]
      exact if_neg fun h => hb (inNumber_iff.mpr h)

/-- The number that starts at the first digit or sign, and what follows it. -/
theorem parseInt {b : UInt8} (hb : startsNumber b.toNat = true) {pre rest : List UInt8}
    (hpre : ∀ x ∈ pre, startsNumber x.toNat = false) {s : σ} (hs : unread s = pre ++ b :: rest) :
    ∃ fuel t, (∀ more ≥ fuel, port.parseInt timeout more s =
      some (Int32.ofInt (number b (rest.takeWhile (inNumber noSkipChar))), t)) ∧
      unread t = rest.dropWhile (inNumber noSkipChar) := by
  obtain ⟨fuel,t,hpeek,ht⟩ := hd.peekNextDigit hb rest pre hpre hs
  obtain ⟨fuel',u,hloop,hu⟩ := hd.parseIntLoop noSkipChar rest b.toNat (false, 0) ht
  refine ⟨max fuel fuel',u,fun more hle => ?_,hu⟩
  rw [Port.parseInt, Port.parseIntSkip, hpeek more (by omega), ← signed_run hb]
  dsimp only
  rw [if_neg (by omega)]
  exact hloop more (by omega)

theorem parseInt_silent {s : σ} (hbytes : ∀ x ∈ unread s, startsNumber x.toNat = false) :
    ∃ fuel t, (∀ more ≥ fuel, port.parseInt timeout more s = some (0, t)) ∧ unread t = [] := by
  obtain ⟨fuel,t,hpeek,ht⟩ := hd.peekNextDigit_silent (unread s) hbytes rfl
  refine ⟨fuel,t,fun more hle => ?_,ht⟩
  rw [Port.parseInt, Port.parseIntSkip, hpeek more hle]
  rfl

end Delivers

private theorem isDigit_numeralChar : ∀ d < 10, isDigit (Print.numeralChar d).toNat = true := by decide

private theorem numeralChar_toNat : ∀ d < 10, (Print.numeralChar d).toNat - '0'.toNat = d := by decide

private theorem digitsOf_numeralChar (digits : List Nat) (h : ∀ d ∈ digits, d < 10) :
    digitsOf (digits.map Print.numeralChar) = digits := by
  induction digits with
  | nil => rfl
  | cons d digits ih =>
    have hd := h d List.mem_cons_self
    rw [List.map_cons, digitsOf_digit (isDigit_numeralChar d hd), numeralChar_toNat d hd,
      ih fun x hx => h x (List.mem_cons_of_mem d hx)]

private theorem value_printed (n : Int32) :
    Int32.ofNat (value 10 (digitsOf ((numeral 10 n.toUInt32.toNat).map Print.numeralChar))) = n := by
  rw [digitsOf_numeralChar _ fun d hd => numeral_lt_base (by decide) hd, value_numeral]
  exact congrArg Int32.ofUInt32 UInt32.ofNat_toNat

/-- The first character of a printed number, and the number that it and the rest stand for. -/
private theorem printLong_parts (n : Int32) : ∃ b digits, Print.printLong n 10 = some (b :: digits) ∧
    startsNumber b.toNat = true ∧ (∀ x ∈ digits, isDigit x.toNat = true) ∧ Int32.ofInt (number b digits) = n := by
  have hchars (m : Nat) : ∀ x ∈ (numeral 10 m).map Print.numeralChar, isDigit x.toNat = true := by
    intro x hx
    obtain ⟨d,hd,rfl⟩ := List.mem_map.mp hx
    exact isDigit_numeralChar d (numeral_lt_base (by decide) hd)
  rw [Print.printLong_decimal]
  split_ifs with hn
  · refine ⟨_,_,rfl,by decide,hchars _,?_⟩
    rw [number, if_pos rfl, ofInt_neg_natCast, digitsOf_other (by decide), value_printed]
    exact Int32.neg_neg
  · cases hnum : (numeral 10 n.toUInt32.toNat).map Print.numeralChar with
    | nil => exact absurd (List.map_eq_nil_iff.mp hnum) (numeral_ne_nil _ _)
    | cons b digits =>
      have hall := hchars n.toUInt32.toNat
      rw [hnum] at hall
      have hminus : b ≠ '-'.toUInt8 := fun h => absurd (hall b List.mem_cons_self) (h ▸ by decide)
      refine ⟨b,digits,rfl,by simp [startsNumber, hall b],fun x hx => hall x (List.mem_cons_of_mem b hx),?_⟩
      rw [number, if_neg hminus, Int32.ofInt_eq_ofNat, ← hnum, value_printed]

private theorem run_split {digits suf : List UInt8} (hdigits : ∀ x ∈ digits, isDigit x.toNat = true)
    (hsuf : ∀ x ∈ suf.head?, isDigit x.toNat = false ∧ x ≠ 1) :
    (digits ++ suf).takeWhile (inNumber noSkipChar) = digits ∧
      (digits ++ suf).dropWhile (inNumber noSkipChar) = suf := by
  have hrun : ∀ x ∈ digits, inNumber noSkipChar x = true := fun x hx => inNumber_iff.mpr (.inl (hdigits x hx))
  rw [List.takeWhile_append_of_pos hrun, List.dropWhile_append_of_pos hrun]
  cases suf with
  | nil => exact ⟨List.append_nil digits,rfl⟩
  | cons x suf =>
    obtain ⟨hx,hne⟩ := hsuf x rfl
    have hstop : ¬ inNumber noSkipChar x = true := by
      rw [inNumber, decide_eq_true_iff, hx]
      exact not_or.mpr ⟨Bool.false_ne_true,hne⟩
    rw [List.takeWhile_cons_of_neg hstop, List.dropWhile_cons_of_neg hstop]
    exact ⟨List.append_nil digits,rfl⟩

end Port

/-- What `print(n, 10)` writes is read back by `parseInt()` for every `long`, and exactly
what follows is left unread. -/
theorem parseInt_printLong {σ : Type} {port : Port σ} {timeout : UInt32} {unread : σ → List UInt8}
    (hd : port.Delivers timeout unread) (n : Int32) {pre suf : List UInt8}
    (hpre : ∀ b ∈ pre, isDigit b.toNat = false ∧ b ≠ '-'.toUInt8)
    (hsuf : ∀ b ∈ suf.head?, isDigit b.toNat = false ∧ b ≠ 1) :
    ∃ text, Print.printLong n 10 = some text ∧ ∀ s, unread s = pre ++ text ++ suf →
      ∃ fuel t, (∀ more ≥ fuel, port.parseInt timeout more s = some (n, t)) ∧ unread t = suf := by
  obtain ⟨b,digits,hprint,hb,hdigits,hvalue⟩ := Port.printLong_parts n
  refine ⟨b :: digits,hprint,fun s hs => ?_⟩
  have hskip : ∀ x ∈ pre, Port.startsNumber x.toNat = false := fun x hx => Port.startsNumber_false.mpr (hpre x hx)
  rw [List.append_assoc, List.cons_append] at hs
  obtain ⟨hrun,hrest⟩ := Port.run_split hdigits hsuf
  have hparse := hd.parseInt hb hskip hs
  rwa [hrun, hrest, hvalue] at hparse

theorem linePort_delivers : linePort.Delivers 1 Prod.fst where
  next := by
    rintro ⟨bytes,now⟩ b rest rfl
    refine ⟨1,(b :: rest,now+1),?_,rfl,rfl⟩
    have hpeek : (linePort.peek (linePort.millis (b :: rest,now)).2).1 ≥ 0 := Int.natCast_nonneg b.toNat
    exact Port.timed_delivers linePort linePort.peek hpeek 1 0
  silence := by
    rintro ⟨bytes,now⟩ rfl
    refine ⟨1,([],now+2),?_,rfl⟩
    exact if_neg (linePort_clock now)

/-- The least `long` between a blank and a letter. -/
theorem parseInt_printLong_least :
    ∃ text, Print.printLong (-2147483648) 10 = some text ∧ ∀ s, s.1 = [32] ++ text ++ [65] →
      ∃ fuel t, (∀ more ≥ fuel, linePort.parseInt 1 more s = some (-2147483648, t)) ∧ t.1 = [65] := by
  refine parseInt_printLong linePort_delivers (-2147483648) (fun b hb => ?_) (fun b hb => ?_)
  · obtain rfl : b = 32 := List.mem_singleton.mp hb
    decide
  · obtain rfl : 65 = b := Option.some.inj hb
    decide

/-- What `parseInt()` makes of any bytes before a timeout: without a digit or a minus sign it
discards them and returns zero, else it takes the first such byte and the run after it. -/
theorem parseInt_arbitrary {σ : Type} {port : Port σ} {timeout : UInt32} {unread : σ → List UInt8}
    (hd : port.Delivers timeout unread) (s : σ) :
    ((∀ b ∈ unread s, isDigit b.toNat = false ∧ b ≠ '-'.toUInt8) →
      ∃ fuel t, (∀ more ≥ fuel, port.parseInt timeout more s = some (0, t)) ∧ unread t = []) ∧
    ∀ pre b rest, unread s = pre ++ b :: rest → (∀ x ∈ pre, isDigit x.toNat = false ∧ x ≠ '-'.toUInt8) →
      (isDigit b.toNat = true ∨ b = '-'.toUInt8) →
      ∃ fuel t, (∀ more ≥ fuel, port.parseInt timeout more s =
        some (Int32.ofInt (Port.number b (rest.takeWhile (Port.inNumber noSkipChar))), t)) ∧
        unread t = rest.dropWhile (Port.inNumber noSkipChar) :=
  ⟨fun hnone => hd.parseInt_silent fun x hx => Port.startsNumber_false.mpr (hnone x hx),
    fun _ _ _ hs hpre hb => hd.parseInt (Port.startsNumber_true.mpr hb)
      (fun x hx => Port.startsNumber_false.mpr (hpre x hx)) hs⟩

/-- The bytes `x-1`, one of value 1, `2-`: the number is -12 and the second sign is left. -/
theorem parseInt_arbitrary_skip :
    ∃ fuel t, (∀ more ≥ fuel, linePort.parseInt 1 more ([120,45,49,1,50,45],0) = some (-12, t)) ∧ t.1 = [45] := by
  have hpre : ∀ x ∈ ([120] : List UInt8), isDigit x.toNat = false ∧ x ≠ '-'.toUInt8 := by
    intro x hx
    obtain rfl : x = 120 := List.mem_singleton.mp hx
    decide
  have hparse := (parseInt_arbitrary linePort_delivers ([120,45,49,1,50,45],0)).2 [120] 45 [49,1,50,45] rfl hpre
    (.inr rfl)
  have hnumber : Int32.ofInt (Port.number 45 ([49,1,50,45].takeWhile (Port.inNumber noSkipChar))) = -12 := by decide
  rwa [hnumber] at hparse

end ArduinoAT90USB.Core
