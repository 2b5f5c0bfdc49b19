import TarsCpp.CString
import TarsCpp.Decimal

/-!
# Cron expressions

`TC_Cron::makecron`.  Numbers are eight bits wide, and so is the counter of the
loop that sets the bits of a field.
-/

namespace TarsCpp.Cron

open CString (ascii isspace find)

inductive Failure
  | TC_CronException (buffer : List UInt8)
  /-- `std::out_of_range`, of a bit that the field does not have. -/
  | outOfRange
  /-- The loop has not come to its end. -/
  | endless
deriving DecidableEq, Repr

def thrown {α : Type} (text : String) : Except Failure α :=
  .error (.TC_CronException (ascii text))

/-- The parts of a string between the separators. -/
def split (sep : UInt8) : List UInt8 → List (List UInt8)
  | [] => [[]]
  | c :: rest =>
      if c = sep then
        [] :: split sep rest
      else
        match split sep rest with
        | [] => [[c]]
        | part :: parts => (c :: part) :: parts

/-- `TC_Common::sepstr`, which leaves empty parts out. -/
def sepstr (sep : UInt8) (sStr : List UInt8) : List (List UInt8) :=
  (split sep sStr).filter (· ≠ [])

def toupper (c : UInt8) : UInt8 := if 97 ≤ c ∧ c ≤ 122 then c - 32 else c

/-- `TC_Common::upper` -/
def upper (s : List UInt8) : List UInt8 := s.map toupper

/-- `std::stoul`, with nothing for its exceptions. -/
def stoul (text : List UInt8) : Option Nat :=
  let text := text.dropWhile isspace
  let negative := decide (text.head? = some 45)
  let text :=
    if negative = true ∨ text.head? = some 43 then text.drop 1 else text
  let word := text.takeWhile (isDigit ·)
  if word = [] then
    none
  else
    let value := numbered (0 : Nat) word
    if value ≥ 2 ^ 64 then
      none
    else if negative then
      some ((2 ^ 64 - value) % 2 ^ 64)
    else
      some value

/-- `text.data()` ends at the first zero byte. -/
def to_cron_int (text : List UInt8) : Except Failure UInt8 :=
  match stoul (text.takeWhile (· ≠ 0)) with
  | some value => .ok (.ofNat value)
  | none => thrown "[TC_Cron to_cron_int] stoul"

def DAYS : List (List UInt8) :=
  [ascii "SUN", ascii "MON", ascii "TUE", ascii "WED", ascii "THU",
    ascii "FRI", ascii "SAT"]

def MONTHS : List (List UInt8) :=
  [ascii "NIL", ascii "JAN", ascii "FEB", ascii "MAR", ascii "APR",
    ascii "MAY", ascii "JUN", ascii "JUL", ascii "AUG", ascii "SEP",
    ascii "OCT", ascii "NOV", ascii "DEC"]

/-- One turn of the loop of `replaceOrdinals`. -/
def replaceOrdinal (text : List UInt8) (name : List UInt8 × Nat) :
    List UInt8 :=
  match find name.1 text with
  | some pos => text.take pos ++ decimal name.2 ++ text.drop (pos + 3)
  | none => text

def replaceOrdinals (text : List UInt8) (replacement : List (List UInt8)) :
    List UInt8 :=
  replacement.zipIdx.foldl replaceOrdinal text

/-- The values of `first` and `last` in front of the checks of `makeRange`. -/
def rangeEnds (field : List UInt8) (minval maxval : UInt8) :
    Except Failure (UInt8 × UInt8) :=
  if field = [42] then
    pure (minval, maxval)
  else if 45 ∉ field then do
    let first ← to_cron_int field
    pure (first, first)
  else
    match sepstr 45 field with
    | [low, high] => do
        let first ← to_cron_int low
        let last ← to_cron_int high
        pure (first, last)
    | _ => thrown "TC_Cron::makeRange] specified range requires two fields"

def makeRange (field : List UInt8) (minval maxval : UInt8) :
    Except Failure (UInt8 × UInt8) := do
  let (first, last) ← rangeEnds field minval maxval
  if first > maxval ∨ last > maxval then
    thrown "TC_Cron::makeRange] specified range exceeds maximum"
  else if first < minval ∨ last < minval then
    thrown "TC_Cron::makeRange] specified range is less than minimum"
  else if first > last then
    thrown "TC_Cron::makeRange] specified range start exceeds range end"
  else
    pure (first, last)

/-- The first and the last value of an item, and the increment of the loop. -/
def itemOf (field : List UInt8) (minval maxval : UInt8) :
    Except Failure (UInt8 × UInt8 × UInt8) :=
  if 47 ∉ field then do
    let (first, last) ← makeRange field minval maxval
    pure (first, last, 1)
  else
    match sepstr 47 field with
    | [base, increment] => do
        let (first, last) ← makeRange base minval maxval
        let last := if 45 ∉ base then maxval else last
        let delta ← to_cron_int increment
        if delta ≤ 0 then
          thrown
            "[TC_Cron::setCronField] incrementer must be a positive value"
        else
          pure (first, last, delta)
    | _ => thrown "[TC_Cron::setCronField] incrementer must have two fields"

abbrev Bitset (N : Nat) := Fin N → Bool

/-- `target.set(i)` -/
def Bitset.set {N : Nat} (target : Bitset N) (i : Nat) :
    Except Failure (Bitset N) :=
  if within : i < N then
    .ok (Function.update target ⟨i, within⟩ true)
  else
    .error .outOfRange

/-- `for (cron_int i = ...; i <= last; i += delta) target.set(i)` -/
def setLoop {N : Nat} (last delta : UInt8) :
    Nat → UInt8 → Bitset N → Except Failure (Bitset N)
  | 0, _, _ => .error .endless
  | turns + 1, i, target =>
      if i ≤ last then do
        let target ← target.set i.toNat
        setLoop last delta turns (i + delta) target
      else
        .ok target

/-- An item of a field; the loop makes no more than 256 turns. -/
def setItem {N : Nat} (minval maxval : UInt8) (target : Bitset N)
    (field : List UInt8) : Except Failure (Bitset N) := do
  let (first, last, delta) ← itemOf field minval maxval
  setLoop (last - minval) delta 257 (first - minval) target

def setCronField {N : Nat} (value : List UInt8) (target : Bitset N)
    (minval maxval : UInt8) : Except Failure (Bitset N) :=
  if value.getLast? = some 44 then
    thrown "[TC_Cron::setCronField] value cannot end with comma"
  else if sepstr 44 value = [] then
    thrown "[TC_Cron::setCronField] expression parsing error"
  else
    (sepstr 44 value).foldlM (setItem minval maxval) target

/-- `?` stands for `*`. -/
def wild (value : List UInt8) : List UInt8 :=
  if value = [63] then [42] else value

def setCronDaysOfWeek (value : List UInt8) (target : Bitset 7) :
    Except Failure (Bitset 7) :=
  setCronField (wild (replaceOrdinals (upper value) DAYS)) target 0 6

def setCronDaysOfMonth (value : List UInt8) (target : Bitset 31) :
    Except Failure (Bitset 31) :=
  setCronField (wild value) target 1 31

def setCronMonth (value : List UInt8) (target : Bitset 12) :
    Except Failure (Bitset 12) :=
  setCronField (replaceOrdinals (upper value) MONTHS) target 1 12

structure TcCron where
  seconds : Bitset 60 := fun _ => false
  minutes : Bitset 60 := fun _ => false
  hours : Bitset 24 := fun _ => false
  days_of_week : Bitset 7 := fun _ => false
  days_of_month : Bitset 31 := fun _ => false
  months : Bitset 12 := fun _ => false
  isset : Bool := false

def makecron (expr : List UInt8) : Except Failure TcCron :=
  if expr = [] then
    thrown "[TC_Cron makecron] invalid empty cron expression"
  else
    match sepstr 32 expr with
    | [second, minute, hour, monthday, month, weekday] => do
        let cron : TcCron := {}
        let seconds ← setCronField second cron.seconds 0 59
        let minutes ← setCronField minute cron.minutes 0 59
        let hours ← setCronField hour cron.hours 0 23
        let days_of_week ← setCronDaysOfWeek weekday cron.days_of_week
        let days_of_month ← setCronDaysOfMonth monthday cron.days_of_month
        let months ← setCronMonth month cron.months
        pure
          { seconds, minutes, hours, days_of_week, days_of_month, months
            isset := true }
    | _ => thrown "[TC_Cron makecron] cron expression must have six fields"

end TarsCpp.Cron
