import TarsCpp.Json.Value
import TarsCpp.PrefixDecoding

/-!
# Reading JSON

`TC_Json::getValue` and what it calls.  A loop gets the number of turns that
the unread bytes allow, and a value may nest as deep as the text is long: each
turn and each level reads a byte, and behind the last one `read` throws.
-/

namespace TarsCpp.Json

open CString PrefixDecoding

structure BufferJsonReader where
  buf : List UInt8
  cur : Nat

/-- What ends a call: an exception, a failed assertion, or the bound that the
model puts on loops and nesting. -/
inductive Fault
  | throws (message : String)
  | assertion
  | unbounded

abbrev Parse := EStateM Fault BufferJsonReader

namespace BufferJsonReader

instance : PrefixInput BufferJsonReader UInt8 where
  Facing reader front := reader.buf.drop reader.cur = front
  advance reader bytes := { reader with cur := reader.cur + bytes }
  advance_zero _ := rfl
  advance_advance _ _ _ := by rw [Nat.add_assoc]
  facing_advance facing := by rw [← List.drop_drop, facing, List.drop_left]

def unread (reader : BufferJsonReader) : Nat := reader.buf.length - reader.cur

/-- `uint32_t` of a position, printed into `char s[64]`. -/
def printed (text : String) (position : Nat) (behind : String) : String :=
  String.ofList
    ((s!"{text}{position % 2 ^ 32}{behind}".toList).take 63)

def read : Parse UInt8 := do
  let reader ← get
  match reader.buf[reader.cur]? with
  | some c =>
      set { reader with cur := reader.cur + 1 }
      pure c
  | none =>
      throw (.throws (printed "buffer overflow when peekBuf, over "
        reader.buf.length "."))

def back : Parse Unit := do
  let reader ← get
  if reader.cur = 0 then throw .assertion
  else set { reader with cur := reader.cur - 1 }

def hasEnd : Parse Bool := do
  let reader ← get
  pure (decide (reader.buf.length ≤ reader.cur))

/-- The bytes that `append(pChar, i)` copies. -/
def slice (reader : BufferJsonReader) (pChar i : Nat) : List UInt8 :=
  (reader.buf.drop pChar).take i

end BufferJsonReader

open BufferJsonReader

/-- Throws with the position of the reader. -/
def fail {α : Type} (text : String) : Parse α := do
  let reader ← get
  throw (.throws (printed (text ++ "[pos:") reader.cur "]"))

def isspace (c : UInt8) : Bool := c = 32 ∨ c = 9 ∨ c = 13 ∨ c = 10

/-- `FILTER_SPACE` -/
def filterSpace : Nat → UInt8 → Parse UInt8
  | 0, _ => throw .unbounded
  | turns + 1, c => do
      if isspace c then filterSpace turns (← BufferJsonReader.read) else pure c

/-- `char c = reader.read(); FILTER_SPACE` -/
def readFiltered : Parse UInt8 := do
  let c ← BufferJsonReader.read
  filterSpace ((← get).unread + 1) c

/-- The value of a hexadecimal digit. -/
def hexValue (c : UInt8) : Option Nat :=
  if 97 ≤ c ∧ c ≤ 102 then some (c.toNat - 87)
  else if 65 ≤ c ∧ c ≤ 70 then some (c.toNat - 55)
  else if 48 ≤ c ∧ c ≤ 57 then some (c.toNat - 48)
  else none

/-- The loop of `getHex`. -/
def getHexLoop : Nat → Nat → Parse Nat
  | 0, iCode => pure iCode
  | iLoop + 1, iCode => do
      let c ← BufferJsonReader.read
      match hexValue c with
      | some digit => getHexLoop iLoop (iCode * 16 + digit)
      | none => fail "get string error3(\\u)"

def getHex : Parse Nat := getHexLoop 4 0

/-- The bytes that are appended for the code of a `\u`. -/
def codeBytes (iCode : Nat) : List UInt8 :=
  if iCode < 0x80 then [iCode.toUInt8]
  else if iCode < 0x800 then
    [(0xC0 + iCode / 2 ^ 6 % 0x20).toUInt8, (0x80 + iCode % 0x40).toUInt8]
  else if iCode < 0x10000 then
    [(0xE0 + iCode / 2 ^ 12 % 0x10).toUInt8,
      (0x80 + iCode / 2 ^ 6 % 0x40).toUInt8, (0x80 + iCode % 0x40).toUInt8]
  else
    [(0xF0 + iCode / 2 ^ 18 % 0x08).toUInt8,
      (0x80 + iCode / 2 ^ 12 % 0x40).toUInt8,
      (0x80 + iCode / 2 ^ 6 % 0x40).toUInt8, (0x80 + iCode % 0x40).toUInt8]

/-- The locals of `getString`: the bytes from `pChar` on, `i` of them, are not
appended yet. -/
structure StringState where
  value : List UInt8
  pChar : Nat
  i : UInt32

/-- `p->value.append(pChar, i)` -/
def StringState.append (st : StringState) (reader : BufferJsonReader) :
    List UInt8 :=
  st.value ++ reader.slice st.pChar st.i.toNat

/-- The byte that a letter behind a backslash stands for. -/
def escaped (c : UInt8) : Option UInt8 :=
  if c = 92 ∨ c = 34 ∨ c = 47 then some c
  else if c = 98 then some 8
  else if c = 102 then some 12
  else if c = 110 then some 10
  else if c = 114 then some 13
  else if c = 116 then some 9
  else none

/-- What follows a backslash; another letter than these is dropped. -/
def getEscape (st : StringState) : Parse StringState := do
  let value := st.append (← get)
  let pChar := st.pChar + st.i.toNat + 2
  let c ← BufferJsonReader.read
  match escaped c with
  | some byte => pure { value := value ++ [byte], pChar := pChar, i := 0 }
  | none =>
      if c = 117 then do
        let iCode ← getHex
        pure { value := value ++ codeBytes iCode, pChar := pChar + 4, i := 0 }
      else
        pure { value := value, pChar := pChar, i := 0 }

/-- The loop of `getString`. -/
def getStringLoop (head : UInt8) : Nat → StringState → Parse (List UInt8)
  | 0, _ => throw .unbounded
  | turns + 1, st => do
      let c ← BufferJsonReader.read
      if c = 92 then
        getStringLoop head turns (← getEscape st)
      else if c = head then
        pure (st.append (← get))
      else
        getStringLoop head turns { st with i := st.i + 1 }

def getString (head : UInt8) : Parse (List UInt8) := do
  let reader ← get
  getStringLoop head (reader.unread + 1)
    { value := [], pChar := reader.cur, i := 0 }

section Numbers

variable {double : Type} [FloatingPoint double]

/-- The locals of `getNum`. -/
structure NumState (double : Type) where
  bOk : Bool
  bFloat : Bool
  bExponential : Bool
  bNegative : Bool
  bExponentialNegative : Bool
  bNeedBack : Bool
  iInt : BitVec 64
  dFloat : double
  dFloatRat : double
  iExponential : BitVec 64

def NumState.start (head : UInt8) : NumState double :=
  { bOk := head ≠ 45
    bFloat := false
    bExponential := false
    bNegative := head = 45
    bExponentialNegative := false
    bNeedBack := false
    iInt := if head = 45 then 0 else (digitOf head : BitVec 64)
    dFloat := FloatingPoint.ofInt 0
    dFloatRat := FloatingPoint.ofInt 0
    iExponential := 0 }

def NumState.digit (st : NumState double) (c : UInt8) : NumState double :=
  if st.bExponential then
    { st with
      bOk := true
      iExponential := st.iExponential * 10 + (digitOf c : BitVec 64) }
  else if st.bFloat then
    { st with
      bOk := true
      dFloat := FloatingPoint.add st.dFloat
        (FloatingPoint.mul st.dFloatRat (FloatingPoint.ofInt (digitOf c)))
      dFloatRat := FloatingPoint.mul st.dFloatRat FloatingPoint.tenth }
  else
    { st with
      bOk := true
      iInt := st.iInt * 10 + (digitOf c : BitVec 64) }

/-- The byte behind `e`: a sign, or a digit, which is not counted but switches
the exponent off again if it is 0; with anything else the loop ends. -/
def NumState.exponent (st : NumState double) (c : UInt8) : NumState double :=
  let st := { st with bOk := false, bExponential := true, iExponential := 0 }
  if c = 45 then { st with bExponentialNegative := true }
  else if c = 43 then { st with bExponentialNegative := false }
  else if isDigit c then
    { st with bOk := true, bExponential := decide (c ≠ 48) }
  else { st with bNeedBack := true }

/-- The loop of `getNum`. -/
def getNumLoop : Nat → NumState double → Parse (NumState double)
  | 0, _ => throw .unbounded
  | turns + 1, st => do
      if ← hasEnd then pure st
      else
        let c ← BufferJsonReader.read
        if isDigit c then
          getNumLoop turns (st.digit c)
        else if c = 46 ∧ ¬ st.bFloat ∧ ¬ st.bExponential ∧ st.bOk then
          getNumLoop turns
            { st with
              bOk := false
              bFloat := true
              dFloatRat := FloatingPoint.tenth }
        else if (c = 101 ∨ c = 69) ∧ ¬ st.bExponential ∧ st.bOk then
          if ← hasEnd then
            pure { st with bOk := false, bExponential := true,
                           iExponential := 0 }
          else
            let st := st.exponent (← BufferJsonReader.read)
            if st.bNeedBack then pure st else getNumLoop turns st
        else
          pure { st with bNeedBack := true }

/-- The value of the locals at the end of `getNum`; an exponent counts in a
number with a fraction only. -/
def NumState.result (st : NumState double) : JsonValueNum double :=
  let iExponential :=
    if st.bExponentialNegative then 0 - st.iExponential else st.iExponential
  if st.bFloat then
    let dResult := FloatingPoint.mul
      (FloatingPoint.add (FloatingPoint.ofInt st.iInt.toInt) st.dFloat)
      (FloatingPoint.pow (FloatingPoint.ofInt 10)
        (FloatingPoint.ofInt iExponential.toInt))
    let dResult :=
      if st.bNegative then FloatingPoint.sub (FloatingPoint.ofInt 0) dResult
      else dResult
    { value := dResult
      lvalue := FloatingPoint.toInt64 dResult
      isInt := false }
  else
    let iInt := if st.bNegative then 0 - st.iInt else st.iInt
    { value := FloatingPoint.ofInt iInt.toInt, lvalue := iInt, isInt := true }

def getNum (head : UInt8) : Parse (JsonValueNum double) := do
  let st ← getNumLoop ((← get).unread + 1) (NumState.start head)
  if ¬ st.bOk then fail "get num error"
  else
    if st.bNeedBack then back
    pure st.result

end Numbers

/-- The letters of a word, in either case, up to the first wrong one. -/
def readLetters : List UInt8 → Parse Bool
  | [] => pure true
  | letter :: letters => do
      if tolower (← BufferJsonReader.read) = letter then readLetters letters
      else pure false

def getBoolean (c : UInt8) : Parse Bool := do
  if tolower c = 116 then
    if ← readLetters (ascii "rue") then pure true else fail "get bool error"
  else if tolower c = 102 then
    if ← readLetters (ascii "alse") then pure false else fail "get bool error"
  else
    fail "get bool error"

def getNull (c : UInt8) : Parse Unit := do
  if ¬ tolower c = 110 then throw .assertion
  if ← readLetters (ascii "ull") then pure () else fail "get NULL error"

section Values

variable {double : Type} [FloatingPoint double]

/-- The loop of `getObj`. -/
def getObjLoop (getValue : Parse (JsonValuePtr double)) :
    Nat → Bool → Entries double → Parse (Entries double)
  | 0, _, _ => throw .unbounded
  | turns + 1, bFirst, entries => do
      let c ← readFiltered
      if c = 125 ∧ bFirst then pure entries
      else if c ≠ 34 then fail "get obj error(key is not string)"
      else
        let key ← getString 34
        let c ← readFiltered
        if c ≠ 58 then fail "get obj error(: not find)"
        else
          let entries := entries.assign key (← getValue)
          let c ← readFiltered
          if c = 44 then getObjLoop getValue turns false entries
          else if c = 125 then pure entries
          else fail "get obj error(, not find)"

def getObj (getValue : Parse (JsonValuePtr double)) :
    Parse (Entries double) := do
  getObjLoop getValue ((← get).unread + 1) true []

/-- The loop of `getArray` behind the test for an empty one. -/
def getArrayLoop (getValue : Parse (JsonValuePtr double)) :
    Nat → List (JsonValuePtr double) → Parse (List (JsonValuePtr double))
  | 0, _ => throw .unbounded
  | turns + 1, values => do
      let values := values ++ [← getValue]
      let c ← readFiltered
      if c = 44 then getArrayLoop getValue turns values
      else if c = 93 then pure values
      else fail "get vector error(, not find )"

def getArray (getValue : Parse (JsonValuePtr double)) :
    Parse (List (JsonValuePtr double)) := do
  let c ← readFiltered
  if c = 93 then pure []
  else
    back
    getArrayLoop getValue ((← get).unread + 1) []

/-- The `switch` of `getValue(BufferJsonReader &)`. -/
def getValueFrom (getValue : Parse (JsonValuePtr double)) (c : UInt8) :
    Parse (JsonValuePtr double) :=
  if c = 123 then .obj <$> getObj getValue
  else if c = 91 then .array <$> getArray getValue
  else if c = 34 then .string <$> getString c
  else if tolower c = 116 ∨ tolower c = 102 then .boolean <$> getBoolean c
  else if isDigit c ∨ c = 45 then .num <$> getNum c
  else if tolower c = 110 then do
    getNull c
    pure .null
  else do
    let reader ← get
    throw (.throws (printed "buffer overflow when peekBuf, over "
      reader.cur "."))

/-- `getValue(BufferJsonReader &)`, for values of the given depth at most. -/
def getValueWithin : Nat → Parse (JsonValuePtr double)
  | 0 => throw .unbounded
  | depth + 1 => do
      getValueFrom (getValueWithin depth) (← readFiltered)

/-- `getValue(const string &)`, with the reader at the end of the call. -/
def getValue (str : List UInt8) :
    EStateM.Result Fault BufferJsonReader (JsonValuePtr double) :=
  (getValueWithin (str.length + 1)).run { buf := str, cur := 0 }

end Values

end TarsCpp.Json
