import TarsCpp.ByteOrder
import TarsCpp.PrefixDecoding

/-!
# `TC_PackIn` and `TC_PackOut`

The host is little-endian and its `long` has eight bytes.  A read behind the
buffer is a fault of its own.
-/

namespace TarsCpp.Pack

open ByteOrder PrefixDecoding

/-- The bytes of a word of the host. -/
def memory (width value : Nat) : List UInt8 := (bigEndian width value).reverse

/-- The word at these bytes. -/
def fromMemory (bytes : List UInt8) : Nat := ofBigEndian bytes.reverse

/-- `htons` and `htonl`, and their inverses. -/
def swapBytes (width value : Nat) : Nat :=
  ofBigEndian (bigEndian width value).reverse

def pack_htonll (x : Nat) : Nat :=
  let i32_0 := x % 2 ^ 32
  let i32_1 := x / 2 ^ 32
  let tmp := swapBytes 4 i32_1
  swapBytes 4 i32_0 * 2 ^ 32 + tmp

def pack_ntohll (x : Nat) : Nat := pack_htonll x

/-- The values with an operator; `float` and `double` are opaque words. -/
inductive Value
  | bool (t : Bool)
  | char (t : Int8)
  | unsignedChar (t : UInt8)
  | short (t : Int16)
  | unsignedShort (t : UInt16)
  | int (t : Int32)
  | unsignedInt (t : UInt32)
  | long (t : Int64)
  | unsignedLong (t : UInt64)
  | longLong (t : Int64)
  | unsignedLongLong (t : UInt64)
  | float (t : UInt32)
  | double (t : UInt64)
  /-- `char *`, without the NUL. -/
  | zeroString (sBuffer : { text : List UInt8 // 0 ∉ text })
  | string (sBuffer : List UInt8)
deriving DecidableEq

inductive Kind
  | bool | char | unsignedChar | short | unsignedShort | int | unsignedInt
  | long | unsignedLong | longLong | unsignedLongLong | float | double
  | zeroString | string
deriving DecidableEq

def Value.kind : Value → Kind
  | .bool _ => .bool
  | .char _ => .char
  | .unsignedChar _ => .unsignedChar
  | .short _ => .short
  | .unsignedShort _ => .unsignedShort
  | .int _ => .int
  | .unsignedInt _ => .unsignedInt
  | .long _ => .long
  | .unsignedLong _ => .unsignedLong
  | .longLong _ => .longLong
  | .unsignedLongLong _ => .unsignedLongLong
  | .float _ => .float
  | .double _ => .double
  | .zeroString _ => .zeroString
  | .string _ => .string

/-- `operator <<` of a `std::string`. -/
def packString (sBuffer : List UInt8) : List UInt8 :=
  let len := sBuffer.length % 2 ^ 32
  if len < 255 then UInt8.ofNat len :: sBuffer
  else 255 :: memory 4 (swapBytes 4 len) ++ sBuffer

/-- What `operator <<` appends. -/
def pack : Value → List UInt8
  | .bool t => [if t then 1 else 0]
  | .char t => [t.toUInt8]
  | .unsignedChar t => [t]
  | .short t => memory 2 (swapBytes 2 t.toUInt16.toNat)
  | .unsignedShort t => memory 2 (swapBytes 2 t.toNat)
  | .int t => memory 4 (swapBytes 4 t.toUInt32.toNat)
  | .unsignedInt t => memory 4 (swapBytes 4 t.toNat)
  | .long t => memory 8 (pack_htonll t.toUInt64.toNat)
  | .unsignedLong t => memory 8 (pack_htonll t.toNat)
  | .longLong t => memory 8 (pack_htonll t.toUInt64.toNat)
  | .unsignedLongLong t => memory 8 (pack_htonll t.toNat)
  | .float t => memory 4 (swapBytes 4 t.toNat)
  | .double t => memory 8 (pack_htonll t.toNat)
  | .zeroString sBuffer => sBuffer.val ++ [0]
  | .string sBuffer => packString sBuffer

structure TcPackOut where
  _pbuffer : List UInt8
  _pos : Nat

namespace TcPackOut

def _length (out : TcPackOut) : Nat := out._pbuffer.length

def init (pBuffer : List UInt8) : TcPackOut := ⟨pBuffer, 0⟩

def isEnd (out : TcPackOut) : Bool := out._pos ≥ out._length

instance : PrefixInput TcPackOut UInt8 where
  Facing out front := out._pbuffer.drop out._pos = front ∧ out._pos ≤ out._length
  advance out bytes := { out with _pos := out._pos + bytes }
  advance_zero _ := rfl
  advance_advance _ _ _ := by rw [Nat.add_assoc]
  facing_advance := by
    rintro out front rest ⟨facing, inside⟩
    have length := congrArg List.length facing
    rw [List.length_drop, List.length_append] at length
    refine ⟨?_, ?_⟩
    · rw [← List.drop_drop, facing, List.drop_left]
    · change out._pos + front.length ≤ out._length
      rw [_length] at *
      omega

end TcPackOut

inductive Fault
  | TC_PackOut_Exception (buffer : String)
  /-- A byte at or behind `_length`. -/
  | outside
deriving DecidableEq

abbrev Unpack := EStateM Fault TcPackOut

/-- `memcpy` of `len` bytes, and the step behind them. -/
def bytes (len : Nat) (error : String) : Unpack (List UInt8) := do
  let out ← get
  if out._pos + len > out._length then throw (.TC_PackOut_Exception error)
  else
    set { out with _pos := out._pos + len }
    pure ((out._pbuffer.drop out._pos).take len)

def unpackUnsignedChar : Unpack UInt8 := do
  let memory ← bytes 1 "TC_PackOut read unsigned char error."
  pure (UInt8.ofNat (fromMemory memory))

def unpackUnsignedInt : Unpack UInt32 := do
  let memory ← bytes 4 "TC_PackOut read unsigned int error."
  pure (UInt32.ofNat (swapBytes 4 (fromMemory memory)))

/-- `operator >>` of a `char *`. -/
def unpackZeroString : Unpack { text : List UInt8 // 0 ∉ text } := do
  let out ← get
  let rest := out._pbuffer.drop out._pos
  if 0 ∈ rest then
    let sBuffer := rest.takeWhile (· ≠ 0)
    set { out with _pos := out._pos + (sBuffer.length + 1) }
    if out._pos + (sBuffer.length + 1) > out._length then
      throw (.TC_PackOut_Exception "TC_PackOut read zero string error.")
    else
      pure ⟨sBuffer, fun inside => by
        simpa using List.all_eq_true.mp List.all_takeWhile 0 inside⟩
  else
    throw .outside

/-- The length in front of a `std::string`. -/
def unpackLength : Unpack Nat := do
  let c ← unpackUnsignedChar
  if c = 255 then
    let len ← unpackUnsignedInt
    pure len.toNat
  else
    pure c.toNat

/-- `operator >>` of a `std::string`. -/
def unpackString : Unpack (List UInt8) := do
  let len ← unpackLength
  bytes len "TC_PackOut read string error."

def unpack : Kind → Unpack Value
  | .bool => do
      let memory ← bytes 1 "TC_PackOut read bool error."
      pure (.bool (fromMemory memory ≠ 0))
  | .char => do
      let memory ← bytes 1 "TC_PackOut read char error."
      pure (.char (UInt8.ofNat (fromMemory memory)).toInt8)
  | .unsignedChar => do
      let t ← unpackUnsignedChar
      pure (.unsignedChar t)
  | .short => do
      let memory ← bytes 2 "TC_PackOut read short error."
      pure (.short (UInt16.ofNat (swapBytes 2 (fromMemory memory))).toInt16)
  | .unsignedShort => do
      let memory ← bytes 2 "TC_PackOut read unsigned short error."
      pure (.unsignedShort (UInt16.ofNat (swapBytes 2 (fromMemory memory))))
  | .int => do
      let memory ← bytes 4 "TC_PackOut read int error."
      pure (.int (UInt32.ofNat (swapBytes 4 (fromMemory memory))).toInt32)
  | .unsignedInt => do
      let t ← unpackUnsignedInt
      pure (.unsignedInt t)
  | .long => do
      let memory ← bytes 8 "TC_PackOut read long error."
      pure (.long (UInt64.ofNat (pack_ntohll (fromMemory memory))).toInt64)
  | .unsignedLong => do
      let memory ← bytes 8 "TC_PackOut read long error."
      pure (.unsignedLong (UInt64.ofNat (pack_ntohll (fromMemory memory))))
  | .longLong => do
      let memory ← bytes 8 "TC_PackOut read long long error."
      pure (.longLong (UInt64.ofNat (pack_ntohll (fromMemory memory))).toInt64)
  | .unsignedLongLong => do
      let memory ← bytes 8 "TC_PackOut read long long error."
      pure (.unsignedLongLong (UInt64.ofNat (pack_ntohll (fromMemory memory))))
  | .float => do
      let memory ← bytes 4 "TC_PackOut read float error."
      pure (.float (UInt32.ofNat (swapBytes 4 (fromMemory memory))))
  | .double => do
      let memory ← bytes 8 "TC_PackOut read double error."
      pure (.double (UInt64.ofNat (pack_ntohll (fromMemory memory))))
  | .zeroString => do
      let sBuffer ← unpackZeroString
      pure (.zeroString sBuffer)
  | .string => do
      let sBuffer ← unpackString
      pure (.string sBuffer)

def packAll (values : List Value) : List UInt8 := values.flatMap pack

def unpackAll (kinds : List Kind) : Unpack (List Value) := kinds.mapM unpack

abbrev Outcome := EStateM.Result Fault TcPackOut Value

def Outcome.state : Outcome → TcPackOut
  | .ok _ out => out
  | .error _ out => out

/-- Reads by a caller that goes on behind an exception. -/
def readEach : List Kind → TcPackOut → List Outcome
  | [], _ => []
  | kind :: kinds, out =>
      let outcome : Outcome := (unpack kind).run out
      outcome :: readEach kinds outcome.state

end TarsCpp.Pack
