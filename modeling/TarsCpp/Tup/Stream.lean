import TarsCpp.ByteOrder
import TarsCpp.PrefixDecoding

/-!
# The input stream of the Tars codec

`BufferReader` and the peek, read and skip macros of `Tars.h`.  Every access
to the buffer goes through `bytesAt`, which is a fault of its own when it
leaves `[0, _buf_len)`: whether that can happen is a theorem, not a
convention.  Cursor arithmetic is the 64-bit arithmetic of `size_t`.
-/

namespace TarsCpp.Tup

open PrefixDecoding

def sizeLimit : Nat := 2 ^ 64

/-- Arithmetic of `size_t`: unsigned 64-bit wrap-around. -/
def sizeT (value : Nat) : Nat := value % sizeLimit

inductive HeadType
  | char
  | short
  | int32
  | int64
  | float
  | double
  | string1
  | string4
  | map
  | list
  | structBegin
  | structEnd
  | zeroTag
  | simpleList
  | unknown (code : UInt8)
deriving DecidableEq, Repr

namespace HeadType

def code : HeadType → UInt8
  | char => 0
  | short => 1
  | int32 => 2
  | int64 => 3
  | float => 4
  | double => 5
  | string1 => 6
  | string4 => 7
  | map => 8
  | list => 9
  | structBegin => 10
  | structEnd => 11
  | zeroTag => 12
  | simpleList => 13
  | unknown code => code

def ofCode (code : UInt8) : HeadType :=
  match code.toNat with
  | 0 => char
  | 1 => short
  | 2 => int32
  | 3 => int64
  | 4 => float
  | 5 => double
  | 6 => string1
  | 7 => string4
  | 8 => map
  | 9 => list
  | 10 => structBegin
  | 11 => structEnd
  | 12 => zeroTag
  | 13 => simpleList
  | _ => unknown code

end HeadType

/-- `TarsDecodeException` and the classes derived from it. -/
inductive TarsDecodeException
  | decode (what : String)
  | mismatch (what : String)
  | requireNotExist (what : String)
  | invalidValue (what : String)
deriving DecidableEq, Repr

/-- `snprintf` into a buffer of `capacity` bytes, read back as a C string. -/
def snprintf (capacity : Nat) (text : String) : String :=
  String.ofList
    ((text.toList.takeWhile (· != Char.ofNat 0)).take (capacity - 1))

/-- What can end a decoding step early: an exception of the codec, an access
outside the buffer, or recursion deeper than the bound of this model. -/
inductive Fault
  | throws (exception : TarsDecodeException)
  | outOfBounds (index : Nat)
  | outOfFuel
deriving DecidableEq, Repr

/-- `_buf[0, _buf_len)` and `_cur`. -/
structure BufferReader where
  buf : List UInt8
  cur : Nat
  bufLen_lt : buf.length < sizeLimit

abbrev Decode := EStateM Fault BufferReader

namespace BufferReader

def setBuffer (buf : List UInt8) (bufLen_lt : buf.length < sizeLimit) :
    BufferReader :=
  { buf := buf, cur := 0, bufLen_lt := bufLen_lt }

def size (stream : BufferReader) : Nat := stream.buf.length

def moveTo (stream : BufferReader) (cur : Nat) : BufferReader :=
  { stream with cur := cur }

@[simp] theorem moveTo_buf (stream : BufferReader) (cur : Nat) :
    (stream.moveTo cur).buf = stream.buf := rfl

@[simp] theorem moveTo_size (stream : BufferReader) (cur : Nat) :
    (stream.moveTo cur).size = stream.size := rfl

@[simp] theorem moveTo_cur (stream : BufferReader) (cur : Nat) :
    (stream.moveTo cur).cur = cur := rfl

@[simp] theorem moveTo_moveTo (stream : BufferReader) (first second : Nat) :
    (stream.moveTo first).moveTo second = stream.moveTo second := rfl

/-- The cursor stands inside the buffer, in front of exactly `bytes`. -/
def Facing (stream : BufferReader) (bytes : List UInt8) : Prop :=
  stream.cur ≤ stream.size ∧ stream.buf.drop stream.cur = bytes

theorem Facing.length {stream : BufferReader} {bytes : List UInt8}
    (facing : stream.Facing bytes) :
    stream.cur + bytes.length = stream.size := by
  obtain ⟨inside, rest⟩ := facing
  have restLength := congrArg List.length rest
  rw [List.length_drop] at restLength
  unfold BufferReader.size at inside ⊢
  omega

theorem Facing.moveTo {stream : BufferReader} {front rest : List UInt8}
    (facing : stream.Facing (front ++ rest)) :
    (stream.moveTo (stream.cur + front.length)).Facing rest := by
  have total := facing.length
  rw [List.length_append] at total
  constructor
  · rw [moveTo_cur, moveTo_size]
    omega
  · rw [moveTo_buf, moveTo_cur, ← List.drop_drop, facing.2, List.drop_left]

instance : PrefixInput BufferReader UInt8 where
  Facing := Facing
  advance stream count := stream.moveTo (stream.cur + count)
  advance_zero _ := rfl
  advance_advance stream first second := by
    simp only [moveTo_moveTo, moveTo_cur, Nat.add_assoc]
  facing_advance facing := facing.moveTo

end BufferReader

def peekOverflow (stream : BufferReader) : TarsDecodeException :=
  .decode (snprintf 64
    s!"buffer overflow when peekBuf, over {stream.size % 2 ^ 32}.")

def skipOverflow (stream : BufferReader) : TarsDecodeException :=
  .decode (snprintf 64
    s!"buffer overflow when skip, over {stream.size % 2 ^ 32}.")

/-- The bytes at `[index, index + count)`; touching none is always allowed. -/
def bytesAt (index count : Nat) : Decode (List UInt8) := do
  let stream ← get
  if count = 0 ∨ index + count ≤ stream.size then
    pure ((stream.buf.drop index).take count)
  else
    throw (.outOfBounds (max index stream.size))

/-- The guard of every peek: `_cur + offset + len > _buf_len` throws. -/
def checkPeek (offset len : Nat) : Decode Unit := do
  let stream ← get
  if sizeT (stream.cur + offset + len) > stream.size then
    throw (.throws (peekOverflow stream))

/-- `TarsPeekBuf` and `TarsPeekTypeBuf`. -/
def peekBuf (len offset : Nat) : Decode (List UInt8) := do
  checkPeek offset len
  let stream ← get
  bytesAt (sizeT (stream.cur + offset)) len

/-- `TarsReadHeadSkip`: no bound is checked here. -/
def readHeadSkip (len : Nat) : Decode Unit :=
  modify fun stream => stream.moveTo (sizeT (stream.cur + len))

/-- `TarsReadTypeBuf`, `TarsReadBuf` and `TarsReadStringBuf`. -/
def readTypeBuf (len : Nat) : Decode (List UInt8) := do
  let bytes ← peekBuf len 0
  readHeadSkip len
  pure bytes

def peekByte (offset : Nat) : Decode UInt8 := do
  let bytes ← peekBuf 1 offset
  pure (bytes.headD 0)

/-- `TarsPeekFromHead`: type, tag and width of the head at the cursor. -/
def peekFromHead : Decode (HeadType × UInt8 × Nat) := do
  let typeTag ← peekByte 0
  let headType := HeadType.ofCode (typeTag &&& 0x0F)
  let tmpTag := typeTag >>> 4
  if tmpTag = 15 then
    let tag ← peekByte 1
    pure (headType, tag, 2)
  else
    pure (headType, tmpTag, 1)

def readFromHead : Decode (HeadType × UInt8) := do
  let (headType, tag, len) ← peekFromHead
  readHeadSkip len
  pure (headType, tag)

/-- `readFromHeadNoTag`; a two-byte head is checked but its tag not read. -/
def readFromHeadNoTag : Decode HeadType := do
  let typeTag ← peekByte 0
  let headType := HeadType.ofCode (typeTag &&& 0x0F)
  if typeTag >>> 4 = 15 then
    checkPeek 1 1
    readHeadSkip 2
  else
    readHeadSkip 1
  pure headType

def hasEnd : Decode Bool := do
  let stream ← get
  if stream.cur > stream.size then
    throw (.throws (skipOverflow stream))
  pure (stream.cur ≥ stream.size)

/-- The guard of `BufferReader::skip` and `BufferReader::readBuf`. -/
def checkSkip (len : Nat) : Decode Unit := do
  let stream ← get
  if ¬(len ≤ stream.size ∧ sizeT (stream.cur + len) ≤ stream.size) then
    throw (.throws (skipOverflow stream))

def skip (len : Nat) : Decode Unit := do
  checkSkip len
  readHeadSkip len

def readBuf (len : Nat) : Decode (List UInt8) := do
  checkSkip len
  let bytes ← peekBuf len 0
  readHeadSkip len
  pure bytes

/-- `catch (TarsDecodeException& e) {}` around a computation. -/
def catchDecode {α : Type} (computation : Decode α) (fallback : α) :
    Decode α := fun stream =>
  match computation.run stream with
  | .error (.throws _) stream' => .ok fallback stream'
  | outcome => outcome

theorem catchDecode_run {α : Type} (computation : Decode α) (fallback : α)
    (stream : BufferReader) :
    (catchDecode computation fallback).run stream =
      match computation.run stream with
      | .error (.throws _) stream' => .ok fallback stream'
      | outcome => outcome := rfl

theorem sizeT_of_le_size (stream : BufferReader) {value : Nat}
    (inside : value ≤ stream.size) : sizeT value = value := by
  have fits := stream.bufLen_lt
  unfold BufferReader.size at inside
  exact Nat.mod_eq_of_lt (by omega)

theorem checkPeek_run {stream : BufferReader} {offset len : Nat}
    (inside : stream.cur + offset + len ≤ stream.size) :
    (checkPeek offset len).run stream = .ok () stream := by
  unfold checkPeek
  rw [EStateM.run_bind, EStateM.run_get]
  simp only
  rw [sizeT_of_le_size stream inside, if_neg (by omega)]
  rfl

theorem bytesAt_run {stream : BufferReader} {index count : Nat}
    (inside : index + count ≤ stream.size) :
    (bytesAt index count).run stream =
      .ok ((stream.buf.drop index).take count) stream := by
  unfold bytesAt
  rw [EStateM.run_bind, EStateM.run_get]
  simp only
  rw [if_pos (.inr inside)]
  rfl

theorem peekBuf_run {stream : BufferReader} {front bytes rest : List UInt8}
    (facing : stream.Facing (front ++ (bytes ++ rest))) :
    (peekBuf bytes.length front.length).run stream = .ok bytes stream := by
  have total := facing.length
  simp only [List.length_append] at total
  have index :
      sizeT (stream.cur + front.length) = stream.cur + front.length :=
    sizeT_of_le_size stream (by omega)
  have content :
      (stream.buf.drop (stream.cur + front.length)).take bytes.length =
        bytes := by
    rw [← List.drop_drop, facing.2, List.drop_left, List.take_left]
  unfold peekBuf
  rw [EStateM.run_bind, checkPeek_run (by omega)]
  simp only [EStateM.run_bind, EStateM.run_get, index]
  rw [bytesAt_run (by omega), content]

theorem readHeadSkip_run {stream : BufferReader} {front rest : List UInt8}
    (facing : stream.Facing (front ++ rest)) :
    (readHeadSkip front.length).run stream =
      .ok () (stream.moveTo (stream.cur + front.length)) := by
  have total := facing.length
  rw [List.length_append] at total
  unfold readHeadSkip
  rw [EStateM.run_modify,
    sizeT_of_le_size stream (by omega)]

theorem reads_readHeadSkip (bytes : List UInt8) :
    Reads (readHeadSkip bytes.length) bytes () := by
  intro stream rest facing
  exact readHeadSkip_run facing

theorem reads_readTypeBuf (bytes : List UInt8) :
    Reads (readTypeBuf bytes.length) bytes bytes := by
  intro stream rest facing
  have peeked := @peekBuf_run stream [] bytes rest facing
  rw [List.length_nil] at peeked
  unfold readTypeBuf
  simp only [EStateM.run_bind, peeked, readHeadSkip_run facing,
    EStateM.run_pure]
  rfl

theorem peekByte_run {stream : BufferReader} {front rest : List UInt8}
    {byte : UInt8} (facing : stream.Facing (front ++ (byte :: rest))) :
    (peekByte front.length).run stream = .ok byte stream := by
  have peeked := @peekBuf_run stream front [byte] rest facing
  rw [List.length_singleton] at peeked
  unfold peekByte
  simp only [EStateM.run_bind, peeked, EStateM.run_pure]
  rfl

end TarsCpp.Tup
