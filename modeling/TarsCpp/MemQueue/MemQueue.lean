import TarsCpp.ByteOrder
import TarsCpp.SharedMemory.ModifyJournal

/-!
# `TC_MemQueue`: the queue in shared memory

A byte ring behind a control block and a modification journal.  Every string
is stored as its length, a `size_t` in the machine's byte order, and its
bytes; both may be cut by the end of the ring.  Content bytes are written
directly, the indices and counters through the journal.

Objects are smaller than `2 ^ 63` bytes, so that no sum of indices and sizes
wraps; the two counters may wrap.  An access to content bytes outside of the
area is a failure of the run.
-/

namespace TarsCpp

namespace MemQueue

open Interruption SharedMemory

/-- The words of `CONTROL_BLOCK`. -/
inductive ControlWord
  | iMemSize
  | iTopIndex
  | iBotIndex
  | iPushCount
  | iPopCount
deriving DecidableEq, Repr

/-- The bytes from `_paddr` to the end of the shared memory. -/
structure DataArea where
  size : Nat
  byte : Nat → UInt8

def sizeofControlBlock : Nat := 5 * 8

def sizeofModifyHead : Nat := 1 + 8 + 5 * (8 + 1 + 8)

def sizeofSizeT : Nat := 8

/-- The five slots of `tagModifyHead`, for values of type `size_t` and
`bool`. -/
def modifyLayout : JournalLayout ControlWord where
  capacity := 5
  convert bytes value :=
    if bytes = sizeofSizeT then some value
    else if bytes = 1 then some (if value = 0 then 0 else 1)
    else none
  zero := .iMemSize

abbrev QueueArea := Area ControlWord DataArea

abbrev QueueTask (α : Type) := AreaTask ControlWord DataArea α

/-- The bytes of a `size_t`, least significant first. -/
def sizeBytes (value : Nat) : List UInt8 :=
  (ByteOrder.bigEndian sizeofSizeT value).reverse

def sizeOfBytes (bytes : List UInt8) : Nat :=
  ByteOrder.ofBigEndian bytes.reverse

def word (name : ControlWord) : QueueTask Nat :=
  read (·.words name)

def setWord (name : ControlWord) (value : Nat) : QueueTask Unit :=
  write (Area.withWord name value)

def DataArea.withByte (offset : Nat) (symbol : UInt8) (data : DataArea) :
    DataArea :=
  { data with byte := Function.update data.byte offset symbol }

def storeByte (offset : Nat) (symbol : UInt8) : QueueTask Unit := do
  let size ← read (·.rest.size)
  require (offset < size) .outside
  write fun area => { area with rest := area.rest.withByte offset symbol }

/-- `memcpy((char*)_paddr + offset, bytes, …)`. -/
def copyIn : Nat → List UInt8 → QueueTask Unit
  | _, [] => pure ()
  | offset, symbol :: later => do
      storeByte offset symbol
      copyIn (offset + 1) later

/-- `memcpy(…, (char*)_paddr + offset, count)`. -/
def copyOut (offset count : Nat) : QueueTask (List UInt8) := do
  let size ← read (·.rest.size)
  require (offset + count ≤ size) .outside
  read fun area =>
    (List.range count).map fun i => area.rest.byte (offset + i)

/-- The object of a process that created the queue or connected to it. -/
structure TcMemQueue where
  size : Nat
deriving DecidableEq, Repr

def doUpdate (bUpdate : Bool) : QueueTask Unit :=
  modifyLayout.doUpdate bUpdate

def update (iModifyAddr : ControlWord) (iModifyValue : Nat) :
    QueueTask Unit :=
  modifyLayout.update iModifyAddr iModifyValue sizeofSizeT

def create (iSize : Nat) : QueueTask TcMemQueue := do
  require (iSize ≠ 0) .assertion
  setWord .iMemSize iSize
  setWord .iTopIndex 0
  setWord .iBotIndex 0
  setWord .iPopCount 0
  setWord .iPushCount 0
  return ⟨iSize⟩

def connect (iSize : Nat) : QueueTask TcMemQueue := do
  let iMemSize ← word .iMemSize
  require (iSize = iMemSize) .assertion
  return ⟨iMemSize⟩

namespace TcMemQueue

variable (queue : TcMemQueue)

def queueSize : QueueTask Nat := do
  doUpdate false
  return queue.size - sizeofControlBlock - sizeofModifyHead

def isFull (iSize : Nat) : QueueTask Bool := do
  doUpdate false
  let iTopIndex ← word .iTopIndex
  let iBotIndex ← word .iBotIndex
  if iTopIndex < iBotIndex then
    return decide (iTopIndex + sizeofSizeT + iSize ≥ iBotIndex)
  else if iTopIndex > iBotIndex then
    let size ← queue.queueSize
    return decide (iTopIndex + sizeofSizeT + iSize ≥ iBotIndex + size)
  else
    return false

def isEmpty : QueueTask Bool := do
  doUpdate false
  let iTopIndex ← word .iTopIndex
  let iBotIndex ← word .iBotIndex
  return decide (iTopIndex = iBotIndex)

def elementCount : QueueTask Nat := do
  doUpdate false
  let iPushCount ← word .iPushCount
  let iPopCount ← word .iPopCount
  if iPushCount ≥ iPopCount then return iPushCount - iPopCount
  else return (2 ^ 64 - 1) - iPopCount + iPushCount

/-- The branches that `front` and `pop_front` share: the oldest string, and
the bottom index behind it. -/
def readFront : QueueTask (List UInt8 × Nat) := do
  let iBotIndex ← word .iBotIndex
  let size ← queue.queueSize
  if iBotIndex + sizeofSizeT ≤ size then
    let bytes ← copyOut iBotIndex sizeofSizeT
    let iSize := sizeOfBytes bytes
    if iBotIndex + sizeofSizeT + iSize ≤ size then
      let sOut ← copyOut (iBotIndex + sizeofSizeT) iSize
      return (sOut, iBotIndex + sizeofSizeT + iSize)
    else
      let iLeftSize := size - iBotIndex - sizeofSizeT
      let front ← copyOut (iBotIndex + sizeofSizeT) iLeftSize
      let back ← copyOut 0 (iSize - iLeftSize)
      return (front ++ back, iSize - iLeftSize)
  else
    let iLeftSize := size - iBotIndex
    let low ← copyOut iBotIndex iLeftSize
    let high ← copyOut 0 (sizeofSizeT - iLeftSize)
    let iSize := sizeOfBytes (low ++ high)
    let sOut ← copyOut (sizeofSizeT - iLeftSize) iSize
    return (sOut, iSize + sizeofSizeT - iLeftSize)

/-- `false` with an untouched `sOut` is `none`. -/
def front : QueueTask (Option (List UInt8)) := do
  let empty ← isEmpty
  if empty then return none
  else
    doUpdate false
    let (sOut, _) ← queue.readFront
    return some sOut

def popFront : QueueTask (Option (List UInt8)) := do
  let empty ← isEmpty
  if empty then return none
  else
    doUpdate false
    let (sOut, iBotIndex) ← queue.readFront
    update .iBotIndex iBotIndex
    let iPopCount ← word .iPopCount
    update .iPopCount ((iPopCount + 1) % 2 ^ 64)
    doUpdate true
    return some sOut

/-- The branches of `push_back` that store length and content; the result is
the new top index. -/
def storeBack (pvIn : List UInt8) : QueueTask Nat := do
  let iSize := pvIn.length
  let iTopIndex ← word .iTopIndex
  let size ← queue.queueSize
  if iTopIndex + sizeofSizeT + iSize ≤ size then
    copyIn iTopIndex (sizeBytes iSize)
    copyIn (iTopIndex + sizeofSizeT) pvIn
    return iTopIndex + sizeofSizeT + iSize
  else
    let iLeftSize := size - iTopIndex
    if iLeftSize < sizeofSizeT then
      copyIn iTopIndex ((sizeBytes iSize).take iLeftSize)
      copyIn 0 ((sizeBytes iSize).drop iLeftSize)
      copyIn (sizeofSizeT - iLeftSize) pvIn
      return iSize + sizeofSizeT - iLeftSize
    else
      copyIn iTopIndex (sizeBytes iSize)
      let iLeftSize1 := iLeftSize - sizeofSizeT
      copyIn (iTopIndex + sizeofSizeT) (pvIn.take iLeftSize1)
      copyIn 0 (pvIn.drop iLeftSize1)
      return iSize - iLeftSize1

def pushBack (pvIn : List UInt8) : QueueTask Bool := do
  let full ← queue.isFull pvIn.length
  if full then return false
  else
    doUpdate false
    let iTopIndex ← queue.storeBack pvIn
    update .iTopIndex iTopIndex
    let iPushCount ← word .iPushCount
    update .iPushCount ((iPushCount + 1) % 2 ^ 64)
    doUpdate true
    return true

end TcMemQueue

/-- A shared memory of the given size, all bytes zero. -/
def zeroFilled (dataSize : Nat) : QueueArea where
  head := ⟨0, 0, fun _ => ⟨.iMemSize, 0, 0⟩⟩
  words _ := 0
  rest := ⟨dataSize, fun _ => 0⟩

inductive Operation
  | pushBack (pvIn : List UInt8)
  | popFront
  | front
  | isEmpty
  | elementCount
deriving DecidableEq, Repr

inductive Result
  | pushed (done : Bool)
  | popped (sOut : Option (List UInt8))
  | peeked (sOut : Option (List UInt8))
  | empty (answer : Bool)
  | count (number : Nat)
deriving DecidableEq, Repr

def perform (queue : TcMemQueue) : Operation → QueueTask Result
  | .pushBack pvIn => .pushed <$> queue.pushBack pvIn
  | .popFront => .popped <$> queue.popFront
  | .front => .peeked <$> queue.front
  | .isEmpty => .empty <$> TcMemQueue.isEmpty
  | .elementCount => .count <$> TcMemQueue.elementCount

end MemQueue

end TarsCpp
