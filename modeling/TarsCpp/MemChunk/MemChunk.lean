import TarsCpp.FlatMemory

/-!
# The block allocator in shared memory

`TC_MemChunk` cuts an area into blocks of one size and links the free ones
through their first words.  `TC_MemMultiChunkAllocator` puts one such area for
every block size behind its head; an appended area is a further allocator of
this kind, nested in the last one.

An address is counted from the start of the shared memory, so that it is the
same in every process; `NULL` is `none`.  Arithmetic on sizes wraps at
`2 ^ 64` where `create` computes sizes from its parameters.
-/

namespace TarsCpp

namespace MemChunk

open Interruption FlatMemory

inductive Failure
  | assertion
  | outside
  /-- Division by zero. -/
  | division
deriving DecidableEq, Repr

abbrev MemTask (α : Type) := Task Failure Memory α

def loadSize (address : Nat) : MemTask Nat :=
  load .outside 8 address

def storeSize (address value : Nat) : MemTask Unit :=
  store .outside 8 address value

def memsetZero (address count : Nat) : MemTask Unit :=
  fill .outside address count

def assert (condition : Prop) [Decidable condition] : MemTask Unit :=
  require condition .assertion

def wrapped (value : Nat) : Nat :=
  value % 2 ^ 64

/-- A `TC_MemChunk` is the address of its `tagChunkHead`: block size, block
count, first available block, available blocks. -/
structure TcMemChunk where
  pHead : Nat
deriving DecidableEq, Repr

namespace TcMemChunk

def getHeadSize : Nat := 4 * 8

variable (chunk : TcMemChunk)

def pData : Nat := chunk.pHead + getHeadSize

def iBlockSize : MemTask Nat := loadSize chunk.pHead

def iBlockCount : MemTask Nat := loadSize (chunk.pHead + 8)

def firstAvailableBlock : MemTask Nat := loadSize (chunk.pHead + 16)

def blockAvailable : MemTask Nat := loadSize (chunk.pHead + 24)

def calcMemSize (iBlockSize iBlockCount : Nat) : Nat :=
  wrapped (iBlockSize * iBlockCount + getHeadSize)

/-- Every block starts with the number of the next one. -/
def linkBlocks (iBlockSize iBlockCount : Nat) : MemTask Unit :=
  forM (List.range iBlockCount) fun i =>
    storeSize (chunk.pData + i * iBlockSize) (i + 1)

def create (iBlockSize iBlockCount : Nat) : MemTask Unit := do
  assert (8 < iBlockSize)
  storeSize chunk.pHead iBlockSize
  storeSize (chunk.pHead + 8) iBlockCount
  storeSize (chunk.pHead + 16) 0
  storeSize (chunk.pHead + 24) iBlockCount
  memsetZero chunk.pData (iBlockCount * iBlockSize)
  chunk.linkBlocks iBlockSize iBlockCount

def allocate : MemTask (Option Nat) := do
  let available ← chunk.blockAvailable
  if available > 0 then
    let first ← chunk.firstAvailableBlock
    let iBlockSize ← chunk.iBlockSize
    let result := chunk.pData + first * iBlockSize
    storeSize (chunk.pHead + 24) (available - 1)
    let next ← loadSize result
    storeSize (chunk.pHead + 16) next
    memsetZero result 8
    return some result
  else return none

/-- The address and the index from one on; `none` is `NULL` with index
zero. -/
def allocate2 : MemTask (Option (Nat × Nat)) := do
  let first ← chunk.firstAvailableBlock
  let pAddr ← chunk.allocate
  return pAddr.map fun address => (address, first + 1)

def deallocate (pAddr : Nat) : MemTask Unit := do
  assert (pAddr ≥ chunk.pData)
  let iBlockSize ← chunk.iBlockSize
  assert ((pAddr - chunk.pData) % iBlockSize = 0)
  memsetZero pAddr iBlockSize
  let first ← chunk.firstAvailableBlock
  storeSize pAddr first
  storeSize (chunk.pHead + 16) ((pAddr - chunk.pData) / iBlockSize)
  let released ← chunk.firstAvailableBlock
  assert (released = (pAddr - chunk.pData) / iBlockSize)
  let available ← chunk.blockAvailable
  storeSize (chunk.pHead + 24) (available + 1)

def deallocate2 (iIndex : Nat) : MemTask Unit := do
  let iBlockCount ← chunk.iBlockCount
  assert (iIndex > 0 ∧ iIndex ≤ iBlockCount)
  let iBlockSize ← chunk.iBlockSize
  chunk.deallocate (chunk.pData + (iIndex - 1) * iBlockSize)

def getAbsolute (iIndex : Nat) : MemTask Nat := do
  let iBlockCount ← chunk.iBlockCount
  assert (iIndex > 0 ∧ iIndex ≤ iBlockCount)
  let iBlockSize ← chunk.iBlockSize
  return chunk.pData + (iIndex - 1) * iBlockSize

def getRelative (pAddr : Nat) : MemTask Nat := do
  let iBlockSize ← chunk.iBlockSize
  let iBlockCount ← chunk.iBlockCount
  assert (pAddr ≥ chunk.pData ∧
    pAddr ≤ chunk.pData + iBlockSize * iBlockCount)
  assert ((pAddr - chunk.pData) % iBlockSize = 0)
  return 1 + (pAddr - chunk.pData) / iBlockSize

end TcMemChunk

/-- A `TC_MemChunkAllocator` is the address of its head (size, block size),
which its chunk follows. -/
structure TcMemChunkAllocator where
  pHead : Nat
deriving DecidableEq, Repr

namespace TcMemChunkAllocator

def getHeadSize : Nat := 2 * 8

variable (allocator : TcMemChunkAllocator)

def chunk : TcMemChunk := ⟨allocator.pHead + getHeadSize⟩

def getMemSize : MemTask Nat := loadSize allocator.pHead

def getBlockSize : MemTask Nat := loadSize (allocator.pHead + 8)

def initChunk : MemTask Unit := do
  let iSize ← allocator.getMemSize
  assert (iSize > getHeadSize)
  let iChunkCapacity := iSize - getHeadSize
  assert (iChunkCapacity > TcMemChunk.getHeadSize)
  let iBlockSize ← allocator.getBlockSize
  require (iBlockSize ≠ 0) .division
  let iBlockCount := (iChunkCapacity - TcMemChunk.getHeadSize) / iBlockSize
  assert (iBlockCount > 0)
  allocator.chunk.create iBlockSize iBlockCount

def create (iSize iBlockSize : Nat) : MemTask Unit := do
  storeSize allocator.pHead iSize
  storeSize (allocator.pHead + 8) iBlockSize
  allocator.initChunk

def connect : MemTask Unit := do
  let iSize ← allocator.getMemSize
  assert (iSize > getHeadSize)
  assert (iSize - getHeadSize > TcMemChunk.getHeadSize)

def deallocate (pAddr : Nat) : MemTask Unit := do
  assert (pAddr ≥ allocator.chunk.pHead)
  allocator.chunk.deallocate pAddr

end TcMemChunkAllocator

/-- The growth factor, a `float` known by its four bytes. -/
structure Factor where
  /-- `fFactor >= 1.0` -/
  atLeastOne : Nat → Bool
  /-- `(size_t)(n * fFactor)` -/
  scaled : Nat → Nat → Nat

/-- One part of a `TC_MemMultiChunkAllocator`: what the object of a process
keeps of a `tagChunkAllocatorHead` and the areas behind it.  The head has the
size of the part, the size of all parts, smallest and largest block, factor and
the distance of the next part. -/
structure Part where
  pHead : Nat
  vBlockSize : List Nat
  iBlockCount : Nat
  allocator : List TcMemChunkAllocator
  iAllIndex : Nat
deriving DecidableEq, Repr

/-- An allocator and the ones nested in it (`_nallocator`), outermost
first. -/
abbrev TcMemMultiChunkAllocator := List Part

namespace TcMemMultiChunkAllocator

def getHeadSize : Nat := 4 * 8 + 4 + 8

def iSize (pHead : Nat) : MemTask Nat := loadSize pHead

def iTotalSize (pHead : Nat) : MemTask Nat := loadSize (pHead + 8)

def iMinBlockSize (pHead : Nat) : MemTask Nat := loadSize (pHead + 16)

def iMaxBlockSize (pHead : Nat) : MemTask Nat := loadSize (pHead + 24)

def fFactor (pHead : Nat) : MemTask Nat := load .outside 4 (pHead + 32)

def iNext (pHead : Nat) : MemTask Nat := loadSize (pHead + 36)

variable (factor : Factor)

/-- The loop of `calc` over the block sizes below the largest one, each at
least one more than the one before, for as many turns. -/
def growingSizesFor (bits iMaxBlockSize : Nat) : (turns : Nat) → (n : Nat) →
    List Nat
  | 0, _ => []
  | turns + 1, n =>
      if n < iMaxBlockSize then
        n :: growingSizesFor bits iMaxBlockSize turns
          (max (factor.scaled bits n) (n + 1))
      else []

/-- The size grows with every turn. -/
def growingSizes (bits iMaxBlockSize n : Nat) : List Nat :=
  growingSizesFor factor bits iMaxBlockSize (iMaxBlockSize - n) n

def blockSizes (bits iMinBlockSize iMaxBlockSize : Nat) : List Nat :=
  growingSizes factor bits iMaxBlockSize iMinBlockSize ++ [iMaxBlockSize]

/-- The sum that the loop of `calc` accumulates. -/
def wrappedSum (sizes : List Nat) : Nat :=
  sizes.foldl (fun sum n => wrapped (sum + n)) 0

/-- The heads of a part with so many block sizes. -/
def headsSize (classes : Nat) : Nat :=
  getHeadSize + TcMemChunkAllocator.getHeadSize * classes +
    TcMemChunk.getHeadSize * classes

/-- `calc`: the block sizes and the number of blocks of each size. -/
def calcBlocks (pHead : Nat) : MemTask (List Nat × Nat) := do
  let bits ← fFactor pHead
  let min ← iMinBlockSize pHead
  let max ← iMaxBlockSize pHead
  let vBlockSize := blockSizes factor bits min max
  let size ← iSize pHead
  assert (size > headsSize vBlockSize.length)
  require (wrappedSum vBlockSize ≠ 0) .division
  let iBlockCount :=
    (size - headsSize vBlockSize.length) / wrappedSum vBlockSize
  assert (iBlockCount ≥ 1)
  return (vBlockSize, iBlockCount)

/-- `iAllocSize` of a block size. -/
def classSize (iBlockCount blockSize : Nat) : Nat :=
  wrapped (TcMemChunkAllocator.getHeadSize +
    TcMemChunk.calcMemSize blockSize iBlockCount)

/-- The loops of `create` and `connect` over the block sizes: `start` is run
at the begin of each area. -/
def startClasses (start : TcMemChunkAllocator → Nat → MemTask Unit)
    (iBlockCount : Nat) : Nat → List Nat → MemTask (List TcMemChunkAllocator)
  | _, [] => pure []
  | pChunkBegin, blockSize :: later => do
      start ⟨pChunkBegin⟩ blockSize
      let others ← startClasses start iBlockCount
        (pChunkBegin + classSize iBlockCount blockSize) later
      return ⟨pChunkBegin⟩ :: others

def startPart (start : Nat → TcMemChunkAllocator → Nat → MemTask Unit)
    (pAddr : Nat) : MemTask Part := do
  let (vBlockSize, iBlockCount) ← calcBlocks factor pAddr
  let allocator ← startClasses (start iBlockCount) iBlockCount
    (pAddr + getHeadSize) vBlockSize
  return ⟨pAddr, vBlockSize, iBlockCount, allocator,
    allocator.length * iBlockCount⟩

def create (pAddr iSize iMinBlockSize iMaxBlockSize bits : Nat) :
    MemTask Part := do
  assert (iMaxBlockSize ≥ iMinBlockSize)
  assert (factor.atLeastOne bits)
  storeSize pAddr iSize
  storeSize (pAddr + 8) iSize
  storeSize (pAddr + 16) iMinBlockSize
  storeSize (pAddr + 24) iMaxBlockSize
  store .outside 4 (pAddr + 32) bits
  storeSize (pAddr + 36) 0
  startPart factor (fun iBlockCount allocator blockSize =>
    allocator.create (classSize iBlockCount blockSize) blockSize) pAddr

def connectPart (pAddr : Nat) : MemTask Part :=
  startPart factor (fun _ allocator _ => allocator.connect) pAddr

/-- The parts lie one behind the other in the memory, so there are not more of
them than it has bytes. -/
def connectParts : (parts : Nat) → (pAddr : Nat) →
    MemTask TcMemMultiChunkAllocator
  | 0, _ => raise .outside
  | parts + 1, pAddr => do
      let part ← connectPart factor pAddr
      let next ← iNext pAddr
      if next = 0 then return [part]
      else
        let size ← iSize pAddr
        assert (next = size)
        let nested ← connectParts parts (pAddr + next)
        return part :: nested

def connect (pAddr : Nat) : MemTask TcMemMultiChunkAllocator := do
  let size ← read (·.size)
  connectParts factor size pAddr

/-- The head that gets the distance of the new part is the one of `lastAlloc`,
or the own one if nothing is nested yet. -/
def append (pAddr size : Nat) : MemTask TcMemMultiChunkAllocator := do
  let parts ← connect factor pAddr
  let total ← iTotalSize pAddr
  assert (size > total)
  let pAppendAddr := pAddr + total
  let min ← iMinBlockSize pAddr
  let max ← iMaxBlockSize pAddr
  let bits ← fFactor pAddr
  let p ← create factor pAppendAddr (size - total) min max bits
  let palloc := (parts.getLast?.map Part.pHead).getD pAddr
  storeSize (palloc + 36) (pAppendAddr - palloc)
  let next ← iNext pAddr
  let ownSize ← iSize pAddr
  assert (next = ownSize)
  storeSize (pAddr + 8) size
  return parts ++ [p]

/-- What `allocate2` returns: address, `iAllocSize` and `iIndex`. -/
structure Allocated where
  pAddr : Nat
  iAllocSize : Nat
  iIndex : Nat
deriving DecidableEq, Repr

/-- The areas of a part with their numbers and block sizes. -/
def classes (part : Part) : List (TcMemChunkAllocator × Nat × Nat) :=
  part.allocator.zip (part.vBlockSize.zipIdx)

/-- One of the two loops of `allocate2`: the first area with an acceptable
block size that has a free block. -/
def tryClasses (iBlockCount : Nat) (acceptable : Nat → Bool) :
    List (TcMemChunkAllocator × Nat × Nat) → MemTask (Option Allocated)
  | [] => return none
  | (allocator, blockSize, i) :: later => do
      let size ← allocator.getBlockSize
      if acceptable size then
        let found ← allocator.chunk.allocate2
        match found with
        | some (p, n) => return some ⟨p, blockSize, i * iBlockCount + n⟩
        | none => tryClasses iBlockCount acceptable later
      else tryClasses iBlockCount acceptable later

/-- Blocks just larger first, then blocks just smaller. -/
def allocatePart (iNeedSize : Nat) (part : Part) :
    MemTask (Option Allocated) := do
  let larger ← tryClasses part.iBlockCount
    (fun size => decide (size ≥ iNeedSize)) (classes part)
  match larger with
  | some found => return some found
  | none =>
      tryClasses part.iBlockCount (fun size => decide (size < iNeedSize))
        (classes part).reverse

def allocate2 (iNeedSize : Nat) :
    TcMemMultiChunkAllocator → MemTask (Option Allocated)
  | [] => return none
  | part :: nested => do
      let own ← allocatePart iNeedSize part
      match own with
      | some found => return some found
      | none =>
          let other ← allocate2 iNeedSize nested
          return other.map fun found =>
            { found with iIndex := found.iIndex + part.iAllIndex }

/-- The loop of `deallocate` over the areas. -/
def deallocateIn (pAddr : Nat) :
    (pChunkBegin : Nat) → List TcMemChunkAllocator → MemTask Unit
  | _, [] => raise .assertion
  | pChunkBegin, allocator :: later => do
      let memSize ← allocator.getMemSize
      if pAddr < pChunkBegin + memSize then allocator.deallocate pAddr
      else deallocateIn pAddr (pChunkBegin + memSize) later

def deallocate (pAddr : Nat) : TcMemMultiChunkAllocator → MemTask Unit
  | [] => raise .assertion
  | part :: nested => do
      let size ← iSize part.pHead
      if pAddr < part.pHead + size then
        deallocateIn pAddr (part.pHead + getHeadSize) part.allocator
      else deallocate pAddr nested

/-- The loop of `deallocate2` over the areas; `none` is an index behind
them. -/
def deallocate2In (iBlockCount : Nat) :
    (iIndex : Nat) → List TcMemChunkAllocator → MemTask (Option Nat)
  | iIndex, [] => return some iIndex
  | iIndex, allocator :: later => do
      if iIndex ≤ iBlockCount then
        allocator.chunk.deallocate2 iIndex
        return none
      else deallocate2In iBlockCount (iIndex - iBlockCount) later

def deallocate2 (iIndex : Nat) : TcMemMultiChunkAllocator → MemTask Unit
  | [] => raise .assertion
  | part :: nested => do
      let left ← deallocate2In part.iBlockCount iIndex part.allocator
      match left with
      | none => return ()
      | some iIndex => deallocate2 iIndex nested

def getAbsolute (iIndex : Nat) :
    TcMemMultiChunkAllocator → MemTask (Option Nat)
  | [] => raise .assertion
  | part :: nested => do
      if iIndex = 0 then return none
      else if iIndex ≤ part.iAllIndex then
        let i := (iIndex - 1) / part.iBlockCount
        match part.allocator[i]? with
        | some allocator =>
            some <$>
              allocator.chunk.getAbsolute (iIndex - i * part.iBlockCount)
        | none => raise .outside
      else getAbsolute (iIndex - part.iAllIndex) nested

/-- The loop of `getRelative` over the areas. -/
def getRelativeIn (iBlockCount pAddr : Nat) :
    (i : Nat) → List TcMemChunkAllocator → MemTask Nat
  | _, [] => raise .assertion
  | i, allocator :: later => do
      let memSize ← allocator.getMemSize
      if pAddr < allocator.pHead + memSize then
        let relative ← allocator.chunk.getRelative pAddr
        return i * iBlockCount + relative
      else getRelativeIn iBlockCount pAddr (i + 1) later

/-- Behind the last part the source returns zero. -/
def getRelative (pAddr : Nat) : TcMemMultiChunkAllocator → MemTask Nat
  | [] => return 0
  | part :: nested => do
      let size ← iSize part.pHead
      if pAddr < part.pHead + size then
        getRelativeIn part.iBlockCount pAddr 0 part.allocator
      else if nested = [] then return 0
      else
        let relative ← getRelative pAddr nested
        return part.iAllIndex + relative

end TcMemMultiChunkAllocator

end MemChunk

end TarsCpp
