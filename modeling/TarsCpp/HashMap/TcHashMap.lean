import Mathlib.Tactic

/-!
# The eviction of `TC_HashMap`

The set list and the get list of the map, from their tails on, with the
entries that the addresses in them lead to.  The loops that `goto` or `while`
make get a number of turns; `none` is a loop that has not come to its end.
-/

namespace TarsCpp.HashMap

inductive Ret
  | RT_OK
  | RT_NO_DATA
  | RT_ONLY_KEY
  | RT_DECODE_ERR
deriving DecidableEq, Repr

/-- `po >> len`, of an `uint32_t` in network order. -/
def readUInt32 : List UInt8 → Option (Nat × List UInt8)
  | c :: c' :: c'' :: c''' :: rest =>
      some (((c.toNat * 256 + c'.toNat) * 256 + c''.toNat) * 256 + c'''.toNat,
        rest)
  | _ => none

/-- `po >> sBuffer`; `none` is the exception. -/
def readString : List UInt8 → Option (List UInt8 × List UInt8)
  | [] => none
  | c :: rest => do
      let (len, rest) ←
        if c = 255 then readUInt32 rest else some (c.toNat, rest)
      if rest.length < len then none
      else some (rest.take len, rest.drop len)

structure BlockData where
  _key : List UInt8
  _value : List UInt8
  _dirty : Bool
  _synct : Nat
deriving DecidableEq, Repr

/-- What the head of a block and its chunks say of an entry: the bytes in the
block itself, and the chunks that follow it with their bytes. -/
structure Block where
  data : List UInt8
  chunks : List (Nat × List UInt8)
  _iSyncTime : Nat
  _bDirty : Bool
  _bOnlyKey : Bool

/-- `get(string &)`, which puts the parts together. -/
def Block.get (block : Block) : List UInt8 :=
  block.data ++ block.chunks.flatMap Prod.snd

def Block.getBlockData (block : Block) : Ret × BlockData :=
  let data : BlockData :=
    { _key := [], _value := [], _dirty := block._bDirty
      _synct := block._iSyncTime }
  match readString block.get with
  | none => (.RT_DECODE_ERR, data)
  | some (key, rest) =>
      if ¬ block._bOnlyKey then
        match readString rest with
        | none => (.RT_DECODE_ERR, { data with _key := key })
        | some (value, _) =>
            (.RT_OK, { data with _key := key, _value := value })
      else
        (.RT_ONLY_KEY, { data with _key := key })

/-- The blocks of one size, and those of them that are free. -/
structure ChunkAllocator where
  blockSize : Nat
  addresses : List Nat
  free : List Nat

/-- The sizes of an allocator; those of its successor follow. -/
abbrev MultiChunkAllocator := List (List ChunkAllocator)

/-- The first allocator of a fitting size with a free block. -/
def takeFirst (fits : Nat → Bool) :
    List ChunkAllocator → Option (Nat × Nat × List ChunkAllocator)
  | [] => none
  | chunk :: chunks =>
      match fits chunk.blockSize, chunk.free with
      | true, pAddr :: free =>
          some (pAddr, chunk.blockSize, { chunk with free } :: chunks)
      | _, _ =>
          (takeFirst fits chunks).map fun (pAddr, size, chunks) =>
            (pAddr, size, chunk :: chunks)

/-- `allocate2`: the sizes from the least that is large enough, then those that
are too small from the largest one on, then the successor. -/
def allocate (iNeedSize : Nat) :
    MultiChunkAllocator → Option (Nat × Nat × MultiChunkAllocator)
  | [] => none
  | chunks :: parts =>
      match takeFirst (iNeedSize ≤ ·) chunks with
      | some (pAddr, size, chunks) => some (pAddr, size, chunks :: parts)
      | none =>
          match takeFirst (· < iNeedSize) chunks.reverse with
          | some (pAddr, size, chunks) =>
              some (pAddr, size, chunks.reverse :: parts)
          | none =>
              (allocate iNeedSize parts).map fun (pAddr, size, parts) =>
                (pAddr, size, chunks :: parts)

/-- A block goes back to the size that it is of. -/
def ChunkAllocator.deallocate (pAddr : Nat) (chunk : ChunkAllocator) :
    ChunkAllocator :=
  if pAddr ∈ chunk.addresses then
    { chunk with free := pAddr :: chunk.free }
  else
    chunk

def deallocate (pAddr : Nat) (allocator : MultiChunkAllocator) :
    MultiChunkAllocator :=
  allocator.map (List.map (ChunkAllocator.deallocate pAddr))

/-- `BlockAllocator::deallocateMemBlock` -/
def deallocateMemBlock (v : List Nat) (allocator : MultiChunkAllocator) :
    MultiChunkAllocator :=
  v.foldl (fun allocator pAddr => deallocate pAddr allocator) allocator

/-- The erase mode; every other value is `ERASEBYGET`. -/
def ERASEBYSET : UInt8 := 1

structure TcHashMap where
  allocator : MultiChunkAllocator
  /-- The entry at an address. -/
  block : Nat → Block
  /-- From `_iSetTail` along `_iSetPrev`. -/
  setList : List Nat
  /-- From `_iGetTail` along `_iGetPrev`. -/
  getList : List Nat
  _bAutoErase : Bool
  _cEraseMode : UInt8
  _iEraseCount : Nat

namespace TcHashMap

/-- The list that the eviction goes along. -/
def order (map : TcHashMap) : List Nat :=
  if map._cEraseMode = ERASEBYSET then map.setList else map.getList

/-- `Block::erase`, with `Block::deallocate`: the chunks, then the block. -/
def erase (map : TcHashMap) (iHead : Nat) : TcHashMap :=
  { map with
    setList := map.setList.erase iHead
    getList := map.getList.erase iHead
    allocator := deallocateMemBlock
      ((map.block iHead).chunks.map Prod.fst ++ [iHead]) map.allocator }

/-- `iAddr`, from the tail of the list or from the block before the tail; 0 at
the end. -/
def victim (map : TcHashMap) (iNowAddr : Nat) : Nat :=
  let iAddr := map.order.headD 0
  if iAddr = 0 then 0
  else if iNowAddr = iAddr then map.order.tail.headD 0
  else iAddr

/-- The loop of `eraseExcept`. -/
def eraseLoop (iNowAddr : Nat) : Nat → Nat → TcHashMap → List BlockData →
    Option (TcHashMap × List BlockData × Nat)
  | 0, _, _, _ => none
  | turns + 1, d, map, vtData =>
      let iAddr := map.victim iNowAddr
      if d = 0 ∨ iAddr = 0 then some (map, vtData, d)
      else
        let (ret, data) := (map.block iAddr).getBlockData
        let vtData := if ret = .RT_OK then vtData ++ [data] else vtData
        let d := if ret = .RT_OK ∨ ret = .RT_NO_DATA then d - 1 else d
        eraseLoop iNowAddr turns d (map.erase iAddr) vtData

/-- Each turn of the loop erases an entry. -/
def eraseExcept (map : TcHashMap) (iNowAddr : Nat) (vtData : List BlockData) :
    Option (TcHashMap × List BlockData × Nat) :=
  if ¬ map._bAutoErase then some (map, vtData, 0)
  else do
    let n := if map._iEraseCount = 0 then 10 else map._iEraseCount
    let (map, vtData, d) ←
      eraseLoop iNowAddr (map.order.length + 1) n map vtData
    some (map, vtData, n - d)

/-- The loop of `allocateMemBlock` and of `allocateChunk`; the address 0 says
that there is no memory. -/
def allocateLoop (iNowAddr : Nat) : Nat → Nat → TcHashMap → List BlockData →
    Option (TcHashMap × List BlockData × Nat × Nat)
  | 0, _, _, _ => none
  | turns + 1, iAllocSize, map, vtData =>
      match allocate iAllocSize map.allocator with
      | some (pAddr, iAllocSize, allocator) =>
          some ({ map with allocator }, vtData, pAddr, iAllocSize)
      | none => do
          let (map, vtData, ret) ← map.eraseExcept iNowAddr vtData
          if ret = 0 then some (map, vtData, 0, iAllocSize)
          else allocateLoop iNowAddr turns iAllocSize map vtData

/-- `Block::makeNew`, at the heads of both lists. -/
def makeNew (map : TcHashMap) (iAddr : Nat) : TcHashMap :=
  { map with
    block := Function.update map.block iAddr
      { data := [], chunks := [], _iSyncTime := 0, _bDirty := true
        _bOnlyKey := false }
    setList := map.setList ++ [iAddr]
    getList := map.getList ++ [iAddr] }

/-- `BlockAllocator::allocateMemBlock` -/
def allocateMemBlock (map : TcHashMap) (iAllocSize : Nat)
    (vtData : List BlockData) :
    Option (TcHashMap × List BlockData × Nat × Nat) := do
  let (map, vtData, iAddr, iAllocSize) ←
    allocateLoop 0 (map.order.length + 1) iAllocSize map vtData
  if iAddr = 0 then some (map, vtData, 0, iAllocSize)
  else some (map.makeNew iAddr, vtData, iAddr, iAllocSize)

/-- `BlockAllocator::allocateChunk` -/
def allocateChunk (map : TcHashMap) (iAddr iAllocSize : Nat)
    (vtData : List BlockData) :
    Option (TcHashMap × List BlockData × Nat × Nat) :=
  allocateLoop iAddr (map.order.length + 1) iAllocSize map vtData

end TcHashMap

end TarsCpp.HashMap
