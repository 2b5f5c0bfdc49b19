import TarsCpp.Clockwise
import Mathlib.Data.List.Sort
import Mathlib.Data.List.Nodup
import Mathlib.Algebra.Order.Ring.Nat

/-!
# The ring of consistent hashing

`TC_ConsistentHashNew`.  The digest is a parameter.
-/

namespace TarsCpp.ConsistentHash

open Clockwise

inductive HashAlgorithmType
  | ketamaHash
  | defaultHash
deriving DecidableEq, Repr

structure NodeTNew where
  iHashCode : UInt32
  sNode : List UInt8
  iIndex : UInt32
deriving DecidableEq, Repr

/-- The arguments of `addNode`. -/
structure Node where
  node : List UInt8
  index : UInt32
  weight : Int
deriving DecidableEq, Repr

/-- `TC_MD5::md5bin`. -/
abbrev Digest := List UInt8 → Vector UInt8 16

structure TcConsistentHashNew where
  hashAlg : HashAlgorithmType
  vHashList : List NodeTNew := []

/-- The bytes from `4 * i` on, the first one lowest. -/
def word (sMd5 : Vector UInt8 16) (i : Fin 4) : UInt32 :=
  (sMd5[4 * i.val + 3].toUInt32 <<< 24) ||| (sMd5[4 * i.val + 2].toUInt32 <<< 16)
    ||| (sMd5[4 * i.val + 1].toUInt32 <<< 8) ||| sMd5[4 * i.val].toUInt32

/-- `TC_DefaultHashAlg::hash`. -/
def defaultHash (md5bin : Digest) (key : List UInt8) : UInt32 :=
  let sMd5 := md5bin key
  word sMd5 0 ^^^ word sMd5 1 ^^^ word sMd5 2 ^^^ word sMd5 3

/-- `TC_Common::tostr` of a number that is not negative. -/
def tostr (j : Nat) : List UInt8 :=
  (Nat.toDigits 10 j).map fun digit => UInt8.ofNat digit.toNat

/-- `node + "_" + tostr(j)`. -/
def virtualNode (node : List UInt8) (j : Nat) : List UInt8 :=
  node ++ 95 :: tostr j

/-- The codes of a virtual node. -/
def hashCodes (md5bin : Digest) (hashAlg : HashAlgorithmType)
    (virtualNode : List UInt8) : List UInt32 :=
  match hashAlg with
  | .ketamaHash => (List.finRange 4).map (word (md5bin virtualNode))
  | .defaultHash => [defaultHash md5bin virtualNode]

/-- What `addNode` pushes. -/
def items (md5bin : Digest) (hashAlg : HashAlgorithmType) (added : Node) :
    List NodeTNew :=
  (List.range added.weight.toNat).flatMap fun j =>
    (hashCodes md5bin hashAlg (virtualNode added.node j)).map fun iHashCode =>
      ⟨iHashCode, added.node, added.index⟩

namespace TcConsistentHashNew

def addNode (md5bin : Digest) (ring : TcConsistentHashNew) (added : Node) :
    TcConsistentHashNew :=
  { ring with
    vHashList := ring.vHashList ++ items md5bin ring.hashAlg added }

/-- `sort`; how it orders equal codes makes no difference below. -/
def sortNode (ring : TcConsistentHashNew) : TcConsistentHashNew :=
  { ring with
    vHashList := ring.vHashList.insertionSort fun m1 m2 =>
      m1.iHashCode ≤ m2.iHashCode }

end TcConsistentHashNew

/-- `INT_MAX`. -/
def intMax : Nat := 2 ^ 31 - 1

/-- The loop of `getIndex` and of `getNodeName`; nothing if `low + high`
overflows or an index is out of range. -/
def search (vHashList : List NodeTNew) (hashcode : UInt32) (low high : Nat) :
    Option Nat :=
  if low < high - 1 then
    if low + high > intMax then
      none
    else
      match vHashList[(low + high) / 2]? with
      | none => none
      | some item =>
          if item.iHashCode > hashcode then
            search vHashList hashcode low ((low + high) / 2)
          else
            search vHashList hashcode ((low + high) / 2) high
  else
    some low
termination_by high - low

/-- The item that `getIndex` and `getNodeName` read their answer from; nothing
if they leave the vector. -/
def locate (vHashList : List NodeTNew) (hashcode : UInt32) :
    Option NodeTNew := do
  let first ← vHashList[0]?
  if hashcode ≤ first.iHashCode then
    return first
  -- `(int)_vHashList.size()`
  let high := (vHashList.length : Int).bmod (2 ^ 32)
  if high ≤ 0 then
    none
  let high := high.toNat
  let last ← vHashList[high - 1]?
  if hashcode > last.iHashCode then
    return first
  let low ← search vHashList hashcode 0 high
  vHashList[low + 1]?

namespace TcConsistentHashNew

/-- The result and `iIndex`. -/
def getIndex (ring : TcConsistentHashNew) (hashcode : UInt32) :
    Option (Int × UInt32) :=
  if ring.vHashList = [] then
    some (-1, 0)
  else
    (locate ring.vHashList hashcode).map fun item => (0, item.iIndex)

/-- The result and `sNode`. -/
def getNodeName (ring : TcConsistentHashNew) (hashcode : UInt32) :
    Option (Int × List UInt8) :=
  if ring.vHashList = [] then
    some (-1, [])
  else
    (locate ring.vHashList hashcode).map fun item => (0, item.sNode)

end TcConsistentHashNew

/-- The ring of some nodes. -/
def build (md5bin : Digest) (hashAlg : HashAlgorithmType) (nodes : List Node) :
    TcConsistentHashNew :=
  (nodes.foldl (TcConsistentHashNew.addNode md5bin) ⟨hashAlg, []⟩).sortNode

end TarsCpp.ConsistentHash
