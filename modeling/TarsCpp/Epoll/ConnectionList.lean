import Mathlib.Tactic
import TarsCpp.Multimap
import TarsCpp.NetworkBuffer.Buffer

/-!
# The connections of a network thread

`TC_EpollServer::ConnectionList`: an array of slots, the list of the free ones,
and a magic number in the upper bits of every uid.  A failed assertion ends the
process and is `none`.  Then the list with `_tl` and the iterators into it that
the slots store.
-/

namespace TarsCpp.Epoll

abbrev Uid := BitVec 32

/-- `object` tells apart the connections that are ever accepted; the code knows
a connection by its uid only. -/
structure Connection where
  object : Nat
  uid : Uid
  isTcp : Bool
deriving DecidableEq, Repr

structure ConnectionList where
  total : Uid
  free : List Uid
  vConn : Uid → Option Connection
  iConnectionMagic : Uid

/-- The magic number of a uid. -/
def magi (uid : Uid) : Uid := uid &&& (0xFFFFFFFF#32 <<< 22)

/-- The slot of a uid. -/
def slot (uid : Uid) : Uid := uid &&& (0x7FFFFFFF#32 >>> 9)

namespace ConnectionList

def init (size iIndex now : Uid) : ConnectionList where
  total := size
  free := (List.range size.toNat).map fun i => BitVec.ofNat 32 (i + 1)
  vConn := fun _ => none
  iConnectionMagic :=
    ((now <<< 26) &&& (0xFFFFFFFF#32 <<< 26)) +
      ((iIndex <<< 22) &&& (0xFFFFFFFF#32 <<< 22))

def getUniqId (list : ConnectionList) : Option (Uid × ConnectionList) :=
  match list.free with
  | [] => none
  | uid :: free =>
      if uid > 0 ∧ uid ≤ list.total then
        some (list.iConnectionMagic ||| uid, { list with free := free })
      else
        none

def get (list : ConnectionList) (uid : Uid) : Option Connection :=
  if magi uid ≠ list.iConnectionMagic then none else list.vConn (slot uid)

def add (list : ConnectionList) (cPtr : Connection) : Option ConnectionList :=
  let uid := slot cPtr.uid
  if magi cPtr.uid = list.iConnectionMagic ∧ uid > 0 ∧ uid ≤ list.total ∧
      (list.vConn uid).isNone then
    some { list with vConn := Function.update list.vConn uid (some cPtr) }
  else
    none

def delNoLock (list : ConnectionList) (uid : Uid) : Option ConnectionList :=
  if uid > 0 ∧ uid ≤ list.total ∧ (list.vConn uid).isSome then
    some { list with
      vConn := Function.update list.vConn uid none
      free := list.free ++ [uid] }
  else
    none

def del (list : ConnectionList) (uid : Uid) : Option ConnectionList :=
  if magi uid = list.iConnectionMagic ∧ slot uid > 0 ∧
      slot uid ≤ list.total ∧ (list.vConn (slot uid)).isSome then
    list.delNoLock (slot uid)
  else
    none

end ConnectionList

/-- A uid is its magic number and its slot. -/
theorem uid_ext {uid uid' : Uid} (sameMagi : magi uid = magi uid')
    (sameSlot : slot uid = slot uid') : uid = uid' := by
  have whole (other : Uid) : magi other ||| slot other = other := by
    rw [magi, slot, ← BitVec.and_or_distrib_left]
    exact BitVec.and_allOnes
  rw [← whole uid, sameMagi, sameSlot, whole]

namespace ConnectionList

variable {list list' : ConnectionList}

theorem get_init (size iIndex now uid : Uid) :
    (init size iIndex now).get uid = none := by
  unfold get
  split <;> rfl

theorem getUniqId_cases {uid : Uid} (run : list.getUniqId = some (uid, list')) :
    ∃ free, list' = { list with free := free } := by
  unfold getUniqId at run
  split at run
  · cases run
  · obtain ⟨_, same⟩ := Option.ite_none_right_eq_some.mp run
    cases same
    exact ⟨_, rfl⟩

theorem add_cases {cPtr : Connection} (run : list.add cPtr = some list') :
    magi cPtr.uid = list.iConnectionMagic ∧
      list.vConn (slot cPtr.uid) = none ∧
      list' = { list with
        vConn := Function.update list.vConn (slot cPtr.uid) (some cPtr) } := by
  obtain ⟨checked, same⟩ := Option.ite_none_right_eq_some.mp run
  cases same
  exact ⟨checked.1, Option.isNone_iff_eq_none.mp checked.2.2.2, rfl⟩

theorem delNoLock_cases {place : Uid} (run : list.delNoLock place = some list') :
    list' = { list with
      vConn := Function.update list.vConn place none
      free := list.free ++ [place] } := by
  obtain ⟨_, same⟩ := Option.ite_none_right_eq_some.mp run
  cases same
  rfl

theorem get_add {cPtr : Connection} (run : list.add cPtr = some list')
    (uid : Uid) :
    list'.get uid = if uid = cPtr.uid then some cPtr else list.get uid := by
  obtain ⟨sameMagi, _, rfl⟩ := add_cases run
  by_cases same : uid = cPtr.uid
  · rw [if_pos same, same]
    simp [get, sameMagi]
  · rw [if_neg same]
    by_cases other : magi uid = list.iConnectionMagic
    · have elsewhere : slot uid ≠ slot cPtr.uid := by
        intro sameSlot
        exact same (uid_ext (other.trans sameMagi.symm) sameSlot)
      simp [get, elsewhere]
    · simp [get, other]

theorem get_delNoLock {place uid : Uid} {conn : Connection}
    (run : list.delNoLock place = some list')
    (found : list'.get uid = some conn) : list.get uid = some conn := by
  rw [delNoLock_cases run] at found
  by_cases same : slot uid = place
  · simp [get, same] at found
  · simpa [get, same] using found

theorem get_del {place uid : Uid} {conn : Connection}
    (run : list.del place = some list') (found : list'.get uid = some conn) :
    list.get uid = some conn :=
  get_delNoLock (Option.ite_none_right_eq_some.mp run).2 found

end ConnectionList

open NetworkBuffer

/-- An element of `_tl`; no two ever made have the same `node`. -/
structure TlNode where
  node : Nat
  key : Int
  uid : Uid
deriving DecidableEq, Repr

structure TimeoutList extends ConnectionList where
  /-- The second components of `_vConn`. -/
  iter : Uid → Option Nat := fun _ => none
  /-- `_iLastRefreshTime` of the connections in the slots. -/
  iLastRefreshTime : Uid → Int := fun _ => 0
  tl : List TlNode := []
  nodes : Nat := 0
  lastTimeoutTime : Int := 0
  emptyCheckTimeout : Int := 0
  /-- The uids that have been handed out and not been added yet; only the
  callers know them. -/
  reserved : List Uid := []

/-- A failed assertion. -/
def asserted {α : Type} (condition : String) :
    Option α → Except Failure α
  | some result => .ok result
  | none => .error (.assertion condition)

namespace TimeoutList

/-- `ConnectionList(logger)`. -/
def new : TimeoutList where
  total := 0
  free := []
  vConn := fun _ => none
  iConnectionMagic := 0

/-- `_tl.insert`, and the iterator that it returns. -/
def insertTl (list : TimeoutList) (iTimeOutStamp : Int) (uid : Uid) :
    TimeoutList :=
  { list with
    tl := Multimap.insert TlNode.key ⟨list.nodes, iTimeOutStamp, uid⟩ list.tl
    nodes := list.nodes + 1
    iter := Function.update list.iter uid (some list.nodes) }

/-- `_tl.erase(iter)`. -/
def eraseTl (list : TimeoutList) (iter : Option Nat) :
    Except Failure TimeoutList :=
  match list.tl.find? (some ·.node = iter) with
  | some entry =>
      .ok { list with tl := list.tl.filter (·.node ≠ entry.node) }
  | none => .error .invalidAccess

/-- `*it`. -/
def derefTl (list : TimeoutList) (node : Nat) : Except Failure TlNode :=
  match list.tl.find? (·.node = node) with
  | some entry => .ok entry
  | none => .error .invalidAccess

/-- The element an iterator goes on to; nothing at the end. -/
def nextTl (list : TimeoutList) (node : Nat) : Except Failure (Option Nat) :=
  match list.tl.dropWhile (·.node ≠ node) with
  | _ :: behind => .ok (behind.head?.map TlNode.node)
  | [] => .error .invalidAccess

/-- `*_vConn[uid].first`. -/
def first (list : TimeoutList) (uid : Uid) : Except Failure Connection :=
  match list.vConn uid with
  | some conn => .ok conn
  | none => .error .invalidAccess

def init (list : TimeoutList) (size iIndex : Uid) (tnow : Int) :
    TimeoutList :=
  let fresh := ConnectionList.init size iIndex (BitVec.ofInt 32 tnow)
  { list with
    toConnectionList := { fresh with free := list.free ++ fresh.free }
    lastTimeoutTime := tnow }

def getUniqId (list : TimeoutList) : Except Failure (Uid × TimeoutList) := do
  let (uid, connections) ← asserted "!_free.empty() && uid <= _total"
    list.toConnectionList.getUniqId
  pure (uid, { list with
    toConnectionList := connections
    reserved := list.reserved ++ [uid] })

/-- `add` of a connection that was last refreshed when it was made. -/
def add (list : TimeoutList) (cPtr : Connection) (iLastRefreshTime : Int)
    (iTimeOutStamp : Int) : Except Failure TimeoutList := do
  let connections ← asserted "!_vConn[uid].first"
    (list.toConnectionList.add cPtr)
  let list :=
    { list with
      toConnectionList := connections
      iLastRefreshTime :=
        Function.update list.iLastRefreshTime (slot cPtr.uid) iLastRefreshTime
      reserved := list.reserved.erase cPtr.uid }
  pure (list.insertTl iTimeOutStamp (slot cPtr.uid))

def refresh (list : TimeoutList) (muid : Uid) (iTimeOutStamp : Int) :
    Except Failure TimeoutList :=
  let uid := slot muid
  if magi muid = list.iConnectionMagic ∧ uid > 0 ∧ uid ≤ list.total ∧
      (list.vConn uid).isSome then
    if iTimeOutStamp - list.iLastRefreshTime uid < 1 then
      .ok list
    else do
      let list :=
        { list with
          iLastRefreshTime :=
            Function.update list.iLastRefreshTime uid iTimeOutStamp }
      let list ← list.eraseTl (list.iter uid)
      pure (list.insertTl iTimeOutStamp uid)
  else
    .error (.assertion "_vConn[uid].first")

def delNoLock (list : TimeoutList) (uid : Uid) : Except Failure TimeoutList := do
  let connections ← asserted "_vConn[uid].first"
    (list.toConnectionList.delNoLock uid)
  let list ← list.eraseTl (list.iter uid)
  pure { list with toConnectionList := connections }

def del (list : TimeoutList) (muid : Uid) : Except Failure TimeoutList :=
  let uid := slot muid
  if magi muid = list.iConnectionMagic ∧ uid > 0 ∧ uid ≤ list.total ∧
      (list.vConn uid).isSome then
    list.delNoLock uid
  else
    .error (.assertion "_vConn[uid].first")

/-- The first loop of `checkTimeout`.  `turns` bounds its turns; to exceed it
would be a failure. -/
def timeoutLoop (getTimeout : Connection → Int) (iCurTime : Int) :
    (turns : Nat) → Option Nat → TimeoutList → Except Failure TimeoutList
  | 0, _, _ => .error (.thrown "the loop goes on")
  | _ + 1, none, list => .ok list
  | turns + 1, some it, list => do
      let entry ← list.derefTl it
      if entry.key > iCurTime then
        pure list
      else do
        let it ← list.nextTl it
        let conn ← list.first entry.uid
        -- `isUdp()`
        if !conn.isTcp then
          timeoutLoop getTimeout iCurTime turns it list
        else if getTimeout conn > 0 then do
          let list ← list.delNoLock entry.uid
          timeoutLoop getTimeout iCurTime turns it list
        else
          timeoutLoop getTimeout iCurTime turns it list

/-- The time at which an empty connection is too old. -/
def emptyTimeout (list : TimeoutList) (getTimeout : Connection → Int)
    (entry : TlNode) (conn : Connection) : Int :=
  (entry.key - getTimeout conn) + list.emptyCheckTimeout / 1000

/-- The second loop. -/
def emptyLoop (getTimeout : Connection → Int)
    (isEmptyConn : Connection → Bool) (iCurTime : Int) :
    (turns : Nat) → Option Nat → TimeoutList → Except Failure TimeoutList
  | 0, _, _ => .error (.thrown "the loop goes on")
  | _ + 1, none, list => .ok list
  | turns + 1, some it, list => do
      let entry ← list.derefTl it
      let conn ← list.first entry.uid
      if conn.isTcp && isEmptyConn conn then
        if list.emptyTimeout getTimeout entry conn > iCurTime then
          pure list
        else do
          let list ← list.delNoLock entry.uid
          -- `it` is the iterator of the element that has just been erased
          let it ← list.nextTl it
          emptyLoop getTimeout isEmptyConn iCurTime turns it list
      else do
        let it ← list.nextTl it
        emptyLoop getTimeout isEmptyConn iCurTime turns it list

def begin (list : TimeoutList) : Option Nat :=
  list.tl.head?.map TlNode.node

/-- What `checkTimeout` does if at least a second has passed. -/
def checkConnections (list : TimeoutList) (getTimeout : Connection → Int)
    (isEmptyConn : Connection → Bool) (iCurTime : Int) :
    Except Failure TimeoutList := do
  let list ← timeoutLoop getTimeout iCurTime (list.tl.length + 1) list.begin
    list
  if list.emptyCheckTimeout > 0 then
    emptyLoop getTimeout isEmptyConn iCurTime (list.tl.length + 1) list.begin
      list
  else
    pure list

def checkTimeout (list : TimeoutList) (getTimeout : Connection → Int)
    (isEmptyConn : Connection → Bool) (iCurTime : Int) :
    Except Failure TimeoutList :=
  if iCurTime - list.lastTimeoutTime < 1 then
    .ok list
  else
    { list with lastTimeoutTime := iCurTime }.checkConnections getTimeout
      isEmptyConn iCurTime

end TimeoutList

/-- The calls, with what the clock, the connections and their adapters say. -/
inductive ListEvent
  | init (size iIndex : Uid) (tnow : Int)
  | getUniqId
  | add (cPtr : Connection) (iLastRefreshTime iTimeOutStamp : Int)
  | refresh (uid : Uid) (iTimeOutStamp : Int)
  | del (uid : Uid)
  | setEmptyConnTimeout (timeout : Int)
  | checkTimeout (iCurTime : Int) (getTimeout : Connection → Int)
      (isEmptyConn : Connection → Bool)

def ListEvent.perform (list : TimeoutList) :
    ListEvent → Except Failure TimeoutList
  | .init size iIndex tnow => .ok (list.init size iIndex tnow)
  | .getUniqId => do
      let (_, list) ← list.getUniqId
      pure list
  | .add cPtr iLastRefreshTime iTimeOutStamp =>
      list.add cPtr iLastRefreshTime iTimeOutStamp
  | .refresh uid iTimeOutStamp => list.refresh uid iTimeOutStamp
  | .del uid => list.del uid
  | .setEmptyConnTimeout timeout =>
      .ok { list with emptyCheckTimeout := timeout }
  | .checkTimeout iCurTime getTimeout isEmptyConn =>
      list.checkTimeout getTimeout isEmptyConn iCurTime

end TarsCpp.Epoll
