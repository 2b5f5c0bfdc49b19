import TarsCpp.TimeoutQueue.TimeoutQueueNew

/-!
# The timeout queue with a cursor

`TC_TimeoutQueue`: the entries of `_data` have their nodes in `_time`, in the
order of their last push or refresh, and `_firstNoPopIter` points to the first
node that has not been handed out.  The nodes of the two containers have the
number of the push and of the node as their addresses; no address is `end()`.
-/

namespace TarsCpp.RefreshQueue

open TimeoutQueue (HashTable DataIter)

inductive Failure
  | assertion (condition : String)
  | invalidAccess
  /-- A loop has not come to its end. -/
  | endless
deriving DecidableEq, Repr

structure PtrInfo (T : Type) where
  node : Nat
  uniqId : UInt32
  ptr : T
  timeIter : Option Nat := none
deriving DecidableEq, Repr

structure NodeInfo where
  node : Nat
  hasPoped : Bool := false
  createTime : Int
  dataIter : DataIter
deriving DecidableEq, Repr

structure TcTimeoutQueue (T : Type) where
  timeout : Int := 5000
  data : List (PtrInfo T) := []
  time : List NodeInfo := []
  firstNoPopIter : Option Nat := none
  buckets : Nat
  rehashes : Nat := 0
  pushed : Nat := 0
  created : Nat := 0
deriving DecidableEq, Repr

namespace TcTimeoutQueue

variable {T : Type}

/-- `TC_TimeoutQueue(timeout)`. -/
def new (table : HashTable) (timeout : Int) : TcTimeoutQueue T where
  timeout := timeout
  buckets := table.bucketCount 0

def deref (queue : TcTimeoutQueue T) (dataIter : DataIter) :
    Except Failure (PtrInfo T) :=
  if dataIter.rehashes = queue.rehashes then
    match queue.data.find? (·.node = dataIter.node) with
    | some info => .ok info
    | none => .error .invalidAccess
  else
    .error .invalidAccess

def derefTime (queue : TcTimeoutQueue T) (it : Option Nat) :
    Except Failure NodeInfo :=
  match queue.time.find? (some ·.node = it) with
  | some info => .ok info
  | none => .error .invalidAccess

/-- `++it` in `_time`. -/
def increment (queue : TcTimeoutQueue T) (it : Option Nat) :
    Except Failure (Option Nat) :=
  match queue.time.dropWhile (some ·.node ≠ it) with
  | [] => .error .invalidAccess
  | _ :: later => .ok (later.head?.map NodeInfo.node)

/-- `_data.erase(dataIter)`. -/
def eraseData (queue : TcTimeoutQueue T) (dataIter : DataIter) :
    Except Failure (TcTimeoutQueue T) := do
  let _ ← queue.deref dataIter
  pure { queue with data := queue.data.filter (·.node ≠ dataIter.node) }

/-- `_time.erase(timeIter)`. -/
def eraseTime (queue : TcTimeoutQueue T) (timeIter : Option Nat) :
    Except Failure (TcTimeoutQueue T) := do
  let it ← queue.derefTime timeIter
  pure { queue with time := queue.time.filter (·.node ≠ it.node) }

/-- An insertion that exceeds the maximal load factor, which is one, makes the
table rehash. -/
def rehashing (queue : TcTimeoutQueue T) : Bool :=
  queue.data.length + 1 > queue.buckets

/-- `_data.insert` of a key that is not there. -/
def insertData (table : HashTable) (queue : TcTimeoutQueue T)
    (info : PtrInfo T) : TcTimeoutQueue T :=
  if queue.rehashing then
    { queue with
      data := queue.data ++ [info]
      buckets := table.bucketCount (queue.data.length + 1)
      rehashes :=
        if table.keepsIterators then queue.rehashes else queue.rehashes + 1 }
  else
    { queue with data := queue.data ++ [info] }

/-- `if (_firstNoPopIter == timeIter) ++_firstNoPopIter`. -/
def leave (queue : TcTimeoutQueue T) (timeIter : Option Nat) :
    Except Failure (TcTimeoutQueue T) :=
  if queue.firstNoPopIter = timeIter then do
    let next ← queue.increment queue.firstNoPopIter
    pure { queue with firstNoPopIter := next }
  else
    .ok queue

/-- A new node at the end of `_time`, for the entry behind an iterator. -/
def pushBack (queue : TcTimeoutQueue T) (dataIter : DataIter) (now : Int) :
    TcTimeoutQueue T :=
  let tmp := queue.created
  { queue with
    time := queue.time ++ [{ node := tmp, createTime := now, dataIter }]
    created := tmp + 1
    data := queue.data.map fun info =>
      if info.node = dataIter.node then
        { info with timeIter := some tmp }
      else
        info
    firstNoPopIter :=
      if queue.firstNoPopIter = none then
        some tmp
      else
        queue.firstNoPopIter }

def get (queue : TcTimeoutQueue T) (uniqId : UInt32) (bErase : Bool) :
    Except Failure (Option T × TcTimeoutQueue T) :=
  match queue.data.find? (·.uniqId = uniqId) with
  | none => .ok (none, queue)
  | some it =>
      if bErase then do
        let rest ← queue.leave it.timeIter
        let rest ← rest.eraseTime it.timeIter
        let rest ← rest.eraseData ⟨it.node, queue.rehashes⟩
        pure (some it.ptr, rest)
      else
        .ok (some it.ptr, queue)

def getAndRefresh (queue : TcTimeoutQueue T) (uniqId : UInt32) (now : Int) :
    Except Failure (Option T × TcTimeoutQueue T) :=
  match queue.data.find? (·.uniqId = uniqId) with
  | none => .ok (none, queue)
  | some it => do
      let rest ← queue.leave it.timeIter
      let rest ← rest.eraseTime it.timeIter
      pure (some it.ptr, rest.pushBack ⟨it.node, queue.rehashes⟩ now)

def push (table : HashTable) (queue : TcTimeoutQueue T) (ptr : T)
    (uniqId : UInt32) (now : Int) : Bool × TcTimeoutQueue T :=
  if queue.data.any (·.uniqId = uniqId) then
    (false, queue)
  else
    let node := queue.pushed
    let queue := queue.insertData table { node, uniqId, ptr }
    let queue := { queue with pushed := node + 1 }
    (true, queue.pushBack ⟨node, queue.rehashes⟩ now)

def erase (queue : TcTimeoutQueue T) (uniqId : UInt32) :
    Except Failure (Option T × TcTimeoutQueue T) :=
  match queue.data.find? (·.uniqId = uniqId) with
  | none => .ok (none, queue)
  | some it => do
      let rest ← queue.leave it.timeIter
      let rest ← rest.eraseTime it.timeIter
      let rest ← rest.eraseData ⟨it.node, queue.rehashes⟩
      pure (some it.ptr, rest)

/-- The loop of `timeout`.  What it takes is handed to the functor, by the
overload that has one. -/
def timeoutLoop (ms : Int) : Nat → TcTimeoutQueue T →
    Except Failure (List T × TcTimeoutQueue T)
  | 0, _ => .error .endless
  | turns + 1, queue =>
      match queue.time with
      | [] => .ok ([], queue)
      | it :: _ =>
          if ms - it.createTime > queue.timeout then do
            let info ← queue.deref it.dataIter
            let rest ← queue.eraseData it.dataIter
            let rest ← rest.leave (some it.node)
            let rest ← rest.eraseTime (some it.node)
            let (later, rest) ← timeoutLoop ms turns rest
            pure (info.ptr :: later, rest)
          else
            .ok ([], queue)

def expire (queue : TcTimeoutQueue T) (ms : Int) :
    Except Failure (List T × TcTimeoutQueue T) :=
  timeoutLoop ms (queue.time.length + 1) queue

/-- What `pop` does with the first node, and `swap` with every node: the node
that is handed out, and its entry, unless there is none. -/
def handOut (queue : TcTimeoutQueue T) (it : Option Nat) :
    Except Failure (Option (Option Nat × T) × TcTimeoutQueue T) := do
  let info ← queue.derefTime it
  let it := if info.hasPoped then queue.firstNoPopIter else it
  if it = none then
    pure (none, queue)
  else
    let info ← queue.derefTime it
    if info.hasPoped then
      .error (.assertion "it->hasPoped == false")
    else
      let entry ← queue.deref info.dataIter
      let queue :=
        { queue with
          time := queue.time.map fun (other : NodeInfo) =>
            if some other.node = it then
              { other with hasPoped := true }
            else
              other }
      let next ← queue.increment it
      pure (some (next, entry.ptr), { queue with firstNoPopIter := next })

def pop (queue : TcTimeoutQueue T) :
    Except Failure (Option T × TcTimeoutQueue T) :=
  match queue.time with
  | [] => .ok (none, queue)
  | it :: _ => do
      let (handed, rest) ← queue.handOut (some it.node)
      pure (handed.map Prod.snd, rest)

/-- The loop of `swap` from a node on. -/
def swapLoop : Nat → Option Nat → List T → TcTimeoutQueue T →
    Except Failure (List T × TcTimeoutQueue T)
  | _, none, q, queue => .ok (q, queue)
  | 0, some _, _, _ => .error .endless
  | turns + 1, some it, q, queue => do
      let (handed, rest) ← queue.handOut (some it)
      match handed with
      | none => pure (q, rest)
      | some (next, ptr) => swapLoop turns next (q ++ [ptr]) rest

def swap (queue : TcTimeoutQueue T) (q : List T) :
    Except Failure ((Bool × List T) × TcTimeoutQueue T) :=
  match queue.time with
  | [] => .ok ((false, q), queue)
  | it :: _ => do
      let (q, rest) ←
        swapLoop (queue.time.length + 1) (some it.node) q queue
      pure ((!q.isEmpty, q), rest)

end TcTimeoutQueue

inductive Event (T : Type)
  | push (ptr : T) (uniqId : UInt32) (now : Int)
  | get (uniqId : UInt32) (bErase : Bool)
  | getAndRefresh (uniqId : UInt32) (now : Int)
  | erase (uniqId : UInt32)
  | pop
  | swap (q : List T)
  | timeout (ms : Int)

inductive Answer (T : Type)
  | success (result : Bool)
  /-- Nothing for a null pointer, and if `pop` returns `false`. -/
  | item (t : Option T)
  | swapped (result : Bool) (q : List T)
  | expired (items : List T)
deriving DecidableEq, Repr

/-- The clock that the operation reads. -/
def Event.now {T : Type} : Event T → Option Int
  | .push _ _ now => some now
  | .getAndRefresh _ now => some now
  | .timeout ms => some ms
  | _ => none

def Event.perform {T : Type} (table : HashTable) (queue : TcTimeoutQueue T) :
    Event T → Except Failure (Answer T × TcTimeoutQueue T)
  | .push ptr uniqId now =>
      let (result, queue) := queue.push table ptr uniqId now
      .ok (.success result, queue)
  | .get uniqId bErase => do
      let (t, queue) ← queue.get uniqId bErase
      pure (.item t, queue)
  | .getAndRefresh uniqId now => do
      let (t, queue) ← queue.getAndRefresh uniqId now
      pure (.item t, queue)
  | .erase uniqId => do
      let (t, queue) ← queue.erase uniqId
      pure (.item t, queue)
  | .pop => do
      let (t, queue) ← queue.pop
      pure (.item t, queue)
  | .swap q => do
      let ((result, q), queue) ← queue.swap q
      pure (.swapped result q, queue)
  | .timeout ms => do
      let (items, queue) ← queue.expire ms
      pure (.expired items, queue)

end TarsCpp.RefreshQueue
