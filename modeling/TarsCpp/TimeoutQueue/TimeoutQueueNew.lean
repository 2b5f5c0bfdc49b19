import TarsCpp.Multimap
import TarsCpp.NetworkBuffer.Buffer

/-!
# The timeout queue

`TC_TimeoutQueueNew` with its three containers.  A push makes one node in each
of `_data`, `_time` and (for an unsent item) `_send`; the nodes have the number
of the push as their address.

Every entry of `_data` has one node in `_time`, the unsent ones have one in
`_send`, and all iterators that the containers hold into each other are valid.
-/

namespace TarsCpp.TimeoutQueue

open NetworkBuffer

/-- What the standard library decides about `unordered_map`. -/
structure HashTable where
  /-- The buckets of a table for so many elements. -/
  bucketCount : Nat → Nat
  /-- Iterators survive a rehash; the standard does not promise it. -/
  keepsIterators : Bool

/-- An iterator into `_data`: its node, and the number of the rehashes that
took iterators away before it was made. -/
structure DataIter where
  node : Nat
  rehashes : Nat
deriving DecidableEq, Repr

structure PtrInfo (T : Type) where
  node : Nat
  uniqId : UInt32
  ptr : T
  hasSend : Bool
  timeIter : Option Nat := none
  sendIter : Option Nat := none
deriving DecidableEq, Repr

structure NodeInfo where
  node : Nat
  timeout : Int
  dataIter : DataIter
deriving DecidableEq, Repr

structure SendInfo where
  node : Nat
  dataIter : DataIter
deriving DecidableEq, Repr

structure TcTimeoutQueueNew (T : Type) where
  data : List (PtrInfo T) := []
  time : List NodeInfo := []
  /-- The front comes first. -/
  send : List SendInfo := []
  buckets : Nat
  rehashes : Nat := 0
  pushed : Nat := 0
deriving DecidableEq, Repr

namespace TcTimeoutQueueNew

variable {T : Type}

/-- `TC_TimeoutQueueNew(timeout, size)`. -/
def new (table : HashTable) (size : Nat) : TcTimeoutQueueNew T where
  buckets := table.bucketCount size

def deref (queue : TcTimeoutQueueNew T) (dataIter : DataIter) :
    Except Failure (PtrInfo T) :=
  if dataIter.rehashes = queue.rehashes then
    match queue.data.find? (·.node = dataIter.node) with
    | some info => .ok info
    | none => .error .invalidAccess
  else
    .error .invalidAccess

/-- `_data.erase(dataIter)`. -/
def eraseData (queue : TcTimeoutQueueNew T) (dataIter : DataIter) :
    Except Failure (TcTimeoutQueueNew T) := do
  let _ ← queue.deref dataIter
  pure { queue with data := queue.data.filter (·.node ≠ dataIter.node) }

/-- `_time.erase(timeIter)`. -/
def eraseTime (queue : TcTimeoutQueueNew T) (timeIter : Option Nat) :
    Except Failure (TcTimeoutQueueNew T) :=
  match queue.time.find? (some ·.node = timeIter) with
  | some it => .ok { queue with time := queue.time.filter (·.node ≠ it.node) }
  | none => .error .invalidAccess

/-- `_send.erase(sendIter)`. -/
def eraseSend (queue : TcTimeoutQueueNew T) (sendIter : Option Nat) :
    Except Failure (TcTimeoutQueueNew T) :=
  match queue.send.find? (some ·.node = sendIter) with
  | some it => .ok { queue with send := queue.send.filter (·.node ≠ it.node) }
  | none => .error .invalidAccess

/-- `if(!hasSend) _send.erase(sendIter)`. -/
def eraseUnsent (queue : TcTimeoutQueueNew T) (info : PtrInfo T) :
    Except Failure (TcTimeoutQueueNew T) :=
  if info.hasSend then .ok queue else queue.eraseSend info.sendIter

/-- An assignment to the entry in a node of `_data`. -/
def assign (queue : TcTimeoutQueueNew T) (node : Nat)
    (update : PtrInfo T → PtrInfo T) : TcTimeoutQueueNew T :=
  { queue with
    data := queue.data.map fun info =>
      if info.node = node then update info else info }

/-- Whether an insertion exceeds the maximal load factor, which is one. -/
def rehashing (queue : TcTimeoutQueueNew T) : Bool :=
  queue.data.length + 1 > queue.buckets

/-- `_data.insert` of a key that is not there. -/
def insertData (table : HashTable) (queue : TcTimeoutQueueNew T)
    (info : PtrInfo T) : TcTimeoutQueueNew T :=
  if queue.rehashing then
    { queue with
      data := queue.data ++ [info]
      buckets := table.bucketCount (queue.data.length + 1)
      rehashes :=
        if table.keepsIterators then queue.rehashes else queue.rehashes + 1 }
  else
    { queue with data := queue.data ++ [info] }

/-- `_time.insert`. -/
def insertTime (info : NodeInfo) (time : List NodeInfo) : List NodeInfo :=
  Multimap.insert NodeInfo.timeout info time

def getSend (queue : TcTimeoutQueueNew T) : Except Failure (Option T) :=
  match queue.send.getLast? with
  | none => .ok none
  | some stSendInfo => do
      let info ← queue.deref stSendInfo.dataIter
      if info.hasSend then
        .error (.assertion "!stSendInfo.dataIter->second.hasSend")
      else
        pure (some info.ptr)

def popSend (queue : TcTimeoutQueueNew T) (del : Bool) :
    Except Failure (TcTimeoutQueueNew T) :=
  match queue.send.getLast? with
  | none => .error (.assertion "!_send.empty()")
  | some stSendInfo => do
      let info ← queue.deref stSendInfo.dataIter
      let queue := queue.assign info.node ({ · with hasSend := true })
      if del then
        let queue ← queue.eraseTime info.timeIter
        let queue ← queue.eraseData stSendInfo.dataIter
        pure { queue with send := queue.send.dropLast }
      else
        pure { queue with send := queue.send.dropLast }

def get (queue : TcTimeoutQueueNew T) (uniqId : UInt32) (bErase : Bool) :
    Except Failure (Option T × TcTimeoutQueueNew T) :=
  match queue.data.find? (·.uniqId = uniqId) with
  | none => .ok (none, queue)
  | some it =>
      if bErase then do
        let rest ← queue.eraseTime it.timeIter
        let rest ← rest.eraseUnsent it
        let rest ← rest.eraseData ⟨it.node, queue.rehashes⟩
        pure (some it.ptr, rest)
      else
        .ok (some it.ptr, queue)

def erase (queue : TcTimeoutQueueNew T) (uniqId : UInt32) :
    Except Failure (Option T × TcTimeoutQueueNew T) :=
  match queue.data.find? (·.uniqId = uniqId) with
  | none => .ok (none, queue)
  | some it => do
      let rest ← queue.eraseUnsent it
      let rest ← rest.eraseTime it.timeIter
      let rest ← rest.eraseData ⟨it.node, queue.rehashes⟩
      pure (some it.ptr, rest)

def push (table : HashTable) (queue : TcTimeoutQueueNew T) (ptr : T)
    (uniqId : UInt32) (timeout : Int) (hasSend : Bool) :
    Bool × TcTimeoutQueueNew T :=
  if queue.data.any (·.uniqId = uniqId) then
    (false, queue)
  else
    let node := queue.pushed
    let queue := queue.insertData table { node, uniqId, ptr, hasSend }
    let dataIter : DataIter := ⟨node, queue.rehashes⟩
    let queue :=
      { queue with
        time := insertTime ⟨node, timeout, dataIter⟩ queue.time
        pushed := node + 1 }
    let queue := queue.assign node ({ · with timeIter := some node })
    if hasSend then
      (true, queue)
    else
      let queue := { queue with send := ⟨node, dataIter⟩ :: queue.send }
      (true, queue.assign node ({ · with sendIter := some node }))

/-- `timeout(t)` at the time `iNow`. -/
def timeout (queue : TcTimeoutQueueNew T) (iNow : Int) :
    Except Failure (Option T × TcTimeoutQueueNew T) :=
  match queue.time with
  | [] => .ok (none, queue)
  | it :: _ =>
      if it.timeout > iNow then
        .ok (none, queue)
      else do
        let info ← queue.deref it.dataIter
        let rest ← queue.eraseUnsent info
        let rest ← rest.eraseData it.dataIter
        let rest ← rest.eraseTime (some it.node)
        pure (some info.ptr, rest)

end TcTimeoutQueueNew

inductive Event (T : Type)
  | push (ptr : T) (uniqId : UInt32) (timeout : Int) (hasSend : Bool)
  | get (uniqId : UInt32) (bErase : Bool)
  | erase (uniqId : UInt32)
  | getSend
  | popSend (del : Bool)
  | timeout (iNow : Int)

inductive Answer (T : Type)
  | done
  | success (result : Bool)
  /-- Nothing if the operation returns `false`. -/
  | item (t : Option T)
deriving DecidableEq, Repr

def Event.perform {T : Type} (table : HashTable)
    (queue : TcTimeoutQueueNew T) :
    Event T → Except Failure (Answer T × TcTimeoutQueueNew T)
  | .push ptr uniqId deadline hasSend =>
      let (result, queue) := queue.push table ptr uniqId deadline hasSend
      .ok (.success result, queue)
  | .get uniqId bErase => do
      let (t, queue) ← queue.get uniqId bErase
      pure (.item t, queue)
  | .erase uniqId => do
      let (t, queue) ← queue.erase uniqId
      pure (.item t, queue)
  | .getSend => do
      let t ← queue.getSend
      pure (.item t, queue)
  | .popSend del => do
      let queue ← queue.popSend del
      pure (.done, queue)
  | .timeout iNow => do
      let (t, queue) ← queue.timeout iNow
      pure (.item t, queue)

/-- An entry of the queue, with the number of its push. -/
structure Entry (T : Type) where
  node : Nat
  uniqId : UInt32
  ptr : T
  timeout : Int
  hasSend : Bool
deriving DecidableEq, Repr

theorem find?_of_nodup {α κ : Type} [DecidableEq κ] {key : α → κ}
    {items : List α} (distinct : (items.map key).Nodup) {item : α}
    (member : item ∈ items) : items.find? (key · = key item) = some item := by
  cases search : items.find? (key · = key item) with
  | none =>
      have missing := List.find?_eq_none.mp search item member
      simp at missing
  | some other =>
      have same : key other = key item := by
        simpa using List.find?_some search
      rw [List.inj_on_of_nodup_map distinct (List.mem_of_find?_eq_some search)
        member same]

namespace TcTimeoutQueueNew

variable {T : Type} {queue : TcTimeoutQueueNew T}

/-- The key under which a node is in `_time`. -/
def timeoutOf (time : List NodeInfo) (node : Nat) : Int :=
  ((time.find? (·.node = node)).map NodeInfo.timeout).getD 0

theorem timeoutOf_of_mem {time : List NodeInfo}
    (distinct : (time.map NodeInfo.node).Nodup) {it : NodeInfo}
    (member : it ∈ time) : timeoutOf time it.node = it.timeout := by
  rw [timeoutOf, find?_of_nodup distinct member]
  rfl

def entryOf (time : List NodeInfo) (info : PtrInfo T) : Entry T :=
  ⟨info.node, info.uniqId, info.ptr, timeoutOf time info.node, info.hasSend⟩

/-- The entries in the order in which they were pushed. -/
def contents (queue : TcTimeoutQueueNew T) : List (Entry T) :=
  queue.data.map (entryOf queue.time)

structure InStep (queue : TcTimeoutQueueNew T) : Prop where
  ids : (queue.data.map PtrInfo.uniqId).Nodup
  nodes : (queue.data.map PtrInfo.node).Pairwise (· < ·)
  pushed : ∀ info ∈ queue.data, info.node < queue.pushed
  /-- One node in `_time` for each entry, and nothing else. -/
  time : (queue.time.map NodeInfo.node).Perm (queue.data.map PtrInfo.node)
  sorted : Multimap.Sorted NodeInfo.timeout queue.time
  /-- One node in `_send` for each unsent entry, the oldest one at the back. -/
  send : queue.send.map SendInfo.node =
    ((queue.data.filter (!·.hasSend)).map PtrInfo.node).reverse
  /-- The iterators. -/
  timeIter : ∀ info ∈ queue.data, info.timeIter = some info.node
  sendIter : ∀ info ∈ queue.data, info.hasSend = false →
    info.sendIter = some info.node
  timeDataIter : ∀ info ∈ queue.time,
    info.dataIter = ⟨info.node, queue.rehashes⟩
  sendDataIter : ∀ info ∈ queue.send,
    info.dataIter = ⟨info.node, queue.rehashes⟩

theorem inStep_new (table : HashTable) (size : Nat) :
    InStep (new table size : TcTimeoutQueueNew T) := by
  constructor <;> simp [new, Multimap.Sorted]

section InStep

variable (inStep : queue.InStep)

include inStep

theorem InStep.nodup_data : (queue.data.map PtrInfo.node).Nodup :=
  inStep.nodes.imp Nat.ne_of_lt

theorem InStep.nodup_time : (queue.time.map NodeInfo.node).Nodup :=
  inStep.time.nodup_iff.mpr inStep.nodup_data

theorem InStep.nodup_send : (queue.send.map SendInfo.node).Nodup := by
  rw [inStep.send, List.nodup_reverse]
  exact inStep.nodup_data.sublist (List.filter_sublist.map _)

/-- Dereferencing a valid iterator. -/
theorem InStep.deref {info : PtrInfo T} (member : info ∈ queue.data) :
    queue.deref ⟨info.node, queue.rehashes⟩ = .ok info := by
  have found : queue.data.find? (·.node = info.node) = some info :=
    find?_of_nodup inStep.nodup_data member
  rw [TcTimeoutQueueNew.deref, if_pos rfl, found]

theorem InStep.mem_time {info : PtrInfo T} (member : info ∈ queue.data) :
    ∃ it ∈ queue.time, it.node = info.node :=
  List.mem_map.mp (inStep.time.mem_iff.mpr (List.mem_map_of_mem member))

theorem InStep.of_mem_time {it : NodeInfo} (member : it ∈ queue.time) :
    ∃ info ∈ queue.data, info.node = it.node :=
  List.mem_map.mp (inStep.time.mem_iff.mp (List.mem_map_of_mem member))

theorem InStep.mem_send {info : PtrInfo T} (member : info ∈ queue.data)
    (unsent : info.hasSend = false) :
    ∃ it ∈ queue.send, it.node = info.node := by
  apply List.mem_map.mp
  rw [inStep.send, List.mem_reverse]
  exact List.mem_map_of_mem (List.mem_filter.mpr ⟨member, by rw [unsent]; rfl⟩)

theorem InStep.of_mem_send {it : SendInfo} (member : it ∈ queue.send) :
    ∃ info ∈ queue.data, info.node = it.node ∧ info.hasSend = false := by
  have listed : it.node ∈ queue.send.map SendInfo.node :=
    List.mem_map_of_mem member
  rw [inStep.send, List.mem_reverse] at listed
  obtain ⟨info, filtered, same⟩ := List.mem_map.mp listed
  obtain ⟨present, unsent⟩ := List.mem_filter.mp filtered
  exact ⟨info, present, same, by simpa using unsent⟩

theorem InStep.timeoutOf {it : NodeInfo} (member : it ∈ queue.time) :
    timeoutOf queue.time it.node = it.timeout :=
  timeoutOf_of_mem inStep.nodup_time member

end InStep

def remove (queue : TcTimeoutQueueNew T) (node : Nat) : TcTimeoutQueueNew T :=
  { queue with
    data := queue.data.filter (·.node ≠ node)
    time := queue.time.filter (·.node ≠ node)
    send := queue.send.filter (·.node ≠ node) }

theorem InStep.remove (inStep : queue.InStep) (node : Nat) :
    (queue.remove node).InStep where
  ids := inStep.ids.sublist (List.filter_sublist.map _)
  nodes := inStep.nodes.sublist (List.filter_sublist.map _)
  pushed := fun info member => inStep.pushed info (List.mem_of_mem_filter member)
  time := by
    have kept := inStep.time.filter (· ≠ node)
    rw [List.filter_map, List.filter_map] at kept
    exact kept
  sorted := inStep.sorted.filter _
  send := by
    have kept := congrArg (List.filter (· ≠ node)) inStep.send
    rw [List.filter_map, List.filter_reverse, List.filter_map,
      List.filter_filter] at kept
    refine kept.trans ?_
    simp only [TcTimeoutQueueNew.remove, List.filter_filter]
    congr 4
    funext info
    exact Bool.and_comm _ _
  timeIter := fun info member =>
    inStep.timeIter info (List.mem_of_mem_filter member)
  sendIter := fun info member =>
    inStep.sendIter info (List.mem_of_mem_filter member)
  timeDataIter := fun info member =>
    inStep.timeDataIter info (List.mem_of_mem_filter member)
  sendDataIter := fun info member =>
    inStep.sendDataIter info (List.mem_of_mem_filter member)

theorem timeoutOf_filter {time : List NodeInfo} {node other : Nat}
    (different : other ≠ node) :
    timeoutOf (time.filter (·.node ≠ node)) other = timeoutOf time other := by
  rw [timeoutOf, timeoutOf, List.find?_filter]
  congr 3
  funext info
  by_cases same : info.node = other
  · simp [same, different]
  · simp [same]

theorem contents_remove (node : Nat) :
    (queue.remove node).contents =
      queue.contents.filter (·.node ≠ node) := by
  rw [contents, contents, List.filter_map]
  apply List.map_congr_left
  intro info member
  have different : info.node ≠ node := by
    simpa using (List.mem_filter.mp member).2
  rw [entryOf, entryOf]
  congr 1
  exact timeoutOf_filter different

theorem eraseTime_eq {it : NodeInfo} (member : it ∈ queue.time) :
    queue.eraseTime (some it.node) =
      .ok { queue with time := queue.time.filter (·.node ≠ it.node) } := by
  rw [eraseTime]
  cases search : queue.time.find? (some ·.node = some it.node) with
  | none =>
      have missing := List.find?_eq_none.mp search it member
      simp at missing
  | some found =>
      have same : found.node = it.node := by
        simpa using List.find?_some search
      simp only [same]

theorem eraseSend_eq {it : SendInfo} (member : it ∈ queue.send) :
    queue.eraseSend (some it.node) =
      .ok { queue with send := queue.send.filter (·.node ≠ it.node) } := by
  rw [eraseSend]
  cases search : queue.send.find? (some ·.node = some it.node) with
  | none =>
      have missing := List.find?_eq_none.mp search it member
      simp at missing
  | some found =>
      have same : found.node = it.node := by
        simpa using List.find?_some search
      simp only [same]

theorem eraseData_eq {dataIter : DataIter} {info : PtrInfo T}
    (valid : queue.deref dataIter = .ok info) :
    queue.eraseData dataIter =
      .ok { queue with
        data := queue.data.filter (·.node ≠ dataIter.node) } := by
  rw [eraseData, valid]
  rfl

/-- A sent entry has no node in `_send`. -/
theorem InStep.filter_send (inStep : queue.InStep) {info : PtrInfo T}
    (member : info ∈ queue.data) (sent : info.hasSend = true) :
    queue.send.filter (·.node ≠ info.node) = queue.send := by
  apply List.filter_eq_self.mpr
  intro it listed
  obtain ⟨other, otherMember, same, unsent⟩ := inStep.of_mem_send listed
  apply decide_eq_true
  intro equal
  have identical := List.inj_on_of_nodup_map inStep.nodup_data otherMember
    member (same.trans equal)
  rw [identical, sent] at unsent
  cases unsent

end TcTimeoutQueueNew

end TarsCpp.TimeoutQueue
