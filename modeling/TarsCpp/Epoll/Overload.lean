import TarsCpp.DoubleRounding
import TarsCpp.TransitionRun
import TarsCpp.Epoll.NetThread

/-!
# Overload protection

The receive queues of `DataBuffer` with the counter over all of them, and the
check of `BindAdapter::isOverloadorDiscard`, made once for what is inserted
together.  Above four fifths of the capacity requests are to be marked, above
the capacity discarded; a backlog of exactly the capacity counts as normal.
-/

namespace TarsCpp.Epoll

open TransitionRun DoubleRounding

/-- A `size_t` as an `int`. -/
def toInt (size : Nat) : Int := (size : Int).bmod (2 ^ 32)

theorem toInt_of_lt {size : Nat} (small : size < 2 ^ 31) :
    toInt size = size := by
  unfold toInt
  rw [Int.bmod_eq_of_le] <;> omega

/-- `(int)(_iQueueCapacity / 5.*4)`. -/
def overloadBound (iQueueCapacity : Int) : Int :=
  truncate (toDouble (toDouble (iQueueCapacity / 5) * 4))

def isOverloadorDiscard (iQueueCapacity : Int) (size : Nat) : Int :=
  let iRecvBufferSize := toInt size
  if iRecvBufferSize > overloadBound iQueueCapacity ∧
      iRecvBufferSize < iQueueCapacity ∧ iQueueCapacity > 0 then
    -1
  else if iRecvBufferSize > iQueueCapacity ∧ iQueueCapacity > 0 then
    -2
  else
    0

/-- A receive context with its `_isOverload`. -/
structure Received where
  context : RecvContext
  isOverload : Bool := false

/-- `_threadDataQueue` holds one queue for each handler. -/
structure DataBuffer where
  iRecvBufferSize : Nat := 0
  queueMode : Bool := false
  threadDataQueue : List (List Received)

namespace DataBuffer

def create (handleNum : Nat) (queueMode : Bool) : DataBuffer :=
  { queueMode, threadDataQueue := List.replicate handleNum [] }

/-- Without the queue mode everybody shares the first queue. -/
def index (handleIndex : Uid) (buffer : DataBuffer) : Nat :=
  if buffer.queueMode then
    handleIndex.toNat % buffer.threadDataQueue.length
  else
    0

/-- `getDataQueue(handleIndex)->push_back(recv)`. -/
def pushBack (handleIndex : Uid) (recv : List Received)
    (buffer : DataBuffer) : Option DataBuffer := do
  let i := buffer.index handleIndex
  let queue ← buffer.threadDataQueue[i]?
  some { buffer with
    threadDataQueue := buffer.threadDataQueue.set i (queue ++ recv) }

def insertRecvQueue (recv : Received) (buffer : DataBuffer) :
    Option DataBuffer :=
  let iRecvBufferSize := (buffer.iRecvBufferSize + 1) % 2 ^ 64
  { buffer with iRecvBufferSize }.pushBack recv.context.uid [recv]

/-- A whole `deque`, into the queue of its last context. -/
def insertRecvQueues (recv : List Received) (buffer : DataBuffer) :
    Option DataBuffer :=
  match recv.getLast? with
  | none => some buffer
  | some back =>
      let iRecvBufferSize :=
        (buffer.iRecvBufferSize + recv.length) % 2 ^ 64
      { buffer with iRecvBufferSize }.pushBack back.context.uid recv

def pop (handleIndex : Uid) (buffer : DataBuffer) :
    Option (Option Received × DataBuffer) := do
  let i := buffer.index handleIndex
  match ← buffer.threadDataQueue[i]? with
  | [] => some (none, buffer)
  | data :: queue =>
      some (some data, { buffer with
        iRecvBufferSize := (buffer.iRecvBufferSize + (2 ^ 64 - 1)) % 2 ^ 64
        threadDataQueue := buffer.threadDataQueue.set i queue })

/-- What is queued. -/
def queued (buffer : DataBuffer) : List Received :=
  buffer.threadDataQueue.flatten

end DataBuffer

structure BindAdapter where
  iQueueCapacity : Int
  dataBuffer : DataBuffer

inductive QueueEvent
  | insertRecvQueue (recv : Received) (force : Bool)
  | insertRecvQueues (recv : List Received)
  | pop (handleIndex : Uid)

namespace BindAdapter

def isOverloadorDiscard (adapter : BindAdapter) : Int :=
  Epoll.isOverloadorDiscard adapter.iQueueCapacity
    adapter.dataBuffer.iRecvBufferSize

def setOverload (recv : Received) : Received := { recv with isOverload := true }

def insertRecvQueue (recv : Received) (force : Bool)
    (adapter : BindAdapter) : Option BindAdapter :=
  let iRet := adapter.isOverloadorDiscard
  if iRet = 0 ∨ force then do
    let dataBuffer ← adapter.dataBuffer.insertRecvQueue recv
    some { adapter with dataBuffer }
  else if iRet = -1 then do
    let dataBuffer ← adapter.dataBuffer.insertRecvQueue (setOverload recv)
    some { adapter with dataBuffer }
  else
    some adapter

def insertRecvQueues (recv : List Received) (adapter : BindAdapter) :
    Option BindAdapter :=
  let iRet := adapter.isOverloadorDiscard
  if iRet = 0 then do
    let dataBuffer ← adapter.dataBuffer.insertRecvQueues recv
    some { adapter with dataBuffer }
  else if iRet = -1 then do
    let dataBuffer ←
      adapter.dataBuffer.insertRecvQueues (recv.map setOverload)
    some { adapter with dataBuffer }
  else
    some adapter

def run (adapter : BindAdapter) : QueueEvent → Option BindAdapter
  | .insertRecvQueue recv force => adapter.insertRecvQueue recv force
  | .insertRecvQueues recv => adapter.insertRecvQueues recv
  | .pop handleIndex => do
      let (_, dataBuffer) ← adapter.dataBuffer.pop handleIndex
      some { adapter with dataBuffer }

def Step (adapter : BindAdapter) (event : QueueEvent) (next : BindAdapter) :
    Prop :=
  adapter.run event = some next

end BindAdapter

section Classification

variable {iQueueCapacity : Int} {backlog : Nat}

/-- Two roundings move a value of this magnitude by less than a fifth. -/
theorem abs_fourFifths_sub_lt {capacity : ℚ} (positive : 0 < capacity)
    (fits : capacity < 2 ^ 31) :
    |toDouble (toDouble (capacity / 5) * 4) - 4 * capacity / 5| < 1 / 5 := by
  have first := abs_toDouble_sub_le (div_pos positive (by norm_num : (0 : ℚ) < 5))
  have firstBounds := abs_le.mp first
  have quotient : 0 < toDouble (capacity / 5) := by
    norm_num at firstBounds
    linarith
  have second := abs_le.mp
    (abs_toDouble_sub_le (mul_pos quotient (by norm_num : (0 : ℚ) < 4)))
  rw [abs_lt]
  norm_num at firstBounds second
  constructor <;> linarith

/-- The computation with doubles rounds down four fifths of the capacity. -/
theorem overloadBound_eq (positive : 0 < iQueueCapacity)
    (fits : iQueueCapacity < 2 ^ 31) :
    overloadBound iQueueCapacity = 4 * iQueueCapacity / 5 := by
  obtain ⟨capacity, rfl⟩ := Int.eq_ofNat_of_zero_le positive.le
  unfold overloadBound truncate
  by_cases whole : 5 ∣ capacity
  · obtain ⟨fifth, rfl⟩ := whole
    have quotient : (((5 * fifth : ℕ) : ℤ) : ℚ) / 5 = fifth := by
      push_cast
      ring
    have product : (fifth : ℚ) * 4 = ((fifth * 4 : ℕ) : ℚ) := by
      push_cast
      ring
    rw [quotient, toDouble_natCast (by omega), product,
      toDouble_natCast (by omega), if_pos (Nat.cast_nonneg _),
      Int.floor_natCast]
    omega
  · have near := abs_lt.mp (abs_fourFifths_sub_lt
      (by exact_mod_cast positive : (0 : ℚ) < ((capacity : ℤ) : ℚ))
      (by exact_mod_cast fits))
    have division : (4 * capacity : ℤ) =
        5 * (4 * capacity / 5) + 4 * capacity % 5 :=
      (Int.mul_ediv_add_emod _ _).symm
    have least : (1 : ℤ) ≤ 4 * capacity % 5 := by omega
    have most : (4 * capacity : ℤ) % 5 ≤ 4 := by omega
    have division' : (4 * (capacity : ℤ) : ℚ) =
        5 * ((4 * capacity / 5 : ℤ) : ℚ) + ((4 * capacity % 5 : ℤ) : ℚ) := by
      exact_mod_cast division
    have least' : (1 : ℚ) ≤ ((4 * capacity % 5 : ℤ) : ℚ) := by
      exact_mod_cast least
    have most' : ((4 * capacity % 5 : ℤ) : ℚ) ≤ 4 := by
      exact_mod_cast most
    have bound : (0 : ℚ) ≤ ((4 * capacity / 5 : ℤ) : ℚ) := by
      exact_mod_cast (by omega : (0 : ℤ) ≤ 4 * capacity / 5)
    rw [if_pos (by linarith), Int.floor_eq_iff]
    constructor <;> linarith

theorem normal_iff (positive : 0 < iQueueCapacity)
    (fits : iQueueCapacity < 2 ^ 31) :
    isOverloadorDiscard iQueueCapacity backlog = 0 ↔
      toInt backlog = iQueueCapacity ∨
        5 * toInt backlog ≤ 4 * iQueueCapacity := by
  have bound := overloadBound_eq positive fits
  unfold isOverloadorDiscard
  dsimp only
  split_ifs with overload discard
  · exact iff_of_false (by decide) (by omega)
  · exact iff_of_false (by decide) (by omega)
  · exact iff_of_true rfl (by omega)

theorem discard_iff (positive : 0 < iQueueCapacity) :
    isOverloadorDiscard iQueueCapacity backlog = -2 ↔
      iQueueCapacity < toInt backlog := by
  unfold isOverloadorDiscard
  dsimp only
  split_ifs with overload discard
  · exact iff_of_false (by decide) (by omega)
  · exact iff_of_true rfl discard.1
  · exact iff_of_false (by decide) (by omega)

/-- A larger backlog is not treated better. -/
def Protected (iQueueCapacity : Int) (backlog larger : Nat) : Prop :=
  (isOverloadorDiscard iQueueCapacity backlog ≠ 0 →
    isOverloadorDiscard iQueueCapacity larger ≠ 0) ∧
  (isOverloadorDiscard iQueueCapacity backlog = -2 →
    isOverloadorDiscard iQueueCapacity larger = -2)

/-- From above four fifths to exactly the capacity, or, where the larger
backlog is no `int` any more, to the number it is taken for. -/
def FallsBack (iQueueCapacity iRecvBufferSize larger : Int) : Prop :=
  4 * iQueueCapacity < 5 * iRecvBufferSize ∧
      iRecvBufferSize < iQueueCapacity ∧
      (larger = iQueueCapacity ∨ 5 * larger ≤ 4 * iQueueCapacity) ∨
    iQueueCapacity < iRecvBufferSize ∧ larger ≤ iQueueCapacity

theorem protected_iff (positive : 0 < iQueueCapacity)
    (fits : iQueueCapacity < 2 ^ 31) {larger : Nat} :
    Protected iQueueCapacity backlog larger ↔
      ¬ FallsBack iQueueCapacity (toInt backlog) (toInt larger) := by
  unfold Protected FallsBack
  rw [ne_eq, ne_eq, normal_iff positive fits, normal_iff positive fits,
    discard_iff positive, discard_iff positive]
  omega

/-- Below `2 ^ 31` the capacity itself is the only gap. -/
theorem fallsBack_iff {larger : Nat} (more : backlog ≤ larger)
    (small : larger < 2 ^ 31) :
    FallsBack iQueueCapacity (toInt backlog) (toInt larger) ↔
      4 * iQueueCapacity < 5 * backlog ∧ backlog < iQueueCapacity ∧
        larger = iQueueCapacity := by
  rw [toInt_of_lt small, toInt_of_lt (Nat.lt_of_le_of_lt more small)]
  unfold FallsBack
  omega

end Classification

end TarsCpp.Epoll
