import Mathlib.Data.List.Count
import Mathlib.Logic.Function.Basic
import TarsCpp.Multimap
import TarsCpp.NetworkBuffer.Buffer

/-!
# The scheduler of coroutines

`TC_CoroutineScheduler` until `terminate()`.  A coroutine is its id, and a
list is the ids in it: unlinking a node takes the id out of the list that it
is in, whichever that is.  What a coroutine executes between two calls of the
scheduler is left open, and so is the order in which the loop of `run` takes
its parts.
-/

namespace TarsCpp.Coroutine

open NetworkBuffer

inductive CORO_STATUS
  | CORO_FREE
  | CORO_ACTIVE
  | CORO_AVAIL
  | CORO_INACTIVE
  | CORO_TIMEOUT
deriving DecidableEq, Repr

/-- The heads of the lists. -/
inductive Head
  | free
  | active
  | avail
  | inactive
  | timeout
deriving DecidableEq, Repr

structure TC_CoroutineScheduler where
  poolSize : UInt32 := 1000
  currentSize : UInt32 := 0
  usedSize : UInt32 := 0
  uniqId : UInt32 := 0
  /-- The id of the running coroutine; 0 is the one of `_mainCoro`. -/
  currentCoro : UInt32 := 0
  /-- The statuses of the coroutines that exist. -/
  all_coro : Option (UInt32 → Option CORO_STATUS) := none
  lists : Head → List UInt32 := fun _ => []
  needActiveCoroId : List UInt32 := []
  timeoutCoroId : List (Int × UInt32) := []
  activeCoroQueue : List UInt32 := []

namespace TC_CoroutineScheduler

variable (s : TC_CoroutineScheduler)

/-- `_all_coro[iId]`; there is no array before `init`. -/
def coro (iId : UInt32) : Option CORO_STATUS :=
  s.all_coro.bind fun all => all iId

def setStatus (iId : UInt32) (status : CORO_STATUS) : TC_CoroutineScheduler :=
  { s with all_coro := s.all_coro.map fun all =>
      Function.update all iId (some status) }

def CoroutineDel (iId : UInt32) : TC_CoroutineScheduler :=
  { s with lists := fun head => (s.lists head).erase iId }

def CoroutineAddTail (iId : UInt32) (head : Head) : TC_CoroutineScheduler :=
  { s with lists :=
      Function.update s.lists head (s.lists head ++ [iId]) }

/-- A coroutine with one of the statuses `from_` goes to the end of a list. -/
def moveTo (from_ : List CORO_STATUS) (status : CORO_STATUS) (head : Head)
    (iId : UInt32) : Except Failure TC_CoroutineScheduler :=
  match s.coro iId with
  | none => .error (.assertion "coro != NULL")
  | some found =>
      if found ∈ from_ then
        .ok (((s.CoroutineDel iId).setStatus iId status).CoroutineAddTail
          iId head)
      else
        .error (.assertion "false")

def moveToActive : UInt32 → Except Failure TC_CoroutineScheduler :=
  s.moveTo [.CORO_INACTIVE, .CORO_TIMEOUT] .CORO_ACTIVE .active

def moveToAvail : UInt32 → Except Failure TC_CoroutineScheduler :=
  s.moveTo [.CORO_INACTIVE] .CORO_AVAIL .avail

def moveToInactive : UInt32 → Except Failure TC_CoroutineScheduler :=
  s.moveTo [.CORO_ACTIVE, .CORO_AVAIL] .CORO_INACTIVE .inactive

def moveToTimeout : UInt32 → Except Failure TC_CoroutineScheduler :=
  s.moveTo [.CORO_ACTIVE, .CORO_AVAIL] .CORO_TIMEOUT .timeout

/-- Any status but `CORO_FREE`. -/
def moveToFreeList : UInt32 → Except Failure TC_CoroutineScheduler :=
  s.moveTo [.CORO_ACTIVE, .CORO_AVAIL, .CORO_INACTIVE, .CORO_TIMEOUT]
    .CORO_FREE .free

def generateId : Except Failure (UInt32 × TC_CoroutineScheduler) :=
  let i := s.uniqId + 1
  let i := if i = 0 then i + 1 else i
  if i ≤ s.poolSize then
    .ok (i, { s with uniqId := i })
  else
    .error (.assertion "i <= _poolSize")

/-- `new TC_CoroutineInfo(this, iId, s_ctx)` in the array and in `_free`. -/
def newCoroutine : Except Failure TC_CoroutineScheduler := do
  let (iId, s) ← s.generateId
  pure ((s.setStatus iId .CORO_FREE).CoroutineAddTail iId .free)

def newCoroutines : Nat → TC_CoroutineScheduler →
    Except Failure TC_CoroutineScheduler
  | 0, s => .ok s
  | count + 1, s => do newCoroutines count (← s.newCoroutine)

def init : Except Failure TC_CoroutineScheduler :=
  let currentSize := if s.poolSize ≤ 100 then s.poolSize else 100
  newCoroutines currentSize.toNat
    { s with
      usedSize := 0, uniqId := 0, currentSize := currentSize
      all_coro := some fun _ => none, lists := fun _ => [], currentCoro := 0 }

/-- `if(!_all_coro) init()`. -/
def initOnce : Except Failure TC_CoroutineScheduler :=
  if s.all_coro.isNone then s.init else .ok s

/-- The answer -1 is `none`. -/
def increaseCoroPoolSize : Except Failure (Option TC_CoroutineScheduler) :=
  if s.poolSize ≤ s.currentSize then
    .ok none
  else do
    let iInc :=
      if s.poolSize - s.currentSize > 100 then 100
      else s.poolSize - s.currentSize
    let s ← newCoroutines iInc.toNat s
    pure (some { s with currentSize := s.currentSize + iInc })

/-- The first coroutine of `_free` becomes available. -/
def takeFree : Except Failure (UInt32 × TC_CoroutineScheduler) :=
  match s.lists .free with
  | [] => .error (.assertion "coro != NULL")
  | iId :: _ =>
      let s := s.CoroutineDel iId
      let s := { s with usedSize := s.usedSize + 1 }
      .ok (iId, (s.setStatus iId .CORO_AVAIL).CoroutineAddTail iId .avail)

def go : Except Failure (UInt32 × TC_CoroutineScheduler) := do
  let s ← s.initOnce
  if s.usedSize ≥ s.currentSize ∨ s.lists .free = [] then
    match ← s.increaseCoroPoolSize with
    | none => pure (0, s)
    | some s => s.takeFree
  else
    s.takeFree

/-- `switchCoro`, up to the return to the one who called it. -/
def switchCoro (iId : UInt32) : TC_CoroutineScheduler :=
  { s with currentCoro := iId }

def yield (bFlag : Bool) : Except Failure TC_CoroutineScheduler :=
  if s.currentCoro = 0 then
    .ok s
  else do
    let s :=
      if bFlag then
        { s with needActiveCoroId := s.needActiveCoroId ++ [s.currentCoro] }
      else s
    pure ((← s.moveToInactive s.currentCoro).switchCoro 0)

def sleep (iNow iSleepTime : Int) : Except Failure TC_CoroutineScheduler :=
  if s.currentCoro = 0 then
    .ok s
  else do
    let iTimeout := iNow + iSleepTime.natAbs
    let timeoutCoroId :=
      Multimap.insert Prod.fst (iTimeout, s.currentCoro) s.timeoutCoroId
    let s := { s with timeoutCoroId := timeoutCoroId }
    pure ((← s.moveToTimeout s.currentCoro).switchCoro 0)

/-- The end of `corotineProc`. -/
def corotineProc : Except Failure TC_CoroutineScheduler := do
  let s := { s with usedSize := s.usedSize - 1 }
  pure ((← s.moveToFreeList s.currentCoro).switchCoro 0)

/-- From any thread, while no other one uses the queue. -/
def put (iCoroId : UInt32) : TC_CoroutineScheduler :=
  { s with activeCoroQueue := s.activeCoroQueue ++ [iCoroId] }

def wakeupAll : List UInt32 → TC_CoroutineScheduler →
    Except Failure TC_CoroutineScheduler
  | [], s => .ok s
  | iId :: coroIds, s => do wakeupAll coroIds (← s.moveToActive iId)

/-- The queue is swapped at once: what is put later waits for the next time. -/
def wakeup : Except Failure TC_CoroutineScheduler :=
  wakeupAll s.activeCoroQueue { s with activeCoroQueue := [] }

/-- The entries of `_timeoutCoroId` from its beginning. -/
def wakeupDue (iNow : Int) : List (Int × UInt32) → TC_CoroutineScheduler →
    Except Failure TC_CoroutineScheduler
  | [], s => .ok { s with timeoutCoroId := [] }
  | it :: rest, s =>
      if it.1 > iNow then
        .ok { s with timeoutCoroId := it :: rest }
      else do
        wakeupDue iNow rest (← s.moveToActive it.2)

def wakeupbytimeout (iNow : Int) : Except Failure TC_CoroutineScheduler :=
  wakeupDue iNow s.timeoutCoroId s

def wakeupSelves : List UInt32 → TC_CoroutineScheduler →
    Except Failure TC_CoroutineScheduler
  | [], s => .ok { s with needActiveCoroId := [] }
  | iId :: coroIds, s => do wakeupSelves coroIds (← s.moveToAvail iId)

def wakeupbyself : Except Failure TC_CoroutineScheduler :=
  wakeupSelves s.needActiveCoroId s

/-- The first coroutine of a list runs. -/
def runFirst (head : Head) : Except Failure TC_CoroutineScheduler :=
  match s.lists head with
  | [] => .error (.assertion "coro != NULL")
  | iId :: _ => .ok (s.switchCoro iId)

/-- A call of the scheduler, or a part of the loop of `run`. -/
inductive Event
  | start
  | go
  | yield (bFlag : Bool)
  | sleep (iNow iSleepTime : Int)
  | finish
  | put (iCoroId : UInt32)
  | wakeup
  | wakeupbytimeout (iNow : Int)
  | wakeupbyself
  | runActive
  | runAvail
deriving DecidableEq, Repr

def perform : Event → Except Failure TC_CoroutineScheduler
  | .start => s.initOnce
  | .go => do pure (← s.go).2
  | .yield bFlag => s.yield bFlag
  | .sleep iNow iSleepTime => s.sleep iNow iSleepTime
  | .finish => s.corotineProc
  | .put iCoroId => .ok (s.put iCoroId)
  | .wakeup => s.wakeup
  | .wakeupbytimeout iNow => s.wakeupbytimeout iNow
  | .wakeupbyself => s.wakeupbyself
  | .runActive => s.runFirst .active
  | .runAvail => s.runFirst .avail

/-- When the control flow gets to an event.  The parts of the loop are executed
by the main coroutine, which checks that there is a coroutine to run; before
`init` there is no running coroutine. -/
def Reaches : Event → Prop
  | .start | .go | .put _ => True
  | .yield _ | .sleep _ _ => s.all_coro.isSome
  | .finish => s.currentCoro ≠ 0
  | .wakeup | .wakeupbytimeout _ | .wakeupbyself =>
      s.all_coro.isSome ∧ s.currentCoro = 0
  | .runActive =>
      s.all_coro.isSome ∧ s.currentCoro = 0 ∧ s.lists .active ≠ []
  | .runAvail =>
      s.all_coro.isSome ∧ s.currentCoro = 0 ∧ s.lists .avail ≠ []

end TC_CoroutineScheduler

end TarsCpp.Coroutine
