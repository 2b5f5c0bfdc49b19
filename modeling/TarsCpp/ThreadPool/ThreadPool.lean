import TarsCpp.TransitionRun

/-!
# The thread pool

`exec`, the loop of the workers and `waitForAllDone` of a started
`TC_ThreadPool`.  What a thread does while it holds the lock is one step, and
so is every change of the counter.  Workers and waiting callers block on one
condition variable; a thread that has been notified stays blocked until it gets
the lock again, and may wake up without a notification.
-/

namespace TarsCpp.ThreadPool

/-- A task, known by the number of those that were submitted before it. -/
structure TaskFunc where
  id : ℕ
  expireTime : ℕ
deriving DecidableEq, Repr

/-- How a task that was taken has ended. -/
inductive Ending
  | executed
  | discarded
deriving DecidableEq, Repr

/-- Where a worker is in the loop of `run`. -/
inductive Worker
  /-- In front of `get`. -/
  | idle
  | blocked (notified : Bool)
  /-- Behind `get`. -/
  | taken (task : TaskFunc)
  /-- Behind `++_atomic`. -/
  | counted (task : TaskFunc)
  /-- In front of `--_atomic`. -/
  | finished
  /-- Behind `--_atomic`, without the lock. -/
  | uncounted
deriving DecidableEq, Repr

/-- Where a call of `waitForAllDone` is. -/
inductive Stage
  | called
  | blocked (notified : Bool)
  | returned (result : Bool)
deriving DecidableEq, Repr

/-- A call of `waitForAllDone`, with the number of the tasks submitted before
it. -/
structure Waiter where
  before : ℕ
  millsecond : ℤ
  stage : Stage
deriving DecidableEq, Repr

inductive Thread
  | worker (index : ℕ)
  | waiter (index : ℕ)
deriving DecidableEq, Repr

structure TC_ThreadPool where
  tasks : List TaskFunc := []
  atomic : ℤ := 0
  workers : List Worker
  waiters : List Waiter := []
  /-- How many tasks have been submitted. -/
  submitted : ℕ := 0
  /-- The tasks in the order in which they were taken. -/
  taken : List ℕ := []
  /-- The tasks in the order in which they ended. -/
  ended : List (ℕ × Ending) := []
deriving DecidableEq, Repr

inductive Event
  /-- `exec`, with the thread that `notify_one` wakes. -/
  | exec (timeoutMs : ℤ) (TNOWMS : ℕ) (woken : Option Thread)
  /-- `get` of a worker. -/
  | get (worker : ℕ)
  /-- The worker leaves `_condition.wait`. -/
  | wake (worker : ℕ)
  | increment (worker : ℕ)
  | runTask (worker : ℕ) (TNOWMS : ℕ)
  | decrement (worker : ℕ)
  /-- The end of the loop. -/
  | report (worker : ℕ)
  | waitForAllDone (millsecond : ℤ)
  /-- The call looks at the queue and the counter. -/
  | check (waiter : ℕ)
  /-- The call leaves `_condition.wait` or `_condition.wait_for`. -/
  | resume (waiter : ℕ) (timedOut : Bool)
deriving DecidableEq, Repr

/-- A value as `int`. -/
def toInt (value : ℤ) : ℤ :=
  value.bmod (2 ^ 32)

/-- `expireTime`, as `uint64_t`. -/
def expireTime (timeoutMs : ℤ) (TNOWMS : ℕ) : ℕ :=
  if timeoutMs = 0 then 0 else ((TNOWMS + timeoutMs) % 2 ^ 64).toNat

def Worker.notify : Worker → Worker
  | .blocked _ => .blocked true
  | .idle => .idle
  | .taken task => .taken task
  | .counted task => .counted task
  | .finished => .finished
  | .uncounted => .uncounted

def Stage.notify : Stage → Stage
  | .blocked _ => .blocked true
  | .called => .called
  | .returned result => .returned result

def Waiter.notify (waiter : Waiter) : Waiter :=
  { waiter with stage := waiter.stage.notify }

def TaskFunc.ending (task : TaskFunc) (TNOWMS : ℕ) : Ending :=
  if task.expireTime ≠ 0 ∧ task.expireTime < TNOWMS then
    .discarded
  else
    .executed

namespace TC_ThreadPool

/-- The pool behind `start` of that many threads. -/
def start (threadNum : ℕ) : TC_ThreadPool where
  workers := List.replicate threadNum .idle

variable (pool : TC_ThreadPool)

def setWorker (index : ℕ) (worker : Worker) : TC_ThreadPool :=
  { pool with workers := pool.workers.set index worker }

def setStage (index : ℕ) (waiter : Waiter) (stage : Stage) : TC_ThreadPool :=
  { pool with waiters := pool.waiters.set index { waiter with stage } }

/-- `_condition.notify_one()`, for the thread that is chosen among those that
are blocked and have not been notified. -/
def notifyOne : Option Thread → Option TC_ThreadPool
  | none =>
      if .blocked false ∈ pool.workers ∨
          ∃ waiter ∈ pool.waiters, waiter.stage = .blocked false then
        none
      else
        some pool
  | some (.worker index) =>
      if pool.workers[index]? = some (.blocked false) then
        some (pool.setWorker index (.blocked true))
      else
        none
  | some (.waiter index) =>
      match pool.waiters[index]? with
      | some waiter =>
          if waiter.stage = .blocked false then
            some (pool.setStage index waiter (.blocked true))
          else
            none
      | none => none

def notifyAll : TC_ThreadPool :=
  { pool with
    workers := pool.workers.map Worker.notify
    waiters := pool.waiters.map Waiter.notify }

def exec (timeoutMs : ℤ) (TNOWMS : ℕ) : TC_ThreadPool :=
  { pool with
    tasks := pool.tasks ++
      [⟨pool.submitted, expireTime timeoutMs TNOWMS⟩]
    submitted := pool.submitted + 1 }

/-- What `get` does with the lock: the worker takes a task or blocks. -/
def take (index : ℕ) : TC_ThreadPool :=
  match pool.tasks with
  | [] => pool.setWorker index (.blocked false)
  | task :: tasks =>
      { pool.setWorker index (.taken task) with
        tasks := tasks
        taken := pool.taken ++ [task.id] }

/-- `_tasks.empty() && _atomic == 0`. -/
def allDone : Bool :=
  pool.tasks.isEmpty && pool.atomic == 0

/-- What a caller of `waitForAllDone` does with the lock. -/
def look (index : ℕ) (waiter : Waiter) (otherwise : Stage) : TC_ThreadPool :=
  pool.setStage index waiter
    (if pool.allDone then .returned true else otherwise)

def step : Event → Option TC_ThreadPool
  | .exec timeoutMs TNOWMS woken =>
      (pool.exec timeoutMs TNOWMS).notifyOne woken
  | .get index =>
      match pool.workers[index]? with
      | some .idle => some (pool.take index)
      | _ => none
  | .wake index =>
      match pool.workers[index]? with
      | some (.blocked _) => some (pool.take index)
      | _ => none
  | .increment index =>
      match pool.workers[index]? with
      | some (.taken task) => some
          { pool.setWorker index (.counted task) with
            atomic := toInt (pool.atomic + 1) }
      | _ => none
  | .runTask index TNOWMS =>
      match pool.workers[index]? with
      | some (.counted task) => some
          { pool.setWorker index .finished with
            ended := pool.ended ++ [(task.id, task.ending TNOWMS)] }
      | _ => none
  | .decrement index =>
      match pool.workers[index]? with
      | some .finished => some
          { pool.setWorker index .uncounted with
            atomic := toInt (pool.atomic - 1) }
      | _ => none
  | .report index =>
      match pool.workers[index]? with
      | some .uncounted =>
          let pool := pool.setWorker index .idle
          some (if pool.allDone then pool.notifyAll else pool)
      | _ => none
  | .waitForAllDone millsecond => some
      { pool with
        waiters := pool.waiters ++ [⟨pool.submitted, millsecond, .called⟩] }
  | .check index =>
      match pool.waiters[index]? with
      | some waiter =>
          if waiter.stage = .called then
            some (pool.look index waiter (.blocked false))
          else
            none
      | none => none
  | .resume index timedOut =>
      match pool.waiters[index]? with
      | some waiter =>
          match waiter.stage, timedOut with
          | .blocked _, false =>
              some (pool.look index waiter (.blocked false))
          | .blocked _, true =>
              if waiter.millsecond < 0 then
                none
              else
                some (pool.look index waiter (.returned false))
          | _, _ => none
      | none => none

end TC_ThreadPool

end TarsCpp.ThreadPool
