import Mathlib.Logic.Function.Basic
import TarsCpp.TransitionRun

/-!
# Futures and promises

Any number of threads register continuations with `then` and `WhenAll`, and
complete promises.  What a thread does while it holds the mutex of a future is
one step, and so is every check in between.  Futures, continuations and the
callbacks of `WhenAll` are the addresses of what `new` has returned.  What a
continuation does before it returns is left open: the calls that it makes are
steps like those of other threads, and no step waits for the end of a call that
the same thread has made.
-/

namespace TarsCpp.Promise

/-- `Exception` with what it says, or an `ExceptionBase`. -/
inductive ExceptionBase
  | exceptionBase
  | exception (info : String) (code : ℤ)
deriving DecidableEq, Repr

/-- What is thrown: an exception of the library, one of the standard library
with its `what()`, or something else. -/
inductive Thrown
  | tars (exception : ExceptionBase)
  | standard (what : String)
  | other
deriving DecidableEq, Repr

def currentException : Thrown → ExceptionBase
  | .tars exception => exception
  | .standard what => .exception what 0
  | .other => .exception "unknow_exception" 0

/-- The values of all types of futures: those of the user, those of `void`, and
those of `WhenAll`, where a future that is not initialized is none. -/
inductive Value (α : Type)
  | given (value : α)
  | void
  | futures (items : List (Option ℕ))
deriving DecidableEq, Repr

abbrev Result (α : Type) : Type :=
  Except ExceptionBase (Value α)

/-- How a continuation ends; it may return a future that is not initialized. -/
inductive Outcome (α : Type)
  | returned (value : Value α)
  | thrown (exception : Thrown)
  | future (returned : Option ℕ)
deriving DecidableEq, Repr

/-- What is thrown by `then` of a future that is not initialized. -/
def uninitialized : ExceptionBase :=
  .exception "future uninitialized" 0

/-- What the promise of a continuation is completed with, unless the
continuation returns a future. -/
def Outcome.result {α : Type} : Outcome α → Result α
  | .returned value => .ok value
  | .thrown exception => .error (currentException exception)
  | .future _ => .error uninitialized

/-- Who may complete a future. -/
inductive Owner
  /-- Nobody: the address has not been returned by `new`. -/
  | free
  /-- Nobody: the future is a `PromptFutureImpl`. -/
  | prompt
  | user
  /-- The continuation whose `then` returned the future. -/
  | watcher (id : ℕ)
  | group (id : ℕ)
deriving DecidableEq, Repr

structure FutureImpl (α : Type) where
  owner : Owner := .free
  /-- `m_isDone` with `m_value` and `m_exp`. -/
  result : Option (Result α) := none
  watchers : List ℕ := []
  /-- The threads in `invokeWatchers`, in front of the swap or with the rest of
  their watchers. -/
  invoking : List (Option (List ℕ)) := []
  /-- The watchers have been swapped out. -/
  drained : Bool := false
  /-- How many calls have completed the future. -/
  succeeded : ℕ := 0

inductive Callback
  | user
  /-- `ForwardWatcher::invoke`, with the future of its promise. -/
  | forward (promise : ℕ)
  /-- `ParallelCallback::onFuture`. -/
  | onFuture (group : ℕ) (n : ℕ)
deriving DecidableEq, Repr

/-- How far the registration of a continuation and its invocation are. -/
inductive Status
  | absent
  /-- In front of `isDone`. -/
  | checking
  /-- In front of `push_back`. -/
  | appending
  | listed
  | running
  /-- `onFuture` has stored the future. -/
  | stored
  /-- `onFuture` has counted to zero. -/
  | last
  /-- The callback has returned or thrown. -/
  | replied
  | finished
deriving DecidableEq, Repr

/-- A `SequentialWatcher`. -/
structure Watcher (α : Type) where
  source : ℕ := 0
  callback : Callback := .user
  /-- The future of its promise. -/
  derived : ℕ := 0
  status : Status := .absent
  outcome : Option (Outcome α) := none
  /-- The continuation that forwards the future which the callback has
  returned. -/
  forwarder : Option ℕ := none

/-- A `ParallelCallback`. -/
structure Group where
  created : Bool := false
  promise : ℕ := 0
  inputs : List ℕ := []
  futures : List (Option ℕ) := []
  waitCount : ℤ := 0
  /-- The continuations that have been registered, in the order of the
  inputs. -/
  members : List ℕ := []

structure System (α : Type) where
  futures : ℕ → FutureImpl α := fun _ => {}
  watchers : ℕ → Watcher α := fun _ => {}
  groups : ℕ → Group := fun _ => {}
  /-- The continuations in the order in which they were invoked. -/
  calls : List ℕ := []

inductive Event (α : Type)
  /-- `Promise()`. -/
  | promise (future : ℕ)
  /-- `Future(v)` or `Future(exp)`. -/
  | prompt (future : ℕ) (result : Result α)
  /-- `setValue`, `set` or `setException` of a promise of the user. -/
  | complete (future : ℕ) (result : Result α)
  | then_ (source watcher derived : ℕ)
  | whenAll (group promise : ℕ) (inputs : List ℕ)
  /-- `then` of the next input of `WhenAll`. -/
  | register (group watcher derived : ℕ)
  /-- `isDone` in `appendWacther`. -/
  | check (watcher : ℕ)
  /-- `push_back` in `appendWacther`. -/
  | append (watcher : ℕ)
  | swap (future thread : ℕ)
  /-- `w.run` of the next watcher, or the end of the loop. -/
  | next (future thread : ℕ)
  /-- A continuation of the user ends. -/
  | return_ (watcher : ℕ) (outcome : Outcome α)
  /-- `ForwardWatcher::invoke`. -/
  | forward (watcher : ℕ)
  /-- `m_futures[n] = f`. -/
  | store (watcher : ℕ)
  /-- `m_waitCount.fetch_sub(1)`. -/
  | countDown (watcher : ℕ)
  /-- `m_promise.setValue(m_futures)`. -/
  | finish (watcher : ℕ)
  /-- What `SequentialWatcher::invoke` does behind the callback, with the
  addresses of a further continuation and its future. -/
  | reply (watcher forwarder derived : ℕ)

/-- A value as `int`. -/
def toInt (value : ℤ) : ℤ :=
  value.bmod (2 ^ 32)

/-- What `markFinishWithException` throws. -/
def duplicated : ExceptionBase :=
  .exception "Duplicated mark finish with exception." 0

namespace System

variable {α : Type} (system : System α)

def setFuture (id : ℕ) (future : FutureImpl α) : System α :=
  { system with futures := Function.update system.futures id future }

def setWatcher (id : ℕ) (watcher : Watcher α) : System α :=
  { system with watchers := Function.update system.watchers id watcher }

def setGroup (id : ℕ) (group : Group) : System α :=
  { system with groups := Function.update system.groups id group }

/-- The future is completed, and the thread goes on to `invokeWatchers`. -/
def complete (id : ℕ) (result : Result α) : System α :=
  let future := system.futures id
  system.setFuture id
    { future with
      result := some result
      invoking := future.invoking ++ [none]
      succeeded := future.succeeded + 1 }

/-- `setValue`, `set` or `setException`, with whether it has succeeded. -/
def tryComplete (id : ℕ) (result : Result α) : System α × Bool :=
  match (system.futures id).result with
  | none => (system.complete id result, true)
  | some _ => (system, false)

/-- `then` up to `appendWacther`. -/
def register (source id derived : ℕ) (callback : Callback) :
    Option (System α) :=
  if (system.futures source).owner ≠ .free ∧
      (system.watchers id).status = .absent ∧
      (system.futures derived).owner = .free then
    some ((system.setFuture derived { owner := .watcher id }).setWatcher id
      { source, callback, derived, status := .checking })
  else
    none

/-- A watcher is run. -/
def invoke (id : ℕ) : System α :=
  { system.setWatcher id { system.watchers id with status := .running } with
    calls := system.calls ++ [id] }

/-- The callback has ended. -/
def conclude (id : ℕ) (outcome : Outcome α) : System α :=
  system.setWatcher id
    { system.watchers id with status := .replied, outcome := some outcome }

def setStatus (id : ℕ) (status : Status) : System α :=
  system.setWatcher id { system.watchers id with status }

/-- A builtin callback has tried to complete its promise. -/
def concludeCompletion (id : ℕ) : System α × Bool → System α
  | (system, true) => system.conclude id (.returned .void)
  | (system, false) => system.conclude id (.thrown (.tars duplicated))

/-- The future may be returned by a continuation. -/
def Returnable : Outcome α → Prop
  | .future (some id) => (system.futures id).owner ≠ .free
  | .future none | .returned _ | .thrown _ => True

instance (outcome : Outcome α) : Decidable (system.Returnable outcome) := by
  unfold Returnable
  split <;> infer_instance

def step : Event α → Option (System α)
  | .promise id =>
      if (system.futures id).owner = .free then
        some (system.setFuture id { owner := .user })
      else
        none
  | .prompt id result =>
      if (system.futures id).owner = .free then
        some (system.setFuture id
          { owner := .prompt, result := some result, drained := true })
      else
        none
  | .complete id result =>
      if (system.futures id).owner = .user then
        some (system.tryComplete id result).1
      else
        none
  | .then_ source id derived => system.register source id derived .user
  | .whenAll id promise inputs =>
      if (system.groups id).created = false ∧
          (system.futures promise).owner = .free ∧
          ∀ input ∈ inputs, (system.futures input).owner ≠ .free then
        let system := (system.setFuture promise
            { owner := .group id }).setGroup id
          { created := true
            promise := promise
            inputs := inputs
            futures := List.replicate inputs.length none
            waitCount := toInt inputs.length }
        some (if inputs = [] then system.complete promise (.ok (.futures []))
          else system)
      else
        none
  | .register group id derived =>
      let all := system.groups group
      match all.inputs[all.members.length]? with
      | some source =>
          (system.register source id derived
            (.onFuture group all.members.length)).map fun system =>
              system.setGroup group
                { all with members := all.members ++ [id] }
      | none => none
  | .check id =>
      let watcher := system.watchers id
      if watcher.status = .checking then
        some (if (system.futures watcher.source).result.isSome then
            system.invoke id
          else
            system.setStatus id .appending)
      else
        none
  | .append id =>
      let watcher := system.watchers id
      if watcher.status = .appending then
        let future := system.futures watcher.source
        some ((system.setFuture watcher.source
          { future with watchers := future.watchers ++ [id] }).setStatus id
            .listed)
      else
        none
  | .swap id thread =>
      let future := system.futures id
      match future.invoking[thread]? with
      | some none => some (system.setFuture id
          { future with
            watchers := []
            invoking := future.invoking.set thread (some future.watchers)
            drained := true })
      | _ => none
  | .next id thread =>
      let future := system.futures id
      match future.invoking[thread]? with
      | some (some []) => some (system.setFuture id
          { future with invoking := future.invoking.eraseIdx thread })
      | some (some (watcher :: rest)) => some ((system.setFuture id
          { future with invoking := future.invoking.set thread (some rest) }
            ).invoke watcher)
      | _ => none
  | .return_ id outcome =>
      let watcher := system.watchers id
      if watcher.status = .running ∧ watcher.callback = .user ∧
          system.Returnable outcome then
        some (system.conclude id outcome)
      else
        none
  | .forward id =>
      let watcher := system.watchers id
      match watcher.status, watcher.callback,
          (system.futures watcher.source).result with
      | .running, .forward promise, some result =>
          some (concludeCompletion id (system.tryComplete promise result))
      | _, _, _ => none
  | .store id =>
      let watcher := system.watchers id
      match watcher.status, watcher.callback with
      | .running, .onFuture group n =>
          let all := system.groups group
          some ((system.setGroup group
            { all with futures := all.futures.set n (some watcher.source) }
              ).setStatus id .stored)
      | _, _ => none
  | .countDown id =>
      let watcher := system.watchers id
      match watcher.status, watcher.callback with
      | .stored, .onFuture group _ =>
          let all := system.groups group
          let system := system.setGroup group
            { all with waitCount := toInt (all.waitCount - 1) }
          some (if all.waitCount > 1 then system.conclude id (.returned .void)
            else system.setStatus id .last)
      | _, _ => none
  | .finish id =>
      let watcher := system.watchers id
      match watcher.status, watcher.callback with
      | .last, .onFuture group _ =>
          let all := system.groups group
          some (concludeCompletion id
            (system.tryComplete all.promise (.ok (.futures all.futures))))
      | _, _ => none
  | .reply id forwarder derived =>
      let watcher := system.watchers id
      let finished := { watcher with status := .finished }
      match watcher.status, watcher.outcome with
      | .replied, some (.future (some returned)) =>
          ((system.setWatcher id
            { finished with forwarder := some forwarder }).register returned
              forwarder derived (.forward watcher.derived))
      | .replied, some outcome => some ((system.tryComplete watcher.derived
          outcome.result).1.setWatcher id finished)
      | _, _ => none

end System

end TarsCpp.Promise
