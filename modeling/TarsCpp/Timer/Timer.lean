import TarsCpp.Multimap
import TarsCpp.TransitionRun

/-!
# The timer

`TC_TimerBase` with the threads that use it.  A step is what a thread does
under the mutex, or the beginning or the end of a task.  The thread that fires
events either executes each task itself, as in `TC_Epoller`, or hands it to a
pool, as in `TC_Timer`.
-/

namespace TarsCpp.Timer

/-- `Func`, with what its function captures; `repeatTime` is 0 for a single
task and for a cron.  The time is an `uint64_t`. -/
structure Func where
  fireMillseconds : Nat
  uniqueId : UInt32
  repeatTime : Int := 0
  /-- `_cron.isset`. -/
  isset : Bool := false
deriving DecidableEq, Repr

/-- A task that `create` gives the function of a single one. -/
def Func.Once (event : Func) : Prop :=
  event.repeatTime = 0 ∧ event.isset = false

instance (event : Func) : Decidable event.Once :=
  inferInstanceAs (Decidable (_ ∧ _))

/-- The value of an `int64_t` that gets an `uint64_t`. -/
def toInt64 (ms : Nat) : Int := if ms < 2 ^ 63 then ms else ms - 2 ^ 64

structure TC_TimerBase where
  nextTimer : Int := -1
  mapEvent : List Func := []
  tmpEvent : List UInt32 := []
  /-- The ids under their times, in the order of the times. -/
  mapTimer : List (Nat × UInt32) := []
  increaseId : UInt32 := 0
  repeatIds : List UInt32 := []
deriving DecidableEq

namespace TC_TimerBase

variable (t : TC_TimerBase)

def genUniqueId : UInt32 :=
  let i := t.increaseId + 1
  if i = 0 then i + 1 else i

/-- `exist(uniqId, true)`. -/
def exist (uniqId : UInt32) : Bool := uniqId ∈ t.repeatIds

def findEvent (uniqId : UInt32) : Option Func :=
  t.mapEvent.find? (·.uniqueId = uniqId)

def eraseEvent (uniqId : UInt32) : TC_TimerBase :=
  { t with mapEvent := t.mapEvent.filter (·.uniqueId ≠ uniqId) }

def erase (uniqId : UInt32) : TC_TimerBase :=
  let t :=
    match t.findEvent uniqId with
    | none => t
    | some event =>
        let rest := t.mapTimer.filter (· ≠ (event.fireMillseconds, uniqId))
        { t.eraseEvent uniqId with mapTimer := rest }
  { t with repeatIds := t.repeatIds.filter (· ≠ uniqId) }

def clear : TC_TimerBase :=
  { t with mapEvent := [], mapTimer := [], repeatIds := [], nextTimer := -1 }

/-- `_mapTimer[ms].insert(uniqId)`. -/
def insertTimer (ms : Nat) (uniqId : UInt32) : TC_TimerBase :=
  if (ms, uniqId) ∈ t.mapTimer then
    t
  else
    let entries := Multimap.insert Prod.fst (ms, uniqId) t.mapTimer
    { t with mapTimer := entries }

def insertEvent (event : Func) : TC_TimerBase :=
  match t.findEvent event.uniqueId with
  | none => { t with mapEvent := event :: t.mapEvent }
  | some _ => t

/-- What `post` makes of `_nextTimer`. -/
def nearer (ms : Nat) : TC_TimerBase :=
  if t.nextTimer < 0 then
    { t with nextTimer := toInt64 ms }
  else if (ms : Int) < t.nextTimer then
    { t with nextTimer := toInt64 ms }
  else t

def post (event : Func) (repeat_ : Bool) : TC_TimerBase :=
  let t :=
    if repeat_ then { t with repeatIds := event.uniqueId :: t.repeatIds } else t
  ((t.insertEvent event).insertTimer event.fireMillseconds
    event.uniqueId).nearer event.fireMillseconds

/-- The entries whose time has come, where `TNOWMS` is what the clock shows
when it is compared with a time. -/
def due (TNOWMS : Nat → Nat) : List (Nat × UInt32) :=
  t.mapTimer.takeWhile fun it => it.1 ≤ TNOWMS it.1

def getEvents (TNOWMS : Nat → Nat) : List UInt32 × TC_TimerBase :=
  let rest := t.mapTimer.dropWhile fun it => it.1 ≤ TNOWMS it.1
  let nextTimer := rest.head?.elim (-1) fun it => toInt64 it.1
  ((t.due TNOWMS).map Prod.snd,
    { t with mapTimer := rest, nextTimer := nextTimer })

/-- The event is in `_tmpEvent` while it is executed. -/
def takeEvent (event : Func) : TC_TimerBase :=
  { t.eraseEvent event.uniqueId with
    tmpEvent := event.uniqueId :: t.tmpEvent }

def releaseEvent (uniqId : UInt32) : TC_TimerBase :=
  { t with tmpEvent := t.tmpEvent.filter (· ≠ uniqId) }

end TC_TimerBase

/-- How far an event is that has been taken out of `_mapEvent`. -/
inductive Stage
  /-- Taken, and not yet given to `onFireEvent`. -/
  | taken
  | queued
  | running
  /-- The task has returned. -/
  | ran
  /-- Not in `_tmpEvent` any more. -/
  | released
  /-- `exist` has answered `true`. -/
  | passed
deriving DecidableEq, Repr

structure Job where
  func : Func
  stage : Stage
deriving DecidableEq, Repr

/-- What has happened to an id since it was generated. -/
structure Trace where
  func : Option Func := none
  starts : Nat := 0
  finishes : Nat := 0
  /-- Whether it was erased, or all events were cleared. -/
  forgotten : Bool := false
deriving DecidableEq

structure System where
  timer : TC_TimerBase := {}
  clock : Nat := 0
  /-- The events that are going to be posted. -/
  created : List (Func × Bool) := []
  /-- The ids that `fireEvents` has still to look up. -/
  el : List UInt32 := []
  jobs : List Job := []
  trace : UInt32 → Trace := fun _ => {}

namespace System

variable (x : System)

def record (uniqId : UInt32) (change : Trace → Trace) : UInt32 → Trace :=
  Function.update x.trace uniqId (change (x.trace uniqId))

/-- The firing thread is not in the middle of an event. -/
def Ready (inline_ : Bool) : Prop :=
  if inline_ then x.jobs = [] else ∀ job ∈ x.jobs, job.stage ≠ .taken

end System

inductive Label
  | wait
  | create (event : Func) (repeat_ : Bool)
  | post (uniqId : UInt32)
  | erase (uniqId : UInt32)
  | clear
  | getEvents
  | skip (uniqId : UInt32)
  | take (uniqId : UInt32)
  | fire (uniqId : UInt32)
  | start (uniqId : UInt32)
  | finish (uniqId : UInt32)
  | release (uniqId : UInt32)
  | exist (uniqId : UInt32)
  | repost (uniqId : UInt32) (ms : Nat)
deriving DecidableEq, Repr

/-- One step of one thread; `inline_` says that the tasks are executed by the
thread that fires them. -/
inductive Step (inline_ : Bool) : System → Label → System → Prop
  | wait {x : System} (now : Nat) (later : x.clock ≤ now) :
      Step inline_ x .wait { x with clock := now }
  | create {x : System} (event : Func) (repeat_ : Bool)
      (generated : event.uniqueId = x.timer.genUniqueId) :
      Step inline_ x (.create event repeat_) { x with
        timer := { x.timer with increaseId := event.uniqueId }
        created := (event, repeat_) :: x.created
        trace := x.record event.uniqueId fun _ => { func := some event } }
  | post {x : System} {before behind : List (Func × Bool)} (event : Func)
      (repeat_ : Bool)
      (waits : x.created = before ++ (event, repeat_) :: behind) :
      Step inline_ x (.post event.uniqueId) { x with
        timer := x.timer.post event repeat_
        created := before ++ behind }
  | erase {x : System} (uniqId : UInt32) :
      Step inline_ x (.erase uniqId) { x with
        timer := x.timer.erase uniqId
        trace := x.record uniqId fun trace => { trace with forgotten := true } }
  | clear {x : System} :
      Step inline_ x .clear { x with
        timer := x.timer.clear
        trace := fun uniqId => { x.trace uniqId with forgotten := true } }
  | getEvents {x : System} (TNOWMS : Nat → Nat) (now : Nat)
      (ready : x.Ready inline_) (finished : x.el = [])
      (times : ∀ ms, x.clock ≤ TNOWMS ms ∧ TNOWMS ms ≤ now) :
      Step inline_ x .getEvents { x with
        timer := (x.timer.getEvents TNOWMS).2
        clock := now
        el := (x.timer.getEvents TNOWMS).1 }
  /-- The event is not there any more. -/
  | skip {x : System} (uniqId : UInt32) (ready : x.Ready inline_)
      (member : uniqId ∈ x.el) (gone : x.timer.findEvent uniqId = none) :
      Step inline_ x (.skip uniqId)
        { x with el := x.el.filter (· ≠ uniqId) }
  | take {x : System} (uniqId : UInt32) (event : Func)
      (ready : x.Ready inline_) (member : uniqId ∈ x.el)
      (found : x.timer.findEvent uniqId = some event) :
      Step inline_ x (.take uniqId) { x with
        timer := x.timer.takeEvent event
        el := x.el.filter (· ≠ uniqId)
        jobs := ⟨event, .taken⟩ :: x.jobs }
  | fire {x : System} {before behind : List Job} (event : Func)
      (job : x.jobs = before ++ ⟨event, .taken⟩ :: behind) :
      Step inline_ x (.fire event.uniqueId)
        { x with jobs := before ++ ⟨event, .queued⟩ :: behind }
  | start {x : System} {before behind : List Job} (event : Func)
      (job : x.jobs = before ++ ⟨event, .queued⟩ :: behind) :
      Step inline_ x (.start event.uniqueId) { x with
        jobs := before ++ ⟨event, .running⟩ :: behind
        trace := x.record event.uniqueId fun trace =>
          { trace with starts := trace.starts + 1 } }
  | finish {x : System} {before behind : List Job} (event : Func)
      (job : x.jobs = before ++ ⟨event, .running⟩ :: behind) :
      Step inline_ x (.finish event.uniqueId) { x with
        jobs := before ++ ⟨event, .ran⟩ :: behind
        trace := x.record event.uniqueId fun trace =>
          { trace with finishes := trace.finishes + 1 } }
  /-- A single task is done with; so is one whose event is not alive. -/
  | release {x : System} {before behind : List Job} (event : Func)
      (job : x.jobs = before ++ ⟨event, .ran⟩ :: behind) :
      Step inline_ x (.release event.uniqueId) { x with
        timer := x.timer.releaseEvent event.uniqueId
        jobs :=
          if event.Once ∨ event.uniqueId ∉ x.timer.tmpEvent then
            before ++ behind
          else
            before ++ ⟨event, .released⟩ :: behind }
  | exist {x : System} {before behind : List Job} (event : Func)
      (job : x.jobs = before ++ ⟨event, .released⟩ :: behind) :
      Step inline_ x (.exist event.uniqueId) { x with
        jobs :=
          if x.timer.exist event.uniqueId ∧
              (event.isset ∨ event.repeatTime > 0) then
            before ++ ⟨event, .passed⟩ :: behind
          else
            before ++ behind }
  /-- The next time is that of the cron, or `repeatTime` from now on. -/
  | repost {x : System} {before behind : List Job} (event : Func)
      (ms : Nat) (job : x.jobs = before ++ ⟨event, .passed⟩ :: behind) :
      Step inline_ x (.repost event.uniqueId ms) { x with
        timer := x.timer.post { event with fireMillseconds := ms } false
        jobs := before ++ behind }

end TarsCpp.Timer
