import Mathlib.Tactic

/-!
# The status of an adapter

`AdapterProxy` counts failed calls and failed connections and takes itself out
of service.  Three detectors share one status flag; a successful call and a
successful connect both put the adapter back.  The law of the breaker is stated
against the evidence since the last activation.
-/

namespace TarsCpp.Servant

/-- `radio` is kept as the comparison `timeouts >= radio * calls` of floats:
what more calls reach, fewer reach as well. -/
structure CheckTimeoutInfo where
  minTimeoutInvoke : Nat := 2
  checkTimeoutInterval : Nat := 60
  frequenceFailInvoke : Nat := 2
  minFrequenceFailTime : Nat := 5
  reachesRadio : Nat → Nat → Bool := fun timeouts calls => calls ≤ 2 * timeouts
  tryTimeInterval : Nat := 10
  maxConnectExc : Nat := 1
  reachesRadio_fewer : ∀ {timeouts calls fewer : Nat}, 0 < fewer →
    fewer ≤ calls → reachesRadio timeouts calls →
    reachesRadio timeouts fewer := by
      intro timeouts calls fewer _ less reached
      simp only [decide_eq_true_eq] at reached ⊢
      omega

/-- The part of an `AdapterProxy` that decides whether it is in service. -/
structure AdapterProxy where
  activeStatus : Bool := true
  totalInvoke : Nat := 0
  timeoutInvoke : Nat := 0
  nextFinishInvokeTime : Int := 0
  frequenceFailInvoke : Nat := 0
  frequenceFailTime : Int := 0
  nextRetryTime : Int := 0
  connExc : Bool := false
  connExcCnt : Nat := 0

/-- What `checkActive` finds and gets of the transceiver.  `connect()` may
report a connection at once (`onConnectCallback`), and it may throw, also
after it has reported. -/
structure Transceiver where
  isValid : Bool
  reported : Bool := false
  throws : Bool := false
  hasConnected : Bool := false
  isConnecting : Bool := false

/-- `++` of a `uint32_t`. -/
def increment (count : Nat) : Nat := (count + 1) % 2 ^ 32

theorem increment_le (count : Nat) : increment count ≤ count + 1 :=
  Nat.mod_le _ _

theorem increment_of_lt {count : Nat} (small : count + 1 < 2 ^ 32) :
    increment count = count + 1 :=
  Nat.mod_eq_of_lt small

namespace AdapterProxy

def resetRetryTime (info : CheckTimeoutInfo) (next : Bool) (tnow : Int)
    (adapter : AdapterProxy) : AdapterProxy :=
  { adapter with
    nextRetryTime := if next then tnow + info.tryTimeInterval else tnow }

/-- The connection is closed as well. -/
def onSetInactive (info : CheckTimeoutInfo) (tnow : Int)
    (adapter : AdapterProxy) : AdapterProxy :=
  { adapter with activeStatus := false }.resetRetryTime info true tnow

/-- The other adapters of the endpoint get an `onSetInactive` too, and this one
a second; `tnow` is the last reading of the clock. -/
def setInactive (info : CheckTimeoutInfo) (tnow : Int)
    (adapter : AdapterProxy) : AdapterProxy :=
  adapter.onSetInactive info tnow

/-- The end of `finishInvoke(bool)`: the share of failures in a window. -/
def checkRadio (info : CheckTimeoutInfo) (bFail : Bool) (now later : Int)
    (adapter : AdapterProxy) : AdapterProxy :=
  if adapter.nextFinishInvokeTime < now then
    let adapter :=
      { adapter with nextFinishInvokeTime := now + info.checkTimeoutInterval }
    if bFail ∧ info.minTimeoutInvoke ≤ adapter.timeoutInvoke ∧
        info.reachesRadio adapter.timeoutInvoke adapter.totalInvoke then
      adapter.setInactive info later
    else
      { adapter with totalInvoke := 0, timeoutInvoke := 0 }
  else adapter

/-- A failed call, counted. -/
def countFailure (info : CheckTimeoutInfo) (now : Int)
    (adapter : AdapterProxy) : AdapterProxy :=
  { adapter with
    timeoutInvoke := increment adapter.timeoutInvoke
    frequenceFailTime :=
      if adapter.frequenceFailInvoke = 0 then now + info.minFrequenceFailTime
      else adapter.frequenceFailTime
    frequenceFailInvoke := increment adapter.frequenceFailInvoke }

/-- `now` and `later` are the first and the last reading of the clock. -/
def finishInvoke (info : CheckTimeoutInfo) (bFail : Bool) (now later : Int)
    (adapter : AdapterProxy) : AdapterProxy :=
  if !adapter.activeStatus then
    if !bFail then
      { adapter with
        activeStatus := true
        frequenceFailInvoke := 0
        nextFinishInvokeTime := now + info.checkTimeoutInterval
        totalInvoke := 1
        timeoutInvoke := 0
        connExc := false }
    else adapter
  else
    let adapter := { adapter with totalInvoke := increment adapter.totalInvoke }
    if bFail then
      let adapter := adapter.countFailure info now
      if info.frequenceFailInvoke ≤ adapter.frequenceFailInvoke ∧
          adapter.frequenceFailTime ≤ now then
        { adapter.setInactive info later with
          activeStatus := false }.resetRetryTime info true later
      else adapter.checkRadio info bFail now later
    else
      { adapter with frequenceFailInvoke := 0 }.checkRadio info bFail now later

def addConnExc (info : CheckTimeoutInfo) (bExc : Bool) (tnow : Int)
    (adapter : AdapterProxy) : AdapterProxy :=
  if bExc then
    if adapter.connExc then adapter
    else
      let adapter := { adapter with connExcCnt := increment adapter.connExcCnt }
      if info.maxConnectExc ≤ adapter.connExcCnt then
        { adapter.setInactive info tnow with connExc := true }
      else adapter
  else
    { adapter with connExc := false, connExcCnt := 0, activeStatus := true }

/-- `checkActive` gets as far as `connect()`. -/
def connects (now : Int) (transceiver : Transceiver) (adapter : AdapterProxy) :
    Bool :=
  (adapter.activeStatus || adapter.nextRetryTime ≤ now) && !transceiver.isValid

/-- The connection that `checkActive` sets up. -/
def connect (info : CheckTimeoutInfo) (later : Int) (transceiver : Transceiver)
    (adapter : AdapterProxy) : AdapterProxy :=
  let adapter :=
    if transceiver.reported then adapter.addConnExc info false later else adapter
  if transceiver.throws then { adapter with activeStatus := false } else adapter

def checkActive (info : CheckTimeoutInfo) (connecting : Bool)
    (now later : Int) (transceiver : Transceiver) (adapter : AdapterProxy) :
    Bool × AdapterProxy :=
  if !adapter.activeStatus ∧ now < adapter.nextRetryTime then
    (false, adapter)
  else
    let adapter :=
      if !adapter.activeStatus then adapter.resetRetryTime info true later
      else adapter
    let adapter :=
      if !transceiver.isValid then adapter.connect info later transceiver
      else adapter
    if connecting && adapter.activeStatus then
      (transceiver.hasConnected || transceiver.isConnecting, adapter)
    else (transceiver.hasConnected, adapter)

/-- What can happen to an adapter. -/
inductive Event
  | finishInvoke (bFail : Bool)
  | checkActive (connecting : Bool) (transceiver : Transceiver)
  | addConnExc (bExc : Bool)
  | resetRetryTime (next : Bool)

/-- An event, with the first and the last reading of the clock in it. -/
structure Step where
  event : Event
  now : Int
  later : Int

def handle (info : CheckTimeoutInfo) (step : Step) (adapter : AdapterProxy) :
    AdapterProxy :=
  match step.event with
  | .finishInvoke bFail => adapter.finishInvoke info bFail step.now step.later
  | .checkActive connecting transceiver =>
      (adapter.checkActive info connecting step.now step.later transceiver).2
  | .addConnExc bExc => adapter.addConnExc info bExc step.later
  | .resetRetryTime next => adapter.resetRetryTime info next step.later

/-- The event gets as far as a `connect()` of `checkActive`. -/
def attempts (step : Step) (adapter : AdapterProxy) : Bool :=
  match step.event with
  | .checkActive _ transceiver => adapter.connects step.now transceiver
  | _ => false

/-- The event reports an established connection. -/
def reports (step : Step) (adapter : AdapterProxy) : Bool :=
  match step.event with
  | .checkActive _ transceiver =>
      adapter.connects step.now transceiver && transceiver.reported
  | .addConnExc bExc => !bExc
  | _ => false

/-- The event is a `connect()` that throws. -/
def failsToConnect (step : Step) (adapter : AdapterProxy) : Bool :=
  match step.event with
  | .checkActive _ transceiver =>
      adapter.connects step.now transceiver && transceiver.throws
  | _ => false

/-- What has been seen since the adapter was last activated. -/
structure Evidence where
  /-- The times of the failed calls behind the last successful one. -/
  failures : List Int := []
  /-- The calls, and the failed calls, of the check window. -/
  calls : Nat := 0
  timeouts : Nat := 0
  /-- The failures to connect behind the last success. -/
  connectFailures : Nat := 0

namespace Evidence

/-- A finished call of an active adapter; the check window may be over. -/
def call (bFail closes : Bool) (now : Int) (evidence : Evidence) : Evidence :=
  { evidence with
    failures := if bFail then now :: evidence.failures else []
    calls := if closes then 0 else evidence.calls + 1
    timeouts := if closes then 0 else evidence.timeouts + bFail.toNat }

/-- An activation starts everything anew. -/
def observe (info : CheckTimeoutInfo) (adapter : AdapterProxy) (step : Step)
    (evidence : Evidence) : Evidence :=
  if !adapter.activeStatus && (adapter.handle info step).activeStatus then {}
  else if adapter.reports step then { evidence with connectFailures := 0 }
  else
    match step.event with
    | .finishInvoke bFail =>
        if adapter.activeStatus then
          evidence.call bFail (adapter.nextFinishInvokeTime < step.now) step.now
        else evidence
    | .addConnExc _ =>
        { evidence with connectFailures := evidence.connectFailures + 1 }
    | _ => evidence

end Evidence

/-- The adapter after some steps, and the evidence at that time. -/
def after (info : CheckTimeoutInfo) (steps : List Step) :
    AdapterProxy × Evidence :=
  steps.foldl (fun (adapter, evidence) step =>
    (adapter.handle info step, evidence.observe info adapter step)) ({}, {})

theorem after_concat (info : CheckTimeoutInfo) (steps : List Step)
    (step : Step) :
    after info (steps ++ [step]) =
      ((after info steps).1.handle info step,
        (after info steps).2.observe info (after info steps).1 step) := by
  simp [after, List.foldl_append]

/-- Enough consecutive failed calls, spread over a long enough time. -/
def Evidence.Frequent (info : CheckTimeoutInfo) (step : Step)
    (evidence : Evidence) : Prop :=
  step.event = .finishInvoke true ∧
    info.frequenceFailInvoke ≤ (step.now :: evidence.failures).length ∧
    ∃ first ∈ step.now :: evidence.failures,
      first + info.minFrequenceFailTime ≤ step.now

/-- The end of a check window with enough failed calls. -/
def Evidence.Radio (info : CheckTimeoutInfo) (adapter : AdapterProxy)
    (step : Step) (evidence : Evidence) : Prop :=
  step.event = .finishInvoke true ∧ adapter.nextFinishInvokeTime < step.now ∧
    info.minTimeoutInvoke ≤ evidence.timeouts + 1 ∧
    info.reachesRadio (evidence.timeouts + 1) (evidence.calls + 1)

/-- Enough consecutive failures to connect. -/
def Evidence.Unreachable (info : CheckTimeoutInfo) (step : Step)
    (evidence : Evidence) : Prop :=
  step.event = .addConnExc true ∧
    info.maxConnectExc ≤ evidence.connectFailures + 1

/-- Why an active adapter may be taken out of service. -/
def Justified (info : CheckTimeoutInfo) (step : Step) (adapter : AdapterProxy)
    (evidence : Evidence) : Prop :=
  adapter.failsToConnect step ∨ evidence.Frequent info step ∨
    evidence.Radio info adapter step ∨ evidence.Unreachable info step

/-- The law of the breaker for a sequence of steps. -/
structure Breaks (info : CheckTimeoutInfo) (steps : List Step) : Prop where
  counters : ∀ earlier rest, steps = earlier ++ rest →
    (after info earlier).1.timeoutInvoke ≤ (after info earlier).1.totalInvoke
  justified : ∀ earlier step rest, steps = earlier ++ step :: rest →
    (after info earlier).1.activeStatus →
    ((after info earlier).1.handle info step).activeStatus = false →
    (after info earlier).1.Justified info step (after info earlier).2
  spaced : ∀ earlier first between second rest,
    steps = earlier ++ first :: between ++ second :: rest →
    (after info earlier).1.activeStatus = false →
    (after info earlier).1.attempts first →
    (after info (earlier ++ first :: between)).1.activeStatus = false →
    (after info (earlier ++ first :: between)).1.attempts second →
    (∀ step ∈ between, step.event ≠ .resetRetryTime false) →
    first.later + info.tryTimeInterval ≤ second.later

/-- The clock does not go back. -/
def Clocked (steps : List Step) : Prop :=
  steps.Pairwise (fun step step' => step.later ≤ step'.now) ∧
    ∀ step ∈ steps, step.now ≤ step.later

/-- No counter from before is carried into a new activation, and the calls of
a window fit into the counter. -/
def Fresh (step : Step) (adapter : AdapterProxy) : Prop :=
  if adapter.activeStatus then
    ∀ bFail, step.event = .finishInvoke bFail → adapter.totalInvoke + 1 < 2 ^ 32
  else
    (step.event = .finishInvoke false → adapter.connExcCnt = 0) ∧
    (adapter.reports step → !adapter.failsToConnect step →
      adapter.frequenceFailInvoke = 0 ∧ adapter.timeoutInvoke = 0)

end AdapterProxy

end TarsCpp.Servant
