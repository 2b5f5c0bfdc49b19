import Mathlib.Tactic

/-!
# Queued requests and the connection they go to

`ObjectProxy` keeps requests while there is no connection, and hands them out
in `prepareConnection` when an adapter connects.  The loop overwrites its
parameter with what `selectAdapterProxy` selects, gives a request that carries
an adapter to the adapter at hand, and ends at the first null selection.
-/

namespace TarsCpp.Servant.ObjectProxy

inductive CallType
  | SYNC_CALL | ASYNC_CALL | ONE_WAY
deriving DecidableEq

/-- A callback: `getNetThreadProcess`, and whether `getCoroParallelBasePtr` has
an object to collect the answers in. -/
structure Callback where
  netThreadProcess : Bool := false
  coroParallel : Bool := false

/-- The fields of a `ReqMessage` that decide where it goes; `sched` tells
whether a coroutine waits for it. -/
structure ReqMessage (α : Type) where
  hash : Bool := false
  conHash : Bool := false
  hashCode : UInt32 := 0
  eType : CallType := .SYNC_CALL
  adapter : Option α := none
  sched : Bool := false
  callback : Option Callback := none

/-- What becomes of a queued request. -/
inductive Fate (α : Type)
  | invoked (adapter : α)
  /-- Completed with `TARSADAPTERNULL`. -/
  | adapterNull
  /-- Given up without anybody being told. -/
  | dropped
  /-- Still in the queue. -/
  | queued

variable {α σ : Type}

/-- `doInvokeException` after `iRet` has been set to `TARSADAPTERNULL`. -/
def doInvokeException (msg : ReqMessage α) : Fate α :=
  match msg.eType with
  | .ONE_WAY => .adapterNull
  | .SYNC_CALL => .adapterNull
  | .ASYNC_CALL =>
      match msg.callback with
      | none => .dropped
      | some callback =>
          if !msg.sched then
            if callback.netThreadProcess then .adapterNull
            else if msg.adapter.isSome then .adapterNull
            else .dropped
          else if callback.coroParallel then .adapterNull
          else .dropped

/-- The endpoint manager and its adapters, with the routines that look for an
adapter; `σ` is their state, which looking for an adapter may change. -/
structure EndpointManager (σ α : Type) where
  refreshReg : σ → σ
  valid : σ → Bool
  getHashProxy : UInt32 → Bool → σ → Option α × σ
  getWeightedProxy : Bool → σ → Option α × σ
  getNextValidProxy : σ → Option α × σ
  staticWeight : σ → Bool

/-- The result, the adapter and the state after it. -/
def EndpointManager.selectAdapterProxy (manager : EndpointManager σ α)
    (msg : ReqMessage α) (state : σ) : Bool × Option α × σ :=
  let state := manager.refreshReg state
  if !manager.valid state then (true, none, state)
  else if msg.hash then
    (false, manager.getHashProxy msg.hashCode msg.conHash state)
  else if manager.staticWeight state then
    (false, manager.getWeightedProxy true state)
  else (false, manager.getNextValidProxy state)

section Loop

variable (manager : EndpointManager σ α) (invoke : α → ReqMessage α → σ → σ)

/-- The loop, from a queue, the adapter in `adapterProxy` and a state.  Every
request is returned with its fate and the state in which its turn came;
`AdapterProxy::invoke` changes the state in some way. -/
def prepareConnection :
    List (ReqMessage α) → α → σ → List (ReqMessage α × σ × Fate α)
  | [], _, _ => []
  | msg :: queue, adapterProxy, state =>
      if msg.adapter.isNone && msg.hash then
        match manager.selectAdapterProxy msg state with
        | (_, none, state') =>
            (msg, state, doInvokeException msg) ::
              queue.map fun later => (later, state', .queued)
        | (_, some selected, state') =>
            (msg, state, .invoked selected) ::
              prepareConnection queue selected
                (invoke selected { msg with adapter := some selected } state')
      else
        (msg, state, .invoked adapterProxy) ::
          prepareConnection queue adapterProxy
            (invoke adapterProxy { msg with adapter := some adapterProxy }
              state)

/-- Where a request belongs when its turn comes in a state. -/
def destination (connected : α) (msg : ReqMessage α) (state : σ) : Fate α :=
  if msg.hash then
    match (manager.selectAdapterProxy msg state).2.1 with
    | none => .adapterNull
    | some selected => .invoked selected
  else .invoked connected

/-- Every request goes where it belongs. -/
def KeepsAffinity (connected : α) (queue : List (ReqMessage α)) (state : σ) :
    Prop :=
  ∀ handled ∈ prepareConnection manager invoke queue connected state,
    handled.2.2 = destination manager connected handled.1 handled.2.1

/-- Somebody is told when the request fails for want of an adapter. -/
def ReqMessage.Answerable (msg : ReqMessage α) : Prop :=
  msg.eType = .ASYNC_CALL → ∃ callback, msg.callback = some callback ∧
    if msg.sched then callback.coroParallel = true
    else callback.netThreadProcess = true

/-- With `current` in `adapterProxy`, the queue is served as it should be: a
request with a hash code and no adapter may get none only at the end, and then
has to be answerable; one that carries an adapter is to be selected the adapter
at hand; the others are there while that is the connected one. -/
def Served (connected : α) : List (ReqMessage α) → α → σ → Prop
  | [], _, _ => True
  | msg :: queue, current, state =>
      if msg.hash then
        match msg.adapter, manager.selectAdapterProxy msg state with
        | none, (_, none, _) => queue = [] ∧ msg.Answerable
        | none, (_, some selected, state') =>
            Served connected queue selected
              (invoke selected { msg with adapter := some selected } state')
        | some _, (_, selected, _) =>
            selected = some current ∧
              Served connected queue current
                (invoke current { msg with adapter := some current } state)
      else
        current = connected ∧
          Served connected queue current
            (invoke current { msg with adapter := some current } state)

end Loop

/-- A request without an adapter that fails is answered if somebody can be
told. -/
theorem doInvokeException_iff {msg : ReqMessage α} (none_ : msg.adapter = none) :
    doInvokeException msg = .adapterNull ↔ msg.Answerable := by
  rw [doInvokeException, ReqMessage.Answerable]
  cases msg.eType with
  | SYNC_CALL => simp
  | ONE_WAY => simp
  | ASYNC_CALL =>
      cases msg.callback with
      | none => simp
      | some callback =>
          cases msg.sched <;> cases callback.netThreadProcess <;>
            cases callback.coroParallel <;> simp [none_]

section Runs

variable {manager : EndpointManager σ α}
  {invoke : α → ReqMessage α → σ → σ} {connected : α}

/-- What is handled behind a request is handled as from the state after it. -/
theorem affinity_iff (queue : List (ReqMessage α)) (current : α) (state : σ) :
    (∀ handled ∈ prepareConnection manager invoke queue current state,
      handled.2.2 = destination manager connected handled.1 handled.2.1) ↔
      Served manager invoke connected queue current state := by
  induction queue generalizing current state with
  | nil => simp [prepareConnection, Served]
  | cons msg queue ih =>
      rw [prepareConnection, Served]
      cases hashed : msg.hash with
      | false =>
          simp only [Bool.and_false, Bool.false_eq_true, if_false,
            List.forall_mem_cons, ih]
          refine and_congr_left fun _ => ?_
          simp [destination, hashed]
      | true =>
          cases carried : msg.adapter with
          | some adapter =>
              simp only [Option.isNone_some, Bool.false_and,
                Bool.false_eq_true, if_false, if_true, List.forall_mem_cons,
                ih]
              refine and_congr_left fun _ => ?_
              simp only [destination, hashed, if_true]
              cases (manager.selectAdapterProxy msg state).2.1 with
              | none => simp
              | some selected => simp [eq_comm]
          | none =>
              simp only [Option.isNone_none, Bool.true_and, if_true]
              rcases selection : manager.selectAdapterProxy msg state with
                ⟨first, _ | selected, state'⟩
              · simp only [List.forall_mem_cons, List.forall_mem_map]
                have answered := doInvokeException_iff carried
                have here : destination manager connected msg state =
                    .adapterNull := by
                  simp [destination, hashed, selection]
                rw [here, answered]
                -- a request that is left in the queue is nowhere
                have nowhere : (∀ later ∈ queue, Fate.queued =
                    destination manager connected later state') ↔
                      queue = [] := by
                  constructor
                  · intro all
                    by_contra some_
                    obtain ⟨later, member⟩ := List.exists_mem_of_ne_nil _ some_
                    have equal := all later member
                    rw [destination] at equal
                    split at equal
                    · split at equal <;> cases equal
                    · cases equal
                  · rintro rfl later member
                    cases member
                rw [nowhere, and_comm]
              · simp only [List.forall_mem_cons, ih]
                refine and_iff_right ?_
                simp [destination, hashed, selection]

/-- The requests keep their affinity if and only if the queue is served with
the adapter that connects. -/
theorem prepareConnection_keepsAffinity_iff (queue : List (ReqMessage α))
    (state : σ) :
    KeepsAffinity manager invoke connected queue state ↔
      Served manager invoke connected queue connected state :=
  affinity_iff queue connected state

/-- Adapter 1 connects; a request with a hash code of adapter 2 drags the
request behind it along. -/
theorem prepareConnection_drags :
    let manager : EndpointManager Unit Nat :=
      ⟨id, fun _ => true, fun hashCode _ state => (some hashCode.toNat, state),
        fun _ state => (some 1, state), fun state => (some 1, state),
        fun _ => false⟩
    ¬ KeepsAffinity manager (fun _ _ state => state) 1
      [{ hash := true, hashCode := 2 }, {}] () := by
  intro manager keeps
  have handled := keeps ({}, (), .invoked 2) (by
    simp [prepareConnection, manager, EndpointManager.selectAdapterProxy])
  simp [destination] at handled

end Runs

end TarsCpp.Servant.ObjectProxy
