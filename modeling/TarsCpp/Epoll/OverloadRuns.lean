import TarsCpp.Epoll.Overload

/-!
# Runs of the receive queues

The counter agrees with what is queued, in whichever queue it is, so that the
backlog of every insertion is classified.  A request of a `deque` has the
backlog and the earlier requests of the `deque` before it.  It is admitted as
normal above four fifths of the capacity exactly where the classification has
its gap, or where it is made before the earlier ones are counted.
-/

namespace TarsCpp.Epoll

open TransitionRun

/-- Replacing an element of a list of lists replaces a piece of what they
hold. -/
theorem flatten_set {α : Type} {lists : List (List α)} {i : Nat}
    {list : List α} (found : lists[i]? = some list) :
    ∃ front back, lists.flatten = front ++ (list ++ back) ∧
      ∀ list', (lists.set i list').flatten = front ++ (list' ++ back) := by
  obtain ⟨inside, rfl⟩ := List.getElem?_eq_some_iff.mp found
  refine ⟨(lists.take i).flatten, (lists.drop (i + 1)).flatten, ?_, ?_⟩
  · conv_lhs => rw [← List.take_append_drop i lists,
      List.drop_eq_getElem_cons inside]
    rw [List.flatten_append, List.flatten_cons]
  · intro list'
    rw [List.set_eq_take_append_cons_drop, if_pos inside,
      List.flatten_append, List.flatten_cons]

namespace DataBuffer

variable {buffer next : DataBuffer} {handleIndex : Uid}
variable {recv : List Received}

/-- The counter is the number of what is queued. -/
def Counted (buffer : DataBuffer) : Prop :=
  buffer.iRecvBufferSize = buffer.queued.length % 2 ^ 64

/-- Requests have been put behind one of the queues. -/
def Appends (recv : List Received) (buffer next : DataBuffer) : Prop :=
  ∃ (i : Nat) (queue : List Received),
    buffer.threadDataQueue[i]? = some queue ∧
      next.threadDataQueue = buffer.threadDataQueue.set i (queue ++ recv)

/-- There is only one answer to what has been put there. -/
theorem Appends.unique {recv' : List Received}
    (appends : Appends recv buffer next)
    (appends' : Appends recv' buffer next) :
    recv = recv' := by
  obtain ⟨i, queue, found, same⟩ := appends
  obtain ⟨j, queue', found', same'⟩ := appends'
  obtain ⟨inside, rfl⟩ := List.getElem?_eq_some_iff.mp found
  obtain ⟨inside', rfl⟩ := List.getElem?_eq_some_iff.mp found'
  have here := congrArg (fun queues => queues[i]?) (same.symm.trans same')
  have there := congrArg (fun queues => queues[j]?) (same.symm.trans same')
  by_cases equal : i = j
  · subst equal
    simpa [List.getElem?_set, inside] using here
  · have nothing : recv = [] := by
      simpa [List.getElem?_set, inside, Ne.symm equal] using here
    have nothing' : recv' = [] := by
      simpa [List.getElem?_set, inside', equal] using there
    rw [nothing, nothing']

theorem Appends.length (appends : Appends recv buffer next) :
    next.queued.length = buffer.queued.length + recv.length := by
  obtain ⟨i, queue, found, same⟩ := appends
  obtain ⟨front, back, whole, replaced⟩ := flatten_set found
  rw [queued, queued, same, replaced, whole]
  simp only [List.length_append]
  omega

theorem Appends.eq_nil (appends : Appends recv buffer buffer) : recv = [] := by
  have length := appends.length
  exact List.length_eq_zero_iff.mp (by omega)

theorem counted_create (handleNum : Nat) (queueMode : Bool) :
    (create handleNum queueMode).Counted := by
  simp [Counted, create, queued]

theorem pushBack_spec (pushed : buffer.pushBack handleIndex recv = some next) :
    next.iRecvBufferSize = buffer.iRecvBufferSize ∧
      Appends recv buffer next := by
  obtain ⟨queue, found, same⟩ := Option.bind_eq_some_iff.mp pushed
  obtain rfl := Option.some.inj same
  exact ⟨rfl, _, queue, found, rfl⟩

/-- What inserting requests does to the counter and to the queues. -/
def Inserts (recv : List Received) (buffer next : DataBuffer) : Prop :=
  next.Counted ∧ (Appends recv buffer next ∨ recv = [] ∧ next = buffer)

theorem Inserts.unique {taken : List Received}
    (inserts : Inserts recv buffer next) (appends : Appends taken buffer next) :
    taken = recv := by
  obtain ⟨-, appends' | ⟨rfl, rfl⟩⟩ := inserts
  · exact appends.unique appends'
  · exact appends.eq_nil

theorem inserts_pushBack {iRecvBufferSize : Nat} (counted : buffer.Counted)
    (counter : iRecvBufferSize =
      (buffer.iRecvBufferSize + recv.length) % 2 ^ 64)
    (pushed : { buffer with iRecvBufferSize }.pushBack handleIndex recv =
      some next) : Inserts recv buffer next := by
  obtain ⟨same, appends⟩ := pushBack_spec pushed
  have appends : Appends recv buffer next := appends
  refine ⟨?_, .inl appends⟩
  unfold Counted at counted ⊢
  rw [same, counter, counted, appends.length, Nat.mod_add_mod]

theorem inserts_insertRecvQueue {recv : Received} (counted : buffer.Counted)
    (inserted : buffer.insertRecvQueue recv = some next) :
    Inserts [recv] buffer next :=
  inserts_pushBack counted rfl inserted

theorem inserts_insertRecvQueues (counted : buffer.Counted)
    (inserted : buffer.insertRecvQueues recv = some next) :
    Inserts recv buffer next := by
  unfold insertRecvQueues at inserted
  cases last : recv.getLast? with
  | none =>
      rw [last] at inserted
      rw [← Option.some.inj inserted]
      exact ⟨counted, .inr ⟨List.getLast?_eq_none_iff.mp last, rfl⟩⟩
  | some back =>
      rw [last] at inserted
      exact inserts_pushBack counted rfl inserted

theorem pop_spec {data : Option Received} (counted : buffer.Counted)
    (popped : buffer.pop handleIndex = some (data, next)) :
    next.Counted ∧ next.queued.length ≤ buffer.queued.length := by
  obtain ⟨queue, found, rest⟩ := Option.bind_eq_some_iff.mp popped
  cases queue with
  | nil =>
      obtain ⟨-, rfl⟩ := Prod.mk.inj (Option.some.inj rest)
      exact ⟨counted, Nat.le_refl _⟩
  | cons first queue =>
      obtain ⟨front, back, whole, replaced⟩ := flatten_set found
      obtain ⟨-, same⟩ := Prod.mk.inj (Option.some.inj rest)
      have queued : next.queued = front ++ (queue ++ back) := by
        rw [← same]
        exact replaced _
      have length : buffer.queued.length = next.queued.length + 1 := by
        rw [queued, DataBuffer.queued, whole]
        simp only [List.length_append, List.length_cons]
        omega
      have counter : next.iRecvBufferSize =
          (buffer.iRecvBufferSize + (2 ^ 64 - 1)) % 2 ^ 64 := by
        rw [← same]
      refine ⟨?_, by omega⟩
      unfold Counted at counted ⊢
      rw [counter, counted, length]
      omega

end DataBuffer

namespace QueueEvent

/-- Closing a connection is queued in any case. -/
def forced : QueueEvent → Bool
  | insertRecvQueue _ force => force
  | _ => false

def requests : QueueEvent → List Received
  | insertRecvQueue recv _ => [recv]
  | insertRecvQueues recv => recv
  | pop _ => []

end QueueEvent

namespace BindAdapter

variable {adapter next : BindAdapter} {event : QueueEvent}

/-- Whichever of these requests is a normal one, at most four fifths of the
capacity are queued before it. -/
def Below (adapter : BindAdapter) (requests : List Received) : Prop :=
  ∀ front recv back, requests = front ++ recv :: back →
    recv.isOverload = false →
    5 * (adapter.dataBuffer.queued.length + front.length : Int) ≤
      4 * adapter.iQueueCapacity

/-- No request is admitted as normal above four fifths of the capacity. -/
def Respects (adapter : BindAdapter) (event : QueueEvent)
    (next : BindAdapter) : Prop :=
  event.forced = false → ∀ taken,
    DataBuffer.Appends taken adapter.dataBuffer next.dataBuffer →
    adapter.Below taken

/-- There are more than four fifths of the capacity before a normal request,
but the backlog before its `deque` is no more than these, or is exactly the
capacity, or is too large for an `int` and taken for such a number. -/
def Slips (adapter : BindAdapter) (event : QueueEvent) : Prop :=
  let backlog := adapter.dataBuffer.queued.length
  event.forced = false ∧
    (∃ front recv back, event.requests = front ++ recv :: back ∧
      recv.isOverload = false ∧
      4 * adapter.iQueueCapacity < 5 * (backlog + front.length : Int)) ∧
    (toInt backlog = adapter.iQueueCapacity ∨
      5 * toInt backlog ≤ 4 * adapter.iQueueCapacity)

theorem below_iff {requests : List Received} :
    adapter.Below requests ↔
      ¬ ∃ front recv back, requests = front ++ recv :: back ∧
        recv.isOverload = false ∧ 4 * adapter.iQueueCapacity <
          5 * (adapter.dataBuffer.queued.length + front.length : Int) := by
  constructor
  · rintro below ⟨front, recv, back, split, normal, above⟩
    have seen := below front recv back split normal
    omega
  · intro none front recv back split normal
    by_contra above
    exact none ⟨front, recv, back, split, normal, by omega⟩

/-- What the counter is taken for is what the backlog is taken for. -/
theorem isOverloadorDiscard_eq (counted : adapter.dataBuffer.Counted) :
    adapter.isOverloadorDiscard =
      Epoll.isOverloadorDiscard adapter.iQueueCapacity
        adapter.dataBuffer.queued.length := by
  have same : toInt adapter.dataBuffer.iRecvBufferSize =
      toInt adapter.dataBuffer.queued.length := by
    have low : ((adapter.dataBuffer.queued.length % 2 ^ 64 : Nat) : Int) %
        (2 ^ 32 : Nat) = adapter.dataBuffer.queued.length % (2 ^ 32 : Nat) := by
      omega
    unfold toInt
    rw [counted, ← Int.emod_bmod, low, Int.emod_bmod]
  unfold isOverloadorDiscard Epoll.isOverloadorDiscard
  rw [same]

theorem below_setOverload (recv : List Received) :
    adapter.Below (recv.map setOverload) := by
  intro front marked back split normal
  have member : marked ∈ recv.map setOverload := by
    rw [split]
    exact List.mem_append_right _ List.mem_cons_self
  obtain ⟨request, -, rfl⟩ := List.mem_map.mp member
  cases normal

theorem below_nil : adapter.Below [] := below_setOverload []

/-- Requests are queued as they are, or marked, or not at all. -/
structure Receives (normal : Prop) (recv : List Received)
    (adapter next : BindAdapter) : Prop where
  capacity : next.iQueueCapacity = adapter.iQueueCapacity
  counted : next.dataBuffer.Counted
  admitted : normal →
    DataBuffer.Inserts recv adapter.dataBuffer next.dataBuffer
  other : ¬ normal → ∀ taken,
    DataBuffer.Appends taken adapter.dataBuffer next.dataBuffer →
    adapter.Below taken

section Receives

variable {normal : Prop} {recv : List Received} {dataBuffer : DataBuffer}

theorem Receives.admits (is_normal : normal)
    (inserts : DataBuffer.Inserts recv adapter.dataBuffer dataBuffer) :
    Receives normal recv adapter { adapter with dataBuffer } :=
  ⟨rfl, inserts.1, fun _ => inserts, fun other => absurd is_normal other⟩

theorem Receives.marks (other : ¬ normal)
    (inserts : DataBuffer.Inserts (recv.map setOverload) adapter.dataBuffer
      dataBuffer) :
    Receives normal recv adapter { adapter with dataBuffer } := by
  refine ⟨rfl, inserts.1, fun is_normal => absurd is_normal other, ?_⟩
  intro _ taken appends
  rw [inserts.unique appends]
  exact below_setOverload recv

theorem Receives.discards (other : ¬ normal)
    (counted : adapter.dataBuffer.Counted) :
    Receives normal recv adapter adapter := by
  refine ⟨rfl, counted, fun is_normal => absurd is_normal other, ?_⟩
  intro _ taken appends
  rw [appends.eq_nil]
  exact below_nil

end Receives

theorem receives_insertRecvQueue {recv : Received} {force : Bool}
    (counted : adapter.dataBuffer.Counted)
    (inserted : adapter.insertRecvQueue recv force = some next) :
    Receives (adapter.isOverloadorDiscard = 0 ∨ force) [recv] adapter next := by
  unfold insertRecvQueue at inserted
  dsimp only at inserted
  split_ifs at inserted with normal overload
  · obtain ⟨dataBuffer, run, same⟩ := Option.bind_eq_some_iff.mp inserted
    obtain rfl := Option.some.inj same
    exact .admits normal (DataBuffer.inserts_insertRecvQueue counted run)
  · obtain ⟨dataBuffer, run, same⟩ := Option.bind_eq_some_iff.mp inserted
    obtain rfl := Option.some.inj same
    exact .marks normal (DataBuffer.inserts_insertRecvQueue counted run)
  · obtain rfl := Option.some.inj inserted
    exact .discards normal counted

theorem receives_insertRecvQueues {recv : List Received}
    (counted : adapter.dataBuffer.Counted)
    (inserted : adapter.insertRecvQueues recv = some next) :
    Receives (adapter.isOverloadorDiscard = 0) recv adapter next := by
  unfold insertRecvQueues at inserted
  dsimp only at inserted
  split_ifs at inserted with normal overload
  · obtain ⟨dataBuffer, run, same⟩ := Option.bind_eq_some_iff.mp inserted
    obtain rfl := Option.some.inj same
    exact .admits normal (DataBuffer.inserts_insertRecvQueues counted run)
  · obtain ⟨dataBuffer, run, same⟩ := Option.bind_eq_some_iff.mp inserted
    obtain rfl := Option.some.inj same
    exact .marks normal (DataBuffer.inserts_insertRecvQueues counted run)
  · obtain rfl := Option.some.inj inserted
    exact .discards normal counted

/-- Normal requests may be behind more than four fifths only where the backlog
before all of them is classified as normal. -/
theorem Receives.below_iff {normal : Prop} {recv : List Received}
    (receives : Receives normal recv adapter next) :
    (∀ taken, DataBuffer.Appends taken adapter.dataBuffer next.dataBuffer →
      adapter.Below taken) ↔ (normal → adapter.Below recv) := by
  by_cases admitted : normal
  · have inserts := receives.admitted admitted
    constructor
    · intro below _
      obtain ⟨-, appends | ⟨rfl, -⟩⟩ := inserts
      · exact below recv appends
      · exact below_nil
    · intro below taken appends
      rw [inserts.unique appends]
      exact below admitted
  · exact iff_of_true (receives.other admitted)
      fun normal => absurd normal admitted

theorem counted_step (counted : adapter.dataBuffer.Counted)
    (step : Step adapter event next) :
    next.iQueueCapacity = adapter.iQueueCapacity ∧
      next.dataBuffer.Counted := by
  cases event with
  | insertRecvQueue recv force =>
      have inserted : adapter.insertRecvQueue recv force = some next := step
      have receives := receives_insertRecvQueue counted inserted
      exact ⟨receives.capacity, receives.counted⟩
  | insertRecvQueues recv =>
      have inserted : adapter.insertRecvQueues recv = some next := step
      have receives := receives_insertRecvQueues counted inserted
      exact ⟨receives.capacity, receives.counted⟩
  | pop handleIndex =>
      obtain ⟨⟨data, dataBuffer⟩, popped, same⟩ :=
        Option.bind_eq_some_iff.mp step
      obtain rfl := Option.some.inj same
      exact ⟨rfl, (DataBuffer.pop_spec counted popped).1⟩

theorem respects_iff_below (counted : adapter.dataBuffer.Counted)
    (unforced : event.forced = false) (step : Step adapter event next) :
    Respects adapter event next ↔
      (adapter.isOverloadorDiscard = 0 → adapter.Below event.requests) := by
  rw [Respects, imp_iff_right unforced]
  cases event with
  | insertRecvQueue recv force =>
      have inserted : adapter.insertRecvQueue recv force = some next := step
      cases unforced
      rw [(receives_insertRecvQueue counted inserted).below_iff,
        or_iff_left Bool.false_ne_true]
      rfl
  | insertRecvQueues recv =>
      have inserted : adapter.insertRecvQueues recv = some next := step
      exact (receives_insertRecvQueues counted inserted).below_iff
  | pop handleIndex =>
      obtain ⟨⟨data, dataBuffer⟩, popped, same⟩ :=
        Option.bind_eq_some_iff.mp step
      obtain rfl := Option.some.inj same
      have fewer := (DataBuffer.pop_spec counted popped).2
      refine iff_of_true ?_ fun _ => below_nil
      intro taken appends
      have length := appends.length
      dsimp only at length
      have none : taken = [] := List.length_eq_zero_iff.mp (by omega)
      rw [none]
      exact below_nil

theorem respects_iff (positive : 0 < adapter.iQueueCapacity)
    (fits : adapter.iQueueCapacity < 2 ^ 31)
    (counted : adapter.dataBuffer.Counted)
    (step : Step adapter event next) :
    Respects adapter event next ↔ ¬ Slips adapter event := by
  cases forced : event.forced with
  | true => simp [Respects, Slips, forced]
  | false =>
      rw [respects_iff_below counted forced step,
        isOverloadorDiscard_eq counted, normal_iff positive fits,
        BindAdapter.below_iff]
      constructor
      · rintro below ⟨-, above, normal⟩
        exact below normal above
      · intro never normal above
        exact never ⟨forced, above, normal⟩

/-- Below `2 ^ 31`, a larger backlog is treated better exactly if the smaller
one is above four fifths of the capacity and the larger one is the capacity;
and in all runs a normal request is admitted above four fifths exactly if it
slips through. -/
theorem protected_runs_iff {iQueueCapacity : Int}
    (positive : 0 < iQueueCapacity) (fits : iQueueCapacity < 2 ^ 31) :
    (∀ backlog larger, backlog ≤ larger →
      (Protected iQueueCapacity backlog larger ↔
        ¬ FallsBack iQueueCapacity (toInt backlog) (toInt larger)) ∧
      (larger < 2 ^ 31 → (Protected iQueueCapacity backlog larger ↔
        ¬ (4 * iQueueCapacity < 5 * backlog ∧ backlog < iQueueCapacity ∧
          larger = iQueueCapacity)))) ∧
    ∀ handleNum queueMode events last,
      Run Step ⟨iQueueCapacity, .create handleNum queueMode⟩ events last →
      ∀ event next, Step last event next →
        (Respects last event next ↔ ¬ Slips last event) := by
  constructor
  · intro backlog larger more
    refine ⟨protected_iff positive fits, fun small => ?_⟩
    rw [protected_iff positive fits, fallsBack_iff more small]
  · intro handleNum queueMode events last run event next step
    have reached : last.iQueueCapacity = iQueueCapacity ∧
        last.dataBuffer.Counted := by
      refine @Run.preserves _ _ _ (fun adapter =>
        adapter.iQueueCapacity = iQueueCapacity ∧
          adapter.dataBuffer.Counted) ?_ _ _ _ run ?_
      · rintro adapter event next ⟨same, counted⟩ step
        obtain ⟨same', counted'⟩ := counted_step counted step
        exact ⟨same'.trans same, counted'⟩
      · exact ⟨rfl, DataBuffer.counted_create _ _⟩
    obtain ⟨rfl, counted⟩ := reached
    exact respects_iff positive fits counted step

section Deployments

def request (uid : Uid) (isOverload : Bool) : Received :=
  ⟨⟨uid, 0, false⟩, isOverload⟩

def holding (iQueueCapacity : Int) (recv : List Received) : BindAdapter :=
  ⟨iQueueCapacity,
    { iRecvBufferSize := recv.length, threadDataQueue := [recv] }⟩

variable {iQueueCapacity : Int} {recv : List Received}

theorem holding_normal {backlog : Nat} (length : recv.length = backlog)
    (positive : 0 < iQueueCapacity) (fits : iQueueCapacity < 2 ^ 31)
    (normal : (backlog : Int) = iQueueCapacity ∨
      5 * (backlog : Int) ≤ 4 * iQueueCapacity) :
    (holding iQueueCapacity recv).isOverloadorDiscard = 0 := by
  have small : toInt backlog = backlog := toInt_of_lt (by omega)
  refine (normal_iff positive fits).mpr ?_
  rw [holding, length]
  change toInt backlog = _ ∨ 5 * toInt backlog ≤ _
  rw [small]
  exact normal

theorem holding_overload {backlog : Nat} (length : recv.length = backlog)
    (positive : 0 < iQueueCapacity) (fits : iQueueCapacity < 2 ^ 31)
    (above : 4 * iQueueCapacity < 5 * (backlog : Int))
    (below : (backlog : Int) < iQueueCapacity) :
    (holding iQueueCapacity recv).isOverloadorDiscard = -1 := by
  have small : toInt backlog = backlog := toInt_of_lt (by omega)
  unfold isOverloadorDiscard Epoll.isOverloadorDiscard
  rw [holding, length, overloadBound_eq positive fits]
  dsimp only
  rw [small]
  exact if_pos ⟨by omega, below, positive⟩

end Deployments

/-- Up to eight of ten a request is a normal one, and the tenth is marked. -/
theorem protected_runs_iff_nine :
    (Protected 10 9 11 ↔ ¬ FallsBack 10 (toInt 9) (toInt 11)) ∧
      Run Step ⟨10, .create 1 false⟩
        [.insertRecvQueues (List.replicate 8 (request 1 false)),
          .insertRecvQueue (request 1 false) false, .pop 0,
          .insertRecvQueue (request 1 false) false]
        (holding 10 (List.replicate 9 (request 1 false))) ∧
      (Respects (holding 10 (List.replicate 9 (request 1 false)))
          (.insertRecvQueue (request 1 false) false)
          (holding 10
            (List.replicate 9 (request 1 false) ++ [request 1 true])) ↔
        ¬ Slips (holding 10 (List.replicate 9 (request 1 false)))
          (.insertRecvQueue (request 1 false) false)) := by
  have empty : isOverloadorDiscard (holding 10 []) = 0 :=
    holding_normal rfl (by decide) (by decide) (by decide)
  have eight : isOverloadorDiscard
      (holding 10 (List.replicate 8 (request 1 false))) = 0 :=
    holding_normal List.length_replicate (by decide) (by decide) (by decide)
  have nine : isOverloadorDiscard
      (holding 10 (List.replicate 9 (request 1 false))) = -1 :=
    holding_overload List.length_replicate (by decide) (by decide) (by decide)
      (by decide)
  have ninth : Step (holding 10 (List.replicate 8 (request 1 false)))
      (.insertRecvQueue (request 1 false) false)
      (holding 10 (List.replicate 9 (request 1 false))) := by
    unfold Step run insertRecvQueue
    rw [eight]
    rfl
  have batch : Step (holding 10 [])
      (.insertRecvQueues (List.replicate 8 (request 1 false)))
      (holding 10 (List.replicate 8 (request 1 false))) := by
    unfold Step run insertRecvQueues
    rw [empty]
    rfl
  have runs : Run Step ⟨10, .create 1 false⟩
      [.insertRecvQueues (List.replicate 8 (request 1 false)),
        .insertRecvQueue (request 1 false) false, .pop 0,
        .insertRecvQueue (request 1 false) false]
      (holding 10 (List.replicate 9 (request 1 false))) :=
    .cons batch (.cons ninth (.cons rfl (.cons ninth (.nil _))))
  obtain ⟨classified, run⟩ :=
    @protected_runs_iff 10 (by decide) (by decide)
  refine ⟨(classified 9 11 (by decide)).1, runs, ?_⟩
  refine run _ _ _ _ runs _ _ ?_
  unfold Step BindAdapter.run insertRecvQueue
  rw [nine]
  rfl

/-- Nine of ten is overload and ten of ten is not; with a capacity of one, a
second normal request is admitted; of ten that come together, all are. -/
theorem full_queue_is_normal :
    ¬ Protected 10 9 10 ∧
      (Run Step ⟨1, .create 1 false⟩
          [.insertRecvQueue (request 1 false) false]
          (holding 1 [request 1 false]) ∧
        Step (holding 1 [request 1 false])
          (.insertRecvQueue (request 2 false) false)
          (holding 1 [request 1 false, request 2 false]) ∧
        ¬ Respects (holding 1 [request 1 false])
          (.insertRecvQueue (request 2 false) false)
          (holding 1 [request 1 false, request 2 false])) ∧
      (Step ⟨10, .create 1 false⟩
          (.insertRecvQueues (List.replicate 10 (request 1 false)))
          (holding 10 (List.replicate 10 (request 1 false))) ∧
        ¬ Respects ⟨10, .create 1 false⟩
          (.insertRecvQueues (List.replicate 10 (request 1 false)))
          (holding 10 (List.replicate 10 (request 1 false)))) := by
  have empty (iQueueCapacity : Int) (positive : 0 < iQueueCapacity)
      (fits : iQueueCapacity < 2 ^ 31) :
      (holding iQueueCapacity []).isOverloadorDiscard = 0 :=
    @holding_normal _ [] 0 rfl positive fits (.inr (by omega))
  have full : (holding 1 [request 1 false]).isOverloadorDiscard = 0 :=
    holding_normal rfl (by decide) (by decide) (by decide)
  refine ⟨?_, ⟨.cons ?_ (.nil _), ?_, ?_⟩, ?_, ?_⟩
  · rw [protected_iff (by decide) (by decide)]
    exact not_not_intro (by unfold FallsBack; decide)
  · change Step (holding 1 []) _ _
    unfold Step run insertRecvQueue
    rw [empty 1 (by decide) (by decide)]
    rfl
  · unfold Step run insertRecvQueue
    rw [full]
    rfl
  · intro respects
    exact absurd
      (respects rfl [request 2 false] ⟨0, _, rfl, rfl⟩ [] _ [] rfl rfl)
      (by decide)
  · change Step (holding 10 []) _ _
    unfold Step run insertRecvQueues
    rw [empty 10 (by decide) (by decide)]
    rfl
  · intro respects
    exact absurd (respects rfl (List.replicate 10 (request 1 false))
      ⟨0, _, rfl, rfl⟩ (List.replicate 9 (request 1 false)) _ [] rfl rfl)
      (by decide)

end BindAdapter

end TarsCpp.Epoll
