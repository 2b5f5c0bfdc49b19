import TarsCpp.Coroutine.Pool
import TarsCpp.Coroutine.Linked

/-!
# Who waits for what

The ids that are recorded for a wake-up are those of the coroutines that wait
for it, as long as every `put` belongs to one `yield(false)`: one by which the
coroutine has suspended itself, or the one by which the running coroutine will
suspend itself next.
-/

namespace TarsCpp.Coroutine

open NetworkBuffer TC_CoroutineScheduler

/-- What has happened to each id. -/
structure Ledger where
  /-- Calls of `yield(false)`. -/
  yielded : UInt32 → Nat := fun _ => 0
  puts : UInt32 → Nat := fun _ => 0
  /-- Returns from `yield(false)`. -/
  resumed : UInt32 → Nat := fun _ => 0
  /-- Whether the coroutine is in a call of `yield(false)`. -/
  parked : UInt32 → Bool := fun _ => false

namespace Ledger

def count (counts : UInt32 → Nat) (iId : UInt32) : UInt32 → Nat :=
  Function.update counts iId (counts iId + 1)

def park (ledger : Ledger) (iId : UInt32) : Ledger :=
  { ledger with
    yielded := count ledger.yielded iId
    parked := Function.update ledger.parked iId true }

def resume (ledger : Ledger) (iId : UInt32) : Ledger :=
  if ledger.parked iId then
    { ledger with
      resumed := count ledger.resumed iId
      parked := Function.update ledger.parked iId false }
  else ledger

/-- The ledger behind an event in the state `s`. -/
def record (ledger : Ledger) (s : TC_CoroutineScheduler) : Event → Ledger
  | .yield false =>
      if s.currentCoro = 0 then ledger else ledger.park s.currentCoro
  | .put iCoroId => { ledger with puts := count ledger.puts iCoroId }
  | .runActive => (s.lists .active).head?.elim ledger ledger.resume
  | .runAvail => (s.lists .avail).head?.elim ledger ledger.resume
  | .yield true | .start | .go | .sleep _ _ | .finish | .wakeup
  | .wakeupbytimeout _ | .wakeupbyself => ledger

end Ledger

/-- The scheduler and what has happened. -/
structure System where
  scheduler : TC_CoroutineScheduler
  ledger : Ledger := {}

/-- Every `put` is the only one for its `yield(false)`. -/
def Disciplined (x : System) : Event → Prop
  | .put iCoroId =>
      x.ledger.puts iCoroId < x.ledger.yielded iCoroId +
        if iCoroId = x.scheduler.currentCoro ∧ iCoroId ≠ 0 then 1 else 0
  | .yield true | .sleep _ _ | .finish =>
      x.ledger.puts x.scheduler.currentCoro ≤
        x.ledger.yielded x.scheduler.currentCoro
  | _ => True

/-- A `put` after which the coroutine has not run yet. -/
def Pending (x : System) (iId : UInt32) : Prop :=
  iId ∈ x.scheduler.activeCoroQueue ∨
    x.ledger.parked iId = true ∧ x.scheduler.coro iId = some .CORO_ACTIVE

instance (x : System) (iId : UInt32) : Decidable (Pending x iId) :=
  inferInstanceAs (Decidable (_ ∨ _))

/-- The records of the scheduler name the coroutines that wait. -/
structure Accounted (x : System) : Prop where
  linked : x.scheduler.Linked
  running : x.scheduler.currentCoro = 0 ∨
    x.scheduler.coro x.scheduler.currentCoro = some .CORO_ACTIVE ∨
    x.scheduler.coro x.scheduler.currentCoro = some .CORO_AVAIL
  awake : x.ledger.parked x.scheduler.currentCoro = false
  selves : x.scheduler.needActiveCoroId.Nodup ∧
    ∀ iId, iId ∈ x.scheduler.needActiveCoroId ↔
      x.scheduler.coro iId = some .CORO_INACTIVE ∧ x.ledger.parked iId = false
  sleepers : (x.scheduler.timeoutCoroId.map Prod.snd).Nodup ∧
    ∀ iId, iId ∈ x.scheduler.timeoutCoroId.map Prod.snd ↔
      x.scheduler.coro iId = some .CORO_TIMEOUT
  parked : ∀ iId, x.ledger.parked iId = true →
    x.scheduler.coro iId = some .CORO_INACTIVE ∨
      x.scheduler.coro iId = some .CORO_ACTIVE
  queued : x.scheduler.activeCoroQueue.Nodup ∧
    ∀ iId ∈ x.scheduler.activeCoroQueue,
      x.scheduler.coro iId = some .CORO_INACTIVE ∧
          x.ledger.parked iId = true ∨
        iId = x.scheduler.currentCoro ∧ iId ≠ 0
  yields : ∀ iId, x.ledger.yielded iId =
    x.ledger.resumed iId + if x.ledger.parked iId then 1 else 0
  puts : ∀ iId, x.ledger.puts iId =
    x.ledger.resumed iId + if Pending x iId then 1 else 0

section Accounted

variable {x : System} {t u : TC_CoroutineScheduler} {iId : UInt32}
  (accounted : Accounted x)

include accounted

theorem Accounted.uncreated_zero : x.scheduler.coro 0 = none := by
  rw [← Option.not_isSome_iff_eq_none, accounted.linked.created]
  exact fun both => both.1 rfl

theorem Accounted.idle (unset : x.scheduler.all_coro = none) :
    x.scheduler.currentCoro = 0 := by
  rcases accounted.running with idle | active | avail
  · exact idle
  · rw [(accounted.linked.empty unset).1] at active
    cases active
  · rw [(accounted.linked.empty unset).1] at avail
    cases avail

/-- While the loop runs, a queued coroutine waits. -/
theorem Accounted.queued_idle (idle : x.scheduler.currentCoro = 0)
    (member : iId ∈ x.scheduler.activeCoroQueue) :
    x.scheduler.coro iId = some .CORO_INACTIVE ∧
      x.ledger.parked iId = true := by
  rcases accounted.queued.2 iId member with waits | ⟨rfl, some_⟩
  · exact waits
  · exact absurd idle some_

/-- Nothing happens to the coroutines that wait. -/
theorem Accounted.calm (linked : t.Linked)
    (statuses : ∀ iId status, status ≠ .CORO_FREE → status ≠ .CORO_AVAIL →
      (t.coro iId = some status ↔ x.scheduler.coro iId = some status))
    (avail : ∀ iId, x.scheduler.coro iId = some .CORO_AVAIL →
      t.coro iId = some .CORO_AVAIL)
    (currentCoro : t.currentCoro = x.scheduler.currentCoro)
    (needActiveCoroId : t.needActiveCoroId = x.scheduler.needActiveCoroId)
    (timeoutCoroId : t.timeoutCoroId = x.scheduler.timeoutCoroId)
    (activeCoroQueue : t.activeCoroQueue = x.scheduler.activeCoroQueue) :
    Accounted ⟨t, x.ledger⟩ := by
  have active := fun iId =>
    statuses iId .CORO_ACTIVE (by decide) (by decide)
  have inactive := fun iId =>
    statuses iId .CORO_INACTIVE (by decide) (by decide)
  have timeout := fun iId =>
    statuses iId .CORO_TIMEOUT (by decide) (by decide)
  have pending : ∀ iId, Pending ⟨t, x.ledger⟩ iId ↔ Pending x iId := by
    intro iId
    simp only [Pending, activeCoroQueue, active]
  constructor
  · exact linked
  · simp only [currentCoro, active]
    rcases accounted.running with idle | now | now
    · exact .inl idle
    · exact .inr (.inl now)
    · exact .inr (.inr (avail _ now))
  · simp only [currentCoro]
    exact accounted.awake
  · simp only [needActiveCoroId, inactive]
    exact accounted.selves
  · simp only [timeoutCoroId, timeout]
    exact accounted.sleepers
  · simp only [inactive, active]
    exact accounted.parked
  · simp only [activeCoroQueue, inactive, currentCoro]
    exact accounted.queued
  · exact accounted.yields
  · intro iId
    have before := accounted.puts iId
    rw [if_congr (pending iId) rfl rfl]
    exact before

theorem Accounted.grown (linked : t.Linked) (grown : Grown x.scheduler t) :
    Accounted ⟨t, x.ledger⟩ :=
  accounted.calm linked
    (fun iId status some_ _ => grown.statuses iId status some_)
    (fun iId => (grown.statuses iId _ (by decide)).mpr) grown.currentCoro
    grown.needActiveCoroId grown.timeoutCoroId grown.activeCoroQueue

theorem Accounted.started (grown : Grown x.scheduler u)
    (was : u.coro iId = some .CORO_FREE) (linked : (u.started iId).Linked) :
    Accounted ⟨u.started iId, x.ledger⟩ := by
  have coro : ∀ other, (u.started iId).coro other =
      if other = iId then some .CORO_AVAIL else u.coro other :=
    @coro_relink { u with usedSize := u.usedSize + 1 } iId .CORO_AVAIL
      .CORO_FREE was
  refine accounted.calm linked ?_ ?_ grown.currentCoro grown.needActiveCoroId
    grown.timeoutCoroId grown.activeCoroQueue
  · intro other status some_ elsewhere
    rw [coro, ← grown.statuses other status some_]
    by_cases same : other = iId
    · subst same
      rw [if_pos rfl, was]
      refine iff_of_false ?_ ?_
      · exact fun equal => elsewhere (Option.some.inj equal).symm
      · exact fun equal => some_ (Option.some.inj equal).symm
    · rw [if_neg same]
  · intro other now
    rw [coro]
    split
    · rfl
    · exact (grown.statuses other _ (by decide)).mpr now

theorem Accounted.status (some_ : x.scheduler.currentCoro ≠ 0) :
    ∃ old ∈ [CORO_STATUS.CORO_ACTIVE, .CORO_AVAIL],
      x.scheduler.coro x.scheduler.currentCoro = some old := by
  rcases accounted.running with idle | active | avail
  · exact absurd idle some_
  · exact ⟨_, by simp, active⟩
  · exact ⟨_, by simp, avail⟩

/-- The running coroutine is in no record but the queue. -/
theorem Accounted.unrecorded (some_ : x.scheduler.currentCoro ≠ 0) :
    x.scheduler.currentCoro ∉ x.scheduler.needActiveCoroId ∧
      x.scheduler.currentCoro ∉ x.scheduler.timeoutCoroId.map Prod.snd := by
  obtain ⟨old, among, now⟩ := accounted.status some_
  rw [accounted.selves.2, accounted.sleepers.2, now]
  rcases List.mem_pair.mp among with rfl | rfl <;> simp

/-- Without a `put` of its own the running coroutine is not in the queue. -/
theorem Accounted.unqueued (disciplined :
    x.ledger.puts x.scheduler.currentCoro ≤
      x.ledger.yielded x.scheduler.currentCoro) :
    x.scheduler.currentCoro ∉ x.scheduler.activeCoroQueue := by
  intro member
  have yields := accounted.yields x.scheduler.currentCoro
  have puts := accounted.puts x.scheduler.currentCoro
  rw [accounted.awake, if_neg (by decide)] at yields
  rw [if_pos (.inl member)] at puts
  omega

/-- It has no `put` of its own, and goes to any list but the active ones. -/
theorem Accounted.leaves {y : System} {status : CORO_STATUS}
    (unqueued : x.scheduler.currentCoro ∉ x.scheduler.activeCoroQueue)
    (linked : y.scheduler.Linked)
    (coro : ∀ iId, y.scheduler.coro iId =
      if iId = x.scheduler.currentCoro then some status
      else x.scheduler.coro iId)
    (idle : y.scheduler.currentCoro = 0)
    (queue : y.scheduler.activeCoroQueue = x.scheduler.activeCoroQueue)
    (ledger : y.ledger = x.ledger)
    (selves : y.scheduler.needActiveCoroId.Nodup ∧
      ∀ iId, iId ∈ y.scheduler.needActiveCoroId ↔
        iId ∈ x.scheduler.needActiveCoroId ∨
          iId = x.scheduler.currentCoro ∧ status = .CORO_INACTIVE)
    (sleepers : (y.scheduler.timeoutCoroId.map Prod.snd).Nodup ∧
      ∀ iId, iId ∈ y.scheduler.timeoutCoroId.map Prod.snd ↔
        iId ∈ x.scheduler.timeoutCoroId.map Prod.snd ∨
          iId = x.scheduler.currentCoro ∧ status = .CORO_TIMEOUT)
    (some_ : x.scheduler.currentCoro ≠ 0) : Accounted y := by
  have unrecorded := accounted.unrecorded some_
  have awake := accounted.awake
  constructor
  · exact linked
  · exact .inl idle
  · rw [idle, ledger]
    by_contra parked
    have waits := accounted.parked 0 (by simpa using parked)
    rw [accounted.uncreated_zero] at waits
    simp at waits
  · refine ⟨selves.1, fun iId => ?_⟩
    rw [selves.2, coro, ledger]
    by_cases here : iId = x.scheduler.currentCoro
    · subst here
      rw [if_pos rfl]
      simp [unrecorded.1, awake]
    · rw [if_neg here, accounted.selves.2]
      simp [here]
  · refine ⟨sleepers.1, fun iId => ?_⟩
    rw [sleepers.2, coro]
    by_cases here : iId = x.scheduler.currentCoro
    · subst here
      rw [if_pos rfl]
      simp only [unrecorded.2, false_or, true_and, Option.some.injEq]
    · rw [if_neg here, accounted.sleepers.2]
      simp [here]
  · intro iId parked
    rw [ledger] at parked
    have apart : iId ≠ x.scheduler.currentCoro := by
      rintro rfl
      rw [awake] at parked
      cases parked
    rw [coro, if_neg apart]
    exact accounted.parked iId parked
  · rw [queue]
    refine ⟨accounted.queued.1, fun iId member => .inl ?_⟩
    have apart : iId ≠ x.scheduler.currentCoro := by
      rintro rfl
      exact unqueued member
    rw [coro, if_neg apart, ledger]
    exact (accounted.queued.2 iId member).resolve_right fun both =>
      apart both.1
  · rw [ledger]
    exact accounted.yields
  · intro iId
    have pending : Pending y iId ↔ Pending x iId := by
      unfold Pending
      rw [queue, ledger, coro]
      by_cases here : iId = x.scheduler.currentCoro
      · subst here
        simp [awake]
      · rw [if_neg here]
    rw [if_congr pending rfl rfl, ledger]
    exact accounted.puts iId

/-- By `yield(false)` it waits for its `put`, which may be there already. -/
theorem Accounted.parks {y : System} (linked : y.scheduler.Linked)
    (coro : ∀ iId, y.scheduler.coro iId =
      if iId = x.scheduler.currentCoro then some .CORO_INACTIVE
      else x.scheduler.coro iId)
    (idle : y.scheduler.currentCoro = 0)
    (queue : y.scheduler.activeCoroQueue = x.scheduler.activeCoroQueue)
    (ledger : y.ledger = x.ledger.park x.scheduler.currentCoro)
    (selves : y.scheduler.needActiveCoroId = x.scheduler.needActiveCoroId)
    (sleepers : y.scheduler.timeoutCoroId = x.scheduler.timeoutCoroId)
    (some_ : x.scheduler.currentCoro ≠ 0) : Accounted y := by
  have unrecorded := accounted.unrecorded some_
  have awake := accounted.awake
  have parks : ∀ iId, y.ledger.parked iId =
      if iId = x.scheduler.currentCoro then true
      else x.ledger.parked iId := by
    intro iId
    rw [ledger, Ledger.park]
    exact Function.update_apply _ _ _ _
  have yielded : ∀ iId, y.ledger.yielded iId = x.ledger.yielded iId +
      if iId = x.scheduler.currentCoro then 1 else 0 := by
    intro iId
    rw [ledger, Ledger.park, Ledger.count]
    by_cases here : iId = x.scheduler.currentCoro
    · subst here
      simp
    · simp [here]
  have resumed : y.ledger.resumed = x.ledger.resumed := by
    rw [ledger]
    rfl
  have puts : y.ledger.puts = x.ledger.puts := by
    rw [ledger]
    rfl
  constructor
  · exact linked
  · exact .inl idle
  · rw [idle, parks, if_neg some_.symm]
    by_contra parked
    have waits := accounted.parked 0 (by simpa using parked)
    rw [accounted.uncreated_zero] at waits
    simp at waits
  · rw [selves]
    refine ⟨accounted.selves.1, fun iId => ?_⟩
    rw [coro, parks]
    by_cases here : iId = x.scheduler.currentCoro
    · subst here
      simp [unrecorded.1]
    · rw [if_neg here, if_neg here]
      exact accounted.selves.2 iId
  · rw [sleepers]
    refine ⟨accounted.sleepers.1, fun iId => ?_⟩
    rw [coro]
    by_cases here : iId = x.scheduler.currentCoro
    · subst here
      rw [if_pos rfl]
      exact iff_of_false unrecorded.2 (by simp)
    · rw [if_neg here]
      exact accounted.sleepers.2 iId
  · intro iId parked
    rw [parks] at parked
    rw [coro]
    by_cases here : iId = x.scheduler.currentCoro
    · rw [if_pos here]
      exact .inl rfl
    · rw [if_neg here] at parked ⊢
      exact accounted.parked iId parked
  · rw [queue]
    refine ⟨accounted.queued.1, fun iId member => .inl ?_⟩
    rw [coro, parks]
    by_cases here : iId = x.scheduler.currentCoro
    · simp [here]
    · rw [if_neg here, if_neg here]
      exact (accounted.queued.2 iId member).resolve_right fun both =>
        here both.1
  · intro iId
    have before := accounted.yields iId
    rw [yielded, resumed, parks]
    by_cases here : iId = x.scheduler.currentCoro
    · subst here
      rw [awake] at before
      simpa using before
    · simpa [here] using before
  · intro iId
    have pending : Pending y iId ↔ Pending x iId := by
      unfold Pending
      rw [queue, parks, coro]
      by_cases here : iId = x.scheduler.currentCoro
      · subst here
        simp [awake]
      · rw [if_neg here, if_neg here]
    rw [if_congr pending rfl rfl, puts, resumed]
    exact accounted.puts iId

/-- The coroutine of an admissible `put` is not queued yet, and waits or
runs. -/
theorem Accounted.mayPut (disciplined : Disciplined x (.put iId)) :
    ¬ Pending x iId ∧ (x.scheduler.coro iId = some .CORO_INACTIVE ∧
      x.ledger.parked iId = true ∨ iId = x.scheduler.currentCoro ∧ iId ≠ 0) := by
  have yields := accounted.yields iId
  have puts := accounted.puts iId
  unfold Disciplined at disciplined
  simp only at disciplined
  by_cases runs : iId = x.scheduler.currentCoro ∧ iId ≠ 0
  · rw [if_pos runs] at disciplined
    rw [runs.1, accounted.awake, if_neg (by decide), ← runs.1] at yields
    refine ⟨?_, .inr runs⟩
    intro pending
    rw [if_pos pending] at puts
    omega
  · rw [if_neg runs] at disciplined
    cases parked : x.ledger.parked iId with
    | false =>
        rw [parked, if_neg (by decide)] at yields
        omega
    | true =>
        rw [parked, if_pos rfl] at yields
        have unpending : ¬ Pending x iId := by
          intro pending
          rw [if_pos pending] at puts
          omega
        refine ⟨unpending, .inl ⟨?_, rfl⟩⟩
        refine (accounted.parked iId parked).resolve_right fun active => ?_
        exact unpending (.inr ⟨parked, active⟩)

theorem Accounted.put (disciplined : Disciplined x (.put iId)) :
    Accounted ⟨x.scheduler.put iId,
      x.ledger.record x.scheduler (.put iId)⟩ := by
  obtain ⟨unpending, waits⟩ := accounted.mayPut disciplined
  have unqueued : iId ∉ x.scheduler.activeCoroQueue := fun member =>
    unpending (.inl member)
  refine ⟨accounted.linked.congr rfl rfl rfl rfl rfl rfl, accounted.running,
    accounted.awake, accounted.selves, accounted.sleepers, accounted.parked,
    ⟨?_, ?_⟩, accounted.yields, ?_⟩
  · refine List.Nodup.append accounted.queued.1 (List.nodup_singleton _) ?_
    intro other member last
    rw [List.mem_singleton.mp last] at member
    exact unqueued member
  · intro other member
    rcases List.mem_append.mp member with old | new
    · exact accounted.queued.2 other old
    · rw [List.mem_singleton.mp new]
      exact waits
  · intro other
    have before := accounted.puts other
    let y : System :=
      ⟨x.scheduler.put iId, x.ledger.record x.scheduler (.put iId)⟩
    have puts : y.ledger.puts other =
        x.ledger.puts other + if other = iId then 1 else 0 := by
      by_cases here : other = iId
      · subst here
        simp [y, Ledger.record, Ledger.count]
      · simp [y, Ledger.record, Ledger.count, here]
    change y.ledger.puts other =
      x.ledger.resumed other + if Pending y other then 1 else 0
    by_cases here : other = iId
    · subst here
      have pending : Pending y other :=
        .inl (List.mem_append_right _ List.mem_cons_self)
      rw [if_neg unpending] at before
      rw [puts, before, if_pos pending, if_pos rfl]
    · have pending : Pending y other ↔ Pending x other := by
        simp [Pending, y, TC_CoroutineScheduler.put, Ledger.record, here,
          TC_CoroutineScheduler.coro]
      rw [puts, if_neg here, if_congr pending rfl rfl]
      exact before

/-- The entries that are due, and those that are not. -/
theorem Accounted.due (iNow : Int) :
    let due := (x.scheduler.timeoutCoroId.takeWhile (·.1 ≤ iNow)).map Prod.snd
    let rest := (x.scheduler.timeoutCoroId.dropWhile (·.1 ≤ iNow)).map Prod.snd
    due.Nodup ∧ rest.Nodup ∧ (∀ iId ∈ due, iId ∉ rest) ∧
      ∀ iId, iId ∈ due ∨ iId ∈ rest ↔
        x.scheduler.coro iId = some .CORO_TIMEOUT := by
  intro due rest
  have split : due ++ rest = x.scheduler.timeoutCoroId.map Prod.snd := by
    rw [← List.map_append, List.takeWhile_append_dropWhile]
  have nodup := accounted.sleepers.1
  rw [← split] at nodup
  obtain ⟨first, second, apart⟩ := List.nodup_append'.mp nodup
  refine ⟨first, second, fun iId member other => apart member other, ?_⟩
  intro iId
  rw [← List.mem_append, split]
  exact accounted.sleepers.2 iId

section Idle

variable (idle : x.scheduler.currentCoro = 0)

include idle

theorem Accounted.queue_movable : Movable
    { x.scheduler with activeCoroQueue := [] }
    [.CORO_INACTIVE, .CORO_TIMEOUT] x.scheduler.activeCoroQueue where
  nodup := accounted.queued.1
  waits := fun _ member =>
    ⟨_, List.mem_cons_self, (accounted.queued_idle idle member).1⟩

theorem Accounted.wakeup
    (moved : Moved { x.scheduler with activeCoroQueue := [] } .CORO_ACTIVE
      x.scheduler.activeCoroQueue t) : Accounted ⟨t, x.ledger⟩ := by
  have coro : ∀ iId, t.coro iId =
      if iId ∈ x.scheduler.activeCoroQueue then some .CORO_ACTIVE
      else x.scheduler.coro iId := moved.coro
  have none_ : t.activeCoroQueue = [] := moved.activeCoroQueue
  have still : t.currentCoro = 0 := moved.currentCoro.trans idle
  constructor
  · exact moved.linked
  · exact .inl still
  · rw [still, ← idle]
    exact accounted.awake
  · refine ⟨moved.needActiveCoroId ▸ accounted.selves.1, fun iId => ?_⟩
    rw [moved.needActiveCoroId, accounted.selves.2, coro]
    by_cases member : iId ∈ x.scheduler.activeCoroQueue
    · simp [accounted.queued_idle idle member, member]
    · rw [if_neg member]
  · refine ⟨moved.timeoutCoroId ▸ accounted.sleepers.1, fun iId => ?_⟩
    rw [moved.timeoutCoroId, accounted.sleepers.2, coro]
    by_cases member : iId ∈ x.scheduler.activeCoroQueue
    · simp [accounted.queued_idle idle member, member]
    · rw [if_neg member]
  · intro iId parked
    rw [coro]
    split
    · exact .inr rfl
    · exact accounted.parked iId parked
  · rw [none_]
    exact ⟨List.nodup_nil, fun iId member => absurd member List.not_mem_nil⟩
  · exact accounted.yields
  · intro iId
    have pending : Pending ⟨t, x.ledger⟩ iId ↔ Pending x iId := by
      simp only [Pending, none_, List.not_mem_nil, false_or, coro]
      by_cases member : iId ∈ x.scheduler.activeCoroQueue
      · simp [accounted.queued_idle idle member, member]
      · simp [member]
    rw [if_congr pending rfl rfl]
    exact accounted.puts iId

theorem Accounted.wakeupbytimeout {iNow : Int}
    (moved : Moved x.scheduler .CORO_ACTIVE
      ((x.scheduler.timeoutCoroId.takeWhile (·.1 ≤ iNow)).map Prod.snd) u)
    (linked : t.Linked) (same : t = { u with
      timeoutCoroId := x.scheduler.timeoutCoroId.dropWhile (·.1 ≤ iNow) }) :
    Accounted ⟨t, x.ledger⟩ := by
  obtain ⟨-, restNodup, apart, all⟩ := accounted.due iNow
  revert moved apart all
  generalize (x.scheduler.timeoutCoroId.takeWhile (·.1 ≤ iNow)).map Prod.snd =
    due
  intro moved apart all
  have coro : ∀ iId, t.coro iId =
      if iId ∈ due then some .CORO_ACTIVE else x.scheduler.coro iId := by
    rw [same]
    exact moved.coro
  have still : t.currentCoro = 0 := by
    rw [same]
    exact moved.currentCoro.trans idle
  have queue : t.activeCoroQueue = x.scheduler.activeCoroQueue := by
    rw [same]
    exact moved.activeCoroQueue
  have selves : t.needActiveCoroId = x.scheduler.needActiveCoroId := by
    rw [same]
    exact moved.needActiveCoroId
  have rest : t.timeoutCoroId =
      x.scheduler.timeoutCoroId.dropWhile (·.1 ≤ iNow) := by
    rw [same]
  have sleeps : ∀ iId ∈ due, x.scheduler.coro iId = some .CORO_TIMEOUT ∧
      x.ledger.parked iId = false := by
    intro iId member
    have now := (all iId).mp (.inl member)
    refine ⟨now, ?_⟩
    by_contra parked
    have waits := accounted.parked iId (by simpa using parked)
    rw [now] at waits
    simp at waits
  constructor
  · exact linked
  · exact .inl still
  · rw [still, ← idle]
    exact accounted.awake
  · rw [selves]
    refine ⟨accounted.selves.1, fun iId => ?_⟩
    rw [accounted.selves.2, coro]
    by_cases member : iId ∈ due
    · simp [sleeps iId member, member]
    · rw [if_neg member]
  · rw [rest]
    refine ⟨restNodup, fun iId => ?_⟩
    rw [coro]
    by_cases member : iId ∈ due
    · rw [if_pos member]
      exact iff_of_false (apart iId member) (by simp)
    · rw [if_neg member, ← all]
      exact (or_iff_right member).symm
  · intro iId parked
    rw [coro]
    split
    · exact .inr rfl
    · exact accounted.parked iId parked
  · rw [queue]
    refine ⟨accounted.queued.1, fun iId member => .inl ?_⟩
    have waits := accounted.queued_idle idle member
    have unslept : iId ∉ due := by
      intro member
      rw [(sleeps iId member).1] at waits
      simp at waits
    rw [coro, if_neg unslept]
    exact waits
  · exact accounted.yields
  · intro iId
    have pending : Pending ⟨t, x.ledger⟩ iId ↔ Pending x iId := by
      simp only [Pending, queue, coro]
      by_cases member : iId ∈ due
      · simp [sleeps iId member, member]
      · rw [if_neg member]
    rw [if_congr pending rfl rfl]
    exact accounted.puts iId

theorem Accounted.wakeupbyself
    (moved : Moved x.scheduler .CORO_AVAIL x.scheduler.needActiveCoroId u)
    (linked : t.Linked) (same : t = { u with needActiveCoroId := [] }) :
    Accounted ⟨t, x.ledger⟩ := by
  have coro : ∀ iId, t.coro iId =
      if iId ∈ x.scheduler.needActiveCoroId then some .CORO_AVAIL
      else x.scheduler.coro iId := by
    rw [same]
    exact moved.coro
  have still : t.currentCoro = 0 := by
    rw [same]
    exact moved.currentCoro.trans idle
  have queue : t.activeCoroQueue = x.scheduler.activeCoroQueue := by
    rw [same]
    exact moved.activeCoroQueue
  have sleepers : t.timeoutCoroId = x.scheduler.timeoutCoroId := by
    rw [same]
    exact moved.timeoutCoroId
  have none_ : t.needActiveCoroId = [] := by
    rw [same]
  have waits := accounted.selves.2
  constructor
  · exact linked
  · exact .inl still
  · rw [still, ← idle]
    exact accounted.awake
  · rw [none_]
    refine ⟨List.nodup_nil, fun iId => ?_⟩
    rw [coro]
    by_cases member : iId ∈ x.scheduler.needActiveCoroId
    · simp [member]
    · rw [if_neg member, ← waits]
      simp [member]
  · rw [sleepers]
    refine ⟨accounted.sleepers.1, fun iId => ?_⟩
    rw [accounted.sleepers.2, coro]
    by_cases member : iId ∈ x.scheduler.needActiveCoroId
    · simp [(waits iId).mp member, member]
    · rw [if_neg member]
  · intro iId parked
    have outside : iId ∉ x.scheduler.needActiveCoroId := by
      intro member
      rw [((waits iId).mp member).2] at parked
      cases parked
    rw [coro, if_neg outside]
    exact accounted.parked iId parked
  · rw [queue]
    refine ⟨accounted.queued.1, fun iId member => .inl ?_⟩
    have parked := accounted.queued_idle idle member
    have outside : iId ∉ x.scheduler.needActiveCoroId := by
      intro member
      rw [((waits iId).mp member).2] at parked
      cases parked.2
    rw [coro, if_neg outside]
    exact parked
  · exact accounted.yields
  · intro iId
    have pending : Pending ⟨t, x.ledger⟩ iId ↔ Pending x iId := by
      simp only [Pending, queue, coro]
      by_cases member : iId ∈ x.scheduler.needActiveCoroId
      · simp [(waits iId).mp member, member]
      · rw [if_neg member]
    rw [if_congr pending rfl rfl]
    exact accounted.puts iId

/-- The loop runs a coroutine that can run. -/
theorem Accounted.runs (now : x.scheduler.coro iId = some .CORO_ACTIVE ∨
    x.scheduler.coro iId = some .CORO_AVAIL) :
    Accounted ⟨x.scheduler.switchCoro iId, x.ledger.resume iId⟩ := by
  have unqueued : iId ∉ x.scheduler.activeCoroQueue := by
    intro member
    have waits := (accounted.queued_idle idle member).1
    rw [waits] at now
    simp at now
  have parks : ∀ other, (x.ledger.resume iId).parked other =
      if other = iId then false else x.ledger.parked other := by
    intro other
    rw [Ledger.resume]
    cases parked : x.ledger.parked iId with
    | false =>
        rw [if_neg (by decide)]
        by_cases here : other = iId
        · rw [if_pos here, here, parked]
        · rw [if_neg here]
    | true =>
        rw [if_pos rfl]
        exact Function.update_apply _ _ _ _
  have resumed : ∀ other, (x.ledger.resume iId).resumed other =
      x.ledger.resumed other +
        if other = iId ∧ x.ledger.parked iId = true then 1 else 0 := by
    intro other
    rw [Ledger.resume, Ledger.count]
    cases parked : x.ledger.parked iId with
    | false => simp
    | true =>
        rw [if_pos rfl]
        by_cases here : other = iId
        · subst here
          simp
        · simp [here]
  have yielded : (x.ledger.resume iId).yielded = x.ledger.yielded := by
    rw [Ledger.resume]
    split <;> rfl
  have puts : (x.ledger.resume iId).puts = x.ledger.puts := by
    rw [Ledger.resume]
    split <;> rfl
  refine ⟨accounted.linked.congr rfl rfl rfl rfl rfl rfl, .inr now, ?_, ?_,
    accounted.sleepers, ?_, ⟨accounted.queued.1, ?_⟩, ?_, ?_⟩
  · exact (parks iId).trans (if_pos rfl)
  · refine ⟨accounted.selves.1, fun other => ?_⟩
    have before := accounted.selves.2 other
    refine before.trans ?_
    simp only [TC_CoroutineScheduler.coro, switchCoro, parks]
    by_cases here : other = iId
    · subst here
      refine iff_of_false ?_ ?_
      · rintro ⟨waits, -⟩
        simp only [TC_CoroutineScheduler.coro] at now
        rw [waits] at now
        simp at now
      · rintro ⟨waits, -⟩
        simp only [TC_CoroutineScheduler.coro] at now
        rw [waits] at now
        simp at now
    · rw [if_neg here]
  · intro other parked
    rw [parks] at parked
    by_cases here : other = iId
    · rw [if_pos here] at parked
      cases parked
    · rw [if_neg here] at parked
      exact accounted.parked other parked
  · intro other member
    have waits := accounted.queued_idle idle member
    have apart : other ≠ iId := by
      rintro rfl
      exact unqueued member
    refine .inl ⟨waits.1, ?_⟩
    rw [parks, if_neg apart]
    exact waits.2
  · intro other
    have before := accounted.yields other
    rw [yielded, resumed, parks]
    by_cases here : other = iId
    · subst here
      simpa using before
    · simpa [here] using before
  · intro other
    have before := accounted.puts other
    rw [puts, resumed]
    by_cases here : other = iId
    · subst here
      have pending : Pending x other ↔ x.ledger.parked other = true := by
        constructor
        · rintro (member | both)
          · exact absurd member unqueued
          · exact both.1
        · intro parked
          refine .inr ⟨parked, ?_⟩
          rcases accounted.parked other parked with waits | active
          · rw [waits] at now
            simp at now
          · exact active
      have served : ¬ Pending ⟨x.scheduler.switchCoro other,
          x.ledger.resume other⟩ other := by
        rintro (member | both)
        · exact unqueued member
        · have parked := both.1
          rw [parks, if_pos rfl] at parked
          cases parked
      rw [if_congr pending rfl rfl] at before
      rw [if_neg served]
      simpa using before
    · have pending : Pending ⟨x.scheduler.switchCoro iId,
          x.ledger.resume iId⟩ other ↔ Pending x other := by
        simp only [Pending, parks, if_neg here]
        exact Iff.rfl
      rw [if_congr pending rfl rfl]
      simpa [here] using before

end Idle

end Accounted

end TarsCpp.Coroutine
