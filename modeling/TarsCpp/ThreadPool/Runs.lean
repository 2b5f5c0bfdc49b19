import TarsCpp.ThreadPool.ThreadPool

/-!
# Runs of the thread pool

The tasks that were taken are the first ones that were submitted, in their
order, and each of them is held by one worker or has ended.  The counter counts
the workers that have counted their task.  As long as a blocked worker has not
been notified, every task in the queue has a notified worker of its own, unless
a notification goes to a caller of `waitForAllDone` instead.
-/

namespace TarsCpp.ThreadPool

open TransitionRun

namespace TC_ThreadPool

/-- The tasks are taken in the order of `exec`, each at most once, and no task
ends twice. -/
structure InOrder (pool : TC_ThreadPool) : Prop where
  taken : pool.taken <+: List.range pool.submitted
  once : (pool.ended.map Prod.fst).Nodup

/-- A call has returned `true` only if every task that was submitted before it
has ended. -/
def Awaited (pool : TC_ThreadPool) : Prop :=
  ∀ waiter ∈ pool.waiters, waiter.stage = .returned true →
    ∀ id < waiter.before, id ∈ pool.ended.map Prod.fst

/-- While a worker stays blocked, every task in the queue has the notification
of a worker. -/
def Served (pool : TC_ThreadPool) : Prop :=
  .blocked false ∈ pool.workers →
    pool.tasks.length ≤ pool.workers.countP (· = .blocked true)

structure Good (pool : TC_ThreadPool) : Prop where
  inOrder : pool.InOrder
  awaited : pool.Awaited
  served : pool.Served

end TC_ThreadPool

/-- The worker has an earlier task that it has not counted. -/
def Worker.uncountedBefore (before : ℕ) : Worker → Bool
  | .taken task => task.id < before
  | _ => false

/-- `exec` does not wake a caller of `waitForAllDone` while a worker is blocked,
and no caller finds the queue empty and the counter zero while a worker has a
task from before the call that it has not counted. -/
def careful (pool : TC_ThreadPool) : Event → Bool
  | .exec _ _ (some (.waiter _)) => .blocked false ∉ pool.workers
  | .check index | .resume index _ =>
      match pool.waiters[index]? with
      | some waiter => !pool.allDone ||
          !pool.workers.any (Worker.uncountedBefore waiter.before)
      | none => true
  | _ => true

theorem countP_set_add {α : Type} {p : α → Bool} {items : List α} {index : ℕ}
    {old : α} (new : α) (found : items[index]? = some old) :
    (items.set index new).countP p + (if p old then 1 else 0) =
      items.countP p + if p new then 1 else 0 := by
  induction items generalizing index with
  | nil => cases found
  | cons item items ih =>
      cases index with
      | zero =>
          obtain rfl : item = old := by simpa using found
          simp only [List.set_cons_zero, List.countP_cons]
          omega
      | succ index =>
          have rest := ih (by simpa using found)
          simp only [List.set_cons_succ, List.countP_cons]
          omega

theorem countP_set_same {α : Type} (p : α → Bool) {items : List α}
    {index : ℕ} {old new : α} (found : items[index]? = some old)
    (same : p new = p old) : (items.set index new).countP p =
      items.countP p := by
  have counts := @countP_set_add _ p _ _ _ new found
  rw [same] at counts
  exact Nat.add_right_cancel counts

/-- The worker has the task and it has not ended. -/
def Worker.holds (id : ℕ) : Worker → Bool
  | .taken task | .counted task => task.id = id
  | _ => false

/-- The worker is part of the counter. -/
def Worker.busy : Worker → Bool
  | .counted _ | .finished => true
  | _ => false

theorem Worker.holds_notify (id : ℕ) (worker : Worker) :
    worker.notify.holds id = worker.holds id := by
  cases worker <;> rfl

theorem Worker.busy_notify (worker : Worker) :
    worker.notify.busy = worker.busy := by
  cases worker <;> rfl

theorem Worker.notify_ne (worker : Worker) :
    worker.notify ≠ .blocked false := by
  cases worker <;> simp [Worker.notify]

namespace TC_ThreadPool

variable {pool next : TC_ThreadPool} {index : ℕ} {old new : Worker}

/-- What holds in every state between two steps. -/
structure Sound (threadNum : ℕ) (pool : TC_ThreadPool) : Prop where
  size : pool.workers.length = threadNum
  order : pool.taken ++ pool.tasks.map TaskFunc.id =
    List.range pool.submitted
  held : ∀ id, pool.workers.countP (Worker.holds id) +
    (pool.ended.map Prod.fst).count id = pool.taken.count id
  counter : pool.atomic = toInt (pool.workers.countP Worker.busy)
  earlier : ∀ waiter ∈ pool.waiters, waiter.before ≤ pool.submitted
  awaited : pool.Awaited
  served : pool.Served

theorem mem_set (member : .blocked false ∈ pool.workers.set index new)
    (other : new ≠ .blocked false) : .blocked false ∈ pool.workers := by
  rcases List.mem_or_eq_of_mem_set member with present | equal
  · exact present
  · exact absurd equal.symm other

theorem Sound.good {threadNum : ℕ} (sound : Sound threadNum pool) :
    pool.Good := by
  have whole : (pool.taken ++ pool.tasks.map TaskFunc.id).Nodup := by
    rw [sound.order]
    exact List.nodup_range
  refine ⟨⟨⟨_, sound.order⟩, ?_⟩, sound.awaited, sound.served⟩
  rw [List.nodup_iff_count_le_one]
  intro id
  have held := sound.held id
  have once := List.nodup_iff_count_le_one.mp
    (List.nodup_append.mp whole).1 id
  omega

section Workers

variable {threadNum : ℕ} {task : TaskFunc} {TNOWMS : ℕ}

/-- A worker that holds no task gets the lock in `get`. -/
theorem Sound.take (sound : Sound threadNum pool)
    (found : pool.workers[index]? = some old)
    (free : ∀ id, old.holds id = false) (lazy : old.busy = false) :
    Sound threadNum (pool.take index) := by
  cases queue : pool.tasks with
  | nil =>
      have same : pool.take index = pool.setWorker index (.blocked false) := by
        simp only [TC_ThreadPool.take, queue]
      rw [same]
      constructor
      · simpa [setWorker] using sound.size
      · exact sound.order
      · intro id
        have counts := @countP_set_add _ (Worker.holds id) _ _ _
          (.blocked false) found
        rw [free id] at counts
        have held := sound.held id
        simp only [setWorker, Worker.holds, Bool.false_eq_true,
          if_false] at counts ⊢
        omega
      · have counts := @countP_set_add _ Worker.busy _ _ _
          (.blocked false) found
        rw [lazy] at counts
        simp only [Worker.busy, Bool.false_eq_true, if_false,
          add_zero] at counts
        simp only [setWorker, counts]
        exact sound.counter
      · exact sound.earlier
      · exact sound.awaited
      · intro _
        simp [setWorker, queue]
  | cons task tasks =>
      have same : pool.take index =
          { pool.setWorker index (.taken task) with
            tasks := tasks
            taken := pool.taken ++ [task.id] } := by
        simp only [TC_ThreadPool.take, queue]
      have order := sound.order
      have served := sound.served
      rw [queue] at order
      rw [Served, queue] at served
      rw [same]
      constructor
      · simpa [setWorker] using sound.size
      · simpa [setWorker] using order
      · intro id
        have counts := @countP_set_add _ (Worker.holds id) _ _ _
          (.taken task) found
        rw [free id] at counts
        have held := sound.held id
        simp only [setWorker, Worker.holds, List.count_append,
          List.count_singleton, beq_iff_eq, decide_eq_true_eq,
          Bool.false_eq_true, if_false] at counts ⊢
        omega
      · have counts := @countP_set_add _ Worker.busy _ _ _
          (.taken task) found
        rw [lazy] at counts
        simp only [Worker.busy, Bool.false_eq_true, if_false,
          add_zero] at counts
        simp only [setWorker, counts]
        exact sound.counter
      · exact sound.earlier
      · exact sound.awaited
      · intro member
        have before := served (mem_set member (by simp))
        have counts := @countP_set_add _ (· = Worker.blocked true) _ _ _
          (.taken task) found
        simp only [setWorker, List.length_cons] at before ⊢
        split at counts <;> simp at counts <;> omega

/-- A worker that is not blocked goes on. -/
theorem Served.setWorker (served : pool.Served)
    (found : pool.workers[index]? = some old)
    (running : ∀ notified, old ≠ .blocked notified)
    (running' : ∀ notified, new ≠ .blocked notified) :
    (pool.setWorker index new).Served := by
  intro member
  have before := served (mem_set member (running' false))
  have counts := @countP_set_add _ (· = Worker.blocked true) _ _ _ new found
  simp only [running true, running' true, decide_false, Bool.false_eq_true,
    if_false, add_zero] at counts
  rw [TC_ThreadPool.setWorker, counts]
  exact before

theorem toInt_add (value : ℤ) : toInt (toInt value + 1) = toInt (value + 1) := by
  unfold toInt
  exact Int.bmod_add_bmod

theorem toInt_sub (value : ℤ) : toInt (toInt value - 1) = toInt (value - 1) := by
  unfold toInt
  exact Int.bmod_sub_bmod

theorem Sound.increment (sound : Sound threadNum pool)
    (found : pool.workers[index]? = some (.taken task)) :
    Sound threadNum { pool.setWorker index (.counted task) with
      atomic := toInt (pool.atomic + 1) } := by
  constructor
  · simpa [setWorker] using sound.size
  · exact sound.order
  · intro id
    have counts := countP_set_same (Worker.holds id) found
      (rfl : Worker.holds id (.counted task) = _)
    rw [setWorker, counts]
    exact sound.held id
  · have counts := @countP_set_add _ Worker.busy _ _ _ (.counted task) found
    simp only [Worker.busy, Bool.false_eq_true, if_false, if_true,
      add_zero] at counts
    simp only [setWorker, counts, sound.counter, toInt_add]
    push_cast
    rfl
  · exact sound.earlier
  · exact sound.awaited
  · exact sound.served.setWorker found (by simp) (by simp)

theorem Sound.runTask (sound : Sound threadNum pool)
    (found : pool.workers[index]? = some (.counted task)) :
    Sound threadNum { pool.setWorker index .finished with
      ended := pool.ended ++ [(task.id, task.ending TNOWMS)] } := by
  constructor
  · simpa [setWorker] using sound.size
  · exact sound.order
  · intro id
    have counts := @countP_set_add _ (Worker.holds id) _ _ _ .finished found
    have held := sound.held id
    simp only [setWorker, Worker.holds, List.map_append, List.map_cons,
      List.map_nil, List.count_append, List.count_singleton, beq_iff_eq,
      decide_eq_true_eq, Bool.false_eq_true, if_false] at counts ⊢
    omega
  · have counts := @countP_set_add _ Worker.busy _ _ _ .finished found
    simp only [Worker.busy, add_left_inj] at counts
    simp only [setWorker, counts]
    exact sound.counter
  · exact sound.earlier
  · intro waiter member returned id before
    have ended := sound.awaited waiter member returned id before
    rw [List.map_append]
    exact List.mem_append_left _ ended
  · exact sound.served.setWorker found (by simp) (by simp)

theorem Sound.decrement (sound : Sound threadNum pool)
    (found : pool.workers[index]? = some .finished) :
    Sound threadNum { pool.setWorker index .uncounted with
      atomic := toInt (pool.atomic - 1) } := by
  constructor
  · simpa [setWorker] using sound.size
  · exact sound.order
  · intro id
    have counts := countP_set_same (Worker.holds id) found
      (rfl : Worker.holds id .uncounted = _)
    rw [setWorker, counts]
    exact sound.held id
  · have counts := @countP_set_add _ Worker.busy _ _ _ .uncounted found
    simp only [Worker.busy, Bool.false_eq_true, if_false, if_true,
      add_zero] at counts
    simp only [setWorker, sound.counter, toInt_sub, ← counts]
    push_cast
    rw [add_sub_cancel_right]
  · exact sound.earlier
  · exact sound.awaited
  · exact sound.served.setWorker found (by simp) (by simp)

theorem Sound.leave (sound : Sound threadNum pool)
    (found : pool.workers[index]? = some .uncounted) :
    Sound threadNum (pool.setWorker index .idle) := by
  constructor
  · simpa [setWorker] using sound.size
  · exact sound.order
  · intro id
    have counts := countP_set_same (Worker.holds id) found
      (rfl : Worker.holds id .idle = _)
    rw [setWorker, counts]
    exact sound.held id
  · have counts := @countP_set_add _ Worker.busy _ _ _ .idle found
    simp only [Worker.busy, Bool.false_eq_true, if_false,
      add_zero] at counts
    simp only [setWorker, counts]
    exact sound.counter
  · exact sound.earlier
  · exact sound.awaited
  · exact sound.served.setWorker found (by simp) (by simp)

end Workers

section Notifications

variable {threadNum : ℕ} {waiter : Waiter} {stage : Stage}

/-- A call that is somewhere else than in front of its return. -/
theorem Awaited.setStage (awaited : pool.Awaited)
    (later : stage ≠ .returned true) :
    (pool.setStage index waiter stage).Awaited := by
  intro other member returned
  rcases List.mem_or_eq_of_mem_set member with present | equal
  · exact awaited other present returned
  · rw [equal] at returned
    exact absurd returned later

theorem Sound.setStage (sound : Sound threadNum pool)
    (found : pool.waiters[index]? = some waiter)
    (awaited : (pool.setStage index waiter stage).Awaited) :
    Sound threadNum (pool.setStage index waiter stage) := by
  refine ⟨sound.size, sound.order, sound.held, sound.counter, ?_, awaited,
    sound.served⟩
  intro other member
  rcases List.mem_or_eq_of_mem_set member with present | equal
  · exact sound.earlier other present
  · rw [equal]
    exact sound.earlier waiter (List.mem_of_getElem? found)

theorem Sound.notifyAll (sound : Sound threadNum pool) :
    Sound threadNum pool.notifyAll := by
  have holds : ∀ id, Worker.holds id ∘ Worker.notify = Worker.holds id :=
    fun id => funext (Worker.holds_notify id)
  have busy : Worker.busy ∘ Worker.notify = Worker.busy :=
    funext Worker.busy_notify
  constructor
  · simpa [TC_ThreadPool.notifyAll] using sound.size
  · exact sound.order
  · intro id
    rw [TC_ThreadPool.notifyAll, List.countP_map, holds id]
    exact sound.held id
  · rw [TC_ThreadPool.notifyAll, List.countP_map, busy]
    exact sound.counter
  · intro waiter member
    obtain ⟨other, present, rfl⟩ := List.mem_map.mp member
    exact sound.earlier other present
  · intro waiter member returned
    obtain ⟨other, present, rfl⟩ := List.mem_map.mp member
    apply sound.awaited other present
    cases stage : other.stage with
    | called => simp [Waiter.notify, stage, Stage.notify] at returned
    | blocked notified => simp [Waiter.notify, stage, Stage.notify] at returned
    | returned result =>
        simpa [Waiter.notify, stage, Stage.notify] using returned
  · intro member
    obtain ⟨worker, _, equal⟩ := List.mem_map.mp member
    exact absurd equal worker.notify_ne

theorem Sound.exec (sound : Sound threadNum pool) (timeoutMs : ℤ) (TNOWMS : ℕ)
    (served : (pool.exec timeoutMs TNOWMS).Served) :
    Sound threadNum (pool.exec timeoutMs TNOWMS) := by
  refine ⟨sound.size, ?_, sound.held, sound.counter, ?_, sound.awaited, served⟩
  · rw [TC_ThreadPool.exec, List.map_append, ← List.append_assoc, sound.order,
      List.range_succ]
    rfl
  · intro waiter member
    exact (sound.earlier waiter member).trans (Nat.le_succ _)

/-- A worker is notified. -/
theorem Sound.notify_worker (sound : Sound threadNum pool)
    (found : pool.workers[index]? = some (.blocked false)) :
    Sound threadNum (pool.setWorker index (.blocked true)) ∧
      (.blocked false ∈ (pool.setWorker index (.blocked true)).workers →
        pool.tasks.length + 1 ≤
          (pool.setWorker index (.blocked true)).workers.countP
            (· = .blocked true)) := by
  have more : .blocked false ∈
      (pool.setWorker index (.blocked true)).workers →
      pool.tasks.length + 1 ≤
        (pool.setWorker index (.blocked true)).workers.countP
          (· = .blocked true) := by
    intro member
    have before := sound.served (mem_set member (by simp))
    have counts := @countP_set_add _ (· = Worker.blocked true) _ _ _
      (.blocked true) found
    simp only [Worker.blocked.injEq, Bool.false_eq_true,
      decide_false, decide_true, if_false, if_true, add_zero] at counts
    rw [setWorker, counts]
    exact Nat.add_le_add_right before 1
  refine ⟨?_, more⟩
  constructor
  · simpa [setWorker] using sound.size
  · exact sound.order
  · intro id
    have counts := countP_set_same (Worker.holds id) found
      (rfl : Worker.holds id (.blocked true) = _)
    rw [setWorker, counts]
    exact sound.held id
  · have counts := countP_set_same Worker.busy found
      (rfl : Worker.busy (.blocked true) = _)
    rw [setWorker, counts]
    exact sound.counter
  · exact sound.earlier
  · exact sound.awaited
  · exact fun member => (Nat.le_succ _).trans (more member)

/-- The new task and its notification go together. -/
theorem Sound.exec_notify {woken : Option Thread} {timeoutMs : ℤ}
    (sound : Sound threadNum pool)
    (done : (pool.exec timeoutMs TNOWMS).notifyOne woken = some next)
    (guard : careful pool (.exec timeoutMs TNOWMS woken) = true) :
    Sound threadNum next := by
  cases woken with
  | none =>
      rw [notifyOne] at done
      split at done
      · cases done
      · next nobody =>
          cases done
          apply sound.exec
          exact fun member => absurd (.inl member) nobody
  | some thread =>
      cases thread with
      | worker index =>
          rw [notifyOne] at done
          split at done
          · next found =>
              cases done
              obtain ⟨notified, more⟩ := sound.notify_worker found
              apply notified.exec timeoutMs TNOWMS
              intro member
              rw [TC_ThreadPool.exec, List.length_append]
              exact more member
          · cases done
      | waiter index =>
          have nobody : .blocked false ∉ pool.workers := by
            simpa only [careful, decide_eq_true_eq] using guard
          have sound' := sound.exec timeoutMs TNOWMS
            fun member => absurd member nobody
          rw [notifyOne] at done
          split at done
          · next waiter found =>
              split at done
              · cases done
                exact sound'.setStage found (sound'.awaited.setStage nofun)
              · cases done
          · cases done

end Notifications

section Waiters

variable {threadNum : ℕ} {waiter : Waiter} {otherwise : Stage}

/-- The counter does not deceive who counts on it. -/
theorem Sound.nobody_busy (sound : Sound threadNum pool)
    (few : threadNum < 2 ^ 32) (zero : pool.atomic = 0) :
    pool.workers.countP Worker.busy = 0 := by
  have counter := sound.counter
  rw [zero, toInt] at counter
  have atMost := List.countP_le_length (p := Worker.busy) (l := pool.workers)
  rw [sound.size] at atMost
  rw [Int.bmod_def] at counter
  split at counter <;> omega

/-- A task that was submitted is in the queue, has ended or is held. -/
theorem Sound.ended_of_free (sound : Sound threadNum pool) {id : ℕ}
    (submitted : id < pool.submitted) (empty : pool.tasks = [])
    (free : ∀ worker ∈ pool.workers, worker.holds id = false) :
    id ∈ pool.ended.map Prod.fst := by
  have order := sound.order
  have held := sound.held id
  have nobody : pool.workers.countP (Worker.holds id) = 0 := by
    rw [List.countP_eq_zero]
    intro worker member
    simp [free worker member]
  rw [empty, List.map_nil, List.append_nil] at order
  rw [nobody, zero_add, order] at held
  rw [← List.one_le_count_iff, held, List.one_le_count_iff, List.mem_range]
  exact submitted

theorem Sound.look (sound : Sound threadNum pool) (few : threadNum < 2 ^ 32)
    (found : pool.waiters[index]? = some waiter)
    (later : otherwise ≠ .returned true)
    (guard : pool.allDone = true →
      pool.workers.any (Worker.uncountedBefore waiter.before) = false) :
    Sound threadNum (pool.look index waiter otherwise) := by
  have member := List.mem_of_getElem? found
  apply sound.setStage found
  split
  · next done =>
      have counted := guard done
      rw [allDone, Bool.and_eq_true, List.isEmpty_iff, beq_iff_eq] at done
      have nobody := sound.nobody_busy few done.2
      intro other present returned id before
      rcases List.mem_or_eq_of_mem_set present with old | equal
      · exact sound.awaited other old returned id before
      · rw [equal] at before
        have earlier := sound.earlier waiter member
        apply sound.ended_of_free (lt_of_lt_of_le before earlier) done.1
        intro worker among
        have idle := List.countP_eq_zero.mp nobody worker among
        have known := List.any_eq_false.mp counted worker among
        cases worker with
        | taken task =>
            simp only [Worker.uncountedBefore, decide_eq_true_eq] at known
            simp only [Worker.holds, decide_eq_false_iff_not]
            intro same
            exact known (same ▸ before)
        | counted task => exact absurd rfl idle
        | idle => rfl
        | blocked notified => rfl
        | finished => rfl
        | uncounted => rfl
  · exact sound.awaited.setStage later

end Waiters

section Steps

variable {threadNum : ℕ} {events : List Event} {event : Event}

theorem Sound.step (sound : Sound threadNum pool) (few : threadNum < 2 ^ 32)
    (guard : careful pool event = true) (done : pool.step event = some next) :
    Sound threadNum next := by
  cases event with
  | exec timeoutMs TNOWMS woken => exact sound.exec_notify done guard
  | get index =>
      simp only [TC_ThreadPool.step] at done
      split at done
      · next found =>
          cases done
          exact sound.take found (fun _ => rfl) rfl
      · cases done
  | wake index =>
      simp only [TC_ThreadPool.step] at done
      split at done
      · next found =>
          cases done
          exact sound.take found (fun _ => rfl) rfl
      · cases done
  | increment index =>
      simp only [TC_ThreadPool.step] at done
      split at done
      · next found =>
          cases done
          exact sound.increment found
      · cases done
  | runTask index TNOWMS =>
      simp only [TC_ThreadPool.step] at done
      split at done
      · next found =>
          cases done
          exact sound.runTask found
      · cases done
  | decrement index =>
      simp only [TC_ThreadPool.step] at done
      split at done
      · next found =>
          cases done
          exact sound.decrement found
      · cases done
  | report index =>
      simp only [TC_ThreadPool.step] at done
      split at done
      · next found =>
          have left_ := sound.leave found
          cases done
          split
          · exact left_.notifyAll
          · exact left_
      · cases done
  | waitForAllDone millsecond =>
      cases done
      refine ⟨sound.size, sound.order, sound.held, sound.counter, ?_, ?_,
        sound.served⟩
      · intro waiter member
        rcases List.mem_append.mp member with old | new_
        · exact sound.earlier waiter old
        · rw [List.mem_singleton.mp new_]
      · intro waiter member returned
        rcases List.mem_append.mp member with old | new_
        · exact sound.awaited waiter old returned
        · rw [List.mem_singleton.mp new_] at returned
          cases returned
  | check index =>
      simp only [TC_ThreadPool.step] at done
      split at done
      · next waiter found =>
          split at done
          · cases done
            refine sound.look few found nofun ?_
            intro all
            simpa [careful, found, all] using guard
          · cases done
      · cases done
  | resume index timedOut =>
      simp only [TC_ThreadPool.step] at done
      split at done
      · next waiter found =>
          have guard' : pool.allDone = true →
              pool.workers.any (Worker.uncountedBefore waiter.before) =
                false := by
            intro all
            simpa [careful, found, all] using guard
          split at done
          · cases done
            exact sound.look few found nofun guard'
          · split at done
            · cases done
            · cases done
              exact sound.look few found nofun guard'
          · cases done
      · cases done

theorem start_sound (threadNum : ℕ) : Sound threadNum (start threadNum) := by
  constructor
  · exact List.length_replicate
  · rfl
  · intro id
    simp [start, List.countP_replicate, Worker.holds]
  · simp [start, List.countP_replicate, Worker.busy, toInt]
  · intro waiter member
    cases member
  · intro waiter member
    cases member
  · intro _
    exact Nat.zero_le _

/-- What a step of the pool does, whatever the others do. -/
abbrev Step : TC_ThreadPool → Event → TC_ThreadPool → Prop :=
  Applies TC_ThreadPool.step

abbrev Careful (pool : TC_ThreadPool) (event : Event) : Prop :=
  careful pool event = true

/-- Careful runs keep what is expected. -/
theorem careful_run_good (few : threadNum < 2 ^ 32)
    (run : Run (Guarded Careful Step) (start threadNum) events pool) :
    pool.Good := by
  have sound : Sound threadNum pool := by
    refine run.preserves ?_ (start_sound threadNum)
    intro state label next before taken
    exact before.step few taken.1 taken.2
  exact sound.good

/-- A worker takes a task, a call returns behind its end. -/
theorem careful_run_good_single : ∃ events pool,
    Run (Guarded Careful Step) (start 1) events pool ∧ pool.Good ∧
      pool.waiters.map Waiter.stage = [.returned true] := by
  let events : List Event := [.exec 0 5 none, .get 0, .increment 0,
    .waitForAllDone (-1), .check 0, .runTask 0 6, .decrement 0, .report 0,
    .resume 0 false]
  obtain ⟨pool, replayed⟩ : ∃ pool,
      replay careful TC_ThreadPool.step (start 1) events = some pool := ⟨_, rfl⟩
  have run := Run.of_replay replayed
  refine ⟨events, pool, run, careful_run_good (by norm_num) run, ?_⟩
  cases replayed
  rfl

/-- With one worker a call returns while the task of the worker has not even
begun. -/
def hasty : List Event :=
  [.exec 0 5 none, .get 0, .waitForAllDone (-1), .check 0]

/-- With two workers one of them stays blocked while a task is in the queue,
because the notification goes to a call. -/
def stolen : List Event :=
  [.exec 0 5 none, .get 0, .increment 0, .get 1, .waitForAllDone (-1),
    .check 0, .exec 0 6 (some (.waiter 0)), .resume 0 false]

theorem run_of_replay_all {first last : TC_ThreadPool}
    (replayed : replay (fun _ _ => true) TC_ThreadPool.step first events =
      some last) : Run Step first events last :=
  (Run.of_replay replayed).unguarded

theorem pool_not_good :
    (¬ ∀ threadNum events pool, Run Step (start threadNum) events pool →
      pool.Awaited) ∧
    (¬ ∀ threadNum events pool, Run Step (start threadNum) events pool →
      pool.Served) := by
  constructor
  · intro awaited
    obtain ⟨pool, replayed⟩ : ∃ pool, replay (fun _ _ => true)
        TC_ThreadPool.step (start 1) hasty = some pool := ⟨_, rfl⟩
    have all := awaited 1 hasty pool (run_of_replay_all replayed)
    cases replayed
    exact absurd (all _ List.mem_cons_self rfl 0 (by decide)) (by decide)
  · intro served
    obtain ⟨pool, replayed⟩ : ∃ pool, replay (fun _ _ => true)
        TC_ThreadPool.step (start 2) stolen = some pool := ⟨_, rfl⟩
    have all := served 2 stolen pool (run_of_replay_all replayed)
    cases replayed
    exact absurd (all (by decide)) (by decide)

end Steps

end TC_ThreadPool

end TarsCpp.ThreadPool
