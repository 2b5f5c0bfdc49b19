import TarsCpp.Coroutine.Runs

/-!
# The queue that the threads share

`_activeCoroQueue` is a plain deque: `put` adds to it from any thread, and the
thread of the scheduler tests it and takes it without a lock.  Such a call takes
time, so that a call of another thread may begin before it ends.
-/

namespace TarsCpp.Coroutine

open NetworkBuffer TC_CoroutineScheduler TransitionRun

/-- What the thread of the scheduler does with the queue. -/
inductive Access
  /-- The test of the loop of `run`. -/
  | empty
  /-- `wakeup`: the moves behind the swap only use what the thread owns. -/
  | wakeup
  | put (iCoroId : UInt32)
deriving DecidableEq, Repr

/-- What has happened when the access ends. -/
def Access.event? : Access → Option Event
  | .empty => none
  | .wakeup => some .wakeup
  | .put iCoroId => some (.put iCoroId)

/-- Both sides of the queue. -/
structure Process where
  system : System
  /-- The access of the scheduler that has not ended. -/
  own : Option Access := none
  /-- The calls of `put` of other threads that have not ended. -/
  others : List UInt32 := []

/-- The event does not use the queue. -/
def TC_CoroutineScheduler.Event.Alone : Event → Prop
  | .put _ | .wakeup => False
  | .start | .go | .yield _ | .sleep _ _ | .finish | .wakeupbytimeout _
  | .wakeupbyself | .runActive | .runAvail => True

instance : ∀ event : Event, Decidable event.Alone
  | .put _ | .wakeup => inferInstanceAs (Decidable False)
  | .start | .go | .yield _ | .sleep _ _ | .finish | .wakeupbytimeout _
  | .wakeupbyself | .runActive | .runAvail => inferInstanceAs (Decidable True)

inductive Act
  /-- A call of the scheduler, or a part of its loop, without the queue. -/
  | event (event : Event)
  | begins (access : Access)
  | ends
  /-- Another thread calls `put`. -/
  | enters (iCoroId : UInt32)
  | leaves (iCoroId : UInt32)
deriving DecidableEq, Repr

/-- Two threads use the queue at once, and one of them changes it: what the
program does then is undefined. -/
def Process.Racy (p : Process) : Prop :=
  1 < p.others.length ∨ p.own ≠ none ∧ p.others ≠ []

instance (p : Process) : Decidable p.Racy :=
  inferInstanceAs (Decidable (_ ∨ _))

def System.perform (x : System) (event : Event) : Except Failure System := do
  pure ⟨← x.scheduler.perform event, x.ledger.record x.scheduler event⟩

namespace Process

variable {p q : Process} {act : Act} {acts : List Act}

/-- What the act does to the scheduler. -/
def event? (p : Process) : Act → Option Event
  | .event event => some event
  | .begins _ | .enters _ => none
  | .ends => p.own.bind Access.event?
  | .leaves iCoroId => some (.put iCoroId)

def own' (p : Process) : Act → Option Access
  | .begins access => some access
  | .ends => none
  | .event _ | .enters _ | .leaves _ => p.own

def others' (p : Process) : Act → List UInt32
  | .enters iCoroId => p.others ++ [iCoroId]
  | .leaves iCoroId => p.others.erase iCoroId
  | .event _ | .begins _ | .ends => p.others

def perform (p : Process) (act : Act) : Except Failure Process := do
  let system ←
    match p.event? act with
    | none => pure p.system
    | some event => p.system.perform event
  pure ⟨system, p.own' act, p.others' act⟩

/-- When a thread gets to an act.  The scheduler has one thread. -/
def Reaches (p : Process) : Act → Prop
  | .event event =>
      p.own = none ∧ p.system.scheduler.Reaches event ∧ event.Alone
  | .begins access =>
      p.own = none ∧
        (access = .empty ∨ access = .wakeup →
          p.system.scheduler.Reaches .wakeup)
  | .ends => p.own ≠ none
  | .enters _ => True
  | .leaves iCoroId => iCoroId ∈ p.others

def Step (p : Process) (act : Act) (q : Process) : Prop :=
  p.Reaches act ∧ p.perform act = .ok q

/-- Nobody uses the queue while another one does, and every `put` is the only
one for its `yield(false)`. -/
def Careful (p : Process) (act : Act) : Prop :=
  (∀ event ∈ p.event? act, Disciplined p.system event) ∧
    match act with
    | .begins _ => p.others = []
    | .enters _ => p.own = none ∧ p.others = []
    | .event _ | .ends | .leaves _ => True

instance (s : TC_CoroutineScheduler) :
    ∀ event, Decidable (s.Reaches event)
  | .start | .go | .put _ => inferInstanceAs (Decidable True)
  | .yield _ | .sleep _ _ => inferInstanceAs (Decidable (_ = true))
  | .finish => inferInstanceAs (Decidable (_ ≠ _))
  | .wakeup | .wakeupbytimeout _ | .wakeupbyself =>
      inferInstanceAs (Decidable (_ ∧ _))
  | .runActive | .runAvail => inferInstanceAs (Decidable (_ ∧ _ ∧ _))

instance (x : System) : ∀ event, Decidable (Disciplined x event)
  | .put _ => inferInstanceAs (Decidable (_ < _))
  | .yield true | .sleep _ _ | .finish => inferInstanceAs (Decidable (_ ≤ _))
  | .yield false | .start | .go | .wakeup | .wakeupbytimeout _
  | .wakeupbyself | .runActive | .runAvail => inferInstanceAs (Decidable True)

instance (p : Process) : ∀ act, Decidable (p.Reaches act)
  | .event _ => inferInstanceAs (Decidable (_ ∧ _ ∧ _))
  | .begins _ => inferInstanceAs (Decidable (_ ∧ (_ → _)))
  | .ends => inferInstanceAs (Decidable (_ ≠ _))
  | .enters _ => inferInstanceAs (Decidable True)
  | .leaves _ => inferInstanceAs (Decidable (_ ∈ _))

instance (p : Process) : ∀ act, Decidable (p.Careful act)
  | .begins _ => inferInstanceAs (Decidable (_ ∧ _ = _))
  | .enters _ => inferInstanceAs (Decidable (_ ∧ _ = _ ∧ _ = _))
  | .event _ | .ends | .leaves _ => inferInstanceAs (Decidable (_ ∧ True))

/-- What all careful runs keep. -/
structure Quiet (p : Process) : Prop where
  accounted : Accounted p.system
  alone : ¬ p.Racy
  wakes : p.own = some .wakeup → p.system.scheduler.Reaches .wakeup

theorem perform_eq_none (none_ : p.event? act = none) :
    p.perform act = .ok ⟨p.system, p.own' act, p.others' act⟩ := by
  rw [perform, none_]
  rfl

theorem perform_eq_some {event : Event} {t : TC_CoroutineScheduler}
    (some_ : p.event? act = some event)
    (ran : p.system.scheduler.perform event = .ok t) :
    p.perform act = .ok ⟨⟨t, p.system.ledger.record p.system.scheduler event⟩,
      p.own' act, p.others' act⟩ := by
  rw [perform, some_]
  change (do
    let system ← p.system.perform event
    pure (Process.mk system (p.own' act) (p.others' act))) = _
  rw [System.perform, ran]
  rfl

/-- The scheduler gets to what the act does to it. -/
theorem Quiet.reaches (quiet : Quiet p) (reaches : p.Reaches act)
    {event : Event} (some_ : p.event? act = some event) :
    p.system.scheduler.Reaches event := by
  cases act with
  | event event' =>
      cases some_
      exact reaches.2.1
  | begins access => cases some_
  | ends =>
      obtain ⟨access, own, happens⟩ := Option.bind_eq_some_iff.mp some_
      cases access with
      | empty => cases happens
      | wakeup =>
          cases happens
          exact quiet.wakes own
      | put iCoroId =>
          cases happens
          trivial
  | enters iCoroId => cases some_
  | leaves iCoroId =>
      cases some_
      trivial

/-- A careful act succeeds, and the scheduler does not see the threads: either
nothing happens to it, or a whole event. -/
theorem Quiet.performs (quiet : Quiet p) (reaches : p.Reaches act)
    (careful : p.Careful act) :
    ∃ system, p.perform act = .ok ⟨system, p.own' act, p.others' act⟩ ∧
      Accounted system ∧
      (p.event? act).elim (system = p.system)
        fun event => Coroutine.Step p.system event system := by
  cases some_ : p.event? act with
  | none => exact ⟨p.system, perform_eq_none some_, quiet.accounted, rfl⟩
  | some event =>
      have reaches := quiet.reaches reaches some_
      have disciplined := careful.1 event some_
      obtain ⟨t, ran, kept, -⟩ := quiet.accounted.performs reaches disciplined
      exact ⟨_, perform_eq_some some_ ran, kept, reaches, disciplined, ran, rfl⟩

/-- While the scheduler is in a call of the queue, other threads leave it as
it is. -/
theorem wakes_put {s : TC_CoroutineScheduler} {iCoroId : UInt32}
    (reaches : s.Reaches .wakeup) : (s.put iCoroId).Reaches .wakeup :=
  reaches

theorem Quiet.alone_after (quiet : Quiet p) (careful : p.Careful act)
    (system : System) : ¬ Racy ⟨system, p.own' act, p.others' act⟩ := by
  have alone := quiet.alone
  rintro (many | ⟨owned, some_⟩)
  · cases act with
    | enters iCoroId =>
        have none_ := careful.2.2
        simp [others', none_] at many
    | leaves iCoroId =>
        have less := (p.others.erase_sublist (a := iCoroId)).length_le
        exact alone (.inl (many.trans_le less))
    | event _ | begins _ | ends => exact alone (.inl many)
  · cases act with
    | event event => exact alone (.inr ⟨owned, some_⟩)
    | begins access => exact some_ careful.2
    | ends => exact owned rfl
    | enters iCoroId => exact owned careful.2.1
    | leaves iCoroId =>
        refine alone (.inr ⟨owned, fun none_ => some_ ?_⟩)
        simp [others', none_]

theorem Quiet.step (quiet : Quiet p) (step : Guarded Careful Step p act q) :
    Quiet q ∧ (p.event? act).elim (q.system = p.system)
      fun event => Coroutine.Step p.system event q.system := by
  obtain ⟨careful, reaches, ran⟩ := step
  obtain ⟨system, ran', kept, moved⟩ := quiet.performs reaches careful
  obtain rfl := Except.ok.inj (ran.symm.trans ran')
  refine ⟨⟨kept, quiet.alone_after careful system, fun owned => ?_⟩, moved⟩
  cases act with
  | event event => exact absurd (owned.symm.trans reaches.1) (by simp)
  | begins access =>
      cases owned
      obtain rfl : system = p.system := moved
      exact reaches.2 (.inr rfl)
  | ends => cases owned
  | enters iCoroId =>
      obtain rfl : system = p.system := moved
      exact quiet.wakes owned
  | leaves iCoroId =>
      obtain ⟨-, -, put, -⟩ :
        Coroutine.Step p.system (.put iCoroId) system := moved
      rw [← Except.ok.inj put]
      exact wakes_put (quiet.wakes owned)

/-- The scheduler before its first use. -/
def new (poolSize : UInt32) : Process :=
  ⟨System.new poolSize, none, []⟩

/-- The state behind an act that succeeds. -/
def after (p : Process) (act : Act) : Process :=
  (p.perform act).toOption.getD p

/-- A thread gets to each of the acts, and each succeeds. -/
def Admits (guard : Process → Act → Prop) : Process → List Act → Prop
  | _, [] => True
  | p, act :: acts =>
      (guard p act ∧ p.Reaches act ∧ (p.perform act).toOption.isSome) ∧
        Admits guard (p.after act) acts

instance Admits.decide (guard : Process → Act → Prop)
    [∀ p act, Decidable (guard p act)] :
    ∀ (p : Process) (acts : List Act), Decidable (Admits guard p acts)
  | _, [] => .isTrue trivial
  | p, act :: acts =>
      have := Admits.decide guard (p.after act) acts
      inferInstanceAs (Decidable (_ ∧ _))

theorem Admits.run {guard : Process → Act → Prop}
    (admits : Admits guard p acts) :
    Run (Guarded guard Step) p acts (acts.foldl after p) := by
  induction acts generalizing p with
  | nil => exact .nil p
  | cons act acts ih =>
      obtain ⟨⟨admitted, reaches, ran⟩, rest⟩ := admits
      refine .cons ⟨admitted, reaches, ?_⟩ (ih rest)
      cases outcome : p.perform act with
      | error failure =>
          rw [outcome] at ran
          cases ran
      | ok q => simp [after, outcome, Except.toOption]

/-- A coroutine that runs is put by another thread, and waits for that
afterwards. -/
def early : List Act :=
  [.event .start, .event .go, .event .runAvail, .enters 1, .leaves 1,
    .event (.yield false), .begins .empty, .ends, .begins .wakeup, .ends,
    .event .runActive]

end Process

end TarsCpp.Coroutine
