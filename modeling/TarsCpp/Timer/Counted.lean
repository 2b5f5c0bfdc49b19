import TarsCpp.Timer.Placed

/-!
# What has happened to an event

While its id belongs to an event, what is counted for the id is what has
happened to the event: how often it was started and finished, and whether it
still waits.
-/

namespace TarsCpp.Timer

/-- How many events with the id are executed at one of the stages. -/
def atStages (jobs : List Job) (stages : List Stage) (uniqId : UInt32) : Nat :=
  jobs.countP fun job => job.stage ∈ stages ∧ job.func.uniqueId = uniqId

namespace System

variable (x : System)

/-- How many events with the id have not begun to be executed. -/
def waiting (uniqId : UInt32) : Nat :=
  x.created.countP (·.1.uniqueId = uniqId) +
    x.timer.mapEvent.countP (·.uniqueId = uniqId) +
    atStages x.jobs [.taken, .queued] uniqId

end System

structure Counted (x : System) : Prop where
  known : ∀ event ∈ x.funcs, ∃ first,
    (x.trace event.uniqueId).func = some first ∧
      (first = event ∨ ¬ first.Once ∧ ¬ event.Once)
  running : ∀ uniqId, (x.trace uniqId).starts =
    (x.trace uniqId).finishes + atStages x.jobs [.running] uniqId
  once : ∀ uniqId first, (x.trace uniqId).func = some first → first.Once →
    (x.trace uniqId).forgotten = false →
      (x.trace uniqId).starts + x.waiting uniqId = 1

section Steps

variable {x y : System} {inline_ : Bool}

theorem counted_new : Counted {} := by
  constructor <;> simp [System.funcs, atStages]

theorem record_apply (uniqId other : UInt32) (change : Trace → Trace) :
    x.record uniqId change other =
      if other = uniqId then change (x.trace other) else x.trace other := by
  rw [System.record, Function.update_apply]
  split
  · next same => rw [same]
  · rfl

theorem atStages_middle (before behind : List Job) (event : Func)
    (stage : Stage) (stages : List Stage) (uniqId : UInt32) :
    atStages (before ++ ⟨event, stage⟩ :: behind) stages uniqId =
      atStages (before ++ behind) stages uniqId +
        if stage ∈ stages ∧ event.uniqueId = uniqId then 1 else 0 := by
  unfold atStages
  rw [List.perm_middle.countP_eq, List.countP_cons]
  simp only [decide_eq_true_eq]

/-- An id that belongs to no event is not counted anywhere. -/
theorem counts_of_unused {uniqId : UInt32} (unused : uniqId ∉ x.live) :
    x.created.countP (·.1.uniqueId = uniqId) = 0 ∧
      x.timer.mapEvent.countP (·.uniqueId = uniqId) = 0 ∧
      ∀ stages, atStages x.jobs stages uniqId = 0 := by
  have apart : ∀ event ∈ x.funcs, event.uniqueId ≠ uniqId := by
    intro event member same
    exact unused (List.mem_map.mpr ⟨event, member, same⟩)
  refine ⟨?_, ?_, ?_⟩
  · rw [List.countP_eq_zero]
    intro entry member
    have other := apart entry.1 (List.mem_append_left _
      (List.mem_map_of_mem member))
    simpa using other
  · rw [List.countP_eq_zero]
    intro event member
    have other := apart event (List.mem_append_right _
      (List.mem_append_left _ member))
    simpa using other
  · intro stages
    rw [atStages, List.countP_eq_zero]
    intro job member
    have other := apart job.func (List.mem_append_right _
      (List.mem_append_right _ (List.mem_map_of_mem member)))
    simpa using fun _ => other

theorem Counted.known_of (counted : Counted x)
    (funcs : ∀ event ∈ y.funcs, event ∈ x.funcs)
    (traces : ∀ uniqId, (y.trace uniqId).func = (x.trace uniqId).func) :
    ∀ event ∈ y.funcs, ∃ first,
      (y.trace event.uniqueId).func = some first ∧
        (first = event ∨ ¬ first.Once ∧ ¬ event.Once) := by
  intro event member
  rw [traces]
  exact counted.known event (funcs event member)

/-- Erasing an event leaves the events of the other ids. -/
theorem countP_erase {t : TC_TimerBase} {uniqId other : UInt32}
    (apart : other ≠ uniqId) :
    (t.erase uniqId).mapEvent.countP (·.uniqueId = other) =
      t.mapEvent.countP (·.uniqueId = other) := by
  unfold TC_TimerBase.erase
  cases found : t.findEvent uniqId with
  | none => rfl
  | some event =>
      simp only [TC_TimerBase.eraseEvent, List.countP_filter]
      refine List.countP_congr fun event' _ => ?_
      constructor
      · intro both
        simp only [Bool.and_eq_true] at both
        exact both.1
      · intro here
        have same := of_decide_eq_true here
        simp [same, apart]

/-- What the jobs record while their stages change. -/
theorem Counted.stages {before behind after : List Job} {event : Func}
    {stage : Stage} (counted : Counted x)
    (job : x.jobs = before ++ ⟨event, stage⟩ :: behind) (jobs : y.jobs = after)
    (created : y.created = x.created)
    (events : y.timer.mapEvent = x.timer.mapEvent)
    (func : ∀ uniqId, (y.trace uniqId).func = (x.trace uniqId).func)
    (forgotten : ∀ uniqId,
      (y.trace uniqId).forgotten = (x.trace uniqId).forgotten)
    (result : after.map Job.func = x.jobs.map Job.func ∨
      after = before ++ behind)
    (running : ∀ uniqId, (y.trace uniqId).starts +
      (x.trace uniqId).finishes + atStages x.jobs [.running] uniqId =
        (x.trace uniqId).starts + (y.trace uniqId).finishes +
          atStages y.jobs [.running] uniqId)
    (waiting : ∀ uniqId, (y.trace uniqId).starts +
      atStages y.jobs [.taken, .queued] uniqId =
        (x.trace uniqId).starts + atStages x.jobs [.taken, .queued] uniqId) :
    Counted y := by
  refine ⟨counted.known_of ?_ func, ?_, ?_⟩
  · intro event' member
    rw [System.funcs, created, events, jobs] at member
    rw [System.funcs]
    rcases List.mem_append.mp member with first | second
    · exact List.mem_append_left _ first
    · refine List.mem_append_right _ ?_
      rcases List.mem_append.mp second with first | second
      · exact List.mem_append_left _ first
      · refine List.mem_append_right _ ?_
        rcases result with same | rfl
        · rwa [← same]
        · rw [job]
          refine (List.Sublist.map _ ?_).subset second
          exact (List.Sublist.refl _).append (List.sublist_cons_self _ _)
  · intro uniqId
    have before' := counted.running uniqId
    have change := running uniqId
    omega
  · intro uniqId first here single kept
    rw [func] at here
    rw [forgotten] at kept
    have before' := counted.once uniqId first here single kept
    have change := waiting uniqId
    unfold System.waiting at before' ⊢
    rw [created, events]
    omega

/-- A job whose function has returned goes on, or it ends. -/
theorem Counted.returned {before behind after : List Job} {event : Func}
    {stage : Stage} (counted : Counted x)
    (job : x.jobs = before ++ ⟨event, stage⟩ :: behind) (stage' : Stage)
    (jobs : y.jobs = after)
    (created : y.created = x.created)
    (events : y.timer.mapEvent = x.timer.mapEvent) (trace : y.trace = x.trace)
    (result : after = before ++ ⟨event, stage'⟩ :: behind ∨
      after = before ++ behind)
    (late : stage ∉ [Stage.taken, .queued, .running])
    (late' : stage' ∉ [Stage.taken, .queued, .running]) : Counted y := by
  have same : ∀ stages, stage ∉ stages → stage' ∉ stages → ∀ uniqId,
      atStages y.jobs stages uniqId = atStages x.jobs stages uniqId := by
    intro stages out out' uniqId
    rw [jobs, job, atStages_middle, if_neg fun both => out both.1]
    rcases result with rfl | rfl
    · rw [atStages_middle, if_neg fun both => out' both.1]
    · rfl
  simp only [List.mem_cons, List.not_mem_nil, or_false, not_or] at late late'
  refine counted.stages job jobs created events (fun _ => by rw [trace])
    (fun _ => by rw [trace]) ?_ ?_ ?_
  · rcases result with rfl | rfl
    · rw [job]
      exact .inl (by simp)
    · exact .inr rfl
  · intro uniqId
    rw [same [.running] (by simpa using late.2.2) (by simpa using late'.2.2),
      trace]
  · intro uniqId
    rw [same [.taken, .queued] (by simp [late]) (by simp [late']), trace]

theorem Counted.step (placed : Placed x) (counted : Counted x) {label : Label}
    (admissible : Admissible x label) (step : Step inline_ x label y) :
    Counted y := by
  cases step with
  | wait now later =>
      exact ⟨counted.known, counted.running, counted.once⟩
  | create event repeat_ generated =>
      obtain ⟨fresh, -, -⟩ := admissible
      obtain ⟨created, events, jobs⟩ := counts_of_unused fresh
      refine ⟨?_, ?_, ?_⟩
      · intro event' member
        simp only [record_apply]
        rcases List.mem_cons.mp member with rfl | old
        · exact ⟨event', by rw [if_pos rfl], .inl rfl⟩
        · have other : event'.uniqueId ≠ event.uniqueId := fun same =>
            fresh (List.mem_map.mpr ⟨event', old, same⟩)
          rw [if_neg other]
          exact counted.known event' old
      · intro uniqId
        simp only [record_apply]
        split
        · next same =>
            rw [same, jobs [.running]]
        · exact counted.running uniqId
      · intro uniqId first
        simp only [record_apply, System.waiting, List.countP_cons]
        split
        · next same =>
            subst same
            intro _ _ _
            rw [created, events, jobs [.taken, .queued]]
            simp
        · next other =>
            have apart : ¬ event.uniqueId = uniqId := fun same =>
              other same.symm
            simp only [apart, decide_false, Bool.false_eq_true, if_false]
            exact counted.once uniqId first
  | @post before behind event repeat_ waits =>
      have unknown := placed.created_unknown waits
      have posted := placed.indexed.post_eq repeat_ unknown
      refine ⟨counted.known_of ?_ fun _ => rfl, counted.running, ?_⟩
      · intro event' member
        refine (created_ids waits).symm.subset ?_
        rw [System.funcs, posted] at member
        exact List.perm_middle.subset member
      · intro uniqId first here single kept
        have before' := counted.once uniqId first here single kept
        unfold System.waiting at before' ⊢
        rw [waits, List.perm_middle.countP_eq] at before'
        simp only [List.countP_cons] at before'
        simp only [posted, List.countP_cons]
        omega
  | erase uniqId =>
      refine ⟨counted.known_of ?_ ?_, ?_, ?_⟩
      · intro event member
        refine List.Sublist.subset ?_ member
        exact (List.Sublist.refl _).append
          ((mapEvent_erase_sublist _ _).append (List.Sublist.refl _))
      · intro other
        simp only [record_apply]
        split <;> rfl
      · intro other
        simp only [record_apply]
        split
        · exact counted.running other
        · exact counted.running other
      · intro other first
        simp only [record_apply, System.waiting]
        split
        · intro _ _ kept
          exact absurd kept (by simp)
        · next apart =>
            rw [countP_erase apart]
            exact counted.once other first
  | clear =>
      refine ⟨counted.known_of ?_ fun _ => rfl, counted.running, ?_⟩
      · intro event member
        refine List.Sublist.subset ?_ member
        exact (List.Sublist.refl _).append
          ((List.nil_sublist _).append (List.Sublist.refl _))
      · intro other first _ _ kept
        exact absurd kept (by simp)
  | getEvents TNOWMS now ready finished times =>
      exact ⟨counted.known, counted.running, counted.once⟩
  | skip uniqId ready member gone =>
      exact ⟨counted.known, counted.running, counted.once⟩
  | take uniqId event ready member found =>
      obtain ⟨present, rfl⟩ := TC_TimerBase.mem_of_findEvent found
      have perm := eraseEvent_perm placed.indexed.events present
      refine ⟨counted.known_of ?_ fun _ => rfl, ?_, ?_⟩
      · exact fun event' inside =>
          (taken_ids placed.indexed present).symm.subset inside
      · intro uniqId
        have before' := counted.running uniqId
        rw [before', atStages, atStages, List.countP_cons]
        simp
      · intro uniqId first here single kept
        have before' := counted.once uniqId first here single kept
        unfold System.waiting atStages at before' ⊢
        rw [perm.countP_eq, List.countP_cons] at before'
        rw [List.countP_cons]
        simp only [List.mem_cons, true_or, true_and] at before' ⊢
        refine Eq.trans ?_ before'
        simp only [TC_TimerBase.takeEvent]
        omega
  | @fire before behind event job =>
      refine counted.stages job rfl rfl rfl (fun _ => rfl) (fun _ => rfl)
        (.inl ?_) ?_ ?_
      · rw [job]
        simp
      · intro uniqId
        simp [job, atStages_middle]
      · intro uniqId
        simp [job, atStages_middle]
  | @start before behind event job =>
      refine counted.stages job rfl rfl rfl ?_ ?_ (.inl ?_) ?_ ?_
      · intro uniqId
        simp only [record_apply]
        split <;> rfl
      · intro uniqId
        simp only [record_apply]
        split <;> rfl
      · rw [job]
        simp
      · intro uniqId
        simp only [job, atStages_middle, record_apply]
        split
        · next same =>
            simp [same]
            omega
        · next other =>
            have apart : ¬ event.uniqueId = uniqId := fun same =>
              other same.symm
            simp [apart]
      · intro uniqId
        simp only [job, atStages_middle, record_apply]
        split
        · next same =>
            simp [same]
            omega
        · next other =>
            have apart : ¬ event.uniqueId = uniqId := fun same =>
              other same.symm
            simp [apart]
  | @finish before behind event job =>
      refine counted.stages job rfl rfl rfl ?_ ?_ (.inl ?_) ?_ ?_
      · intro uniqId
        simp only [record_apply]
        split <;> rfl
      · intro uniqId
        simp only [record_apply]
        split <;> rfl
      · rw [job]
        simp
      · intro uniqId
        simp only [job, atStages_middle, record_apply]
        split
        · next same =>
            simp [same]
            omega
        · next other =>
            have apart : ¬ event.uniqueId = uniqId := fun same =>
              other same.symm
            simp [apart]
      · intro uniqId
        simp only [job, atStages_middle, record_apply]
        split <;> simp
  | @release before behind event job =>
      refine counted.returned job .released rfl rfl rfl rfl ?_ (by simp)
        (by simp)
      split
      · exact .inr rfl
      · exact .inl rfl
  | @exist before behind event job =>
      refine counted.returned job .passed rfl rfl rfl rfl ?_ (by simp) (by simp)
      split
      · exact .inl rfl
      · exact .inr rfl
  | @repost before behind event ms job =>
      have far : ¬ event.Once := by
        refine placed.repeats ⟨event, .passed⟩ ?_ (by simp)
        rw [job]
        simp
      have unknown := placed.job_unknown job
      have posted := @TC_TimerBase.Indexed.post_eq _ _
        { event with fireMillseconds := ms } placed.indexed false unknown
      have member : event ∈ x.funcs :=
        (job_ids job).symm.subset List.mem_cons_self
      obtain ⟨first, known, still⟩ := counted.known event member
      have repeated : ¬ first.Once := by
        rcases still with rfl | ⟨still, -⟩
        · exact far
        · exact still
      refine ⟨?_, ?_, ?_⟩
      · intro event' inside
        rw [System.funcs, posted] at inside
        rcases List.mem_cons.mp (List.perm_middle.subset inside) with rfl | old
        · exact ⟨first, known, .inr ⟨repeated, far⟩⟩
        · exact counted.known event'
            ((job_ids job).symm.subset (List.mem_cons_of_mem _ old))
      · intro uniqId
        have before' := counted.running uniqId
        rw [job, atStages_middle] at before'
        simpa using before'
      · intro uniqId first' here single kept
        have apart : event.uniqueId ≠ uniqId := by
          rintro rfl
          rw [known] at here
          injection here with same
          exact repeated (same ▸ single)
        have before' := counted.once uniqId first' here single kept
        unfold System.waiting at before' ⊢
        rw [job, atStages_middle] at before'
        rw [posted, List.countP_cons]
        simpa [apart] using before'

end Steps

end TarsCpp.Timer
