import TarsCpp.Timer.Erased

/-!
# Runs of a timer

Whatever the threads do, every event is listed once or has been collected, a
single task is executed once and not too early, and an execution begins when
the one before has finished.
-/

namespace TarsCpp.Timer

open TransitionRun

/-- What a timer keeps to.  Single tasks are those that `create` makes so. -/
structure Timely (inline_ : Bool) (x : System) : Prop where
  /-- An event that has not been collected is listed once, under its time. -/
  listed : ∀ event ∈ x.timer.mapEvent,
    x.timer.mapTimer.filter (·.2 = event.uniqueId) =
      if event.uniqueId ∈ x.el then []
      else [(event.fireMillseconds, event.uniqueId)]
  next : ∀ it ∈ x.timer.mapTimer,
    0 ≤ x.timer.nextTimer ∧ x.timer.nextTimer ≤ it.1
  once : ∀ uniqId event, (x.trace uniqId).func = some event → event.Once →
    (x.trace uniqId).forgotten = false →
      (x.trace uniqId).starts + x.waiting uniqId = 1
  /-- A task is started at its time or later, when the execution before has
  finished. -/
  starts : ∀ uniqId y, Step inline_ x (.start uniqId) y →
    (x.trace uniqId).starts = (x.trace uniqId).finishes ∧
      ∃ event, ⟨event, .queued⟩ ∈ x.jobs ∧ event.uniqueId = uniqId ∧
        event.fireMillseconds ≤ x.clock ∧
          ∀ first, (x.trace uniqId).func = some first → first.Once →
            first = event
  /-- When the events that were due have been handed on and executed, a single
  task among them has been started. -/
  fired : ∀ y z labels event, event ∈ x.timer.mapEvent → event.Once →
    event.fireMillseconds ≤ x.clock → Step inline_ x .getEvents y →
      Run (Guarded Admissible (Step inline_)) y labels z →
        (∀ other repeat_, .create other repeat_ ∈ labels →
          other.uniqueId ≠ event.uniqueId) →
          (z.trace event.uniqueId).forgotten = false → z.el = [] →
            atStages z.jobs [.taken, .queued] event.uniqueId = 0 →
              (z.trace event.uniqueId).starts = 1
  /-- After `erase` only that execution is started which the event had been
  taken for. -/
  erased : ∀ uniqId y z labels, uniqId ∉ x.created.map (·.1.uniqueId) →
    (∀ job ∈ x.jobs, job.stage = .passed → job.func.uniqueId ≠ uniqId) →
      Step inline_ x (.erase uniqId) y →
        Run (Guarded Admissible (Step inline_)) y labels z →
          (∀ event repeat_, .create event repeat_ ∈ labels →
            event.uniqueId ≠ uniqId) →
            labels.count (.start uniqId) ≤
                atStages x.jobs [.taken, .queued] uniqId ∧
              atStages x.jobs [.taken, .queued] uniqId ≤ 1

section Timely

variable {x : System} {inline_ : Bool}

theorem TC_TimerBase.Indexed.filter_eq {t : TC_TimerBase} {el : List UInt32}
    {event : Func} (indexed : t.Indexed el) (member : event ∈ t.mapEvent) :
    t.mapTimer.filter (·.2 = event.uniqueId) =
      if event.uniqueId ∈ el then []
      else [(event.fireMillseconds, event.uniqueId)] := by
  have time : ∀ ms, (ms, event.uniqueId) ∈ t.mapTimer →
      ms = event.fireMillseconds := by
    intro ms entry
    obtain ⟨-, other, present, same, here⟩ := (indexed.listed _ _).mp entry
    rw [← here, List.inj_on_of_nodup_map indexed.events present member same]
  split
  · next among =>
      rw [List.filter_eq_nil_iff]
      rintro ⟨ms, uniqId⟩ entry same
      obtain rfl : uniqId = event.uniqueId := of_decide_eq_true same
      exact ((indexed.listed _ _).mp entry).1 among
  · next still =>
      have entry : (event.fireMillseconds, event.uniqueId) ∈ t.mapTimer :=
        (indexed.listed _ _).mpr ⟨still, event, member, rfl, rfl⟩
      have nodup := indexed.nodup.filter fun it : Nat × UInt32 =>
        decide (it.2 = event.uniqueId)
      refine List.perm_singleton.mp ?_
      refine (List.perm_ext_iff_of_nodup nodup (List.nodup_singleton _)).mpr ?_
      rintro ⟨ms, uniqId⟩
      rw [List.mem_filter, List.mem_singleton, decide_eq_true_eq]
      constructor
      · rintro ⟨inside, rfl⟩
        rw [time ms inside]
      · intro same
        rw [same]
        exact ⟨entry, rfl⟩

/-- What is not later than the clock is among the entries that are due. -/
theorem mem_due {t : TC_TimerBase} {TNOWMS : Nat → Nat} {clock : Nat}
    {it : Nat × UInt32} (sorted : Multimap.Sorted Prod.fst t.mapTimer)
    (times : ∀ ms, clock ≤ TNOWMS ms) (member : it ∈ t.mapTimer)
    (early : it.1 ≤ clock) : it ∈ t.due TNOWMS := by
  unfold TC_TimerBase.due
  revert sorted member
  induction t.mapTimer with
  | nil => exact fun _ member => member
  | cons first rest ih =>
      intro sorted member
      obtain ⟨least, sorted'⟩ := List.pairwise_cons.mp sorted
      have passed : first.1 ≤ TNOWMS first.1 := by
        refine le_trans ?_ (early.trans (times first.1))
        rcases List.mem_cons.mp member with rfl | later
        · exact Nat.le_refl _
        · exact least it later
      rw [List.takeWhile_cons, if_pos (decide_eq_true passed)]
      rcases List.mem_cons.mp member with rfl | later
      · exact List.mem_cons_self
      · exact List.mem_cons_of_mem _ (ih sorted' later)

theorem atStages_mono {jobs : List Job} {stages stages' : List Stage}
    {uniqId : UInt32} (subset : stages ⊆ stages') :
    atStages jobs stages uniqId ≤ atStages jobs stages' uniqId := by
  refine List.countP_mono_left fun job _ both => ?_
  simp only [decide_eq_true_eq] at both ⊢
  exact ⟨subset both.1, both.2⟩

theorem invariants {y : System} {labels : List Label}
    (run : Run (Guarded Admissible (Step inline_)) x labels y)
    (placed : Placed x) (counted : Counted x) : Placed y ∧ Counted y := by
  refine @Run.preserves _ _ _ (fun x => Placed x ∧ Counted x) ?_ _ _ _ run
    ⟨placed, counted⟩
  intro state label next before taken
  exact ⟨before.1.step taken.1 taken.2,
    before.2.step before.1 taken.1 taken.2⟩

/-- The event of a single task is the one that was created. -/
theorem Counted.func_eq {event : Func} (counted : Counted x)
    (member : event ∈ x.funcs) (single : event.Once) :
    (x.trace event.uniqueId).func = some event := by
  obtain ⟨first, known, still⟩ := counted.known event member
  rcases still with rfl | ⟨-, other⟩
  · exact known
  · exact absurd single other

theorem collected_of_getEvents {y : System} {event : Func} (placed : Placed x)
    (counted : Counted x) (member : event ∈ x.timer.mapEvent)
    (single : event.Once) (early : event.fireMillseconds ≤ x.clock)
    (step : Step inline_ x .getEvents y) : Collected y event := by
  have among : event ∈ x.funcs :=
    List.mem_append_right _ (List.mem_append_left _ member)
  have live := placed.live
  rw [System.live, System.funcs, List.map_append, List.nodup_append',
    List.map_map] at live
  cases step with
  | getEvents TNOWMS now ready finished times =>
      refine ⟨?_, fun _ => ?_, counted.func_eq among single⟩
      · intro created
        refine live.2.2 created ?_
        exact List.mem_map.mpr
          ⟨event, List.mem_append_left _ member, rfl⟩
      · have entry : (event.fireMillseconds, event.uniqueId) ∈
            x.timer.mapTimer := by
          refine (placed.indexed.listed _ _).mpr ⟨?_, event, member, rfl, rfl⟩
          rw [finished]
          exact List.not_mem_nil
        exact mem_getEvents.mpr ⟨_, mem_due placed.indexed.sorted
          (fun ms => (times ms).1) entry early⟩

/-- A collected single task that is in no table any more has been started. -/
theorem Collected.started {event : Func} (counted : Counted x)
    (collected : Collected x event) (single : event.Once)
    (kept : (x.trace event.uniqueId).forgotten = false) (done : x.el = [])
    (idle : atStages x.jobs [.taken, .queued] event.uniqueId = 0) :
    (x.trace event.uniqueId).starts = 1 := by
  have once := counted.once _ event collected.func single kept
  have created : x.created.countP
      (fun entry => entry.1.uniqueId = event.uniqueId) = 0 := by
    rw [List.countP_eq_zero]
    intro entry member same
    exact collected.created
      (List.mem_map.mpr ⟨entry, member, of_decide_eq_true same⟩)
  have events : x.timer.mapEvent.countP
      (fun other => other.uniqueId = event.uniqueId) = 0 := by
    rw [List.countP_eq_zero]
    intro other member same
    have looked := collected.looked
      (List.mem_map.mpr ⟨other, member, of_decide_eq_true same⟩)
    rw [done] at looked
    exact absurd looked List.not_mem_nil
  rw [System.waiting, created, events, idle] at once
  exact once

theorem Counted.start {uniqId : UInt32} {y : System} (placed : Placed x)
    (counted : Counted x) (step : Step inline_ x (.start uniqId) y) :
    (x.trace uniqId).starts = (x.trace uniqId).finishes ∧
      ∃ event, ⟨event, .queued⟩ ∈ x.jobs ∧ event.uniqueId = uniqId ∧
        event.fireMillseconds ≤ x.clock ∧
          ∀ first, (x.trace uniqId).func = some first → first.Once →
            first = event := by
  cases step with
  | @start before behind event job =>
      have member : (⟨event, .queued⟩ : Job) ∈ x.jobs := by
        rw [job]
        simp
      refine ⟨?_, event, member, rfl, placed.begun _ member, ?_⟩
      · have running := counted.running event.uniqueId
        have alone := @Placed.atStages_le x event.uniqueId placed
          [.queued, .running]
        have fewer := @atStages_mono (before ++ behind) [.running]
          [.queued, .running] event.uniqueId (by simp)
        rw [job, atStages_middle] at running alone
        simp only [List.mem_cons, true_or, true_and, if_true] at alone
        simp at running
        omega
      · intro first here single
        obtain ⟨first', known, still⟩ := counted.known event
          (List.mem_append_right _ (List.mem_append_right _
            (List.mem_map_of_mem member)))
        obtain rfl : first' = first := Option.some.inj (known.symm.trans here)
        exact still.resolve_right fun both => both.1 single

theorem runs_timely {labels : List Label}
    (run : Run (Guarded Admissible (Step inline_)) {} labels x) :
    Timely inline_ x := by
  obtain ⟨placed, counted⟩ := invariants run placed_new counted_new
  refine ⟨fun event member => placed.indexed.filter_eq member,
    placed.indexed.next, counted.once,
    fun uniqId y step => counted.start placed step, ?_, ?_⟩
  · intro y z labels event member single early step run fresh kept done idle
    have collected := collected_of_getEvents placed counted member single early
      step
    have admissible : Admissible x .getEvents := trivial
    have placed' := placed.step admissible step
    have counted' := counted.step placed admissible step
    exact (collected.run run placed' counted' single fresh).started
      (invariants run placed' counted').2 single kept done idle
  · intro uniqId y z labels created jobs step run fresh
    have erased := erased_of_erase created jobs step
    have admissible : Admissible x (.erase uniqId) := trivial
    have placed' := placed.step admissible step
    have same : y.jobs = x.jobs := by
      cases step
      rfl
    refine ⟨?_, placed.atStages_le _⟩
    rw [← same]
    exact erased.starts run placed' fresh

/-- A single task is started at its time, and erased too late for that. -/
theorem runs_timely_single : ∃ x, (x.trace 1).starts = 1 ∧
    (x.trace 1).forgotten = true ∧ Timely false x := by
  have run : Run (Guarded Admissible (Step false)) {}
      [.create ⟨5, 1, 0, false⟩ false, .post 1, .getEvents, .take 1, .fire 1,
        .erase 1, .start 1] _ :=
    .cons ⟨⟨by decide, by decide, by decide⟩,
        .create ⟨5, 1, 0, false⟩ false rfl⟩
      (.cons ⟨trivial, @Step.post _ _ [] [] ⟨5, 1, 0, false⟩ false rfl⟩
        (.cons ⟨trivial, .getEvents (fun _ => 6) 6
            (fun _ member => absurd member List.not_mem_nil) rfl (by simp)⟩
          (.cons ⟨trivial, .take 1 ⟨5, 1, 0, false⟩
              (fun _ member => absurd member List.not_mem_nil)
              List.mem_cons_self rfl⟩
            (.cons ⟨trivial, @Step.fire _ _ [] [] ⟨5, 1, 0, false⟩ rfl⟩
              (.cons ⟨trivial, .erase 1⟩
                (.cons ⟨trivial, @Step.start _ _ [] [] ⟨5, 1, 0, false⟩ rfl⟩
                  (.nil _)))))))
  exact ⟨_, rfl, rfl, runs_timely run⟩

end Timely

section Ids

variable {inline_ : Bool}

/-- Ids are handed out one after the other. -/
theorem run_creates (x : System) (first : x.timer.increaseId = 1) (n : Nat)
    (bound : n < 2 ^ 32 - 1) : ∃ labels y,
      Run (Step inline_) x labels y ∧ y.timer =
        { x.timer with increaseId := UInt32.ofNat (n + 1) } := by
  induction n with
  | zero =>
      have same : UInt32.ofNat (0 + 1) = x.timer.increaseId := first.symm
      exact ⟨[], x, .nil x, by rw [same]⟩
  | succ n ih =>
      obtain ⟨labels, y, run, timer⟩ := ih (by omega)
      have next : y.timer.genUniqueId = UInt32.ofNat (n + 1 + 1) := by
        have sum : UInt32.ofNat (n + 1) + 1 = UInt32.ofNat (n + 1 + 1) :=
          (UInt32.ofNat_add (n + 1) 1).symm
        have nonzero : UInt32.ofNat (n + 1 + 1) ≠ 0 := by
          intro zero
          have value := congrArg UInt32.toNat zero
          rw [UInt32.toNat_ofNat', Nat.mod_eq_of_lt (by omega)] at value
          simp at value
        rw [TC_TimerBase.genUniqueId, timer]
        simp only [sum, if_neg nonzero]
      refine ⟨_, _, run.append (.cons
        (.create ⟨0, y.timer.genUniqueId, 0, false⟩ false rfl) (.nil _)), ?_⟩
      simp only [next]
      rw [timer]

/-- Without the bounds an event is listed twice, and `_nextTimer` is negative;
with them one is not listed while it is being collected, and one that was taken
is started after it was erased. -/
theorem runs_not_timely :
    (∃ labels x, Run (Step false) {} labels x ∧ ∃ event ∈ x.timer.mapEvent,
      event.uniqueId ∉ x.timer.mapTimer.map Prod.snd) ∧
    (∃ labels x y labels' z, Run (Step false) {} labels x ∧ x.created = [] ∧
      Step false x (.erase 1) y ∧ Run (Step false) y labels' z ∧
        .start 1 ∈ labels') ∧
    (∃ labels x, Run (Step false) {} labels x ∧ x.timer.mapTimer ≠ [] ∧
      x.timer.nextTimer < 0) ∧
    ∃ labels x, Run (Step false) {} labels x ∧ ∃ event ∈ x.timer.mapEvent,
      (x.timer.mapTimer.filter (·.2 = event.uniqueId)).length = 2 := by
  refine ⟨?_, ?_, ?_, ?_⟩
  · refine ⟨_, _, .cons (.create ⟨5, 1, 0, false⟩ false rfl)
      (.cons (@Step.post _ _ [] [] ⟨5, 1, 0, false⟩ false rfl)
        (.cons (.getEvents (fun _ => 6) 6
            (fun _ member => absurd member List.not_mem_nil) rfl (by simp))
          (.nil _))), ⟨5, 1, 0, false⟩, ?_, ?_⟩
    · decide
    · decide
  · refine ⟨_, _, _, _, _, .cons (.create ⟨5, 1, 0, false⟩ false rfl)
      (.cons (@Step.post _ _ [] [] ⟨5, 1, 0, false⟩ false rfl)
        (.cons (.getEvents (fun _ => 6) 6
            (fun _ member => absurd member List.not_mem_nil) rfl (by simp))
          (.cons (.take 1 ⟨5, 1, 0, false⟩
              (fun _ member => absurd member List.not_mem_nil)
              List.mem_cons_self rfl)
            (.cons (@Step.fire _ _ [] [] ⟨5, 1, 0, false⟩ rfl)
              (.nil _))))), rfl, .erase 1,
      .cons (@Step.start _ _ [] [] ⟨5, 1, 0, false⟩ rfl) (.nil _),
      List.mem_cons_self⟩
  · refine ⟨_, _, .cons (.create ⟨2 ^ 64 - 1, 1, 0, false⟩ false rfl)
      (.cons (@Step.post _ _ [] [] ⟨2 ^ 64 - 1, 1, 0, false⟩ false rfl)
        (.nil _)), ?_, ?_⟩
    · decide
    · decide
  · -- All ids are handed out once, and the first one again.
    obtain ⟨labels, x, run, timer⟩ := @run_creates false
      { timer := ({ increaseId := 1 } : TC_TimerBase).post
          ⟨5, 1, 0, false⟩ false
        trace := ({} : System).record 1 fun _ =>
          { func := some ⟨5, 1, 0, false⟩ } }
      rfl (2 ^ 32 - 2) (by decide)
    have again : (1 : UInt32) = x.timer.genUniqueId := by
      rw [timer]
      decide
    refine ⟨_, _, .cons (.create ⟨5, 1, 0, false⟩ false rfl)
      (.cons (@Step.post _ _ [] [] ⟨5, 1, 0, false⟩ false rfl)
        (run.append (.cons (.create ⟨7, 1, 0, false⟩ false again)
          (.cons (@Step.post _ _ [] x.created ⟨7, 1, 0, false⟩ false rfl)
            (.nil _))))), ⟨5, 1, 0, false⟩, ?_, ?_⟩
    · simp only [timer]
      decide
    · simp only [timer]
      decide

end Ids

end TarsCpp.Timer
