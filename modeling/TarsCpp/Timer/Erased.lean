import TarsCpp.Timer.Counted

/-!
# After `getEvents` and `erase`

A single task that has been collected is on its way to be executed, and does
not wait in any table for long.  What an erased event can still start is what
has been taken out of `_mapEvent` before.
-/

namespace TarsCpp.Timer

open TransitionRun

section Collected

variable {x y : System} {inline_ : Bool} {event : Func} {label : Label}

/-- The event has been collected, and is looked up if it is not taken yet. -/
structure Collected (x : System) (event : Func) : Prop where
  created : event.uniqueId ∉ x.created.map (·.1.uniqueId)
  looked : event.uniqueId ∈ x.timer.mapEvent.map Func.uniqueId →
    event.uniqueId ∈ x.el
  func : (x.trace event.uniqueId).func = some event

/-- A single task is not posted again. -/
theorem Counted.job_apart {before behind : List Job} {other : Func}
    {stage : Stage} (counted : Counted x) (placed : Placed x)
    (collected : Collected x event) (single : event.Once)
    (job : x.jobs = before ++ ⟨other, stage⟩ :: behind)
    (far : stage ∈ [Stage.released, .passed]) :
    other.uniqueId ≠ event.uniqueId := by
  intro same
  have member : (⟨other, stage⟩ : Job) ∈ x.jobs := by
    rw [job]
    simp
  have repeated := placed.repeats _ member far
  obtain ⟨first, known, still⟩ := counted.known other
    (List.mem_append_right _ (List.mem_append_right _
      (List.mem_map_of_mem member)))
  rw [same, collected.func] at known
  injection known with known
  rcases still with rfl | ⟨still, -⟩
  · exact repeated (known ▸ single)
  · exact still (known ▸ single)

theorem Collected.step (placed : Placed x) (counted : Counted x)
    (collected : Collected x event) (single : event.Once)
    (fresh : ∀ other repeat_, label = .create other repeat_ →
      other.uniqueId ≠ event.uniqueId)
    (step : Step inline_ x label y) : Collected y event := by
  have func := collected.func
  cases step with
  | wait now later => exact ⟨collected.1, collected.2, collected.3⟩
  | create other repeat_ generated =>
      have apart := fresh other repeat_ rfl
      refine ⟨?_, collected.looked, ?_⟩
      · intro member
        rcases List.mem_cons.mp member with here | old
        · exact apart here.symm
        · exact collected.created old
      · simp only [record_apply, if_neg apart.symm]
        exact func
  | @post before behind other repeat_ waits =>
      have posted := placed.indexed.post_eq repeat_
        (placed.created_unknown waits)
      have apart : event.uniqueId ≠ other.uniqueId := by
        intro same
        refine collected.created ?_
        rw [waits, same]
        simp
      refine ⟨?_, ?_, func⟩
      · intro member
        refine collected.created ?_
        rw [waits]
        simp only [List.map_append, List.map_cons, List.mem_append,
          List.mem_cons] at member ⊢
        tauto
      · rw [posted]
        exact fun member => collected.looked
          ((List.mem_cons.mp member).resolve_left apart)
  | erase other =>
      refine ⟨collected.created, ?_, ?_⟩
      · exact fun member => collected.looked
          (((mapEvent_erase_sublist _ _).map _).subset member)
      · simp only [record_apply]
        split
        · exact func
        · exact func
  | clear =>
      exact ⟨collected.created, fun member => absurd member List.not_mem_nil,
        func⟩
  | getEvents TNOWMS now ready finished times =>
      refine ⟨collected.created, ?_, func⟩
      intro member
      have among := collected.looked member
      rw [finished] at among
      exact absurd among List.not_mem_nil
  | skip other ready member gone =>
      refine ⟨collected.created, ?_, func⟩
      intro present
      refine List.mem_filter.mpr ⟨collected.looked present, ?_⟩
      have apart : event.uniqueId ≠ other := by
        rintro rfl
        exact TC_TimerBase.findEvent_eq_none.mp gone present
      simpa using apart
  | take other taken ready member found =>
      obtain ⟨-, rfl⟩ := TC_TimerBase.mem_of_findEvent found
      refine ⟨collected.created, ?_, func⟩
      intro present
      obtain ⟨event', inside, same⟩ := List.mem_map.mp present
      obtain ⟨old, apart⟩ := TC_TimerBase.mem_eraseEvent.mp inside
      refine List.mem_filter.mpr
        ⟨collected.looked (List.mem_map.mpr ⟨event', old, same⟩), ?_⟩
      rw [same] at apart
      simpa using apart
  | @fire before behind other job =>
      exact ⟨collected.1, collected.2, func⟩
  | @start before behind other job =>
      refine ⟨collected.1, collected.2, ?_⟩
      simp only [record_apply]
      split
      · exact func
      · exact func
  | @finish before behind other job =>
      refine ⟨collected.1, collected.2, ?_⟩
      simp only [record_apply]
      split
      · exact func
      · exact func
  | @release before behind other job =>
      exact ⟨collected.1, collected.2, func⟩
  | @exist before behind other job =>
      exact ⟨collected.1, collected.2, func⟩
  | @repost before behind other ms job =>
      have unknown := placed.job_unknown job
      have posted := @TC_TimerBase.Indexed.post_eq _ _
        { other with fireMillseconds := ms } placed.indexed false unknown
      have apart := counted.job_apart placed collected single job (by simp)
      refine ⟨collected.created, ?_, func⟩
      rw [posted]
      exact fun member => collected.looked
        ((List.mem_cons.mp member).resolve_left apart.symm)

theorem Collected.run {labels : List Label}
    (run : Run (Guarded Admissible (Step inline_)) x labels y)
    (placed : Placed x) (counted : Counted x) (collected : Collected x event)
    (single : event.Once)
    (fresh : ∀ other repeat_, .create other repeat_ ∈ labels →
      other.uniqueId ≠ event.uniqueId) : Collected y event := by
  induction run with
  | nil state => exact collected
  | @cons first label middle labels last taken rest ih =>
      refine ih (placed.step taken.1 taken.2)
        (counted.step placed taken.1 taken.2) ?_ ?_
      · exact collected.step placed counted single (fun other repeat_ here =>
          fresh other repeat_ (here ▸ List.mem_cons_self)) taken.2
      · exact fun other repeat_ member =>
          fresh other repeat_ (List.mem_cons_of_mem _ member)

end Collected

section Erased

variable {x y : System} {inline_ : Bool} {uniqId : UInt32} {label : Label}

/-- Nothing leads back into `_mapEvent`. -/
structure Erased (x : System) (uniqId : UInt32) : Prop where
  created : uniqId ∉ x.created.map (·.1.uniqueId)
  events : uniqId ∉ x.timer.mapEvent.map Func.uniqueId
  repeats : uniqId ∉ x.timer.repeatIds
  jobs : ∀ job ∈ x.jobs, job.stage = .passed → job.func.uniqueId ≠ uniqId

theorem erased_of_erase
    (created : uniqId ∉ x.created.map (·.1.uniqueId))
    (jobs : ∀ job ∈ x.jobs, job.stage = .passed → job.func.uniqueId ≠ uniqId)
    (step : Step inline_ x (.erase uniqId) y) : Erased y uniqId := by
  cases step
  refine ⟨created, ?_, ?_, jobs⟩
  · intro member
    obtain ⟨event, present, same⟩ := List.mem_map.mp member
    unfold TC_TimerBase.erase at present
    cases found : x.timer.findEvent uniqId with
    | none =>
        simp only [found] at present
        exact TC_TimerBase.findEvent_eq_none.mp found
          (List.mem_map.mpr ⟨event, present, same⟩)
    | some event' =>
        simp only [found] at present
        exact (TC_TimerBase.mem_eraseEvent.mp present).2 same
  · unfold TC_TimerBase.erase
    simp

/-- A job goes on or ends, and does not get as far as to be posted again. -/
theorem Erased.job {before behind after : List Job} {event : Func}
    {stage : Stage} (erased : Erased x uniqId)
    (job : x.jobs = before ++ ⟨event, stage⟩ :: behind) (stage' : Stage)
    (result : after = before ++ ⟨event, stage'⟩ :: behind ∨
      after = before ++ behind)
    (created : y.created = x.created)
    (events : y.timer.mapEvent = x.timer.mapEvent)
    (repeats : y.timer.repeatIds = x.timer.repeatIds) (jobs : y.jobs = after)
    (passed : stage' = .passed → event.uniqueId ≠ uniqId) :
    Erased y uniqId := by
  have others : ∀ job ∈ before ++ behind, job.stage = .passed →
      job.func.uniqueId ≠ uniqId := by
    intro other member
    refine erased.jobs other ?_
    rw [job]
    exact ((List.sublist_cons_self _ _).append_left _).subset member
  refine ⟨?_, ?_, ?_, ?_⟩
  · rw [created]
    exact erased.created
  · rw [events]
    exact erased.events
  · rw [repeats]
    exact erased.repeats
  · rw [jobs]
    rcases result with rfl | rfl
    · intro other member
      rcases List.mem_cons.mp (List.perm_middle.subset member) with rfl | old
      · exact passed
      · exact others other old
    · exact others

theorem repeatIds_erase (t : TC_TimerBase) (other : UInt32) :
    (t.erase other).repeatIds = t.repeatIds.filter (· ≠ other) := by
  unfold TC_TimerBase.erase
  cases t.findEvent other <;> rfl

/-- A start uses up an event that was taken before, and nothing else is
taken. -/
theorem Erased.step (placed : Placed x) (erased : Erased x uniqId)
    (fresh : ∀ event repeat_, label = .create event repeat_ →
      event.uniqueId ≠ uniqId)
    (step : Step inline_ x label y) :
    Erased y uniqId ∧
      (if label = .start uniqId then 1 else 0) +
        atStages y.jobs [.taken, .queued] uniqId ≤
          atStages x.jobs [.taken, .queued] uniqId := by
  cases step with
  | wait now later => exact ⟨⟨erased.1, erased.2, erased.3, erased.4⟩, by simp⟩
  | create event repeat_ generated =>
      refine ⟨⟨?_, erased.events, erased.repeats, erased.jobs⟩, by simp⟩
      intro member
      rcases List.mem_cons.mp member with here | old
      · exact fresh event repeat_ rfl here.symm
      · exact erased.created old
  | @post before behind event repeat_ waits =>
      have posted := placed.indexed.post_eq repeat_
        (placed.created_unknown waits)
      have apart : uniqId ≠ event.uniqueId := by
        rintro rfl
        refine erased.created ?_
        rw [waits]
        simp
      refine ⟨⟨?_, ?_, ?_, erased.jobs⟩, by simp⟩
      · intro member
        refine erased.created ?_
        rw [waits]
        simp only [List.map_append, List.map_cons, List.mem_append,
          List.mem_cons] at member ⊢
        tauto
      · rw [posted]
        exact fun member => (List.mem_cons.mp member).elim apart erased.events
      · rw [posted]
        have old := erased.repeats
        cases repeat_ <;> simp [apart, old]
  | erase other =>
      refine ⟨⟨erased.created, ?_, ?_, erased.jobs⟩, by simp⟩
      · exact fun member => erased.events
          (((mapEvent_erase_sublist _ _).map _).subset member)
      · intro member
        rw [repeatIds_erase] at member
        exact erased.repeats (List.mem_of_mem_filter member)
  | clear =>
      exact ⟨⟨erased.created, List.not_mem_nil, List.not_mem_nil,
        erased.jobs⟩, by simp⟩
  | getEvents TNOWMS now ready finished times =>
      exact ⟨⟨erased.1, erased.2, erased.3, erased.4⟩, by simp⟩
  | skip other ready member gone =>
      exact ⟨⟨erased.1, erased.2, erased.3, erased.4⟩, by simp⟩
  | take other event ready member found =>
      obtain ⟨present, rfl⟩ := TC_TimerBase.mem_of_findEvent found
      have apart : event.uniqueId ≠ uniqId := by
        rintro rfl
        exact erased.events (List.mem_map_of_mem present)
      refine ⟨⟨erased.created, ?_, erased.repeats, ?_⟩, ?_⟩
      · exact fun member => erased.events
          ((List.filter_sublist.map _).subset member)
      · intro job member stage
        rcases List.mem_cons.mp member with rfl | old
        · exact apart
        · exact erased.jobs job old stage
      · simp [atStages, apart]
  | @fire before behind event job =>
      refine ⟨erased.job job .queued (.inl rfl) rfl rfl rfl rfl (by simp), ?_⟩
      simp [job, atStages_middle]
  | @start before behind event job =>
      refine ⟨erased.job job .running (.inl rfl) rfl rfl rfl rfl (by simp), ?_⟩
      simp [job, atStages_middle]
      omega
  | @finish before behind event job =>
      refine ⟨erased.job job .ran (.inl rfl) rfl rfl rfl rfl (by simp), ?_⟩
      simp [job, atStages_middle]
  | @release before behind event job =>
      have same : atStages x.jobs [.taken, .queued] uniqId =
          atStages (before ++ behind) [.taken, .queued] uniqId := by
        simp [job, atStages_middle]
      by_cases done : event.Once ∨ event.uniqueId ∉ x.timer.tmpEvent
      · refine ⟨erased.job job .ran (.inr (if_pos done)) rfl rfl rfl rfl
          (by simp), ?_⟩
        simp [same, done]
      · refine ⟨erased.job job .released (.inl (if_neg done)) rfl rfl rfl rfl
          (by simp), ?_⟩
        simp [same, done, atStages_middle]
  | @exist before behind event job =>
      have same : atStages x.jobs [.taken, .queued] uniqId =
          atStages (before ++ behind) [.taken, .queued] uniqId := by
        simp [job, atStages_middle]
      by_cases again : x.timer.exist event.uniqueId ∧
          (event.isset ∨ event.repeatTime > 0)
      · have apart : event.uniqueId ≠ uniqId := by
          rintro rfl
          exact erased.repeats (of_decide_eq_true again.1)
        refine ⟨erased.job job .passed (.inl (if_pos again)) rfl rfl rfl rfl
          fun _ => apart, ?_⟩
        simp [same, again, atStages_middle]
      · refine ⟨erased.job job .ran (.inr (if_neg again)) rfl rfl rfl rfl
          (by simp), ?_⟩
        simp [same, again]
  | @repost before behind event ms job =>
      have unknown := placed.job_unknown job
      have posted := @TC_TimerBase.Indexed.post_eq _ _
        { event with fireMillseconds := ms } placed.indexed false unknown
      have apart : event.uniqueId ≠ uniqId := by
        refine erased.jobs ⟨event, .passed⟩ ?_ rfl
        rw [job]
        simp
      refine ⟨⟨erased.created, ?_, ?_, ?_⟩, ?_⟩
      · rw [posted]
        intro member
        rcases List.mem_cons.mp member with here | old
        · exact apart here.symm
        · exact erased.events old
      · rw [posted]
        exact erased.repeats
      · intro other member
        refine erased.jobs other ?_
        rw [job]
        exact ((List.sublist_cons_self _ _).append_left _).subset member
      · simp [job, atStages_middle]

theorem Erased.starts {labels : List Label}
    (run : Run (Guarded Admissible (Step inline_)) x labels y)
    (placed : Placed x) (erased : Erased x uniqId)
    (fresh : ∀ event repeat_, .create event repeat_ ∈ labels →
      event.uniqueId ≠ uniqId) :
    labels.count (.start uniqId) ≤
      atStages x.jobs [.taken, .queued] uniqId := by
  induction run with
  | nil state => exact Nat.zero_le _
  | @cons first label middle labels last taken rest ih =>
      obtain ⟨erased', used⟩ := erased.step placed
        (fun event repeat_ here =>
          fresh event repeat_ (here ▸ List.mem_cons_self)) taken.2
      have later := ih (placed.step taken.1 taken.2) erased'
        fun event repeat_ member =>
          fresh event repeat_ (List.mem_cons_of_mem _ member)
      rw [List.count_cons]
      simp only [beq_iff_eq]
      omega

/-- One event with the id is executed at a time. -/
theorem Placed.atStages_le (placed : Placed x) (stages : List Stage) :
    atStages x.jobs stages uniqId ≤ 1 := by
  have nodup : (x.jobs.map (·.func.uniqueId)).Nodup := by
    have live := placed.live
    rw [System.live, System.funcs, List.map_append, List.map_append,
      List.nodup_append', List.nodup_append'] at live
    have nodup := live.2.1.2.1
    rwa [List.map_map] at nodup
  calc atStages x.jobs stages uniqId
      ≤ x.jobs.countP (·.func.uniqueId = uniqId) := by
        refine List.countP_mono_left fun job _ both => ?_
        simp only [decide_eq_true_eq] at both ⊢
        exact both.2
    _ = (x.jobs.map (·.func.uniqueId)).count uniqId := by
        rw [List.count, List.countP_map]
        refine List.countP_congr fun job _ => ?_
        simp
    _ ≤ 1 := List.nodup_iff_count_le_one.mp nodup uniqId

end Erased

end TarsCpp.Timer
