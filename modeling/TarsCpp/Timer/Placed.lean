import Mathlib.Data.List.Perm.Subperm
import TarsCpp.Timer.Indexed

/-!
# Where an event is

An event is in one place at a time: it is going to be posted, it is in
`_mapEvent`, or its function is being executed.
-/

namespace TarsCpp.Timer

namespace System

variable (x : System)

/-- All events, wherever they are. -/
def funcs : List Func :=
  x.created.map Prod.fst ++ (x.timer.mapEvent ++ x.jobs.map Job.func)

def live : List UInt32 := x.funcs.map Func.uniqueId

end System

/-- Ids are not handed out again while they belong to an event, and times are
not so large that they are negative in `_nextTimer`. -/
def Admissible (x : System) : Label → Prop
  | .create event _ => event.uniqueId ∉ x.live ∧ event.uniqueId ∉ x.el ∧
      event.fireMillseconds < 2 ^ 63
  | .repost _ ms => ms < 2 ^ 63
  | _ => True

structure Placed (x : System) : Prop where
  indexed : x.timer.Indexed x.el
  live : x.live.Nodup
  looked : ∀ uniqId ∈ x.el, uniqId ∉ x.created.map (·.1.uniqueId) ∧
    uniqId ∉ x.jobs.map (·.func.uniqueId)
  small : ∀ entry ∈ x.created, entry.1.fireMillseconds < 2 ^ 63
  elapsed : ∀ event ∈ x.timer.mapEvent, event.uniqueId ∈ x.el →
    event.fireMillseconds ≤ x.clock
  begun : ∀ job ∈ x.jobs, job.func.fireMillseconds ≤ x.clock
  repeats : ∀ job ∈ x.jobs, job.stage ∈ [Stage.released, .passed] →
    ¬ job.func.Once

section Steps

variable {x y : System} {inline_ : Bool}

theorem placed_new : Placed {} := by
  refine ⟨.new, ?_, ?_, ?_, ?_, ?_, ?_⟩ <;> simp [System.live, System.funcs]

theorem created_ids {before behind : List (Func × Bool)} {event : Func}
    {repeat_ : Bool}
    (waits : x.created = before ++ (event, repeat_) :: behind) :
    x.funcs.Perm (event ::
      ((before ++ behind).map Prod.fst ++
        (x.timer.mapEvent ++ x.jobs.map Job.func))) := by
  rw [System.funcs, waits]
  simp only [List.map_append, List.map_cons, List.append_assoc,
    List.cons_append]
  exact List.perm_middle

theorem job_ids {before behind : List Job} {event : Func} {stage : Stage}
    (job : x.jobs = before ++ ⟨event, stage⟩ :: behind) :
    x.funcs.Perm (event :: (x.created.map Prod.fst ++
      (x.timer.mapEvent ++ (before ++ behind).map Job.func))) := by
  rw [System.funcs, job]
  simp only [List.map_append, List.map_cons]
  rw [← List.append_assoc, ← List.append_assoc]
  refine List.perm_middle.trans ?_
  simp only [List.append_assoc]
  exact List.Perm.refl _

theorem eraseEvent_perm {t : TC_TimerBase} {event : Func}
    (unique : (t.mapEvent.map Func.uniqueId).Nodup)
    (present : event ∈ t.mapEvent) :
    t.mapEvent.Perm (event :: (t.eraseEvent event.uniqueId).mapEvent) := by
  obtain ⟨before, behind, split⟩ := List.append_of_mem present
  rw [split, List.map_append, List.map_cons] at unique
  have apart := (List.nodup_cons.mp (List.nodup_middle.mp unique)).1
  rw [← List.map_append] at apart
  have others : ∀ other ∈ before ++ behind,
      other.uniqueId ≠ event.uniqueId := by
    intro other member same
    exact apart (List.mem_map.mpr ⟨other, member, same⟩)
  have rest : (t.eraseEvent event.uniqueId).mapEvent = before ++ behind := by
    rw [TC_TimerBase.eraseEvent, split, List.filter_append,
      List.filter_cons_of_neg (by simp), ← List.filter_append,
      List.filter_eq_self]
    exact fun other member => by simpa using others other member
  rw [rest, split]
  exact List.perm_middle

theorem mapEvent_erase_sublist (t : TC_TimerBase) (uniqId : UInt32) :
    (t.erase uniqId).mapEvent.Sublist t.mapEvent := by
  unfold TC_TimerBase.erase
  cases found : t.findEvent uniqId with
  | none => exact List.Sublist.refl _
  | some event => exact List.filter_sublist

/-- The event goes from `_mapEvent` to the jobs. -/
theorem taken_ids {event : Func} (indexed : x.timer.Indexed x.el)
    (present : event ∈ x.timer.mapEvent) :
    x.funcs.Perm (x.created.map Prod.fst ++
      ((x.timer.eraseEvent event.uniqueId).mapEvent ++
        event :: x.jobs.map Job.func)) := by
  rw [System.funcs]
  refine List.Perm.append_left _ ?_
  refine ((eraseEvent_perm indexed.events present).append_right _).trans ?_
  exact List.perm_middle.symm

/-- A job goes on, or it ends. -/
theorem job_sublist {before behind after : List Job} {event : Func}
    {stage : Stage} (job : x.jobs = before ++ ⟨event, stage⟩ :: behind)
    (stage' : Stage)
    (result : after = before ++ ⟨event, stage'⟩ :: behind ∨
      after = before ++ behind) :
    (after.map Job.func).Sublist (x.jobs.map Job.func) := by
  rw [job]
  rcases result with rfl | rfl
  · simp
  · simp

/-- Only an event that is not a single one gets so far as to be posted
again. -/
theorem Placed.job_repeats {before behind after : List Job} {event : Func}
    {stage : Stage} (placed : Placed x)
    (job : x.jobs = before ++ ⟨event, stage⟩ :: behind) (stage' : Stage)
    (result : after = before ++ ⟨event, stage'⟩ :: behind ∨
      after = before ++ behind)
    (far : stage' ∈ [Stage.released, .passed] → ¬ event.Once) :
    ∀ job ∈ after, job.stage ∈ [Stage.released, .passed] →
      ¬ job.func.Once := by
  have others : ∀ job ∈ before ++ behind,
      job.stage ∈ [Stage.released, .passed] → ¬ job.func.Once := by
    intro other member
    refine placed.repeats other ?_
    rw [job]
    rcases List.mem_append.mp member with first | second
    · exact List.mem_append_left _ first
    · exact List.mem_append_right _ (List.mem_cons_of_mem _ second)
  rcases result with rfl | rfl
  · intro other member stage
    rcases List.mem_append.mp member with first | second
    · exact others other (List.mem_append_left _ first) stage
    · rcases List.mem_cons.mp second with rfl | second
      · exact far stage
      · exact others other (List.mem_append_right _ second) stage
  · exact others

/-- Only the stages of the jobs change, or jobs end. -/
theorem Placed.jobs (placed : Placed x) (created : y.created = x.created)
    (el : y.el = x.el) (clock : y.clock = x.clock)
    (events : y.timer.mapEvent = x.timer.mapEvent)
    (times : y.timer.mapTimer = x.timer.mapTimer)
    (next : y.timer.nextTimer = x.timer.nextTimer)
    (sublist : (y.jobs.map Job.func).Sublist (x.jobs.map Job.func))
    (repeats : ∀ job ∈ y.jobs, job.stage ∈ [Stage.released, .passed] →
      ¬ job.func.Once) : Placed y := by
  have ids : (y.jobs.map (·.func.uniqueId)).Sublist
      (x.jobs.map (·.func.uniqueId)) := by
    have mapped := sublist.map Func.uniqueId
    rwa [List.map_map, List.map_map] at mapped
  have live : y.live.Sublist x.live := by
    rw [System.live, System.funcs, created, events, System.live, System.funcs]
    exact ((List.Sublist.refl _).append
      ((List.Sublist.refl _).append sublist)).map _
  refine ⟨?_, placed.live.sublist live, ?_, ?_, ?_, ?_, repeats⟩
  · rw [el]
    exact placed.indexed.congr events times next
  · rw [el, created]
    intro uniqId member
    obtain ⟨first, second⟩ := placed.looked uniqId member
    exact ⟨first, fun among => second (ids.subset among)⟩
  · rw [created]
    exact placed.small
  · rw [events, el, clock]
    exact placed.elapsed
  · intro job member
    obtain ⟨job', member', same⟩ := List.mem_map.mp
      (sublist.subset (List.mem_map_of_mem member))
    rw [clock, ← same]
    exact placed.begun job' member'

/-- The event that is posted is in no other place. -/
theorem Placed.posted {event : Func} {repeat_ : Bool} (placed : Placed x)
    (timer : y.timer = x.timer.post event repeat_)
    (unknown : event.uniqueId ∉ x.timer.mapEvent.map Func.uniqueId)
    (outside : event.uniqueId ∉ x.el) (small : event.fireMillseconds < 2 ^ 63)
    (el : y.el = x.el) (clock : y.clock = x.clock)
    (created : y.created.Sublist x.created) (jobs : y.jobs.Sublist x.jobs)
    (live : y.live.Nodup) : Placed y := by
  have events : y.timer.mapEvent = event :: x.timer.mapEvent := by
    rw [timer, placed.indexed.post_eq repeat_ unknown]
  refine ⟨?_, live, ?_, ?_, ?_, ?_, ?_⟩
  · rw [timer, el]
    exact placed.indexed.post repeat_ unknown outside small
  · rw [el]
    intro uniqId member
    obtain ⟨first, second⟩ := placed.looked uniqId member
    exact ⟨fun among => first ((created.map _).subset among),
      fun among => second ((jobs.map _).subset among)⟩
  · exact fun entry member => placed.small entry (created.subset member)
  · rw [events, el, clock]
    intro event' member among
    rcases List.mem_cons.mp member with rfl | present
    · exact absurd among outside
    · exact placed.elapsed event' present among
  · rw [clock]
    exact fun job member => placed.begun job (jobs.subset member)
  · exact fun job member => placed.repeats job (jobs.subset member)

section Jobs

variable {before behind : List Job} {event : Func} {stage : Stage}

theorem Placed.job_unknown (placed : Placed x)
    (job : x.jobs = before ++ ⟨event, stage⟩ :: behind) :
    event.uniqueId ∉ x.timer.mapEvent.map Func.uniqueId := by
  have nodup := ((job_ids job).map Func.uniqueId).nodup_iff.mp placed.live
  intro member
  refine (List.nodup_cons.mp nodup).1 ?_
  simp only [List.map_append, List.mem_append]
  exact .inr (.inl member)

theorem Placed.job_outside (placed : Placed x)
    (job : x.jobs = before ++ ⟨event, stage⟩ :: behind) :
    event.uniqueId ∉ x.el := by
  intro member
  refine (placed.looked _ member).2 ?_
  rw [job]
  simp

end Jobs

section Posting

variable {before behind : List (Func × Bool)} {event : Func} {repeat_ : Bool}

theorem Placed.created_unknown (placed : Placed x)
    (waits : x.created = before ++ (event, repeat_) :: behind) :
    event.uniqueId ∉ x.timer.mapEvent.map Func.uniqueId := by
  have nodup := ((created_ids waits).map Func.uniqueId).nodup_iff.mp
    placed.live
  intro member
  refine (List.nodup_cons.mp nodup).1 ?_
  simp only [List.map_append, List.mem_append]
  exact .inr (.inl member)

theorem Placed.created_outside (placed : Placed x)
    (waits : x.created = before ++ (event, repeat_) :: behind) :
    event.uniqueId ∉ x.el := by
  intro member
  refine (placed.looked _ member).1 ?_
  rw [waits]
  simp

end Posting

/-- What is listed under the ids that are due. -/
theorem mem_getEvents {t : TC_TimerBase} {TNOWMS : Nat → Nat}
    {uniqId : UInt32} : uniqId ∈ (t.getEvents TNOWMS).1 ↔
      ∃ ms, (ms, uniqId) ∈ t.due TNOWMS := by
  simp [TC_TimerBase.getEvents]

theorem mem_mapTimer_of_due {t : TC_TimerBase} {TNOWMS : Nat → Nat}
    {it : Nat × UInt32} (member : it ∈ t.due TNOWMS) :
    it ∈ t.mapTimer ∧ it.1 ≤ TNOWMS it.1 :=
  ⟨(List.takeWhile_sublist _).subset member,
    of_decide_eq_true (List.all_eq_true.mp List.all_takeWhile it member)⟩

theorem Placed.step (placed : Placed x) {label : Label}
    (admissible : Admissible x label) (step : Step inline_ x label y) :
    Placed y := by
  have live := placed.live
  rw [System.live] at live
  cases step with
  | wait now later =>
      refine ⟨placed.indexed, placed.live, placed.looked, placed.small, ?_, ?_,
        placed.repeats⟩
      · exact fun event present among =>
          (placed.elapsed event present among).trans later
      · exact fun job member => (placed.begun job member).trans later
  | create event repeat_ generated =>
      obtain ⟨fresh, outside, small⟩ := admissible
      refine ⟨placed.indexed.congr rfl rfl rfl, ?_, ?_, ?_, placed.elapsed,
        placed.begun, placed.repeats⟩
      · exact List.nodup_cons.mpr ⟨fresh, placed.live⟩
      · intro uniqId member
        obtain ⟨first, second⟩ := placed.looked uniqId member
        refine ⟨?_, second⟩
        intro among
        rcases List.mem_cons.mp among with here | old
        · exact outside (Eq.subst here member)
        · exact first old
      · intro entry member
        rcases List.mem_cons.mp member with rfl | old
        · exact small
        · exact placed.small entry old
  | @post before behind event repeat_ waits =>
      have perm := created_ids waits
      have entry : (event, repeat_) ∈ x.created := by
        rw [waits]
        simp
      have unknown := placed.created_unknown waits
      have outside := placed.created_outside waits
      refine placed.posted rfl unknown outside (placed.small _ entry) rfl rfl ?_
        (List.Sublist.refl _) ?_
      · rw [waits]
        exact (List.Sublist.refl _).append (List.sublist_cons_self _ _)
      · refine (List.Perm.map Func.uniqueId ?_).nodup_iff.mp live
        refine perm.trans ?_
        rw [System.funcs, placed.indexed.post_eq repeat_ unknown]
        exact List.perm_middle.symm
  | erase uniqId =>
      have shorter := mapEvent_erase_sublist x.timer uniqId
      refine ⟨placed.indexed.erase uniqId, ?_, placed.looked, placed.small, ?_,
        placed.begun, placed.repeats⟩
      · refine live.sublist (List.Sublist.map _ ?_)
        exact (List.Sublist.refl _).append
          (shorter.append (List.Sublist.refl _))
      · exact fun event member among =>
          placed.elapsed event (shorter.subset member) among
  | clear =>
      refine ⟨.clear, ?_, placed.looked, placed.small, ?_, placed.begun,
        placed.repeats⟩
      · refine live.sublist (List.Sublist.map _ ?_)
        exact (List.Sublist.refl _).append
          ((List.nil_sublist _).append (List.Sublist.refl _))
      · exact fun event member => absurd member List.not_mem_nil
  | getEvents TNOWMS now ready finished times =>
      have clock : x.clock ≤ now := (times 0).1.trans (times 0).2
      have indexed := placed.indexed
      rw [finished] at indexed
      refine ⟨indexed.getEvents TNOWMS, placed.live, ?_, placed.small, ?_, ?_,
        placed.repeats⟩
      · intro uniqId member
        obtain ⟨ms, due⟩ := mem_getEvents.mp member
        obtain ⟨-, event, present, rfl, -⟩ :=
          (indexed.listed _ _).mp (mem_mapTimer_of_due due).1
        rw [System.funcs, List.map_append, List.map_append,
          List.nodup_append', List.nodup_append'] at live
        obtain ⟨-, ⟨-, -, apart⟩, apart'⟩ := live
        have here := List.mem_map_of_mem (f := Func.uniqueId) present
        constructor
        · intro among
          rw [List.map_map] at apart'
          exact apart' among (List.mem_append_left _ here)
        · intro among
          rw [List.map_map] at apart
          exact apart here among
      · intro event present among
        obtain ⟨ms, due⟩ := mem_getEvents.mp among
        obtain ⟨member, early⟩ := mem_mapTimer_of_due due
        obtain ⟨-, event', present', same, time⟩ :=
          (indexed.listed _ _).mp member
        obtain rfl : event' = event :=
          List.inj_on_of_nodup_map indexed.events present' present same
        have upper := (times ms).2
        rw [time]
        exact early.trans upper
      · exact fun job member => (placed.begun job member).trans clock
  | skip uniqId ready member gone =>
      refine ⟨placed.indexed.skip gone, placed.live, ?_, placed.small, ?_,
        placed.begun, placed.repeats⟩
      · exact fun other among =>
          placed.looked other (List.mem_of_mem_filter among)
      · exact fun event present among =>
          placed.elapsed event present (List.mem_of_mem_filter among)
  | take uniqId event ready member found =>
      obtain ⟨present, rfl⟩ := TC_TimerBase.mem_of_findEvent found
      refine ⟨placed.indexed.take member, ?_, ?_, placed.small, ?_, ?_, ?_⟩
      · exact ((taken_ids placed.indexed present).map
          Func.uniqueId).nodup_iff.mp live
      · intro other among
        obtain ⟨among, apart⟩ := List.mem_filter.mp among
        obtain ⟨first, second⟩ := placed.looked other among
        refine ⟨first, ?_⟩
        intro inside
        rcases List.mem_cons.mp inside with here | old
        · simp [here] at apart
        · exact second old
      · intro event' present' among
        exact placed.elapsed event'
          (TC_TimerBase.mem_eraseEvent.mp present').1
          (List.mem_of_mem_filter among)
      · intro job inside
        rcases List.mem_cons.mp inside with rfl | old
        · exact placed.elapsed event present member
        · exact placed.begun job old
      · intro job inside stage
        rcases List.mem_cons.mp inside with rfl | old
        · simp at stage
        · exact placed.repeats job old stage
  | @fire before behind event job =>
      exact placed.jobs rfl rfl rfl rfl rfl rfl
        (job_sublist job .queued (.inl rfl))
        (placed.job_repeats job .queued (.inl rfl) (by simp))
  | @start before behind event job =>
      exact placed.jobs rfl rfl rfl rfl rfl rfl
        (job_sublist job .running (.inl rfl))
        (placed.job_repeats job .running (.inl rfl) (by simp))
  | @finish before behind event job =>
      exact placed.jobs rfl rfl rfl rfl rfl rfl
        (job_sublist job .ran (.inl rfl))
        (placed.job_repeats job .ran (.inl rfl) (by simp))
  | @release before behind event job =>
      by_cases done : event.Once ∨ event.uniqueId ∉ x.timer.tmpEvent
      · exact placed.jobs rfl rfl rfl rfl rfl rfl
          (job_sublist job .ran (.inr (if_pos done)))
          (placed.job_repeats job .ran (.inr (if_pos done)) (by simp))
      · exact placed.jobs rfl rfl rfl rfl rfl rfl
          (job_sublist job .released (.inl (if_neg done)))
          (placed.job_repeats job .released (.inl (if_neg done))
            fun _ single => done (.inl single))
  | @exist before behind event job =>
      have far : ¬ event.Once := by
        refine placed.repeats ⟨event, .released⟩ ?_ (by simp)
        rw [job]
        simp
      by_cases again : x.timer.exist event.uniqueId ∧
          (event.isset ∨ event.repeatTime > 0)
      · exact placed.jobs rfl rfl rfl rfl rfl rfl
          (job_sublist job .passed (.inl (if_pos again)))
          (placed.job_repeats job .passed (.inl (if_pos again)) fun _ => far)
      · exact placed.jobs rfl rfl rfl rfl rfl rfl
          (job_sublist job .passed (.inr (if_neg again)))
          (placed.job_repeats job .passed (.inr (if_neg again)) fun _ => far)
  | @repost before behind event ms job =>
      have nodup := ((job_ids job).map Func.uniqueId).nodup_iff.mp live
      have unknown := placed.job_unknown job
      have outside := placed.job_outside job
      refine @Placed.posted x _ { event with fireMillseconds := ms } false
        placed rfl unknown outside admissible rfl rfl (List.Sublist.refl _)
        ?_ ?_
      · rw [job]
        exact (List.Sublist.refl _).append (List.sublist_cons_self _ _)
      · have posted := @TC_TimerBase.Indexed.post_eq _ _
          { event with fireMillseconds := ms } placed.indexed false unknown
        rw [System.live, System.funcs, posted]
        refine (List.Perm.nodup_iff ?_).mp nodup
        simp only [List.map_append, List.map_cons, List.cons_append]
        exact List.perm_middle.symm

end Steps

end TarsCpp.Timer
