import TarsCpp.TransitionRun
import TarsCpp.Coroutine.Accounts

/-!
# Runs of the scheduler

No assertion fails in a run in which every `put` belongs to one `yield(false)`,
and every `put` resumes its coroutine once: what is put is in the queue or in
`_active` until the coroutine runs, and `_active` is served in its order.
-/

namespace TarsCpp.Coroutine

open NetworkBuffer TC_CoroutineScheduler TransitionRun

namespace TC_CoroutineScheduler

/-- The coroutines of `_active` that have not been taken out to run. -/
def line (s : TC_CoroutineScheduler) : List UInt32 :=
  (s.lists .active).filter (· ≠ s.currentCoro)

/-- The loop takes the first of the line; others are added at its end. -/
def Advances (s : TC_CoroutineScheduler) (event : Event)
    (t : TC_CoroutineScheduler) : Prop :=
  if event = .runActive then s.line = t.currentCoro :: t.line
  else ∃ more, t.line = s.line ++ more

end TC_CoroutineScheduler

section Performs

variable {x : System} {t u : TC_CoroutineScheduler} {event : Event}

/-- The line of a scheduler with the same active coroutines. -/
theorem advances_same (other : event ≠ .runActive)
    (lists : t.lists .active = x.scheduler.lists .active)
    (currentCoro : t.currentCoro = x.scheduler.currentCoro) :
    Advances x.scheduler event t := by
  rw [Advances, if_neg other]
  refine ⟨[], ?_⟩
  rw [line, lists, currentCoro, List.append_nil, line]

variable (accounted : Accounted x)

include accounted

theorem Accounted.zero_not_mem (head : Head) :
    0 ∉ x.scheduler.lists head := by
  intro member
  obtain ⟨status, now, -⟩ := (accounted.linked.listed head 0).mp member
  rw [accounted.uncreated_zero] at now
  cases now

theorem Accounted.line_idle (idle : x.scheduler.currentCoro = 0) :
    x.scheduler.line = x.scheduler.lists .active := by
  rw [line, idle, List.filter_eq_self]
  intro iId member
  have some_ : iId ≠ 0 := by
    rintro rfl
    exact accounted.zero_not_mem .active member
  simpa using some_

/-- What the loop finds in a list can be relied on. -/
theorem Accounted.of_first {head : Head} {iId : UInt32} {rest : List UInt32}
    {status : CORO_STATUS} (named : status.head = head)
    (first : x.scheduler.lists head = iId :: rest) :
    x.scheduler.coro iId = some status := by
  have member : iId ∈ x.scheduler.lists head := by
    rw [first]
    exact List.mem_cons_self
  obtain ⟨found, now, here⟩ := (accounted.linked.listed head iId).mp member
  rwa [CORO_STATUS.head_injective (here.trans named.symm)] at now

theorem Accounted.go : ∃ t, x.scheduler.perform .go = .ok t ∧
    Accounted ⟨t, x.ledger⟩ ∧ Advances x.scheduler .go t := by
  obtain ⟨answer, t, ran, linked, grown | ⟨u, grown, was, rfl⟩⟩ :=
    go_linked accounted.linked accounted.idle
  · refine ⟨t, ?_, accounted.grown linked grown, ?_⟩
    · rw [perform, ran]
      rfl
    · exact advances_same (by decide) (grown.lists _ (by decide))
        grown.currentCoro
  · refine ⟨u.started answer, ?_, accounted.started grown was linked, ?_⟩
    · rw [perform, ran]
      rfl
    · refine advances_same (by decide) ?_ grown.currentCoro
      have elsewhere : answer ∉ u.lists .active := by
        rw [grown.lists _ (by decide)]
        intro member
        obtain ⟨status, now, here⟩ :=
          (accounted.linked.listed .active answer).mp member
        obtain rfl : status = .CORO_ACTIVE := CORO_STATUS.head_injective here
        rw [← grown.statuses answer _ (by decide), was] at now
        cases now
      have lists : (u.started answer).lists .active =
          (u.lists .active).erase answer :=
        (lists_relink .CORO_AVAIL .active).trans (if_neg (by decide))
      rw [lists, List.erase_of_not_mem elsewhere, grown.lists _ (by decide)]

/-- The move of the running coroutine to another list, and the switch to the
main coroutine. -/
def suspended (s : TC_CoroutineScheduler) (status : CORO_STATUS) :
    TC_CoroutineScheduler :=
  (s.relink s.currentCoro status).switchCoro 0

omit accounted in
theorem coro_suspended {s : TC_CoroutineScheduler} {old : CORO_STATUS}
    (status : CORO_STATUS) (was : s.coro s.currentCoro = some old)
    (iId : UInt32) : (suspended s status).coro iId =
      if iId = s.currentCoro then some status else s.coro iId :=
  coro_relink status was iId

/-- Whoever suspends itself was not in the line any more. -/
theorem Accounted.advances_suspended {s : TC_CoroutineScheduler}
    {status : CORO_STATUS} (other : event ≠ .runActive)
    (lists : s.lists = x.scheduler.lists)
    (currentCoro : s.currentCoro = x.scheduler.currentCoro)
    (leaves : status ≠ .CORO_ACTIVE) :
    Advances x.scheduler event (suspended s status) := by
  have elsewhere : Head.active ≠ status.head := fun same =>
    leaves (CORO_STATUS.head_injective same.symm)
  have active : (suspended s status).lists .active =
      (x.scheduler.lists .active).erase x.scheduler.currentCoro := by
    rw [← lists, ← currentCoro]
    exact (lists_relink status .active).trans (if_neg elsewhere)
  have idle : (suspended s status).currentCoro = 0 := rfl
  rw [Advances, if_neg other]
  refine ⟨[], ?_⟩
  rw [line, active, idle, List.append_nil, line,
    (accounted.linked.nodup .active).erase_eq_filter, List.filter_filter]
  refine List.filter_congr fun iId member => ?_
  have some_ : iId ≠ 0 := by
    rintro rfl
    exact accounted.zero_not_mem .active member
  by_cases same : iId = x.scheduler.currentCoro
  · simp [same]
  · simp [some_, same]

section Suspends

variable (some_ : x.scheduler.currentCoro ≠ 0)

include some_

theorem Accounted.yield (bFlag : Bool)
    (disciplined : Disciplined x (.yield bFlag)) :
    ∃ t, x.scheduler.perform (.yield bFlag) = .ok t ∧
      Accounted ⟨t, x.ledger.record x.scheduler (.yield bFlag)⟩ ∧
      Advances x.scheduler (.yield bFlag) t := by
  obtain ⟨old, allowed, was⟩ := accounted.status some_
  have old_used : old ≠ .CORO_FREE := by
    rintro rfl
    simp at allowed
  let s := if bFlag then { x.scheduler with needActiveCoroId :=
      x.scheduler.needActiveCoroId ++ [x.scheduler.currentCoro] }
    else x.scheduler
  have coro : s.coro = x.scheduler.coro := by
    cases bFlag <;> rfl
  have lists : s.lists = x.scheduler.lists := by
    cases bFlag <;> rfl
  have currentCoro : s.currentCoro = x.scheduler.currentCoro := by
    cases bFlag <;> rfl
  have kept : s.Linked := by
    cases bFlag <;> exact accounted.linked.congr rfl rfl rfl rfl rfl rfl
  have was' : s.coro s.currentCoro = some old := by
    rw [coro, currentCoro, was]
  have linked : (suspended s .CORO_INACTIVE).Linked :=
    (kept.relink was' old_used (by decide)).congr rfl rfl rfl rfl rfl rfl
  have statuses : ∀ iId, (suspended s .CORO_INACTIVE).coro iId =
      if iId = x.scheduler.currentCoro then some .CORO_INACTIVE
      else x.scheduler.coro iId := by
    intro iId
    rw [coro_suspended _ was', coro, currentCoro]
  refine ⟨suspended s .CORO_INACTIVE, ?_, ?_,
    accounted.advances_suspended (by simp) lists currentCoro (by decide)⟩
  · have moved : s.moveToInactive s.currentCoro =
        .ok (s.relink s.currentCoro .CORO_INACTIVE) := moveTo_eq was' allowed
    rw [perform, TC_CoroutineScheduler.yield, if_neg some_]
    change (do pure ((← s.moveToInactive s.currentCoro).switchCoro 0)) = _
    rw [moved]
    rfl
  · cases bFlag with
    | false =>
        refine accounted.parks linked statuses rfl rfl ?_ rfl rfl some_
        simp only [Ledger.record, if_neg some_]
    | true =>
        refine accounted.leaves (accounted.unqueued disciplined) linked statuses
          rfl rfl rfl ⟨?_, ?_⟩ ⟨accounted.sleepers.1, ?_⟩ some_
        · refine List.Nodup.append accounted.selves.1
            (List.nodup_singleton _) ?_
          intro iId member last
          rw [List.mem_singleton.mp last] at member
          exact (accounted.unrecorded some_).1 member
        · intro iId
          change iId ∈ x.scheduler.needActiveCoroId ++ _ ↔ _
          simp
        · intro iId
          change iId ∈ x.scheduler.timeoutCoroId.map Prod.snd ↔ _
          simp

theorem Accounted.sleep (iNow iSleepTime : Int)
    (disciplined : Disciplined x (.sleep iNow iSleepTime)) :
    ∃ t, x.scheduler.perform (.sleep iNow iSleepTime) = .ok t ∧
      Accounted ⟨t, x.ledger⟩ ∧
      Advances x.scheduler (.sleep iNow iSleepTime) t := by
  obtain ⟨old, allowed, was⟩ := accounted.status some_
  have old_used : old ≠ .CORO_FREE := by
    rintro rfl
    simp at allowed
  let entry := (iNow + iSleepTime.natAbs, x.scheduler.currentCoro)
  let entries := Multimap.insert Prod.fst entry x.scheduler.timeoutCoroId
  let s := { x.scheduler with timeoutCoroId := entries }
  have kept : s.Linked := accounted.linked.congr rfl rfl rfl rfl rfl rfl
  have linked : (suspended s .CORO_TIMEOUT).Linked :=
    (kept.relink was old_used (by decide)).congr rfl rfl rfl rfl rfl rfl
  have inserted : (s.timeoutCoroId.map Prod.snd).Perm
      (x.scheduler.currentCoro :: x.scheduler.timeoutCoroId.map Prod.snd) :=
    (Multimap.insert_perm Prod.fst entry _).map Prod.snd
  refine ⟨suspended s .CORO_TIMEOUT, ?_, ?_,
    accounted.advances_suspended (by simp) rfl rfl (by decide)⟩
  · have moved : s.moveToTimeout s.currentCoro =
        .ok (s.relink s.currentCoro .CORO_TIMEOUT) := moveTo_eq was allowed
    rw [perform, TC_CoroutineScheduler.sleep, if_neg some_]
    change (do pure ((← s.moveToTimeout s.currentCoro).switchCoro 0)) = _
    rw [moved]
    rfl
  · refine accounted.leaves (accounted.unqueued disciplined) linked
      (coro_suspended .CORO_TIMEOUT was) rfl rfl rfl
      ⟨accounted.selves.1, ?_⟩ ⟨?_, ?_⟩ some_
    · intro iId
      change iId ∈ x.scheduler.needActiveCoroId ↔ _
      simp
    · exact inserted.nodup_iff.mpr (List.nodup_cons.mpr
        ⟨(accounted.unrecorded some_).2, accounted.sleepers.1⟩)
    · intro iId
      refine inserted.mem_iff.trans ?_
      simp [or_comm]

theorem Accounted.finish (disciplined : Disciplined x .finish) :
    ∃ t, x.scheduler.perform .finish = .ok t ∧
      Accounted ⟨t, x.ledger⟩ ∧ Advances x.scheduler .finish t := by
  obtain ⟨old, allowed, was⟩ := accounted.status some_
  have old_used : old ≠ .CORO_FREE := by
    rintro rfl
    simp at allowed
  let s := { x.scheduler with usedSize := x.scheduler.usedSize - 1 }
  have listed : s.Listed := ⟨accounted.linked.created, accounted.linked.listed,
    accounted.linked.nodup, accounted.linked.total⟩
  have linked : (suspended s .CORO_FREE).Linked := by
    have free := listed.relink .CORO_FREE was
    refine ⟨⟨free.created, free.listed, free.nodup, free.total⟩, ?_,
      accounted.linked.grown, accounted.linked.bounded⟩
    have used := listed.used_relink .CORO_FREE was
    rw [if_neg old_used, if_pos rfl] at used
    have counted := accounted.linked.counted
    have same : s.used = x.scheduler.used := rfl
    have one : (1 : UInt32) ≤ x.scheduler.usedSize := by
      rw [UInt32.le_iff_toNat_le, counted]
      simp
      omega
    have usedSize : (suspended s .CORO_FREE).usedSize =
      x.scheduler.usedSize - 1 := rfl
    have now : (suspended s .CORO_FREE).used =
      (s.relink s.currentCoro .CORO_FREE).used := rfl
    have less : (x.scheduler.usedSize - 1).toNat =
      x.scheduler.usedSize.toNat - 1 := UInt32.toNat_sub_of_le _ _ one
    have current : s.currentCoro = x.scheduler.currentCoro := rfl
    rw [usedSize, now, less, current]
    omega
  refine ⟨suspended s .CORO_FREE, ?_, ?_,
    accounted.advances_suspended (by simp) rfl rfl (by decide)⟩
  · have moved : s.moveToFreeList s.currentCoro =
        .ok (s.relink s.currentCoro .CORO_FREE) := by
      refine moveTo_eq was ?_
      rcases List.mem_pair.mp allowed with rfl | rfl <;> simp
    rw [perform, corotineProc]
    change (do pure ((← s.moveToFreeList s.currentCoro).switchCoro 0)) = _
    rw [moved]
    rfl
  · refine accounted.leaves (accounted.unqueued disciplined) linked
      (coro_suspended .CORO_FREE was) rfl rfl rfl
      ⟨accounted.selves.1, ?_⟩ ⟨accounted.sleepers.1, ?_⟩ some_
    · intro iId
      change iId ∈ x.scheduler.needActiveCoroId ↔ _
      simp
    · intro iId
      change iId ∈ x.scheduler.timeoutCoroId.map Prod.snd ↔ _
      simp

end Suspends

section Idle

variable (idle : x.scheduler.currentCoro = 0)

include idle

/-- Behind a loop that wakes coroutines up the line is the old one, with what
has become active at its end. -/
theorem Accounted.advances_woken (other : event ≠ .runActive)
    (still : t.currentCoro = 0)
    (lists : ∃ more, t.lists .active = x.scheduler.lists .active ++ more)
    (kept : Accounted ⟨t, x.ledger⟩) : Advances x.scheduler event t := by
  obtain ⟨more, behind⟩ := lists
  rw [Advances, if_neg other]
  refine ⟨more, ?_⟩
  have here := kept.line_idle still
  rw [here, accounted.line_idle idle]
  exact behind

theorem Accounted.performs_wakeup :
    ∃ t, x.scheduler.perform .wakeup = .ok t ∧ Accounted ⟨t, x.ledger⟩ ∧
      Advances x.scheduler .wakeup t ∧
      ∀ iId, Pending x iId → iId ∈ t.line ∧ x.ledger.parked iId = true := by
  let s := { x.scheduler with activeCoroQueue := [] }
  have linked : s.Linked := accounted.linked.congr rfl rfl rfl rfl rfl rfl
  have movable : Movable s [.CORO_INACTIVE, .CORO_TIMEOUT]
      x.scheduler.activeCoroQueue := accounted.queue_movable idle
  have moved : Moved s .CORO_ACTIVE x.scheduler.activeCoroQueue _ :=
    movable.moved (by decide) linked
  have kept := accounted.wakeup idle moved
  have still := moved.currentCoro.trans idle
  refine ⟨_, wakeupAll_eq movable, kept,
    accounted.advances_woken idle (by decide) still ⟨_, moved.tail⟩ kept, ?_⟩
  intro iId pending
  have line := (kept.line_idle still).trans moved.tail
  rw [line]
  rcases pending with queued | ⟨parked, active⟩
  · exact ⟨List.mem_append_right _ queued,
      (accounted.queued_idle idle queued).2⟩
  · refine ⟨List.mem_append_left _ ?_, parked⟩
    exact (accounted.linked.listed .active iId).mpr ⟨_, active, rfl⟩

theorem Accounted.performs_wakeupbytimeout (iNow : Int) :
    ∃ t, x.scheduler.perform (.wakeupbytimeout iNow) = .ok t ∧
      Accounted ⟨t, x.ledger⟩ ∧
      Advances x.scheduler (.wakeupbytimeout iNow) t := by
  obtain ⟨nodup, -, -, all⟩ := accounted.due iNow
  have movable : Movable x.scheduler [.CORO_INACTIVE, .CORO_TIMEOUT]
      ((x.scheduler.timeoutCoroId.takeWhile (·.1 ≤ iNow)).map Prod.snd) :=
    ⟨nodup, fun iId member => ⟨.CORO_TIMEOUT, by simp,
      (all iId).mp (.inl member)⟩⟩
  have moved : Moved x.scheduler .CORO_ACTIVE _ _ :=
    movable.moved (by decide) accounted.linked
  let t := { x.scheduler.relinkAll .CORO_ACTIVE
      ((x.scheduler.timeoutCoroId.takeWhile (·.1 ≤ iNow)).map Prod.snd) with
    timeoutCoroId := x.scheduler.timeoutCoroId.dropWhile (·.1 ≤ iNow) }
  have linked : t.Linked := moved.linked.congr rfl rfl rfl rfl rfl rfl
  have kept := accounted.wakeupbytimeout idle moved linked rfl
  exact ⟨_, wakeupDue_eq movable, kept, accounted.advances_woken idle (by simp)
    (moved.currentCoro.trans idle) ⟨_, moved.tail⟩ kept⟩

theorem Accounted.performs_wakeupbyself :
    ∃ t, x.scheduler.perform .wakeupbyself = .ok t ∧
      Accounted ⟨t, x.ledger⟩ ∧ Advances x.scheduler .wakeupbyself t := by
  have waits := accounted.selves.2
  have movable : Movable x.scheduler [.CORO_INACTIVE]
      x.scheduler.needActiveCoroId :=
    ⟨accounted.selves.1, fun iId member => ⟨.CORO_INACTIVE, by simp,
      ((waits iId).mp member).1⟩⟩
  have moved : Moved x.scheduler .CORO_AVAIL _ _ :=
    movable.moved (by decide) accounted.linked
  let t := { x.scheduler.relinkAll .CORO_AVAIL
    x.scheduler.needActiveCoroId with needActiveCoroId := [] }
  have linked : t.Linked := moved.linked.congr rfl rfl rfl rfl rfl rfl
  have kept := accounted.wakeupbyself idle moved linked rfl
  have lists : t.lists .active = x.scheduler.lists .active := by
    refine moved.others .active (by decide) fun iId member listed => ?_
    obtain ⟨status, now, here⟩ :=
      (accounted.linked.listed .active iId).mp listed
    rw [((waits iId).mp member).1] at now
    cases now
    cases here
  exact ⟨t, wakeupSelves_eq movable, kept,
    advances_same (by decide) lists moved.currentCoro⟩

/-- The loop runs the first coroutine of `_active`. -/
theorem Accounted.performs_runActive (some_ : x.scheduler.lists .active ≠ []) :
    ∃ t, x.scheduler.perform .runActive = .ok t ∧
      Accounted ⟨t, x.ledger.record x.scheduler .runActive⟩ ∧
      Advances x.scheduler .runActive t := by
  obtain ⟨iId, rest, first⟩ := List.exists_cons_of_ne_nil some_
  have now := accounted.of_first (by rfl : CORO_STATUS.head .CORO_ACTIVE = _)
    first
  have record : x.ledger.record x.scheduler .runActive =
      x.ledger.resume iId := by
    simp only [Ledger.record, first, List.head?_cons, Option.elim_some]
  refine ⟨x.scheduler.switchCoro iId, ?_, ?_, ?_⟩
  · rw [perform, runFirst, first]
  · rw [record]
    exact accounted.runs idle (.inl now)
  · have nodup := accounted.linked.nodup .active
    rw [first, List.nodup_cons] at nodup
    rw [Advances, if_pos rfl, accounted.line_idle idle, first]
    have line : (x.scheduler.switchCoro iId).line =
        (iId :: rest).filter (· ≠ iId) := by
      rw [TC_CoroutineScheduler.line]
      change (x.scheduler.lists .active).filter (· ≠ iId) = _
      rw [first]
    rw [line, List.filter_cons_of_neg (by simp), List.filter_eq_self.mpr]
    · rfl
    · intro other member
      have apart : other ≠ iId := by
        rintro rfl
        exact nodup.1 member
      simpa using apart

/-- It runs the first of `_avail`. -/
theorem Accounted.performs_runAvail (some_ : x.scheduler.lists .avail ≠ []) :
    ∃ t, x.scheduler.perform .runAvail = .ok t ∧
      Accounted ⟨t, x.ledger.record x.scheduler .runAvail⟩ ∧
      Advances x.scheduler .runAvail t := by
  obtain ⟨iId, rest, first⟩ := List.exists_cons_of_ne_nil some_
  have now := accounted.of_first (by rfl : CORO_STATUS.head .CORO_AVAIL = _)
    first
  have record : x.ledger.record x.scheduler .runAvail =
      x.ledger.resume iId := by
    simp only [Ledger.record, first, List.head?_cons, Option.elim_some]
  refine ⟨x.scheduler.switchCoro iId, ?_, ?_, ?_⟩
  · rw [perform, runFirst, first]
  · rw [record]
    exact accounted.runs idle (.inr now)
  · rw [Advances, if_neg (by decide)]
    refine ⟨[], ?_⟩
    rw [accounted.line_idle idle, List.append_nil, TC_CoroutineScheduler.line]
    change (x.scheduler.lists .active).filter (· ≠ iId) = _
    rw [List.filter_eq_self]
    intro other member
    have apart : other ≠ iId := by
      rintro rfl
      obtain ⟨status, active, here⟩ :=
        (accounted.linked.listed .active other).mp member
      rw [now] at active
      cases active
      cases here
    simpa using apart

end Idle

/-- What the control flow gets to succeeds. -/
theorem Accounted.performs (reaches : x.scheduler.Reaches event)
    (disciplined : Disciplined x event) :
    ∃ t, x.scheduler.perform event = .ok t ∧
      Accounted ⟨t, x.ledger.record x.scheduler event⟩ ∧
      Advances x.scheduler event t := by
  cases event with
  | start =>
      obtain ⟨t, ran, linked, grown, -⟩ :=
        initOnce_grown accounted.linked accounted.idle
      exact ⟨t, ran, accounted.grown linked grown, advances_same (by decide)
        (grown.lists _ (by decide)) grown.currentCoro⟩
  | go => exact accounted.go
  | yield bFlag =>
      by_cases idle : x.scheduler.currentCoro = 0
      · refine ⟨x.scheduler, if_pos idle, ?_, advances_same (by simp) rfl rfl⟩
        cases bFlag with
        | false =>
            simp only [Ledger.record, if_pos idle]
            exact accounted
        | true => exact accounted
      · exact accounted.yield idle bFlag disciplined
  | sleep iNow iSleepTime =>
      by_cases idle : x.scheduler.currentCoro = 0
      · exact ⟨x.scheduler, if_pos idle, accounted,
          advances_same (by simp) rfl rfl⟩
      · exact accounted.sleep idle iNow iSleepTime disciplined
  | finish => exact accounted.finish reaches disciplined
  | put iCoroId =>
      exact ⟨_, rfl, accounted.put disciplined, advances_same (by simp) rfl rfl⟩
  | wakeup =>
      obtain ⟨t, ran, kept, advances, -⟩ := accounted.performs_wakeup reaches.2
      exact ⟨t, ran, kept, advances⟩
  | wakeupbytimeout iNow =>
      exact accounted.performs_wakeupbytimeout reaches.2 iNow
  | wakeupbyself => exact accounted.performs_wakeupbyself reaches.2
  | runActive => exact accounted.performs_runActive reaches.2.1 reaches.2.2
  | runAvail => exact accounted.performs_runAvail reaches.2.1 reaches.2.2

end Performs

/-- An event that the control flow gets to, in a run in which every `put`
belongs to one `yield(false)`. -/
def Step (x : System) (event : Event) (y : System) : Prop :=
  x.scheduler.Reaches event ∧ Disciplined x event ∧
    x.scheduler.perform event = .ok y.scheduler ∧
    y.ledger = x.ledger.record x.scheduler event

section Steps

variable {x y : System} {event : Event} {iId : UInt32}

theorem Accounted.step (accounted : Accounted x) (step : Step x event y) :
    Accounted y ∧ Advances x.scheduler event y.scheduler := by
  obtain ⟨reaches, disciplined, ran, ledger⟩ := step
  obtain ⟨t, ran', kept, advances⟩ := accounted.performs reaches disciplined
  obtain rfl : y.scheduler = t := Except.ok.inj (ran.symm.trans ran')
  rw [← ledger] at kept
  exact ⟨kept, advances⟩

namespace Ledger

variable {ledger : Ledger} {other : UInt32}

theorem resume_other (apart : iId ≠ other) :
    (ledger.resume other).parked iId = ledger.parked iId ∧
      (ledger.resume other).resumed iId = ledger.resumed iId := by
  rw [resume]
  split
  · simp [count, apart]
  · exact ⟨rfl, rfl⟩

theorem resumed_resume (parked : ledger.parked iId = true) :
    (ledger.resume iId).resumed iId = ledger.resumed iId + 1 := by
  rw [resume, if_pos parked]
  simp [count]

theorem resumed_le_resume :
    ledger.resumed iId ≤ (ledger.resume other).resumed iId := by
  by_cases here : iId = other
  · subst here
    cases parked : ledger.parked iId with
    | false => simp [resume, parked]
    | true =>
        rw [resumed_resume parked]
        omega
  · rw [(resume_other here).2]

theorem resumed_le_record {s : TC_CoroutineScheduler} :
    ledger.resumed iId ≤ (ledger.record s event).resumed iId := by
  cases event with
  | yield bFlag =>
      cases bFlag with
      | false =>
          simp only [record]
          split
          · exact Nat.le_refl _
          · exact Nat.le_refl _
      | true => exact Nat.le_refl _
  | runActive =>
      simp only [record]
      cases (s.lists .active).head? with
      | none => exact Nat.le_refl _
      | some first => exact resumed_le_resume
  | runAvail =>
      simp only [record]
      cases (s.lists .avail).head? with
      | none => exact Nat.le_refl _
      | some first => exact resumed_le_resume
  | _ => exact Nat.le_refl _

end Ledger

theorem Step.resumed_le (step : Step x event y) :
    x.ledger.resumed iId ≤ y.ledger.resumed iId := by
  rw [step.2.2.2]
  exact Ledger.resumed_le_record

/-- The first of the line runs; who is behind it gets one place further. -/
theorem Accounted.step_runActive (accounted : Accounted x)
    (step : Step x .runActive y) (member : iId ∈ x.scheduler.line)
    (parked : x.ledger.parked iId = true) :
    x.ledger.resumed iId < y.ledger.resumed iId ∨
      iId ∈ y.scheduler.line ∧ y.ledger.parked iId = true ∧
        y.scheduler.line.idxOf iId + 1 = x.scheduler.line.idxOf iId := by
  have advances := (accounted.step step).2
  obtain ⟨reaches, -, ran, ledger⟩ := step
  obtain ⟨first, rest, active⟩ := List.exists_cons_of_ne_nil reaches.2.2
  have runs : y.scheduler = x.scheduler.switchCoro first := by
    rw [perform, runFirst, active] at ran
    exact (Except.ok.inj ran).symm
  have current : y.scheduler.currentCoro = first := by
    rw [runs]
    rfl
  have recorded : y.ledger = x.ledger.resume first := by
    rw [ledger]
    simp only [Ledger.record, active, List.head?_cons, Option.elim_some]
  rw [Advances, if_pos rfl, current] at advances
  rw [recorded]
  by_cases here : iId = first
  · subst here
    rw [Ledger.resumed_resume parked]
    exact .inl (Nat.lt_succ_self _)
  · rw [advances] at member ⊢
    refine .inr ⟨(List.mem_cons.mp member).resolve_left here, ?_, ?_⟩
    · rw [(Ledger.resume_other here).1]
      exact parked
    · rw [List.idxOf_cons_ne _ (Ne.symm here)]

/-- Any other event leaves it where it is. -/
theorem Accounted.step_other (accounted : Accounted x) (step : Step x event y)
    (other : event ≠ .runActive) (member : iId ∈ x.scheduler.line)
    (parked : x.ledger.parked iId = true) :
    iId ∈ y.scheduler.line ∧ y.ledger.parked iId = true ∧
      y.scheduler.line.idxOf iId = x.scheduler.line.idxOf iId := by
  have advances := (accounted.step step).2
  obtain ⟨reaches, -, -, ledger⟩ := step
  rw [Advances, if_neg other] at advances
  obtain ⟨more, line⟩ := advances
  rw [line, ledger]
  refine ⟨List.mem_append_left _ member, ?_, List.idxOf_append_of_mem member⟩
  cases event with
  | yield bFlag =>
      cases bFlag with
      | false =>
          simp only [Ledger.record]
          split
          · exact parked
          · simp [Ledger.park, Function.update_apply, parked]
      | true => exact parked
  | runActive => exact absurd rfl other
  | runAvail =>
      obtain ⟨first, rest, avail⟩ := List.exists_cons_of_ne_nil reaches.2.2
      have now := accounted.of_first
        (by rfl : CORO_STATUS.head .CORO_AVAIL = _) avail
      have apart : iId ≠ first := by
        rintro rfl
        obtain ⟨status, active, here⟩ :=
          (accounted.linked.listed .active iId).mp
            (List.mem_of_mem_filter member)
        rw [now] at active
        cases active
        cases here
      simp only [Ledger.record, avail, List.head?_cons, Option.elim_some]
      rw [(Ledger.resume_other apart).1]
      exact parked
  | _ => exact parked

end Steps

/-- The scheduler before its first use. -/
def System.new (poolSize : UInt32) : System :=
  ⟨{ poolSize := poolSize }, {}⟩

section Runs

variable {x y : System} {labels : List Event} {iId : UInt32}

/-- Before the loop has taken more coroutines than stand in front of it, one
that waits in the line has run. -/
theorem Accounted.served (accounted : Accounted x) (run : Run Step x labels y)
    (member : iId ∈ x.scheduler.line) (parked : x.ledger.parked iId = true)
    (enough : x.scheduler.line.idxOf iId < labels.count .runActive) :
    x.ledger.resumed iId < y.ledger.resumed iId := by
  have later : ∀ {x : System} {labels y}, Run Step x labels y →
      x.ledger.resumed iId ≤ y.ledger.resumed iId := by
    intro x labels y run
    induction run with
    | nil state => exact Nat.le_refl _
    | cons taken _ ih => exact taken.resumed_le.trans ih
  induction run with
  | nil state => exact absurd enough (Nat.not_lt_zero _)
  | @cons first label middle labels last taken rest ih =>
      have kept := (accounted.step taken).1
      have grows := later rest
      by_cases runs : label = .runActive
      · subst runs
        rw [List.count_cons_self] at enough
        rcases accounted.step_runActive taken member parked with
          resumed | ⟨member', parked', place⟩
        · exact resumed.trans_le grows
        · exact taken.resumed_le.trans_lt (ih kept member' parked' (by omega))
      · rw [List.count_cons_of_ne runs] at enough
        obtain ⟨member', parked', place⟩ :=
          accounted.step_other taken runs member parked
        exact taken.resumed_le.trans_lt
          (ih kept member' parked' (by rw [place]; exact enough))

/-- Each coroutine is in the list that its status names and in no other, the
used ones are counted, and of the puts of a coroutine all but a pending one
have resumed it. -/
structure Consistent (x : System) : Prop where
  listed : ∀ head iId, iId ∈ x.scheduler.lists head ↔
    ∃ status, x.scheduler.coro iId = some status ∧ status.head = head
  nodup : ∀ head, (x.scheduler.lists head).Nodup
  counted : x.scheduler.usedSize.toNat = x.scheduler.used
  running : x.scheduler.currentCoro = 0 ∨
    x.scheduler.coro x.scheduler.currentCoro = some .CORO_ACTIVE ∨
    x.scheduler.coro x.scheduler.currentCoro = some .CORO_AVAIL
  answered : ∀ iId, x.ledger.puts iId =
    x.ledger.resumed iId + if Pending x iId then 1 else 0

end Runs

end TarsCpp.Coroutine
