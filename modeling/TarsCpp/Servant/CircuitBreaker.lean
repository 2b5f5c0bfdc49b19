import TarsCpp.Servant.AdapterProxy

/-!
# The circuit breaker of an adapter

The counters of an active adapter count nothing but the evidence since its last
activation, as long as no activation carries a counter over.  A successful call
leaves the count of failed connections as it is, and a successful connect the
counts of failed calls.
-/

namespace TarsCpp.Servant.AdapterProxy

/-- The counters of an active adapter count nothing but the evidence. -/
structure Covers (info : CheckTimeoutInfo) (adapter : AdapterProxy)
    (evidence : Evidence) : Prop where
  streak : adapter.frequenceFailInvoke ≤ evidence.failures.length
  since : adapter.frequenceFailInvoke ≠ 0 → ∃ first ∈ evidence.failures,
    first + info.minFrequenceFailTime ≤ adapter.frequenceFailTime
  timeouts : adapter.timeoutInvoke = evidence.timeouts
  calls : evidence.calls ≤ adapter.totalInvoke
  connectFailures : adapter.connExcCnt ≤ evidence.connectFailures

/-- The failed calls are among the calls. -/
def Counted (adapter : AdapterProxy) : Prop :=
  adapter.timeoutInvoke ≤ adapter.totalInvoke

section Steps

variable {info : CheckTimeoutInfo} {adapter next : AdapterProxy}
  {evidence : Evidence} {step : Step} {bFail : Bool} {now later : Int}

/-- What the check at the end of a call does. -/
theorem checkRadio_cases (info : CheckTimeoutInfo) (bFail : Bool)
    (now later : Int) (adapter : AdapterProxy) :
    (¬ adapter.nextFinishInvokeTime < now ∧
      adapter.checkRadio info bFail now later = adapter) ∨
    (adapter.nextFinishInvokeTime < now ∧ bFail = true ∧
      info.minTimeoutInvoke ≤ adapter.timeoutInvoke ∧
      info.reachesRadio adapter.timeoutInvoke adapter.totalInvoke ∧
      adapter.checkRadio info bFail now later =
        { adapter with
          nextFinishInvokeTime := now + info.checkTimeoutInterval
          activeStatus := false
          nextRetryTime := later + info.tryTimeInterval }) ∨
    (adapter.nextFinishInvokeTime < now ∧
      adapter.checkRadio info bFail now later =
        { adapter with
          nextFinishInvokeTime := now + info.checkTimeoutInterval
          totalInvoke := 0
          timeoutInvoke := 0 }) := by
  by_cases past : adapter.nextFinishInvokeTime < now
  · right
    by_cases radio : bFail = true ∧
        info.minTimeoutInvoke ≤ adapter.timeoutInvoke ∧
        info.reachesRadio adapter.timeoutInvoke adapter.totalInvoke = true
    · left
      obtain ⟨failed, enough, reached⟩ := radio
      refine ⟨past, failed, enough, reached, ?_⟩
      simp [checkRadio, past, failed, enough, reached, setInactive,
        onSetInactive, resetRetryTime]
    · right
      refine ⟨past, ?_⟩
      simp [checkRadio, past, radio]
  · left
    exact ⟨past, by simp [checkRadio, past]⟩

/-- A successful call of an active adapter. -/
theorem finishInvoke_success (info : CheckTimeoutInfo) (now later : Int)
    (active : adapter.activeStatus = true) :
    adapter.finishInvoke info false now later =
      { adapter with
        totalInvoke := increment adapter.totalInvoke
        frequenceFailInvoke := 0 }.checkRadio info false now later := by
  simp [finishInvoke, active]

/-- The failures come too often. -/
def frequent (info : CheckTimeoutInfo) (now : Int) (adapter : AdapterProxy) :
    Prop :=
  info.frequenceFailInvoke ≤
      (adapter.countFailure info now).frequenceFailInvoke ∧
    (adapter.countFailure info now).frequenceFailTime ≤ now

/-- A failed call of an active adapter. -/
theorem finishInvoke_failure (info : CheckTimeoutInfo) (now later : Int)
    (active : adapter.activeStatus = true) :
    let counted := { adapter.countFailure info now with
      totalInvoke := increment adapter.totalInvoke }
    (adapter.frequent info now ∧
      adapter.finishInvoke info true now later =
        { counted with
          activeStatus := false
          nextRetryTime := later + info.tryTimeInterval }) ∨
    (¬ adapter.frequent info now ∧
      adapter.finishInvoke info true now later =
        counted.checkRadio info true now later) := by
  intro counted
  by_cases often : adapter.frequent info now
  · left
    refine ⟨often, ?_⟩
    have often' := often
    simp only [frequent, countFailure] at often'
    simp [finishInvoke, active, countFailure, often', counted, setInactive,
      onSetInactive, resetRetryTime]
  · right
    refine ⟨often, ?_⟩
    have often' := often
    simp only [frequent, countFailure] at often'
    simp [finishInvoke, active, countFailure, often', counted]

/-- The streak of failures behind one more failed call. -/
theorem Covers.countFailure (now : Int)
    (covers : adapter.Covers info evidence) :
    (adapter.countFailure info now).frequenceFailInvoke ≤
        (now :: evidence.failures).length ∧
      ∃ first ∈ now :: evidence.failures, first + info.minFrequenceFailTime ≤
        (adapter.countFailure info now).frequenceFailTime := by
  have streak := covers.streak
  have one := increment_le adapter.frequenceFailInvoke
  constructor
  · simp only [AdapterProxy.countFailure, List.length_cons]
    omega
  · by_cases zero : adapter.frequenceFailInvoke = 0
    · exact ⟨now, by simp, by simp [AdapterProxy.countFailure, zero]⟩
    · obtain ⟨first, member, since⟩ := covers.since zero
      exact ⟨first, by simp [member],
        by simpa [AdapterProxy.countFailure, zero] using since⟩

/-- What has to be shown of a step. -/
structure Sound (info : CheckTimeoutInfo) (step : Step)
    (adapter : AdapterProxy) (evidence : Evidence) : Prop where
  counted : (adapter.handle info step).Counted
  covers : (adapter.handle info step).activeStatus = true →
    (adapter.handle info step).Covers info (evidence.observe info adapter step)
  justified : adapter.activeStatus = true →
    (adapter.handle info step).activeStatus = false →
    adapter.Justified info step evidence

theorem Covers.checkRadio {calls : Nat} {failures : List Int}
    (covers : adapter.Covers info
      { evidence with failures, calls := calls + 1,
                      timeouts := evidence.timeouts + bFail.toNat })
    (stays : (adapter.checkRadio info bFail now later).activeStatus = true) :
    (adapter.checkRadio info bFail now later).Covers info
      { evidence with
        failures
        calls := if adapter.nextFinishInvokeTime < now then 0 else calls + 1
        timeouts :=
          if adapter.nextFinishInvokeTime < now then 0
          else evidence.timeouts + bFail.toNat } := by
  rcases checkRadio_cases info bFail now later adapter with
    ⟨open_, same⟩ | ⟨_, _, _, _, same⟩ | ⟨past, same⟩
  · rw [same]
    simpa [open_] using covers
  · rw [same] at stays
    cases stays
  · rw [same]
    exact ⟨covers.streak, covers.since, by simp [past], by simp [past],
      covers.connectFailures⟩

theorem checkRadio_counted (counted : adapter.Counted) :
    (adapter.checkRadio info bFail now later).Counted := by
  rcases checkRadio_cases info bFail now later adapter with
    ⟨_, same⟩ | ⟨_, _, _, _, same⟩ | ⟨_, same⟩
  · rw [same]
    exact counted
  · rw [same]
    exact counted
  · rw [same]
    exact le_rfl

theorem sound_success (active : adapter.activeStatus = true)
    (small : adapter.totalInvoke + 1 < 2 ^ 32) (counted : adapter.Counted)
    (covers : adapter.Covers info evidence) :
    adapter.Sound info ⟨.finishInvoke false, now, later⟩ evidence := by
  have result := finishInvoke_success info now later active
  rw [increment_of_lt small] at result
  constructor
  · change (adapter.finishInvoke info false now later).Counted
    rw [result]
    exact checkRadio_counted (Nat.le_succ_of_le counted)
  · intro stays
    change (adapter.finishInvoke info false now later).activeStatus = _ at stays
    change (adapter.finishInvoke info false now later).Covers info _
    rw [result] at stays ⊢
    have seen : ({ adapter with
        totalInvoke := adapter.totalInvoke + 1
        frequenceFailInvoke := 0 } : AdapterProxy).Covers info
        { evidence with
          failures := []
          calls := evidence.calls + 1
          timeouts := evidence.timeouts + false.toNat } :=
      ⟨le_rfl, fun nonzero => absurd rfl nonzero, covers.timeouts,
        Nat.succ_le_succ covers.calls, covers.connectFailures⟩
    have closing := seen.checkRadio stays
    simpa [Evidence.observe, active, reports, Evidence.call] using closing
  · intro _ leaves
    change (adapter.finishInvoke info false now later).activeStatus = _ at leaves
    rw [result] at leaves
    rcases checkRadio_cases info false now later { adapter with
          totalInvoke := adapter.totalInvoke + 1
          frequenceFailInvoke := 0 } with
      ⟨_, same⟩ | ⟨_, failed, _⟩ | ⟨_, same⟩
    · rw [same, active] at leaves
      cases leaves
    · cases failed
    · rw [same] at leaves
      simp [active] at leaves

theorem sound_failure (active : adapter.activeStatus = true)
    (small : adapter.totalInvoke + 1 < 2 ^ 32) (counted : adapter.Counted)
    (covers : adapter.Covers info evidence) :
    adapter.Sound info ⟨.finishInvoke true, now, later⟩ evidence := by
  have result := finishInvoke_failure info now later active
  have fewer : adapter.timeoutInvoke ≤ adapter.totalInvoke := counted
  have timeouts : increment adapter.timeoutInvoke = adapter.timeoutInvoke + 1 :=
    increment_of_lt (by omega)
  obtain ⟨streak, since⟩ := covers.countFailure now
  rw [increment_of_lt small] at result
  -- the counters behind the call, before the window is looked at
  have counted' : ({ adapter.countFailure info now with
      totalInvoke := adapter.totalInvoke + 1 } : AdapterProxy).Counted := by
    change increment adapter.timeoutInvoke ≤ adapter.totalInvoke + 1
    omega
  have seen : ({ adapter.countFailure info now with
      totalInvoke := adapter.totalInvoke + 1 } : AdapterProxy).Covers info
      { evidence with
        failures := now :: evidence.failures
        calls := evidence.calls + 1
        timeouts := evidence.timeouts + true.toNat } := by
    refine ⟨streak, fun _ => since, ?_, Nat.succ_le_succ covers.calls,
      covers.connectFailures⟩
    change increment adapter.timeoutInvoke = evidence.timeouts + 1
    rw [timeouts, covers.timeouts]
  rcases result with ⟨often, result⟩ | ⟨_, result⟩
  · constructor
    · change (adapter.finishInvoke info true now later).Counted
      rw [result]
      exact counted'
    · intro stays
      change (adapter.finishInvoke info true now later).activeStatus = _ at stays
      rw [result] at stays
      cases stays
    · intro _ _
      obtain ⟨first, member, before⟩ := since
      exact .inr (.inl ⟨rfl, often.1.trans streak, first, member,
        before.trans often.2⟩)
  · constructor
    · change (adapter.finishInvoke info true now later).Counted
      rw [result]
      exact checkRadio_counted counted'
    · intro stays
      change (adapter.finishInvoke info true now later).activeStatus = _ at stays
      change (adapter.finishInvoke info true now later).Covers info _
      rw [result] at stays ⊢
      have closing := seen.checkRadio stays
      simpa [Evidence.observe, active, reports, Evidence.call, countFailure]
        using closing
    · intro _ leaves
      change (adapter.finishInvoke info true now later).activeStatus = _ at leaves
      rw [result] at leaves
      rcases checkRadio_cases info true now later { adapter.countFailure info now with
            totalInvoke := adapter.totalInvoke + 1 } with
        ⟨_, same⟩ | ⟨past, _, enough, reached, _⟩ | ⟨_, same⟩
      · rw [same] at leaves
        simp [countFailure, active] at leaves
      · refine .inr (.inr (.inl ⟨rfl, past, ?_, ?_⟩))
        · rw [seen.timeouts] at enough
          exact enough
        · rw [seen.timeouts] at reached
          exact info.reachesRadio_fewer (Nat.succ_pos _) seen.calls reached
      · rw [same] at leaves
        simp [countFailure, active] at leaves

/-- A call that finishes while the adapter is out of service. -/
theorem sound_retry (inactive : adapter.activeStatus = false)
    (none : bFail = false → adapter.connExcCnt = 0)
    (counted : adapter.Counted) :
    adapter.Sound info ⟨.finishInvoke bFail, now, later⟩ evidence := by
  cases bFail with
  | false =>
      have result : adapter.finishInvoke info false now later = { adapter with
          activeStatus := true
          frequenceFailInvoke := 0
          nextFinishInvokeTime := now + info.checkTimeoutInterval
          totalInvoke := 1
          timeoutInvoke := 0
          connExc := false } := by
        simp [finishInvoke, inactive]
      constructor
      · change (adapter.finishInvoke info false now later).Counted
        rw [result]
        exact Nat.zero_le _
      · intro _
        have anew : evidence.observe info adapter
            ⟨.finishInvoke false, now, later⟩ = {} := by
          simp [Evidence.observe, inactive, handle, result]
        rw [anew]
        change (adapter.finishInvoke info false now later).Covers info _
        rw [result]
        exact ⟨le_rfl, fun nonzero => absurd rfl nonzero, rfl, Nat.zero_le _,
          (none rfl).le⟩
      · intro active
        rw [inactive] at active
        cases active
  | true =>
      have result : adapter.finishInvoke info true now later = adapter := by
        simp [finishInvoke, inactive]
      constructor
      · change (adapter.finishInvoke info true now later).Counted
        rw [result]
        exact counted
      · intro active
        change (adapter.finishInvoke info true now later).activeStatus = _
          at active
        rw [result, inactive] at active
        cases active
      · intro active
        rw [inactive] at active
        cases active

/-- A step that leaves the counters and the evidence alone. -/
theorem Sound.of_same (counted : adapter.Counted)
    (covers : adapter.activeStatus = true → adapter.Covers info evidence)
    (same : adapter.handle info step =
      { adapter with nextRetryTime := (adapter.handle info step).nextRetryTime })
    (unseen : adapter.activeStatus = true →
      evidence.observe info adapter step = evidence) :
    adapter.Sound info step evidence := by
  constructor
  · rw [same]
    exact counted
  · intro stays
    rw [same] at stays ⊢
    rw [unseen stays]
    obtain ⟨streak, since, timeouts, calls, connectFailures⟩ := covers stays
    exact ⟨streak, since, timeouts, calls, connectFailures⟩
  · intro active leaves
    rw [same] at leaves
    exact absurd active (by simpa using leaves)

/-- A connection has been established. -/
theorem sound_reported (reported : adapter.reports step = true)
    (keeps : adapter.handle info step = { adapter with
      connExc := false
      connExcCnt := 0
      activeStatus := true
      nextRetryTime := (adapter.handle info step).nextRetryTime })
    (counted : adapter.Counted)
    (covers : adapter.activeStatus = true → adapter.Covers info evidence)
    (anew : adapter.activeStatus = false →
      adapter.frequenceFailInvoke = 0 ∧ adapter.timeoutInvoke = 0) :
    adapter.Sound info step evidence := by
  have stays : (adapter.handle info step).activeStatus = true := by rw [keeps]
  constructor
  · rw [keeps]
    exact counted
  · intro _
    cases active : adapter.activeStatus with
    | true =>
        have seen : evidence.observe info adapter step =
            { evidence with connectFailures := 0 } := by
          simp [Evidence.observe, active, reported]
        rw [seen, keeps]
        obtain ⟨streak, since, timeouts, calls, _⟩ := covers active
        exact ⟨streak, since, timeouts, calls, le_rfl⟩
    | false =>
        have seen : evidence.observe info adapter step = {} := by
          simp [Evidence.observe, active, stays]
        obtain ⟨noStreak, noTimeouts⟩ := anew active
        rw [seen, keeps]
        exact ⟨noStreak.le, fun nonzero => absurd noStreak nonzero, noTimeouts,
          Nat.zero_le _, le_rfl⟩
  · intro _ leaves
    rw [stays] at leaves
    cases leaves

/-- A failure to connect has been reported. -/
theorem sound_unreachable (counted : adapter.Counted)
    (covers : adapter.activeStatus = true → adapter.Covers info evidence) :
    adapter.Sound info ⟨.addConnExc true, now, later⟩ evidence := by
  cases known : adapter.connExc with
  | true =>
      have same : adapter.addConnExc info true later = adapter := by
        simp [addConnExc, known]
      constructor
      · change (adapter.addConnExc info true later).Counted
        rw [same]
        exact counted
      · intro stays
        change (adapter.addConnExc info true later).Covers info _
        change (adapter.addConnExc info true later).activeStatus = _ at stays
        rw [same] at stays ⊢
        obtain ⟨streak, since, timeouts, calls, connectFailures⟩ := covers stays
        have seen : evidence.observe info adapter
            ⟨.addConnExc true, now, later⟩ = { evidence with
              connectFailures := evidence.connectFailures + 1 } := by
          simp [Evidence.observe, stays, reports]
        rw [seen]
        exact ⟨streak, since, timeouts, calls,
          Nat.le_succ_of_le connectFailures⟩
      · intro active leaves
        change (adapter.addConnExc info true later).activeStatus = _ at leaves
        rw [same, active] at leaves
        cases leaves
  | false =>
      have one := increment_le adapter.connExcCnt
      by_cases enough : info.maxConnectExc ≤ increment adapter.connExcCnt
      · have result : adapter.addConnExc info true later = { adapter with
            connExcCnt := increment adapter.connExcCnt
            activeStatus := false
            nextRetryTime := later + info.tryTimeInterval
            connExc := true } := by
          simp [addConnExc, known, enough, setInactive, onSetInactive,
            resetRetryTime]
        constructor
        · change (adapter.addConnExc info true later).Counted
          rw [result]
          exact counted
        · intro stays
          change (adapter.addConnExc info true later).activeStatus = _ at stays
          rw [result] at stays
          cases stays
        · intro active _
          have seen := (covers active).connectFailures
          exact .inr (.inr (.inr ⟨rfl, by omega⟩))
      · have result : adapter.addConnExc info true later = { adapter with
            connExcCnt := increment adapter.connExcCnt } := by
          simp [addConnExc, known, enough]
        constructor
        · change (adapter.addConnExc info true later).Counted
          rw [result]
          exact counted
        · intro stays
          change (adapter.addConnExc info true later).Covers info _
          change (adapter.addConnExc info true later).activeStatus = _ at stays
          rw [result] at stays ⊢
          obtain ⟨streak, since, timeouts, calls, connectFailures⟩ :=
            covers stays
          have active : adapter.activeStatus = true := stays
          have seen : evidence.observe info adapter
              ⟨.addConnExc true, now, later⟩ = { evidence with
                connectFailures := evidence.connectFailures + 1 } := by
            simp [Evidence.observe, active, reports]
          rw [seen]
          exact ⟨streak, since, timeouts, calls,
            one.trans (Nat.succ_le_succ connectFailures)⟩
        · intro active leaves
          change (adapter.addConnExc info true later).activeStatus = _ at leaves
          rw [result, active] at leaves
          cases leaves

/-- What `checkActive` leaves behind. -/
theorem checkActive_snd (info : CheckTimeoutInfo) (connecting : Bool)
    (now later : Int) (transceiver : Transceiver) (adapter : AdapterProxy) :
    (adapter.checkActive info connecting now later transceiver).2 =
      if adapter.activeStatus = true ∨ adapter.nextRetryTime ≤ now then
        let adapter := { adapter with nextRetryTime :=
          if adapter.activeStatus then adapter.nextRetryTime
          else later + info.tryTimeInterval }
        if transceiver.isValid then adapter
        else adapter.connect info later transceiver
      else adapter := by
  rcases adapter with ⟨_ | _, _, _, _, _, _, nextRetryTime, _, _⟩
  · by_cases reached : nextRetryTime ≤ now
    · have notEarly : ¬ now < nextRetryTime := not_lt.mpr reached
      cases valid : transceiver.isValid <;>
        simp only [checkActive, resetRetryTime, valid, Bool.not_false, Bool.not_true,
          notEarly, reached, and_false, if_false, if_true, or_true,
          Bool.false_eq_true] <;> split <;> rfl
    · have early : now < nextRetryTime := not_le.mp reached
      simp [checkActive, early]
  · cases valid : transceiver.isValid <;>
      simp only [checkActive, valid, Bool.not_false, Bool.not_true, true_or, if_false,
        if_true, false_and, Bool.false_eq_true] <;> split <;> rfl

theorem sound_checkActive {connecting : Bool} {transceiver : Transceiver}
    (fresh : adapter.Fresh ⟨.checkActive connecting transceiver, now, later⟩)
    (counted : adapter.Counted)
    (covers : adapter.activeStatus = true → adapter.Covers info evidence) :
    adapter.Sound info ⟨.checkActive connecting transceiver, now, later⟩
      evidence := by
  have result := checkActive_snd info connecting now later
    transceiver adapter
  cases tried : adapter.connects now transceiver with
  | false =>
      refine .of_same counted covers ?_ fun _ => ?_
      · change (adapter.checkActive info connecting now later transceiver).2 =
          { adapter with nextRetryTime :=
            (adapter.checkActive info connecting now later transceiver).2
              |>.nextRetryTime }
        rw [result]
        by_cases reached : adapter.activeStatus = true ∨
            adapter.nextRetryTime ≤ now
        · have valid : transceiver.isValid = true := by
            simpa [connects, reached] using tried
          simp [reached, valid]
        · simp [reached]
      · simp_all [Evidence.observe, reports]
  | true =>
      have reached : adapter.activeStatus = true ∨
          adapter.nextRetryTime ≤ now := by
        simp only [connects, Bool.and_eq_true, Bool.or_eq_true,
          decide_eq_true_eq] at tried
        exact tried.1
      have invalid : transceiver.isValid = false := by
        simp only [connects, Bool.and_eq_true, Bool.not_eq_true'] at tried
        exact tried.2
      simp only [reached, if_true, invalid, Bool.false_eq_true, if_false,
        connect] at result
      cases thrown : transceiver.throws with
      | true =>
          simp only [thrown, if_true] at result
          constructor
          · change (adapter.checkActive info connecting now later transceiver
              ).2.Counted
            rw [result]
            cases transceiver.reported <;> exact counted
          · intro stays
            change (adapter.checkActive info connecting now later transceiver
              ).2.activeStatus = _ at stays
            rw [result] at stays
            cases stays
          · intro _ _
            exact .inl (by simp [failsToConnect, tried, thrown])
      | false =>
          simp only [thrown, Bool.false_eq_true, if_false] at result
          cases reported : transceiver.reported with
          | true =>
              simp only [reported, if_true, addConnExc, Bool.false_eq_true,
                if_false] at result
              refine sound_reported (by simp [reports, tried, reported]) ?_
                counted covers fun inactive => ?_
              · change (adapter.checkActive info connecting now later
                  transceiver).2 = { adapter with
                    connExc := false
                    connExcCnt := 0
                    activeStatus := true
                    nextRetryTime := (adapter.checkActive info connecting now
                      later transceiver).2.nextRetryTime }
                rw [result]
              · simp only [Fresh, inactive, Bool.false_eq_true, if_false]
                  at fresh
                exact fresh.2 (by simp [reports, tried, reported])
                  (by simp [failsToConnect, thrown])
          | false =>
              simp only [reported, Bool.false_eq_true, if_false] at result
              refine .of_same counted covers ?_ fun active => ?_
              · change (adapter.checkActive info connecting now later
                  transceiver).2 = { adapter with nextRetryTime :=
                    (adapter.checkActive info connecting now later
                      transceiver).2.nextRetryTime }
                rw [result]
              · simp [Evidence.observe, reports, active, reported]

/-- Every step that carries no counter over is sound. -/
theorem sound (fresh : adapter.Fresh step) (counted : adapter.Counted)
    (covers : adapter.activeStatus = true → adapter.Covers info evidence) :
    adapter.Sound info step evidence := by
  obtain ⟨event, now, later⟩ := step
  cases event with
  | finishInvoke bFail =>
      cases active : adapter.activeStatus with
      | true =>
          simp only [Fresh, active, if_true] at fresh
          have small := fresh bFail rfl
          cases bFail with
          | true => exact sound_failure active small counted (covers active)
          | false => exact sound_success active small counted (covers active)
      | false =>
          simp only [Fresh, active, Bool.false_eq_true, if_false] at fresh
          refine sound_retry active (fun success => ?_) counted
          exact fresh.1 (by rw [success])
  | checkActive connecting transceiver =>
      exact sound_checkActive fresh counted covers
  | addConnExc bExc =>
      cases bExc with
      | true => exact sound_unreachable counted covers
      | false =>
          refine sound_reported rfl rfl counted covers fun inactive => ?_
          simp only [Fresh, inactive, Bool.false_eq_true, if_false] at fresh
          exact fresh.2 rfl rfl
  | resetRetryTime next =>
      exact .of_same counted covers rfl fun active => by
        simp [Evidence.observe, active, reports]

theorem checkRadio_nextRetryTime :
    (adapter.checkRadio info bFail now later).nextRetryTime =
        adapter.nextRetryTime ∨
      (adapter.checkRadio info bFail now later).nextRetryTime =
        later + info.tryTimeInterval := by
  rcases checkRadio_cases info bFail now later adapter with
    ⟨_, same⟩ | ⟨_, _, _, _, same⟩ | ⟨_, same⟩
  · exact .inl (by rw [same])
  · exact .inr (by rw [same])
  · exact .inl (by rw [same])

theorem connect_nextRetryTime (transceiver : Transceiver) :
    (adapter.connect info later transceiver).nextRetryTime =
      adapter.nextRetryTime := by
  cases reported : transceiver.reported <;>
    cases thrown : transceiver.throws <;>
    simp [connect, reported, thrown, addConnExc]

/-- The time of the next attempt is only ever put off. -/
theorem handle_nextRetryTime (info : CheckTimeoutInfo)
    (ordinary : step.event ≠ .resetRetryTime false) :
    (adapter.handle info step).nextRetryTime = adapter.nextRetryTime ∨
      (adapter.handle info step).nextRetryTime =
        step.later + info.tryTimeInterval := by
  obtain ⟨event, now, later⟩ := step
  cases event with
  | finishInvoke bFail =>
      change (adapter.finishInvoke info bFail now later).nextRetryTime = _ ∨
        (adapter.finishInvoke info bFail now later).nextRetryTime = _
      cases active : adapter.activeStatus with
      | false => cases bFail <;> simp [finishInvoke, active]
      | true =>
          cases bFail with
          | false =>
              rw [finishInvoke_success info now later active]
              exact checkRadio_nextRetryTime
          | true =>
              rcases finishInvoke_failure info now later active with ⟨_, result⟩ | ⟨_, result⟩
              · exact .inr (by rw [result])
              · rw [result]
                exact checkRadio_nextRetryTime
  | checkActive connecting transceiver =>
      change (adapter.checkActive info connecting now later transceiver
          ).2.nextRetryTime = _ ∨
        (adapter.checkActive info connecting now later transceiver
          ).2.nextRetryTime = _
      rw [checkActive_snd]
      by_cases reached : adapter.activeStatus = true ∨
          adapter.nextRetryTime ≤ now
      · rw [if_pos reached]
        cases transceiver.isValid <;> cases adapter.activeStatus <;>
          simp [connect_nextRetryTime]
      · simp [reached]
  | addConnExc bExc =>
      change (adapter.addConnExc info bExc later).nextRetryTime = _ ∨
        (adapter.addConnExc info bExc later).nextRetryTime = _
      cases bExc with
      | false => exact .inl rfl
      | true =>
          cases known : adapter.connExc with
          | true => simp [addConnExc, known]
          | false =>
              by_cases enough :
                  info.maxConnectExc ≤ increment adapter.connExcCnt
              · simp [addConnExc, known, enough, setInactive, onSetInactive,
                  resetRetryTime]
              · simp [addConnExc, known, enough]
  | resetRetryTime next =>
      cases next with
      | false => exact absurd rfl ordinary
      | true => exact .inr rfl

/-- An attempt out of service comes when it is due, and puts the next off. -/
theorem attempts_due (info : CheckTimeoutInfo)
    (inactive : adapter.activeStatus = false)
    (tried : adapter.attempts step = true) :
    adapter.nextRetryTime ≤ step.now ∧
      (adapter.handle info step).nextRetryTime =
        step.later + info.tryTimeInterval := by
  obtain ⟨event, now, later⟩ := step
  cases event with
  | checkActive connecting transceiver =>
      simp only [attempts, connects, inactive, Bool.false_or,
        Bool.and_eq_true, decide_eq_true_eq, Bool.not_eq_true'] at tried
      obtain ⟨due, invalid⟩ := tried
      refine ⟨due, ?_⟩
      change (adapter.checkActive info connecting now later transceiver
        ).2.nextRetryTime = _
      rw [checkActive_snd]
      simp [due, invalid, inactive, connect_nextRetryTime]
  | finishInvoke => cases tried
  | addConnExc => cases tried
  | resetRetryTime => cases tried

end Steps

section Runs

variable {info : CheckTimeoutInfo} {steps : List Step}

/-- Every step of the run carries no counter over. -/
def AlwaysFresh (info : CheckTimeoutInfo) (steps : List Step) : Prop :=
  ∀ earlier step rest, steps = earlier ++ step :: rest →
    (after info earlier).1.Fresh step

theorem AlwaysFresh.prefix {earlier rest : List Step}
    (fresh : AlwaysFresh info (earlier ++ rest)) : AlwaysFresh info earlier := by
  intro first step between split
  exact fresh first step (between ++ rest) (by rw [split]; simp)

theorem after_covers (fresh : AlwaysFresh info steps) :
    (after info steps).1.Counted ∧
      ((after info steps).1.activeStatus = true →
        (after info steps).1.Covers info (after info steps).2) := by
  induction steps using List.reverseRecOn with
  | nil =>
      exact ⟨le_rfl, fun _ => ⟨le_rfl, fun nonzero => absurd rfl nonzero, rfl,
        le_rfl, le_rfl⟩⟩
  | append_singleton steps step ih =>
      obtain ⟨counted, covers⟩ := ih fresh.prefix
      have taken := sound (fresh steps step [] rfl) counted covers
      rw [after_concat]
      exact ⟨taken.counted, taken.covers⟩

/-- After an attempt the next one stays put off. -/
theorem nextRetryTime_after {earlier between : List Step} {first : Step}
    (inactive : (after info earlier).1.activeStatus = false)
    (tried : (after info earlier).1.attempts first = true)
    (ordinary : ∀ step ∈ between, step.event ≠ .resetRetryTime false)
    (clock : ∀ step ∈ between, first.later ≤ step.later) :
    first.later + info.tryTimeInterval ≤
      (after info (earlier ++ first :: between)).1.nextRetryTime := by
  induction between using List.reverseRecOn with
  | nil =>
      rw [after_concat]
      exact (attempts_due info inactive tried).2.ge
  | append_singleton between step ih =>
      have before := ih
        (fun step member => ordinary step (List.mem_append_left _ member))
        (fun step member => clock step (List.mem_append_left _ member))
      have here : step ∈ between ++ [step] := by simp
      have reading := clock step here
      rw [← List.cons_append, ← List.append_assoc, after_concat]
      rcases handle_nextRetryTime info (ordinary step here) with
        same | same
      · rw [same]
        exact before
      · rw [same]
        omega

/-- In every run whose steps carry no counter over, the counters are in order,
an adapter leaves service only on the evidence since its last activation, and
the attempts to connect are spaced. -/
theorem runs_break (clocked : Clocked steps) (fresh : AlwaysFresh info steps) :
    Breaks info steps := by
  constructor
  · rintro earlier rest rfl
    exact (after_covers fresh.prefix).1
  · rintro earlier step rest rfl active leaves
    obtain ⟨counted, covers⟩ := after_covers fresh.prefix
    exact (sound (fresh earlier step rest rfl) counted covers).justified active
      leaves
  · rintro earlier first between second rest rfl inactive tried inactive'
      tried' ordinary
    obtain ⟨ordered, reads⟩ := clocked
    rw [List.append_assoc, List.cons_append] at ordered
    have behind := (List.pairwise_append.mp ordered).2.1
    rw [List.pairwise_cons] at behind
    have readings : ∀ step ∈ between ++ second :: rest,
        first.later ≤ step.later := by
      intro step member
      exact (behind.1 step member).trans (reads step (by simp_all))
    have putOff := nextRetryTime_after inactive tried ordinary
      fun step member => readings step (List.mem_append_left _ member)
    have due := (attempts_due info inactive' tried').1
    have reading := reads second (by simp)
    omega

/-- Two failures take the adapter out of service, and it takes one more to do
so again once it is back. -/
theorem runs_break_twice :
    let failure now : Step := ⟨.finishInvoke true, now, now⟩
    let steps := [failure 1000, failure 1005, ⟨.finishInvoke false, 1006, 1006⟩,
      failure 1007]
    ((after {} steps).1.activeStatus = true ∧ Breaks {} steps) := by
  intro failure steps
  refine ⟨rfl, runs_break ⟨by simp [steps, failure], by simp [steps, failure]⟩
    fun earlier step rest split => ?_⟩
  rcases earlier with _ | ⟨_, _ | ⟨_, _ | ⟨_, _ | ⟨_, _ | ⟨_, _⟩⟩⟩⟩⟩ <;>
    simp only [steps, List.nil_append, List.cons_append, List.cons.injEq,
      List.nil_eq, reduceCtorEq, and_false] at split
  · obtain ⟨rfl, -⟩ := split
    intro bFail _
    decide
  · obtain ⟨rfl, rfl, -⟩ := split
    intro bFail _
    decide
  · obtain ⟨rfl, rfl, rfl, -⟩ := split
    exact ⟨fun _ => rfl, fun reported => by cases reported⟩
  · obtain ⟨rfl, rfl, rfl, rfl, -⟩ := split
    intro bFail _
    decide

/-- Two failures in a row take the adapter out of service, a connection puts it
back, and then a single failure is enough. -/
theorem breaks_stale_streak :
    let failure now : Step := ⟨.finishInvoke true, now, now⟩
    let steps := [failure 1000, failure 1005, ⟨.addConnExc false, 1006, 1006⟩,
      failure 1007]
    Clocked steps ∧ ¬ Breaks {} steps := by
  intro failure steps
  refine ⟨⟨by simp [steps, failure], by simp [steps, failure]⟩, fun breaks => ?_⟩
  have justified := breaks.justified (steps.take 3) (failure 1007) [] rfl rfl rfl
  rcases justified with failed | ⟨_, enough, _⟩ | ⟨_, past, _⟩ | ⟨event, _⟩
  · cases failed
  · exact absurd enough (by decide)
  · exact absurd past (by decide)
  · cases event

end Runs

end TarsCpp.Servant.AdapterProxy
