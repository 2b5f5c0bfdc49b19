import TarsCpp.Servant.Stat

/-!
# Reported statistics against the calls

The sums and the maximum of a report are right however the calls were
distributed.  `mergeStat` counts the slowest call of an adapter's body in the
histogram and no other one, and `addMicMsg` takes 0 for a response time when it
looks for the least one: as long as the numbers are `int`s, the report is right
if and only if neither matters.
-/

namespace TarsCpp.Servant

open KeyedMerge
open CString (toInt toInt_eq toInt_add toInt_toInt)

/-- The times of calls, and the greatest one. -/
def times (outcomes : List Outcome) : List Nat := outcomes.map Outcome.time

def slowest (outcomes : List Outcome) : Nat := (times outcomes).foldr max 0

/-- The least time that is not 0, or 0 if there is none. -/
def LeastNonzero (times : List Nat) (least : Nat) : Prop :=
  (least = 0 ∧ ∀ time ∈ times, time = 0) ∨
    (least ≠ 0 ∧ least ∈ times ∧ ∀ time ∈ times, time ≠ 0 → least ≤ time)

/-- No time is too long for an `int`. -/
def Short (outcomes : List Outcome) : Prop :=
  ∀ outcome ∈ outcomes, outcome.time < 2 ^ 31

/-- The times and the number of calls are `int`s. -/
structure Fits (outcomes : List Outcome) : Prop where
  short : Short outcomes
  few : outcomes.length < 2 ^ 31

/-- The number of calls that fall into an interval. -/
def TimePoints.falling (timePoint : TimePoints) (outcomes : List Outcome)
    (point : Int) : Nat :=
  outcomes.countP fun outcome => timePoint.interval outcome.time = some point

/-- What is right in every body. -/
structure Sums (timePoint : TimePoints) (outcomes : List Outcome)
    (body : StatMicMsgBody) : Prop where
  count : body.count = outcomes.countP Outcome.isSuccess
  timeoutCount : body.timeoutCount = outcomes.countP Outcome.isTimeout
  execCount : body.execCount = outcomes.countP Outcome.isException
  totalRspTime : body.totalRspTime = (times outcomes).sum
  maxRspTime : body.maxRspTime = slowest outcomes
  keyed : body.Keyed timePoint

/-- The body agrees with the calls in every field. -/
structure Totals (timePoint : TimePoints) (outcomes : List Outcome)
    (body : StatMicMsgBody) : Prop where
  count : body.count = outcomes.countP Outcome.isSuccess
  timeoutCount : body.timeoutCount = outcomes.countP Outcome.isTimeout
  execCount : body.execCount = outcomes.countP Outcome.isException
  totalRspTime : body.totalRspTime = (times outcomes).sum
  maxRspTime : body.maxRspTime = slowest outcomes
  minRspTime : LeastNonzero (times outcomes) body.minRspTime
  intervalCount : ∀ point ∈ timePoint.points,
    body.intervalCount.lookup point =
      some (timePoint.falling outcomes point : Int)

section Bodies

variable {timePoint : TimePoints} {body inBody outBody : StatMicMsgBody}
  {outcome : Outcome} {outcomes outcomes' : List Outcome}

theorem slowest_append (outcomes outcomes' : List Outcome) :
    slowest (outcomes ++ outcomes') =
      max (slowest outcomes) (slowest outcomes') := by
  induction outcomes with
  | nil => simp [slowest, times]
  | cons outcome outcomes ih =>
      simp only [slowest, times] at ih
      simp only [slowest, times, List.cons_append, List.map_cons,
        List.foldr_cons]
      rw [ih, max_assoc]

theorem slowest_lt (short : Short outcomes) : slowest outcomes < 2 ^ 31 := by
  induction outcomes with
  | nil => exact Nat.two_pow_pos 31
  | cons outcome outcomes ih =>
      obtain ⟨here, later⟩ := List.forall_mem_cons.mp short
      exact max_lt here (ih later)

/-- A short time is passed on as it is. -/
theorem toInt_time {time : Nat} (short : time < 2 ^ 31) :
    toInt time = time :=
  toInt_eq (by omega) (by omega)

theorem hit_le_one (timePoint : TimePoints) (time point : Int) :
    timePoint.hit time point ≤ 1 := by
  rw [TimePoints.hit]
  split <;> omega

theorem falling_append (point : Int) :
    timePoint.falling (outcomes ++ outcomes') point =
      timePoint.falling outcomes point + timePoint.falling outcomes' point :=
  List.countP_append

theorem falling_singleton (point : Int) :
    timePoint.falling [outcome] point = timePoint.hit outcome.time point := by
  by_cases here : timePoint.interval outcome.time = some point <;>
    simp [TimePoints.falling, TimePoints.hit, here]

theorem LeastNonzero.append {first second : List Nat} {a b : Nat}
    (least : LeastNonzero first a) (least' : LeastNonzero second b) :
    LeastNonzero (first ++ second) (if a = 0 ∨ b < a ∧ b ≠ 0 then b else a) := by
  rcases least with ⟨rfl, zero⟩ | ⟨nonzero, member, below⟩
  · rw [if_pos (.inl rfl)]
    rcases least' with ⟨rfl, zero'⟩ | ⟨nonzero', member', below'⟩
    · refine .inl ⟨rfl, fun time member => ?_⟩
      exact (List.mem_append.mp member).elim (zero time) (zero' time)
    · refine .inr ⟨nonzero', List.mem_append_right _ member',
        fun time member positive => ?_⟩
      rcases List.mem_append.mp member with early | late
      · exact absurd (zero time early) positive
      · exact below' time late positive
  · rcases least' with ⟨rfl, zero'⟩ | ⟨nonzero', member', below'⟩
    · rw [if_neg (by simp [nonzero])]
      refine .inr ⟨nonzero, List.mem_append_left _ member,
        fun time member positive => ?_⟩
      rcases List.mem_append.mp member with early | late
      · exact below time early positive
      · exact absurd (zero' time late) positive
    · by_cases less : b < a
      · rw [if_pos (.inr ⟨less, nonzero'⟩)]
        refine .inr ⟨nonzero', List.mem_append_right _ member',
          fun time member positive => ?_⟩
        rcases List.mem_append.mp member with early | late
        · exact less.le.trans (below time early positive)
        · exact below' time late positive
      · rw [if_neg (by simp [nonzero, less])]
        refine .inr ⟨nonzero, List.mem_append_left _ member,
          fun time member positive => ?_⟩
        rcases List.mem_append.mp member with early | late
        · exact below time early positive
        · exact (not_lt.mp less).trans (below' time late positive)

theorem LeastNonzero.eq_zero_iff {times : List Nat} {least : Nat}
    (right : LeastNonzero times least) :
    least = 0 ↔ ∀ time ∈ times, time = 0 := by
  rcases right with ⟨rfl, zero⟩ | ⟨nonzero, member, _⟩
  · exact ⟨fun _ => zero, fun _ => rfl⟩
  · exact ⟨fun zero => absurd zero nonzero, fun zero => zero least member⟩

theorem merge_sums (ins : Sums timePoint outcomes inBody)
    (outs : Sums timePoint outcomes' outBody) :
    Sums timePoint (outcomes' ++ outcomes) (merge timePoint inBody outBody) ∧
      (Short outcomes → ∀ point number, outBody.Shows point number →
        (merge timePoint inBody outBody).Shows point
          (number + timePoint.hit (slowest outcomes) point)) := by
  let added := { outBody with
    count := outBody.count + inBody.count
    timeoutCount := outBody.timeoutCount + inBody.timeoutCount
    execCount := outBody.execCount + inBody.execCount
    totalRspTime := outBody.totalRspTime + inBody.totalRspTime
    maxRspTime :=
      if outBody.maxRspTime < inBody.maxRspTime then inBody.maxRspTime
      else outBody.maxRspTime
    minRspTime :=
      if outBody.minRspTime = 0 ∨
          inBody.minRspTime < outBody.minRspTime ∧ inBody.minRspTime ≠ 0 then
        inBody.minRspTime
      else outBody.minRspTime }
  have full : added.Keyed timePoint := outs.keyed
  obtain ⟨keyed, counts⟩ := getIntervCount_later (toInt inBody.maxRspTime) full
  refine ⟨⟨?_, ?_, ?_, ?_, ?_, keyed⟩, fun short point number shows_ => ?_⟩
  · change outBody.count + inBody.count = _
    rw [outs.count, ins.count, List.countP_append]
  · change outBody.timeoutCount + inBody.timeoutCount = _
    rw [outs.timeoutCount, ins.timeoutCount, List.countP_append]
  · change outBody.execCount + inBody.execCount = _
    rw [outs.execCount, ins.execCount, List.countP_append]
  · change outBody.totalRspTime + inBody.totalRspTime = _
    rw [outs.totalRspTime, ins.totalRspTime, times, times, times,
      List.map_append, List.sum_append]
  · change (if outBody.maxRspTime < inBody.maxRspTime then inBody.maxRspTime
      else outBody.maxRspTime) = _
    rw [outs.maxRspTime, ins.maxRspTime, slowest_append]
    split <;> omega
  · have same : toInt inBody.maxRspTime = slowest outcomes := by
      rw [ins.maxRspTime, toInt_time (slowest_lt short)]
    rw [← same]
    exact counts point number shows_

theorem merge_minRspTime (timePoint : TimePoints)
    (ins : LeastNonzero (times outcomes) inBody.minRspTime)
    (outs : LeastNonzero (times outcomes') outBody.minRspTime) :
    LeastNonzero (times (outcomes' ++ outcomes))
      (merge timePoint inBody outBody).minRspTime := by
  rw [times, List.map_append]
  exact outs.append ins

/-- A body in which everything is right. -/
theorem Sums.totals (sums : Sums timePoint outcomes body)
    (least : LeastNonzero (times outcomes) body.minRspTime)
    (few : outcomes.length < 2 ^ 31)
    (intervals : ∀ point,
      body.Shows point (timePoint.falling outcomes point)) :
    Totals timePoint outcomes body := by
  refine ⟨sums.count, sums.timeoutCount, sums.execCount, sums.totalRspTime,
    sums.maxRspTime, least, fun point member => ?_⟩
  obtain ⟨number, found⟩ := Option.isSome_iff_exists.mp
    ((sums.keyed point).mpr member)
  have here := intervals point
  have most : timePoint.falling outcomes point ≤ outcomes.length :=
    List.countP_le_length
  rw [StatMicMsgBody.Shows, StatMicMsgBody.inInterval, found,
    Option.getD_some, toInt_time (by omega)] at here
  rw [found, here]

theorem outcome_sums (timePoint : TimePoints) (outcome : Outcome) :
    Sums timePoint [outcome] (addCall timePoint outcome none) ∧
      LeastNonzero (times [outcome]) outcome.body.minRspTime ∧
      (Short [outcome] → ∀ point, (addCall timePoint outcome none).Shows point
        (timePoint.falling [outcome] point)) := by
  have empty : outcome.body.intervalCount = ∅ := by cases outcome <;> rfl
  have time : outcome.body.maxRspTime = outcome.time := by cases outcome <;> rfl
  have found := lookup_getIntervCount_first timePoint
    (toInt outcome.body.maxRspTime) empty
  have least : outcome.body.minRspTime = outcome.time := by
    cases outcome <;> rfl
  refine ⟨⟨?_, ?_, ?_, ?_, ?_, ?_⟩, ?_, fun short point => ?_⟩
  · cases outcome <;> rfl
  · cases outcome <;> rfl
  · cases outcome <;> rfl
  · cases outcome <;>
      simp [addCall, getIntervCount, Outcome.body, times, Outcome.time]
  · change outcome.body.maxRspTime = _
    simp [time, slowest, times]
  · intro point
    rw [addCall, found]
    split <;> simp [*]
  · rw [least]
    by_cases zero : outcome.time = 0
    · exact .inl ⟨zero, by simp [times, zero]⟩
    · exact .inr ⟨zero, by simp [times], by simp [times]⟩
  · have one := hit_le_one timePoint outcome.time point
    rw [StatMicMsgBody.Shows, StatMicMsgBody.inInterval, addCall, found, time,
      toInt_time (short outcome List.mem_cons_self), falling_singleton,
      toInt_time (by omega)]
    by_cases member : point ∈ timePoint.points
    · simp [member]
    · have misses : timePoint.interval outcome.time ≠ some point :=
        fun same => member (List.mem_of_find?_eq_some same)
      simp [member, TimePoints.hit, misses]

end Bodies

/-- The number of calls that the body of an adapter loses in an interval when
it is merged. -/
def TimePoints.lost (timePoint : TimePoints) (outcomes : List Outcome)
    (point : Int) : Nat :=
  timePoint.falling outcomes point - timePoint.hit (slowest outcomes) point

/-- The first adapter of a network thread loses none. -/
def TimePoints.missing (timePoint : TimePoints) (lists : List (List Outcome))
    (point : Int) : Nat :=
  (lists.tail.map fun outcomes => timePoint.lost outcomes point).sum

/-- No call took any time. -/
def Instant (lists : List (List Outcome)) : Prop :=
  ∀ time ∈ times lists.flatten, time = 0

/-- The distributions whose report is right: an adapter that is merged behind
another one has a single call or none that falls into an interval, and either
all network threads have a call that took some time or none has. -/
structure Exact (timePoint : TimePoints)
    (threads : List (List (List Outcome))) : Prop where
  merged : ∀ lists ∈ threads, ∀ outcomes ∈ lists.tail,
    outcomes.length = 1 ∨
      ∀ outcome ∈ outcomes, timePoint.interval outcome.time = none
  instants : (∀ lists ∈ threads, ¬ Instant lists) ∨
    ∀ lists ∈ threads, Instant lists

section Levels

variable {timePoint : TimePoints} {outcomes : List Outcome}
  {lists : List (List Outcome)} {threads : List (List (List Outcome))}

theorem adapterBody_exact (timePoint : TimePoints) (some_ : outcomes ≠ []) :
    ∃ body, adapterBody timePoint outcomes = some body ∧
      Sums timePoint outcomes body ∧
      LeastNonzero (times outcomes) body.minRspTime ∧
      (Short outcomes → ∀ point,
        body.Shows point (timePoint.falling outcomes point)) := by
  induction outcomes using List.reverseRecOn with
  | nil => exact absurd rfl some_
  | append_singleton outcomes outcome ih =>
      obtain ⟨sums, least, intervals⟩ := outcome_sums timePoint outcome
      rw [adapterBody, bodyOf_concat, ← adapterBody]
      by_cases first : outcomes = []
      · subst first
        exact ⟨_, rfl, sums, least, intervals⟩
      · obtain ⟨body, found, sums', least', intervals'⟩ := ih first
        rw [found]
        obtain ⟨added, counts⟩ := merge_sums sums sums'
        have least_ : LeastNonzero (times (outcomes ++ [outcome]))
            (merge timePoint outcome.body body).minRspTime :=
          merge_minRspTime timePoint least least'
        refine ⟨_, rfl, added, least_, fun short point => ?_⟩
        obtain ⟨before, here⟩ := List.forall_mem_append.mp short
        have time : slowest [outcome] = outcome.time := by
          simp [slowest, times]
        rw [falling_append, falling_singleton, ← time]
        exact counts here point _ (intervals' before point)

theorem slowest_mem (some_ : outcomes ≠ []) :
    ∃ outcome ∈ outcomes, outcome.time = slowest outcomes := by
  induction outcomes with
  | nil => exact absurd rfl some_
  | cons outcome outcomes ih =>
      by_cases last : outcomes = []
      · subst last
        exact ⟨outcome, by simp, by simp [slowest, times]⟩
      · obtain ⟨other, member, same⟩ := ih last
        have greatest : slowest (outcome :: outcomes) =
            max outcome.time (slowest outcomes) := rfl
        rcases le_total outcome.time (slowest outcomes) with less | more
        · exact ⟨other, List.mem_cons_of_mem _ member, by
            rw [greatest, max_eq_right less, same]⟩
        · exact ⟨outcome, by simp, by rw [greatest, max_eq_left more]⟩

theorem le_slowest {outcome : Outcome} (member : outcome ∈ outcomes) :
    outcome.time ≤ slowest outcomes := by
  induction outcomes with
  | nil => cases member
  | cons first outcomes ih =>
      have greatest : slowest (first :: outcomes) =
          max first.time (slowest outcomes) := rfl
      rw [greatest]
      rcases List.mem_cons.mp member with rfl | later
      · exact le_max_left _ _
      · exact (ih later).trans (le_max_right _ _)

theorem hit_slowest_le (timePoint : TimePoints) (some_ : outcomes ≠ []) (point : Int) :
    timePoint.hit (slowest outcomes) point ≤
      timePoint.falling outcomes point := by
  obtain ⟨outcome, member, same⟩ := slowest_mem some_
  rw [TimePoints.hit]
  split
  · next here =>
      refine List.countP_pos_iff.mpr ⟨outcome, member, ?_⟩
      rw [same, here]
      simp
  · exact Nat.zero_le _

theorem threadBody_exact (timePoint : TimePoints) (some_ : lists ≠ [])
    (full : ∀ list ∈ lists, list ≠ []) :
    ∃ body, threadBody timePoint lists = some body ∧
      Sums timePoint lists.flatten body ∧
      LeastNonzero (times lists.flatten) body.minRspTime ∧
      (Short lists.flatten → ∀ point, ∃ number, body.Shows point number ∧
        number + timePoint.missing lists point =
          timePoint.falling lists.flatten point) := by
  induction lists using List.reverseRecOn with
  | nil => exact absurd rfl some_
  | append_singleton lists outcomes ih =>
      have nonempty : outcomes ≠ [] := full outcomes (by simp)
      obtain ⟨inBody, here, sums, least, intervals⟩ :=
        adapterBody_exact timePoint nonempty
      rw [threadBody, List.filterMap_append, List.filterMap_cons, here,
        List.filterMap_nil, bodyOf_concat, ← threadBody, List.flatten_append,
        List.flatten_cons, List.flatten_nil, List.append_nil]
      by_cases first : lists = []
      · subst first
        exact ⟨inBody, rfl, sums, least,
          fun short point => ⟨_, intervals short point, rfl⟩⟩
      · obtain ⟨body, found, sums', least', intervals'⟩ :=
          ih first fun list member => full list (List.mem_append_left _ member)
        obtain ⟨added, counts⟩ := merge_sums sums sums'
        rw [found]
        refine ⟨_, rfl, added, merge_minRspTime timePoint least least',
          fun short point => ?_⟩
        obtain ⟨earlier, here⟩ := List.forall_mem_append.mp short
        obtain ⟨number, shows_, before⟩ := intervals' earlier point
        have missing : timePoint.missing (lists ++ [outcomes]) point =
            timePoint.missing lists point + timePoint.lost outcomes point := by
          rw [TimePoints.missing, List.tail_append_of_ne_nil first,
            List.map_append, List.sum_append]
          simp [TimePoints.missing]
        have less := hit_slowest_le timePoint nonempty point
        refine ⟨_, counts here point number shows_, ?_⟩
        rw [falling_append, missing, TimePoints.lost]
        omega

theorem addBody_sums {outcomes' : List Outcome} {added old : StatMicMsgBody}
    (sums : Sums timePoint outcomes added)
    (sums' : Sums timePoint outcomes' old) :
    Sums timePoint (outcomes' ++ outcomes) (addBody added (some old)) ∧
      ∀ point number number', old.Shows point number →
        added.Shows point number' →
        (addBody added (some old)).Shows point (number + number') := by
  have found : ∀ point,
      (addBody added (some old)).intervalCount.lookup point =
        (added.intervalCount.lookup point).elim
          (old.intervalCount.lookup point) fun value =>
            some (addCount value (old.intervalCount.lookup point)) :=
    fun point => lookup_mergeInto_at addCount added.intervalCount point
      old.intervalCount
  refine ⟨⟨?_, ?_, ?_, ?_, ?_, fun point => ?_⟩,
    fun point number number' shows_ shows' => ?_⟩
  · change old.count + added.count = _
    rw [sums.count, sums'.count, List.countP_append]
  · change old.timeoutCount + added.timeoutCount = _
    rw [sums.timeoutCount, sums'.timeoutCount, List.countP_append]
  · change old.execCount + added.execCount = _
    rw [sums.execCount, sums'.execCount, List.countP_append]
  · change old.totalRspTime + added.totalRspTime = _
    rw [sums.totalRspTime, sums'.totalRspTime, times, times, times,
      List.map_append, List.sum_append]
  · change (if old.maxRspTime < added.maxRspTime then added.maxRspTime
      else old.maxRspTime) = _
    rw [sums.maxRspTime, sums'.maxRspTime, slowest_append]
    split <;> omega
  · have there := sums.keyed point
    have there' := sums'.keyed point
    rw [found]
    cases entry : added.intervalCount.lookup point with
    | none => simpa [entry] using there'
    | some value =>
        rw [entry] at there
        simpa using there
  · have before : (old.intervalCount.lookup point).getD 0 = toInt number :=
      shows_
    have there : (added.intervalCount.lookup point).getD 0 = toInt number' :=
      shows'
    rw [StatMicMsgBody.Shows, StatMicMsgBody.inInterval, found, Nat.cast_add,
      ← toInt_add, ← before, ← there]
    cases entry : added.intervalCount.lookup point with
    | none =>
        rw [Option.elim_none, Option.getD_none, add_zero, before, toInt_toInt]
    | some value =>
        rw [entry, Option.getD_some] at there
        cases entry' : old.intervalCount.lookup point with
        | none =>
            rw [Option.elim_some, Option.getD_some, Option.getD_none,
              Option.getD_some, addCount, zero_add, there, toInt_toInt]
        | some value' =>
            rw [Option.elim_some, Option.getD_some, Option.getD_some,
              Option.getD_some, addCount]

/-- The least time of the report, as `addMicMsg` finds it. -/
theorem reportBody_exact (timePoint : TimePoints) (some_ : threads ≠ [])
    (full : ∀ lists ∈ threads, lists ≠ [] ∧ ∀ list ∈ lists, list ≠ []) :
    ∃ body, reportBody timePoint threads = some body ∧
      Sums timePoint threads.flatten.flatten body ∧
      ((∀ lists ∈ threads, ¬ Instant lists) →
        LeastNonzero (times threads.flatten.flatten) body.minRspTime) ∧
      ((∃ lists ∈ threads, Instant lists) → body.minRspTime = 0) ∧
      (Short threads.flatten.flatten → ∀ point, ∃ number,
        body.Shows point number ∧
        number + (threads.map fun lists => timePoint.missing lists point).sum =
          timePoint.falling threads.flatten.flatten point) := by
  induction threads using List.reverseRecOn with
  | nil => exact absurd rfl some_
  | append_singleton threads lists ih =>
      obtain ⟨nonempty, full'⟩ := full lists (by simp)
      obtain ⟨added, here, sums, least, intervals⟩ :=
        threadBody_exact timePoint nonempty full'
      have zero_iff : added.minRspTime = 0 ↔ Instant lists :=
        least.eq_zero_iff
      rw [reportBody, List.filterMap_append, List.filterMap_cons, here,
        List.filterMap_nil, bodyOf_concat, ← reportBody, List.flatten_append,
        List.flatten_append, List.flatten_cons, List.flatten_nil,
        List.append_nil]
      by_cases first : threads = []
      · subst first
        refine ⟨added, rfl, by simpa using sums, fun _ => by simpa using least,
          fun instant => zero_iff.mpr (by simpa using instant),
          fun short point => ?_⟩
        simpa using intervals (by simpa using short) point
      · obtain ⟨body, found, sums', least', zero', intervals'⟩ :=
          ih first fun lists member => full lists (List.mem_append_left _ member)
        obtain ⟨total, counts⟩ := addBody_sums sums sums'
        rw [found]
        refine ⟨_, rfl, total, fun slow => ?_, fun instant => ?_,
          fun short point => ?_⟩
        · have slowHere : added.minRspTime ≠ 0 :=
            fun zero => slow lists (by simp) (zero_iff.mp zero)
          have before := least' fun lists member =>
            slow lists (List.mem_append_left _ member)
          have slowBefore : body.minRspTime ≠ 0 := by
            intro zero
            obtain ⟨other, member⟩ := List.exists_mem_of_ne_nil _ first
            refine slow other (List.mem_append_left _ member) fun time there => ?_
            refine before.eq_zero_iff.mp zero time ?_
            simp only [times, List.mem_map] at there ⊢
            obtain ⟨outcome, inside, same⟩ := there
            exact ⟨outcome, List.mem_flatten.mpr (by
              obtain ⟨list, listMember, outcomeMember⟩ :=
                List.mem_flatten.mp inside
              exact ⟨list, List.mem_flatten.mpr ⟨other, member, listMember⟩,
                outcomeMember⟩), same⟩
          have both := before.append least
          simp only [slowHere, slowBefore, false_or, ne_eq, not_false_eq_true,
            and_true] at both
          rw [times, List.map_append]
          exact both
        · change (if added.minRspTime < body.minRspTime then added.minRspTime
            else body.minRspTime) = 0
          obtain ⟨other, member, instantOther⟩ := instant
          rcases List.mem_append.mp member with early | late
          · rw [zero' ⟨other, early, instantOther⟩]
            simp
          · obtain rfl := List.mem_singleton.mp late
            rw [zero_iff.mpr instantOther]
            split <;> omega
        · obtain ⟨early, late⟩ := List.forall_mem_append.mp short
          obtain ⟨number, shows_, before⟩ := intervals' early point
          obtain ⟨number', shows', behind⟩ := intervals late point
          refine ⟨_, counts point number number' shows_ shows', ?_⟩
          rw [falling_append, List.map_append, List.sum_append]
          simp only [List.map_cons, List.map_nil, List.sum_cons, List.sum_nil]
          omega

end Levels

section Losses

variable {timePoint : TimePoints} {outcomes : List Outcome}
  {threads : List (List (List Outcome))}

/-- Below a time that falls into an interval all times do. -/
theorem interval_of_le {time time' : Nat} (less : time ≤ time')
    (falls : (timePoint.interval time').isSome) :
    (timePoint.interval time).isSome := by
  rw [TimePoints.interval, List.find?_isSome] at falls ⊢
  obtain ⟨point, member, above⟩ := falls
  refine ⟨point, member, ?_⟩
  simp only [decide_eq_true_eq] at above ⊢
  omega

/-- A body whose slowest call stands for all of them. -/
theorem lost_eq_zero_iff (some_ : outcomes ≠ []) :
    (∀ point ∈ timePoint.points, timePoint.lost outcomes point = 0) ↔
      outcomes.length = 1 ∨
        ∀ outcome ∈ outcomes, timePoint.interval outcome.time = none := by
  constructor
  · intro lossless
    have counted : ∀ point ∈ timePoint.points,
        timePoint.falling outcomes point =
          timePoint.hit (slowest outcomes) point := by
      intro point member
      have zero := lossless point member
      have less := hit_slowest_le timePoint some_ point
      rw [TimePoints.lost] at zero
      omega
    by_contra neither
    obtain ⟨several, falls⟩ := not_or.mp neither
    push Not at falls
    obtain ⟨outcome, member, falls⟩ := falls
    obtain ⟨point, into⟩ := Option.ne_none_iff_exists'.mp falls
    -- the call is counted, so the slowest one falls into an interval as well
    have inside : point ∈ timePoint.points := List.mem_of_find?_eq_some into
    have positive : 0 < timePoint.falling outcomes point :=
      List.countP_pos_iff.mpr ⟨outcome, member, by simp [into]⟩
    have slow : timePoint.interval (slowest outcomes) = some point := by
      by_contra misses
      rw [counted point inside, TimePoints.hit, if_neg misses] at positive
      exact absurd positive (lt_irrefl 0)
    have all : ∀ other ∈ outcomes,
        timePoint.interval other.time = some point := by
      intro other member'
      obtain ⟨point', into'⟩ := Option.isSome_iff_exists.mp
        (interval_of_le (le_slowest member') (by rw [slow]; rfl))
      have inside' : point' ∈ timePoint.points :=
        List.mem_of_find?_eq_some into'
      have positive' : 0 < timePoint.falling outcomes point' :=
        List.countP_pos_iff.mpr ⟨other, member', by simp [into']⟩
      by_contra different
      have elsewhere : some point ≠ some point' := by
        intro same
        rw [into', ← same] at different
        exact different rfl
      rw [counted point' inside', TimePoints.hit, slow,
        if_neg elsewhere] at positive'
      exact absurd positive' (lt_irrefl 0)
    have every : timePoint.falling outcomes point = outcomes.length := by
      refine List.countP_eq_length.mpr fun other member' => ?_
      simp [all other member']
    have one := hit_le_one timePoint (slowest outcomes) point
    rw [← counted point inside, every] at one
    have length := List.length_pos_iff.mpr some_
    omega
  · rintro (single | outside) point member
    · obtain ⟨outcome, rfl⟩ := List.length_eq_one_iff.mp single
      have time : slowest [outcome] = outcome.time := by simp [slowest, times]
      rw [TimePoints.lost, falling_singleton, time, Nat.sub_self]
    · have none_ : timePoint.falling outcomes point = 0 := by
        refine List.countP_eq_zero.mpr fun outcome inside => ?_
        simp [outside outcome inside]
      rw [TimePoints.lost, none_, Nat.zero_sub]

/-- The report of a head agrees with its calls if and only if their
distribution is an exact one. -/
theorem reportBody_totals_iff (some_ : threads ≠ [])
    (fits : Fits threads.flatten.flatten)
    (full : ∀ lists ∈ threads, lists ≠ [] ∧ ∀ list ∈ lists, list ≠ []) :
    ∃ body, reportBody timePoint threads = some body ∧
      (Totals timePoint threads.flatten.flatten body ↔
        Exact timePoint threads) := by
  obtain ⟨body, found, sums, least, zero, intervals⟩ :=
    reportBody_exact timePoint some_ full
  have nothing : ∀ lists ∈ threads, Instant lists →
      ∀ outcome ∈ lists.flatten, outcome.time = 0 :=
    fun lists _ instant outcome member =>
      instant outcome.time (List.mem_map_of_mem member)
  refine ⟨body, found, fun totals => ⟨fun lists member outcomes tail => ?_, ?_⟩,
    fun exact_ => sums.totals ?_ fits.few fun point => ?_⟩
  · have nonempty := (full lists member).2 outcomes (List.mem_of_mem_tail tail)
    refine (lost_eq_zero_iff nonempty).mp fun point inside => ?_
    obtain ⟨number, shows_, sum⟩ := intervals fits.short point
    have most : timePoint.falling threads.flatten.flatten point ≤
        threads.flatten.flatten.length := List.countP_le_length
    have few := fits.few
    rw [StatMicMsgBody.Shows, StatMicMsgBody.inInterval,
      totals.intervalCount point inside, Option.getD_some,
      toInt_time (by omega)] at shows_
    have zeros : (threads.map fun lists =>
        timePoint.missing lists point).sum = 0 := by omega
    have here : timePoint.missing lists point = 0 :=
      List.sum_eq_zero_iff.mp zeros _
        (List.mem_map_of_mem (f := fun lists => timePoint.missing lists point)
          member)
    exact List.sum_eq_zero_iff.mp here _
      (List.mem_map_of_mem (f := fun outcomes => timePoint.lost outcomes point)
        tail)
  · by_cases instant : ∃ lists ∈ threads, Instant lists
    · right
      have zeros := totals.minRspTime.eq_zero_iff.mp (zero instant)
      intro lists member time there
      refine zeros time ?_
      obtain ⟨outcome, inside, rfl⟩ := List.mem_map.mp there
      obtain ⟨list, listMember, outcomeMember⟩ := List.mem_flatten.mp inside
      exact List.mem_map_of_mem (List.mem_flatten.mpr ⟨list,
        List.mem_flatten.mpr ⟨lists, member, listMember⟩, outcomeMember⟩)
    · left
      intro lists member here
      exact instant ⟨lists, member, here⟩
  · rcases exact_.instants with slow | instants
    · exact least slow
    · obtain ⟨lists, member⟩ := List.exists_mem_of_ne_nil _ some_
      refine .inl ⟨zero ⟨lists, member, instants lists member⟩, ?_⟩
      intro time there
      obtain ⟨outcome, inside, rfl⟩ := List.mem_map.mp there
      obtain ⟨list, listMember, outcomeMember⟩ := List.mem_flatten.mp inside
      obtain ⟨lists', member', here⟩ := List.mem_flatten.mp listMember
      exact nothing lists' member' (instants lists' member') outcome
        (List.mem_flatten.mpr ⟨list, here, outcomeMember⟩)
  · obtain ⟨number, shows_, sum⟩ := intervals fits.short point
    by_cases inside : point ∈ timePoint.points
    · have zeros : (threads.map fun lists =>
          timePoint.missing lists point).sum = 0 := by
        refine List.sum_eq_zero_iff.mpr fun number there => ?_
        obtain ⟨lists, member, rfl⟩ := List.mem_map.mp there
        refine List.sum_eq_zero_iff.mpr fun number there => ?_
        obtain ⟨outcomes, tail, rfl⟩ := List.mem_map.mp there
        have nonempty := (full lists member).2 outcomes
          (List.mem_of_mem_tail tail)
        exact (lost_eq_zero_iff nonempty).mpr
          (exact_.merged lists member outcomes tail) point inside
      have same : number = timePoint.falling threads.flatten.flatten point := by
        omega
      rw [← same]
      exact shows_
    · have unlisted : body.intervalCount.lookup point = none := by
        rw [← Option.not_isSome_iff_eq_none, sums.keyed point]
        exact inside
      have none_ : timePoint.falling threads.flatten.flatten point = 0 := by
        refine List.countP_eq_zero.mpr fun outcome _ falls => ?_
        have into : timePoint.interval outcome.time = some point := by
          simpa using falls
        exact inside (List.mem_of_find?_eq_some into)
      rw [none_, StatMicMsgBody.Shows, StatMicMsgBody.inInterval, unlisted]
      rfl

end Losses

section Tables

variable {η : Type}

theorem length_eq_counts (outcomes : List Outcome) :
    outcomes.length = outcomes.countP Outcome.isSuccess +
      outcomes.countP Outcome.isTimeout +
      outcomes.countP Outcome.isException := by
  induction outcomes with
  | nil => rfl
  | cons outcome outcomes ih =>
      cases outcome <;>
        simp only [List.length_cons, List.countP_cons, Outcome.isSuccess,
          Outcome.isTimeout, Outcome.isException, Bool.false_eq_true, if_false,
          if_true] <;> omega

/-- Every body of an adapter has data. -/
theorem statBody_counted (timePoint : TimePoints) (adapter : Adapter η) :
    ∀ entry ∈ (adapter.statBody timePoint).entries,
      entry.2.counted = true := by
  rintro ⟨interfaceName, body⟩ member
  have found : (adapter.statBody timePoint).lookup interfaceName = some body :=
    AList.mem_lookup_iff.mpr member
  rw [Adapter.statBody, statBody_lookup] at found
  generalize (adapter.msgs.filter fun msg =>
    !msg.bPush && msg.sFuncName == interfaceName).map
      ReqMessage.outcome = outcomes at found
  have some_ : outcomes ≠ [] := by
    rintro rfl
    cases found
  obtain ⟨body', found', sums, -⟩ := adapterBody_exact timePoint some_
  obtain rfl : body' = body := Option.some.inj (found'.symm.trans found)
  have length := length_eq_counts outcomes
  have positive := List.length_pos_iff.mpr some_
  rw [← sums.count, ← sums.timeoutCount, ← sums.execCount] at length
  simp only [StatMicMsgBody.counted, ne_eq, Bool.or_eq_true, decide_eq_true_eq]
  omega

variable [DecidableEq η]

theorem mergeStat_lookup (timePoint : TimePoints) (adapter : Adapter η)
    (head : StatMicMsgHead η)
    (table : Table (StatMicMsgHead η) StatMicMsgBody) :
    (mergeStat timePoint adapter.fixed (adapter.statBody timePoint)
        table).lookup head =
      (adapterBody timePoint (adapter.outcomes head)).elim (table.lookup head)
        fun body => some (mergeBody timePoint body (table.lookup head)) := by
  have all := statBody_counted timePoint adapter
  rw [mergeStat, List.filter_eq_self.mpr all]
  obtain ⟨fixed, interfaceName⟩ := head
  by_cases own : adapter.fixed = fixed
  · subst own
    have injective : Function.Injective
        (StatMicMsgHead.mk adapter.fixed) := by
      intro first second same
      cases same
      rfl
    rw [lookup_mergeInto (mergeBody timePoint) injective
        (adapter.statBody timePoint) interfaceName table,
      ← statBody_outcomes adapter ⟨adapter.fixed, interfaceName⟩ rfl]
  · have none_ : adapter.outcomes ⟨fixed, interfaceName⟩ = [] := if_neg own
    rw [none_, lookup_mergeInto_other]
    · rfl
    · rintro entry - same
      injection same with fixed_ _
      exact own fixed_

theorem present_append {α : Type} (lists lists' : List (List α)) :
    present (lists ++ lists') = present lists ++ present lists' :=
  List.filter_append lists lists'

theorem reported_concat (head : StatMicMsgHead η)
    (adapters : List (Adapter η)) (adapter : Adapter η) :
    reported head (adapters ++ [adapter]) =
      reported head adapters ++ present [adapter.outcomes head] := by
  rw [reported, List.map_append, present_append]
  rfl

theorem distributed_concat (head : StatMicMsgHead η)
    (reports : List (List (Adapter η))) (adapters : List (Adapter η)) :
    distributed head (reports ++ [adapters]) =
      distributed head reports ++ present [reported head adapters] := by
  rw [distributed, List.map_append, present_append]
  rfl

theorem gather_lookup (timePoint : TimePoints) (adapters : List (Adapter η))
    (head : StatMicMsgHead η) :
    (gather timePoint adapters).lookup head =
      threadBody timePoint (reported head adapters) := by
  induction adapters using List.reverseRecOn with
  | nil => rfl
  | append_singleton adapters adapter ih =>
      rw [gather, List.foldl_append, List.foldl_cons, List.foldl_nil, ← gather,
        mergeStat_lookup, ih, reported_concat, threadBody, threadBody,
        List.filterMap_append]
      by_cases none_ : adapter.outcomes head = []
      · have nothing : present [adapter.outcomes head] = [] := by
          simp [present, none_]
        rw [nothing, none_]
        simp [adapterBody, bodyOf]
      · have something : present [adapter.outcomes head] =
            [adapter.outcomes head] := by
          simp [present, none_]
        obtain ⟨body, found, -⟩ := adapterBody_exact timePoint none_
        rw [something, List.filterMap_cons, found, List.filterMap_nil,
          bodyOf_concat]
        rfl

theorem mem_present {α : Type} {lists : List (List α)} {list : List α}
    (member : list ∈ present lists) : list ≠ [] := by
  have kept := (List.mem_filter.mp member).2
  simpa using kept

theorem aggregate_lookup (timePoint : TimePoints)
    (reports : List (List (Adapter η))) (head : StatMicMsgHead η) :
    (aggregate timePoint reports).lookup head =
      reportBody timePoint (distributed head reports) := by
  induction reports using List.reverseRecOn with
  | nil => rfl
  | append_singleton reports adapters ih =>
      rw [aggregate, List.foldl_append, List.foldl_cons, List.foldl_nil,
        ← aggregate, addMicMsg, lookup_mergeInto_at, gather_lookup, ih,
        distributed_concat, reportBody, reportBody, List.filterMap_append]
      by_cases none_ : reported head adapters = []
      · have nothing : present [reported head adapters] = [] := by
          simp [present, none_]
        rw [nothing, none_]
        simp [threadBody, bodyOf]
      · have something : present [reported head adapters] =
            [reported head adapters] := by
          simp [present, none_]
        obtain ⟨body, found, -⟩ := threadBody_exact timePoint none_
          fun list member => mem_present member
        rw [something, List.filterMap_cons, found, List.filterMap_nil,
          bodyOf_concat]
        rfl

theorem submitted_lookup (timePoint : TimePoints)
    (calls : List (StatMicMsgHead η × Outcome)) (head : StatMicMsgHead η) :
    (submitted timePoint calls).lookup head = adapterBody timePoint
      ((calls.filter fun call => call.1 = head).map Prod.snd) := by
  induction calls using List.reverseRecOn with
  | nil => rfl
  | append_singleton calls call ih =>
      rw [submitted, List.foldl_append, List.foldl_cons, List.foldl_nil,
        ← submitted, submit, List.filter_append, List.map_append]
      by_cases same : call.1 = head
      · subst same
        rw [lookup_upsert, ih]
        simp [adapterBody, bodyOf_concat]
      · have other : head ≠ call.1 := fun equal => same equal.symm
        rw [lookup_upsert_ne other, ih]
        simp [same]

theorem flatten_present {α : Type} (lists : List (List α)) :
    (present lists).flatten = lists.flatten :=
  List.flatten_filter_not_isEmpty

/-- The calls of a head in all reports. -/
def callsOf (head : StatMicMsgHead η) (reports : List (List (Adapter η))) :
    List Outcome :=
  reports.flatMap fun adapters => adapters.flatMap (Adapter.outcomes head)

theorem distributed_flatten (head : StatMicMsgHead η)
    (reports : List (List (Adapter η))) :
    (distributed head reports).flatten.flatten = callsOf head reports := by
  rw [distributed, flatten_present, callsOf]
  induction reports with
  | nil => rfl
  | cons adapters reports ih =>
      rw [List.map_cons, List.flatten_cons, List.flatten_append, ih,
        List.flatMap_cons, reported, flatten_present]
      rfl

/-- An entry that agrees with the calls: there is none if there are no calls. -/
def Reports (timePoint : TimePoints) (outcomes : List Outcome)
    (entry : Option StatMicMsgBody) : Prop :=
  entry.elim (outcomes = []) fun body =>
    outcomes ≠ [] ∧ Totals timePoint outcomes body

theorem flatten_ne_nil {α : Type} {lists : List (List α)} (some_ : lists ≠ [])
    (full : ∀ list ∈ lists, list ≠ []) : lists.flatten ≠ [] := by
  obtain ⟨list, member⟩ := List.exists_mem_of_ne_nil _ some_
  intro nothing
  exact full list member (List.flatten_eq_nil_iff.mp nothing list member)

/-- As long as the times and the number of its calls are `int`s, the entry of a
head is right if and only if the calls are distributed in an exact way; what is
submitted call by call is right in any case. -/
theorem aggregate_reports_iff (timePoint : TimePoints)
    (reports : List (List (Adapter η)))
    (calls : List (StatMicMsgHead η × Outcome)) (head : StatMicMsgHead η)
    (fits : Fits (callsOf head reports))
    (fits' : Fits ((calls.filter fun call => call.1 = head).map Prod.snd)) :
    (Reports timePoint (callsOf head reports)
        ((aggregate timePoint reports).lookup head) ↔
      Exact timePoint (distributed head reports)) ∧
    Reports timePoint ((calls.filter fun call => call.1 = head).map Prod.snd)
      ((submitted timePoint calls).lookup head) := by
  rw [aggregate_lookup, submitted_lookup, ← distributed_flatten]
  rw [← distributed_flatten] at fits
  constructor
  · have full : ∀ lists ∈ distributed head reports,
        lists ≠ [] ∧ ∀ list ∈ lists, list ≠ [] := by
      intro lists member
      refine ⟨mem_present member, fun list inside => ?_⟩
      obtain ⟨adapters, -, rfl⟩ :=
        List.mem_map.mp (List.mem_filter.mp member).1
      exact mem_present inside
    by_cases none_ : distributed head reports = []
    · rw [none_]
      exact ⟨fun _ => ⟨by simp, .inl (by simp)⟩, fun _ => rfl⟩
    · obtain ⟨body, found, totals⟩ :=
        @reportBody_totals_iff timePoint _ none_ fits full
      have some_ : (distributed head reports).flatten.flatten ≠ [] := by
        refine flatten_ne_nil (flatten_ne_nil none_
          fun lists member => (full lists member).1) fun list member => ?_
        obtain ⟨lists, outer, inner⟩ := List.mem_flatten.mp member
        exact (full lists outer).2 list inner
      rw [found, ← totals]
      exact ⟨fun right => right.2, fun right => ⟨some_, right⟩⟩
  · generalize (calls.filter fun call => call.1 = head).map Prod.snd =
      outcomes at fits' ⊢
    by_cases none_ : outcomes = []
    · subst none_
      rfl
    · obtain ⟨body, found, sums, least, intervals⟩ :=
        adapterBody_exact timePoint none_
      rw [found]
      exact ⟨none_, sums.totals least fits'.few (intervals fits'.short)⟩

/-- Calls of 7 and 60 milliseconds, in two threads and submitted one by one. -/
theorem aggregate_reports_iff_two :
    let call (iEndTime : Int) : ReqMessage :=
      ⟨false, .REQ_RSP, 0, "test", 0, iEndTime⟩
    let reports : List (List (Adapter Unit)) :=
      [[⟨(), [call 7, call 60]⟩, ⟨(), [call 7]⟩], [⟨(), [call 60]⟩]]
    let calls : List (StatMicMsgHead Unit × Outcome) :=
      [(⟨(), "test"⟩, .success 7), (⟨(), "test"⟩, .timeout)]
    (Reports resetStatInterv (callsOf ⟨(), "test"⟩ reports)
        ((aggregate resetStatInterv reports).lookup ⟨(), "test"⟩) ↔
      Exact resetStatInterv (distributed ⟨(), "test"⟩ reports)) ∧
    Reports resetStatInterv
      ((calls.filter fun call => call.1 = ⟨(), "test"⟩).map Prod.snd)
      ((submitted resetStatInterv calls).lookup ⟨(), "test"⟩) := by
  intro call reports calls
  exact aggregate_reports_iff resetStatInterv reports calls ⟨(), "test"⟩
    ⟨by unfold Short; decide, by decide⟩ ⟨by unfold Short; decide, by decide⟩

/-- Two adapters with one head, two calls each: one call is missing in the
histogram.  A single call of more milliseconds than an `int` has is counted as
one of less than five. -/
theorem aggregate_loses_calls :
    let call (iEndTime : Int) : ReqMessage :=
      ⟨false, .REQ_RSP, 0, "test", 0, iEndTime⟩
    let reports : List (List (Adapter Unit)) :=
      [[⟨(), [call 7, call 7]⟩, ⟨(), [call 7, call 7]⟩]]
    let long : List (List (Adapter Unit)) := [[⟨(), [call 2147483648]⟩]]
    ¬ Reports resetStatInterv (callsOf ⟨(), "test"⟩ reports)
        ((aggregate resetStatInterv reports).lookup ⟨(), "test"⟩) ∧
      ¬ Reports resetStatInterv (callsOf ⟨(), "test"⟩ long)
        ((aggregate resetStatInterv long).lookup ⟨(), "test"⟩) := by
  intro call reports long
  constructor
  · intro right
    have three : ((aggregate resetStatInterv reports).lookup
        ⟨(), "test"⟩).map (fun body => body.intervalCount.lookup 10) =
          some (some 3) := by
      decide
    obtain ⟨body, found, number⟩ := Option.map_eq_some_iff.mp three
    rw [found] at right
    have four := right.2.intervalCount 10 (by decide)
    rw [number] at four
    exact absurd four (by decide)
  · intro right
    have one : ((aggregate resetStatInterv long).lookup
        ⟨(), "test"⟩).map (fun body => body.intervalCount.lookup 5) =
          some (some 1) := by
      decide
    obtain ⟨body, found, number⟩ := Option.map_eq_some_iff.mp one
    rw [found] at right
    have none_ := right.2.intervalCount 5 (by decide)
    rw [number] at none_
    exact absurd none_ (by decide)

end Tables

end TarsCpp.Servant
