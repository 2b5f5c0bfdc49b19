import TarsCpp.CString
import TarsCpp.KeyedMerge

/-!
# Reporting call statistics

The counters that the calls of one head are added up in, and the routines that
add to them: `stat` and `submit` a single call, `mergeStat` the body of an
adapter, `addMicMsg` the body of a network thread.  Only the last one adds the
histograms entry by entry.  The numbers of a histogram are `int`s, and so is the
time that `getIntervCount` takes; what is too large wraps around.

The way of a call's outcome to the report: the table of its adapter, the table
that a network thread gathers from its adapters, and the table that the report
thread adds up.  Calls that are reported directly go through `submit`.
-/

namespace TarsCpp.Servant

open KeyedMerge
open CString (toInt toInt_eq toInt_add toInt_succ)

/-- How a call ended. -/
inductive Outcome
  | success (sptime : Nat)
  | timeout
  | exception

/-- The time a call is recorded with; only a success has one of its own. -/
def Outcome.time : Outcome → Nat
  | .success sptime => sptime
  | .timeout => 0
  | .exception => 0

def Outcome.isSuccess : Outcome → Bool
  | .success _ => true
  | _ => false

def Outcome.isTimeout : Outcome → Bool
  | .timeout => true
  | _ => false

def Outcome.isException : Outcome → Bool
  | .exception => true
  | _ => false

/-- The fields of the generated struct.  Its numbers, except for those in
`intervalCount`, are of types that are not in the repository and are taken to
be large enough. -/
structure StatMicMsgBody where
  count : Nat := 0
  timeoutCount : Nat := 0
  execCount : Nat := 0
  intervalCount : Table Int Int := ∅
  totalRspTime : Nat := 0
  maxRspTime : Nat := 0
  minRspTime : Nat := 0

/-- `_timePoint`, sorted and without repetitions. -/
structure TimePoints where
  points : List Int
  ascending : points.Pairwise (· < ·)

/-- The time points of `resetStatInterv`. -/
def resetStatInterv : TimePoints where
  points := [5, 10, 50, 100, 200, 500, 1000, 2000, 3000]
  ascending := by decide

/-- The loop of `getIntervCount` over the time points. -/
def countInterval (time : Int) (bNeedInit : Bool) :
    List Int → Bool → Table Int Int → Table Int Int
  | [], _, intervalCount => intervalCount
  | iTimePoint :: points, bGetIntev, intervalCount =>
      if !bGetIntev ∧ time < iTimePoint then
        let counted := upsert (fun old => toInt (old.getD 0 + 1)) iTimePoint
          intervalCount
        if !bNeedInit then counted
        else countInterval time bNeedInit points true counted
      else if bNeedInit then
        countInterval time bNeedInit points bGetIntev
          (intervalCount.insert iTimePoint 0)
      else countInterval time bNeedInit points bGetIntev intervalCount

def getIntervCount (timePoint : TimePoints) (time : Int)
    (body : StatMicMsgBody) : StatMicMsgBody :=
  { body with
    intervalCount := countInterval time body.intervalCount.entries.isEmpty
      timePoint.points false body.intervalCount }

/-- The text that `AdapterProxy::merge` and `StatReport::submit` share. -/
def accumulate (timePoint : TimePoints) (inBody outBody : StatMicMsgBody) :
    StatMicMsgBody :=
  getIntervCount timePoint (toInt inBody.maxRspTime)
    { outBody with
      count := outBody.count + inBody.count
      timeoutCount := outBody.timeoutCount + inBody.timeoutCount
      execCount := outBody.execCount + inBody.execCount
      totalRspTime := outBody.totalRspTime + inBody.totalRspTime
      maxRspTime :=
        if outBody.maxRspTime < inBody.maxRspTime then inBody.maxRspTime
        else outBody.maxRspTime
      minRspTime :=
        if outBody.minRspTime = 0 ∨
            inBody.minRspTime < outBody.minRspTime ∧ inBody.minRspTime ≠ 0 then
          inBody.minRspTime
        else outBody.minRspTime }

/-- `AdapterProxy::merge`. -/
def merge (timePoint : TimePoints) (inBody outBody : StatMicMsgBody) :
    StatMicMsgBody :=
  accumulate timePoint inBody outBody

/-- The body of a single call. -/
def Outcome.body : Outcome → StatMicMsgBody
  | .success sptime =>
      { count := 1, totalRspTime := sptime, minRspTime := sptime,
        maxRspTime := sptime }
  | .timeout => { timeoutCount := 1 }
  | .exception => { execCount := 1 }

/-- What `stat` and `submit` do with the body of a call: the first body of a
head is stored, a later one added. -/
def addCall (timePoint : TimePoints) (outcome : Outcome) :
    Option StatMicMsgBody → StatMicMsgBody
  | some body => merge timePoint outcome.body body
  | none =>
      getIntervCount timePoint (toInt outcome.body.maxRspTime) outcome.body

/-- What `mergeStat` does with the body of an adapter. -/
def mergeBody (timePoint : TimePoints) (inBody : StatMicMsgBody) :
    Option StatMicMsgBody → StatMicMsgBody
  | some body => merge timePoint inBody body
  | none => inBody

/-- An entry of a histogram is inserted or added. -/
def addCount (value : Int) : Option Int → Int
  | none => value
  | some value' => toInt (value' + value)

/-- What `addMicMsg` does with the body of a network thread. -/
def addBody (added : StatMicMsgBody) :
    Option StatMicMsgBody → StatMicMsgBody
  | some old =>
      { count := old.count + added.count
        timeoutCount := old.timeoutCount + added.timeoutCount
        execCount := old.execCount + added.execCount
        intervalCount := mergeInto id addCount added.intervalCount.entries
          old.intervalCount
        totalRspTime := old.totalRspTime + added.totalRspTime
        maxRspTime :=
          if old.maxRspTime < added.maxRspTime then added.maxRspTime
          else old.maxRspTime
        minRspTime :=
          if added.minRspTime < old.minRspTime then added.minRspTime
          else old.minRspTime }
  | none => added

/-- Bodies added one after the other, from nothing. -/
def bodyOf {ι : Type} (add : ι → Option StatMicMsgBody → StatMicMsgBody)
    (items : List ι) : Option StatMicMsgBody :=
  items.foldl (fun body item => some (add item body)) none

/-- The interval that a time falls into: the first time point above it. -/
def TimePoints.interval (timePoint : TimePoints) (time : Int) : Option Int :=
  timePoint.points.find? fun point => time < point

/-- One if the time falls into the interval. -/
def TimePoints.hit (timePoint : TimePoints) (time point : Int) : Nat :=
  if timePoint.interval time = some point then 1 else 0

/-- The entries of a body are those of the time points. -/
def StatMicMsgBody.Keyed (timePoint : TimePoints) (body : StatMicMsgBody) :
    Prop :=
  ∀ point, (body.intervalCount.lookup point).isSome ↔
    point ∈ timePoint.points

/-- The number in an interval. -/
def StatMicMsgBody.inInterval (body : StatMicMsgBody) (point : Int) : Int :=
  (body.intervalCount.lookup point).getD 0

/-- The `int` in an interval is what is left of this number. -/
def StatMicMsgBody.Shows (body : StatMicMsgBody) (point : Int) (number : Nat) :
    Prop :=
  body.inInterval point = toInt number

section Intervals

variable {timePoint : TimePoints} {time : Int} {points : List Int}
  {body : StatMicMsgBody}

/-- Nothing but the first time point above the time is counted up. -/
theorem lookup_countInterval_later (time : Int) (points : List Int)
    (got : Bool) (table : Table Int Int) (point : Int) :
    (countInterval time false points got table).lookup point =
      if got = false ∧
          points.find? (fun point => time < point) = some point then
        some (toInt ((table.lookup point).getD 0 + 1))
      else table.lookup point := by
  induction points generalizing table with
  | nil => simp [countInterval]
  | cons first points ih =>
      rw [countInterval]
      by_cases here : !got ∧ time < first
      · obtain ⟨notYet, above⟩ := here
        have notYet' : got = false := by simpa using notYet
        by_cases same : point = first
        · subst point
          simp [notYet', above, lookup_upsert]
        · have other : first ≠ point := fun equal => same equal.symm
          simp [notYet', above, lookup_upsert_ne same, other]
      · rw [if_neg here]
        simp only [Bool.false_eq_true, if_false]
        rw [ih]
        cases got with
        | true => simp
        | false =>
            have below : ¬ time < first := by simpa using here
            simp [below]

/-- The first body of a head gets an entry for every time point. -/
theorem lookup_countInterval_first (time : Int) (got : Bool)
    (table : Table Int Int) (nodup : points.Nodup)
    (foreign : ∀ point ∈ points, point ∉ table)
    (point : Int) :
    (countInterval time true points got table).lookup point =
      if point ∈ points then
        some (if got = false ∧
          points.find? (fun point => time < point) = some point
          then 1 else 0)
      else table.lookup point := by
  induction points generalizing got table with
  | nil => simp [countInterval]
  | cons first points ih =>
      obtain ⟨notLater, nodup'⟩ := List.nodup_cons.mp nodup
      have absent : first ∉ table := foreign first (by simp)
      have foreign' : ∀ value, ∀ point ∈ points,
          point ∉ table.insert first value := by
        intro value point member
        rw [AList.mem_insert]
        rintro (rfl | there)
        · exact notLater member
        · exact foreign point (List.mem_cons_of_mem _ member) there
      rw [countInterval]
      by_cases here : !got ∧ time < first
      · obtain ⟨notYet, above⟩ := here
        have notYet' : got = false := by simpa using notYet
        have zero : table.lookup first = none :=
          AList.lookup_eq_none.mpr absent
        simp only [notYet', above, Bool.not_false, and_self, if_true,
          Bool.not_true, Bool.false_eq_true, if_false]
        rw [upsert, ih true _ nodup' (foreign' _), zero]
        by_cases same : point = first
        · subst point
          simp [notLater, above, toInt]
        · have other : first ≠ point := fun equal => same equal.symm
          simp [same, other, above, AList.lookup_insert_ne same]
      · rw [if_neg here, if_pos rfl, ih got _ nodup' (foreign' _)]
        have below : got = false → ¬ time < first := by
          intro notYet above
          exact here ⟨by simp [notYet], above⟩
        by_cases same : point = first
        · subst point
          have skips : ¬ (got = false ∧ (first :: points).find?
              (fun point => time < point) = some first) := by
            rintro ⟨notYet, found⟩
            have above := List.find?_some found
            exact below notYet (by simpa using above)
          rw [if_neg notLater, if_pos List.mem_cons_self, if_neg skips,
            AList.lookup_insert]
        · rw [AList.lookup_insert_ne same]
          cases got with
          | true => simp [same]
          | false => simp [same, below rfl]

theorem TimePoints.nodup (timePoint : TimePoints) : timePoint.points.Nodup :=
  timePoint.ascending.imp fun less => less.ne

/-- An empty histogram gets an entry for every time point. -/
theorem lookup_getIntervCount_first (timePoint : TimePoints) (time : Int)
    (empty : body.intervalCount = ∅) (point : Int) :
    (getIntervCount timePoint time body).intervalCount.lookup point =
      if point ∈ timePoint.points then some (timePoint.hit time point : Int)
      else none := by
  have first := lookup_countInterval_first time false
    (∅ : Table Int Int) timePoint.nodup (fun _ _ => AList.notMem_empty _) point
  simp only [getIntervCount, empty]
  rw [show (∅ : Table Int Int).entries.isEmpty = true from rfl, first]
  by_cases falls : timePoint.points.find? (fun point => time < point) =
      some point <;>
    simp [TimePoints.hit, TimePoints.interval, falls]

/-- In a full histogram one entry is counted up. -/
theorem getIntervCount_later (time : Int) (keyed : body.Keyed timePoint) :
    (getIntervCount timePoint time body).Keyed timePoint ∧
      ∀ point number, body.Shows point number →
        (getIntervCount timePoint time body).Shows point
          (number + timePoint.hit time point) := by
  by_cases none_ : timePoint.points = []
  · have unchanged : (getIntervCount timePoint time body).intervalCount =
        body.intervalCount := by
      simp [getIntervCount, none_, countInterval]
    refine ⟨fun point => ?_, fun point number shows_ => ?_⟩
    · rw [unchanged]
      exact keyed point
    · have none' : timePoint.hit time point = 0 := by
        simp [TimePoints.hit, TimePoints.interval, none_]
      rw [StatMicMsgBody.Shows, StatMicMsgBody.inInterval, unchanged, none']
      exact shows_
  · have full : body.intervalCount.entries.isEmpty = false := by
      obtain ⟨point, member⟩ := List.exists_mem_of_ne_nil _ none_
      have there := (keyed point).mpr member
      cases entries : body.intervalCount.entries with
      | nil =>
          simp [AList.lookup, entries] at there
      | cons _ _ => rfl
    have later := fun point => lookup_countInterval_later time timePoint.points
      false body.intervalCount point
    have found : ∀ point,
        (getIntervCount timePoint time body).intervalCount.lookup point =
          if timePoint.interval time = some point then
            some (toInt ((body.intervalCount.lookup point).getD 0 + 1))
          else body.intervalCount.lookup point := by
      intro point
      simp only [getIntervCount, full]
      rw [later]
      simp only [true_and, TimePoints.interval]
      congr
    refine ⟨fun point => ?_, fun point number shows_ => ?_⟩
    · rw [found]
      split
      · next here =>
          have member := List.mem_of_find?_eq_some here
          simp [member]
      · exact keyed point
    · have before : (body.intervalCount.lookup point).getD 0 = toInt number :=
        shows_
      rw [StatMicMsgBody.Shows, StatMicMsgBody.inInterval, found,
        TimePoints.hit]
      split
      · rw [Option.getD_some, before, toInt_succ, Nat.cast_add, Nat.cast_one]
      · exact before

end Intervals

/-- A head of the statistics; `η` are the fields that an adapter fixes. -/
structure StatMicMsgHead (η : Type) where
  fixed : η
  interfaceName : String
deriving DecidableEq

inductive ReqStatus
  | REQ_REQ | REQ_RSP | REQ_TIME | REQ_EXC
deriving DecidableEq

/-- The fields of a `ReqMessage` that `stat` looks at. -/
structure ReqMessage where
  bPush : Bool
  eStatus : ReqStatus
  iRet : Int
  sFuncName : String
  iBeginTime : Int
  iEndTime : Int

/-- What `stat` takes a message for.  A clock that has gone back counts as ten
seconds; `TARSSERVERSUCCESS` is 0. -/
def ReqMessage.outcome (msg : ReqMessage) : Outcome :=
  if msg.eStatus = .REQ_RSP ∧ msg.iRet = 0 then
    .success (if msg.iBeginTime ≤ msg.iEndTime then
      (msg.iEndTime - msg.iBeginTime).toNat else 10000)
  else if msg.eStatus = .REQ_TIME then .timeout
  else .exception

/-- `AdapterProxy::stat`, with the end time of the message set. -/
def stat (timePoint : TimePoints) (statBody : Table String StatMicMsgBody)
    (msg : ReqMessage) : Table String StatMicMsgBody :=
  if msg.bPush then statBody
  else upsert (addCall timePoint msg.outcome) msg.sFuncName statBody

variable {η : Type} [DecidableEq η]

/-- A body with data. -/
def StatMicMsgBody.counted (body : StatMicMsgBody) : Bool :=
  body.count ≠ 0 || body.timeoutCount ≠ 0 || body.execCount ≠ 0

/-- `AdapterProxy::mergeStat`. -/
def mergeStat (timePoint : TimePoints) (fixed : η)
    (statBody : Table String StatMicMsgBody)
    (mStatMicMsg : Table (StatMicMsgHead η) StatMicMsgBody) :
    Table (StatMicMsgHead η) StatMicMsgBody :=
  mergeInto (StatMicMsgHead.mk fixed) (mergeBody timePoint)
    (statBody.entries.filter fun entry => entry.2.counted) mStatMicMsg

/-- `StatReport::addMicMsg`. -/
def addMicMsg (old add : Table (StatMicMsgHead η) StatMicMsgBody) :
    Table (StatMicMsgHead η) StatMicMsgBody :=
  mergeInto id addBody add.entries old

/-- `StatReport::submit` of a single call. -/
def submit (timePoint : TimePoints)
    (msg : Table (StatMicMsgHead η) StatMicMsgBody)
    (call : StatMicMsgHead η × Outcome) :
    Table (StatMicMsgHead η) StatMicMsgBody :=
  upsert (addCall timePoint call.2) call.1 msg

/-- An adapter between two reports of its network thread: the fixed part of its
head and the messages that it has finished. -/
structure Adapter (η : Type) where
  fixed : η
  msgs : List ReqMessage

namespace Adapter

/-- `_statBody`. -/
def statBody (timePoint : TimePoints) (adapter : Adapter η) :
    Table String StatMicMsgBody :=
  adapter.msgs.foldl (stat timePoint) ∅

/-- The outcomes that belong to a head. -/
def outcomes (head : StatMicMsgHead η) (adapter : Adapter η) : List Outcome :=
  if adapter.fixed = head.fixed then
    (adapter.msgs.filter fun msg =>
      !msg.bPush && msg.sFuncName == head.interfaceName).map ReqMessage.outcome
  else []

end Adapter

/-- What a network thread gathers from its adapters (`doStat`). -/
def gather (timePoint : TimePoints) (adapters : List (Adapter η)) :
    Table (StatMicMsgHead η) StatMicMsgBody :=
  adapters.foldl (fun table adapter =>
    mergeStat timePoint adapter.fixed (adapter.statBody timePoint) table) ∅

/-- What the report thread adds up, from the reports of the network threads. -/
def aggregate (timePoint : TimePoints) (reports : List (List (Adapter η))) :
    Table (StatMicMsgHead η) StatMicMsgBody :=
  reports.foldl (fun table adapters =>
    addMicMsg table (gather timePoint adapters)) ∅

/-- What has been submitted. -/
def submitted (timePoint : TimePoints)
    (calls : List (StatMicMsgHead η × Outcome)) :
    Table (StatMicMsgHead η) StatMicMsgBody :=
  calls.foldl (submit timePoint) ∅

/-- The lists that are not empty. -/
def present {α : Type} (lists : List (List α)) : List (List α) :=
  lists.filter fun list => !list.isEmpty

/-- The outcomes of a head, by adapter, in the report of a network thread. -/
def reported (head : StatMicMsgHead η) (adapters : List (Adapter η)) :
    List (List Outcome) :=
  present (adapters.map (Adapter.outcomes head))

/-- The outcomes of a head, by network thread and adapter. -/
def distributed (head : StatMicMsgHead η) (reports : List (List (Adapter η))) :
    List (List (List Outcome)) :=
  present (reports.map (reported head))

/-- The body of an adapter's outcomes. -/
def adapterBody (timePoint : TimePoints) (outcomes : List Outcome) :
    Option StatMicMsgBody :=
  bodyOf (addCall timePoint) outcomes

/-- The body that a network thread reports. -/
def threadBody (timePoint : TimePoints) (lists : List (List Outcome)) :
    Option StatMicMsgBody :=
  bodyOf (mergeBody timePoint) (lists.filterMap (adapterBody timePoint))

/-- The body that is reported in the end. -/
def reportBody (timePoint : TimePoints) (threads : List (List (List Outcome))) :
    Option StatMicMsgBody :=
  bodyOf addBody (threads.filterMap (threadBody timePoint))

section BodyOf

variable {ι : Type} {add : ι → Option StatMicMsgBody → StatMicMsgBody}

theorem bodyOf_concat (items : List ι) (item : ι) :
    bodyOf add (items ++ [item]) = some (add item (bodyOf add items)) := by
  simp [bodyOf, List.foldl_append]

end BodyOf

section Entries

variable {timePoint : TimePoints}

theorem statBody_lookup (msgs : List ReqMessage) (interfaceName : String) :
    (msgs.foldl (stat timePoint) ∅).lookup interfaceName =
      adapterBody timePoint ((msgs.filter fun msg =>
        !msg.bPush && msg.sFuncName == interfaceName).map
          ReqMessage.outcome) := by
  induction msgs using List.reverseRecOn with
  | nil => rfl
  | append_singleton msgs msg ih =>
      rw [List.foldl_append, List.foldl_cons, List.foldl_nil, stat,
        List.filter_append, List.map_append]
      cases push : msg.bPush with
      | true => simpa [push] using ih
      | false =>
          by_cases same : msg.sFuncName = interfaceName
          · subst same
            simp only [Bool.false_eq_true, if_false, lookup_upsert]
            rw [ih]
            simp [push, adapterBody, bodyOf_concat]
          · have other : interfaceName ≠ msg.sFuncName :=
              fun equal => same equal.symm
            simp only [Bool.false_eq_true, if_false]
            rw [lookup_upsert_ne other, ih]
            simp [push, same]

theorem statBody_outcomes (adapter : Adapter η) (head : StatMicMsgHead η)
    (own : adapter.fixed = head.fixed) :
    (adapter.statBody timePoint).lookup head.interfaceName =
      adapterBody timePoint (adapter.outcomes head) := by
  rw [Adapter.statBody, statBody_lookup, Adapter.outcomes, if_pos own]

end Entries

end TarsCpp.Servant
