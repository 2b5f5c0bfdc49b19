import TarsCpp.TimeoutQueue.TimeoutQueueNew

/-!
# The timeout queue without ids

`TC_TimeoutQueueNoID`: a list with the newest element in front, and a multimap
from deadlines to the nodes of the list.  A push makes one node in each; both
have the number of the push as their address.

Seen from outside it is a queue of elements with deadlines: `pop` takes the
oldest one, `timeout` the one with the earliest deadline if that has passed.
-/

namespace TarsCpp.TimeoutQueueNoID

open NetworkBuffer

variable {T : Type}

structure PtrInfo (T : Type) where
  node : Nat
  ptr : T
  timeIter : Option Nat := none
deriving DecidableEq, Repr

structure NodeInfo where
  node : Nat
  timeout : Nat
  listIter : Nat
deriving DecidableEq, Repr

structure TcTimeoutQueueNoID (T : Type) where
  time : List NodeInfo := []
  /-- The front comes first. -/
  list : List (PtrInfo T) := []
  pushed : Nat := 0
deriving DecidableEq, Repr

namespace TcTimeoutQueueNoID

/-- `_time.erase(timeIter)` -/
def eraseTime (timeIter : Option Nat) (time : List NodeInfo) :
    Except Failure (List NodeInfo) :=
  match time.find? (some ·.node = timeIter) with
  | some it => .ok (time.filter (·.node ≠ it.node))
  | none => .error .invalidAccess

/-- `*listIter` -/
def deref (listIter : Nat) (list : List (PtrInfo T)) :
    Except Failure (PtrInfo T) :=
  match list.find? (·.node = listIter) with
  | some info => .ok info
  | none => .error .invalidAccess

/-- `_list.erase(listIter)` -/
def eraseList (listIter : Nat) (list : List (PtrInfo T)) :
    Except Failure (List (PtrInfo T)) := do
  let info ← deref listIter list
  pure (list.filter (·.node ≠ info.node))

def front (queue : TcTimeoutQueueNoID T) : Option T :=
  queue.list.getLast?.map PtrInfo.ptr

def pop (queue : TcTimeoutQueueNoID T) :
    Except Failure (Option T × TcTimeoutQueueNoID T) :=
  match queue.list.getLast? with
  | none => .ok (none, queue)
  | some info => do
      let time ← eraseTime info.timeIter queue.time
      pure (some info.ptr, { queue with time, list := queue.list.dropLast })

def push (ptr : T) (timeout : Nat) (queue : TcTimeoutQueueNoID T) :
    TcTimeoutQueueNoID T where
  time := Multimap.insert NodeInfo.timeout
    ⟨queue.pushed, timeout, queue.pushed⟩ queue.time
  list := ⟨queue.pushed, ptr, some queue.pushed⟩ :: queue.list
  pushed := queue.pushed + 1

/-- The loop of `timeout()`. -/
def timeoutLoop (iNow : Nat) :
    List NodeInfo → List (PtrInfo T) →
      Except Failure (List NodeInfo × List (PtrInfo T))
  | [], list => .ok ([], list)
  | it :: time, list =>
      if it.timeout > iNow then
        .ok (it :: time, list)
      else do
        let list ← eraseList it.listIter list
        timeoutLoop iNow time list

def timeoutAll (iNow : Nat) (queue : TcTimeoutQueueNoID T) :
    Except Failure (TcTimeoutQueueNoID T) := do
  let (time, list) ← timeoutLoop iNow queue.time queue.list
  pure { queue with time, list }

/-- `timeout(t)` -/
def timeout (iNow : Nat) (queue : TcTimeoutQueueNoID T) :
    Except Failure (Option T × TcTimeoutQueueNoID T) :=
  match queue.time with
  | [] => .ok (none, queue)
  | it :: time =>
      if it.timeout > iNow then
        .ok (none, queue)
      else do
        let info ← deref it.listIter queue.list
        let list ← eraseList it.listIter queue.list
        pure (some info.ptr, { queue with time, list })

end TcTimeoutQueueNoID

inductive Call (T : Type)
  | front
  | pop
  | push (ptr : T) (timeout : Nat)
  | timeoutAll (iNow : Nat)
  | timeout (iNow : Nat)
  | size

inductive Result (T : Type)
  | item (t : Option T)
  | done
  | count (size : Nat)
deriving DecidableEq

def Call.perform (queue : TcTimeoutQueueNoID T) :
    Call T → Except Failure (Result T × TcTimeoutQueueNoID T)
  | .front => .ok (.item queue.front, queue)
  | .pop => do
      let (t, queue) ← queue.pop
      pure (.item t, queue)
  | .push ptr deadline => .ok (.done, queue.push ptr deadline)
  | .timeoutAll iNow => do
      let queue ← queue.timeoutAll iNow
      pure (.done, queue)
  | .timeout iNow => do
      let (t, queue) ← queue.timeout iNow
      pure (.item t, queue)
  | .size => .ok (.count queue.list.length, queue)

/-- The results of the calls, one after the other. -/
def TcTimeoutQueueNoID.run : TcTimeoutQueueNoID T → List (Call T) →
    Except Failure (List (Result T) × TcTimeoutQueueNoID T)
  | queue, [] => .ok ([], queue)
  | queue, call :: calls => do
      let (result, queue) ← call.perform queue
      let (results, queue) ← queue.run calls
      pure (result :: results, queue)

/-- An element with its deadline and the number of its push. -/
structure Entry (T : Type) where
  node : Nat
  ptr : T
  timeout : Nat
deriving DecidableEq, Repr

/-- Elements in the order in which they came. -/
structure Waiting (T : Type) where
  entries : List (Entry T) := []
  pushed : Nat := 0

/-- The oldest one of those with the earliest deadline. -/
def earliest : List (Entry T) → Option (Entry T)
  | [] => none
  | entry :: entries =>
      match earliest entries with
      | none => some entry
      | some other => if other.timeout < entry.timeout then other else entry

def without (entries : List (Entry T)) (entry : Entry T) : List (Entry T) :=
  entries.filter (·.node ≠ entry.node)

namespace Waiting

def perform (waiting : Waiting T) : Call T → Result T × Waiting T
  | .front => (.item (waiting.entries.head?.map Entry.ptr), waiting)
  | .pop => (.item (waiting.entries.head?.map Entry.ptr),
      { waiting with entries := waiting.entries.tail })
  | .push ptr timeout => (.done, {
      entries := waiting.entries ++ [⟨waiting.pushed, ptr, timeout⟩]
      pushed := waiting.pushed + 1 })
  | .timeoutAll iNow => (.done, { waiting with
      entries := waiting.entries.filter (iNow < ·.timeout) })
  | .timeout iNow =>
      match earliest (waiting.entries.filter (·.timeout ≤ iNow)) with
      | none => (.item none, waiting)
      | some entry => (.item (some entry.ptr), { waiting with
          entries := without waiting.entries entry })
  | .size => (.count waiting.entries.length, waiting)

def run : Waiting T → List (Call T) → List (Result T) × Waiting T
  | waiting, [] => ([], waiting)
  | waiting, call :: calls =>
      let (result, waiting) := waiting.perform call
      let (results, waiting) := waiting.run calls
      (result :: results, waiting)

end Waiting

def Entry.info (entry : Entry T) : PtrInfo T :=
  ⟨entry.node, entry.ptr, some entry.node⟩

def Entry.place (entry : Entry T) : NodeInfo :=
  ⟨entry.node, entry.timeout, entry.node⟩

/-- By deadline, and those with the same one by age. -/
def Before (first second : NodeInfo) : Prop :=
  first.timeout < second.timeout ∨
    first.timeout = second.timeout ∧ first.node < second.node

structure Shows (queue : TcTimeoutQueueNoID T) (waiting : Waiting T) :
    Prop where
  list : queue.list = waiting.entries.reverse.map Entry.info
  time : queue.time.Perm (waiting.entries.map Entry.place)
  ordered : queue.time.Pairwise Before
  nodes : (waiting.entries.map Entry.node).Pairwise (· < ·)
  below : ∀ entry ∈ waiting.entries, entry.node < waiting.pushed
  pushed : queue.pushed = waiting.pushed

theorem shows_empty : Shows ({} : TcTimeoutQueueNoID T) {} := by
  constructor <;> simp

variable {entries : List (Entry T)} {entry : Entry T}

theorem deref_eq (nodes : (entries.map Entry.node).Pairwise (· < ·))
    (member : entry ∈ entries) :
    TcTimeoutQueueNoID.deref entry.node (entries.reverse.map Entry.info) =
      .ok entry.info := by
  have distinct : ((entries.reverse.map Entry.info).map
      PtrInfo.node).Nodup := by
    rw [List.map_map, List.map_reverse]
    exact List.nodup_reverse.mpr (nodes.imp Nat.ne_of_lt)
  have found := TimeoutQueue.find?_of_nodup distinct
    (List.mem_map_of_mem (List.mem_reverse.mpr member))
  unfold TcTimeoutQueueNoID.deref
  rw [show entry.node = entry.info.node from rfl, found]

theorem eraseList_eq (nodes : (entries.map Entry.node).Pairwise (· < ·))
    (member : entry ∈ entries) :
    TcTimeoutQueueNoID.eraseList entry.node
        (entries.reverse.map Entry.info) =
      .ok ((without entries entry).reverse.map Entry.info) := by
  unfold TcTimeoutQueueNoID.eraseList
  rw [deref_eq nodes member, ok_bind, without, ← List.filter_reverse,
    List.filter_map]
  rfl

/-- The first item is the only one with its key. -/
theorem filter_head {β : Type} {key : β → Nat} {item : β} {items : List β}
    (distinct : ((item :: items).map key).Nodup) :
    (item :: items).filter (key · ≠ key item) = items := by
  rw [List.filter_cons_of_neg (by simp)]
  refine List.filter_eq_self.mpr fun other present => decide_eq_true ?_
  intro same
  exact (List.nodup_cons.mp distinct).1 (same ▸ List.mem_map_of_mem present)

theorem perm_without {time : List NodeInfo}
    (perm : time.Perm (entries.map Entry.place)) :
    (time.filter (·.node ≠ entry.node)).Perm
      ((without entries entry).map Entry.place) := by
  have filtered := perm.filter (·.node ≠ entry.node)
  rw [List.filter_map] at filtered
  exact filtered

theorem eraseTime_eq {time : List NodeInfo}
    (perm : time.Perm (entries.map Entry.place)) (member : entry ∈ entries) :
    TcTimeoutQueueNoID.eraseTime (some entry.node) time =
      .ok (time.filter (·.node ≠ entry.node)) := by
  unfold TcTimeoutQueueNoID.eraseTime
  cases found : time.find? (some ·.node = some entry.node) with
  | none =>
      have missing := List.find?_eq_none.mp found entry.place
        (perm.mem_iff.mpr (List.mem_map_of_mem member))
      simp [Entry.place] at missing
  | some it =>
      have same : it.node = entry.node := by
        simpa using List.find?_some found
      dsimp only
      rw [same]

theorem mem_of_earliest (first : earliest entries = some entry) :
    entry ∈ entries := by
  induction entries with
  | nil => cases first
  | cons other entries induction =>
      rw [earliest] at first
      split at first
      · cases first
        exact List.mem_cons_self
      · next later found =>
          split at first
          · cases first
            exact List.mem_cons_of_mem _ (induction found)
          · cases first
            exact List.mem_cons_self

/-- The entry in front of all others is the earliest one. -/
theorem earliest_eq (nodes : (entries.map Entry.node).Pairwise (· < ·))
    (member : entry ∈ entries)
    (least : ∀ other ∈ entries, other = entry ∨
      Before entry.place other.place) : earliest entries = some entry := by
  induction entries with
  | nil => cases member
  | cons other entries induction =>
      rw [List.map_cons, List.pairwise_cons] at nodes
      rw [earliest]
      rcases List.mem_cons.mp member with rfl | later
      · cases found : earliest entries with
        | none => rfl
        | some next =>
            have behind := mem_of_earliest found
            have above := nodes.1 next.node (List.mem_map_of_mem behind)
            rcases least next (List.mem_cons_of_mem _ behind) with same | before
            · rw [same] at above
              exact absurd above (Nat.lt_irrefl _)
            · unfold Before Entry.place at before
              exact if_neg (by dsimp only at before; omega)
      · rw [induction nodes.2 later
          fun next behind => least next (List.mem_cons_of_mem _ behind)]
        have above := nodes.1 entry.node (List.mem_map_of_mem later)
        rcases least other List.mem_cons_self with same | before
        · rw [same] at above
          exact absurd above (Nat.lt_irrefl _)
        · unfold Before Entry.place at before
          exact if_pos (by dsimp only at before; omega)

/-- If the first deadline has not passed, no other one has. -/
theorem lt_of_least (least : ∀ other ∈ entries, other = entry ∨
      Before entry.place other.place) {iNow : Nat}
    (early : iNow < entry.timeout) : ∀ other ∈ entries, iNow < other.timeout := by
  intro other present
  rcases least other present with rfl | before
  · exact early
  · unfold Before Entry.place at before
    dsimp only at before
    omega

theorem Before.insert {it : NodeInfo} {time : List NodeInfo}
    (ordered : time.Pairwise Before) (newest : ∀ other ∈ time,
      other.node < it.node) :
    (Multimap.insert NodeInfo.timeout it time).Pairwise Before := by
  induction time with
  | nil => exact List.pairwise_singleton _ _
  | cons first time induction =>
      obtain ⟨least, rest⟩ := List.pairwise_cons.mp ordered
      rw [List.forall_mem_cons] at newest
      rw [Multimap.insert]
      split
      · next less =>
          refine List.pairwise_cons.mpr ⟨?_, ordered⟩
          intro other member
          rcases List.mem_cons.mp member with rfl | later
          · exact .inl less
          · have behind := least other later
            unfold Before at behind ⊢
            omega
      · next notLess =>
          refine List.pairwise_cons.mpr ⟨?_, induction rest newest.2⟩
          intro other member
          rcases Multimap.mem_insert.mp member with rfl | later
          · have older := newest.1
            unfold Before
            omega
          · exact least other later

section Operations

variable {queue : TcTimeoutQueueNoID T} {waiting : Waiting T}

theorem getLast?_info (entries : List (Entry T)) :
    (entries.reverse.map Entry.info).getLast? =
      entries.head?.map Entry.info := by
  rw [← List.map_reverse.symm, List.getLast?_reverse, List.head?_map]

theorem Shows.front (shows_ : Shows queue waiting) :
    queue.front = waiting.entries.head?.map Entry.ptr := by
  rw [TcTimeoutQueueNoID.front, shows_.list, getLast?_info, Option.map_map]
  rfl

/-- An element is taken out of both containers. -/
theorem Shows.take (shows_ : Shows queue waiting) (entry : Entry T) :
    Shows { queue with
        time := queue.time.filter (·.node ≠ entry.node)
        list := (without waiting.entries entry).reverse.map Entry.info }
      { waiting with entries := without waiting.entries entry } where
  list := rfl
  time := perm_without shows_.time
  ordered := List.Pairwise.filter _ shows_.ordered
  nodes := shows_.nodes.sublist (List.filter_sublist.map _)
  below := fun other present =>
    shows_.below other (List.mem_of_mem_filter present)
  pushed := shows_.pushed

theorem Shows.pop (shows_ : Shows queue waiting) :
    ∃ queue', queue.pop = .ok (waiting.entries.head?.map Entry.ptr, queue') ∧
      Shows queue' { waiting with entries := waiting.entries.tail } := by
  unfold TcTimeoutQueueNoID.pop
  rw [shows_.list, getLast?_info]
  cases oldest : waiting.entries with
  | nil =>
      refine ⟨queue, rfl, ?_⟩
      rw [List.tail_nil, ← oldest]
      exact shows_
  | cons entry entries =>
      have taken := shows_.take entry
      have nodes := shows_.nodes
      have time := shows_.time
      rw [oldest] at taken nodes time
      have rest : without (entry :: entries) entry = entries :=
        filter_head (nodes.imp Nat.ne_of_lt)
      rw [rest] at taken
      refine ⟨_, ?_, taken⟩
      change (do
        let time ← TcTimeoutQueueNoID.eraseTime (some entry.node) queue.time
        pure (some entry.ptr, { queue with
          time, list := ((entry :: entries).reverse.map
            Entry.info).dropLast })) = _
      rw [eraseTime_eq time List.mem_cons_self, ok_bind]
      simp

theorem Shows.push (shows_ : Shows queue waiting) (ptr : T) (timeout : Nat) :
    Shows (queue.push ptr timeout) {
      entries := waiting.entries ++ [⟨waiting.pushed, ptr, timeout⟩]
      pushed := waiting.pushed + 1 } where
  list := by
    change _ :: queue.list = _
    rw [shows_.list, shows_.pushed, List.reverse_append]
    rfl
  time := by
    refine (Multimap.insert_perm _ _ _).trans ?_
    rw [shows_.pushed, List.map_append]
    exact (shows_.time.cons _).trans (List.perm_append_singleton _ _).symm
  ordered := by
    refine Before.insert shows_.ordered ?_
    intro other member
    obtain ⟨entry, present, rfl⟩ :=
      List.mem_map.mp (shows_.time.mem_iff.mp member)
    rw [shows_.pushed]
    exact shows_.below entry present
  nodes := by
    rw [List.map_append, List.pairwise_append]
    refine ⟨shows_.nodes, List.pairwise_singleton _ _, ?_⟩
    intro node member other last
    obtain ⟨entry, present, rfl⟩ := List.mem_map.mp member
    rw [List.mem_singleton.mp last]
    exact shows_.below entry present
  below := by
    intro entry member
    rcases List.mem_append.mp member with old | new
    · exact Nat.lt_succ_of_lt (shows_.below entry old)
    · rw [List.mem_singleton.mp new]
      exact Nat.lt_succ_self _
  pushed := congrArg (· + 1) shows_.pushed

/-- Without the first one in the order of the deadlines. -/
theorem Shows.behind (shows_ : Shows queue waiting) {it : NodeInfo}
    {time : List NodeInfo} (first : queue.time = it :: time) :
    ∃ entry ∈ waiting.entries, it = entry.place ∧
      (∀ other ∈ waiting.entries, other = entry ∨
        Before entry.place other.place) ∧
      Shows { queue with
          time, list := (without waiting.entries entry).reverse.map Entry.info }
        { waiting with entries := without waiting.entries entry } := by
  have perm := shows_.time
  have ordered := shows_.ordered
  have nodes := shows_.nodes
  rw [first] at perm ordered
  obtain ⟨entry, member, rfl⟩ :=
    List.mem_map.mp (perm.mem_iff.mp List.mem_cons_self)
  obtain ⟨least, _⟩ := List.pairwise_cons.mp ordered
  have distinct : ((entry.place :: time).map NodeInfo.node).Nodup := by
    refine (perm.map NodeInfo.node).nodup_iff.mpr ?_
    rw [List.map_map]
    exact nodes.imp Nat.ne_of_lt
  have others : (entry.place :: time).filter (·.node ≠ entry.node) = time :=
    filter_head distinct
  have taken := shows_.take entry
  rw [first, others] at taken
  refine ⟨entry, member, rfl, ?_, taken⟩
  intro other present
  rcases List.mem_cons.mp (perm.mem_iff.mpr (List.mem_map_of_mem present))
    with same | later
  · refine .inl (List.inj_on_of_nodup_map (nodes.imp Nat.ne_of_lt) present
      member ?_)
    exact congrArg NodeInfo.node same
  · exact .inr (least other.place later)

theorem Shows.timeout (shows_ : Shows queue waiting) (iNow : Nat) :
    ∃ queue', queue.timeout iNow =
        .ok ((earliest (waiting.entries.filter (·.timeout ≤ iNow))).map
          Entry.ptr, queue') ∧
      Shows queue' (waiting.perform (.timeout iNow)).2 := by
  unfold TcTimeoutQueueNoID.timeout Waiting.perform
  cases first : queue.time with
  | nil =>
      have nothing : waiting.entries = [] := by
        have perm := shows_.time
        rw [first] at perm
        exact List.map_eq_nil_iff.mp (List.nil_perm.mp perm)
      rw [nothing]
      exact ⟨queue, rfl, shows_⟩
  | cons it time =>
      obtain ⟨entry, member, rfl, least, rest⟩ := shows_.behind first
      by_cases early : entry.place.timeout > iNow
      · have nothing : waiting.entries.filter (·.timeout ≤ iNow) = [] := by
          refine List.filter_eq_nil_iff.mpr fun other present => ?_
          simpa using lt_of_least least early other present
        dsimp only
        rw [if_pos early, nothing]
        exact ⟨queue, rfl, shows_⟩
      · have passed : entry.timeout ≤ iNow := Nat.not_lt.mp early
        have found : earliest (waiting.entries.filter (·.timeout ≤ iNow)) =
            some entry := by
          refine earliest_eq
            (shows_.nodes.sublist (List.filter_sublist.map _))
            (List.mem_filter.mpr ⟨member, decide_eq_true passed⟩) ?_
          exact fun other present =>
            least other (List.mem_of_mem_filter present)
        dsimp only
        rw [if_neg early, found, shows_.list, Entry.place,
          deref_eq shows_.nodes member, ok_bind,
          eraseList_eq shows_.nodes member, ok_bind]
        exact ⟨_, rfl, rest⟩

theorem Shows.timeoutLoop (shows_ : Shows queue waiting) (iNow : Nat) :
    ∃ time list, TcTimeoutQueueNoID.timeoutLoop iNow queue.time queue.list =
        .ok (time, list) ∧
      Shows { queue with time, list } { waiting with
        entries := waiting.entries.filter (iNow < ·.timeout) } := by
  induction time : queue.time generalizing queue waiting with
  | nil =>
      have nothing : waiting.entries = [] := by
        have perm := shows_.time
        rw [time] at perm
        exact List.map_eq_nil_iff.mp (List.nil_perm.mp perm)
      refine ⟨[], queue.list, rfl, ?_⟩
      rw [nothing, List.filter_nil, ← nothing, ← time]
      exact shows_
  | cons it later induction =>
      obtain ⟨entry, member, rfl, least, rest⟩ := shows_.behind time
      unfold TcTimeoutQueueNoID.timeoutLoop
      by_cases early : entry.place.timeout > iNow
      · have all : waiting.entries.filter (iNow < ·.timeout) =
            waiting.entries :=
          List.filter_eq_self.mpr fun other present =>
            decide_eq_true (lt_of_least least early other present)
        rw [if_pos early, all]
        refine ⟨_, _, rfl, ?_⟩
        rw [← time]
        exact shows_
      · have passed : entry.timeout ≤ iNow := Nat.not_lt.mp early
        have same : (without waiting.entries entry).filter
              (iNow < ·.timeout) =
            waiting.entries.filter (iNow < ·.timeout) := by
          rw [without, List.filter_filter]
          refine List.filter_congr ?_
          intro other present
          by_cases due : iNow < other.timeout
          · have apart : other.node ≠ entry.node := by
              intro equal
              have whole := List.inj_on_of_nodup_map
                (shows_.nodes.imp Nat.ne_of_lt) present member equal
              rw [whole] at due
              omega
            simp [due, apart]
          · simp [due]
        obtain ⟨time', list', looped, shows'⟩ := induction rest rfl
        rw [if_neg early, shows_.list, Entry.place,
          eraseList_eq shows_.nodes member, ok_bind]
        refine ⟨time', list', looped, ?_⟩
        rw [← same]
        exact shows'

theorem Shows.timeoutAll (shows_ : Shows queue waiting) (iNow : Nat) :
    ∃ queue', queue.timeoutAll iNow = .ok queue' ∧
      Shows queue' { waiting with
        entries := waiting.entries.filter (iNow < ·.timeout) } := by
  obtain ⟨time, list, looped, shows'⟩ := shows_.timeoutLoop iNow
  unfold TcTimeoutQueueNoID.timeoutAll
  rw [looped, ok_bind]
  exact ⟨_, rfl, shows'⟩

theorem Shows.perform (shows_ : Shows queue waiting) (call : Call T) :
    ∃ queue', call.perform queue =
        .ok ((waiting.perform call).1, queue') ∧
      Shows queue' (waiting.perform call).2 := by
  cases call with
  | front =>
      refine ⟨queue, ?_, shows_⟩
      unfold Call.perform
      rw [shows_.front]
      rfl
  | pop =>
      obtain ⟨queue', popped, shows'⟩ := shows_.pop
      refine ⟨queue', ?_, shows'⟩
      rw [Call.perform, popped]
      rfl
  | push ptr deadline => exact ⟨_, rfl, shows_.push ptr deadline⟩
  | timeoutAll iNow =>
      obtain ⟨queue', expired, shows'⟩ := shows_.timeoutAll iNow
      refine ⟨queue', ?_, shows'⟩
      rw [Call.perform, expired]
      rfl
  | timeout iNow =>
      obtain ⟨queue', expired, shows'⟩ := shows_.timeout iNow
      refine ⟨queue', ?_, shows'⟩
      rw [Call.perform, expired, ok_bind, Waiting.perform]
      cases earliest (waiting.entries.filter (·.timeout ≤ iNow)) with
      | none => rfl
      | some entry => rfl
  | size =>
      refine ⟨queue, ?_, shows_⟩
      unfold Call.perform Waiting.perform
      rw [shows_.list, List.length_map, List.length_reverse]

end Operations

/-- Whatever is called, no iterator is invalid, and the results are those of
elements that wait: the oldest one is popped, and what expires is the one with
the earliest deadline, or everything whose deadline has passed. -/
theorem runs_wait (calls : List (Call T)) :
    ∃ queue : TcTimeoutQueueNoID T,
      TcTimeoutQueueNoID.run {} calls =
        .ok ((Waiting.run {} calls).1, queue) ∧
      Shows queue (Waiting.run {} calls).2 := by
  suffices general : ∀ (queue : TcTimeoutQueueNoID T) (waiting : Waiting T),
      Shows queue waiting → ∃ queue',
        queue.run calls = .ok ((waiting.run calls).1, queue') ∧
        Shows queue' (waiting.run calls).2 from general {} {} shows_empty
  induction calls with
  | nil => exact fun queue waiting shows_ => ⟨queue, rfl, shows_⟩
  | cons call calls induction =>
      intro queue waiting shows_
      obtain ⟨middle, performed, shows'⟩ := shows_.perform call
      obtain ⟨queue', ran, shows''⟩ := induction middle _ shows'
      refine ⟨queue', ?_, shows''⟩
      rw [TcTimeoutQueueNoID.run, performed, ok_bind]
      dsimp only
      rw [ran]
      rfl

end TarsCpp.TimeoutQueueNoID
