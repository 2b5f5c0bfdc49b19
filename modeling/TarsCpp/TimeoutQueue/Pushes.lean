import TarsCpp.TimeoutQueue.Moves

/-!
# Pushing an entry

A push keeps the containers in step unless it makes the table rehash and the
iterators into it do not survive that.
-/

namespace TarsCpp.TimeoutQueue

open NetworkBuffer

variable {T : Type}

namespace TcTimeoutQueueNew

variable {queue : TcTimeoutQueueNew T}

theorem insertTime_perm (info : NodeInfo) (time : List NodeInfo) :
    (insertTime info time).Perm (info :: time) :=
  Multimap.insert_perm NodeInfo.timeout info time

/-- How often iterators have been lost when the entry is in the table. -/
def rehashed (table : HashTable) (queue : TcTimeoutQueueNew T) : Nat :=
  if queue.rehashing ∧ table.keepsIterators = false then
    queue.rehashes + 1
  else
    queue.rehashes

/-- The new entry, with its iterators. -/
def newest (queue : TcTimeoutQueueNew T) (ptr : T) (uniqId : UInt32)
    (hasSend : Bool) : PtrInfo T where
  node := queue.pushed
  uniqId := uniqId
  ptr := ptr
  hasSend := hasSend
  timeIter := some queue.pushed
  sendIter := if hasSend then none else some queue.pushed

theorem insertData_eq (table : HashTable) (info : PtrInfo T) :
    ∃ buckets, queue.insertData table info =
      { queue with
        data := queue.data ++ [info]
        buckets := buckets
        rehashes := queue.rehashed table } := by
  rw [insertData, rehashed]
  cases queue.rehashing with
  | false => exact ⟨queue.buckets, rfl⟩
  | true =>
      refine ⟨table.bucketCount (queue.data.length + 1), ?_⟩
      cases table.keepsIterators <;> rfl

theorem map_assign_append {data : List (PtrInfo T)} {info : PtrInfo T}
    {node : Nat} (here : info.node = node)
    (others : ∀ other ∈ data, other.node ≠ node)
    (update : PtrInfo T → PtrInfo T) :
    ((data ++ [info]).map fun other =>
      if other.node = node then update other else other) =
      data ++ [update info] := by
  rw [List.map_append, List.map_singleton, if_pos here]
  congr 1
  conv_rhs => rw [← List.map_id data]
  apply List.map_congr_left
  intro other member
  exact if_neg (others other member)

theorem push_fresh (inStep : queue.InStep) (table : HashTable) (ptr : T)
    {uniqId : UInt32} (timeout : Int) (hasSend : Bool)
    (unused : queue.data.any (·.uniqId = uniqId) = false) :
    ∃ buckets, queue.push table ptr uniqId timeout hasSend =
      (true, {
        data := queue.data ++ [queue.newest ptr uniqId hasSend]
        time := insertTime
          ⟨queue.pushed, timeout, ⟨queue.pushed, queue.rehashed table⟩⟩
          queue.time
        send :=
          if hasSend then queue.send
          else ⟨queue.pushed, ⟨queue.pushed, queue.rehashed table⟩⟩ ::
            queue.send
        buckets := buckets
        rehashes := queue.rehashed table
        pushed := queue.pushed + 1 }) := by
  have others : ∀ other ∈ queue.data, other.node ≠ queue.pushed :=
    fun other member => Nat.ne_of_lt (inStep.pushed other member)
  obtain ⟨buckets, inserted⟩ := @insertData_eq T queue table
    { node := queue.pushed, uniqId, ptr, hasSend }
  refine ⟨buckets, ?_⟩
  rw [push, unused, if_neg Bool.false_ne_true]
  simp only [inserted, assign]
  cases hasSend with
  | true =>
      rw [if_pos rfl, if_pos rfl]
      rw [map_assign_append (by rfl) others]
      rfl
  | false =>
      rw [if_neg Bool.false_ne_true, if_neg Bool.false_ne_true]
      rw [map_assign_append (by rfl) others, map_assign_append (by rfl) others]
      rfl

/-- Iterators that are stored survive the push. -/
def Survive (table : HashTable) (queue : TcTimeoutQueueNew T) : Prop :=
  queue.data = [] ∨ queue.rehashing = false ∨ table.keepsIterators = true

theorem survive_iff {table : HashTable} :
    queue.Survive table ↔
      queue.data = [] ∨ queue.rehashed table = queue.rehashes := by
  rw [Survive, rehashed]
  cases queue.rehashing <;> cases table.keepsIterators <;> simp

section Push

variable (inStep : queue.InStep) {table : HashTable} {ptr : T}
  {uniqId : UInt32} {timeout : Int} {hasSend : Bool}

include inStep

theorem InStep.push_inStep_iff
    (unused : queue.data.any (·.uniqId = uniqId) = false) :
    (queue.push table ptr uniqId timeout hasSend).2.InStep ↔
      queue.Survive table := by
  obtain ⟨buckets, result⟩ :=
    push_fresh inStep table ptr timeout hasSend unused
  have times := insertTime_perm
    ⟨queue.pushed, timeout, ⟨queue.pushed, queue.rehashed table⟩⟩ queue.time
  rw [result, survive_iff]
  constructor
  · intro next
    by_cases nothing : queue.data = []
    · exact .inl nothing
    · obtain ⟨info, member⟩ := List.exists_mem_of_ne_nil _ nothing
      obtain ⟨it, listed, _⟩ := inStep.mem_time member
      have before := inStep.timeDataIter it listed
      have after := next.timeDataIter it
        (times.mem_iff.mpr (List.mem_cons_of_mem _ listed))
      rw [before] at after
      exact .inr (congrArg DataIter.rehashes after).symm
  · intro survive
    have timeNil : queue.data = [] → queue.time = [] := by
      intro nothing
      have time := inStep.time
      rw [nothing] at time
      exact List.map_eq_nil_iff.mp time.eq_nil
    have sendNil : queue.data = [] → queue.send = [] := by
      intro nothing
      have send := inStep.send
      rw [nothing] at send
      exact List.map_eq_nil_iff.mp send
    refine {
      ids := ?_
      nodes := ?_
      pushed := ?_
      time := ?_
      sorted := inStep.sorted.insert
      send := ?_
      timeIter := ?_
      sendIter := ?_
      timeDataIter := ?_
      sendDataIter := ?_ }
    · rw [List.map_append, List.nodup_append]
      refine ⟨inStep.ids, List.nodup_singleton _, ?_⟩
      intro id used id' new same
      obtain ⟨info, member, rfl⟩ := List.mem_map.mp used
      rw [List.map_singleton, List.mem_singleton] at new
      have different := List.any_eq_false.mp unused info member
      rw [same, new] at different
      exact different (decide_eq_true rfl)
    · rw [List.map_append, List.pairwise_append]
      refine ⟨inStep.nodes, List.pairwise_singleton _ _, ?_⟩
      intro node used node' new
      obtain ⟨info, member, rfl⟩ := List.mem_map.mp used
      rw [List.map_singleton, List.mem_singleton] at new
      rw [new]
      exact inStep.pushed info member
    · intro info member
      rcases List.mem_append.mp member with old | new
      · exact Nat.lt_succ_of_lt (inStep.pushed info old)
      · rw [List.mem_singleton.mp new]
        exact Nat.lt_succ_self _
    · refine (times.map NodeInfo.node).trans ?_
      rw [List.map_append, List.map_cons]
      exact (inStep.time.cons _).trans (List.perm_append_singleton _ _).symm
    · rw [List.filter_append, List.map_append, List.reverse_append,
        ← inStep.send]
      cases hasSend <;> rfl
    · intro info member
      rcases List.mem_append.mp member with old | new
      · exact inStep.timeIter info old
      · rw [List.mem_singleton.mp new]
        rfl
    · intro info member unsent
      rcases List.mem_append.mp member with old | new
      · exact inStep.sendIter info old unsent
      · rw [List.mem_singleton.mp new] at unsent ⊢
        rw [newest, show hasSend = false from unsent]
        rfl
    · intro it member
      rcases List.mem_cons.mp (times.mem_iff.mp member) with rfl | old
      · rfl
      · rcases survive with nothing | same
        · rw [timeNil nothing] at old
          cases old
        · rw [inStep.timeDataIter it old, same]
    · intro it member
      have split : it = ⟨queue.pushed, ⟨queue.pushed, queue.rehashed table⟩⟩ ∨
          it ∈ queue.send := by
        cases hasSend with
        | true => exact .inr member
        | false => exact List.mem_cons.mp member
      rcases split with rfl | old
      · rfl
      · rcases survive with nothing | same
        · rw [sendNil nothing] at old
          cases old
        · rw [inStep.sendDataIter it old, same]

theorem InStep.contents_push
    (unused : queue.data.any (·.uniqId = uniqId) = false) :
    (queue.push table ptr uniqId timeout hasSend).2.contents =
      queue.contents ++
        [⟨queue.pushed, uniqId, ptr, timeout, hasSend⟩] := by
  obtain ⟨buckets, result⟩ :=
    push_fresh inStep table ptr timeout hasSend unused
  have times := insertTime_perm
    ⟨queue.pushed, timeout, ⟨queue.pushed, queue.rehashed table⟩⟩ queue.time
  have distinct := (times.map NodeInfo.node).nodup_iff.mpr (by
    rw [List.map_cons, List.nodup_cons]
    refine ⟨?_, inStep.nodup_time⟩
    intro used
    obtain ⟨it, listed, same⟩ := List.mem_map.mp used
    obtain ⟨info, member, node⟩ := inStep.of_mem_time listed
    have less := inStep.pushed info member
    rw [node, same] at less
    exact Nat.lt_irrefl _ less)
  have own := timeoutOf_of_mem distinct (times.mem_iff.mpr List.mem_cons_self)
  rw [result, contents, List.map_append, contents]
  congr 1
  · apply List.map_congr_left
    intro info member
    obtain ⟨it, listed, same⟩ := inStep.mem_time member
    have after := timeoutOf_of_mem distinct
      (times.mem_iff.mpr (List.mem_cons_of_mem _ listed))
    rw [entryOf, entryOf, ← same, inStep.timeoutOf listed, after]
  · exact congrArg
      (fun key => [Entry.mk queue.pushed uniqId ptr key hasSend]) own

theorem InStep.push_spec (table : HashTable) (ptr : T) (uniqId : UInt32)
    (timeout : Int) (hasSend : Bool) :
    Moves queue.contents (.push ptr uniqId timeout hasSend)
      (.success (queue.push table ptr uniqId timeout hasSend).1)
      (queue.push table ptr uniqId timeout hasSend).2.contents := by
  cases unused : queue.data.any (·.uniqId = uniqId) with
  | true =>
      obtain ⟨info, member, same⟩ := List.any_eq_true.mp unused
      have same' : info.uniqId = uniqId := of_decide_eq_true same
      subst same'
      rw [push, unused, if_pos rfl]
      exact .refused (entry_mem member)
  | false =>
      rw [inStep.contents_push unused]
      obtain ⟨buckets, result⟩ :=
        push_fresh inStep table ptr timeout hasSend unused
      rw [result]
      refine @Moves.pushed T _ ⟨queue.pushed, uniqId, ptr, timeout, hasSend⟩
        ?_ ?_
      · intro other present
        obtain ⟨info, member, rfl⟩ := List.mem_map.mp present
        exact of_decide_eq_false (Bool.eq_false_of_not_eq_true
          (List.any_eq_false.mp unused info member))
      · intro other present
        obtain ⟨info, member, rfl⟩ := List.mem_map.mp present
        exact inStep.pushed info member

end Push

end TcTimeoutQueueNew

end TarsCpp.TimeoutQueue
