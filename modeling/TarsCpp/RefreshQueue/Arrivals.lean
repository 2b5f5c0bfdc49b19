import TarsCpp.RefreshQueue.HandingOut

/-!
# Pushing, refreshing and timing out

What `push` and `getAndRefresh` put at the end of `_time`, and what `timeout`
takes from its front.  A push keeps the queue in step unless it makes the table
rehash and the iterators into it do not survive that.
-/

namespace TarsCpp.RefreshQueue

open TimeoutQueue (HashTable DataIter)

variable {T : Type}

namespace TcTimeoutQueue

variable {queue : TcTimeoutQueue T} {contents : Contents T}

theorem Layout.erase_spec (layout : queue.Layout contents) (uniqId : UInt32) :
    ∃ t next contents', queue.erase uniqId = .ok (t, next) ∧
      next.Layout contents' ∧ next.timeout = queue.timeout ∧
      next.created = queue.created ∧
      Moves queue.timeout contents (.erase uniqId) (.item t) contents' := by
  rw [TcTimeoutQueue.erase]
  rcases layout.find_id uniqId with
    ⟨missing, unused⟩ | ⟨item, member, rfl, found⟩
  · rw [missing]
    exact ⟨none, queue, contents, rfl, layout, rfl, rfl, .unknown unused⟩
  · rw [found]
    refine ⟨some item.ptr, _, _, ?_, layout.without member, rfl, rfl,
      .erased member⟩
    change (queue.leave (some item.stamp) >>= _) = _
    rw [layout.leave item (by rfl) (by rfl)]
    change (TcTimeoutQueue.eraseTime _ (some item.stamp) >>= _) = _
    rw [layout.eraseTime member (by rfl)]
    change (TcTimeoutQueue.eraseData _ ⟨item.node, queue.rehashes⟩ >>= _) = _
    rw [layout.eraseData member (by rfl) (by rfl)]
    rfl

theorem Layout.get_spec (layout : queue.Layout contents) (uniqId : UInt32)
    (bErase : Bool) :
    ∃ t next contents', queue.get uniqId bErase = .ok (t, next) ∧
      next.Layout contents' ∧ next.timeout = queue.timeout ∧
      next.created = queue.created ∧
      Moves queue.timeout contents (.get uniqId bErase) (.item t)
        contents' := by
  cases bErase with
  | false =>
      rw [TcTimeoutQueue.get]
      rcases layout.find_id uniqId with
        ⟨missing, unused⟩ | ⟨item, member, rfl, found⟩
      · rw [missing]
        exact ⟨none, queue, contents, rfl, layout, rfl, rfl, .missing unused⟩
      · rw [found]
        exact ⟨some item.ptr, queue, contents, rfl, layout, rfl, rfl,
          .found member⟩
  | true =>
      -- With `bErase` set, `get` does what `erase` does.
      have same : queue.get uniqId true = queue.erase uniqId := rfl
      obtain ⟨t, next, contents', result, layout', timeout, created, moves⟩ :=
        layout.erase_spec uniqId
      refine ⟨t, next, contents', same.trans result, layout', timeout, created,
        ?_⟩
      cases moves with
      | erased member => exact .taken member
      | unknown unused => exact .missing unused

theorem Layout.getAndRefresh_spec (layout : queue.Layout contents)
    (uniqId : UInt32) (now : Int) :
    ∃ t next contents', queue.getAndRefresh uniqId now = .ok (t, next) ∧
      next.Layout contents' ∧ next.timeout = queue.timeout ∧
      Moves queue.timeout contents (.getAndRefresh uniqId now) (.item t)
        contents' ∧
      (t = none ∧ next.created = queue.created ∨
        next.created = queue.created + 1 ∧
          ∃ item ∈ contents.all, contents' = (contents.without item).append
            { item with stamp := queue.created, createTime := now }) := by
  rw [TcTimeoutQueue.getAndRefresh]
  rcases layout.find_id uniqId with
    ⟨missing, unused⟩ | ⟨item, member, rfl, found⟩
  · rw [missing]
    exact ⟨none, queue, contents, rfl, layout, rfl, .unrefreshed unused,
      .inl ⟨rfl, rfl⟩⟩
  · rw [found]
    refine ⟨some item.ptr, _, _, ?_, layout.refresh member now, rfl,
      .refreshed member layout.created, .inr ⟨rfl, item, member, rfl⟩⟩
    change (queue.leave (some item.stamp) >>= _) = _
    rw [layout.leave item (by rfl) (by rfl)]
    change (TcTimeoutQueue.eraseTime _ (some item.stamp) >>= _) = _
    rw [layout.eraseTime member (by rfl)]
    rfl

end TcTimeoutQueue

theorem Contents.all_of_time {contents : Contents T} {rehashes : Nat}
    {it : NodeInfo} {later : List NodeInfo}
    (front : contents.time rehashes = it :: later) :
    ∃ item items hasPoped, contents.all = item :: items ∧
      it = item.nodeInfo rehashes hasPoped := by
  obtain ⟨poped, waiting⟩ := contents
  cases poped with
  | nil =>
      obtain ⟨item, items, split, same, _⟩ := List.map_eq_cons_iff.mp front
      exact ⟨item, items, false, split, same.symm⟩
  | cons item items =>
      exact ⟨item, items ++ waiting, true, rfl, (List.cons.inj front).1.symm⟩

/-- An old item is not among the young ones. -/
theorem Contents.young_without {contents : Contents T} {item : Item T}
    (distinct : contents.stamps.Nodup) (member : item ∈ contents.all)
    {timeout ms : Int} (old : Old timeout ms item) :
    (contents.without item).young timeout ms = contents.young timeout ms := by
  have kept {items : List (Item T)}
      (among : ∀ other ∈ items, other ∈ contents.all) :
      (items.filter (·.stamp ≠ item.stamp)).filter (¬ Old timeout ms ·) =
        items.filter (¬ Old timeout ms ·) := by
    rw [List.filter_filter]
    apply List.filter_congr
    intro other present
    by_cases same : other.stamp = item.stamp
    · have equal := List.inj_on_of_nodup_map distinct (among other present)
        member same
      simp [equal, old]
    · simp [same]
  rw [young, young, without,
    kept fun other present => List.mem_append_left _ present,
    kept fun other present => List.mem_append_right _ present]

theorem Contents.young_of_front {contents : Contents T} {item : Item T}
    {items : List (Item T)} (front : contents.all = item :: items)
    (sorted : contents.Sorted) {timeout ms : Int}
    (fresh : ¬ Old timeout ms item) :
    contents.young timeout ms = contents ∧
      contents.all.filter (Old timeout ms ·) = [] := by
  have later : ∀ other ∈ contents.all, ¬ Old timeout ms other := by
    rw [Sorted, front, List.map_cons, List.pairwise_cons] at sorted
    intro other member
    rw [front] at member
    rcases List.mem_cons.mp member with rfl | behind
    · exact fresh
    · have order := sorted.1 _ (List.mem_map_of_mem behind)
      unfold Old at fresh ⊢
      omega
  constructor
  · rw [young]
    congr 1 <;> apply List.filter_eq_self.mpr <;> intro other member
    · exact decide_eq_true (later other (List.mem_append_left _ member))
    · exact decide_eq_true (later other (List.mem_append_right _ member))
  · apply List.filter_eq_nil_iff.mpr
    intro other member
    simpa using later other member

namespace TcTimeoutQueue

theorem timeoutLoop_spec (ms : Int) {turns : Nat} {queue : TcTimeoutQueue T}
    {contents : Contents T} (layout : queue.Layout contents)
    (sorted : contents.Sorted) (enough : contents.all.length < turns) :
    ∃ next, timeoutLoop ms turns queue =
        .ok ((contents.all.filter (Old queue.timeout ms ·)).map Item.ptr,
          next) ∧
      next.Layout (contents.young queue.timeout ms) ∧
      next.timeout = queue.timeout ∧ next.created = queue.created := by
  induction turns generalizing queue contents with
  | zero => cases enough
  | succ turns ih =>
      rw [timeoutLoop]
      cases times : queue.time with
      | nil =>
          have empty := layout.time.symm.trans times
          rw [Contents.time, List.append_eq_nil_iff, List.map_eq_nil_iff,
            List.map_eq_nil_iff] at empty
          obtain ⟨poped, waiting⟩ := contents
          obtain ⟨rfl, rfl⟩ := empty
          exact ⟨queue, rfl, layout, rfl, rfl⟩
      | cons it later =>
          obtain ⟨item, items, hasPoped, front, rfl⟩ :=
            Contents.all_of_time (layout.time.symm.trans times)
          have member : item ∈ contents.all := by
            rw [front]
            exact List.mem_cons_self
          by_cases old : Old queue.timeout ms item
          · have distinct := layout.nodup_stamps
            rw [Contents.stamps, front] at distinct
            have rest : (contents.without item).all = items := by
              rw [Contents.all_without, front]
              exact @filter_key_ne _ _ _ _ [] _ _ distinct
            obtain ⟨next, result, layout', timeout, created⟩ := ih
              (layout.without member)
              (by
                rw [Contents.Sorted, rest]
                rw [Contents.Sorted, front] at sorted
                exact (List.pairwise_cons.mp sorted).2)
              (by
                rw [rest]
                rw [front] at enough
                exact Nat.lt_of_succ_lt_succ enough)
            rw [Contents.young_without layout.nodup_stamps member old]
              at layout'
            refine ⟨next, ?_, layout', timeout, created⟩
            have taken : contents.all.filter (Old queue.timeout ms ·) =
                item :: items.filter (Old queue.timeout ms ·) := by
              rw [front]
              exact List.filter_cons_of_pos (decide_eq_true old)
            rw [rest] at result
            rw [taken]
            refine (if_pos old).trans ?_
            change (queue.deref ⟨item.node, queue.rehashes⟩ >>= _) = _
            rw [layout.deref member (by rfl) (by rfl)]
            change (queue.eraseData ⟨item.node, queue.rehashes⟩ >>= _) = _
            rw [layout.eraseData member (by rfl) (by rfl)]
            change (TcTimeoutQueue.leave _ (some item.stamp) >>= _) = _
            rw [layout.leave item (by rfl) (by rfl)]
            change (TcTimeoutQueue.eraseTime _ (some item.stamp) >>= _) = _
            rw [layout.eraseTime member (by rfl)]
            change (timeoutLoop ms turns _ >>= _) = _
            rw [result]
            rfl
          · obtain ⟨young, none⟩ :=
              Contents.young_of_front front sorted old
            refine ⟨queue, ?_, ?_, rfl, rfl⟩
            · rw [none]
              exact if_neg old
            · rw [young]
              exact layout

theorem Layout.expire_spec {queue : TcTimeoutQueue T} {contents : Contents T}
    (layout : queue.Layout contents) (sorted : contents.Sorted) (ms : Int) :
    ∃ items next contents', queue.expire ms = .ok (items, next) ∧
      next.Layout contents' ∧ next.timeout = queue.timeout ∧
      next.created = queue.created ∧
      Moves queue.timeout contents (.timeout ms) (.expired items)
        contents' := by
  have enough : contents.all.length < queue.time.length + 1 := by
    rw [layout.time, Contents.time, List.length_append, List.length_map,
      List.length_map, Contents.all, List.length_append]
    exact Nat.lt_succ_self _
  obtain ⟨next, result, layout', timeout, created⟩ :=
    timeoutLoop_spec ms layout sorted enough
  exact ⟨_, next, _, result, layout', timeout, created, .expired ms⟩

variable {queue : TcTimeoutQueue T} {contents : Contents T}

/-- How often iterators have been lost when the entry is in the table. -/
def rehashed (table : HashTable) (queue : TcTimeoutQueue T) : Nat :=
  if queue.rehashing ∧ table.keepsIterators = false then
    queue.rehashes + 1
  else
    queue.rehashes

/-- Iterators that are stored survive the push. -/
def Survive (table : HashTable) (queue : TcTimeoutQueue T) : Prop :=
  queue.data = [] ∨ queue.rehashing = false ∨ table.keepsIterators = true

theorem survive_iff {table : HashTable} :
    queue.Survive table ↔
      queue.data = [] ∨ queue.rehashed table = queue.rehashes := by
  rw [Survive, rehashed]
  cases queue.rehashing <;> cases table.keepsIterators <;> simp

theorem insertData_eq (table : HashTable) (queue : TcTimeoutQueue T)
    (info : PtrInfo T) :
    ∃ buckets, queue.insertData table info =
      { queue with
        data := queue.data ++ [info]
        buckets := buckets
        rehashes := queue.rehashed table } := by
  rw [insertData, rehashed]
  cases queue.rehashing with
  | false => exact ⟨queue.buckets, rfl⟩
  | true =>
      refine ⟨table.bucketCount (queue.data.length + 1), ?_⟩
      cases table.keepsIterators <;> rfl

/-- The item of a push. -/
def newest (queue : TcTimeoutQueue T) (ptr : T) (uniqId : UInt32)
    (now : Int) : Item T :=
  ⟨queue.created, queue.pushed, uniqId, ptr, now⟩

/-- The queue that has the item in all containers. -/
def grown (queue : TcTimeoutQueue T) (contents : Contents T)
    (table : HashTable) (buckets : Nat) (item : Item T) :
    TcTimeoutQueue T where
  timeout := queue.timeout
  data := queue.data ++ [item.ptrInfo]
  time := queue.time ++ [item.nodeInfo (queue.rehashed table) false]
  firstNoPopIter := (contents.append item).first
  buckets := buckets
  rehashes := queue.rehashed table
  pushed := queue.pushed + 1
  created := queue.created + 1

theorem Layout.push_eq (layout : queue.Layout contents) (table : HashTable)
    (ptr : T) {uniqId : UInt32} (now : Int)
    (unused : queue.data.any (·.uniqId = uniqId) = false) :
    ∃ buckets, queue.push table ptr uniqId now =
      (true, queue.grown contents table buckets
        (queue.newest ptr uniqId now)) := by
  obtain ⟨buckets, inserted⟩ := insertData_eq table queue
    { node := queue.pushed, uniqId, ptr }
  refine ⟨buckets, ?_⟩
  rw [push, unused, if_neg Bool.false_ne_true]
  dsimp only
  rw [inserted, pushBack]
  dsimp only
  rw [List.map_append, List.map_singleton, if_pos rfl]
  have others : (queue.data.map fun info =>
      if info.node = queue.pushed then
        { info with timeIter := some queue.created }
      else
        info) = queue.data := by
    conv_rhs => rw [← List.map_id queue.data]
    apply List.map_congr_left
    intro info member
    obtain ⟨item, present, rfl⟩ := layout.of_mem_data member
    exact if_neg (Nat.ne_of_lt (layout.pushed item present))
  rw [others, grown, Contents.first_append, ← layout.cursor]
  rfl

/-- Without items, and without a rehash, the iterators stay what they are. -/
theorem Layout.time_of_survive (layout : queue.Layout contents)
    {table : HashTable} (survive : queue.Survive table) :
    contents.time (queue.rehashed table) = queue.time := by
  rcases survive_iff.mp survive with nothing | same
  · have empty := layout.data
    rw [nothing] at empty
    have none := List.map_eq_nil_iff.mp empty.nil_eq.symm
    rw [Contents.all, List.append_eq_nil_iff] at none
    rw [layout.time, Contents.time, Contents.time, none.1, none.2]
    rfl
  · rw [layout.time, same]

section Grown

variable {table : HashTable} {buckets : Nat} {ptr : T} {uniqId : UInt32}
  {now : Int}

theorem Layout.grown (layout : queue.Layout contents)
    (survive : queue.Survive table)
    (unused : ∀ item ∈ contents.all, item.uniqId ≠ uniqId) :
    (queue.grown contents table buckets
      (queue.newest ptr uniqId now)).Layout
        (contents.append (queue.newest ptr uniqId now)) := by
  have distinct {κ : Type} {key : Item T → κ} {new : κ}
      (old : (contents.all.map key).Nodup)
      (apart : ∀ item ∈ contents.all, key item ≠ new) :
      (contents.all.map key ++ [new]).Nodup := by
    rw [List.nodup_append]
    refine ⟨old, List.nodup_singleton _, ?_⟩
    intro used listed other here
    obtain ⟨item, member, rfl⟩ := List.mem_map.mp listed
    rw [List.mem_singleton.mp here]
    exact apart item member
  refine {
    time := ?_
    cursor := rfl
    data := ?_
    ids := ?_
    nodes := ?_
    pushed := ?_
    stamps := ?_
    created := ?_ }
  · rw [Contents.time_append]
    exact congrArg (· ++ _) (layout.time_of_survive survive).symm
  · rw [Contents.all_append, List.map_append]
    exact layout.data.append_right _
  · rw [Contents.all_append, List.map_append]
    exact distinct layout.ids unused
  · rw [Contents.all_append, List.map_append]
    exact distinct layout.nodes fun item member =>
      Nat.ne_of_lt (layout.pushed item member)
  · intro item member
    rw [Contents.all_append] at member
    rcases List.mem_append.mp member with old | new
    · exact Nat.lt_succ_of_lt (layout.pushed item old)
    · rw [List.mem_singleton.mp new]
      exact Nat.lt_succ_self _
  · rw [Contents.stamps, Contents.all_append, List.map_append,
      List.pairwise_append]
    refine ⟨layout.stamps, List.pairwise_singleton _ _, ?_⟩
    intro stamp used new listed
    obtain ⟨item, member, rfl⟩ := List.mem_map.mp used
    rw [List.map_singleton, List.mem_singleton] at listed
    rw [listed]
    exact layout.created item member
  · intro item member
    rw [Contents.all_append] at member
    rcases List.mem_append.mp member with old | new
    · exact Nat.lt_succ_of_lt (layout.created item old)
    · rw [List.mem_singleton.mp new]
      exact Nat.lt_succ_self _

/-- A queue that is in step after the push has lost no iterator. -/
theorem Layout.survive_of_inStep (layout : queue.Layout contents)
    {item : Item T}
    (inStep : (queue.grown contents table buckets item).InStep) :
    queue.Survive table := by
  rw [survive_iff]
  by_cases nothing : queue.data = []
  · exact .inl nothing
  · obtain ⟨info, present⟩ := List.exists_mem_of_ne_nil _ nothing
    obtain ⟨old, member, _⟩ := layout.of_mem_data present
    obtain ⟨hasPoped, listed⟩ :=
      Contents.time_of_mem member queue.rehashes
    rw [← layout.time] at listed
    have kept : old.nodeInfo queue.rehashes hasPoped ∈
        (queue.grown contents table buckets item).time :=
      List.mem_append_left _ listed
    rw [inStep.time] at kept
    obtain ⟨other, _, hasPoped', same⟩ := Contents.mem_time kept
    have rehashes := congrArg (fun it => it.dataIter.rehashes) same
    exact .inr rehashes.symm

end Grown

end TcTimeoutQueue

end TarsCpp.RefreshQueue
