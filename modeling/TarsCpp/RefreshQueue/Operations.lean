import TarsCpp.RefreshQueue.TcTimeoutQueue
import TarsCpp.TimeoutQueue.TimeoutQueueNew

/-!
# The contents and what the operations do to them

The items that have been handed out, and the ones that wait for it, each in the
order of their last push or refresh.  A queue is in step if its containers and
its cursor are laid out from two such lists.  Every operation succeeds on a
queue that is in step, and moves its items: to the end, from those that wait to
those that have been handed out, or away.
-/

namespace TarsCpp.RefreshQueue

open TimeoutQueue (HashTable DataIter find?_of_nodup)

variable {T : Type}

/-- An item, with the number of its last push or refresh. -/
structure Item (T : Type) where
  stamp : Nat
  node : Nat
  uniqId : UInt32
  ptr : T
  createTime : Int
deriving DecidableEq, Repr

def Item.ptrInfo (item : Item T) : PtrInfo T :=
  ⟨item.node, item.uniqId, item.ptr, some item.stamp⟩

def Item.nodeInfo (rehashes : Nat) (hasPoped : Bool) (item : Item T) :
    NodeInfo :=
  ⟨item.stamp, hasPoped, item.createTime, ⟨item.node, rehashes⟩⟩

structure Contents (T : Type) where
  poped : List (Item T) := []
  waiting : List (Item T) := []
deriving DecidableEq, Repr

namespace Contents

def all (contents : Contents T) : List (Item T) :=
  contents.poped ++ contents.waiting

def stamps (contents : Contents T) : List Nat :=
  contents.all.map Item.stamp

/-- Where the cursor belongs. -/
def first (contents : Contents T) : Option Nat :=
  contents.waiting.head?.map Item.stamp

def time (rehashes : Nat) (contents : Contents T) : List NodeInfo :=
  contents.poped.map (Item.nodeInfo rehashes true) ++
    contents.waiting.map (Item.nodeInfo rehashes false)

def without (contents : Contents T) (item : Item T) : Contents T where
  poped := contents.poped.filter (·.stamp ≠ item.stamp)
  waiting := contents.waiting.filter (·.stamp ≠ item.stamp)

def append (contents : Contents T) (item : Item T) : Contents T :=
  { contents with waiting := contents.waiting ++ [item] }

theorem all_without (contents : Contents T) (item : Item T) :
    (contents.without item).all =
      contents.all.filter (·.stamp ≠ item.stamp) :=
  (List.filter_append ..).symm

theorem all_append (contents : Contents T) (item : Item T) :
    (contents.append item).all = contents.all ++ [item] :=
  (List.append_assoc ..).symm

theorem mem_of_without {contents : Contents T} {item other : Item T}
    (member : other ∈ (contents.without item).all) : other ∈ contents.all := by
  rw [all_without] at member
  exact List.mem_of_mem_filter member

theorem map_node_time (contents : Contents T) (rehashes : Nat) :
    (contents.time rehashes).map NodeInfo.node = contents.stamps := by
  rw [time, List.map_append, List.map_map, List.map_map, stamps, all,
    List.map_append]
  rfl

theorem mem_time {contents : Contents T} {rehashes : Nat} {it : NodeInfo}
    (member : it ∈ contents.time rehashes) :
    ∃ item ∈ contents.all, ∃ hasPoped,
      it = item.nodeInfo rehashes hasPoped := by
  rcases List.mem_append.mp member with poped | waiting
  · obtain ⟨item, present, rfl⟩ := List.mem_map.mp poped
    exact ⟨item, List.mem_append_left _ present, true, rfl⟩
  · obtain ⟨item, present, rfl⟩ := List.mem_map.mp waiting
    exact ⟨item, List.mem_append_right _ present, false, rfl⟩

theorem time_of_mem {contents : Contents T} {item : Item T}
    (member : item ∈ contents.all) (rehashes : Nat) :
    ∃ hasPoped, item.nodeInfo rehashes hasPoped ∈ contents.time rehashes := by
  rcases List.mem_append.mp member with poped | waiting
  · exact ⟨true, List.mem_append_left _ (List.mem_map_of_mem poped)⟩
  · exact ⟨false, List.mem_append_right _ (List.mem_map_of_mem waiting)⟩

theorem time_without (contents : Contents T) (rehashes : Nat)
    (item : Item T) :
    (contents.without item).time rehashes =
      (contents.time rehashes).filter (·.node ≠ item.stamp) := by
  rw [time, time, List.filter_append, List.filter_map, List.filter_map]
  rfl

end Contents

namespace TcTimeoutQueue

variable {queue : TcTimeoutQueue T}

/-- The item behind a node. -/
def itemOf (queue : TcTimeoutQueue T) (it : NodeInfo) : Option (Item T) :=
  (queue.data.find? (·.node = it.dataIter.node)).map fun info =>
    ⟨it.node, info.node, info.uniqId, info.ptr, it.createTime⟩

def contents (queue : TcTimeoutQueue T) : Contents T where
  poped := (queue.time.filter (·.hasPoped)).filterMap queue.itemOf
  waiting := (queue.time.filter (!·.hasPoped)).filterMap queue.itemOf

variable {contents : Contents T}

/-- The containers hold exactly these items, `_time` first those that have been
handed out; the cursor is at the first other one, and all stored iterators are
valid. -/
structure Layout (queue : TcTimeoutQueue T) (contents : Contents T) :
    Prop where
  time : queue.time = contents.time queue.rehashes
  cursor : queue.firstNoPopIter = contents.first
  data : queue.data.Perm (contents.all.map Item.ptrInfo)
  ids : (contents.all.map Item.uniqId).Nodup
  nodes : (contents.all.map Item.node).Nodup
  pushed : ∀ item ∈ contents.all, item.node < queue.pushed
  stamps : contents.stamps.Pairwise (· < ·)
  created : ∀ item ∈ contents.all, item.stamp < queue.created

def InStep (queue : TcTimeoutQueue T) : Prop :=
  queue.Layout queue.contents

theorem layout_new (table : HashTable) (timeout : Int) :
    (new table timeout : TcTimeoutQueue T).Layout {} := by
  constructor <;> simp [new, Contents.time, Contents.first, Contents.all,
    Contents.stamps]

section Layout

variable (layout : queue.Layout contents)

include layout

theorem Layout.nodup_nodes : (queue.data.map PtrInfo.node).Nodup := by
  have same := layout.data.map PtrInfo.node
  rw [List.map_map] at same
  exact same.nodup_iff.mpr layout.nodes

theorem Layout.nodup_stamps : contents.stamps.Nodup :=
  layout.stamps.imp Nat.ne_of_lt

theorem Layout.mem_data {item : Item T} (member : item ∈ contents.all) :
    item.ptrInfo ∈ queue.data :=
  layout.data.mem_iff.mpr (List.mem_map_of_mem member)

theorem Layout.of_mem_data {info : PtrInfo T} (member : info ∈ queue.data) :
    ∃ item ∈ contents.all, item.ptrInfo = info :=
  List.mem_map.mp (layout.data.mem_iff.mp member)

/-- An item is known by its stamp as well as by its push. -/
theorem Layout.stamp_eq_iff {item other : Item T}
    (member : item ∈ contents.all) (other_mem : other ∈ contents.all) :
    other.stamp = item.stamp ↔ other.node = item.node := by
  constructor
  · intro same
    rw [List.inj_on_of_nodup_map layout.nodup_stamps other_mem member same]
  · intro same
    rw [List.inj_on_of_nodup_map layout.nodes other_mem member same]

theorem Layout.find_node {item : Item T} (member : item ∈ contents.all) :
    queue.data.find? (·.node = item.node) = some item.ptrInfo :=
  find?_of_nodup layout.nodup_nodes (layout.mem_data member)

theorem Layout.find_id (uniqId : UInt32) :
    queue.data.find? (·.uniqId = uniqId) = none ∧
        (∀ item ∈ contents.all, item.uniqId ≠ uniqId) ∨
      ∃ item ∈ contents.all, item.uniqId = uniqId ∧
        queue.data.find? (·.uniqId = uniqId) = some item.ptrInfo := by
  cases search : queue.data.find? (·.uniqId = uniqId) with
  | none =>
      refine .inl ⟨rfl, fun item member same => ?_⟩
      have different :=
        List.find?_eq_none.mp search _ (layout.mem_data member)
      exact different (decide_eq_true same)
  | some info =>
      have same : info.uniqId = uniqId := by
        simpa using List.find?_some search
      obtain ⟨item, member, rfl⟩ :=
        layout.of_mem_data (List.mem_of_find?_eq_some search)
      exact .inr ⟨item, member, same, rfl⟩

theorem Layout.deref {item : Item T} (member : item ∈ contents.all)
    {rest : TcTimeoutQueue T} (data : rest.data = queue.data)
    (rehashes : rest.rehashes = queue.rehashes) :
    rest.deref ⟨item.node, queue.rehashes⟩ = .ok item.ptrInfo := by
  rw [TcTimeoutQueue.deref, if_pos rehashes.symm, data, layout.find_node member]

/-- The layout determines the contents. -/
theorem Layout.contents_eq : queue.contents = contents := by
  have items (hasPoped : Bool) {items : List (Item T)}
      (among : ∀ item ∈ items, item ∈ contents.all) :
      (items.map (Item.nodeInfo queue.rehashes hasPoped)).filterMap
        queue.itemOf = items := by
    rw [List.filterMap_map]
    refine Eq.trans ?_ List.filterMap_some
    apply List.filterMap_congr
    intro item member
    rw [Function.comp_apply, itemOf, Item.nodeInfo]
    dsimp only
    rw [layout.find_node (among item member)]
    rfl
  have kept (hasPoped : Bool) (items : List (Item T)) :
      (items.map (Item.nodeInfo queue.rehashes hasPoped)).filter
          (·.hasPoped) =
        (if hasPoped then
          items.map (Item.nodeInfo queue.rehashes hasPoped) else []) ∧
      (items.map (Item.nodeInfo queue.rehashes hasPoped)).filter
          (!·.hasPoped) =
        (if hasPoped then [] else
          items.map (Item.nodeInfo queue.rehashes hasPoped)) := by
    constructor <;> cases hasPoped <;> simp [Item.nodeInfo]
  rw [TcTimeoutQueue.contents, layout.time, Contents.time, List.filter_append,
    List.filter_append, (kept true _).1, (kept false _).1, (kept true _).2,
    (kept false _).2, if_pos rfl, if_neg Bool.false_ne_true, if_pos rfl,
    if_neg Bool.false_ne_true, List.append_nil, List.nil_append,
    items true fun item member => List.mem_append_left _ member,
    items false fun item member => List.mem_append_right _ member]

theorem Layout.inStep : queue.InStep := by
  rw [InStep, layout.contents_eq]
  exact layout

end Layout

theorem derefTime_eq (distinct : (queue.time.map NodeInfo.node).Nodup)
    {it : NodeInfo} (member : it ∈ queue.time) :
    queue.derefTime (some it.node) = .ok it := by
  have found := find?_of_nodup distinct member
  have same : (fun other : NodeInfo =>
      decide (some other.node = some it.node)) =
      fun other => decide (other.node = it.node) := by
    funext other
    simp only [Option.some_inj]
  rw [derefTime, same, found]

theorem increment_eq {front back : List NodeInfo} {it : NodeInfo}
    (distinct : (queue.time.map NodeInfo.node).Nodup)
    (split : queue.time = front ++ it :: back) :
    queue.increment (some it.node) = .ok (back.head?.map NodeInfo.node) := by
  rw [split, List.map_append, List.nodup_append] at distinct
  have skipped : (front ++ it :: back).dropWhile
      (some ·.node ≠ some it.node) = it :: back := by
    rw [List.dropWhile_append_of_pos, List.dropWhile_cons_of_neg]
    · simp
    · intro other member
      have different := distinct.2.2 other.node (List.mem_map_of_mem member)
        it.node (List.mem_map_of_mem List.mem_cons_self)
      simpa using different
  rw [increment, split, skipped]

end TcTimeoutQueue

/-- Older than the timeout. -/
def Old (timeout ms : Int) (item : Item T) : Prop :=
  ms - item.createTime > timeout

instance decidableOld (timeout ms : Int) (item : Item T) :
    Decidable (Old timeout ms item) :=
  inferInstanceAs (Decidable (_ > _))

namespace Contents

/-- The items that time out go. -/
def young (contents : Contents T) (timeout ms : Int) : Contents T where
  poped := contents.poped.filter (¬ Old timeout ms ·)
  waiting := contents.waiting.filter (¬ Old timeout ms ·)

/-- The order of `_time`. -/
def Sorted (contents : Contents T) : Prop :=
  (contents.all.map Item.createTime).Pairwise (· ≤ ·)

end Contents

inductive Moves (timeout : Int) (before : Contents T) :
    Event T → Answer T → Contents T → Prop
  | pushed {item : Item T}
      (unused : ∀ other ∈ before.all, other.uniqId ≠ item.uniqId)
      (newest : ∀ other ∈ before.all, other.stamp < item.stamp) :
      Moves timeout before (.push item.ptr item.uniqId item.createTime)
        (.success true) (before.append item)
  | refused {item : Item T} (member : item ∈ before.all) {ptr : T}
      {now : Int} :
      Moves timeout before (.push ptr item.uniqId now) (.success false) before
  | found {item : Item T} (member : item ∈ before.all) :
      Moves timeout before (.get item.uniqId false) (.item (some item.ptr))
        before
  | taken {item : Item T} (member : item ∈ before.all) :
      Moves timeout before (.get item.uniqId true) (.item (some item.ptr))
        (before.without item)
  | missing {uniqId : UInt32} {bErase : Bool}
      (unused : ∀ other ∈ before.all, other.uniqId ≠ uniqId) :
      Moves timeout before (.get uniqId bErase) (.item none) before
  | refreshed {item : Item T} (member : item ∈ before.all) {stamp : Nat}
      {now : Int} (newest : ∀ other ∈ before.all, other.stamp < stamp) :
      Moves timeout before (.getAndRefresh item.uniqId now)
        (.item (some item.ptr))
        ((before.without item).append { item with stamp, createTime := now })
  | unrefreshed {uniqId : UInt32} {now : Int}
      (unused : ∀ other ∈ before.all, other.uniqId ≠ uniqId) :
      Moves timeout before (.getAndRefresh uniqId now) (.item none) before
  | erased {item : Item T} (member : item ∈ before.all) :
      Moves timeout before (.erase item.uniqId) (.item (some item.ptr))
        (before.without item)
  | unknown {uniqId : UInt32}
      (unused : ∀ other ∈ before.all, other.uniqId ≠ uniqId) :
      Moves timeout before (.erase uniqId) (.item none) before
  | handed {item : Item T} {later : List (Item T)}
      (first : before.waiting = item :: later) :
      Moves timeout before .pop (.item (some item.ptr))
        ⟨before.poped ++ [item], later⟩
  | idle (nothing : before.waiting = []) :
      Moves timeout before .pop (.item none) before
  | swapped (q : List T) :
      Moves timeout before (.swap q)
        (.swapped
          (!before.all.isEmpty &&
            !(q ++ before.waiting.map Item.ptr).isEmpty)
          (q ++ before.waiting.map Item.ptr))
        ⟨before.all, []⟩
  | expired (ms : Int) :
      Moves timeout before (.timeout ms)
        (.expired ((before.all.filter (Old timeout ms ·)).map Item.ptr))
        (before.young timeout ms)

theorem filter_key_ne {α κ : Type} [DecidableEq κ] {key : α → κ}
    {front back : List α} {item : α}
    (distinct : ((front ++ item :: back).map key).Nodup) :
    (front ++ item :: back).filter (key · ≠ key item) = front ++ back := by
  rw [List.map_append, List.map_cons, List.nodup_append] at distinct
  obtain ⟨_, behind, apart⟩ := distinct
  rw [List.filter_append, List.filter_cons_of_neg (by simp)]
  congr 1
  · apply List.filter_eq_self.mpr
    intro other member
    exact decide_eq_true (apart _ (List.mem_map_of_mem member) _
      List.mem_cons_self)
  · apply List.filter_eq_self.mpr
    intro other member
    apply decide_eq_true
    intro same
    apply (List.nodup_cons.mp behind).1
    rw [← same]
    exact List.mem_map_of_mem member

theorem perm_filter_key {α κ : Type} [DecidableEq κ] {key : α → κ}
    {items : List α} (distinct : (items.map key).Nodup) {item : α}
    (member : item ∈ items) :
    items.Perm (item :: items.filter (key · ≠ key item)) := by
  obtain ⟨front, back, rfl⟩ := List.append_of_mem member
  rw [filter_key_ne distinct]
  exact List.perm_middle

namespace Contents

variable {contents : Contents T} {item : Item T}

theorem time_append (contents : Contents T) (rehashes : Nat)
    (item : Item T) :
    (contents.append item).time rehashes =
      contents.time rehashes ++ [item.nodeInfo rehashes false] := by
  rw [time, time, append, List.map_append, List.append_assoc]
  rfl

theorem first_append (contents : Contents T) (item : Item T) :
    (contents.append item).first =
      if contents.first = none then some item.stamp else contents.first := by
  rw [first, first, append]
  cases contents.waiting <;> rfl

/-- The cursor moves on only if its own node leaves. -/
theorem first_without (distinct : contents.stamps.Nodup) (item : Item T) :
    contents.first = some item.stamp ∧
        (∃ other later, contents.waiting = other :: later ∧
          other.stamp = item.stamp ∧
          (contents.without item).first = later.head?.map Item.stamp) ∨
      contents.first ≠ some item.stamp ∧
        (contents.without item).first = contents.first := by
  rw [first, first, without]
  cases waiting : contents.waiting with
  | nil => exact .inr ⟨by simp, rfl⟩
  | cons other later =>
      by_cases same : other.stamp = item.stamp
      · refine .inl ⟨congrArg some same, other, later, rfl, same, ?_⟩
        have apart : ((other :: later).map Item.stamp).Nodup := by
          rw [stamps, all, waiting, List.map_append] at distinct
          exact (List.nodup_append.mp distinct).2.1
        have rest := @filter_key_ne _ _ _ _ [] _ _ apart
        rw [← same]
        exact congrArg (fun items => Option.map Item.stamp items.head?) rest
      · refine .inr ⟨fun equal => same (Option.some.inj equal), ?_⟩
        have stays : (other :: later).filter (·.stamp ≠ item.stamp) =
            other :: later.filter (·.stamp ≠ item.stamp) :=
          List.filter_cons_of_pos (decide_eq_true same)
        rw [stays]
        rfl

end Contents

namespace TcTimeoutQueue

variable {queue : TcTimeoutQueue T} {contents : Contents T}

section Layout

variable (layout : queue.Layout contents)

include layout

theorem Layout.nodup_time {rest : TcTimeoutQueue T}
    (same : rest.time = queue.time) : (rest.time.map NodeInfo.node).Nodup := by
  rw [same, layout.time, Contents.map_node_time]
  exact layout.nodup_stamps

theorem Layout.leave (item : Item T) {rest : TcTimeoutQueue T}
    (same : rest.time = queue.time)
    (cursor : rest.firstNoPopIter = queue.firstNoPopIter) :
    rest.leave (some item.stamp) =
      .ok { rest with firstNoPopIter := (contents.without item).first } := by
  rw [TcTimeoutQueue.leave, cursor, layout.cursor]
  rcases Contents.first_without layout.nodup_stamps item with
    ⟨here, other, later, waiting, stamp, next⟩ | ⟨elsewhere, next⟩
  · have split : rest.time =
        contents.poped.map (Item.nodeInfo queue.rehashes true) ++
          other.nodeInfo queue.rehashes false ::
            later.map (Item.nodeInfo queue.rehashes false) := by
      rw [same, layout.time, Contents.time, waiting, List.map_cons]
    have moved := increment_eq (layout.nodup_time same) split
    rw [if_pos here, here, ← stamp]
    have node : (other.nodeInfo queue.rehashes false).node = other.stamp := rfl
    rw [node] at moved
    rw [moved, next, List.head?_map, Option.map_map]
    rfl
  · rw [if_neg elsewhere, next, ← layout.cursor, ← cursor]

theorem Layout.eraseTime {item : Item T} (member : item ∈ contents.all)
    {rest : TcTimeoutQueue T} (same : rest.time = queue.time) :
    rest.eraseTime (some item.stamp) =
      .ok { rest with
        time := (contents.without item).time queue.rehashes } := by
  obtain ⟨hasPoped, listed⟩ := Contents.time_of_mem member queue.rehashes
  rw [← layout.time, ← same] at listed
  have found := derefTime_eq (layout.nodup_time same) listed
  have node : (item.nodeInfo queue.rehashes hasPoped).node = item.stamp := rfl
  rw [node] at found
  rw [TcTimeoutQueue.eraseTime, found, Contents.time_without, ← layout.time,
    ← same]
  rfl

theorem Layout.eraseData {item : Item T} (member : item ∈ contents.all)
    {rest : TcTimeoutQueue T} (data : rest.data = queue.data)
    (rehashes : rest.rehashes = queue.rehashes) :
    rest.eraseData ⟨item.node, queue.rehashes⟩ =
      .ok { rest with data := queue.data.filter (·.node ≠ item.node) } := by
  rw [TcTimeoutQueue.eraseData, layout.deref member data rehashes, ← data]
  rfl

/-- The item has left all containers. -/
theorem Layout.without {item : Item T} (member : item ∈ contents.all) :
    Layout { queue with
      data := queue.data.filter (·.node ≠ item.node)
      time := (contents.without item).time queue.rehashes
      firstNoPopIter := (contents.without item).first }
      (contents.without item) where
  time := rfl
  cursor := rfl
  data := by
    refine (layout.data.filter _).trans ?_
    rw [Contents.all_without, List.filter_map]
    apply List.Perm.of_eq
    congr 1
    apply List.filter_congr
    intro other present
    apply decide_eq_decide.mpr
    exact not_congr (layout.stamp_eq_iff member present).symm
  ids := by
    rw [Contents.all_without]
    exact layout.ids.sublist (List.filter_sublist.map _)
  nodes := by
    rw [Contents.all_without]
    exact layout.nodes.sublist (List.filter_sublist.map _)
  pushed := fun other present =>
    layout.pushed other (Contents.mem_of_without present)
  stamps := by
    rw [Contents.stamps, Contents.all_without]
    exact layout.stamps.sublist (List.filter_sublist.map _)
  created := fun other present =>
    layout.created other (Contents.mem_of_without present)

theorem Layout.perm_without {item : Item T} (member : item ∈ contents.all) :
    contents.all.Perm (item :: (contents.without item).all) := by
  rw [Contents.all_without]
  exact perm_filter_key layout.nodup_stamps member

/-- The item has a new node at the end of `_time`. -/
theorem Layout.refresh {item : Item T} (member : item ∈ contents.all)
    (now : Int) :
    Layout
      (pushBack { queue with
        firstNoPopIter := (contents.without item).first
        time := (contents.without item).time queue.rehashes }
        ⟨item.node, queue.rehashes⟩ now)
      ((contents.without item).append
        { item with stamp := queue.created, createTime := now }) := by
  have perm := layout.perm_without member
  have appended : ∀ {κ : Type} (key : Item T → κ),
      (∀ (item : Item T) stamp createTime,
        key { item with stamp, createTime } = key item) →
      (((contents.without item).append
        { item with stamp := queue.created, createTime := now }).all.map
          key).Perm (contents.all.map key) := by
    intro κ key same
    rw [Contents.all_append, List.map_append, List.map_singleton, same]
    exact (List.perm_append_singleton _ _).trans (perm.map key).symm
  refine {
    time := ?_
    cursor := ?_
    data := ?_
    ids := ?_
    nodes := ?_
    pushed := ?_
    stamps := ?_
    created := ?_ }
  · rw [Contents.time_append]
    rfl
  · rw [Contents.first_append]
    rfl
  · refine (layout.data.map _).trans ?_
    rw [List.map_map]
    refine (perm.map _).trans ?_
    rw [List.map_cons, Contents.all_append, List.map_append,
      List.map_singleton]
    refine List.Perm.trans ?_ (List.perm_append_singleton _ _).symm
    apply List.Perm.of_eq
    congr 1
    · exact if_pos rfl
    · apply List.map_congr_left
      intro other present
      refine if_neg fun same => ?_
      rw [Contents.all_without] at present
      obtain ⟨listed, apart⟩ := List.mem_filter.mp present
      exact of_decide_eq_true apart
        ((layout.stamp_eq_iff member listed).mpr same)
  · exact (appended Item.uniqId fun _ _ _ => rfl).nodup_iff.mpr layout.ids
  · exact (appended Item.node fun _ _ _ => rfl).nodup_iff.mpr layout.nodes
  · intro other present
    rw [Contents.all_append] at present
    rcases List.mem_append.mp present with old | new
    · exact layout.pushed other (Contents.mem_of_without old)
    · rw [List.mem_singleton.mp new]
      exact layout.pushed item member
  · rw [Contents.stamps, Contents.all_append, List.map_append,
      List.pairwise_append]
    refine ⟨(layout.without member).stamps, List.pairwise_singleton _ _, ?_⟩
    intro stamp used new listed
    obtain ⟨other, present, rfl⟩ := List.mem_map.mp used
    rw [List.map_singleton, List.mem_singleton] at listed
    rw [listed]
    exact layout.created other (Contents.mem_of_without present)
  · intro other present
    rw [Contents.all_append] at present
    rcases List.mem_append.mp present with old | new
    · exact Nat.lt_succ_of_lt
        (layout.created other (Contents.mem_of_without old))
    · rw [List.mem_singleton.mp new]
      exact Nat.lt_succ_self _

end Layout

end TcTimeoutQueue

end TarsCpp.RefreshQueue
