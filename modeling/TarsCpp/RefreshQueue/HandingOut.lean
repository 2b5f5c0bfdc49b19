import TarsCpp.RefreshQueue.Operations

/-!
# Handing items out

`pop` takes the first of the items that wait, and `swap` all of them; `timeout`
takes the old ones, which stand at the front of `_time`.
-/

namespace TarsCpp.RefreshQueue

variable {T : Type}

namespace Contents

/-- The nodes from which the search for the first waiting item may start. -/
def Starts (contents : Contents T) (stamp : Nat) : Prop :=
  contents.first = some stamp ∨ ∃ item ∈ contents.poped, item.stamp = stamp

theorem starts_of_time {contents : Contents T} {rehashes : Nat}
    {it : NodeInfo} {later : List NodeInfo}
    (front : contents.time rehashes = it :: later) :
    contents.Starts it.node := by
  rw [time] at front
  cases poped : contents.poped with
  | nil =>
      rw [poped, List.map_nil, List.nil_append] at front
      obtain ⟨item, rest, waiting, rfl, _⟩ := List.map_eq_cons_iff.mp front
      refine .inl ?_
      rw [first, waiting]
      rfl
  | cons item rest =>
      rw [poped, List.map_cons, List.cons_append] at front
      refine .inr ⟨item, by rw [poped]; exact List.mem_cons_self, ?_⟩
      rw [← (List.cons.inj front).1]
      rfl

end Contents

namespace TcTimeoutQueue

variable {queue : TcTimeoutQueue T} {contents : Contents T}

/-- The queue after items have been handed out. -/
def advanced (queue : TcTimeoutQueue T) (contents : Contents T) :
    TcTimeoutQueue T :=
  { queue with
    time := contents.time queue.rehashes
    firstNoPopIter := contents.first }

section Layout

variable (layout : queue.Layout contents)

include layout

theorem Layout.advanced_self : queue.advanced contents = queue := by
  rw [advanced, ← layout.time, ← layout.cursor]

theorem Layout.advanced (contents' : Contents T)
    (same : contents'.all = contents.all) :
    (queue.advanced contents').Layout contents' where
  time := rfl
  cursor := rfl
  data := same ▸ layout.data
  ids := same ▸ layout.ids
  nodes := same ▸ layout.nodes
  pushed := same ▸ layout.pushed
  stamps := by
    rw [Contents.stamps, same]
    exact layout.stamps
  created := same ▸ layout.created

theorem Layout.start {stamp : Nat} (starts : contents.Starts stamp) :
    ∃ info, queue.derefTime (some stamp) = .ok info ∧
      (if info.hasPoped then queue.firstNoPopIter else some stamp) =
        contents.first := by
  have found (item : Item T) (hasPoped : Bool)
      (listed : item.nodeInfo queue.rehashes hasPoped ∈ queue.time) :
      queue.derefTime (some item.stamp) =
        .ok (item.nodeInfo queue.rehashes hasPoped) :=
    derefTime_eq (layout.nodup_time rfl) listed
  rcases starts with first | ⟨item, member, rfl⟩
  · rw [Contents.first] at first
    obtain ⟨item, front, rfl⟩ := Option.map_eq_some_iff.mp first
    refine ⟨_, found item false ?_, ?_⟩
    · rw [layout.time]
      exact List.mem_append_right _
        (List.mem_map_of_mem (List.mem_of_head? front))
    · rw [Contents.first, front]
      rfl
  · refine ⟨_, found item true ?_, ?_⟩
    · rw [layout.time]
      exact List.mem_append_left _ (List.mem_map_of_mem member)
    · exact layout.cursor

theorem Layout.handOut_nothing {stamp : Nat}
    (starts : contents.Starts stamp) (nothing : contents.waiting = []) :
    queue.handOut (some stamp) = .ok (none, queue) := by
  obtain ⟨info, found, start⟩ := layout.start starts
  have first : contents.first = none := by
    rw [Contents.first, nothing]
    rfl
  rw [handOut, found]
  change (if _ = none then _ else _) = _
  rw [start, if_pos first]
  rfl

/-- The nodes of the items keep their places, the first waiting one is
marked. -/
theorem Layout.mark {item : Item T} {later : List (Item T)}
    (waiting : contents.waiting = item :: later) :
    (queue.time.map fun other =>
        if some other.node = some item.stamp then
          { other with hasPoped := true }
        else
          other) =
      (Contents.mk (contents.poped ++ [item]) later).time
        queue.rehashes := by
  have distinct := layout.nodup_stamps
  rw [Contents.stamps, Contents.all, waiting, List.map_append,
    List.nodup_append] at distinct
  rw [layout.time, Contents.time, Contents.time, waiting, List.map_cons,
    List.map_append, List.map_append, List.map_cons, List.map_singleton,
    List.append_assoc, if_pos (by rfl)]
  congr 1
  · rw [List.map_map]
    apply List.map_congr_left
    intro other _
    rw [Function.comp_apply]
    split <;> rfl
  · refine congrArg (item.nodeInfo queue.rehashes true :: ·) ?_
    rw [List.map_map]
    apply List.map_congr_left
    intro other member
    refine if_neg fun same => ?_
    apply (List.nodup_cons.mp distinct.2.1).1
    rw [← Option.some.inj same]
    exact List.mem_map_of_mem member

theorem Layout.handOut_first {stamp : Nat} (starts : contents.Starts stamp)
    {item : Item T} {later : List (Item T)}
    (waiting : contents.waiting = item :: later) :
    queue.handOut (some stamp) =
      .ok (some (later.head?.map Item.stamp, item.ptr),
        queue.advanced ⟨contents.poped ++ [item], later⟩) := by
  obtain ⟨info, found, start⟩ := layout.start starts
  have first : contents.first = some item.stamp := by
    rw [Contents.first, waiting]
    rfl
  have member : item ∈ contents.waiting := by
    rw [waiting]
    exact List.mem_cons_self
  have listed : item.nodeInfo queue.rehashes false ∈ queue.time := by
    rw [layout.time]
    exact List.mem_append_right _ (List.mem_map_of_mem member)
  have node : queue.derefTime (some item.stamp) =
      .ok (item.nodeInfo queue.rehashes false) :=
    derefTime_eq (layout.nodup_time rfl) listed
  have entry := @Layout.deref T queue contents layout item
    (List.mem_append_right _ member) queue rfl rfl
  have next := layout.advanced ⟨contents.poped ++ [item], later⟩ (by
      rw [Contents.all, Contents.all, waiting, List.append_assoc]
      rfl)
  have split : (queue.advanced ⟨contents.poped ++ [item], later⟩).time =
      contents.poped.map (Item.nodeInfo queue.rehashes true) ++
        item.nodeInfo queue.rehashes true ::
          later.map (Item.nodeInfo queue.rehashes false) := by
    rw [TcTimeoutQueue.advanced, Contents.time, List.map_append,
      List.append_assoc]
    rfl
  have moved := increment_eq (next.nodup_time rfl) split
  rw [handOut, found]
  change (if _ = none then _ else _) = _
  rw [start, first, if_neg (Option.some_ne_none _), node]
  change (queue.deref ⟨item.node, queue.rehashes⟩ >>= _) = _
  rw [entry]
  change (increment { queue with time := _ } (some item.stamp) >>= _) = _
  rw [layout.mark waiting]
  have moved' : increment { queue with
      time := (Contents.mk (contents.poped ++ [item]) later).time
        queue.rehashes } (some item.stamp) =
      .ok (later.head?.map Item.stamp) := by
    refine moved.trans ?_
    rw [List.head?_map, Option.map_map]
    rfl
  rw [moved']
  rfl

theorem Layout.pop_spec :
    ∃ t next contents', queue.pop = .ok (t, next) ∧
      next.Layout contents' ∧ next.timeout = queue.timeout ∧
      next.created = queue.created ∧
      Moves queue.timeout contents .pop (.item t) contents' := by
  rw [TcTimeoutQueue.pop]
  cases times : queue.time with
  | nil =>
      refine ⟨none, queue, contents, rfl, layout, rfl, rfl, .idle ?_⟩
      have empty := layout.time.symm.trans times
      rw [Contents.time, List.append_eq_nil_iff] at empty
      exact List.map_eq_nil_iff.mp empty.2
  | cons it later =>
      have starts := Contents.starts_of_time (layout.time.symm.trans times)
      dsimp only
      cases waiting : contents.waiting with
      | nil =>
          rw [layout.handOut_nothing starts waiting]
          exact ⟨none, queue, contents, rfl, layout, rfl, rfl, .idle waiting⟩
      | cons item later =>
          rw [layout.handOut_first starts waiting]
          refine ⟨some item.ptr, _, _, rfl, layout.advanced _ ?_, rfl, rfl,
            .handed waiting⟩
          rw [Contents.all, Contents.all, waiting, List.append_assoc]
          rfl

end Layout

/-- From the cursor, or from a node in front of it, the loop hands out all that
waits. -/
theorem swapLoop_spec {poped waiting : List (Item T)}
    {queue : TcTimeoutQueue T} (layout : queue.Layout ⟨poped, waiting⟩)
    {turns : Nat} (enough : waiting.length < turns) (q : List T)
    {it : Option Nat}
    (start : it = (Contents.mk poped waiting).first ∨
      ∃ stamp, it = some stamp ∧ (Contents.mk poped waiting).Starts stamp) :
    swapLoop turns it q queue =
      .ok (q ++ waiting.map Item.ptr,
        queue.advanced ⟨poped ++ waiting, []⟩) := by
  have starts : ∀ stamp, it = some stamp →
      (Contents.mk poped waiting).Starts stamp := by
    intro stamp same
    rcases start with first | ⟨stamp', same', holds⟩
    · exact .inl (first.symm.trans same)
    · rw [Option.some.inj (same.symm.trans same')]
      exact holds
  induction waiting generalizing poped queue turns q it with
  | nil =>
      rw [List.append_nil, List.map_nil, List.append_nil,
        layout.advanced_self]
      obtain ⟨turns, rfl⟩ := Nat.exists_eq_succ_of_ne_zero
        (Nat.ne_of_gt enough)
      cases it with
      | none => rfl
      | some stamp =>
          rw [swapLoop, layout.handOut_nothing (starts stamp rfl) rfl]
          rfl
  | cons item later ih =>
      obtain ⟨turns, rfl⟩ := Nat.exists_eq_succ_of_ne_zero
        (Nat.ne_of_gt (Nat.zero_lt_of_lt enough))
      cases it with
      | none =>
          rcases start with first | ⟨stamp, same, _⟩
          · cases first
          · cases same
      | some stamp =>
          have next := layout.advanced ⟨poped ++ [item], later⟩ (by
              rw [Contents.all, Contents.all, List.append_assoc]
              rfl)
          have rest := ih next (Nat.lt_of_succ_lt_succ enough) (q ++ [item.ptr])
            (.inl rfl) fun stamp same => .inl same
          rw [swapLoop, layout.handOut_first (starts stamp rfl) rfl]
          refine rest.trans ?_
          rw [List.map_cons, List.append_assoc, List.append_assoc]
          rfl

theorem Layout.swap_spec (layout : queue.Layout contents) (q : List T) :
    ∃ result q' next contents', queue.swap q = .ok ((result, q'), next) ∧
      next.Layout contents' ∧ next.timeout = queue.timeout ∧
      next.created = queue.created ∧
      Moves queue.timeout contents (.swap q) (.swapped result q')
        contents' := by
  rw [TcTimeoutQueue.swap]
  have moves : Moves queue.timeout contents (.swap q) _ _ := .swapped q
  cases times : queue.time with
  | nil =>
      have empty := layout.time.symm.trans times
      rw [Contents.time, List.append_eq_nil_iff, List.map_eq_nil_iff,
        List.map_eq_nil_iff] at empty
      obtain ⟨poped, waiting⟩ := contents
      obtain ⟨rfl, rfl⟩ := empty
      refine ⟨false, q, queue, _, rfl, layout, rfl, rfl, ?_⟩
      rw [List.map_nil, List.append_nil] at moves
      exact moves
  | cons it later =>
      have starts := Contents.starts_of_time (layout.time.symm.trans times)
      have enough : contents.waiting.length < queue.time.length + 1 := by
        rw [layout.time, Contents.time, List.length_append, List.length_map,
          List.length_map]
        omega
      have loop := swapLoop_spec layout enough q (.inr ⟨it.node, rfl, starts⟩)
      rw [times] at loop
      dsimp only
      rw [loop]
      refine ⟨_, _, _, _, rfl,
        layout.advanced _ (List.append_nil _), rfl, rfl, ?_⟩
      have some : contents.all.isEmpty = false := by
        have length := congrArg List.length (layout.time.symm.trans times)
        rw [Contents.time, List.length_append, List.length_map,
          List.length_map, ← List.length_append] at length
        rw [Contents.all, List.isEmpty_eq_false_iff_exists_mem]
        exact List.exists_mem_of_length_pos (length ▸ Nat.succ_pos _)
      rw [some] at moves
      exact moves

end TcTimeoutQueue

end TarsCpp.RefreshQueue
