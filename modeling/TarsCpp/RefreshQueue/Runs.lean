import TarsCpp.TimeoutQueue.Runs
import TarsCpp.RefreshQueue.Arrivals

/-!
# Runs of the queue

Any sequence of operations, with a clock that does not go back.
-/

namespace TarsCpp.RefreshQueue

open TransitionRun
open TimeoutQueue (HashTable)

variable {T : Type}

namespace Contents

def waitingStamps (contents : Contents T) : List Nat :=
  contents.waiting.map Item.stamp

def popedStamps (contents : Contents T) : List Nat :=
  contents.poped.map Item.stamp

theorem stamps_eq (contents : Contents T) :
    contents.stamps = contents.popedStamps ++ contents.waitingStamps :=
  List.map_append

theorem young_all (contents : Contents T) (timeout ms : Int) :
    (contents.young timeout ms).all =
      contents.all.filter (¬ Old timeout ms ·) :=
  (List.filter_append ..).symm

end Contents

/-- An operation with its answer, and the contents before and after it. -/
structure Label (T : Type) where
  before : Contents T
  event : Event T
  answer : Answer T
  after : Contents T

namespace Label

/-- The items that the operation takes from those that wait to those that have
been handed out. -/
def handed (label : Label T) : List Nat :=
  label.before.waitingStamps.filter (· ∈ label.after.popedStamps)

/-- The push or refresh that the operation is. -/
def entered (label : Label T) : List Nat :=
  label.after.stamps.filter (· ∉ label.before.stamps)

end Label

structure Timed (T : Type) where
  queue : TcTimeoutQueue T
  clock : Int

def Step (table : HashTable) (state : Timed T) (label : Label T)
    (next : Timed T) : Prop :=
  label.before = state.queue.contents ∧ label.after = next.queue.contents ∧
  label.event.perform table state.queue = .ok (label.answer, next.queue) ∧
  (∀ now ∈ label.event.now, state.clock ≤ now) ∧
  next.clock = label.event.now.getD state.clock

/-- A push of a new id does not take the stored iterators away. -/
def KeepsIterators (table : HashTable) (queue : TcTimeoutQueue T) :
    Event T → Prop
  | .push _ uniqId _ =>
      queue.data.any (·.uniqId = uniqId) = true ∨ queue.Survive table
  | _ => True

def GuardedStep (table : HashTable) : Timed T → Label T → Timed T → Prop :=
  Guarded (fun state label => KeepsIterators table state.queue label.event)
    (Step table)

section Moves

variable {timeout : Int} {before after : Contents T} {event : Event T}
  {answer : Answer T}

/-- `_time` stays in the order of the clock. -/
theorem Moves.sorted (moves : Moves timeout before event answer after)
    {clock : Int} (sorted : before.Sorted)
    (past : ∀ item ∈ before.all, item.createTime ≤ clock)
    (forward : ∀ now ∈ event.now, clock ≤ now) :
    after.Sorted ∧
      ∀ item ∈ after.all, item.createTime ≤ event.now.getD clock := by
  have fewer {contents : Contents T}
      (sublist : contents.all.Sublist before.all) :
      contents.Sorted ∧ ∀ item ∈ contents.all, item.createTime ≤ clock :=
    ⟨sorted.sublist (sublist.map _),
      fun item member => past item (sublist.subset member)⟩
  have without (item : Item T) :
      (before.without item).all.Sublist before.all := by
    rw [Contents.all_without]
    exact List.filter_sublist
  have appended {contents : Contents T} {item : Item T}
      (kept : contents.Sorted ∧ ∀ item ∈ contents.all, item.createTime ≤ clock)
      (latest : clock ≤ item.createTime) :
      (contents.append item).Sorted ∧
        ∀ other ∈ (contents.append item).all,
          other.createTime ≤ item.createTime := by
    rw [Contents.Sorted, Contents.all_append, List.map_append,
      List.pairwise_append]
    refine ⟨⟨kept.1, List.pairwise_singleton _ _, ?_⟩, ?_⟩
    · intro time used now here
      obtain ⟨other, member, rfl⟩ := List.mem_map.mp used
      rw [List.map_singleton, List.mem_singleton] at here
      rw [here]
      exact (kept.2 other member).trans latest
    · intro other member
      rcases List.mem_append.mp member with old | new
      · exact (kept.2 other old).trans latest
      · exact le_of_eq (congrArg _ (List.mem_singleton.mp new))
  have timed {contents : Contents T}
      (kept : contents.Sorted ∧
        ∀ item ∈ contents.all, item.createTime ≤ clock) :
      contents.Sorted ∧
        ∀ item ∈ contents.all, item.createTime ≤ event.now.getD clock := by
    refine ⟨kept.1, fun item member => (kept.2 item member).trans ?_⟩
    cases time : event.now with
    | none => exact le_refl _
    | some now => exact forward now time
  cases moves with
  | pushed unused newest =>
      exact appended ⟨sorted, past⟩ (forward _ rfl)
  | @refreshed item member stamp now newest =>
      exact @appended _ { item with stamp, createTime := now }
        (fewer (without item)) (forward _ rfl)
  | handed first =>
      apply timed
      apply fewer
      rw [Contents.all, Contents.all, first, List.append_assoc]
      exact List.Sublist.refl _
  | swapped q =>
      apply timed
      apply fewer
      rw [Contents.all, List.append_nil]
  | expired ms =>
      apply timed
      apply fewer
      rw [Contents.young_all]
      exact List.filter_sublist
  | taken member => exact timed (fewer (without _))
  | erased member => exact timed (fewer (without _))
  | refused member => exact timed ⟨sorted, past⟩
  | found member => exact timed ⟨sorted, past⟩
  | missing unused => exact timed ⟨sorted, past⟩
  | unrefreshed unused => exact timed ⟨sorted, past⟩
  | unknown unused => exact timed ⟨sorted, past⟩
  | idle nothing => exact timed ⟨sorted, past⟩

/-- The first of the waiting items are handed out, or some leave, or there is a
new one behind them. -/
theorem Moves.waiting (moves : Moves timeout before event answer after) :
    (∃ handed, before.waitingStamps = handed ++ after.waitingStamps ∧
        after.popedStamps = before.popedStamps ++ handed) ∨
      after.popedStamps.Sublist before.popedStamps ∧
        ∃ new, (∀ stamp ∈ new, ∀ old ∈ before.stamps, old < stamp) ∧
          ∃ kept, kept.Sublist before.waitingStamps ∧
            after.waitingStamps = kept ++ new := by
  have unchanged : before.popedStamps.Sublist before.popedStamps ∧
      ∃ new, (∀ stamp ∈ new, ∀ old ∈ before.stamps, old < stamp) ∧
        ∃ kept, kept.Sublist before.waitingStamps ∧
          before.waitingStamps = kept ++ new :=
    ⟨List.Sublist.refl _, [], by simp, _, List.Sublist.refl _,
      (List.append_nil _).symm⟩
  have filtered (p : Item T → Bool) :
      ((before.poped.filter p).map Item.stamp).Sublist before.popedStamps ∧
        ((before.waiting.filter p).map Item.stamp).Sublist
          before.waitingStamps :=
    ⟨List.filter_sublist.map _, List.filter_sublist.map _⟩
  have newest {stamp : Nat}
      (most : ∀ other ∈ before.all, other.stamp < stamp) :
      ∀ stamp' ∈ [stamp], ∀ old ∈ before.stamps, old < stamp' := by
    intro stamp' here old used
    obtain ⟨other, member, rfl⟩ := List.mem_map.mp used
    rw [List.mem_singleton.mp here]
    exact most other member
  cases moves with
  | @pushed item unused most =>
      exact .inr ⟨List.Sublist.refl _, [item.stamp], newest most, _,
        List.Sublist.refl _, List.map_append⟩
  | @refreshed item member stamp now most =>
      exact .inr ⟨(filtered _).1, [stamp], newest most, _, (filtered _).2,
        List.map_append⟩
  | @handed item later first =>
      refine .inl ⟨[item.stamp], ?_, List.map_append⟩
      rw [Contents.waitingStamps, first]
      rfl
  | swapped q =>
      exact .inl ⟨before.waitingStamps, (List.append_nil _).symm,
        List.map_append⟩
  | expired ms =>
      exact .inr ⟨(filtered _).1, [], by simp, _, (filtered _).2,
        (List.append_nil _).symm⟩
  | taken member =>
      exact .inr ⟨(filtered _).1, [], by simp, _, (filtered _).2,
        (List.append_nil _).symm⟩
  | erased member =>
      exact .inr ⟨(filtered _).1, [], by simp, _, (filtered _).2,
        (List.append_nil _).symm⟩
  | refused member => exact .inr unchanged
  | found member => exact .inr unchanged
  | missing unused => exact .inr unchanged
  | unrefreshed unused => exact .inr unchanged
  | unknown unused => exact .inr unchanged
  | idle nothing => exact .inr unchanged

end Moves

/-- What an operation does from a queue that is in step and in the order of the
clock. -/
structure Performed (table : HashTable) (queue : TcTimeoutQueue T)
    (event : Event T) (answer : Answer T) (next : TcTimeoutQueue T) :
    Prop where
  inStep : next.InStep ↔ KeepsIterators table queue event
  timeout : next.timeout = queue.timeout
  moves : next.InStep →
    Moves queue.timeout queue.contents event answer next.contents
  /-- A push or refresh has the next number. -/
  numbered : next.InStep →
    next.created = queue.created ∧
        (∀ stamp ∈ next.contents.stamps, stamp ∈ queue.contents.stamps) ∨
      next.created = queue.created + 1 ∧
        ∃ kept, (∀ stamp ∈ kept, stamp ∈ queue.contents.stamps) ∧
          next.contents.stamps = kept ++ [queue.created]

namespace TcTimeoutQueue

variable {queue : TcTimeoutQueue T}

theorem Layout.performed {contents contents' : Contents T}
    {table : HashTable} {event : Event T} {answer : Answer T}
    {next : TcTimeoutQueue T} (layout : queue.Layout contents)
    (layout' : next.Layout contents') (timeout : next.timeout = queue.timeout)
    (moves : Moves queue.timeout contents event answer contents')
    (keeps : KeepsIterators table queue event)
    (numbered : next.created = queue.created ∧
        (∀ stamp ∈ contents'.stamps, stamp ∈ contents.stamps) ∨
      next.created = queue.created + 1 ∧
        ∃ kept, (∀ stamp ∈ kept, stamp ∈ contents.stamps) ∧
          contents'.stamps = kept ++ [queue.created]) :
    Performed table queue event answer next where
  inStep := ⟨fun _ => keeps, fun _ => layout'.inStep⟩
  timeout := timeout
  moves := fun _ => by
    rw [layout.contents_eq, layout'.contents_eq]
    exact moves
  numbered := fun _ => by
    rw [layout.contents_eq, layout'.contents_eq]
    exact numbered

end TcTimeoutQueue

/-- Without a push or refresh there are no new items. -/
theorem Moves.stamps_subset {timeout : Int} {before after : Contents T}
    {event : Event T} {answer : Answer T}
    (moves : Moves timeout before event answer after)
    (noPush : ∀ ptr uniqId now, event ≠ .push ptr uniqId now)
    (noRefresh : ∀ uniqId now, event ≠ .getAndRefresh uniqId now) :
    ∀ stamp ∈ after.stamps, stamp ∈ before.stamps := by
  have fewer {contents : Contents T}
      (sublist : contents.all.Sublist before.all) :
      ∀ stamp ∈ contents.stamps, stamp ∈ before.stamps :=
    fun stamp member => (sublist.map Item.stamp).subset member
  cases moves with
  | pushed _ _ => exact absurd rfl (noPush _ _ _)
  | refused _ => exact absurd rfl (noPush _ _ _)
  | refreshed _ _ => exact absurd rfl (noRefresh _ _)
  | unrefreshed _ => exact absurd rfl (noRefresh _ _)
  | handed first =>
      apply fewer
      rw [Contents.all, Contents.all, first, List.append_assoc]
      exact List.Sublist.refl _
  | swapped q =>
      apply fewer
      rw [Contents.all, List.append_nil]
  | expired ms =>
      apply fewer
      rw [Contents.young_all]
      exact List.filter_sublist
  | taken member =>
      apply fewer
      rw [Contents.all_without]
      exact List.filter_sublist
  | erased member =>
      apply fewer
      rw [Contents.all_without]
      exact List.filter_sublist
  | found member => exact fewer (List.Sublist.refl _)
  | missing unused => exact fewer (List.Sublist.refl _)
  | unknown unused => exact fewer (List.Sublist.refl _)
  | idle nothing => exact fewer (List.Sublist.refl _)

namespace TcTimeoutQueue

variable {queue : TcTimeoutQueue T}

/-- Every operation succeeds. -/
theorem InStep.perform_spec (inStep : queue.InStep)
    (sorted : queue.contents.Sorted) (table : HashTable) (event : Event T) :
    ∃ answer next, event.perform table queue = .ok (answer, next) ∧
      Performed table queue event answer next := by
  have layout : queue.Layout queue.contents := inStep
  cases event with
  | push ptr uniqId now =>
      cases unused : queue.data.any (·.uniqId = uniqId) with
      | true =>
          obtain ⟨info, present, same⟩ := List.any_eq_true.mp unused
          obtain ⟨item, member, rfl⟩ := layout.of_mem_data present
          have same' : item.uniqId = uniqId := of_decide_eq_true same
          subst same'
          refine ⟨.success false, queue, ?_,
            layout.performed layout rfl (.refused member) (.inl unused)
              (.inl ⟨rfl, fun _ member => member⟩)⟩
          rw [Event.perform, push, unused]
          rfl
      | false =>
          obtain ⟨buckets, result⟩ := layout.push_eq table ptr now unused
          have apart : ∀ item ∈ queue.contents.all, item.uniqId ≠ uniqId :=
            fun item member => of_decide_eq_false
              (Bool.eq_false_of_not_eq_true
                (List.any_eq_false.mp unused _ (layout.mem_data member)))
          have grows (survive : queue.Survive table) :
              (queue.grown queue.contents table buckets
                (queue.newest ptr uniqId now)).Layout
                  (queue.contents.append (queue.newest ptr uniqId now)) :=
            layout.grown survive apart
          refine ⟨.success true, queue.grown queue.contents table buckets
            (queue.newest ptr uniqId now), ?_, ?_, rfl, ?_, ?_⟩
          · rw [Event.perform, result]
          · rw [KeepsIterators, unused]
            constructor
            · exact fun inStep => .inr (layout.survive_of_inStep inStep)
            · rintro (used | survive)
              · cases used
              · exact (grows survive).inStep
          · intro inStep
            rw [(grows (layout.survive_of_inStep inStep)).contents_eq]
            exact @Moves.pushed T _ _ (queue.newest ptr uniqId now) apart
              layout.created
          · intro inStep
            rw [(grows (layout.survive_of_inStep inStep)).contents_eq]
            refine .inr ⟨rfl, queue.contents.stamps, fun _ member => member, ?_⟩
            rw [Contents.stamps, Contents.all_append, List.map_append]
            rfl
  | getAndRefresh uniqId now =>
      obtain ⟨t, next, contents', result, layout', timeout, moves, numbered⟩ :=
        layout.getAndRefresh_spec uniqId now
      refine ⟨.item t, next, by rw [Event.perform, result]; rfl,
        layout.performed layout' timeout moves trivial ?_⟩
      rcases numbered with ⟨rfl, same⟩ | ⟨more, item, member, rfl⟩
      · cases moves with
        | unrefreshed unused => exact .inl ⟨same, fun _ member => member⟩
      · refine .inr ⟨more, (queue.contents.without item).stamps, ?_, ?_⟩
        · intro stamp used
          obtain ⟨other, present, rfl⟩ := List.mem_map.mp used
          exact List.mem_map_of_mem (Contents.mem_of_without present)
        · rw [Contents.stamps, Contents.all_append, List.map_append]
          rfl
  | get uniqId bErase =>
      obtain ⟨t, next, contents', result, layout', timeout, created, moves⟩ :=
        layout.get_spec uniqId bErase
      exact ⟨.item t, next, by rw [Event.perform, result]; rfl,
        layout.performed layout' timeout moves trivial
          (.inl ⟨created, moves.stamps_subset (by simp) (by simp)⟩)⟩
  | erase uniqId =>
      obtain ⟨t, next, contents', result, layout', timeout, created, moves⟩ :=
        layout.erase_spec uniqId
      exact ⟨.item t, next, by rw [Event.perform, result]; rfl,
        layout.performed layout' timeout moves trivial
          (.inl ⟨created, moves.stamps_subset (by simp) (by simp)⟩)⟩
  | pop =>
      obtain ⟨t, next, contents', result, layout', timeout, created, moves⟩ :=
        layout.pop_spec
      exact ⟨.item t, next, by rw [Event.perform, result]; rfl,
        layout.performed layout' timeout moves trivial
          (.inl ⟨created, moves.stamps_subset (by simp) (by simp)⟩)⟩
  | swap q =>
      obtain ⟨b, q', next, contents', result, layout', timeout, created,
        moves⟩ := layout.swap_spec q
      exact ⟨.swapped b q', next, by rw [Event.perform, result]; rfl,
        layout.performed layout' timeout moves trivial
          (.inl ⟨created, moves.stamps_subset (by simp) (by simp)⟩)⟩
  | timeout ms =>
      obtain ⟨items, next, contents', result, layout', timeout, created,
        moves⟩ := layout.expire_spec sorted ms
      exact ⟨.expired items, next, by rw [Event.perform, result]; rfl,
        layout.performed layout' timeout moves trivial
          (.inl ⟨created, moves.stamps_subset (by simp) (by simp)⟩)⟩

end TcTimeoutQueue

/-- What every run keeps. -/
structure Timed.Orderly (timeout : Int) (state : Timed T) : Prop where
  inStep : state.queue.InStep
  timeout : state.queue.timeout = timeout
  sorted : state.queue.contents.Sorted
  past : ∀ item ∈ state.queue.contents.all, item.createTime ≤ state.clock

section Runs

variable {table : HashTable} {timeout : Int} {state next last : Timed T}
  {label : Label T} {labels : List (Label T)}

theorem GuardedStep.performed (step : GuardedStep table state label next)
    (orderly : state.Orderly timeout) :
    Performed table state.queue label.event label.answer next.queue := by
  obtain ⟨answer, queue, result, performed⟩ :=
    orderly.inStep.perform_spec orderly.sorted table label.event
  have same := step.2.2.2.1.symm.trans result
  cases same
  exact performed

theorem GuardedStep.inStep (step : GuardedStep table state label next)
    (orderly : state.Orderly timeout) : next.queue.InStep :=
  (step.performed orderly).inStep.mpr step.1

theorem GuardedStep.moves (step : GuardedStep table state label next)
    (orderly : state.Orderly timeout) :
    Moves timeout label.before label.event label.answer label.after := by
  rw [step.2.1, step.2.2.1, ← orderly.timeout]
  exact (step.performed orderly).moves (step.inStep orderly)

theorem GuardedStep.orderly (step : GuardedStep table state label next)
    (orderly : state.Orderly timeout) : next.Orderly timeout := by
  have moves := step.moves orderly
  rw [step.2.1, step.2.2.1] at moves
  obtain ⟨sorted, past⟩ :=
    moves.sorted orderly.sorted orderly.past step.2.2.2.2.1
  refine ⟨step.inStep orderly, ?_, sorted, ?_⟩
  · rw [(step.performed orderly).timeout, orderly.timeout]
  · rw [step.2.2.2.2.2]
    exact past

theorem Timed.Orderly.stamp_lt (orderly : state.Orderly timeout) {stamp : Nat}
    (member : stamp ∈ state.queue.contents.stamps) :
    stamp < state.queue.created := by
  obtain ⟨item, present, rfl⟩ := List.mem_map.mp member
  exact orderly.inStep.created item present

/-- A push or refresh has the next number. -/
theorem GuardedStep.entered (step : GuardedStep table state label next)
    (orderly : state.Orderly timeout) :
    label.entered = List.range' state.queue.created
        (next.queue.created - state.queue.created) ∧
      state.queue.created ≤ next.queue.created := by
  rw [Label.entered, step.2.1, step.2.2.1]
  rcases (step.performed orderly).numbered (step.inStep orderly) with
    ⟨same, old⟩ | ⟨more, kept, old, stamps⟩
  · have nothing : next.queue.contents.stamps.filter
        (· ∉ state.queue.contents.stamps) = [] := by
      apply List.filter_eq_nil_iff.mpr
      intro stamp member
      simp [old stamp member]
    rw [nothing, same, Nat.sub_self]
    exact ⟨rfl, le_refl _⟩
  · have before : kept.filter (· ∉ state.queue.contents.stamps) = [] := by
      apply List.filter_eq_nil_iff.mpr
      intro stamp member
      simp [old stamp member]
    have unused : state.queue.created ∉ state.queue.contents.stamps :=
      fun used => Nat.lt_irrefl _ (orderly.stamp_lt used)
    have new : [state.queue.created].filter
        (· ∉ state.queue.contents.stamps) = [state.queue.created] := by
      simp [unused]
    rw [stamps, List.filter_append, before, new, more,
      Nat.add_sub_cancel_left]
    exact ⟨rfl, Nat.le_succ _⟩

/-- An item that waits after the step has waited before, or is new. -/
theorem GuardedStep.waiting (step : GuardedStep table state label next)
    (orderly : state.Orderly timeout) {stamp : Nat}
    (member : stamp ∈ next.queue.contents.waitingStamps) :
    stamp ∈ state.queue.contents.waitingStamps ∨
      state.queue.created ≤ stamp := by
  have moves := step.moves orderly
  rw [step.2.1, step.2.2.1] at moves
  rcases moves.waiting with
    ⟨handed, split, _⟩ | ⟨_, new, newest, kept, sublist, split⟩
  · rw [split]
    exact .inl (List.mem_append_right _ member)
  · rw [split] at member
    rcases List.mem_append.mp member with old | here
    · exact .inl (sublist.subset old)
    · refine .inr ?_
      have listed : stamp ∈ next.queue.contents.stamps := by
        rw [Contents.stamps_eq, split]
        exact List.mem_append_right _ (List.mem_append_right _ here)
      rcases (step.performed orderly).numbered (step.inStep orderly) with
        ⟨_, old⟩ | ⟨_, kept', old, stamps⟩
      · exact absurd (newest stamp here stamp (old stamp listed))
          (Nat.lt_irrefl _)
      · rw [stamps] at listed
        rcases List.mem_append.mp listed with before | last
        · exact absurd (newest stamp here stamp (old stamp before))
            (Nat.lt_irrefl _)
        · exact le_of_eq (List.mem_singleton.mp last).symm

/-- The items are handed out from the front of those that wait. -/
theorem GuardedStep.handed (step : GuardedStep table state label next)
    (orderly : state.Orderly timeout) :
    label.handed = [] ∨
      state.queue.contents.waitingStamps =
        label.handed ++ next.queue.contents.waitingStamps := by
  have moves := step.moves orderly
  rw [step.2.1, step.2.2.1] at moves
  rw [Label.handed, step.2.1, step.2.2.1]
  have layout : state.queue.Layout state.queue.contents := orderly.inStep
  have distinct := layout.nodup_stamps
  have distinct' :=
    (show next.queue.Layout next.queue.contents from
      step.inStep orderly).nodup_stamps
  rw [Contents.stamps_eq, List.nodup_append] at distinct distinct'
  rcases moves.waiting with ⟨handed, split, poped⟩ | ⟨poped, _⟩
  · refine .inr ?_
    have taken : handed.filter (· ∈ next.queue.contents.popedStamps) =
        handed := by
      apply List.filter_eq_self.mpr
      intro stamp member
      rw [poped]
      exact decide_eq_true (List.mem_append_right _ member)
    have left : next.queue.contents.waitingStamps.filter
        (· ∈ next.queue.contents.popedStamps) = [] := by
      apply List.filter_eq_nil_iff.mpr
      intro stamp member used
      exact distinct'.2.2 stamp (of_decide_eq_true used) stamp member rfl
    rw [split, List.filter_append, taken, left, List.append_nil]
  · refine .inl ?_
    apply List.filter_eq_nil_iff.mpr
    intro stamp member used
    exact distinct.2.2 stamp (poped.subset (of_decide_eq_true used)) stamp
      member rfl

theorem runs_orderly (run : Run (GuardedStep table) state labels last)
    (orderly : state.Orderly timeout) : last.Orderly timeout :=
  @Run.preserves _ _ _ (Timed.Orderly timeout)
    (fun orderly step => GuardedStep.orderly step orderly) _ _ _ run orderly

/-- The pushes and refreshes are numbered in the order in which they
happened. -/
theorem runs_entered (run : Run (GuardedStep table) state labels last)
    (orderly : state.Orderly timeout) :
    labels.flatMap Label.entered = List.range' state.queue.created
        (last.queue.created - state.queue.created) ∧
      state.queue.created ≤ last.queue.created := by
  induction run with
  | nil state => simp
  | @cons state label middle labels last step run ih =>
      obtain ⟨first, before⟩ := step.entered orderly
      obtain ⟨later, behind⟩ := ih (step.orderly orderly)
      refine ⟨?_, before.trans behind⟩
      rw [List.flatMap_cons, first, later]
      obtain ⟨grown, grows⟩ := Nat.exists_eq_add_of_le before
      have here : middle.queue.created - state.queue.created = grown := by
        omega
      have whole : last.queue.created - state.queue.created =
          grown + (last.queue.created - middle.queue.created) := by
        omega
      rw [here, whole, ← List.range'_append_1, ← grows]

/-- Items are handed out in the order of their last push or refresh. -/
theorem runs_handed (run : Run (GuardedStep table) state labels last)
    (orderly : state.Orderly timeout) :
    (labels.flatMap Label.handed).Pairwise (· < ·) ∧
      ∀ stamp ∈ labels.flatMap Label.handed,
        stamp ∈ state.queue.contents.waitingStamps ∨
          state.queue.created ≤ stamp := by
  induction run with
  | nil state => simp
  | @cons state label middle labels last step run ih =>
      obtain ⟨ordered, known⟩ := ih (step.orderly orderly)
      have before := (step.entered orderly).2
      have later : ∀ stamp ∈ labels.flatMap Label.handed,
          stamp ∈ state.queue.contents.waitingStamps ∨
            state.queue.created ≤ stamp := by
        intro stamp member
        rcases known stamp member with waiting | new
        · exact step.waiting orderly waiting
        · exact .inr (before.trans new)
      rw [List.flatMap_cons]
      rcases step.handed orderly with nothing | split
      · rw [nothing, List.nil_append]
        exact ⟨ordered, later⟩
      · have stamps := orderly.inStep.stamps
        rw [Contents.stamps_eq] at stamps
        have increasing := (List.pairwise_append.mp stamps).2.1
        rw [split, List.pairwise_append] at increasing
        obtain ⟨front, _, apart⟩ := increasing
        have waiting : ∀ stamp ∈ label.handed,
            stamp ∈ state.queue.contents.waitingStamps := by
          intro stamp member
          rw [split]
          exact List.mem_append_left _ member
        constructor
        · refine List.pairwise_append.mpr ⟨front, ordered, ?_⟩
          intro stamp member stamp' behind
          rcases known stamp' behind with here | new
          · exact apart stamp member stamp' here
          · have listed : stamp ∈ state.queue.contents.stamps := by
              rw [Contents.stamps_eq]
              exact List.mem_append_right _ (waiting stamp member)
            exact lt_of_lt_of_le (orderly.stamp_lt listed) (before.trans new)
        · intro stamp member
          rcases List.mem_append.mp member with here | behind
          · exact .inl (waiting stamp here)
          · exact later stamp behind

end Runs

/-- `_time` is in the order of the clock, what has been handed out stands in
front, and the cursor is at the first other node, or at the end. -/
structure TcTimeoutQueue.InOrder (queue : TcTimeoutQueue T) : Prop where
  createTime : queue.time.Pairwise fun it later =>
    it.createTime ≤ later.createTime
  hasPoped : queue.time.Pairwise fun it later =>
    later.hasPoped = true → it.hasPoped = true
  cursor : queue.firstNoPopIter =
    (queue.time.find? (!·.hasPoped)).map NodeInfo.node

theorem TcTimeoutQueue.Layout.inOrder {queue : TcTimeoutQueue T}
    {contents : Contents T} (layout : queue.Layout contents)
    (sorted : contents.Sorted) : queue.InOrder where
  createTime := by
    have times : queue.time.map NodeInfo.createTime =
        contents.all.map Item.createTime := by
      rw [layout.time, Contents.time, List.map_append, List.map_map,
        List.map_map, Contents.all, List.map_append]
      rfl
    rw [Contents.Sorted, ← times] at sorted
    exact List.pairwise_map.mp sorted
  hasPoped := by
    rw [layout.time, Contents.time, List.pairwise_append]
    refine ⟨?_, ?_, ?_⟩
    · exact List.pairwise_map.mpr (List.pairwise_of_forall fun _ _ _ => rfl)
    · refine List.pairwise_map.mpr (List.pairwise_of_forall fun _ _ poped => ?_)
      cases poped
    · intro it front later _ _
      obtain ⟨item, _, rfl⟩ := List.mem_map.mp front
      rfl
  cursor := by
    have poped : (contents.poped.map
        (Item.nodeInfo queue.rehashes true)).find? (!·.hasPoped) = none := by
      apply List.find?_eq_none.mpr
      intro it front
      obtain ⟨item, _, rfl⟩ := List.mem_map.mp front
      exact Bool.false_ne_true
    rw [layout.cursor, layout.time, Contents.time, List.find?_append, poped,
      Option.none_or, Contents.first]
    cases contents.waiting <;> rfl

/-- In every run in which no stored iterator is lost to a rehash `_time` stays
in order, the operations do what they should and do not fail, and items are
handed out in the order of their last push or refresh, once for each. -/
theorem runs_in_order {table : HashTable} {timeout clock : Int}
    {labels : List (Label T)} {state : Timed T}
    (run : Run (GuardedStep table) ⟨.new table timeout, clock⟩ labels state) :
    state.queue.InStep ∧ state.queue.InOrder ∧
      (∀ label ∈ labels,
        Moves timeout label.before label.event label.answer label.after) ∧
      labels.flatMap Label.entered = List.range state.queue.created ∧
      (labels.flatMap Label.handed).Pairwise (· < ·) ∧
      ∀ event, ∃ answer next,
        event.perform table state.queue = .ok (answer, next) ∧
        (next.InStep ↔ KeepsIterators table state.queue event) := by
  have initially : Timed.Orderly timeout
      (⟨.new table timeout, clock⟩ : Timed T) := by
    have layout := TcTimeoutQueue.layout_new (T := T) table timeout
    refine ⟨layout.inStep, rfl, ?_, ?_⟩
    · rw [layout.contents_eq]
      exact List.Pairwise.nil
    · rw [layout.contents_eq]
      intro item member
      cases member
  have orderly := runs_orderly run initially
  have layout : state.queue.Layout state.queue.contents := orderly.inStep
  refine ⟨orderly.inStep, layout.inOrder orderly.sorted, ?_, ?_,
    (runs_handed run initially).1, ?_⟩
  · exact @Run.labels _ _ _ (Timed.Orderly timeout)
      (fun label : Label T =>
        Moves timeout label.before label.event label.answer label.after)
      (fun orderly step => GuardedStep.orderly step orderly)
      (fun orderly step => GuardedStep.moves step orderly)
      _ _ _ run initially
  · have entered := (runs_entered run initially).1
    rw [List.range_eq_range']
    exact entered
  · intro event
    obtain ⟨answer, next, result, performed⟩ :=
      orderly.inStep.perform_spec orderly.sorted table event
    exact ⟨answer, next, result, performed.inStep⟩

theorem guardedStep_of_perform {table : HashTable}
    {queue next : TcTimeoutQueue T} {event : Event T} {answer : Answer T}
    (clock : Int) (result : event.perform table queue = .ok (answer, next))
    (keeps : KeepsIterators table queue event)
    (forward : ∀ now ∈ event.now, clock ≤ now) :
    GuardedStep table ⟨queue, clock⟩
      ⟨queue.contents, event, answer, next.contents⟩
      ⟨next, event.now.getD clock⟩ :=
  ⟨keeps, rfl, rfl, result, forward, rfl⟩

namespace Sample

open TimeoutQueue.Sample (table)

def one : TcTimeoutQueue Nat :=
  ((TcTimeoutQueue.new table 5000).push table 10 1 0).2

def two : TcTimeoutQueue Nat := (one.push table 20 2 1000).2

def three : TcTimeoutQueue Nat := (two.push table 30 3 2000).2

def poped : TcTimeoutQueue Nat where
  data := [⟨0, 1, 10, some 0⟩, ⟨1, 2, 20, some 1⟩]
  time := [⟨0, true, 0, ⟨0, 0⟩⟩, ⟨1, false, 1000, ⟨1, 0⟩⟩]
  firstNoPopIter := some 1
  buckets := 2
  pushed := 2
  created := 2

/-- The item that has been handed out waits again. -/
def refreshed : TcTimeoutQueue Nat where
  data := [⟨0, 1, 10, some 2⟩, ⟨1, 2, 20, some 1⟩]
  time := [⟨1, false, 1000, ⟨1, 0⟩⟩, ⟨2, false, 4000, ⟨0, 0⟩⟩]
  firstNoPopIter := some 1
  buckets := 2
  pushed := 2
  created := 3

end Sample

theorem runs_in_order_refreshed : Sample.refreshed.InOrder := by
  have first := guardedStep_of_perform 0
    (show (Event.push 10 1 0).perform TimeoutQueue.Sample.table (.new _ 5000) =
      .ok (.success true, Sample.one) from rfl)
    (.inr (.inl rfl)) (by simp [Event.now])
  have second := guardedStep_of_perform 0
    (show (Event.push 20 2 1000).perform TimeoutQueue.Sample.table Sample.one =
      .ok (.success true, Sample.two) from rfl)
    (.inr (.inr (.inl rfl))) (by simp [Event.now])
  have third := guardedStep_of_perform 1000
    (show (Event.pop).perform TimeoutQueue.Sample.table Sample.two =
      .ok (.item (some 10), Sample.poped) from rfl)
    trivial (by simp [Event.now])
  have fourth := guardedStep_of_perform 1000
    (show (Event.getAndRefresh 1 4000).perform TimeoutQueue.Sample.table
      Sample.poped = .ok (.item (some 10), Sample.refreshed) from rfl)
    trivial (by simp [Event.now])
  exact (runs_in_order
    (.cons first (.cons second (.cons third (.cons fourth (.nil _)))))).2.1

/-- The third push makes a table for two elements rehash; what `_time` has
stored before leads nowhere. -/
theorem pop_after_rehash :
    ¬ Sample.three.InStep ∧
      Event.pop.perform TimeoutQueue.Sample.table Sample.three =
        .error .invalidAccess := by
  refine ⟨?_, rfl⟩
  intro inStep
  have listed : ⟨0, false, 0, ⟨0, 0⟩⟩ ∈ Sample.three.time :=
    List.mem_cons_self
  rw [inStep.time] at listed
  obtain ⟨item, _, hasPoped, same⟩ := Contents.mem_time listed
  have rehashes := congrArg (fun it => it.dataIter.rehashes) same
  cases rehashes

end TarsCpp.RefreshQueue
