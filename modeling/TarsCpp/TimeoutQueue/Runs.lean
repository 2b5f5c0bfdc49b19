import TarsCpp.TransitionRun
import TarsCpp.TimeoutQueue.Pushes

/-!
# Runs of the timeout queue

Any sequence of operations, with any clock.
-/

namespace TarsCpp.TimeoutQueue

open NetworkBuffer TransitionRun

variable {T : Type}

/-- An operation with its answer, and the entries before and after it. -/
structure Label (T : Type) where
  before : List (Entry T)
  event : Event T
  answer : Answer T
  after : List (Entry T)

def nodesOf (entries : List (Entry T)) : List Nat :=
  entries.map Entry.node

def unsentOf (entries : List (Entry T)) : List Nat :=
  nodesOf (entries.filter (!·.hasSend))

namespace Label

/-- The entries that the operation has put into the queue. -/
def entered (label : Label T) : List (Entry T) :=
  label.after.filter (·.node ∉ nodesOf label.before)

/-- The entries that have left it. -/
def left (label : Label T) : List (Entry T) :=
  label.before.filter (·.node ∉ nodesOf label.after)

/-- The entries that `popSend` has taken from the unsentOf ones. -/
def popped (label : Label T) : List Nat :=
  match label.event with
  | .popSend _ => (unsentOf label.before).filter (· ∉ unsentOf label.after)
  | _ => []

end Label

/-- The push that an entry comes from, and what was pushed. -/
def Entry.item (entry : Entry T) : Nat × UInt32 × T :=
  (entry.node, entry.uniqId, entry.ptr)

def Step (table : HashTable) (queue : TcTimeoutQueueNew T) (label : Label T)
    (next : TcTimeoutQueueNew T) : Prop :=
  label.before = queue.contents ∧ label.after = next.contents ∧
    label.event.perform table queue = .ok (label.answer, next)

/-- A push of a new id does not take the stored iterators away. -/
def KeepsIterators (table : HashTable) (queue : TcTimeoutQueueNew T) :
    Event T → Prop
  | .push _ uniqId _ _ =>
      queue.data.any (·.uniqId = uniqId) = true ∨ queue.Survive table
  | _ => True

section Moves

variable {before after : List (Entry T)} {event : Event T} {answer : Answer T}

/-- An entry stays what it is. -/
theorem Moves.item_eq (moves : Moves before event answer after)
    {entry other : Entry T}
    (distinct : (nodesOf before).Nodup) (member : entry ∈ before)
    (otherMember : other ∈ after) (same : other.node = entry.node) :
    other.item = entry.item := by
  have kept : ∀ other ∈ before, other.node = entry.node →
      other.item = entry.item := by
    intro other present same
    rw [List.inj_on_of_nodup_map distinct present member same]
  cases moves with
  | pushed unused newest =>
      rcases List.mem_append.mp otherMember with old | new
      · exact kept other old same
      · rw [List.mem_singleton.mp new] at same
        have less := newest entry member
        omega
  | sent oldest =>
      obtain ⟨first, present, rfl⟩ := List.mem_map.mp otherMember
      split at same
      · next here =>
          rw [if_pos here]
          exact kept first present same
      · next there =>
          rw [if_neg there]
          exact kept first present same
  | refused _ => exact kept other otherMember same
  | found _ => exact kept other otherMember same
  | missing _ => exact kept other otherMember same
  | unknown _ => exact kept other otherMember same
  | handed _ => exact kept other otherMember same
  | idle _ => exact kept other otherMember same
  | pending _ => exact kept other otherMember same
  | taken _ => exact kept other (List.mem_of_mem_filter otherMember) same
  | erased _ => exact kept other (List.mem_of_mem_filter otherMember) same
  | dropped _ => exact kept other (List.mem_of_mem_filter otherMember) same
  | expired _ => exact kept other (List.mem_of_mem_filter otherMember) same

theorem unsent_without (entries : List (Entry T)) (entry : Entry T) :
    unsentOf (without entries entry) =
      (unsentOf entries).filter (· ≠ entry.node) := by
  rw [unsentOf, nodesOf, unsentOf, nodesOf, without, List.filter_map,
    List.filter_filter, List.filter_filter]
  congr 2
  funext other
  exact Bool.and_comm _ _

theorem unsent_marked (entries : List (Entry T)) (entry : Entry T) :
    unsentOf (marked entries entry) =
      (unsentOf entries).filter (· ≠ entry.node) := by
  rw [unsentOf, nodesOf, unsentOf, nodesOf, marked]
  induction entries with
  | nil => rfl
  | cons other entries ih =>
      rw [List.map_cons, List.filter_cons]
      by_cases here : other.node = entry.node
      · cases sent : other.hasSend <;> simp [here, sent, ih]
      · cases sent : other.hasSend <;> simp [here, sent, ih]

/-- `popSend` takes the oldest of the unsentOf entries. -/
theorem Moves.popSend {del : Bool}
    (moves : Moves before (.popSend del) answer after) :
    ∃ entry, Oldest before entry ∧
      unsentOf after = (unsentOf before).filter (· ≠ entry.node) := by
  cases moves with
  | sent oldest => exact ⟨_, oldest, unsent_marked _ _⟩
  | dropped oldest => exact ⟨_, oldest, unsent_without _ _⟩

/-- No entry becomes unsentOf again. -/
theorem Moves.unsent_subset (moves : Moves before event answer after)
    {node : Nat} (member : node ∈ unsentOf after) (old : node ∈ nodesOf before) :
    node ∈ unsentOf before := by
  cases moves with
  | pushed unused newest =>
      rw [unsentOf, List.filter_append, nodesOf, List.map_append] at member
      rcases List.mem_append.mp member with present | new
      · exact present
      · obtain ⟨entry, among, rfl⟩ := List.mem_map.mp new
        obtain ⟨other, present, same⟩ := List.mem_map.mp old
        rw [List.mem_singleton.mp (List.mem_of_mem_filter among)] at same
        have less := newest other present
        omega
  | sent oldest =>
      rw [unsent_marked] at member
      exact List.mem_of_mem_filter member
  | taken _ =>
      rw [unsent_without] at member
      exact List.mem_of_mem_filter member
  | erased _ =>
      rw [unsent_without] at member
      exact List.mem_of_mem_filter member
  | dropped _ =>
      rw [unsent_without] at member
      exact List.mem_of_mem_filter member
  | expired _ =>
      rw [unsent_without] at member
      exact List.mem_of_mem_filter member
  | refused _ => exact member
  | found _ => exact member
  | missing _ => exact member
  | unknown _ => exact member
  | handed _ => exact member
  | idle _ => exact member
  | pending _ => exact member

end Moves

/-- What an operation does from a queue whose containers are in step. -/
structure Performed (table : HashTable) (queue : TcTimeoutQueueNew T)
    (event : Event T) (answer : Answer T) (next : TcTimeoutQueueNew T) :
    Prop where
  moves : Moves queue.contents event answer next.contents
  inStep : next.InStep ↔ KeepsIterators table queue event
  /-- The nodesOf are numbered by the pushes. -/
  numbered : next.pushed = queue.pushed ∧
      (∀ entry ∈ next.contents, entry.node ∈ nodesOf queue.contents) ∨
    next.pushed = queue.pushed + 1 ∧
      ∃ entry, entry.node = queue.pushed ∧
        next.contents = queue.contents ++ [entry]

theorem Moves.nodes_subset {before after : List (Entry T)} {event : Event T}
    {answer : Answer T} (moves : Moves before event answer after)
    (noPush : ∀ ptr uniqId timeout hasSend,
      event ≠ .push ptr uniqId timeout hasSend) :
    ∀ entry ∈ after, entry.node ∈ nodesOf before := by
  intro entry member
  cases moves with
  | pushed _ _ => exact absurd rfl (noPush _ _ _ _)
  | sent oldest =>
      obtain ⟨first, present, rfl⟩ := List.mem_map.mp member
      refine List.mem_map.mpr ⟨first, present, ?_⟩
      split <;> rfl
  | taken _ => exact List.mem_map_of_mem (List.mem_of_mem_filter member)
  | erased _ => exact List.mem_map_of_mem (List.mem_of_mem_filter member)
  | dropped _ => exact List.mem_map_of_mem (List.mem_of_mem_filter member)
  | expired _ => exact List.mem_map_of_mem (List.mem_of_mem_filter member)
  | refused _ => exact List.mem_map_of_mem member
  | found _ => exact List.mem_map_of_mem member
  | missing _ => exact List.mem_map_of_mem member
  | unknown _ => exact List.mem_map_of_mem member
  | handed _ => exact List.mem_map_of_mem member
  | idle _ => exact List.mem_map_of_mem member
  | pending _ => exact List.mem_map_of_mem member

namespace TcTimeoutQueueNew

variable {queue : TcTimeoutQueueNew T}

theorem InStep.performed_of_spec {table : HashTable} {event : Event T}
    {answer : Answer T} {next : TcTimeoutQueueNew T} (inStep : next.InStep)
    (pushed : next.pushed = queue.pushed)
    (moves : Moves queue.contents event answer next.contents)
    (noPush : ∀ ptr uniqId timeout hasSend,
      event ≠ .push ptr uniqId timeout hasSend)
    (keeps : KeepsIterators table queue event) :
    Performed table queue event answer next where
  moves := moves
  inStep := ⟨fun _ => keeps, fun _ => inStep⟩
  numbered := .inl ⟨pushed, moves.nodes_subset noPush⟩

/-- Every operation succeeds, unless `popSend` finds nothing to pop. -/
theorem InStep.perform_spec (inStep : queue.InStep) (table : HashTable)
    (event : Event T)
    (something : ∀ del, event = .popSend del → queue.send ≠ []) :
    ∃ answer next, event.perform table queue = .ok (answer, next) ∧
      Performed table queue event answer next := by
  cases event with
  | push ptr uniqId timeout hasSend =>
      refine ⟨.success (queue.push table ptr uniqId timeout hasSend).1,
        (queue.push table ptr uniqId timeout hasSend).2, rfl,
        inStep.push_spec table ptr uniqId timeout hasSend, ?_, ?_⟩
      · cases unused : queue.data.any (·.uniqId = uniqId) with
        | true =>
            rw [push, unused, if_pos rfl]
            exact ⟨fun _ => .inl unused, fun _ => inStep⟩
        | false =>
            rw [inStep.push_inStep_iff unused, KeepsIterators, unused]
            simp
      · cases unused : queue.data.any (·.uniqId = uniqId) with
        | true =>
            rw [push, unused, if_pos rfl]
            exact .inl ⟨rfl, fun _ member => List.mem_map_of_mem member⟩
        | false =>
            refine .inr ⟨?_, _, ?_, inStep.contents_push unused⟩
            · obtain ⟨_, result⟩ :=
                push_fresh inStep table ptr timeout hasSend unused
              rw [result]
            · rfl
  | get uniqId bErase =>
      obtain ⟨t, next, result, inStep', pushed, moves⟩ :=
        inStep.get_spec uniqId bErase
      refine ⟨.item t, next, ?_, inStep'.performed_of_spec pushed moves
        (by simp) trivial⟩
      rw [Event.perform, result]
      rfl
  | erase uniqId =>
      obtain ⟨t, next, result, inStep', pushed, moves⟩ :=
        inStep.erase_spec uniqId
      refine ⟨.item t, next, ?_, inStep'.performed_of_spec pushed moves
        (by simp) trivial⟩
      rw [Event.perform, result]
      rfl
  | getSend =>
      obtain ⟨t, result, moves⟩ := inStep.getSend_spec
      refine ⟨.item t, queue, ?_, inStep.performed_of_spec rfl moves
        (by simp) trivial⟩
      rw [Event.perform, result]
      rfl
  | popSend del =>
      cases last : queue.send.getLast? with
      | none =>
          exact absurd (List.getLast?_eq_none_iff.mp last) (something del rfl)
      | some it =>
          obtain ⟨next, result, inStep', pushed, moves⟩ :=
            inStep.popSend_spec last del
          refine ⟨.done, next, ?_, inStep'.performed_of_spec pushed moves
            (by simp) trivial⟩
          rw [Event.perform, result]
          rfl
  | timeout iNow =>
      obtain ⟨t, next, result, inStep', pushed, moves⟩ :=
        inStep.timeout_spec iNow
      refine ⟨.item t, next, ?_, inStep'.performed_of_spec pushed moves
        (by simp) trivial⟩
      rw [Event.perform, result]
      rfl

/-- The only failure is the assertion of `popSend`. -/
theorem InStep.of_perform (inStep : queue.InStep) {table : HashTable}
    {event : Event T} {answer : Answer T} {next : TcTimeoutQueueNew T}
    (result : event.perform table queue = .ok (answer, next)) :
    Performed table queue event answer next := by
  have something : ∀ del, event = .popSend del → queue.send ≠ [] := by
    intro del same nothing
    subst same
    rw [Event.perform, popSend, nothing] at result
    cases result
  obtain ⟨answer', next', result', performed⟩ :=
    inStep.perform_spec table event something
  rw [result] at result'
  cases result'
  exact performed

end TcTimeoutQueueNew

/-- The nodesOf of entries that are in step. -/
theorem nodup_contents {queue : TcTimeoutQueueNew T}
    (inStep : queue.InStep) :
    (nodesOf queue.contents).Nodup := by
  rw [nodesOf, TcTimeoutQueueNew.contents, List.map_map]
  exact inStep.nodup_data

theorem contents_lt {queue : TcTimeoutQueueNew T} (inStep : queue.InStep)
    {node : Nat}
    (member : node ∈ nodesOf queue.contents) : node < queue.pushed := by
  rw [nodesOf, TcTimeoutQueueNew.contents, List.map_map] at member
  obtain ⟨info, present, rfl⟩ := List.mem_map.mp member
  exact inStep.pushed info present

/-- What was there and what came in is what has left and what is there. -/
theorem balance {before after : List (Entry T)}
    (distinct : (nodesOf before).Nodup) (distinct' : (nodesOf after).Nodup)
    (same : ∀ entry ∈ before, ∀ other ∈ after, other.node = entry.node →
      other.item = entry.item) :
    ((before ++ after.filter (·.node ∉ nodesOf before)).map Entry.item).Perm
      ((before.filter (·.node ∉ nodesOf after) ++ after).map Entry.item) := by
  have nodup : ∀ {entries : List (Entry T)}, (nodesOf entries).Nodup →
      (entries.map Entry.item).Nodup := by
    intro entries nodes
    refine List.Nodup.of_map Prod.fst ?_
    rw [List.map_map]
    exact nodes
  have stay : ((before.filter (·.node ∈ nodesOf after)).map Entry.item).Perm
      ((after.filter (·.node ∈ nodesOf before)).map Entry.item) := by
    refine (List.perm_ext_iff_of_nodup
      ((nodup distinct).sublist (List.filter_sublist.map _))
      ((nodup distinct').sublist (List.filter_sublist.map _))).mpr ?_
    intro item
    constructor
    · intro member
      obtain ⟨entry, filtered, rfl⟩ := List.mem_map.mp member
      obtain ⟨present, listed⟩ := List.mem_filter.mp filtered
      obtain ⟨other, present', node⟩ := List.mem_map.mp (of_decide_eq_true listed)
      refine List.mem_map.mpr ⟨other, List.mem_filter.mpr ⟨present', ?_⟩,
        same entry present other present' node⟩
      rw [node]
      exact decide_eq_true (List.mem_map_of_mem present)
    · intro member
      obtain ⟨other, filtered, rfl⟩ := List.mem_map.mp member
      obtain ⟨present', listed⟩ := List.mem_filter.mp filtered
      obtain ⟨entry, present, node⟩ := List.mem_map.mp (of_decide_eq_true listed)
      refine List.mem_map.mpr ⟨entry, List.mem_filter.mpr ⟨present, ?_⟩,
        (same entry present other present' node.symm).symm⟩
      rw [node]
      exact decide_eq_true (List.mem_map_of_mem present')
  have parts (entries others : List (Entry T)) :
      (entries.filter (·.node ∉ nodesOf others) ++
        entries.filter (·.node ∈ nodesOf others)).Perm entries := by
    have split := List.filter_append_perm (·.node ∉ nodesOf others) entries
    simpa only [decide_not, Bool.not_not] using split
  calc ((before ++ after.filter (·.node ∉ nodesOf before)).map Entry.item).Perm
        (((before.filter (·.node ∉ nodesOf after) ++
          before.filter (·.node ∈ nodesOf after)) ++
          after.filter (·.node ∉ nodesOf before)).map Entry.item) :=
        ((parts before after).symm.append_right _).map _
    List.Perm _ ((before.filter (·.node ∉ nodesOf after)).map Entry.item ++
        ((after.filter (·.node ∈ nodesOf before)).map Entry.item ++
          (after.filter (·.node ∉ nodesOf before)).map Entry.item)) := by
        rw [List.append_assoc, List.map_append, List.map_append]
        exact (stay.append_right _).append_left _
    List.Perm _ ((before.filter (·.node ∉ nodesOf after) ++ after).map
        Entry.item) := by
        rw [List.map_append, ← List.map_append]
        exact ((List.perm_append_comm.trans (parts after before)).map
          _).append_left _

def GuardedStep (table : HashTable) : TcTimeoutQueueNew T → Label T →
    TcTimeoutQueueNew T → Prop :=
  Guarded (fun queue label => KeepsIterators table queue label.event)
    (Step table)

section Runs

variable {table : HashTable} {queue next last : TcTimeoutQueueNew T}
  {label : Label T} {labels : List (Label T)}

theorem GuardedStep.performed (step : GuardedStep table queue label next)
    (inStep : queue.InStep) :
    Performed table queue label.event label.answer next :=
  inStep.of_perform step.2.2.2

theorem GuardedStep.inStep (step : GuardedStep table queue label next)
    (inStep : queue.InStep) : next.InStep :=
  (step.performed inStep).inStep.mpr step.1

theorem GuardedStep.balance (step : GuardedStep table queue label next)
    (inStep : queue.InStep) :
    ((queue.contents ++ label.entered).map Entry.item).Perm
      ((label.left ++ next.contents).map Entry.item) := by
  have moves := (step.performed inStep).moves
  rw [Label.entered, Label.left, step.2.1, step.2.2.1]
  exact TimeoutQueue.balance (nodup_contents inStep)
    (nodup_contents (step.inStep inStep))
    fun entry member other otherMember same =>
      moves.item_eq (nodup_contents inStep) member otherMember same

/-- What comes in has the next number. -/
theorem GuardedStep.entered (step : GuardedStep table queue label next)
    (inStep : queue.InStep) :
    nodesOf label.entered =
      List.range' queue.pushed (next.pushed - queue.pushed) ∧
      queue.pushed ≤ next.pushed := by
  rw [Label.entered, step.2.1, step.2.2.1]
  rcases (step.performed inStep).numbered with
    ⟨pushed, old⟩ | ⟨pushed, entry, number, contents⟩
  · have nothing : next.contents.filter
        (·.node ∉ nodesOf queue.contents) = [] := by
      apply List.filter_eq_nil_iff.mpr
      intro entry member
      simp [old entry member]
    rw [nothing, pushed]
    simp [nodesOf]
  · have unused : entry.node ∉ nodesOf queue.contents := by
      intro used
      have less := contents_lt inStep used
      omega
    have old : queue.contents.filter
        (·.node ∉ nodesOf queue.contents) = [] := by
      apply List.filter_eq_nil_iff.mpr
      intro entry member
      simp [nodesOf, List.mem_map_of_mem member]
    have new : [entry].filter (·.node ∉ nodesOf queue.contents) = [entry] := by
      simp [unused]
    rw [contents, List.filter_append, old, new, pushed]
    simp [nodesOf, number]

theorem GuardedStep.unsent (step : GuardedStep table queue label next)
    (inStep : queue.InStep) {node : Nat}
    (member : node ∈ unsentOf next.contents) :
    node ∈ unsentOf queue.contents ∨ queue.pushed ≤ node := by
  have performed := step.performed inStep
  obtain ⟨entry, among, rfl⟩ := List.mem_map.mp member
  have present := List.mem_of_mem_filter among
  by_cases old : entry.node ∈ nodesOf queue.contents
  · exact .inl (performed.moves.unsent_subset member old)
  · rcases performed.numbered with ⟨_, all⟩ | ⟨_, new, number, contents⟩
    · exact absurd (all entry present) old
    · rw [contents] at present
      rcases List.mem_append.mp present with before | here
      · exact absurd (List.mem_map_of_mem before) old
      · rw [List.mem_singleton.mp here, number]
        exact .inr (le_refl _)

theorem filter_not_mem_filter {numbers : List Nat} (distinct : numbers.Nodup)
    {number : Nat} (member : number ∈ numbers) :
    numbers.filter (· ∉ numbers.filter (· ≠ number)) = [number] := by
  have only : numbers.filter (· ∉ numbers.filter (· ≠ number)) =
      numbers.filter (· == number) := by
    apply List.filter_congr
    intro other present
    by_cases same : other = number <;> simp [same, present]
  rw [only, List.filter_beq, List.count_eq_one_of_mem distinct member]
  rfl

/-- The unsent entries leave in the order of their pushes. -/
theorem GuardedStep.popped (step : GuardedStep table queue label next)
    (inStep : queue.InStep) :
    label.popped = [] ∨ ∃ node ∈ unsentOf queue.contents,
      label.popped = [node] ∧ node < queue.pushed ∧
      ∀ later ∈ unsentOf next.contents, node < later := by
  have moves := (step.performed inStep).moves
  rw [Label.popped, step.2.1, step.2.2.1]
  cases event : label.event with
  | push _ _ _ _ => exact .inl rfl
  | get _ _ => exact .inl rfl
  | erase _ => exact .inl rfl
  | getSend => exact .inl rfl
  | timeout _ => exact .inl rfl
  | popSend del =>
      rw [event] at moves
      obtain ⟨entry, oldest, rest⟩ := moves.popSend
      have waiting : entry.node ∈ unsentOf queue.contents :=
        List.mem_map_of_mem (List.mem_filter.mpr
          ⟨oldest.member, by rw [oldest.unsent]; rfl⟩)
      have distinct : (unsentOf queue.contents).Nodup :=
        (nodup_contents inStep).sublist (List.filter_sublist.map _)
      refine .inr ⟨entry.node, waiting, ?_,
        contents_lt inStep (List.mem_map_of_mem oldest.member), ?_⟩
      · rw [rest]
        exact filter_not_mem_filter distinct waiting
      · intro later member
        rw [rest] at member
        obtain ⟨present, different⟩ := List.mem_filter.mp member
        obtain ⟨other, among, rfl⟩ := List.mem_map.mp present
        obtain ⟨listed, unsent⟩ := List.mem_filter.mp among
        exact lt_of_le_of_ne
          (oldest.oldest other listed (by simpa using unsent))
          (Ne.symm (of_decide_eq_true different))

theorem runs_inStep
    (run : Run (GuardedStep table) queue labels last)
    (inStep : queue.InStep) : last.InStep :=
  @Run.preserves _ _ _ TcTimeoutQueueNew.InStep
    (fun inStep step => GuardedStep.inStep step inStep) _ _ _ run inStep

/-- The pushes are numbered in the order in which they happened. -/
theorem runs_entered (run : Run (GuardedStep table) queue labels last)
    (inStep : queue.InStep) :
    nodesOf (labels.flatMap Label.entered) =
        List.range' queue.pushed (last.pushed - queue.pushed) ∧
      queue.pushed ≤ last.pushed := by
  induction run with
  | nil queue => simp [nodesOf]
  | @cons queue label middle labels last step run ih =>
      obtain ⟨first, before⟩ := step.entered inStep
      obtain ⟨later, behind⟩ := ih (step.inStep inStep)
      refine ⟨?_, before.trans behind⟩
      rw [List.flatMap_cons, nodesOf, List.map_append, ← nodesOf, ← nodesOf,
        first, later]
      obtain ⟨grown, grows⟩ := Nat.exists_eq_add_of_le before
      have here : middle.pushed - queue.pushed = grown := by omega
      have whole : last.pushed - queue.pushed =
          grown + (last.pushed - middle.pushed) := by
        omega
      rw [here, whole, ← List.range'_append_1, ← grows]

/-- What has come in has left, or is still there. -/
theorem runs_balance (run : Run (GuardedStep table) queue labels last)
    (inStep : queue.InStep) :
    ((queue.contents ++ labels.flatMap Label.entered).map Entry.item).Perm
      ((labels.flatMap Label.left ++ last.contents).map Entry.item) := by
  induction run with
  | nil queue => simp
  | cons step run ih =>
      have first := step.balance inStep
      have later := ih (step.inStep inStep)
      rw [List.flatMap_cons, List.flatMap_cons]
      simp only [List.map_append, List.append_assoc] at first later ⊢
      rw [← List.append_assoc]
      refine (first.append_right _).trans ?_
      rw [List.append_assoc]
      exact later.append_left _

theorem runs_popped (run : Run (GuardedStep table) queue labels last)
    (inStep : queue.InStep) :
    (labels.flatMap Label.popped).Pairwise (· < ·) ∧
      ∀ node ∈ labels.flatMap Label.popped,
        node ∈ unsentOf queue.contents ∨ queue.pushed ≤ node := by
  induction run with
  | nil queue => simp
  | cons step run ih =>
      obtain ⟨ordered, known⟩ := ih (step.inStep inStep)
      rw [List.flatMap_cons]
      have before := (step.entered inStep).2
      rcases step.popped inStep with nothing | ⟨node, waiting, only, old, least⟩
      · rw [nothing, List.nil_append]
        refine ⟨ordered, ?_⟩
        intro node member
        rcases known node member with later | new
        · exact step.unsent inStep later
        · exact .inr (before.trans new)
      · rw [only, List.singleton_append]
        refine ⟨List.pairwise_cons.mpr ⟨?_, ordered⟩, ?_⟩
        · intro later member
          rcases known later member with present | new
          · exact least later present
          · omega
        · intro other member
          rcases List.mem_cons.mp member with rfl | member
          · exact .inl waiting
          · rcases known other member with later | new
            · exact step.unsent inStep later
            · exact .inr (before.trans new)

end Runs

/-- In every run in which no stored iterator is lost to a rehash the containers
stay in step, the operations do what they should, each entry that was pushed
has left once or is still there, and `popSend` takes them in order. -/
theorem runs_stay_inStep {table : HashTable} {size : Nat}
    {labels : List (Label T)} {queue : TcTimeoutQueueNew T}
    (run : Run (GuardedStep table) (.new table size) labels queue) :
    queue.InStep ∧
      (∀ label ∈ labels,
        Moves label.before label.event label.answer label.after) ∧
      nodesOf (labels.flatMap Label.entered) = List.range queue.pushed ∧
      ((labels.flatMap Label.entered).map Entry.item).Perm
        ((labels.flatMap Label.left ++ queue.contents).map Entry.item) ∧
      (labels.flatMap Label.popped).Pairwise (· < ·) ∧
      ∀ event, (∀ del, event = .popSend del → queue.send ≠ []) →
        ∃ answer next, event.perform table queue = .ok (answer, next) ∧
          (next.InStep ↔ KeepsIterators table queue event) := by
  have initially := TcTimeoutQueueNew.inStep_new (T := T) table size
  have inStep := runs_inStep run initially
  refine ⟨inStep, ?_, ?_, ?_, (runs_popped run initially).1, ?_⟩
  · exact @Run.labels _ _ _ TcTimeoutQueueNew.InStep
      (fun label : Label T =>
        Moves label.before label.event label.answer label.after)
      (fun inStep step => GuardedStep.inStep step inStep)
      (fun inStep step => by
        rw [step.2.1, step.2.2.1]
        exact (GuardedStep.performed step inStep).moves)
      _ _ _ run initially
  · have entered := (runs_entered run initially).1
    rw [List.range_eq_range']
    exact entered
  · exact runs_balance run initially
  · intro event something
    obtain ⟨answer, next, result, performed⟩ :=
      inStep.perform_spec table event something
    exact ⟨answer, next, result, performed.inStep⟩

theorem guardedStep_of_perform {table : HashTable}
    {queue next : TcTimeoutQueueNew T} {event : Event T} {answer : Answer T}
    (result : event.perform table queue = .ok (answer, next))
    (keeps : KeepsIterators table queue event) :
    GuardedStep table queue
      ⟨queue.contents, event, answer, next.contents⟩ next :=
  ⟨keeps, rfl, rfl, result⟩

namespace Sample

/-- Prime numbers of buckets; a rehash takes the iterators away. -/
def table : HashTable where
  bucketCount size := if size ≤ 2 then 2 else if size ≤ 5 then 5 else 103
  keepsIterators := false

def one : TcTimeoutQueueNew Nat :=
  ((TcTimeoutQueueNew.new table 2).push table 10 1 3000 false).2

def two : TcTimeoutQueueNew Nat := (one.push table 20 2 2000 false).2

def three : TcTimeoutQueueNew Nat := (two.push table 30 3 1000 false).2

/-- After the deadline of the second entry. -/
def late : TcTimeoutQueueNew Nat := two.remove 1

end Sample

theorem runs_stay_inStep_late : Sample.late.InStep := by
  have first := guardedStep_of_perform
    (show (Event.push 10 1 3000 false).perform Sample.table (.new _ 2) =
      .ok (.success true, Sample.one) from rfl)
    (.inr (.inl rfl))
  have second := guardedStep_of_perform
    (show (Event.push 20 2 2000 false).perform Sample.table Sample.one =
      .ok (.success true, Sample.two) from rfl)
    (.inr (.inr (.inl rfl)))
  have third := guardedStep_of_perform
    (show (Event.timeout 2500).perform Sample.table Sample.two =
      .ok (.item (some 20), Sample.late) from rfl)
    trivial
  exact (runs_stay_inStep
    (.cons first (.cons second (.cons third (.nil _))))).1

/-- The third push makes a table for two elements rehash; what `_send` has
stored before leads nowhere. -/
theorem rehash_invalidates :
    ¬ Sample.three.InStep ∧
      Event.getSend.perform Sample.table Sample.three =
        .error .invalidAccess := by
  refine ⟨?_, rfl⟩
  intro inStep
  have listed : ⟨0, 3000, ⟨0, 0⟩⟩ ∈ Sample.three.time := by decide
  exact absurd (inStep.timeDataIter _ listed) (by decide)

end TarsCpp.TimeoutQueue
