import TarsCpp.TimeoutQueue.TimeoutQueueNew

/-!
# What the operations do to the entries

The queue as a list of entries in the order of their pushes, and the operations
as a relation on such lists.
-/

namespace TarsCpp.TimeoutQueue

open NetworkBuffer

variable {T : Type}

/-- The unsent entry that was pushed first. -/
structure Oldest (entries : List (Entry T)) (entry : Entry T) : Prop where
  member : entry ∈ entries
  unsent : entry.hasSend = false
  oldest : ∀ other ∈ entries, other.hasSend = false → entry.node ≤ other.node

/-- An entry whose deadline has passed, with the earliest deadline of all. -/
structure Due (entries : List (Entry T)) (iNow : Int) (entry : Entry T) :
    Prop where
  member : entry ∈ entries
  passed : entry.timeout ≤ iNow
  earliest : ∀ other ∈ entries, entry.timeout ≤ other.timeout

def without (entries : List (Entry T)) (entry : Entry T) : List (Entry T) :=
  entries.filter (·.node ≠ entry.node)

def marked (entries : List (Entry T)) (entry : Entry T) : List (Entry T) :=
  entries.map fun other =>
    if other.node = entry.node then { other with hasSend := true } else other

inductive Moves (entries : List (Entry T)) :
    Event T → Answer T → List (Entry T) → Prop
  | pushed {entry : Entry T}
      (unused : ∀ other ∈ entries, other.uniqId ≠ entry.uniqId)
      (newest : ∀ other ∈ entries, other.node < entry.node) :
      Moves entries
        (.push entry.ptr entry.uniqId entry.timeout entry.hasSend)
        (.success true) (entries ++ [entry])
  | refused {entry : Entry T} (member : entry ∈ entries) {ptr : T}
      {timeout : Int} {hasSend : Bool} :
      Moves entries (.push ptr entry.uniqId timeout hasSend)
        (.success false) entries
  | found {entry : Entry T} (member : entry ∈ entries) :
      Moves entries (.get entry.uniqId false) (.item (some entry.ptr)) entries
  | taken {entry : Entry T} (member : entry ∈ entries) :
      Moves entries (.get entry.uniqId true) (.item (some entry.ptr))
        (without entries entry)
  | missing {uniqId : UInt32} {bErase : Bool}
      (unused : ∀ other ∈ entries, other.uniqId ≠ uniqId) :
      Moves entries (.get uniqId bErase) (.item none) entries
  | erased {entry : Entry T} (member : entry ∈ entries) :
      Moves entries (.erase entry.uniqId) (.item (some entry.ptr))
        (without entries entry)
  | unknown {uniqId : UInt32}
      (unused : ∀ other ∈ entries, other.uniqId ≠ uniqId) :
      Moves entries (.erase uniqId) (.item none) entries
  | handed {entry : Entry T} (oldest : Oldest entries entry) :
      Moves entries .getSend (.item (some entry.ptr)) entries
  | idle (sent : ∀ entry ∈ entries, entry.hasSend = true) :
      Moves entries .getSend (.item none) entries
  | sent {entry : Entry T} (oldest : Oldest entries entry) :
      Moves entries (.popSend false) .done (marked entries entry)
  | dropped {entry : Entry T} (oldest : Oldest entries entry) :
      Moves entries (.popSend true) .done (without entries entry)
  | expired {entry : Entry T} {iNow : Int} (due : Due entries iNow entry) :
      Moves entries (.timeout iNow) (.item (some entry.ptr))
        (without entries entry)
  | pending {iNow : Int} (early : ∀ entry ∈ entries, iNow < entry.timeout) :
      Moves entries (.timeout iNow) (.item none) entries

namespace TcTimeoutQueueNew

variable {queue : TcTimeoutQueueNew T}

/-- The entry of a node. -/
abbrev entry (queue : TcTimeoutQueueNew T) (info : PtrInfo T) : Entry T :=
  entryOf queue.time info

theorem entry_mem {info : PtrInfo T} (member : info ∈ queue.data) :
    queue.entry info ∈ queue.contents :=
  List.mem_map_of_mem member

theorem unused_of_find {uniqId : UInt32}
    (missing : queue.data.find? (·.uniqId = uniqId) = none) :
    ∀ other ∈ queue.contents, other.uniqId ≠ uniqId := by
  intro other member
  obtain ⟨info, present, rfl⟩ := List.mem_map.mp member
  have different := List.find?_eq_none.mp missing info present
  exact of_decide_eq_false (Bool.eq_false_of_not_eq_true different)

theorem contents_without (info : PtrInfo T) :
    (queue.remove info.node).contents =
      without queue.contents (queue.entry info) :=
  contents_remove info.node

section Assign

variable {node : Nat} {update : PtrInfo T → PtrInfo T}

theorem map_assign {κ : Type} {key : PtrInfo T → κ}
    (same : ∀ info, key (update info) = key info) :
    (queue.assign node update).data.map key = queue.data.map key := by
  rw [assign, List.map_map]
  apply List.map_congr_left
  intro info _
  rw [Function.comp_apply]
  split
  · exact same info
  · rfl

theorem filter_assign (same : ∀ info, (update info).node = info.node) :
    (queue.assign node update).data.filter (·.node ≠ node) =
      queue.data.filter (·.node ≠ node) := by
  rw [assign]
  generalize queue.data = data
  induction data with
  | nil => rfl
  | cons info data ih =>
      rw [List.map_cons, List.filter_cons, List.filter_cons]
      by_cases here : info.node = node
      · simp only [here, if_true, same, ne_eq, not_true_eq_false,
          decide_false, Bool.false_eq_true, if_false]
        exact ih
      · simp only [here, if_false, ne_eq, not_false_eq_true, decide_true,
          if_true]
        exact congrArg (info :: ·) ih

theorem mem_assign {info : PtrInfo T}
    (member : info ∈ (queue.assign node update).data) :
    ∃ other ∈ queue.data,
      info = if other.node = node then update other else other := by
  obtain ⟨other, present, same⟩ := List.mem_map.mp member
  exact ⟨other, present, same.symm⟩

end Assign

/-- The entry has been sent and leaves `_send`. -/
def markSent (queue : TcTimeoutQueueNew T) (node : Nat) :
    TcTimeoutQueueNew T :=
  { queue.assign node ({ · with hasSend := true }) with
    send := queue.send.filter (·.node ≠ node) }

theorem map_markSent {κ : Type} {key : PtrInfo T → κ} {node : Nat}
    (same : ∀ info, key { info with hasSend := true } = key info) :
    (queue.markSent node).data.map key = queue.data.map key :=
  map_assign same

theorem unsent_markSent (node : Nat) :
    (queue.markSent node).data.filter (!·.hasSend) =
      (queue.data.filter (!·.hasSend)).filter (·.node ≠ node) := by
  rw [markSent, assign]
  dsimp only
  generalize queue.data = data
  induction data with
  | nil => rfl
  | cons info data ih =>
      rw [List.map_cons, List.filter_cons]
      by_cases here : info.node = node
      · cases sent : info.hasSend <;> simp [here, sent, ih]
      · cases sent : info.hasSend <;> simp [here, sent, ih]

theorem contents_markSent (info : PtrInfo T) :
    (queue.markSent info.node).contents =
      marked queue.contents (queue.entry info) := by
  rw [contents, contents, marked, markSent, assign, List.map_map,
    List.map_map]
  apply List.map_congr_left
  intro other _
  rw [Function.comp_apply, Function.comp_apply]
  by_cases same : other.node = info.node
  · have same' : (entryOf queue.time other).node =
        (entryOf queue.time info).node := same
    rw [if_pos same, if_pos same']
    rfl
  · have different : ¬ (entryOf queue.time other).node =
        (entryOf queue.time info).node := same
    rw [if_neg same, if_neg different]

section Specifications

variable (inStep : queue.InStep)

include inStep

theorem InStep.eraseTime {info : PtrInfo T} (member : info ∈ queue.data)
    {rest : TcTimeoutQueueNew T} (same : rest.time = queue.time) :
    rest.eraseTime info.timeIter =
      .ok { rest with time := rest.time.filter (·.node ≠ info.node) } := by
  obtain ⟨it, listed, node⟩ := inStep.mem_time member
  rw [inStep.timeIter info member, ← node]
  exact eraseTime_eq (same ▸ listed)

theorem InStep.eraseUnsent {info : PtrInfo T} (member : info ∈ queue.data)
    {rest : TcTimeoutQueueNew T} (same : rest.send = queue.send) :
    rest.eraseUnsent info =
      .ok { rest with send := rest.send.filter (·.node ≠ info.node) } := by
  rw [TcTimeoutQueueNew.eraseUnsent]
  cases sent : info.hasSend with
  | true =>
      rw [same, inStep.filter_send member sent, ← same]
      rfl
  | false =>
      obtain ⟨it, listed, node⟩ := inStep.mem_send member sent
      rw [inStep.sendIter info member sent, ← node]
      exact eraseSend_eq (same ▸ listed)

theorem InStep.eraseData {info : PtrInfo T} (member : info ∈ queue.data)
    {rest : TcTimeoutQueueNew T} (same : rest.data = queue.data)
    (rehashes : rest.rehashes = queue.rehashes) :
    rest.eraseData ⟨info.node, queue.rehashes⟩ =
      .ok { rest with data := rest.data.filter (·.node ≠ info.node) } := by
  have valid : rest.deref ⟨info.node, queue.rehashes⟩ = .ok info := by
    rw [← inStep.deref member, TcTimeoutQueueNew.deref,
      TcTimeoutQueueNew.deref, same, rehashes]
  exact eraseData_eq valid

/-- The iterator still leads to the entry after an assignment to it. -/
theorem InStep.eraseAssigned {info : PtrInfo T} (member : info ∈ queue.data)
    (update : PtrInfo T → PtrInfo T)
    (same : ∀ info, (update info).node = info.node)
    {rest : TcTimeoutQueueNew T}
    (data : rest.data = (queue.assign info.node update).data)
    (rehashes : rest.rehashes = queue.rehashes) :
    rest.eraseData ⟨info.node, queue.rehashes⟩ =
      .ok { rest with data := queue.data.filter (·.node ≠ info.node) } := by
  have distinct : (rest.data.map PtrInfo.node).Nodup := by
    rw [data, map_assign same]
    exact inStep.nodup_data
  have assigned : update info ∈ rest.data := by
    rw [data]
    exact List.mem_map.mpr ⟨info, member, if_pos rfl⟩
  have found := find?_of_nodup distinct assigned
  rw [same info] at found
  have valid : rest.deref ⟨info.node, queue.rehashes⟩ = .ok (update info) := by
    rw [TcTimeoutQueueNew.deref, if_pos rehashes.symm, found]
  rw [eraseData_eq valid, data, filter_assign same]

theorem InStep.get_spec (uniqId : UInt32) (bErase : Bool) :
    ∃ t next, queue.get uniqId bErase = .ok (t, next) ∧ next.InStep ∧
      next.pushed = queue.pushed ∧
      Moves queue.contents (.get uniqId bErase) (.item t) next.contents := by
  rw [TcTimeoutQueueNew.get]
  cases search : queue.data.find? (·.uniqId = uniqId) with
  | none =>
      exact ⟨none, queue, rfl, inStep, rfl, .missing (unused_of_find search)⟩
  | some info =>
      have member := List.mem_of_find?_eq_some search
      have same : info.uniqId = uniqId := by
        simpa using List.find?_some search
      subst same
      cases bErase with
      | false =>
          exact ⟨_, queue, rfl, inStep, rfl, .found (entry_mem member)⟩
      | true =>
          refine ⟨some info.ptr, queue.remove info.node, ?_,
            inStep.remove info.node, rfl, ?_⟩
          · simp only [if_true]
            rw [inStep.eraseTime member (by rfl), ok_bind,
              inStep.eraseUnsent member (by rfl), ok_bind,
              inStep.eraseData member (by rfl) (by rfl)]
            rfl
          · rw [contents_without]
            exact .taken (entry_mem member)

theorem InStep.erase_spec (uniqId : UInt32) :
    ∃ t next, queue.erase uniqId = .ok (t, next) ∧ next.InStep ∧
      next.pushed = queue.pushed ∧
      Moves queue.contents (.erase uniqId) (.item t) next.contents := by
  rw [TcTimeoutQueueNew.erase]
  cases search : queue.data.find? (·.uniqId = uniqId) with
  | none =>
      exact ⟨none, queue, rfl, inStep, rfl, .unknown (unused_of_find search)⟩
  | some info =>
      have member := List.mem_of_find?_eq_some search
      have same : info.uniqId = uniqId := by
        simpa using List.find?_some search
      subst same
      refine ⟨some info.ptr, queue.remove info.node, ?_,
        inStep.remove info.node, rfl, ?_⟩
      · simp only
        rw [inStep.eraseUnsent member (by rfl), ok_bind,
          inStep.eraseTime member (by rfl), ok_bind,
          inStep.eraseData member (by rfl) (by rfl)]
        rfl
      · rw [contents_without]
        exact .erased (entry_mem member)

theorem InStep.timeout_spec (iNow : Int) :
    ∃ t next, queue.timeout iNow = .ok (t, next) ∧ next.InStep ∧
      next.pushed = queue.pushed ∧
      Moves queue.contents (.timeout iNow) (.item t) next.contents := by
  rw [TcTimeoutQueueNew.timeout]
  have keys : ∀ entry ∈ queue.contents,
      ∃ it ∈ queue.time, it.timeout = entry.timeout := by
    intro entry present
    obtain ⟨info, member, rfl⟩ := List.mem_map.mp present
    obtain ⟨it, listed, same⟩ := inStep.mem_time member
    refine ⟨it, listed, ?_⟩
    rw [← inStep.timeoutOf listed, same]
    rfl
  have sorted := inStep.sorted
  cases times : queue.time with
  | nil =>
      refine ⟨none, queue, rfl, inStep, rfl, .pending ?_⟩
      intro entry present
      obtain ⟨it, listed, _⟩ := keys entry present
      rw [times] at listed
      cases listed
  | cons it later =>
      rw [times] at keys sorted
      have least : ∀ entry ∈ queue.contents, it.timeout ≤ entry.timeout := by
        intro entry present
        obtain ⟨other, listed, same⟩ := keys entry present
        rw [← same]
        rcases List.mem_cons.mp listed with rfl | behind
        · exact le_refl _
        · exact (List.pairwise_cons.mp sorted).1 other behind
      have listed : it ∈ queue.time := times ▸ List.mem_cons_self
      by_cases early : it.timeout > iNow
      · refine ⟨none, queue, by simp only [early, if_true], inStep,
          rfl, .pending ?_⟩
        intro entry present
        exact lt_of_lt_of_le early (least entry present)
      · obtain ⟨info, member, same⟩ := inStep.of_mem_time listed
        refine ⟨some info.ptr, queue.remove info.node, ?_,
          inStep.remove info.node, rfl, ?_⟩
        · have dataIter := inStep.timeDataIter it listed
          have timeIter := inStep.timeIter info member
          rw [← same] at dataIter
          simp only [early, if_false, dataIter, inStep.deref member, ok_bind,
            inStep.eraseUnsent member (by rfl)]
          rw [inStep.eraseData member (by rfl) (by rfl), ok_bind, ← same,
            ← timeIter, inStep.eraseTime member (by rfl)]
          rfl
        · rw [contents_without]
          have timeout : (queue.entry info).timeout = it.timeout := by
            rw [← inStep.timeoutOf listed, ← same]
            rfl
          exact .expired ⟨entry_mem member, by rw [timeout]; omega,
            fun other present => timeout ▸ least other present⟩

/-- The node at the back of `_send`. -/
theorem InStep.back {it : SendInfo} (last : queue.send.getLast? = some it) :
    ∃ info ∈ queue.data, it.dataIter = ⟨info.node, queue.rehashes⟩ ∧
      info.hasSend = false ∧ Oldest queue.contents (queue.entry info) ∧
      queue.send.dropLast = queue.send.filter (·.node ≠ info.node) := by
  have listed := List.mem_of_getLast? last
  obtain ⟨info, member, same, unsent⟩ := inStep.of_mem_send listed
  refine ⟨info, member, ?_, unsent, ⟨entry_mem member, unsent, ?_⟩, ?_⟩
  · rw [inStep.sendDataIter it listed, same]
  · intro other present otherUnsent
    obtain ⟨info', member', rfl⟩ := List.mem_map.mp present
    have first := congrArg List.getLast? inStep.send
    rw [List.getLast?_map, last, List.getLast?_reverse] at first
    have ordered := inStep.nodes.sublist
      ((List.filter_sublist (p := (!·.hasSend))).map PtrInfo.node)
    have among : info'.node ∈
        (queue.data.filter (!·.hasSend)).map PtrInfo.node := by
      apply List.mem_map_of_mem
      refine List.mem_filter.mpr ⟨member', ?_⟩
      rw [show info'.hasSend = false from otherUnsent]
      rfl
    show info.node ≤ info'.node
    revert first ordered among
    generalize (queue.data.filter (!·.hasSend)).map PtrInfo.node = nodes
    intro first ordered among
    cases nodes with
    | nil => cases among
    | cons node nodes =>
        have front : it.node = node := Option.some.inj first
        rcases List.mem_cons.mp among with here | later
        · omega
        · have less := (List.pairwise_cons.mp ordered).1 _ later
          omega
  · have split := List.dropLast_append_getLast? it last
    have distinct := inStep.nodup_send
    generalize queue.send.dropLast = front at split
    rw [← split, List.map_append, List.nodup_append] at distinct
    rw [← split, List.filter_append]
    have kept : front.filter (·.node ≠ info.node) = front := by
      apply List.filter_eq_self.mpr
      intro other present
      apply decide_eq_true
      intro equal
      exact distinct.2.2 _ (List.mem_map_of_mem present) _
        (List.mem_singleton_self _) (equal.trans same)
    rw [kept]
    simp [same]

theorem InStep.getSend_spec :
    ∃ t, queue.getSend = .ok t ∧
      Moves queue.contents .getSend (.item t) queue.contents := by
  rw [TcTimeoutQueueNew.getSend]
  cases last : queue.send.getLast? with
  | none =>
      refine ⟨none, rfl, .idle ?_⟩
      intro entry present
      obtain ⟨info, member, rfl⟩ := List.mem_map.mp present
      by_contra unsent
      obtain ⟨it, listed, _⟩ := inStep.mem_send member
        (Bool.eq_false_of_not_eq_true unsent)
      rw [List.getLast?_eq_none_iff.mp last] at listed
      cases listed
  | some it =>
      obtain ⟨info, member, dataIter, unsent, oldest, _⟩ := inStep.back last
      refine ⟨some info.ptr, ?_, .handed oldest⟩
      simp only [dataIter, inStep.deref member, ok_bind, unsent]
      rfl

theorem InStep.markSent (node : Nat) : (queue.markSent node).InStep where
  ids := by
    rw [map_markSent fun _ => rfl]
    exact inStep.ids
  nodes := by
    rw [map_markSent fun _ => rfl]
    exact inStep.nodes
  pushed := by
    intro info member
    obtain ⟨other, present, rfl⟩ := mem_assign member
    split <;> exact inStep.pushed other present
  time := by
    rw [map_markSent fun _ => rfl]
    exact inStep.time
  sorted := inStep.sorted
  send := by
    have kept := congrArg (List.filter (· ≠ node)) inStep.send
    rw [List.filter_map, List.filter_reverse, List.filter_map] at kept
    rw [unsent_markSent]
    exact kept
  timeIter := by
    intro info member
    obtain ⟨other, present, rfl⟩ := mem_assign member
    split <;> exact inStep.timeIter other present
  sendIter := by
    intro info member unsent
    obtain ⟨other, present, rfl⟩ := mem_assign member
    split at unsent
    · cases unsent
    · next different =>
        rw [if_neg different]
        exact inStep.sendIter other present unsent
  timeDataIter := inStep.timeDataIter
  sendDataIter := fun info member =>
    inStep.sendDataIter info (List.mem_of_mem_filter member)

theorem InStep.popSend_spec {it : SendInfo}
    (last : queue.send.getLast? = some it) (del : Bool) :
    ∃ next, queue.popSend del = .ok next ∧ next.InStep ∧
      next.pushed = queue.pushed ∧
      Moves queue.contents (.popSend del) .done next.contents := by
  obtain ⟨info, member, dataIter, unsent, oldest, front⟩ := inStep.back last
  rw [TcTimeoutQueueNew.popSend]
  simp only [last, dataIter, inStep.deref member, ok_bind]
  cases del with
  | false =>
      refine ⟨queue.markSent info.node, ?_, inStep.markSent info.node, rfl, ?_⟩
      · rw [TcTimeoutQueueNew.markSent, ← front]
        rfl
      · rw [contents_markSent]
        exact .sent oldest
  | true =>
      refine ⟨queue.remove info.node, ?_, inStep.remove info.node, rfl, ?_⟩
      · simp only [if_true]
        rw [inStep.eraseTime member (by rfl), ok_bind]
        rw [inStep.eraseAssigned member ({ · with hasSend := true })
          (fun _ => rfl) (by rfl) (by rfl), ok_bind, pure_ok]
        simp only [assign, front]
        rfl
      · rw [contents_without]
        exact .dropped oldest

end Specifications

end TcTimeoutQueueNew

end TarsCpp.TimeoutQueue
