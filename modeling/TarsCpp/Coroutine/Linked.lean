import Mathlib.Tactic
import TarsCpp.Coroutine.Scheduler

/-!
# Every coroutine is in the list of its status

The moves between the lists keep the statuses, the lists and the counters of
the scheduler consistent, whatever wakes a coroutine up.  The three loops that
wake coroutines up move each of the recorded ids to the end of a list, in their
order.
-/

namespace TarsCpp.Coroutine

open NetworkBuffer

/-- The list that a status names. -/
def CORO_STATUS.head : CORO_STATUS → Head
  | .CORO_FREE => .free
  | .CORO_ACTIVE => .active
  | .CORO_AVAIL => .avail
  | .CORO_INACTIVE => .inactive
  | .CORO_TIMEOUT => .timeout

theorem CORO_STATUS.head_injective {status other : CORO_STATUS}
    (same : status.head = other.head) : status = other := by
  cases status <;> cases other <;> first | rfl | cases same

namespace TC_CoroutineScheduler

variable {s : TC_CoroutineScheduler} {iId : UInt32}

/-- The number of coroutines in the other lists than `_free`. -/
def used (s : TC_CoroutineScheduler) : Nat :=
  (s.lists .active).length + (s.lists .avail).length +
    (s.lists .inactive).length + (s.lists .timeout).length

/-- The coroutines that exist are those with an id that was generated, and each
is once in the list of its status and in no other. -/
structure Listed (s : TC_CoroutineScheduler) : Prop where
  created : ∀ iId, (s.coro iId).isSome ↔ iId ≠ 0 ∧ iId ≤ s.uniqId
  listed : ∀ head iId, iId ∈ s.lists head ↔
    ∃ status, s.coro iId = some status ∧ status.head = head
  nodup : ∀ head, (s.lists head).Nodup
  total : s.used + (s.lists .free).length = s.uniqId.toNat

/-- The counters agree with the lists. -/
structure Linked (s : TC_CoroutineScheduler) : Prop extends Listed s where
  counted : s.usedSize.toNat = s.used
  grown : s.currentSize = s.uniqId
  bounded : s.uniqId ≤ s.poolSize

/-- What all moves do. -/
def relink (s : TC_CoroutineScheduler) (iId : UInt32)
    (status : CORO_STATUS) : TC_CoroutineScheduler :=
  ((s.CoroutineDel iId).setStatus iId status).CoroutineAddTail iId status.head

section Relink

variable (status : CORO_STATUS) {old : CORO_STATUS}

theorem lists_relink (head : Head) :
    (s.relink iId status).lists head =
      if head = status.head then (s.lists head).erase iId ++ [iId]
      else (s.lists head).erase iId := by
  by_cases same : head = status.head
  · subst same
    simp [relink, CoroutineAddTail, setStatus, CoroutineDel]
  · simp [relink, CoroutineAddTail, setStatus, CoroutineDel, same]

theorem coro_relink (was : s.coro iId = some old) (other : UInt32) :
    (s.relink iId status).coro other =
      if other = iId then some status else s.coro other := by
  obtain ⟨all, exists_, _⟩ := Option.bind_eq_some_iff.mp was
  by_cases same : other = iId
  · subst same
    simp [relink, coro, setStatus, CoroutineAddTail, CoroutineDel, exists_]
  · simp [relink, coro, setStatus, CoroutineAddTail, CoroutineDel, exists_,
      same]

variable (linked : s.Listed) (was : s.coro iId = some old)

include linked was

theorem Listed.mem : iId ∈ s.lists old.head :=
  (linked.listed old.head iId).mpr ⟨old, was, rfl⟩

theorem Listed.not_mem {head : Head} (other : head ≠ old.head) :
    iId ∉ s.lists head := by
  intro member
  obtain ⟨found, now, here⟩ := (linked.listed head iId).mp member
  rw [was] at now
  cases now
  exact other here.symm

/-- One list gets longer and another one shorter, or none changes. -/
theorem Listed.length_relink (head : Head) :
    ((s.relink iId status).lists head).length +
        (if old.head = head then 1 else 0) =
      (s.lists head).length + (if status.head = head then 1 else 0) := by
  have erased : ((s.lists head).erase iId).length +
      (if old.head = head then 1 else 0) = (s.lists head).length := by
    by_cases here : old.head = head
    · subst here
      have member := linked.mem was
      have positive := List.length_pos_of_mem member
      rw [if_pos rfl, List.length_erase_of_mem member]
      omega
    · rw [if_neg here, List.erase_of_not_mem
        (linked.not_mem was (Ne.symm here)), Nat.add_zero]
  rw [lists_relink]
  by_cases there : head = status.head
  · rw [if_pos there, if_pos there.symm, List.length_append,
      List.length_singleton]
    omega
  · rw [if_neg there, if_neg (Ne.symm there)]
    omega

theorem Listed.used_relink :
    (s.relink iId status).used + (if old = .CORO_FREE then 0 else 1) =
      s.used + (if status = .CORO_FREE then 0 else 1) := by
  have active := linked.length_relink status was .active
  have avail := linked.length_relink status was .avail
  have inactive := linked.length_relink status was .inactive
  have timeout := linked.length_relink status was .timeout
  unfold used
  cases old <;> cases status <;>
    simp [CORO_STATUS.head] at active avail inactive timeout ⊢ <;> omega

/-- The lists stay the lists of the statuses. -/
theorem Listed.relink : (s.relink iId status).Listed where
  created := by
    intro other
    have before := linked.created other
    rw [coro_relink status was]
    by_cases same : other = iId
    · subst same
      rw [was] at before
      rw [if_pos rfl]
      exact before
    · rw [if_neg same]
      exact before
  listed := by
    intro head other
    rw [lists_relink, coro_relink status was]
    by_cases same : other = iId
    · subst same
      have erased : other ∉ (s.lists head).erase other :=
        fun member => ((linked.nodup head).mem_erase_iff.mp member).1 rfl
      by_cases there : head = status.head
      · rw [if_pos there, if_pos rfl]
        simp [there]
      · rw [if_neg there, if_pos rfl]
        refine iff_of_false erased ?_
        rintro ⟨found, now, here⟩
        cases now
        exact there here.symm
    · have before := linked.listed head other
      have kept : other ∈ (s.lists head).erase iId ↔ other ∈ s.lists head :=
        List.mem_erase_of_ne same
      rw [if_neg same, ← before, ← kept]
      split
      · simp [same]
      · exact Iff.rfl
  nodup := by
    intro head
    have erased := (linked.nodup head).erase iId
    rw [lists_relink]
    split
    · refine List.Nodup.append erased (List.nodup_singleton iId) ?_
      intro other member last
      rw [List.mem_singleton.mp last] at member
      exact ((linked.nodup head).mem_erase_iff.mp member).1 rfl
    · exact erased
  total := by
    have free := linked.length_relink status was .free
    have others := linked.used_relink status was
    have total := linked.total
    have same : (s.relink iId status).uniqId = s.uniqId := rfl
    rw [same, ← total]
    cases old <;> cases status <;>
      simp [CORO_STATUS.head] at free others ⊢ <;> omega

end Relink

theorem Linked.congr {t : TC_CoroutineScheduler} (linked : s.Linked)
    (all : t.all_coro = s.all_coro) (lists : t.lists = s.lists)
    (uniqId : t.uniqId = s.uniqId) (usedSize : t.usedSize = s.usedSize)
    (currentSize : t.currentSize = s.currentSize)
    (poolSize : t.poolSize = s.poolSize) : t.Linked := by
  have coro : t.coro = s.coro := by
    funext iId
    rw [TC_CoroutineScheduler.coro, all, TC_CoroutineScheduler.coro]
  have used : t.used = s.used := by
    rw [TC_CoroutineScheduler.used, lists, TC_CoroutineScheduler.used]
  constructor
  · constructor
    · rw [coro, uniqId]
      exact linked.created
    · rw [coro, lists]
      exact linked.listed
    · rw [lists]
      exact linked.nodup
    · rw [used, lists, uniqId]
      exact linked.total
  · rw [usedSize, used]
    exact linked.counted
  · rw [currentSize, uniqId]
    exact linked.grown
  · rw [uniqId, poolSize]
    exact linked.bounded

theorem moveTo_eq {from_ : List CORO_STATUS} {status old : CORO_STATUS}
    (was : s.coro iId = some old) (allowed : old ∈ from_) :
    s.moveTo from_ status status.head iId = .ok (s.relink iId status) := by
  rw [moveTo, was]
  simp only [if_pos allowed]
  rfl

/-- A move that does not touch `_free`. -/
theorem Linked.relink {status old : CORO_STATUS} (linked : s.Linked)
    (was : s.coro iId = some old) (old_used : old ≠ .CORO_FREE)
    (now_used : status ≠ .CORO_FREE) : (s.relink iId status).Linked where
  toListed := linked.toListed.relink status was
  counted := by
    have used := linked.toListed.used_relink status was
    rw [if_neg old_used, if_neg now_used] at used
    have same : (s.relink iId status).usedSize = s.usedSize := rfl
    rw [same, linked.counted]
    exact (Nat.add_right_cancel used).symm
  grown := linked.grown
  bounded := linked.bounded

end TC_CoroutineScheduler

namespace TC_CoroutineScheduler

variable {s : TC_CoroutineScheduler} {ids : List UInt32}

/-- One move after the other. -/
def relinkAll (s : TC_CoroutineScheduler) (status : CORO_STATUS)
    (ids : List UInt32) : TC_CoroutineScheduler :=
  ids.foldl (fun s iId => s.relink iId status) s

/-- Coroutines with one of the statuses `from_`, each of them once. -/
structure Movable (s : TC_CoroutineScheduler) (from_ : List CORO_STATUS)
    (ids : List UInt32) : Prop where
  nodup : ids.Nodup
  waits : ∀ iId ∈ ids, ∃ old ∈ from_, s.coro iId = some old

/-- What a loop over movable coroutines leaves. -/
structure Moved (s : TC_CoroutineScheduler) (status : CORO_STATUS)
    (ids : List UInt32) (t : TC_CoroutineScheduler) : Prop where
  linked : t.Linked
  coro : ∀ iId, t.coro iId = if iId ∈ ids then some status else s.coro iId
  tail : t.lists status.head = s.lists status.head ++ ids
  others : ∀ head, head ≠ status.head → (∀ iId ∈ ids, iId ∉ s.lists head) →
    t.lists head = s.lists head
  exists_ : t.all_coro.isSome = s.all_coro.isSome
  currentCoro : t.currentCoro = s.currentCoro
  needActiveCoroId : t.needActiveCoroId = s.needActiveCoroId
  timeoutCoroId : t.timeoutCoroId = s.timeoutCoroId
  activeCoroQueue : t.activeCoroQueue = s.activeCoroQueue

section Moves

variable {from_ : List CORO_STATUS} {status : CORO_STATUS}

theorem Movable.tail {iId : UInt32} (movable : Movable s from_ (iId :: ids)) :
    Movable (s.relink iId status) from_ ids where
  nodup := movable.nodup.of_cons
  waits := by
    intro other member
    obtain ⟨old, -, was⟩ := movable.waits iId List.mem_cons_self
    obtain ⟨old', allowed, was'⟩ :=
      movable.waits other (List.mem_cons_of_mem iId member)
    have apart : other ≠ iId := by
      rintro rfl
      exact (List.nodup_cons.mp movable.nodup).1 member
    refine ⟨old', allowed, ?_⟩
    rw [coro_relink status was, if_neg apart]
    exact was'

/-- The statuses are used ones, and the coroutines change their list. -/
def Leaves (from_ : List CORO_STATUS) (status : CORO_STATUS) : Prop :=
  status ≠ .CORO_FREE ∧ status ∉ from_ ∧ .CORO_FREE ∉ from_

instance : Decidable (Leaves from_ status) :=
  inferInstanceAs (Decidable (_ ∧ _ ∧ _))

theorem Movable.moved (leaves : Leaves from_ status) (linked : s.Linked)
    (movable : Movable s from_ ids) :
    Moved s status ids (s.relinkAll status ids) := by
  obtain ⟨used, elsewhere, notFree⟩ := leaves
  induction ids generalizing s with
  | nil =>
      refine ⟨linked, ?_, ?_, fun _ _ _ => rfl, rfl, rfl, rfl, rfl, rfl⟩
      · intro iId
        rw [if_neg List.not_mem_nil]
        rfl
      · rw [List.append_nil]
        rfl
  | cons iId ids ih =>
      obtain ⟨old, allowed, was⟩ := movable.waits iId List.mem_cons_self
      have old_used : old ≠ .CORO_FREE := by
        rintro rfl
        exact notFree allowed
      have apart : status ≠ old := by
        rintro rfl
        exact elsewhere allowed
      have behind := ih (linked.relink was old_used used) movable.tail
      refine ⟨behind.linked, ?_, ?_, ?_, ?_, behind.currentCoro,
        behind.needActiveCoroId, behind.timeoutCoroId, behind.activeCoroQueue⟩
      · intro other
        have later := behind.coro other
        rw [coro_relink status was] at later
        refine later.trans ?_
        by_cases here : other = iId
        · simp [here]
        · simp [here]
      · have outside : iId ∉ s.lists status.head :=
          linked.toListed.not_mem was fun same =>
            apart (CORO_STATUS.head_injective same)
        have later := behind.tail
        rw [lists_relink, if_pos rfl, List.erase_of_not_mem outside] at later
        refine later.trans ?_
        rw [List.append_assoc, List.singleton_append]
      · intro head other outside
        have first : (s.relink iId status).lists head = s.lists head := by
          rw [lists_relink, if_neg other,
            List.erase_of_not_mem (outside iId List.mem_cons_self)]
        refine (behind.others head other fun later member => ?_).trans first
        rw [first]
        exact outside later (List.mem_cons_of_mem _ member)
      · refine behind.exists_.trans ?_
        simp [TC_CoroutineScheduler.relink, setStatus, CoroutineAddTail,
          CoroutineDel]

end Moves

theorem wakeupAll_eq (movable : Movable s [.CORO_INACTIVE, .CORO_TIMEOUT] ids) :
    wakeupAll ids s = .ok (s.relinkAll .CORO_ACTIVE ids) := by
  induction ids generalizing s with
  | nil => rfl
  | cons iId ids ih =>
      obtain ⟨old, allowed, was⟩ := movable.waits iId List.mem_cons_self
      have moved : s.moveToActive iId = .ok (s.relink iId .CORO_ACTIVE) :=
        moveTo_eq was allowed
      rw [wakeupAll, moved]
      exact ih movable.tail

theorem wakeupSelves_eq (movable : Movable s [.CORO_INACTIVE] ids) :
    wakeupSelves ids s =
      .ok { s.relinkAll .CORO_AVAIL ids with needActiveCoroId := [] } := by
  induction ids generalizing s with
  | nil => rfl
  | cons iId ids ih =>
      obtain ⟨old, allowed, was⟩ := movable.waits iId List.mem_cons_self
      have moved : s.moveToAvail iId = .ok (s.relink iId .CORO_AVAIL) :=
        moveTo_eq was allowed
      rw [wakeupSelves, moved]
      exact ih movable.tail

/-- The entries that are due stand at the beginning. -/
theorem wakeupDue_eq {iNow : Int} {entries : List (Int × UInt32)}
    (movable : Movable s [.CORO_INACTIVE, .CORO_TIMEOUT]
      ((entries.takeWhile (·.1 ≤ iNow)).map Prod.snd)) :
    wakeupDue iNow entries s =
      .ok { s.relinkAll .CORO_ACTIVE
          ((entries.takeWhile (·.1 ≤ iNow)).map Prod.snd) with
        timeoutCoroId := entries.dropWhile (·.1 ≤ iNow) } := by
  induction entries generalizing s with
  | nil => rfl
  | cons it entries ih =>
      rw [wakeupDue]
      by_cases due : it.1 ≤ iNow
      · rw [List.takeWhile_cons_of_pos (by simpa using due)] at movable ⊢
        rw [List.dropWhile_cons_of_pos (by simpa using due),
          if_neg (Int.not_lt.mpr due)]
        obtain ⟨old, allowed, was⟩ := movable.waits it.2 List.mem_cons_self
        have moved : s.moveToActive it.2 =
            .ok (s.relink it.2 .CORO_ACTIVE) :=
          moveTo_eq was allowed
        rw [moved]
        exact ih movable.tail
      · rw [List.takeWhile_cons_of_neg (by simpa using due),
          List.dropWhile_cons_of_neg (by simpa using due),
          if_pos (Int.not_le.mp due)]
        rfl

end TC_CoroutineScheduler

end TarsCpp.Coroutine
