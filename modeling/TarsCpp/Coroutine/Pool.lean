import TarsCpp.Coroutine.Linked

/-!
# Growing the pool

`init`, `increaseCoroPoolSize` and `go` never get an id twice, and find a
coroutine in `_free` as long as the pool may grow.
-/

namespace TarsCpp.Coroutine

open NetworkBuffer

namespace TC_CoroutineScheduler

variable {s t u : TC_CoroutineScheduler} {iId : UInt32}

/-- New coroutines are in `_free`, and everything else is as before. -/
structure Grown (s t : TC_CoroutineScheduler) : Prop where
  statuses : ∀ iId status, status ≠ CORO_STATUS.CORO_FREE →
    (t.coro iId = some status ↔ s.coro iId = some status)
  lists : ∀ head, head ≠ Head.free → t.lists head = s.lists head
  currentCoro : t.currentCoro = s.currentCoro
  needActiveCoroId : t.needActiveCoroId = s.needActiveCoroId
  timeoutCoroId : t.timeoutCoroId = s.timeoutCoroId
  activeCoroQueue : t.activeCoroQueue = s.activeCoroQueue

theorem Grown.refl (s : TC_CoroutineScheduler) : Grown s s := by
  constructor <;> simp

theorem Grown.trans (first : Grown s t) (second : Grown t u) : Grown s u where
  statuses := fun iId status other =>
    (second.statuses iId status other).trans (first.statuses iId status other)
  lists := fun head other =>
    (second.lists head other).trans (first.lists head other)
  currentCoro := second.currentCoro.trans first.currentCoro
  needActiveCoroId := second.needActiveCoroId.trans first.needActiveCoroId
  timeoutCoroId := second.timeoutCoroId.trans first.timeoutCoroId
  activeCoroQueue := second.activeCoroQueue.trans first.activeCoroQueue

theorem Grown.used (grown : Grown s t) : t.used = s.used := by
  have active := grown.lists .active (by decide)
  have avail := grown.lists .avail (by decide)
  have inactive := grown.lists .inactive (by decide)
  have timeout := grown.lists .timeout (by decide)
  rw [TC_CoroutineScheduler.used, active, avail, inactive, timeout,
    TC_CoroutineScheduler.used]

/-- The state of the pool between two new coroutines. -/
structure Growing (s t : TC_CoroutineScheduler) (count : Nat) : Prop where
  grown : Grown s t
  listed : t.Listed
  exists_ : t.all_coro.isSome
  generated : t.uniqId.toNat = s.uniqId.toNat + count
  poolSize : t.poolSize = s.poolSize
  currentSize : t.currentSize = s.currentSize
  usedSize : t.usedSize = s.usedSize

section NewCoroutine

variable (room : s.uniqId < s.poolSize)

include room

theorem toNat_next : (s.uniqId + 1).toNat = s.uniqId.toNat + 1 := by
  have bound := s.poolSize.toNat_lt
  have less := UInt32.lt_iff_toNat_lt.mp room
  rw [UInt32.toNat_add]
  exact Nat.mod_eq_of_lt (by simp; omega)

theorem generateId_eq :
    s.generateId = .ok (s.uniqId + 1, { s with uniqId := s.uniqId + 1 }) := by
  have next := toNat_next room
  have less := UInt32.lt_iff_toNat_lt.mp room
  have some_ : s.uniqId + 1 ≠ 0 := by
    intro zero
    rw [zero] at next
    simp at next
  have fits : s.uniqId + 1 ≤ s.poolSize := by
    rw [UInt32.le_iff_toNat_le, next]
    exact less
  simp only [generateId, if_neg some_, if_pos fits]

theorem newCoroutine_growing (listed : s.Listed)
    (exists_ : s.all_coro.isSome) :
    ∃ t, s.newCoroutine = .ok t ∧ Growing s t 1 := by
  have next := toNat_next room
  obtain ⟨all, stored⟩ := Option.isSome_iff_exists.mp exists_
  have unborn : s.coro (s.uniqId + 1) = none := by
    have created := listed.created (s.uniqId + 1)
    rw [UInt32.le_iff_toNat_le, next] at created
    rw [← Option.not_isSome_iff_eq_none, created]
    rintro ⟨-, less⟩
    omega
  have unlisted : ∀ head, s.uniqId + 1 ∉ s.lists head := by
    intro head member
    obtain ⟨status, now, -⟩ := (listed.listed head _).mp member
    rw [unborn] at now
    cases now
  let born := ({ s with uniqId := s.uniqId + 1 }.setStatus (s.uniqId + 1)
    .CORO_FREE).CoroutineAddTail (s.uniqId + 1) .free
  have coro : ∀ iId, born.coro iId =
      if iId = s.uniqId + 1 then some .CORO_FREE else s.coro iId := by
    intro iId
    by_cases same : iId = s.uniqId + 1
    · simp [born, TC_CoroutineScheduler.coro, setStatus, CoroutineAddTail,
        stored, same]
    · simp [born, TC_CoroutineScheduler.coro, setStatus, CoroutineAddTail,
        stored, same]
  have lists : ∀ head, born.lists head =
      if head = .free then s.lists .free ++ [s.uniqId + 1]
      else s.lists head := by
    intro head
    by_cases same : head = .free
    · subst same
      simp [born, setStatus, CoroutineAddTail]
    · simp [born, setStatus, CoroutineAddTail, same]
  have grown : Grown s born := by
    constructor
    · intro iId status other
      rw [coro]
      split
      · next same =>
          rw [same, unborn]
          simp [other.symm]
      · exact Iff.rfl
    · intro head other
      rw [lists, if_neg other]
    · rfl
    · rfl
    · rfl
    · rfl
  refine ⟨born, ?_, grown, ?_, ?_, next, rfl, rfl, rfl⟩
  · rw [newCoroutine, generateId_eq room]
    rfl
  · constructor
    · intro iId
      have before := listed.created iId
      have uniqId : born.uniqId = s.uniqId + 1 := rfl
      rw [coro, uniqId, UInt32.le_iff_toNat_le, next]
      rw [UInt32.le_iff_toNat_le] at before
      by_cases same : iId = s.uniqId + 1
      · have some_ : iId ≠ 0 := by
          rintro rfl
          rw [← same] at next
          simp at next
        have last : iId.toNat ≤ s.uniqId.toNat + 1 := by
          rw [same, next]
        rw [if_pos same]
        exact iff_of_true rfl ⟨some_, last⟩
      · have other : iId.toNat ≠ s.uniqId.toNat + 1 := by
          rw [← next]
          exact fun equal => same (UInt32.toNat_inj.mp equal)
        rw [if_neg same, before]
        apply and_congr_right
        intro some_
        constructor
        · intro less
          omega
        · intro less
          omega
    · intro head iId
      have before := listed.listed head iId
      rw [lists, coro]
      by_cases same : iId = s.uniqId + 1
      · subst same
        by_cases free : head = .free
        · simp [free, CORO_STATUS.head]
        · rw [if_neg free, if_pos rfl]
          refine iff_of_false (unlisted head) ?_
          rintro ⟨status, now, here⟩
          cases now
          exact free here.symm
      · rw [if_neg same, ← before]
        split
        · next free => simp [free, same]
        · exact Iff.rfl
    · intro head
      rw [lists]
      split
      · refine List.Nodup.append (listed.nodup _) (List.nodup_singleton _) ?_
        intro iId member last
        rw [List.mem_singleton.mp last] at member
        exact unlisted _ member
      · exact listed.nodup head
    · have uniqId : born.uniqId = s.uniqId + 1 := rfl
      have total := listed.total
      rw [grown.used, lists, if_pos rfl, uniqId, next, List.length_append,
        List.length_singleton]
      omega
  · simp [born, setStatus, CoroutineAddTail, stored]

end NewCoroutine

theorem newCoroutines_growing {count : Nat} (listed : s.Listed)
    (exists_ : s.all_coro.isSome)
    (room : s.uniqId.toNat + count ≤ s.poolSize.toNat) :
    ∃ t, newCoroutines count s = .ok t ∧ Growing s t count := by
  induction count generalizing s with
  | zero => exact ⟨s, rfl, .refl s, listed, exists_, rfl, rfl, rfl, rfl⟩
  | succ count ih =>
      have here : s.uniqId < s.poolSize := by
        rw [UInt32.lt_iff_toNat_lt]
        omega
      obtain ⟨t, made, first⟩ := newCoroutine_growing here listed exists_
      have later : t.uniqId.toNat + count ≤ t.poolSize.toNat := by
        rw [first.generated, first.poolSize]
        omega
      obtain ⟨u, more, rest⟩ := ih first.listed first.exists_ later
      refine ⟨u, ?_, first.grown.trans rest.grown, rest.listed, rest.exists_,
        ?_, rest.poolSize.trans first.poolSize,
        rest.currentSize.trans first.currentSize,
        rest.usedSize.trans first.usedSize⟩
      · rw [newCoroutines, made]
        exact more
      · rw [rest.generated, first.generated]
        omega

/-- Before `init` the lists are empty. -/
theorem Linked.empty (linked : s.Linked) (unset : s.all_coro = none) :
    (∀ iId, s.coro iId = none) ∧ ∀ head, s.lists head = [] := by
  have coro : ∀ iId, s.coro iId = none := by
    intro iId
    rw [TC_CoroutineScheduler.coro, unset]
    rfl
  refine ⟨coro, fun head => List.eq_nil_iff_forall_not_mem.mpr ?_⟩
  intro iId member
  obtain ⟨status, now, -⟩ := (linked.listed head iId).mp member
  rw [coro] at now
  cases now

theorem init_grown (linked : s.Linked) (unset : s.all_coro = none)
    (idle : s.currentCoro = 0) :
    ∃ t, s.init = .ok t ∧ t.Linked ∧ Grown s t ∧ t.all_coro.isSome := by
  obtain ⟨unborn, empty⟩ := linked.empty unset
  let currentSize := if s.poolSize ≤ 100 then s.poolSize else 100
  let base : TC_CoroutineScheduler := { s with
    usedSize := 0, uniqId := 0, currentSize := currentSize
    all_coro := some fun _ => none, lists := fun _ => [], currentCoro := 0 }
  have listed : base.Listed := by
    constructor
    · intro iId
      refine iff_of_false (by simp [base, TC_CoroutineScheduler.coro]) ?_
      rintro ⟨some_, least⟩
      have zero : iId.toNat ≤ 0 := UInt32.le_iff_toNat_le.mp least
      exact some_ (UInt32.toNat_inj.mp (Nat.le_zero.mp zero))
    · intro head iId
      simp [base, TC_CoroutineScheduler.coro]
    · intro head
      exact List.nodup_nil
    · rfl
  have fits : currentSize.toNat ≤ s.poolSize.toNat := by
    by_cases small : s.poolSize ≤ 100
    · simp only [currentSize, if_pos small, le_refl]
    · have large : ¬ s.poolSize.toNat ≤ 100 := fun less =>
        small (UInt32.le_iff_toNat_le.mpr less)
      have size : currentSize.toNat = 100 := by
        simp only [currentSize, if_neg small]
        rfl
      omega
  have room : base.uniqId.toNat + currentSize.toNat ≤ base.poolSize.toNat := by
    have zero : base.uniqId.toNat = 0 := rfl
    rw [zero, Nat.zero_add]
    exact fits
  obtain ⟨t, made, growing⟩ := newCoroutines_growing listed rfl room
  have generated : t.uniqId = currentSize := by
    apply UInt32.toNat_inj.mp
    have zero : base.uniqId.toNat = 0 := rfl
    rw [growing.generated, zero, Nat.zero_add]
  have start : Grown s base := by
    constructor
    · intro iId status _
      rw [unborn]
      simp [base, TC_CoroutineScheduler.coro]
    · intro head _
      rw [empty]
    · exact idle.symm
    · rfl
    · rfl
    · rfl
  refine ⟨t, made, ⟨growing.listed, ?_, ?_, ?_⟩, start.trans growing.grown,
    growing.exists_⟩
  · rw [growing.usedSize, growing.grown.used]
    rfl
  · rw [growing.currentSize, generated]
  · rw [generated, growing.poolSize, UInt32.le_iff_toNat_le]
    exact fits

theorem initOnce_grown (linked : s.Linked)
    (idle : s.all_coro = none → s.currentCoro = 0) :
    ∃ t, s.initOnce = .ok t ∧ t.Linked ∧ Grown s t ∧ t.all_coro.isSome := by
  rw [initOnce]
  by_cases unset : s.all_coro = none
  · rw [if_pos (by rw [unset]; rfl)]
    exact init_grown linked unset (idle unset)
  · rw [if_neg (by rwa [Option.isNone_iff_eq_none])]
    exact ⟨s, rfl, linked, .refl s, Option.isSome_iff_ne_none.mpr unset⟩

/-- A pool that can grow gets a coroutine that is free. -/
theorem increaseCoroPoolSize_grown (linked : s.Linked)
    (exists_ : s.all_coro.isSome) :
    s.increaseCoroPoolSize = .ok none ∨
      ∃ t, s.increaseCoroPoolSize = .ok (some t) ∧ t.Linked ∧ Grown s t ∧
        t.lists .free ≠ [] := by
  rw [increaseCoroPoolSize]
  by_cases full : s.poolSize ≤ s.currentSize
  · exact .inl (if_pos full)
  rw [if_neg full]
  right
  have less : s.currentSize.toNat < s.poolSize.toNat := by
    rw [← Nat.not_le]
    exact fun le => full (UInt32.le_iff_toNat_le.mpr le)
  have difference : (s.poolSize - s.currentSize).toNat =
      s.poolSize.toNat - s.currentSize.toNat :=
    UInt32.toNat_sub_of_le _ _ (UInt32.le_iff_toNat_le.mpr less.le)
  obtain ⟨iInc, chosen, some_, fits⟩ : ∃ iInc : UInt32,
      (if s.poolSize - s.currentSize > 100 then 100
        else s.poolSize - s.currentSize) = iInc ∧ 0 < iInc.toNat ∧
      s.currentSize.toNat + iInc.toNat ≤ s.poolSize.toNat := by
    by_cases large : s.poolSize - s.currentSize > 100
    · have more : 100 < (s.poolSize - s.currentSize).toNat :=
        UInt32.lt_iff_toNat_lt.mp large
      refine ⟨100, if_pos large, by decide, ?_⟩
      have size : (100 : UInt32).toNat = 100 := rfl
      omega
    · exact ⟨_, if_neg large, by omega, by omega⟩
  have room : s.uniqId.toNat + iInc.toNat ≤ s.poolSize.toNat := by
    rw [← linked.grown]
    exact fits
  obtain ⟨t, made, growing⟩ :=
    newCoroutines_growing linked.toListed exists_ room
  have bound := s.poolSize.toNat_lt
  have size : (s.currentSize + iInc).toNat =
      s.currentSize.toNat + iInc.toNat := by
    rw [UInt32.toNat_add, Nat.mod_eq_of_lt (by omega)]
  have generated : t.uniqId = s.currentSize + iInc := by
    apply UInt32.toNat_inj.mp
    rw [growing.generated, size, linked.grown]
  let u := { t with currentSize := t.currentSize + iInc }
  have sized : u.currentSize = s.currentSize + iInc := by
    simp only [u, growing.currentSize]
  have usedSize : u.usedSize = s.usedSize := growing.usedSize
  have used : u.used = s.used := growing.grown.used
  refine ⟨u, ?_, ⟨⟨growing.listed.created, growing.listed.listed,
    growing.listed.nodup, growing.listed.total⟩, ?_, ?_, ?_⟩, ?_, ?_⟩
  · simp only [chosen]
    rw [made]
    rfl
  · rw [usedSize, used]
    exact linked.counted
  · rw [sized]
    exact generated.symm
  · have same : u.uniqId = t.uniqId := rfl
    have pool : u.poolSize = s.poolSize := growing.poolSize
    rw [same, generated, pool, UInt32.le_iff_toNat_le, size]
    exact fits
  · exact ⟨growing.grown.statuses, growing.grown.lists,
      growing.grown.currentCoro, growing.grown.needActiveCoroId,
      growing.grown.timeoutCoroId, growing.grown.activeCoroQueue⟩
  · intro none_
    have total : u.used + (u.lists .free).length = t.uniqId.toNat :=
      growing.listed.total
    have before := linked.total
    rw [none_, List.length_nil, used, generated, size, linked.grown] at total
    omega

/-- The free coroutine that `go` starts. -/
def started (s : TC_CoroutineScheduler) (iId : UInt32) :
    TC_CoroutineScheduler :=
  { s with usedSize := s.usedSize + 1 }.relink iId .CORO_AVAIL

theorem takeFree_linked (linked : s.Linked) (some_ : s.lists .free ≠ []) :
    ∃ iId, s.coro iId = some .CORO_FREE ∧
      s.takeFree = .ok (iId, s.started iId) ∧ (s.started iId).Linked := by
  obtain ⟨iId, rest, free⟩ := List.exists_cons_of_ne_nil some_
  have member : iId ∈ s.lists .free := by
    rw [free]
    exact List.mem_cons_self
  obtain ⟨status, was, here⟩ := (linked.listed .free iId).mp member
  obtain rfl : status = .CORO_FREE := CORO_STATUS.head_injective here
  let t := { s with usedSize := s.usedSize + 1 }
  have listed : t.Listed := ⟨linked.created, linked.listed, linked.nodup,
    linked.total⟩
  refine ⟨iId, was, ?_, listed.relink .CORO_AVAIL was, ?_, linked.grown,
    linked.bounded⟩
  · rw [takeFree, free]
    rfl
  · have used := listed.used_relink .CORO_AVAIL was
    rw [if_pos rfl, if_neg (by decide)] at used
    have total := linked.total
    have positive := List.length_pos_of_ne_nil some_
    have bound := s.uniqId.toNat_lt
    have same : t.used = s.used := rfl
    have usedSize : (s.started iId).usedSize = s.usedSize + 1 := rfl
    rw [usedSize, UInt32.toNat_add, linked.counted, Nat.mod_eq_of_lt]
    · rw [← same]
      exact used.symm
    · simp
      omega

/-- `go` gives up, or starts a free coroutine. -/
theorem go_linked (linked : s.Linked)
    (idle : s.all_coro = none → s.currentCoro = 0) :
    ∃ answer t, s.go = .ok (answer, t) ∧ t.Linked ∧ (Grown s t ∨
      ∃ u, Grown s u ∧ u.coro answer = some .CORO_FREE ∧
        t = u.started answer) := by
  obtain ⟨first, inited, linked', grown, exists_⟩ := initOnce_grown linked idle
  have take : ∀ {u}, u.Linked → Grown first u → u.lists .free ≠ [] →
      ∃ answer t, u.takeFree = .ok (answer, t) ∧ t.Linked ∧ (Grown s t ∨
        ∃ u, Grown s u ∧ u.coro answer = some .CORO_FREE ∧
          t = u.started answer) := by
    intro u linked'' more some_
    obtain ⟨iId, was, taken, kept⟩ := takeFree_linked linked'' some_
    exact ⟨iId, _, taken, kept, .inr ⟨u, grown.trans more, was, rfl⟩⟩
  rw [go, inited]
  by_cases more : first.usedSize ≥ first.currentSize ∨ first.lists .free = []
  · rcases increaseCoroPoolSize_grown linked' exists_ with
      full | ⟨u, increased, linked'', grown', some_⟩
    · refine ⟨0, first, ?_, linked', .inl grown⟩
      change (if _ then _ else _) = _
      rw [if_pos more, full]
      rfl
    · obtain ⟨answer, t, taken, kept⟩ := take linked'' grown' some_
      refine ⟨answer, t, ?_, kept⟩
      change (if _ then _ else _) = _
      rw [if_pos more, increased]
      exact taken
  · obtain ⟨answer, t, taken, kept⟩ :=
      take linked' (.refl first) fun none_ => more (.inr none_)
    refine ⟨answer, t, ?_, kept⟩
    change (if _ then _ else _) = _
    rw [if_neg more]
    exact taken

end TC_CoroutineScheduler

end TarsCpp.Coroutine
