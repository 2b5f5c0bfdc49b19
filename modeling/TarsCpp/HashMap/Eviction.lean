import TarsCpp.HashMap.TcHashMap

/-!
# What an eviction erases

Whatever the mode, the loop erases the other entries from the tail on, until
enough of them have been counted.  Each erased entry gives its block back.
-/

namespace TarsCpp.HashMap

def NoFree (allocator : MultiChunkAllocator) : Prop :=
  ∀ chunks ∈ allocator, ∀ chunk ∈ chunks, chunk.free = []

section Free

variable {allocator : MultiChunkAllocator} {chunks : List ChunkAllocator}

theorem takeFirst_none {fits : Nat → Bool}
    (missing : takeFirst fits chunks = none) :
    ∀ chunk ∈ chunks, fits chunk.blockSize = true → chunk.free = [] := by
  induction chunks with
  | nil => exact fun _ member => absurd member List.not_mem_nil
  | cons chunk chunks ih =>
      rw [takeFirst] at missing
      split at missing
      · cases missing
      · next other =>
          refine List.forall_mem_cons.mpr
            ⟨fun fitting => ?_, ih (Option.map_eq_none_iff.mp missing)⟩
          cases free : chunk.free with
          | nil => rfl
          | cons pAddr rest => exact absurd free (other pAddr rest fitting)

theorem takeFirst_some {fits : Nat → Bool} {pAddr size : Nat}
    {after : List ChunkAllocator}
    (taken : takeFirst fits chunks = some (pAddr, size, after)) :
    ∃ chunk ∈ chunks, pAddr ∈ chunk.free := by
  induction chunks generalizing after with
  | nil => cases taken
  | cons chunk chunks ih =>
      rw [takeFirst] at taken
      split at taken
      · next free =>
          cases taken
          refine ⟨chunk, List.mem_cons_self, ?_⟩
          rw [free]
          exact List.mem_cons_self
      · obtain ⟨⟨pAddr', size', after'⟩, taken', same⟩ :=
          Option.map_eq_some_iff.mp taken
        cases same
        obtain ⟨chunk', member, free⟩ := ih taken'
        exact ⟨chunk', List.mem_cons_of_mem _ member, free⟩

/-- There is no memory only when no block is free. -/
theorem noFree_of_allocate {iNeedSize : Nat}
    (missing : allocate iNeedSize allocator = none) : NoFree allocator := by
  induction allocator with
  | nil => exact fun _ member => absurd member List.not_mem_nil
  | cons chunks parts ih =>
      rw [allocate] at missing
      split at missing
      · cases missing
      · next large =>
          split at missing
          · cases missing
          · next small =>
              refine List.forall_mem_cons.mpr
                ⟨fun chunk member => ?_, ih (Option.map_eq_none_iff.mp missing)⟩
              by_cases fits : iNeedSize ≤ chunk.blockSize
              · exact takeFirst_none large chunk member (decide_eq_true fits)
              · exact takeFirst_none small chunk (List.mem_reverse.mpr member)
                  (decide_eq_true (Nat.not_le.mp fits))

theorem mem_free_of_allocate {iNeedSize pAddr size : Nat}
    {after : MultiChunkAllocator}
    (taken : allocate iNeedSize allocator = some (pAddr, size, after)) :
    ∃ chunks ∈ allocator, ∃ chunk ∈ chunks, pAddr ∈ chunk.free := by
  induction allocator generalizing after with
  | nil => cases taken
  | cons chunks parts ih =>
      rw [allocate] at taken
      split at taken
      · next large =>
          cases taken
          exact ⟨chunks, List.mem_cons_self, takeFirst_some large⟩
      · split at taken
        · next small =>
            cases taken
            obtain ⟨chunk, member, free⟩ := takeFirst_some small
            exact ⟨chunks, List.mem_cons_self, chunk,
              List.mem_reverse.mp member, free⟩
        · obtain ⟨⟨pAddr', size', after'⟩, taken', same⟩ :=
            Option.map_eq_some_iff.mp taken
          cases same
          obtain ⟨chunks', member, free⟩ := ih taken'
          exact ⟨chunks', List.mem_cons_of_mem _ member, free⟩

theorem allocate_of_noFree {iNeedSize : Nat} (noFree : NoFree allocator) :
    allocate iNeedSize allocator = none := by
  cases taken : allocate iNeedSize allocator with
  | none => rfl
  | some result =>
      obtain ⟨chunks, member, chunk, member', free⟩ :=
        mem_free_of_allocate taken
      rw [noFree chunks member chunk member'] at free
      exact absurd free List.not_mem_nil

/-- The address is that of a block of some size. -/
def Owned (allocator : MultiChunkAllocator) (pAddr : Nat) : Prop :=
  ∃ chunks ∈ allocator, ∃ chunk ∈ chunks, pAddr ∈ chunk.addresses

/-- A free block is a block, and no block has the address 0. -/
structure Consistent (allocator : MultiChunkAllocator) : Prop where
  free : ∀ chunks ∈ allocator, ∀ chunk ∈ chunks, ∀ pAddr ∈ chunk.free,
    pAddr ∈ chunk.addresses
  nonzero : ¬ Owned allocator 0

theorem allocate_nonzero (consistent : Consistent allocator)
    {iNeedSize pAddr size : Nat} {after : MultiChunkAllocator}
    (taken : allocate iNeedSize allocator = some (pAddr, size, after)) :
    pAddr ≠ 0 := by
  rintro rfl
  obtain ⟨chunks, member, chunk, member', free⟩ := mem_free_of_allocate taken
  exact consistent.nonzero ⟨chunks, member, chunk, member',
    consistent.free chunks member chunk member' 0 free⟩

theorem addresses_deallocate (pAddr : Nat) (chunk : ChunkAllocator) :
    (chunk.deallocate pAddr).addresses = chunk.addresses := by
  rw [ChunkAllocator.deallocate]
  split <;> rfl

theorem mem_free_deallocate {pAddr other : Nat} {chunk : ChunkAllocator} :
    other ∈ (chunk.deallocate pAddr).free ↔
      (other = pAddr ∧ pAddr ∈ chunk.addresses) ∨ other ∈ chunk.free := by
  rw [ChunkAllocator.deallocate]
  split
  · next own => simp [own]
  · next foreign => simp [foreign]

theorem owned_deallocate {pAddr other : Nat} :
    Owned (deallocate pAddr allocator) other ↔ Owned allocator other := by
  simp only [Owned, deallocate, List.mem_map, exists_exists_and_eq_and,
    addresses_deallocate]

theorem Consistent.deallocate (consistent : Consistent allocator)
    (pAddr : Nat) : Consistent (deallocate pAddr allocator) where
  free := by
    simp only [HashMap.deallocate, List.forall_mem_map, addresses_deallocate,
      mem_free_deallocate]
    rintro chunks member chunk member' other (⟨rfl, own⟩ | free)
    · exact own
    · exact consistent.free chunks member chunk member' other free
  nonzero := by
    rw [owned_deallocate]
    exact consistent.nonzero

theorem noFree_deallocate {pAddr : Nat} :
    NoFree (deallocate pAddr allocator) ↔
      NoFree allocator ∧ ¬ Owned allocator pAddr := by
  simp only [NoFree, Owned, deallocate, List.forall_mem_map,
    List.eq_nil_iff_forall_not_mem, mem_free_deallocate]
  constructor
  · intro none
    refine ⟨fun chunks member chunk member' other free => ?_, ?_⟩
    · exact none chunks member chunk member' other (Or.inr free)
    · rintro ⟨chunks, member, chunk, member', own⟩
      exact none chunks member chunk member' pAddr (Or.inl ⟨rfl, own⟩)
  · rintro ⟨none, foreign⟩ chunks member chunk member' other (⟨_, own⟩ | free)
    · exact foreign ⟨chunks, member, chunk, member', own⟩
    · exact none chunks member chunk member' other free

theorem owned_deallocateMemBlock (v : List Nat) {other : Nat} :
    Owned (deallocateMemBlock v allocator) other ↔ Owned allocator other := by
  induction v generalizing allocator with
  | nil => rfl
  | cons pAddr v ih => exact ih.trans owned_deallocate

theorem Consistent.deallocateMemBlock (consistent : Consistent allocator)
    (v : List Nat) : Consistent (deallocateMemBlock v allocator) := by
  induction v generalizing allocator with
  | nil => exact consistent
  | cons pAddr v ih => exact ih (consistent.deallocate pAddr)

theorem noFree_deallocateMemBlock (v : List Nat) :
    NoFree (deallocateMemBlock v allocator) ↔
      NoFree allocator ∧ ∀ pAddr ∈ v, ¬ Owned allocator pAddr := by
  induction v generalizing allocator with
  | nil => simp [deallocateMemBlock]
  | cons pAddr v ih =>
      have rest := @ih (deallocate pAddr allocator)
      rw [noFree_deallocate] at rest
      simp only [owned_deallocate] at rest
      rw [List.forall_mem_cons, ← and_assoc]
      exact rest

end Free

/-- The two lists have the same blocks of the allocator, each of them once. -/
structure Sound (map : TcHashMap) : Prop where
  distinct : map.setList.Nodup
  perm : map.getList.Perm map.setList
  owned : ∀ iAddr ∈ map.setList, Owned map.allocator iAddr
  consistent : Consistent map.allocator

/-- The entry is counted when it is erased. -/
def Counted (map : TcHashMap) (iAddr : Nat) : Bool :=
  (map.block iAddr).getBlockData.1 = .RT_OK ∨
    (map.block iAddr).getBlockData.1 = .RT_NO_DATA

/-- The entries other than the one that space is allocated for. -/
def others (map : TcHashMap) (iNowAddr : Nat) : List Nat :=
  map.order.filter (· ≠ iNowAddr)

/-- The entries from the front on until `d` of them are counted. -/
def evicted (counted : Nat → Bool) : Nat → List Nat → List Nat
  | _, [] => []
  | 0, _ => []
  | d + 1, iAddr :: rest =>
      iAddr :: evicted counted (if counted iAddr then d else d + 1) rest

theorem evicted_zero (counted : Nat → Bool) (rest : List Nat) :
    evicted counted 0 rest = [] := by
  cases rest <;> rfl

section Erasing

variable {map : TcHashMap} {iNowAddr iAddr : Nat}

theorem order_perm (sound : Sound map) : map.order.Perm map.setList := by
  rw [TcHashMap.order]
  split
  · exact List.Perm.refl _
  · exact sound.perm

theorem nodup_order (sound : Sound map) : map.order.Nodup :=
  (order_perm sound).nodup_iff.mpr sound.distinct

theorem order_erase : (map.erase iAddr).order = map.order.erase iAddr := by
  rw [TcHashMap.order, TcHashMap.order]
  exact (apply_ite (List.erase · iAddr) _ _ _).symm

theorem Sound.nonzero (sound : Sound map) (member : iAddr ∈ map.order) :
    iAddr ≠ 0 := by
  rintro rfl
  exact sound.consistent.nonzero
    (sound.owned 0 ((order_perm sound).mem_iff.mp member))

theorem Sound.erase (sound : Sound map) (iAddr : Nat) :
    Sound (map.erase iAddr) where
  distinct := sound.distinct.erase iAddr
  perm := sound.perm.erase iAddr
  owned := by
    intro other member
    exact (owned_deallocateMemBlock _).mpr
      (sound.owned other (List.mem_of_mem_erase member))
  consistent := sound.consistent.deallocateMemBlock _

/-- An erased entry gives a block back. -/
theorem not_noFree_erase (sound : Sound map) (member : iAddr ∈ map.order) :
    ¬ NoFree (map.erase iAddr).allocator := by
  intro noFree
  have none := ((noFree_deallocateMemBlock _).mp noFree).2
  exact none iAddr (by simp)
    (sound.owned iAddr ((order_perm sound).mem_iff.mp member))

theorem noFree_of_erase (noFree : NoFree (map.erase iAddr).allocator) :
    NoFree map.allocator :=
  ((noFree_deallocateMemBlock _).mp noFree).1

/-- The first of the others is erased. -/
theorem victim_eq (sound : Sound map) :
    map.victim iNowAddr = (others map iNowAddr).headD 0 := by
  have distinct := nodup_order sound
  have nonzero : ∀ iAddr ∈ map.order, iAddr ≠ 0 :=
    fun _ => sound.nonzero
  rw [TcHashMap.victim, others]
  cases shape : map.order with
  | nil => rfl
  | cons first rest =>
      rw [shape] at distinct nonzero
      have some := nonzero first List.mem_cons_self
      by_cases now : iNowAddr = first
      · subst now
        have fresh := (List.nodup_cons.mp distinct).1
        have all : rest.filter (· ≠ iNowAddr) = rest := by
          refine List.filter_eq_self.mpr fun other member => ?_
          exact decide_eq_true fun same => fresh (same ▸ member)
        rw [List.filter_cons_of_neg (by simp), all]
        simp [some]
      · rw [List.filter_cons_of_pos (by simpa using Ne.symm now)]
        simp [some, now]

theorem others_erase (sound : Sound map) {rest : List Nat}
    (shape : others map iNowAddr = iAddr :: rest) :
    others (map.erase iAddr) iNowAddr = rest := by
  have distinct := (nodup_order sound).filter (· ≠ iNowAddr)
  have swapped : (map.order.erase iAddr).filter (· ≠ iNowAddr) =
      (map.order.filter (· ≠ iNowAddr)).filter (· ≠ iAddr) := by
    rw [(nodup_order sound).erase_eq_filter, List.filter_comm]
    refine List.filter_congr fun other _ => ?_
    by_cases same : other = iAddr <;> simp [same]
  rw [others, order_erase, swapped]
  rw [others] at shape
  rw [shape] at distinct ⊢
  rw [List.filter_cons_of_neg (by simp)]
  refine List.filter_eq_self.mpr fun other member => ?_
  exact decide_eq_true fun same =>
    (List.nodup_cons.mp distinct).1 (same ▸ member)

theorem mem_others (sound : Sound map) {other : Nat} :
    other ∈ others map iNowAddr ↔ other ∈ map.setList ∧ other ≠ iNowAddr := by
  rw [others, List.mem_filter, (order_perm sound).mem_iff, decide_eq_true_iff]

end Erasing

def eraseAll (map : TcHashMap) (v : List Nat) : TcHashMap :=
  v.foldl TcHashMap.erase map

/-- One turn of the loop. -/
theorem eraseLoop_turn {iNowAddr d : Nat} {map : TcHashMap} (turns : Nat)
    (vtData : List BlockData) (more : d ≠ 0) (some : map.victim iNowAddr ≠ 0) :
    ∃ vtData', TcHashMap.eraseLoop iNowAddr (turns + 1) d map vtData =
      TcHashMap.eraseLoop iNowAddr turns
        (if Counted map (map.victim iNowAddr) then d - 1 else d)
        (map.erase (map.victim iNowAddr)) vtData' := by
  have goes : ¬ (d = 0 ∨ map.victim iNowAddr = 0) := not_or.mpr ⟨more, some⟩
  simp only [TcHashMap.eraseLoop, if_neg goes, Counted, decide_eq_true_iff]
  exact ⟨_, rfl⟩

/-- The others are erased until `d` of them have been counted. -/
theorem eraseLoop_eq {iNowAddr d : Nat} {map : TcHashMap} (turns : Nat)
    (vtData : List BlockData) (sound : Sound map)
    (enough : (others map iNowAddr).length < turns) :
    ∃ vtData', TcHashMap.eraseLoop iNowAddr turns d map vtData =
      some (eraseAll map (evicted (Counted map) d (others map iNowAddr)),
        vtData', d - (others map iNowAddr).countP (Counted map)) := by
  induction turns generalizing d map vtData with
  | zero => exact absurd enough (Nat.not_lt_zero _)
  | succ turns ih =>
      have first := @victim_eq map iNowAddr sound
      cases shape : others map iNowAddr with
      | nil =>
          rw [shape, List.headD_nil] at first
          refine ⟨vtData, ?_⟩
          rw [TcHashMap.eraseLoop, if_pos (Or.inr first), evicted,
            List.countP_nil]
          rfl
      | cons iAddr rest =>
          rw [shape, List.headD_cons] at first
          have member : iAddr ∈ map.order := by
            have kept : iAddr ∈ others map iNowAddr := by
              rw [shape]
              exact List.mem_cons_self
            exact (List.mem_filter.mp kept).1
          cases d with
          | zero =>
              refine ⟨vtData, ?_⟩
              rw [TcHashMap.eraseLoop, if_pos (Or.inl rfl), evicted_zero,
                Nat.zero_sub]
              rfl
          | succ d =>
              have left := others_erase sound shape
              have shorter :
                  (others (map.erase iAddr) iNowAddr).length < turns := by
                rw [shape, List.length_cons] at enough
                rw [left]
                exact Nat.lt_of_succ_lt_succ enough
              have same : Counted (map.erase iAddr) = Counted map := rfl
              obtain ⟨vtData', turn⟩ := eraseLoop_turn turns vtData
                (Nat.succ_ne_zero d) (first ▸ sound.nonzero member)
              rw [first] at turn
              obtain ⟨vtData'', run⟩ :=
                @ih (if Counted map iAddr then d else d + 1) _ vtData'
                  (sound.erase iAddr) shorter
              rw [left, same] at run
              refine ⟨vtData'', turn.trans (run.trans ?_)⟩
              rw [evicted, List.countP_cons, eraseAll, eraseAll,
                List.foldl_cons]
              cases Counted map iAddr
              · simp
              · simp

section EraseAll

variable {map : TcHashMap} {iNowAddr : Nat} {v : List Nat}

theorem Sound.eraseAll (sound : Sound map) : Sound (eraseAll map v) := by
  induction v generalizing map with
  | nil => exact sound
  | cons iAddr v ih => exact ih (sound.erase iAddr)

theorem noFree_of_eraseAll (noFree : NoFree (eraseAll map v).allocator) :
    NoFree map.allocator := by
  induction v generalizing map with
  | nil => exact noFree
  | cons iAddr v ih => exact noFree_of_erase (ih noFree)

theorem autoErase_eraseAll :
    (eraseAll map v)._bAutoErase = map._bAutoErase := by
  induction v generalizing map with
  | nil => rfl
  | cons iAddr v ih => exact @ih (map.erase iAddr)

theorem others_eraseAll {rest : List Nat} (sound : Sound map)
    (shape : others map iNowAddr = v ++ rest) :
    others (eraseAll map v) iNowAddr = rest := by
  induction v generalizing map with
  | nil => exact shape
  | cons iAddr v ih => exact ih (sound.erase iAddr) (others_erase sound shape)

theorem noFree_eraseAll_evicted {d : Nat} (sound : Sound map) (some : d ≠ 0) :
    NoFree (eraseAll map
      (evicted (Counted map) d (others map iNowAddr))).allocator ↔
      NoFree map.allocator ∧ others map iNowAddr = [] := by
  cases shape : others map iNowAddr with
  | nil => simp [evicted, eraseAll]
  | cons iAddr rest =>
      obtain ⟨d, rfl⟩ := Nat.exists_eq_succ_of_ne_zero some
      have kept : iAddr ∈ others map iNowAddr := by
        rw [shape]
        exact List.mem_cons_self
      have member := (List.mem_filter.mp kept).1
      refine iff_of_false (fun noFree => ?_) (fun both => nomatch both.2)
      rw [evicted] at noFree
      exact not_noFree_erase sound member (noFree_of_eraseAll noFree)

theorem evicted_uncounted {counted : Nat → Bool} {d : Nat} {rest : List Nat}
    (uncounted : ∀ iAddr ∈ rest, counted iAddr = false) (some : d ≠ 0) :
    evicted counted d rest = rest := by
  obtain ⟨d, rfl⟩ := Nat.exists_eq_succ_of_ne_zero some
  induction rest with
  | nil => rfl
  | cons iAddr rest ih =>
      obtain ⟨here, uncounted⟩ := List.forall_mem_cons.mp uncounted
      rw [evicted, here, if_neg Bool.false_ne_true, ih uncounted]

/-- What a call of `eraseExcept` makes of the map. -/
structure Evicts (iNowAddr : Nat) (map after : TcHashMap) (ret : Nat) :
    Prop where
  sound : Sound after
  auto : after._bAutoErase = map._bAutoErase
  none : ret = 0 → others after iNowAddr = []
  uncounted : ret = 0 ↔
    ∀ iAddr ∈ others map iNowAddr, Counted map iAddr = false
  free : NoFree after.allocator ↔
    NoFree map.allocator ∧ others map iNowAddr = []

theorem evicts_eraseExcept (sound : Sound map) (auto : map._bAutoErase = true)
    (vtData : List BlockData) :
    ∃ after vtData' ret, map.eraseExcept iNowAddr vtData =
      some (after, vtData', ret) ∧ Evicts iNowAddr map after ret := by
  have few : (others map iNowAddr).length < map.order.length + 1 :=
    Nat.lt_succ_of_le (List.length_filter_le _ _)
  rw [TcHashMap.eraseExcept, if_neg (not_not_intro auto)]
  set n := if map._iEraseCount = 0 then 10 else map._iEraseCount with count
  have some : n ≠ 0 := by
    rw [count]
    split
    · exact Nat.succ_ne_zero 9
    · assumption
  obtain ⟨vtData', run⟩ := eraseLoop_eq (d := n) _ vtData sound few
  have uncounted : n - (n - (others map iNowAddr).countP (Counted map)) = 0 ↔
      ∀ iAddr ∈ others map iNowAddr, Counted map iAddr = false := by
    have returned : n - (n - (others map iNowAddr).countP (Counted map)) = 0 ↔
        (others map iNowAddr).countP (Counted map) = 0 := by omega
    rw [returned, List.countP_eq_zero]
    simp only [Bool.not_eq_true]
  refine ⟨_, vtData', _, congrArg (· >>= _) run, ?_⟩
  exact {
    sound := sound.eraseAll
    auto := autoErase_eraseAll
    none := fun zero => by
      refine others_eraseAll sound ?_
      rw [evicted_uncounted (uncounted.mp zero) some, List.append_nil]
    uncounted := uncounted
    free := noFree_eraseAll_evicted sound some }

end EraseAll

end TarsCpp.HashMap
