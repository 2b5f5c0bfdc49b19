import TarsCpp.HashMap.Eviction

/-!
# Progress of the eviction
-/

namespace TarsCpp.HashMap

/-- The call comes to its end, and there is no memory only when no block is
free and the map has no other entry. -/
def Progress (iNowAddr : Nat)
    (call : Option (TcHashMap × List BlockData × Nat × Nat)) : Prop :=
  ∃ map vtData iAddr iAllocSize,
    call = some (map, vtData, iAddr, iAllocSize) ∧
      (iAddr = 0 → NoFree map.allocator ∧
        ∀ other ∈ map.setList, other = iNowAddr)

/-- The entry has more than a key, and what it has can be read. -/
def Readable (block : Block) : Prop :=
  block._bOnlyKey = false ∧
    ∃ key rest, readString block.get = some (key, rest) ∧
      (readString rest).isSome

/-- No block is free, and there are other entries, none of them readable. -/
structure Stuck (iNowAddr : Nat) (map : TcHashMap) : Prop where
  noFree : NoFree map.allocator
  entry : ∃ iAddr ∈ map.setList, iAddr ≠ iNowAddr
  unreadable : ∀ iAddr ∈ map.setList, iAddr ≠ iNowAddr →
    ¬ Readable (map.block iAddr)

theorem counted_iff {map : TcHashMap} {iAddr : Nat} :
    Counted map iAddr = true ↔ Readable (map.block iAddr) := by
  rw [Counted, decide_eq_true_iff, Block.getBlockData, Readable]
  cases keyRead : readString (map.block iAddr).get with
  | none => simp
  | some read =>
      obtain ⟨key, rest⟩ := read
      cases only : (map.block iAddr)._bOnlyKey with
      | true => simp
      | false =>
          cases valueRead : readString rest with
          | none => simp [valueRead]
          | some value => simp [valueRead]

section Progress

variable {map : TcHashMap} {iNowAddr : Nat}

theorem stuck_iff (sound : Sound map) :
    Stuck iNowAddr map ↔ NoFree map.allocator ∧ others map iNowAddr ≠ [] ∧
      ∀ iAddr ∈ others map iNowAddr, Counted map iAddr = false := by
  have unread : ∀ iAddr, Counted map iAddr = false ↔
      ¬ Readable (map.block iAddr) := fun iAddr => by
    rw [← counted_iff, Bool.not_eq_true]
  have entry : others map iNowAddr ≠ [] ↔
      ∃ iAddr ∈ map.setList, iAddr ≠ iNowAddr := by
    simp only [ne_eq, List.eq_nil_iff_forall_not_mem, mem_others sound,
      not_forall, not_not]
  simp only [entry, mem_others sound, unread, and_imp]
  exact ⟨fun stuck => ⟨stuck.noFree, stuck.entry, stuck.unreadable⟩,
    fun ⟨noFree, entry, unreadable⟩ => ⟨noFree, entry, unreadable⟩⟩

/-- A call that allocates comes to its end. -/
theorem allocateLoop_of_free {iAllocSize : Nat} (turns : Nat)
    (vtData : List BlockData) (sound : Sound map)
    (free : ¬ NoFree map.allocator) :
    ∃ after pAddr size,
      TcHashMap.allocateLoop iNowAddr (turns + 1) iAllocSize map vtData =
        some (after, vtData, pAddr, size) ∧ pAddr ≠ 0 := by
  cases taken : allocate iAllocSize map.allocator with
  | none => exact absurd (noFree_of_allocate taken) free
  | some result =>
      obtain ⟨pAddr, size, allocator⟩ := result
      refine ⟨{ map with allocator }, pAddr, size, ?_,
        allocate_nonzero sound.consistent taken⟩
      rw [TcHashMap.allocateLoop, taken]

/-- Without a free block the loop comes to its end after one eviction. -/
theorem progress_allocateLoop (iAllocSize : Nat) (vtData : List BlockData)
    (sound : Sound map) (auto : map._bAutoErase = true) :
    Progress iNowAddr (TcHashMap.allocateLoop iNowAddr (map.order.length + 1)
      iAllocSize map vtData) ↔ ¬ Stuck iNowAddr map := by
  by_cases full : NoFree map.allocator
  swap
  · obtain ⟨after, pAddr, size, run, some⟩ :=
      allocateLoop_of_free map.order.length vtData sound full
    refine iff_of_true ⟨_, _, _, _, run, fun zero => absurd zero some⟩ ?_
    exact fun stuck => full stuck.noFree
  obtain ⟨after, vtData', ret, erased, evicts⟩ :=
    @evicts_eraseExcept map iNowAddr sound auto vtData
  have missing := @allocate_of_noFree map.allocator iAllocSize full
  by_cases zero : ret = 0
  · have run : TcHashMap.allocateLoop iNowAddr (map.order.length + 1)
        iAllocSize map vtData = some (after, vtData', 0, iAllocSize) := by
      rw [TcHashMap.allocateLoop, missing]
      exact (congrArg (· >>= _) erased).trans (if_pos zero)
    have none : ∀ other ∈ after.setList, other = iNowAddr := by
      intro other member
      by_contra different
      have left := (mem_others evicts.sound).mpr ⟨member, different⟩
      rw [evicts.none zero] at left
      exact List.not_mem_nil left
    rw [stuck_iff sound]
    constructor
    · rintro ⟨_, _, _, _, call, reached⟩ ⟨_, other, _⟩
      cases run.symm.trans call
      exact other (evicts.free.mp (reached rfl).1).2
    · intro free
      refine ⟨_, _, _, _, run, fun _ => ⟨evicts.free.mpr ⟨full, ?_⟩, none⟩⟩
      by_contra other
      exact free ⟨full, other, evicts.uncounted.mp zero⟩
  · have other : others map iNowAddr ≠ [] := by
      intro empty
      refine zero (evicts.uncounted.mpr ?_)
      rw [empty]
      exact fun _ member => absurd member List.not_mem_nil
    have free : ¬ NoFree after.allocator :=
      fun noFree => other (evicts.free.mp noFree).2
    have turns : ∃ turns, map.order.length = turns + 1 := by
      refine Nat.exists_eq_succ_of_ne_zero fun length => other ?_
      rw [others, List.length_eq_zero_iff.mp length, List.filter_nil]
    obtain ⟨turns, length⟩ := turns
    obtain ⟨final, pAddr, size, next, some⟩ :=
      @allocateLoop_of_free after iNowAddr iAllocSize turns vtData'
        evicts.sound free
    have run : TcHashMap.allocateLoop iNowAddr (map.order.length + 1)
        iAllocSize map vtData = Option.some (final, vtData', pAddr, size) := by
      rw [TcHashMap.allocateLoop, missing, length]
      exact ((congrArg (· >>= _) erased).trans (if_neg zero)).trans next
    refine iff_of_true ⟨_, _, _, _, run, fun none => absurd none some⟩ ?_
    intro stuck
    exact zero (evicts.uncounted.mpr ((stuck_iff sound).mp stuck).2.2)

end Progress

/-- An eviction goes on for as long as there is something to erase, unless no
other entry is readable. -/
theorem progress_iff {map : TcHashMap} (sound : Sound map)
    (auto : map._bAutoErase = true) :
    (∀ iAddr iAllocSize vtData,
      Progress iAddr (map.allocateChunk iAddr iAllocSize vtData) ↔
        ¬ Stuck iAddr map) ∧
    ∀ iAllocSize vtData,
      Progress 0 (map.allocateMemBlock iAllocSize vtData) ↔ ¬ Stuck 0 map := by
  refine ⟨fun iAddr iAllocSize vtData =>
    progress_allocateLoop iAllocSize vtData sound auto,
    fun iAllocSize vtData => ?_⟩
  rw [← progress_allocateLoop iAllocSize vtData sound auto,
    TcHashMap.allocateMemBlock]
  cases run : TcHashMap.allocateLoop 0 (map.order.length + 1) iAllocSize map
      vtData with
  | none => rfl
  | some result =>
      obtain ⟨after, vtData', iAddr, size⟩ := result
      by_cases zero : iAddr = 0
      · subst zero
        rfl
      · refine iff_of_true
          ⟨after.makeNew iAddr, vtData', iAddr, size, if_neg zero, ?_⟩
          ⟨after, vtData', iAddr, size, rfl, ?_⟩
        · exact fun none => absurd none zero
        · exact fun none => absurd none zero

/-- One entry with a key only, at the address 1, in the only block. -/
def single : TcHashMap where
  allocator := [[{ blockSize := 64, addresses := [1], free := [] }]]
  block := fun _ =>
    { data := [1, 97], chunks := [], _iSyncTime := 0, _bDirty := false
      _bOnlyKey := true }
  setList := [1]
  getList := [1]
  _bAutoErase := true
  _cEraseMode := ERASEBYSET
  _iEraseCount := 0

theorem sound_single : Sound single where
  distinct := by decide
  perm := List.Perm.refl _
  owned := by
    intro iAddr member
    exact ⟨_, List.mem_cons_self, _, List.mem_cons_self, member⟩
  consistent := {
    free := by simp [single]
    nonzero := by simp [Owned, single] }

theorem stuck_single : Stuck 0 single where
  noFree := by simp [NoFree, single]
  entry := ⟨1, List.mem_cons_self, Nat.one_ne_zero⟩
  unreadable := fun _ _ _ readable => nomatch readable.1

/-- Beside that entry one with a value, at the address 2, in the other
block. -/
def pair : TcHashMap where
  allocator := [[{ blockSize := 64, addresses := [1, 2], free := [] }]]
  block := fun iAddr =>
    { data := if iAddr = 2 then [1, 98, 1, 99] else [1, 97]
      chunks := [], _iSyncTime := 0, _bDirty := false
      _bOnlyKey := decide (iAddr ≠ 2) }
  setList := [1, 2]
  getList := [2, 1]
  _bAutoErase := true
  _cEraseMode := ERASEBYSET
  _iEraseCount := 0

theorem sound_pair : Sound pair where
  distinct := by decide
  perm := List.Perm.swap _ _ _
  owned := by
    intro iAddr member
    exact ⟨_, List.mem_cons_self, _, List.mem_cons_self, member⟩
  consistent := {
    free := by simp [pair]
    nonzero := by simp [Owned, pair] }

/-- While the entry with the key grows, the other one is evicted and handed
back to it; alone in its map it is in the way of a second entry. -/
theorem progress_pair :
    (∃ map vtData, pair.allocateChunk 1 64 [] = some (map, vtData, 2, 64) ∧
      map.setList = [1] ∧ vtData.map BlockData._key = [[98]]) ∧
    Progress 1 (pair.allocateChunk 1 64 []) ∧
      ¬ Progress 0 (single.allocateMemBlock 64 []) := by
  refine ⟨⟨_, _, rfl, rfl, rfl⟩,
    ((progress_iff sound_pair rfl).1 1 64 []).mpr fun stuck => ?_,
    fun progress =>
      ((progress_iff sound_single rfl).2 64 []).mp progress stuck_single⟩
  refine stuck.unreadable 2 (by decide) (by decide) ⟨rfl, ?_⟩
  exact ⟨[98], [1, 99], rfl, rfl⟩

/-- The entry is erased and its block is free, yet there is no memory. -/
theorem no_memory_single :
    Sound single ∧ single._bAutoErase = true ∧
      single.allocateMemBlock 64 [] = some (single.erase 1, [], 0, 64) ∧
      1 ∈ (single.erase 1).allocator.flatMap (·.flatMap (·.free)) ∧
      ¬ Progress 0 (single.allocateMemBlock 64 []) := by
  have call : single.allocateMemBlock 64 [] =
      some (single.erase 1, [], 0, 64) := rfl
  refine ⟨sound_single, rfl, call, by decide, ?_⟩
  rintro ⟨_, _, _, _, same, reached⟩
  cases call.symm.trans same
  have none := (reached rfl).1 _ List.mem_cons_self _ List.mem_cons_self
  exact List.cons_ne_nil _ _ none

end TarsCpp.HashMap
