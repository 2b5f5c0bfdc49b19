import TarsCpp.MemChunk.Appending

/-!
# Live blocks

Processes allocate and release blocks, write into the blocks they own, connect
and append memory, in any order.  The live blocks are exactly the ones that
are not free, whatever happened before.
-/

namespace TarsCpp

namespace MemChunk

open Interruption FlatMemory TcMemMultiChunkAllocator TransitionRun

/-- The memory, the object of the process that works on it, and the blocks
handed out and not yet released. -/
structure State where
  memory : Memory
  allocator : TcMemMultiChunkAllocator
  live : List Allocated

inductive Event
  | allocate (iNeedSize : Nat) (found : Option Allocated)
  | deallocate (block : Allocated)
  | deallocate2 (block : Allocated)
  | append (size : Nat)
  | connect
  /-- The owner writes into its block. -/
  | use (block : Allocated)
  /-- Whatever happens in the memory outside of the parts. -/
  | elsewhere

/-- Outside of an interval anything may have happened, and memory may have
been added. -/
structure ChangedOutside (address count : Nat) (memory after : Memory) :
    Prop where
  grows : memory.size ≤ after.size
  addressable : after.size < 2 ^ 64
  same : SameOn address count memory after

inductive Step (factor : Factor) (pAddr : Nat) :
    State → Event → State → Prop
  | allocate {memory allocator live iNeedSize found after} :
      (allocate2 iNeedSize allocator).run ⟨memory, none⟩ =
        .ok found ⟨after, none⟩ →
      Step factor pAddr ⟨memory, allocator, live⟩
        (.allocate iNeedSize found)
        ⟨after, allocator, found.toList ++ live⟩
  | deallocate {memory allocator live block after} :
      block ∈ live →
      (deallocate block.pAddr allocator).run ⟨memory, none⟩ =
        .ok () ⟨after, none⟩ →
      Step factor pAddr ⟨memory, allocator, live⟩ (.deallocate block)
        ⟨after, allocator, live.erase block⟩
  | deallocate2 {memory allocator live block after} :
      block ∈ live →
      (deallocate2 block.iIndex allocator).run ⟨memory, none⟩ =
        .ok () ⟨after, none⟩ →
      Step factor pAddr ⟨memory, allocator, live⟩ (.deallocate2 block)
        ⟨after, allocator, live.erase block⟩
  | append {memory allocator live size allocator' after} :
      size < 2 ^ 64 →
      (append factor pAddr size).run ⟨memory, none⟩ =
        .ok allocator' ⟨after, none⟩ →
      Step factor pAddr ⟨memory, allocator, live⟩ (.append size)
        ⟨after, allocator', live⟩
  | connect {memory allocator live allocator' after} :
      (connect factor pAddr).run ⟨memory, none⟩ =
        .ok allocator' ⟨after, none⟩ →
      Step factor pAddr ⟨memory, allocator, live⟩ .connect
        ⟨after, allocator', live⟩
  | use {memory allocator live block after} :
      block ∈ live →
      ChangedWithin block.pAddr (block.pAddr + block.iAllocSize) memory
        after →
      Step factor pAddr ⟨memory, allocator, live⟩ (.use block)
        ⟨after, allocator, live⟩
  | elsewhere {memory allocator live after} :
      ChangedOutside pAddr (memory.word 8 (pAddr + 8)) memory after →
      Step factor pAddr ⟨memory, allocator, live⟩ .elsewhere
        ⟨after, allocator, live⟩

/-- The heads of a part and of its areas, with their lengths. -/
def headsOf (part : Part) : List (Nat × Nat) :=
  (part.pHead, getHeadSize) :: part.allocator.map fun allocator =>
    (allocator.pHead, TcMemChunkAllocator.getHeadSize +
      TcMemChunk.getHeadSize)

/-- All blocks of a part, with their sizes. -/
def blocksOf (part : Part) : List (Nat × Nat) :=
  (part.allocator.zip part.vBlockSize).flatMap fun (allocator, blockSize) =>
    (List.range part.iBlockCount).map fun i =>
      (allocator.chunk.pData + i * blockSize, blockSize)

/-- What the users of an allocator rely on. -/
structure Sound (factor : Factor) (pAddr : Nat) (state : State) : Prop where
  disjoint : state.live.Pairwise fun block other =>
    block.pAddr + block.iAllocSize ≤ other.pAddr ∨
      other.pAddr + other.iAllocSize ≤ block.pAddr
  managed : ∀ block ∈ state.live, pAddr ≤ block.pAddr ∧
    block.pAddr + block.iAllocSize ≤
      pAddr + state.memory.word 8 (pAddr + 8) ∧
    block.pAddr + block.iAllocSize ≤ state.memory.size
  outsideHeads : ∀ block ∈ state.live,
    ∀ head ∈ state.allocator.flatMap headsOf,
      block.pAddr + block.iAllocSize ≤ head.1 ∨
        head.1 + head.2 ≤ block.pAddr
  connected : Yields (connect factor pAddr) state.memory state.allocator
  /-- An allocation never fails with an assertion, and refuses only when no
  block is left. -/
  allocation : ∀ iNeedSize, ∃ found after,
    (allocate2 iNeedSize state.allocator).run ⟨state.memory, none⟩ =
      .ok found ⟨after, none⟩ ∧
    (found = none → ∀ all ∈ state.allocator.flatMap blocksOf,
      ∃ block ∈ state.live, (block.pAddr, block.iAllocSize) = all)
  relative : ∀ block ∈ state.live,
    Yields (getRelative block.pAddr state.allocator) state.memory
      block.iIndex
  absolute : ∀ block ∈ state.live,
    Yields (getAbsolute block.iIndex state.allocator) state.memory
      (some block.pAddr)
  release : ∀ block ∈ state.live,
    SameRun (deallocate block.pAddr state.allocator)
      (deallocate2 block.iIndex state.allocator) state.memory ∧
    ∃ after, (deallocate block.pAddr state.allocator).run
      ⟨state.memory, none⟩ = .ok () ⟨after, none⟩

/-- The live blocks are the ones that are not free. -/
structure Accounted (factor : Factor) (pAddr : Nat) (state : State)
    (layouts : List PartLayout) (free : ClassArea → List Nat) : Prop where
  pool : Pool factor state.memory free pAddr layouts
  object : state.allocator = layouts.map (PartLayout.object factor)
  distinct : state.live.Nodup
  live : ∀ block, block ∈ state.live ↔
    ∃ member ∈ poolClasses factor layouts, ∃ k < member.area.blockCount,
      k ∉ free member.area ∧ block = member.allocated k

section Steps

variable {factor : Factor} {pAddr : Nat} {memory after : Memory}
  {allocator : TcMemMultiChunkAllocator} {live : List Allocated}
  {layouts : List PartLayout} {free : ClassArea → List Nat}

theorem allocated_inj {member other : PoolClass} {k l : Nat}
    (pool : Pool factor memory free pAddr layouts)
    (listed : member ∈ poolClasses factor layouts)
    (listed' : other ∈ poolClasses factor layouts)
    (inside : k < member.area.blockCount) (inside' : l < other.area.blockCount)
    (same : member.allocated k = other.allocated l) :
    member = other ∧ k = l := by
  have address : member.area.block k = other.area.block l :=
    congrArg Allocated.pAddr same
  obtain ⟨linked, _⟩ := mem_pool pool.formatted listed
  have wide := linked.wide
  by_cases areas : other.area = member.area
  · have members := member_of_area pool.formatted listed listed' areas
    subst members
    refine ⟨rfl, ?_⟩
    rcases Nat.lt_trichotomy k l with less | equal | greater
    · have := other.area.block_apart less
      omega
    · exact equal
    · have := other.area.block_apart greater
      omega
  · have low := member.area.start_add_heads_le_block k
    have high := member.area.block_stop inside
    have low' := other.area.start_add_heads_le_block l
    have high' := other.area.block_stop inside'
    have apart := area_apart pool.formatted listed listed' areas
    have heads : ClassArea.headsSize = 48 := rfl
    omega

theorem Accounted.alive_iff {member : PoolClass} {k : Nat}
    (accounted : Accounted factor pAddr ⟨memory, allocator, live⟩ layouts
      free)
    (listed : member ∈ poolClasses factor layouts)
    (inside : k < member.area.blockCount) :
    member.allocated k ∈ live ↔ k ∉ free member.area := by
  constructor
  · intro alive
    obtain ⟨other, listed', l, inside', notFree, same⟩ :=
      (accounted.live _).mp alive
    obtain ⟨rfl, rfl⟩ := allocated_inj accounted.pool listed listed' inside
      inside' same
    exact notFree
  · intro notFree
    exact (accounted.live _).mpr ⟨member, listed, k, inside, notFree, rfl⟩

/-- The blocks of one area are linked in another way. -/
theorem Accounted.relisted {member : PoolClass} {list : List Nat}
    {live' : List Allocated}
    (accounted : Accounted factor pAddr ⟨memory, allocator, live⟩ layouts
      free)
    (listed : member ∈ poolClasses factor layouts)
    (linked : Linked after member.area list)
    (changed : ChangedWithin member.area.start member.area.stop memory after)
    (distinct : live'.Nodup)
    (blocks : ∀ block ∈ live', ∃ other ∈ poolClasses factor layouts,
      ∃ k < other.area.blockCount, block = other.allocated k)
    (own : ∀ k < member.area.blockCount,
      member.allocated k ∈ live' ↔ k ∉ list)
    (others : ∀ other ∈ poolClasses factor layouts,
      other.area ≠ member.area → ∀ k < other.area.blockCount,
        (other.allocated k ∈ live' ↔ other.allocated k ∈ live)) :
    Accounted factor pAddr ⟨after, allocator, live'⟩ layouts
      (Function.update free member.area list) where
  pool := accounted.pool.relinked listed linked changed
  object := accounted.object
  distinct := distinct
  live := by
    have each : ∀ other ∈ poolClasses factor layouts,
        ∀ k < other.area.blockCount, other.allocated k ∈ live' ↔
          k ∉ Function.update free member.area list other.area := by
      intro other listed' k inside
      by_cases same : other.area = member.area
      · obtain rfl := member_of_area accounted.pool.formatted listed listed'
          same
        rw [Function.update_self]
        exact own k inside
      · rw [Function.update_of_ne same, others other listed' same k inside]
        exact accounted.alive_iff listed' inside
    intro block
    constructor
    · intro alive
      obtain ⟨other, listed', k, inside, rfl⟩ := blocks block alive
      exact ⟨other, listed', k, inside,
        (each other listed' k inside).mp alive, rfl⟩
    · rintro ⟨other, listed', k, inside, notFree, rfl⟩
      exact (each other listed' k inside).mpr notFree

theorem Accounted.blocks (accounted : Accounted factor pAddr
      ⟨memory, allocator, live⟩ layouts free) {block : Allocated}
    (alive : block ∈ live) : ∃ other ∈ poolClasses factor layouts,
      ∃ k < other.area.blockCount, block = other.allocated k := by
  obtain ⟨other, listed, k, inside, _, same⟩ :=
    (accounted.live block).mp alive
  exact ⟨other, listed, k, inside, same⟩

/-- A block from the front of a free list comes to life. -/
theorem Accounted.allocated {member : PoolClass} {k : Nat} {later : List Nat}
    (accounted : Accounted factor pAddr ⟨memory, allocator, live⟩ layouts
      free)
    (listed : member ∈ poolClasses factor layouts)
    (available : free member.area = k :: later)
    (linked : Linked after member.area later)
    (changed : ChangedWithin member.area.start member.area.stop memory
      after) :
    Accounted factor pAddr ⟨after, allocator, member.allocated k :: live⟩
      layouts (Function.update free member.area later) := by
  obtain ⟨before, _⟩ := mem_pool accounted.pool.formatted listed
  rw [available] at before
  have inside := before.bounded k List.mem_cons_self
  have fresh : member.allocated k ∉ live := by
    rw [accounted.alive_iff listed inside, available]
    exact fun absurdity => absurdity List.mem_cons_self
  obtain ⟨missing, _⟩ := List.nodup_cons.mp before.distinct
  refine accounted.relisted listed linked changed
    (List.nodup_cons.mpr ⟨fresh, accounted.distinct⟩) ?_ ?_ ?_
  · intro block alive
    rcases List.mem_cons.mp alive with rfl | alive
    · exact ⟨member, listed, k, inside, rfl⟩
    · exact accounted.blocks alive
  · intro l inside'
    have alive := accounted.alive_iff listed inside'
    rw [available] at alive
    rw [List.mem_cons, alive, List.mem_cons]
    by_cases same : l = k
    · subst same
      exact ⟨fun _ => missing, fun _ => Or.inl rfl⟩
    · have different : member.allocated l ≠ member.allocated k :=
        fun equal => same (allocated_inj accounted.pool listed listed inside'
          inside equal).2
      simp [same, different]
  · intro other listed' apart l inside'
    have different : other.allocated l ≠ member.allocated k := by
      intro equal
      obtain ⟨rfl, _⟩ := allocated_inj accounted.pool listed' listed inside'
        inside equal
      exact apart rfl
    rw [List.mem_cons]
    exact ⟨fun either => either.resolve_left different, Or.inr⟩

/-- A released block comes to the front of its free list. -/
theorem Accounted.released {member : PoolClass} {k : Nat}
    (accounted : Accounted factor pAddr ⟨memory, allocator, live⟩ layouts
      free)
    (listed : member ∈ poolClasses factor layouts)
    (inside : k < member.area.blockCount) (notFree : k ∉ free member.area) :
    Accounted factor pAddr ⟨takenBack memory member.area k
        (free member.area), allocator, live.erase (member.allocated k)⟩
      layouts (Function.update free member.area (k :: free member.area)) := by
  have distinct := accounted.distinct
  obtain ⟨linked, _⟩ := mem_pool accounted.pool.formatted listed
  refine accounted.relisted listed
    (linked.takenBack accounted.pool.addressable inside notFree)
    (linked.takenBack_changed inside) (distinct.erase _) ?_ ?_ ?_
  · intro block alive
    exact accounted.blocks (List.mem_of_mem_erase alive)
  · intro l inside'
    rw [distinct.mem_erase_iff, accounted.alive_iff listed inside',
      List.mem_cons, not_or]
    refine and_congr_left fun _ => not_congr ⟨fun equal =>
      (allocated_inj accounted.pool listed listed inside' inside equal).2, ?_⟩
    rintro rfl
    rfl
  · intro other listed' apart l inside'
    have different : other.allocated l ≠ member.allocated k := by
      intro equal
      obtain ⟨rfl, _⟩ := allocated_inj accounted.pool listed' listed inside'
        inside equal
      exact apart rfl
    rw [distinct.mem_erase_iff]
    exact ⟨And.right, fun alive => ⟨different, alive⟩⟩

theorem Accounted.deallocate_performs {member : PoolClass} {k : Nat}
    {allowed : Failure → Prop}
    (accounted : Accounted factor pAddr ⟨memory, allocator, live⟩ layouts
      free)
    (listed : member ∈ poolClasses factor layouts)
    (inside : k < member.area.blockCount) :
    Performs allowed (deallocate (member.area.block k) allocator) memory
      (fun _ after => after =
        takenBack memory member.area k (free member.area))
      (fun _ => True) := by
  obtain ⟨linked, _⟩ := mem_pool accounted.pool.formatted listed
  rw [show allocator = _ from accounted.object]
  exact (deallocate_same accounted.pool.formatted listed inside).performs
    (MemChunk.deallocate_performs accounted.pool.addressable linked inside)

theorem Accounted.deallocate2_same {member : PoolClass} {k : Nat}
    (accounted : Accounted factor pAddr ⟨memory, allocator, live⟩ layouts
      free)
    (listed : member ∈ poolClasses factor layouts)
    (inside : k < member.area.blockCount) :
    SameRun (deallocate (member.allocated k).pAddr allocator)
      (deallocate2 (member.allocated k).iIndex allocator) memory := by
  obtain ⟨linked, _⟩ := mem_pool accounted.pool.formatted listed
  rw [show allocator = _ from accounted.object]
  exact (deallocate_same accounted.pool.formatted listed inside).trans
    ((MemChunk.deallocate2_same linked inside).symm.trans
      (deallocate2_pool accounted.pool.formatted listed inside).symm)

theorem Accounted.appended {size : Nat}
    {allocator' : TcMemMultiChunkAllocator}
    (accounted : Accounted factor pAddr ⟨memory, allocator, live⟩ layouts
      free)
    (small : size < 2 ^ 64)
    (run : (append factor pAddr size).run ⟨memory, none⟩ =
      .ok allocator' ⟨after, none⟩) :
    ∃ layouts free, Accounted factor pAddr ⟨after, allocator', live⟩ layouts
      free := by
  have formatted := accounted.pool.formatted
  obtain ⟨layout, here, object, pool⟩ :=
    (append_performs accounted.pool small).returned run
  obtain ⟨blocks, split⟩ := poolClasses_append factor layouts [layout]
  -- the areas of the parts before are in front of the appended memory
  have kept : ∀ member ∈ poolClasses factor layouts,
      grown free (pAddr + (layouts.map PartLayout.iSize).sum) member.area =
        free member.area := by
    intro member listed
    obtain ⟨_, _, before⟩ := mem_pool formatted listed
    refine if_pos (Nat.lt_of_lt_of_le ?_ before)
    exact Nat.lt_add_of_pos_right
      (Nat.lt_of_lt_of_le (by decide) (Nat.le_add_right _ _))
  refine ⟨_, _, pool, object, accounted.distinct, ?_⟩
  intro block
  rw [accounted.live block, split]
  constructor
  · rintro ⟨member, listed, k, inside, notFree, same⟩
    refine ⟨member, List.mem_append_left _ listed, k, inside, ?_, same⟩
    rw [kept member listed]
    exact notFree
  · rintro ⟨member, listed, k, inside, notFree, same⟩
    rcases List.mem_append.mp listed with listed | listed
    · rw [kept member listed] at notFree
      exact ⟨member, listed, k, inside, notFree, same⟩
    · -- the new blocks are all free
      obtain ⟨other, new, rfl⟩ := List.mem_map.mp listed
      have own : other ∈ layout.poolClasses factor := by
        rcases List.mem_append.mp new with own | absurdity
        · exact own
        · exact absurd absurdity List.not_mem_nil
      obtain ⟨_, _, _, _, behind, _⟩ := mem_classesFrom own
      rw [here] at behind
      have all : grown free (pAddr + (layouts.map PartLayout.iSize).sum)
          (other.shift blocks).area = List.range other.area.blockCount :=
        if_neg (Nat.not_lt.mpr (Nat.le_trans (Nat.le_add_right _ _) behind))
      rw [all] at notFree
      exact absurd (List.mem_range.mpr inside) notFree

/-- Every step keeps account of the blocks. -/
theorem accounted_step {state next : State} {event : Event}
    (accounted : ∃ layouts free, Accounted factor pAddr state layouts free)
    (step : Step factor pAddr state event next) :
    ∃ layouts free, Accounted factor pAddr next layouts free := by
  obtain ⟨layouts, free, accounted⟩ := accounted
  cases step with
  | @allocate memory allocator live iNeedSize found after run =>
      have object : allocator = _ := accounted.object
      rw [object] at run
      rcases allocate2_hands iNeedSize accounted.pool.addressable
        accounted.pool.formatted with ⟨_, yields⟩ | ⟨member, listed, k, rest⟩
      · rw [yields none] at run
        obtain ⟨rfl, rfl⟩ : none = found ∧ memory = after := by
          simpa using run
        exact ⟨layouts, free, accounted⟩
      · obtain ⟨later, available, performs⟩ := rest
        obtain ⟨rfl, linked, changed⟩ := performs.returned run
        exact ⟨layouts, _, accounted.allocated listed available linked
          changed⟩
  | @deallocate memory allocator live block after alive run =>
      obtain ⟨member, listed, k, inside, notFree, rfl⟩ :=
        (accounted.live block).mp alive
      have performs : Performs never _ _ _ _ :=
        accounted.deallocate_performs listed inside
      obtain rfl := performs.returned run
      exact ⟨layouts, _, accounted.released listed inside notFree⟩
  | @deallocate2 memory allocator live block after alive run =>
      obtain ⟨member, listed, k, inside, notFree, rfl⟩ :=
        (accounted.live block).mp alive
      have performs : Performs never _ _ _ _ :=
        accounted.deallocate_performs listed inside
      rw [← accounted.deallocate2_same listed inside none] at run
      obtain rfl := performs.returned run
      exact ⟨layouts, _, accounted.released listed inside notFree⟩
  | append small run => exact accounted.appended small run
  | @connect memory allocator live allocator' after run =>
      have object : allocator = _ := accounted.object
      rw [accounted.pool.connect_yields none, ← object] at run
      obtain ⟨rfl, rfl⟩ : allocator = allocator' ∧ memory = after := by
        simpa using run
      exact ⟨layouts, free, accounted⟩
  | use alive changed =>
      obtain ⟨member, listed, k, inside, notFree, rfl⟩ :=
        (accounted.live _).mp alive
      exact ⟨layouts, free, accounted.pool.used listed notFree inside changed,
        accounted.object, accounted.distinct, accounted.live⟩
  | elsewhere changed =>
      exact ⟨layouts, free, accounted.pool.outside changed.grows
        changed.addressable changed.same, accounted.object,
        accounted.distinct, accounted.live⟩

end Steps

section Soundness

variable {factor : Factor} {pAddr : Nat} {memory after : Memory}
  {state : State} {layouts : List PartLayout}
  {free : ClassArea → List Nat}

theorem allocated_apart {member other : PoolClass} {k l : Nat}
    (pool : Pool factor memory free pAddr layouts)
    (listed : member ∈ poolClasses factor layouts)
    (listed' : other ∈ poolClasses factor layouts)
    (inside : k < member.area.blockCount) (inside' : l < other.area.blockCount)
    (different : member.allocated k ≠ other.allocated l) :
    member.area.block k + member.area.blockSize ≤ other.area.block l ∨
      other.area.block l + other.area.blockSize ≤ member.area.block k := by
  by_cases areas : other.area = member.area
  · obtain rfl := member_of_area pool.formatted listed listed' areas
    rcases Nat.lt_trichotomy k l with less | rfl | greater
    · exact Or.inl (other.area.block_apart less)
    · exact absurd rfl different
    · exact Or.inr (other.area.block_apart greater)
  · have low := member.area.start_add_heads_le_block k
    have high := member.area.block_stop inside
    have low' := other.area.start_add_heads_le_block l
    have high' := other.area.block_stop inside'
    have apart := area_apart pool.formatted listed listed' areas
    omega

theorem exists_member {layout : PartLayout} {area : ClassArea}
    (listed : layout ∈ layouts) (own : area ∈ layout.areas factor) :
    ∃ member ∈ poolClasses factor layouts, member.area = area := by
  induction layouts with
  | nil => exact absurd listed List.not_mem_nil
  | cons first nested induction =>
      rcases List.mem_cons.mp listed with rfl | listed
      · rw [areas_eq] at own
        obtain ⟨member, found, rfl⟩ := List.mem_map.mp own
        exact ⟨member, List.mem_append_left _ found, rfl⟩
      · obtain ⟨member, found, rfl⟩ := induction listed
        exact ⟨member.shift _, List.mem_append_right _
          (List.mem_map_of_mem found), rfl⟩

theorem zip_areasFrom {iBlockCount : Nat} {sizes : List Nat} :
    ∀ {start}, ((areasFrom iBlockCount start sizes).map
      ClassArea.allocator).zip sizes =
      (areasFrom iBlockCount start sizes).map fun area =>
        (area.allocator, area.blockSize) := by
  induction sizes with
  | nil =>
      intro start
      rfl
  | cons blockSize later induction =>
      intro start
      exact congrArg (List.cons _) induction

/-- Every block of the parts is one of a member of the pool. -/
theorem mem_blocksOf {all : Nat × Nat}
    (listed : all ∈ (layouts.map (PartLayout.object factor)).flatMap
      blocksOf) :
    ∃ member ∈ poolClasses factor layouts, ∃ k < member.area.blockCount,
      all = (member.area.block k, member.area.blockSize) := by
  obtain ⟨part, object, inPart⟩ := List.mem_flatMap.mp listed
  obtain ⟨layout, inLayouts, rfl⟩ := List.mem_map.mp object
  have zipped : (layout.object factor).allocator.zip
      (layout.object factor).vBlockSize = (layout.areas factor).map
        fun area => (area.allocator, area.blockSize) := zip_areasFrom
  unfold blocksOf at inPart
  rw [zipped] at inPart
  obtain ⟨_, inAreas, inArea⟩ := List.mem_flatMap.mp inPart
  obtain ⟨area, own, rfl⟩ := List.mem_map.mp inAreas
  obtain ⟨k, inside, rfl⟩ := List.mem_map.mp inArea
  obtain ⟨member, found, rfl⟩ := exists_member inLayouts own
  have count : member.area.blockCount = layout.count factor := by
    rw [areas_eq] at own
    obtain ⟨other, own, same⟩ := List.mem_map.mp own
    rw [← same]
    exact (mem_classesFrom own).1
  refine ⟨member, found, k, ?_, ?_⟩
  · rw [count]
    exact List.mem_range.mp inside
  · rw [ClassArea.pData_eq]
    rfl

theorem Accounted.sound
    (accounted : Accounted factor pAddr state layouts free) :
    Sound factor pAddr state := by
  obtain ⟨memory, allocator, live⟩ := state
  obtain rfl : allocator = _ := accounted.object
  have pool : Pool factor memory free pAddr layouts := accounted.pool
  have formatted := pool.formatted
  constructor
  · refine accounted.distinct.pairwise_of_forall_ne ?_
    intro block alive other alive' different
    obtain ⟨member, listed, k, inside, rfl⟩ := accounted.blocks alive
    obtain ⟨member', listed', l, inside', rfl⟩ := accounted.blocks alive'
    exact allocated_apart pool listed listed' inside inside' different
  · intro block alive
    obtain ⟨member, listed, k, inside, rfl⟩ := accounted.blocks alive
    obtain ⟨linked, behind, before⟩ := mem_pool formatted listed
    have low := member.area.start_add_heads_le_block k
    have high := member.area.block_stop inside
    have whole := linked.inside
    have total : memory.word 8 (pAddr + 8) = _ := pool.total
    show pAddr ≤ member.area.block k ∧
      member.area.block k + member.area.blockSize ≤
        pAddr + memory.word 8 (pAddr + 8) ∧
      member.area.block k + member.area.blockSize ≤ memory.size
    rw [total]
    omega
  · intro block alive head headed
    obtain ⟨member, listed, k, inside, rfl⟩ := accounted.blocks alive
    obtain ⟨part, object, inPart⟩ := List.mem_flatMap.mp headed
    obtain ⟨layout, inLayouts, rfl⟩ := List.mem_map.mp object
    have low := member.area.start_add_heads_le_block k
    have high := member.area.block_stop inside
    show member.area.block k + member.area.blockSize ≤ head.1 ∨
      head.1 + head.2 ≤ member.area.block k
    rcases List.mem_cons.mp inPart with rfl | inAreas
    · have apart := head_apart formatted inLayouts listed
      show member.area.block k + member.area.blockSize ≤ layout.pHead ∨
        layout.pHead + getHeadSize ≤ member.area.block k
      omega
    · obtain ⟨allocator, inObject, rfl⟩ := List.mem_map.mp inAreas
      obtain ⟨area, own, rfl⟩ := List.mem_map.mp inObject
      obtain ⟨other, listed', rfl⟩ := exists_member inLayouts own
      have length : ClassArea.headsSize ≤ other.area.length :=
        Nat.le_add_right _ _
      show member.area.block k + member.area.blockSize ≤ other.area.start ∨
        other.area.start + ClassArea.headsSize ≤ member.area.block k
      by_cases same : other.area = member.area
      · rw [same]
        exact Or.inr low
      · have apart := area_apart formatted listed listed' same
        unfold ClassArea.stop at *
        omega
  · exact pool.connect_yields
  · intro iNeedSize
    rcases allocate2_hands iNeedSize pool.addressable formatted with
      ⟨empty, yields⟩ | ⟨member, listed, k, later, available, performs⟩
    · refine ⟨none, memory, yields none, fun _ all inAll => ?_⟩
      obtain ⟨member, listed, k, inside, rfl⟩ := mem_blocksOf inAll
      refine ⟨member.allocated k, ?_, rfl⟩
      rw [accounted.alive_iff listed inside, empty member listed]
      exact List.not_mem_nil
    · obtain ⟨found, after, run, rfl, _⟩ := performs.completes
      refine ⟨_, after, run, fun nothing => ?_⟩
      exact absurd nothing (Option.some_ne_none _)
  · intro block alive
    obtain ⟨member, listed, k, inside, rfl⟩ := accounted.blocks alive
    exact getRelative_pool formatted listed inside
  · intro block alive
    obtain ⟨member, listed, k, inside, rfl⟩ := accounted.blocks alive
    exact getAbsolute_pool formatted listed inside
  · intro block alive
    obtain ⟨member, listed, k, inside, rfl⟩ := accounted.blocks alive
    refine ⟨accounted.deallocate2_same listed inside, ?_⟩
    obtain ⟨_, after, run, _⟩ :=
      (accounted.deallocate_performs listed inside).completes
    exact ⟨after, run⟩

end Soundness

section Runs

variable {factor : Factor} {pAddr iSize : Nat} {memory after : Memory}

theorem created_accounted {iMinBlockSize iMaxBlockSize bits : Nat}
    {part : Part} (addressable : memory.size < 2 ^ 64)
    (small : iSize < 2 ^ 64)
    (created : (create factor pAddr iSize iMinBlockSize iMaxBlockSize
      bits).run ⟨memory, none⟩ = .ok part ⟨after, none⟩) :
    ∃ layouts free, Accounted factor pAddr ⟨after, [part], []⟩ layouts
      free := by
  obtain ⟨layout, rfl, rfl, rfl, accepted, headed, total, linked, changed⟩ :=
    (create_performs addressable small).returned created
  refine ⟨[layout], fun area => List.range area.blockCount, ?_, rfl,
    List.nodup_nil, ?_⟩
  · refine ⟨List.cons_ne_nil _ _, ?_, ?_, ?_⟩
    · rw [changed.size]
      exact addressable
    · refine ⟨rfl, accepted, headed, ?_, trivial⟩
      intro area listed
      obtain ⟨member, own, rfl⟩ := List.mem_map.mp (areas_eq ▸ listed)
      have count := (mem_classesFrom own).1
      show Linked after member.area (List.range member.area.blockCount)
      rw [count]
      exact linked _ listed
    · simpa using total
  · intro block
    constructor
    · intro alive
      exact absurd alive List.not_mem_nil
    · rintro ⟨member, _, k, inside, notFree, _⟩
      exact absurd (List.mem_range.mpr inside) notFree

/-- Whatever is done with an allocator after `create`, its users can rely on
it. -/
theorem run_sound {iMinBlockSize iMaxBlockSize bits : Nat} {part : Part}
    {last : State} {events : List Event}
    (addressable : memory.size < 2 ^ 64) (small : iSize < 2 ^ 64)
    (created : (create factor pAddr iSize iMinBlockSize iMaxBlockSize
      bits).run ⟨memory, none⟩ = .ok part ⟨after, none⟩)
    (run : Run (Step factor pAddr) ⟨after, [part], []⟩ events last) :
    Sound factor pAddr last := by
  obtain ⟨layouts, free, accounted⟩ := run.preserves
    (fun accounted step => accounted_step accounted step)
    (created_accounted addressable small created)
  exact accounted.sound

/-- What a completed run has returned. -/
def returnedOf {α : Type} :
    EStateM.Result (Stop Failure) (Process Memory) α →
      Option (α × Option Nat)
  | .ok value after => some (value, after.remaining)
  | .error _ _ => none

theorem run_of_returned {α : Type} {task : MemTask α} {value : α}
    (evaluated : returnedOf (task.run ⟨memory, none⟩) =
      some (value, none)) :
    ∃ after, task.run ⟨memory, none⟩ = .ok value ⟨after, none⟩ := by
  cases run : task.run ⟨memory, none⟩ with
  | ok result process =>
      rw [run] at evaluated
      obtain ⟨after, remaining⟩ := process
      obtain ⟨rfl, rfl⟩ := Prod.mk.inj (Option.some.inj evaluated)
      exact ⟨after, rfl⟩
  | error stop process =>
      rw [run] at evaluated
      cases evaluated

/-- What follows a completed run starts from its memory. -/
theorem runs_further {α β : Type} {task : MemTask α} {value : α}
    (next : MemTask β) (result : β)
    (completed : task.run ⟨memory, none⟩ = .ok value ⟨after, none⟩)
    (evaluated : returnedOf ((task >>= fun _ => next).run ⟨memory, none⟩) =
      some (result, none)) :
    ∃ last, next.run ⟨after, none⟩ = .ok result ⟨last, none⟩ ∧
      (task >>= fun _ => next).run ⟨memory, none⟩ =
        .ok result ⟨last, none⟩ := by
  obtain ⟨last, run⟩ := run_of_returned evaluated
  refine ⟨last, ?_, run⟩
  rw [EStateM.run_bind, completed] at run
  exact run

/-- Six blocks of sixteen bytes in 200 bytes: two are handed out, the first
is released, and the second half of the memory is appended. -/
theorem run_sound_sixteen : ∃ part after parts last,
    (create ⟨fun _ => true, fun _ n => n⟩ 0 200 16 16 1065353216).run
      ⟨⟨400, fun _ => 7⟩, none⟩ = .ok part ⟨after, none⟩ ∧
    Run (Step ⟨fun _ => true, fun _ n => n⟩ 0) ⟨after, [part], []⟩
      [.allocate 10 (some ⟨92, 16, 1⟩), .allocate 16 (some ⟨108, 16, 2⟩),
        .deallocate ⟨92, 16, 1⟩, .append 400]
      ⟨last, parts, [⟨108, 16, 2⟩]⟩ ∧
    parts.length = 2 ∧
    Sound ⟨fun _ => true, fun _ n => n⟩ 0 ⟨last, parts, [⟨108, 16, 2⟩]⟩ := by
  obtain ⟨one, created⟩ : ∃ one,
      (create ⟨fun _ => true, fun _ n => n⟩ 0 200 16 16 1065353216).run
        ⟨⟨400, fun _ => 7⟩, none⟩ =
        .ok ⟨0, [16], 6, [⟨44⟩], 6⟩ ⟨one, none⟩ :=
    run_of_returned (by decide +kernel)
  obtain ⟨two, first, run⟩ := runs_further
    (allocate2 10 [⟨0, [16], 6, [⟨44⟩], 6⟩])
    (some ⟨92, 16, 1⟩) created (by decide +kernel)
  obtain ⟨three, second, run⟩ := runs_further
    (allocate2 16 [⟨0, [16], 6, [⟨44⟩], 6⟩])
    (some ⟨108, 16, 2⟩) run (by decide +kernel)
  obtain ⟨four, released, run⟩ := runs_further
    (deallocate 92 [⟨0, [16], 6, [⟨44⟩], 6⟩])
    () run (by decide +kernel)
  obtain ⟨five, appended, _⟩ := runs_further
    (append ⟨fun _ => true, fun _ n => n⟩ 0 400)
    [⟨0, [16], 6, [⟨44⟩], 6⟩, ⟨200, [16], 6, [⟨244⟩], 6⟩]
    run (by decide +kernel)
  have run : Run (Step ⟨fun _ => true, fun _ n => n⟩ 0)
      ⟨one, [⟨0, [16], 6, [⟨44⟩], 6⟩], []⟩
      [.allocate 10 (some ⟨92, 16, 1⟩), .allocate 16 (some ⟨108, 16, 2⟩),
        .deallocate ⟨92, 16, 1⟩, .append 400]
      ⟨five, [⟨0, [16], 6, [⟨44⟩], 6⟩, ⟨200, [16], 6, [⟨244⟩], 6⟩],
        [⟨108, 16, 2⟩]⟩ :=
    .cons (.allocate first) <| .cons (.allocate second) <|
    .cons (.deallocate (by decide) released) <|
    .cons (.append (by decide) appended) (.nil _)
  exact ⟨_, one, _, five, created, run, rfl,
    run_sound (by decide) (by decide) created run⟩

end Runs

end MemChunk

end TarsCpp
