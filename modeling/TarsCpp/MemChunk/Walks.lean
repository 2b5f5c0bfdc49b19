import TarsCpp.MemChunk.Parts

/-!
# Walks over the parts and areas

Index and address of a block are decomposed by walks over the parts and over
the areas of a part.  All of them meet at the block of one area.
-/

namespace TarsCpp

namespace MemChunk

open Interruption FlatMemory TcMemMultiChunkAllocator

/-- An area with its number in its part and the number of blocks in the parts
before. -/
structure PoolClass where
  area : ClassArea
  offset : Nat
  index : Nat
deriving DecidableEq, Repr

namespace PoolClass

variable (member : PoolClass)

/-- The number of blocks before this area. -/
def base : Nat := member.offset + member.index * member.area.blockCount

def shift (blocks : Nat) : PoolClass :=
  { member with offset := member.offset + blocks }

/-- What `allocate2` reports of a block. -/
def allocated (k : Nat) : Allocated where
  pAddr := member.area.block k
  iAllocSize := member.area.blockSize
  iIndex := member.base + k + 1

theorem base_shift (blocks : Nat) :
    (member.shift blocks).base = member.base + blocks := by
  unfold base shift
  exact Nat.add_right_comm ..

end PoolClass

def classesFrom (iBlockCount : Nat) : Nat → Nat → List Nat → List PoolClass
  | _, _, [] => []
  | index, start, blockSize :: later =>
      let area : ClassArea := ⟨start, blockSize, iBlockCount⟩
      ⟨area, 0, index⟩ ::
        classesFrom iBlockCount (index + 1) area.stop later

def PartLayout.poolClasses (factor : Factor) (layout : PartLayout) :
    List PoolClass :=
  classesFrom (layout.count factor) 0 (layout.pHead + getHeadSize)
    (layout.sizes factor)

/-- The areas of all parts. -/
def poolClasses (factor : Factor) : List PartLayout → List PoolClass
  | [] => []
  | layout :: nested =>
      layout.poolClasses factor ++ (poolClasses factor nested).map
        (·.shift (layout.object factor).iAllIndex)

/-- The parts lie one behind the other from `pAddr` on, and each area has its
free list. -/
def Formatted (factor : Factor) (memory : Memory)
    (free : ClassArea → List Nat) : Nat → List PartLayout → Prop
  | _, [] => True
  | pAddr, layout :: nested =>
      layout.pHead = pAddr ∧ layout.Accepted factor ∧
      Headed memory layout (if nested = [] then 0 else layout.iSize) ∧
      (∀ area ∈ layout.areas factor, Linked memory area (free area)) ∧
      Formatted factor memory free layout.stop nested

section Areas

variable {iBlockCount : Nat}

theorem classesFrom_area {sizes : List Nat} :
    ∀ {index start}, (classesFrom iBlockCount index start sizes).map
      PoolClass.area = areasFrom iBlockCount start sizes := by
  induction sizes with
  | nil =>
      intro index start
      rfl
  | cons blockSize later induction =>
      intro index start
      exact congrArg (List.cons _) induction

/-- An area lies behind the ones before it. -/
theorem mem_classesFrom {sizes : List Nat} {member : PoolClass} :
    ∀ {index start}, member ∈ classesFrom iBlockCount index start sizes →
      member.area.blockCount = iBlockCount ∧ member.offset = 0 ∧
      index ≤ member.index ∧ member.index < index + sizes.length ∧
      start ≤ member.area.start ∧
      member.area.stop ≤ start + areasLength iBlockCount sizes := by
  induction sizes with
  | nil =>
      intro index start listed
      exact absurd listed List.not_mem_nil
  | cons blockSize later induction =>
      intro index start listed
      have split : areasLength iBlockCount (blockSize :: later) =
          (ClassArea.mk start blockSize iBlockCount).length +
            areasLength iBlockCount later := rfl
      rw [List.length_cons, split, ← Nat.add_assoc start]
      rcases List.mem_cons.mp listed with rfl | listed
      · exact ⟨rfl, rfl, Nat.le_refl _,
          Nat.lt_add_of_pos_right (Nat.succ_pos _), Nat.le_refl _,
          Nat.le_add_right _ _⟩
      · obtain ⟨count, offset, low, high, behind, before⟩ :=
          induction listed
        refine ⟨count, offset, by omega, by omega, ?_, before⟩
        exact Nat.le_trans (Nat.le_add_right _ _) behind

theorem classesFrom_apart {sizes : List Nat} :
    ∀ {index start}, (classesFrom iBlockCount index start sizes).Pairwise
      fun first second => first.area.stop ≤ second.area.start := by
  induction sizes with
  | nil =>
      intro index start
      exact List.Pairwise.nil
  | cons blockSize later induction =>
      intro index start
      refine List.pairwise_cons.mpr ⟨?_, induction⟩
      intro second listed
      obtain ⟨_, _, _, _, behind, _⟩ := mem_classesFrom listed
      exact behind

/-- The list over which the loops of `allocate2` run. -/
theorem zip_classesFrom {sizes : List Nat} :
    ∀ {index start}, ((areasFrom iBlockCount start sizes).map
      ClassArea.allocator).zip (sizes.zipIdx index) =
      (classesFrom iBlockCount index start sizes).map fun member =>
        (member.area.allocator, member.area.blockSize, member.index) := by
  induction sizes with
  | nil =>
      intro index start
      rfl
  | cons blockSize later induction =>
      intro index start
      exact congrArg (List.cons _) induction

theorem getElem?_classesFrom {sizes : List Nat} {member : PoolClass} :
    ∀ {index start}, member ∈ classesFrom iBlockCount index start sizes →
      ((areasFrom iBlockCount start sizes).map
        ClassArea.allocator)[member.index - index]? =
          some member.area.allocator := by
  induction sizes with
  | nil =>
      intro index start listed
      exact absurd listed List.not_mem_nil
  | cons blockSize later induction =>
      intro index start listed
      rcases List.mem_cons.mp listed with rfl | listed
      · rw [Nat.sub_self]
        rfl
      · obtain ⟨_, _, above, _⟩ := mem_classesFrom listed
        have next : member.index - index = member.index - (index + 1) + 1 := by
          omega
        rw [next]
        exact induction listed

end Areas

/-- The task hands out the first free block of one of these areas, or it
finds the pool exhausted. -/
def Hands (free : ClassArea → List Nat) (members : List PoolClass)
    (exhausted : Prop) (task : MemTask (Option Allocated))
    (memory : Memory) : Prop :=
  (exhausted ∧ Yields task memory none) ∨
    ∃ member ∈ members, ∃ k later, free member.area = k :: later ∧
      Performs never task memory
        (fun found after => found = some (member.allocated k) ∧
          Linked after member.area later ∧
          ChangedWithin member.area.start member.area.stop memory after)
        (fun _ => True)

section Allocation

variable {factor : Factor} {memory : Memory} {layout : PartLayout}
  {free : ClassArea → List Nat} {iBlockCount : Nat}

theorem Hands.mono {members members' : List PoolClass}
    {exhausted exhausted' : Prop} {task task' : MemTask (Option Allocated)}
    (hands : Hands free members exhausted task memory)
    (listed : members ⊆ members') (weaker : exhausted → exhausted')
    (same : SameRun task' task memory) :
    Hands free members' exhausted' task' memory := by
  rcases hands with ⟨empty, yields⟩ | ⟨member, mem, k, later, found⟩
  · exact Or.inl ⟨weaker empty, same.yields yields⟩
  · obtain ⟨available, performs⟩ := found
    exact Or.inr ⟨member, listed mem, k, later, available,
      same.performs performs⟩

/-- What one of the loops of `allocate2` sees of an area. -/
def PoolClass.seen (member : PoolClass) : TcMemChunkAllocator × Nat × Nat :=
  (member.area.allocator, member.area.blockSize, member.index)

theorem tryClasses_hands {members : List PoolClass} {acceptable : Nat → Bool}
    (addressable : memory.size < 2 ^ 64)
    (linked : ∀ member ∈ members,
      Linked memory member.area (free member.area))
    (counts : ∀ member ∈ members, member.offset = 0 ∧
      member.area.blockCount = iBlockCount) :
    Hands free members
      (∀ member ∈ members, acceptable member.area.blockSize →
        free member.area = [])
      (tryClasses iBlockCount acceptable (members.map PoolClass.seen))
      memory := by
  induction members with
  | nil =>
      refine Or.inl ⟨?_, Yields.pure _⟩
      intro member listed
      exact absurd listed List.not_mem_nil
  | cons member others induction =>
      have here := linked member List.mem_cons_self
      have induction := induction
        (fun other listed => linked other (List.mem_cons_of_mem _ listed))
        (fun other listed => counts other (List.mem_cons_of_mem _ listed))
      -- the loop goes on behind an area from which it takes nothing
      have goOn : ∀ {task : MemTask (Option Allocated)},
          (acceptable member.area.blockSize → free member.area = []) →
          SameRun task (tryClasses iBlockCount acceptable
            (others.map PoolClass.seen)) memory →
          Hands free (member :: others)
            (∀ other ∈ member :: others,
              acceptable other.area.blockSize → free other.area = [])
            task memory := by
        intro task nothing same
        refine induction.mono (List.subset_cons_self _ _) ?_ same
        intro empty other listed
        rcases List.mem_cons.mp listed with rfl | listed
        · exact nothing
        · exact empty other listed
      by_cases accepts : acceptable member.area.blockSize = true
      · cases available : free member.area with
        | nil =>
            apply goOn (fun _ => available)
            rw [available] at here
            refine here.getBlockSize.skip.trans ?_
            rw [if_pos accepts]
            exact (allocate2_exhausted here).skip
        | cons k later =>
            refine Or.inr ⟨member, List.mem_cons_self, k, later, available, ?_⟩
            rw [available] at here
            refine here.getBlockSize.performs ?_
            rw [if_pos accepts]
            apply Performs.bind (allocate2_performs addressable here)
            rintro _ after ⟨rfl, linked', changed⟩
            refine Performs.pure ⟨?_, linked', changed⟩
            obtain ⟨offset, count⟩ := counts member List.mem_cons_self
            unfold PoolClass.allocated PoolClass.base
            rw [offset, count, Nat.zero_add, Nat.add_assoc]
      · refine goOn (fun accepted => absurd accepted accepts) ?_
        refine here.getBlockSize.skip.trans ?_
        rw [if_neg accepts]
        exact SameRun.refl

theorem Hands.bind {members : List PoolClass} {exhausted exhausted' : Prop}
    {task : MemTask (Option Allocated)}
    {next : Option Allocated → MemTask (Option Allocated)}
    (hands : Hands free members exhausted task memory)
    (found : ∀ block, next (some block) = pure (some block))
    (otherwise : exhausted → Hands free members exhausted' (next none)
      memory) :
    Hands free members exhausted' (task >>= next) memory := by
  rcases hands with ⟨empty, yields⟩ | ⟨member, listed, k, later, rest⟩
  · exact (otherwise empty).mono (List.Subset.refl _) id yields.skip
  · obtain ⟨available, performs⟩ := rest
    refine Or.inr ⟨member, listed, k, later, available, ?_⟩
    apply Performs.bind performs
    rintro _ after ⟨rfl, linked, changed⟩
    rw [found]
    exact Performs.pure ⟨rfl, linked, changed⟩

theorem classes_object :
    classes (layout.object factor) =
      (layout.poolClasses factor).map PoolClass.seen :=
  zip_classesFrom

theorem areas_eq : layout.areas factor =
    (layout.poolClasses factor).map PoolClass.area :=
  classesFrom_area.symm

theorem mem_poolClasses {member : PoolClass}
    (listed : member ∈ layout.poolClasses factor) :
    member.area ∈ layout.areas factor ∧ member.offset = 0 ∧
      member.area.blockCount = layout.count factor := by
  obtain ⟨count, offset, _⟩ := mem_classesFrom listed
  refine ⟨?_, offset, count⟩
  rw [areas_eq]
  exact List.mem_map_of_mem listed

/-- Between them the two loops look at every area. -/
theorem allocatePart_hands (iNeedSize : Nat)
    (addressable : memory.size < 2 ^ 64)
    (linked : ∀ area ∈ layout.areas factor, Linked memory area (free area)) :
    Hands free (layout.poolClasses factor)
      (∀ member ∈ layout.poolClasses factor, free member.area = [])
      (allocatePart iNeedSize (layout.object factor)) memory := by
  have classLinked : ∀ member ∈ layout.poolClasses factor,
      Linked memory member.area (free member.area) :=
    fun member listed => linked _ (mem_poolClasses listed).1
  have counts : ∀ member ∈ layout.poolClasses factor, member.offset = 0 ∧
      member.area.blockCount = layout.count factor :=
    fun member listed => (mem_poolClasses listed).2
  unfold allocatePart
  rw [classes_object, ← List.map_reverse]
  apply Hands.bind (tryClasses_hands addressable classLinked counts)
  · intro block
    rfl
  · intro largerEmpty
    refine (tryClasses_hands addressable
      (fun member listed => classLinked member (List.mem_reverse.mp listed))
      (fun member listed => counts member
        (List.mem_reverse.mp listed))).mono
      (fun member listed => List.mem_reverse.mp listed) ?_ SameRun.refl
    intro smallerEmpty member listed
    rcases Nat.lt_or_ge member.area.blockSize iNeedSize with smaller | larger
    · exact smallerEmpty member (List.mem_reverse.mpr listed)
        (decide_eq_true smaller)
    · exact largerEmpty member listed (decide_eq_true larger)

theorem PoolClass.allocated_shift (member : PoolClass) (blocks k : Nat) :
    { member.allocated k with
      iIndex := (member.allocated k).iIndex + blocks } =
      (member.shift blocks).allocated k := by
  have index : member.base + k + 1 + blocks =
      (member.shift blocks).base + k + 1 := by
    rw [PoolClass.base_shift]
    omega
  exact congrArg (Allocated.mk _ _) index

/-- Only an exhausted pool refuses an allocation. -/
theorem allocate2_hands (iNeedSize : Nat) {layouts : List PartLayout}
    (addressable : memory.size < 2 ^ 64) :
    ∀ {pAddr}, Formatted factor memory free pAddr layouts →
      Hands free (poolClasses factor layouts)
        (∀ member ∈ poolClasses factor layouts, free member.area = [])
        (allocate2 iNeedSize (layouts.map (PartLayout.object factor)))
        memory := by
  induction layouts with
  | nil =>
      intro pAddr _
      refine Or.inl ⟨?_, Yields.pure _⟩
      intro member listed
      exact absurd listed List.not_mem_nil
  | cons layout nested induction =>
      intro pAddr formatted
      obtain ⟨_, _, _, linked, formatted⟩ := formatted
      have own := allocatePart_hands iNeedSize addressable linked
      refine Hands.bind (own.mono (List.subset_append_left _ _) id
        SameRun.refl) (fun _ => rfl) ?_
      intro ownEmpty
      rcases induction formatted with ⟨empty, yields⟩ | ⟨member, listed, rest⟩
      · refine Or.inl ⟨?_, yields.bind (Yields.pure _)⟩
        intro member listed
        rcases List.mem_append.mp listed with listed | listed
        · exact ownEmpty member listed
        · obtain ⟨other, listed', rfl⟩ := List.mem_map.mp listed
          exact empty other listed'
      · obtain ⟨k, later, available, performs⟩ := rest
        refine Or.inr ⟨_, List.mem_append_right _
          (List.mem_map_of_mem listed), k, later, available, ?_⟩
        apply Performs.bind performs
        rintro _ after ⟨rfl, linked, changed⟩
        exact Performs.pure ⟨congrArg some
          (PoolClass.allocated_shift member _ k), linked, changed⟩

end Allocation

section Blocks

variable {factor : Factor} {memory : Memory} {layout : PartLayout}
  {free : ClassArea → List Nat} {iBlockCount k : Nat} {member : PoolClass}

/-- Where the walks over the areas of a part stop: in front of the stop of an
area, and behind the ones before. -/
theorem block_between (area : ClassArea) {start stop : Nat}
    (inside : k < area.blockCount) (behind : start ≤ area.start)
    (before : area.stop ≤ stop) (wide : 8 < area.blockSize) :
    start ≤ area.block k ∧ area.block k < stop := by
  have low := area.start_add_heads_le_block k
  have high := area.block_stop inside
  omega

theorem deallocateIn_same {sizes : List Nat} :
    ∀ {index start}, (∀ area ∈ areasFrom iBlockCount start sizes,
        Linked memory area (free area)) →
      member ∈ classesFrom iBlockCount index start sizes →
      k < iBlockCount →
      SameRun (deallocateIn (member.area.block k) start
        ((areasFrom iBlockCount start sizes).map ClassArea.allocator))
        (member.area.allocator.chunk.deallocate (member.area.block k))
        memory := by
  induction sizes with
  | nil =>
      intro index start _ listed
      exact absurd listed List.not_mem_nil
  | cons blockSize later induction =>
      intro index start linked listed inside
      have here := linked _ List.mem_cons_self
      refine here.getMemSize.skip.trans ?_
      rcases List.mem_cons.mp listed with rfl | listed
      · obtain ⟨low, high⟩ := block_between
          ⟨start, blockSize, iBlockCount⟩ inside (Nat.le_refl _)
          (Nat.le_refl _) here.wide
        rw [if_pos]
        · exact (Yields.require (ClassArea.chunk_le_block _ k) _).skip
        · exact high
      · obtain ⟨count, _, _, _, behind, before⟩ := mem_classesFrom listed
        have low := Nat.le_trans behind (Nat.le_trans
          (Nat.le_add_right _ _) (member.area.start_add_heads_le_block k))
        rw [if_neg]
        · exact induction (fun area listed =>
            linked area (List.mem_cons_of_mem _ listed)) listed inside
        · exact Nat.not_lt.mpr low

theorem getRelativeIn_yields {sizes : List Nat} :
    ∀ {index start}, (∀ area ∈ areasFrom iBlockCount start sizes,
        Linked memory area (free area)) →
      member ∈ classesFrom iBlockCount index start sizes →
      k < iBlockCount →
      Yields (getRelativeIn iBlockCount (member.area.block k) index
        ((areasFrom iBlockCount start sizes).map ClassArea.allocator)) memory
        (member.index * iBlockCount + (k + 1)) := by
  induction sizes with
  | nil =>
      intro index start _ listed
      exact absurd listed List.not_mem_nil
  | cons blockSize later induction =>
      intro index start linked listed inside
      have here := linked _ List.mem_cons_self
      refine here.getMemSize.bind ?_
      rcases List.mem_cons.mp listed with rfl | listed
      · obtain ⟨low, high⟩ := block_between
          ⟨start, blockSize, iBlockCount⟩ inside (Nat.le_refl _)
          (Nat.le_refl _) here.wide
        rw [if_pos]
        · exact (getRelative_yields here inside).bind (Yields.pure _)
        · exact high
      · obtain ⟨count, _, _, _, behind, before⟩ := mem_classesFrom listed
        have low := Nat.le_trans behind (Nat.le_trans
          (Nat.le_add_right _ _) (member.area.start_add_heads_le_block k))
        rw [if_neg]
        · exact induction (fun area listed =>
            linked area (List.mem_cons_of_mem _ listed)) listed inside
        · exact Nat.not_lt.mpr low

theorem deallocate2In_same {sizes : List Nat} :
    ∀ {index start iIndex}, member ∈ classesFrom iBlockCount index start sizes →
      k < iBlockCount →
      iIndex = (member.index - index) * iBlockCount + (k + 1) →
      SameRun (deallocate2In iBlockCount iIndex
        ((areasFrom iBlockCount start sizes).map ClassArea.allocator))
        (do
          member.area.allocator.chunk.deallocate2 (k + 1)
          return none) memory := by
  induction sizes with
  | nil =>
      intro index start iIndex listed
      exact absurd listed List.not_mem_nil
  | cons blockSize later induction =>
      intro index start iIndex listed inside position
      unfold areasFrom List.map deallocate2In
      rcases List.mem_cons.mp listed with rfl | listed
      · rw [Nat.sub_self, Nat.zero_mul, Nat.zero_add] at position
        rw [position, if_pos (Nat.succ_le_of_lt inside)]
        exact SameRun.refl
      · obtain ⟨_, _, above, _⟩ := mem_classesFrom listed
        have next : member.index - index = member.index - (index + 1) + 1 := by
          omega
        rw [next, Nat.add_mul, Nat.one_mul] at position
        rw [if_neg (by omega)]
        exact induction listed inside (by omega)

theorem deallocate2In_behind (areas : List TcMemChunkAllocator) :
    ∀ {iIndex}, areas.length * iBlockCount < iIndex →
      Yields (deallocate2In iBlockCount iIndex areas) memory
        (some (iIndex - areas.length * iBlockCount)) := by
  induction areas with
  | nil =>
      intro iIndex _
      rw [List.length_nil, Nat.zero_mul]
      exact Yields.pure _
  | cons area later induction =>
      intro iIndex behind
      rw [List.length_cons, Nat.add_mul, Nat.one_mul] at behind ⊢
      unfold deallocate2In
      rw [if_neg (by omega), Nat.add_comm, ← Nat.sub_sub]
      exact induction (by omega)

end Blocks

section Pool

variable {factor : Factor} {memory : Memory} {layout : PartLayout}
  {layouts : List PartLayout} {free : ClassArea → List Nat} {k : Nat}
  {member : PoolClass}

theorem areasFrom_length {iBlockCount : Nat} {sizes : List Nat} :
    ∀ {start}, (areasFrom iBlockCount start sizes).length = sizes.length := by
  induction sizes with
  | nil =>
      intro start
      rfl
  | cons blockSize later induction =>
      intro start
      exact congrArg Nat.succ induction

theorem iAllIndex_object :
    (layout.object factor).iAllIndex =
      (layout.sizes factor).length * layout.count factor := by
  unfold PartLayout.object PartLayout.areas
  rw [List.length_map, areasFrom_length]

theorem base_of_mem (listed : member ∈ layout.poolClasses factor) :
    member.base = member.index * layout.count factor := by
  obtain ⟨count, offset, _⟩ := mem_classesFrom listed
  unfold PoolClass.base
  rw [offset, count, Nat.zero_add]

theorem index_le (listed : member ∈ layout.poolClasses factor)
    (inside : k < member.area.blockCount) :
    member.base + k + 1 ≤ (layout.object factor).iAllIndex := by
  obtain ⟨count, _, _, high, _⟩ := mem_classesFrom listed
  have whole : (member.index + 1) * layout.count factor ≤
      (layout.sizes factor).length * layout.count factor :=
    Nat.mul_le_mul_right _ (by omega)
  rw [Nat.add_mul, Nat.one_mul] at whole
  rw [base_of_mem listed, iAllIndex_object]
  omega

/-- The areas of all parts lie inside, with their free lists. -/
theorem mem_pool :
    ∀ {pAddr}, Formatted factor memory free pAddr layouts →
      member ∈ poolClasses factor layouts →
      Linked memory member.area (free member.area) ∧
      pAddr + getHeadSize ≤ member.area.start ∧
      member.area.stop ≤ pAddr + (layouts.map PartLayout.iSize).sum := by
  induction layouts generalizing member with
  | nil =>
      intro pAddr _ listed
      exact absurd listed List.not_mem_nil
  | cons layout nested induction =>
      intro pAddr formatted listed
      obtain ⟨rfl, accepted, _, linked, formatted⟩ := formatted
      have fit := accepted.areas_fit
      rw [List.map_cons, List.sum_cons, ← Nat.add_assoc]
      rcases List.mem_append.mp listed with listed | listed
      · obtain ⟨_, _, _, _, behind, before⟩ := mem_classesFrom listed
        exact ⟨linked _ (mem_poolClasses listed).1, behind, by omega⟩
      · obtain ⟨other, listed', rfl⟩ := List.mem_map.mp listed
        obtain ⟨linked, behind, before⟩ := induction formatted listed'
        refine ⟨linked, Nat.le_trans ?_ behind, before⟩
        exact Nat.add_le_add_right (Nat.le_add_right _ _) _

theorem deallocate_same :
    ∀ {pAddr}, Formatted factor memory free pAddr layouts →
      member ∈ poolClasses factor layouts → k < member.area.blockCount →
      SameRun (deallocate (member.area.block k)
        (layouts.map (PartLayout.object factor)))
        (member.area.allocator.chunk.deallocate (member.area.block k))
        memory := by
  induction layouts generalizing member with
  | nil =>
      intro pAddr _ listed
      exact absurd listed List.not_mem_nil
  | cons layout nested induction =>
      intro pAddr formatted listed inside
      obtain ⟨rfl, accepted, headed, linked, formatted⟩ := formatted
      refine headed.iSize.skip.trans ?_
      rcases List.mem_append.mp listed with listed | listed
      · obtain ⟨count, _, _, _, _, before⟩ := mem_classesFrom listed
        have high := member.area.block_stop inside
        have wide := (linked _ (mem_poolClasses listed).1).wide
        have fit := accepted.areas_fit
        rw [if_pos]
        · exact deallocateIn_same linked listed (count ▸ inside)
        · show member.area.block k < layout.pHead + layout.iSize
          omega
      · obtain ⟨other, listed', rfl⟩ := List.mem_map.mp listed
        obtain ⟨_, behind, _⟩ := mem_pool formatted listed'
        have low := other.area.start_add_heads_le_block k
        have walked := induction formatted listed' inside
        rw [if_neg]
        · exact walked
        · refine Nat.not_lt.mpr ?_
          show layout.stop ≤ other.area.block k
          omega

theorem getRelative_pool :
    ∀ {pAddr}, Formatted factor memory free pAddr layouts →
      member ∈ poolClasses factor layouts → k < member.area.blockCount →
      Yields (getRelative (member.area.block k)
        (layouts.map (PartLayout.object factor))) memory
        (member.base + k + 1) := by
  induction layouts generalizing member with
  | nil =>
      intro pAddr _ listed
      exact absurd listed List.not_mem_nil
  | cons layout nested induction =>
      intro pAddr formatted listed inside
      obtain ⟨rfl, accepted, headed, linked, formatted⟩ := formatted
      refine headed.iSize.bind ?_
      rcases List.mem_append.mp listed with listed | listed
      · obtain ⟨count, _, _, _, _, before⟩ := mem_classesFrom listed
        have high := member.area.block_stop inside
        have wide := (linked _ (mem_poolClasses listed).1).wide
        have fit := accepted.areas_fit
        rw [if_pos]
        · rw [base_of_mem listed, Nat.add_assoc]
          rw [count] at inside
          exact getRelativeIn_yields linked listed inside
        · show member.area.block k < layout.pHead + layout.iSize
          omega
      · obtain ⟨other, listed', rfl⟩ := List.mem_map.mp listed
        obtain ⟨_, behind, _⟩ := mem_pool formatted listed'
        have low := other.area.start_add_heads_le_block k
        have some : nested ≠ [] := by
          rintro rfl
          exact absurd listed' List.not_mem_nil
        rw [if_neg, if_neg]
        · have position : (other.shift
              (layout.object factor).iAllIndex).base + k + 1 =
              (layout.object factor).iAllIndex + (other.base + k + 1) := by
            rw [PoolClass.base_shift]
            omega
          rw [position]
          exact (induction formatted listed' inside).bind (Yields.pure _)
        · exact fun none => some (List.map_eq_nil_iff.mp none)
        · refine Nat.not_lt.mpr ?_
          show layout.stop ≤ other.area.block k
          omega

theorem getAbsolute_pool :
    ∀ {pAddr}, Formatted factor memory free pAddr layouts →
      member ∈ poolClasses factor layouts → k < member.area.blockCount →
      Yields (getAbsolute (member.base + k + 1)
        (layouts.map (PartLayout.object factor))) memory
        (some (member.area.block k)) := by
  induction layouts generalizing member with
  | nil =>
      intro pAddr _ listed
      exact absurd listed List.not_mem_nil
  | cons layout nested induction =>
      intro pAddr formatted listed inside
      obtain ⟨rfl, accepted, headed, linked, formatted⟩ := formatted
      unfold List.map getAbsolute
      rw [if_neg (Nat.succ_ne_zero _)]
      rcases List.mem_append.mp listed with listed | listed
      · have found := getElem?_classesFrom listed
        obtain ⟨count, _, _, _, _, _⟩ := mem_classesFrom listed
        have positive : k < layout.count factor := by
          rw [← count]
          exact inside
        have quotient : (member.base + k + 1 - 1) /
            (layout.object factor).iBlockCount = member.index := by
          show (member.base + k + 1 - 1) / layout.count factor = member.index
          rw [base_of_mem listed, Nat.add_sub_cancel, Nat.mul_comm,
            Nat.mul_add_div (Nat.zero_lt_of_lt positive),
            Nat.div_eq_of_lt positive, Nat.add_zero]
        have rest : member.base + k + 1 -
            member.index * (layout.object factor).iBlockCount = k + 1 := by
          show member.base + k + 1 - member.index * layout.count factor = k + 1
          rw [base_of_mem listed]
          omega
        have area : (layout.object factor).allocator[member.index]? =
            some member.area.allocator := found
        rw [if_pos (index_le listed inside)]
        simp only [quotient, area, rest]
        exact (getAbsolute_yields (linked _ (mem_poolClasses listed).1)
          inside).map some
      · obtain ⟨other, listed', rfl⟩ := List.mem_map.mp listed
        have position : (other.shift
            (layout.object factor).iAllIndex).base + k + 1 -
            (layout.object factor).iAllIndex = other.base + k + 1 := by
          rw [PoolClass.base_shift]
          omega
        have behind : ¬(other.shift
            (layout.object factor).iAllIndex).base + k + 1 ≤
            (layout.object factor).iAllIndex := by
          rw [PoolClass.base_shift]
          omega
        rw [if_neg behind, position]
        exact induction formatted listed' inside

theorem deallocate2_pool :
    ∀ {pAddr}, Formatted factor memory free pAddr layouts →
      member ∈ poolClasses factor layouts → k < member.area.blockCount →
      SameRun (deallocate2 (member.base + k + 1)
        (layouts.map (PartLayout.object factor)))
        (member.area.allocator.chunk.deallocate2 (k + 1)) memory := by
  induction layouts generalizing member with
  | nil =>
      intro pAddr _ listed
      exact absurd listed List.not_mem_nil
  | cons layout nested induction =>
      intro pAddr formatted listed inside
      obtain ⟨rfl, accepted, headed, linked, formatted⟩ := formatted
      unfold List.map deallocate2
      rcases List.mem_append.mp listed with listed | listed
      · obtain ⟨count, _, _, _, _, _⟩ := mem_classesFrom listed
        have position : member.base + k + 1 =
            (member.index - 0) * layout.count factor + (k + 1) := by
          rw [base_of_mem listed]
          rfl
        rw [count] at inside
        refine (deallocate2In_same listed inside position).bind.trans ?_
        rw [bind_assoc]
        simp only [pure_bind, bind_pure_unit]
        exact SameRun.refl
      · obtain ⟨other, listed', rfl⟩ := List.mem_map.mp listed
        have position : (other.shift
            (layout.object factor).iAllIndex).base + k + 1 -
            (layout.object factor).iAllIndex = other.base + k + 1 := by
          rw [PoolClass.base_shift]
          omega
        have behind : (layout.object factor).iAllIndex < (other.shift
            (layout.object factor).iAllIndex).base + k + 1 := by
          rw [PoolClass.base_shift]
          omega
        refine (deallocate2In_behind _ behind).skip.trans ?_
        show SameRun (deallocate2 ((other.shift
          (layout.object factor).iAllIndex).base + k + 1 -
            (layout.object factor).iAllIndex) _) _ _
        rw [position]
        exact induction formatted listed' inside

end Pool

end MemChunk

end TarsCpp
