import TarsCpp.MemChunk.MemChunk

/-!
# The free list of one block size

An area holds blocks of one size behind its two heads.  The first available
block and the first words of the free blocks link them in some order; the
other blocks belong to their users, who may store anything in them.
-/

namespace TarsCpp

namespace MemChunk

open Interruption FlatMemory

/-- An area of equal blocks, from its `TC_MemChunkAllocator` head on. -/
structure ClassArea where
  start : Nat
  blockSize : Nat
  blockCount : Nat
deriving DecidableEq, Repr

namespace ClassArea

def headsSize : Nat :=
  TcMemChunkAllocator.getHeadSize + TcMemChunk.getHeadSize

variable (area : ClassArea)

def allocator : TcMemChunkAllocator := ⟨area.start⟩

def length : Nat := headsSize + area.blockSize * area.blockCount

def stop : Nat := area.start + area.length

def block (k : Nat) : Nat := area.start + headsSize + k * area.blockSize

theorem block_stop {k : Nat} (inside : k < area.blockCount) :
    area.block k + area.blockSize ≤ area.stop := by
  have whole : (k + 1) * area.blockSize ≤
      area.blockCount * area.blockSize :=
    Nat.mul_le_mul_right _ inside
  rw [Nat.add_mul, Nat.one_mul, Nat.mul_comm area.blockCount] at whole
  unfold block stop length
  omega

theorem block_apart {k l : Nat} (before : k < l) :
    area.block k + area.blockSize ≤ area.block l := by
  have whole : (k + 1) * area.blockSize ≤ l * area.blockSize :=
    Nat.mul_le_mul_right _ before
  rw [Nat.add_mul, Nat.one_mul] at whole
  unfold block
  omega

theorem start_add_heads_le_block (k : Nat) :
    area.start + headsSize ≤ area.block k :=
  Nat.le_add_right _ _

theorem chunk_le_block (k : Nat) :
    area.allocator.chunk.pHead ≤ area.block k :=
  Nat.le_trans (Nat.add_le_add_left (by decide) _)
    (area.start_add_heads_le_block k)

theorem pData_eq : area.allocator.chunk.pData = area.start + headsSize :=
  Nat.add_assoc ..

end ClassArea

/-- The blocks `free` are linked, starting with number `first`. -/
def Chain (memory : Memory) (area : ClassArea) : Nat → List Nat → Prop
  | _, [] => True
  | first, k :: later =>
      first = k ∧ Chain memory area (memory.word 8 (area.block k)) later

/-- The heads of an area describe it, and exactly the blocks `free` are
linked. -/
structure Linked (memory : Memory) (area : ClassArea) (free : List Nat) :
    Prop where
  inside : area.stop ≤ memory.size
  wide : 8 < area.blockSize
  memSize : memory.word 8 area.start = area.length
  allocatorBlockSize : memory.word 8 (area.start + 8) = area.blockSize
  blockSize : memory.word 8 (area.start + 16) = area.blockSize
  blockCount : memory.word 8 (area.start + 24) = area.blockCount
  available : memory.word 8 (area.start + 40) = free.length
  chain : Chain memory area (memory.word 8 (area.start + 32)) free
  bounded : ∀ k ∈ free, k < area.blockCount
  distinct : free.Nodup

/-- Outside of an interval nothing changes. -/
structure ChangedWithin (low high : Nat) (memory after : Memory) : Prop where
  size : after.size = memory.size
  same : ∀ place, place < low ∨ high ≤ place →
    after.byte place = memory.byte place

theorem ChangedWithin.sameOn {low high address count : Nat}
    {memory after : Memory} (changed : ChangedWithin low high memory after)
    (apart : address + count ≤ low ∨ high ≤ address) :
    SameOn address count memory after := by
  intro place above below
  refine (changed.same place ?_).symm
  omega

theorem ChangedWithin.refl {low high : Nat} {memory : Memory} :
    ChangedWithin low high memory memory where
  size := rfl
  same _ _ := rfl

theorem ChangedWithin.trans {low high : Nat} {memory between after : Memory}
    (first : ChangedWithin low high memory between)
    (second : ChangedWithin low high between after) :
    ChangedWithin low high memory after where
  size := second.size.trans first.size
  same := by
    intro place outside
    rw [second.same place outside, first.same place outside]

theorem ChangedWithin.widen {low high low' high' : Nat}
    {memory after : Memory} (changed : ChangedWithin low high memory after)
    (below : low' ≤ low) (above : high ≤ high') :
    ChangedWithin low' high' memory after where
  size := changed.size
  same := by
    intro place outside
    apply changed.same
    omega

theorem ChangedWithin.patch {low high address count : Nat}
    {memory after : Memory} (changed : ChangedWithin low high memory after)
    (below : low ≤ address) (above : address + count ≤ high)
    (replacement : Nat → UInt8) :
    ChangedWithin low high memory
      (after.patch address count replacement) where
  size := changed.size
  same := by
    intro place outside
    rw [← changed.same place outside]
    refine if_neg ?_
    omega

section Frames

variable {memory after : Memory} {area : ClassArea} {free : List Nat}

theorem Chain.congr (same : ∀ k ∈ free,
      SameOn (area.block k) 8 memory after) :
    ∀ {first}, Chain memory area first free →
      Chain after area first free := by
  induction free with
  | nil =>
      intro first _
      trivial
  | cons k later induction =>
      intro first ⟨here, chain⟩
      refine ⟨here, ?_⟩
      rw [← word_congr (same k List.mem_cons_self)]
      exact induction
        (fun l member => same l (List.mem_cons_of_mem _ member)) chain

/-- The free list depends on the heads and the first words of free blocks. -/
theorem Linked.congr (linked : Linked memory area free)
    (size : memory.size ≤ after.size)
    (heads : SameOn area.start ClassArea.headsSize memory after)
    (links : ∀ k ∈ free, SameOn (area.block k) 8 memory after) :
    Linked after area free := by
  have headWord : ∀ offset, offset + 8 ≤ ClassArea.headsSize →
      memory.word 8 (area.start + offset) =
        after.word 8 (area.start + offset) := by
    intro offset below
    exact word_congr (heads.within (by omega) (by omega))
  constructor
  · exact Nat.le_trans linked.inside size
  · exact linked.wide
  · exact (headWord 0 (by decide)).symm.trans linked.memSize
  · exact (headWord 8 (by decide)).symm.trans linked.allocatorBlockSize
  · exact (headWord 16 (by decide)).symm.trans linked.blockSize
  · exact (headWord 24 (by decide)).symm.trans linked.blockCount
  · exact (headWord 40 (by decide)).symm.trans linked.available
  · rw [← headWord 32 (by decide)]
    exact Chain.congr links linked.chain
  · exact linked.bounded
  · exact linked.distinct

theorem Linked.elsewhere (linked : Linked memory area free) {low high : Nat}
    (changed : ChangedWithin low high memory after)
    (apart : area.stop ≤ low ∨ high ≤ area.start) :
    Linked after area free := by
  have whole : SameOn area.start area.length memory after :=
    changed.sameOn apart
  refine linked.congr (Nat.le_of_eq changed.size.symm)
    (whole.within (Nat.le_refl _) ?_) ?_
  · unfold ClassArea.length
    omega
  · intro k member
    have stop := area.block_stop (linked.bounded k member)
    have wide := linked.wide
    have below := area.start_add_heads_le_block k
    unfold ClassArea.stop at stop
    exact whole.within (by omega) (by omega)

theorem Linked.stored (linked : Linked memory area free)
    {address value : Nat}
    (apart : area.stop ≤ address ∨ address + 8 ≤ area.start) :
    Linked (memory.withWord 8 address value) area free := by
  have changed : ChangedWithin address (address + 8) memory
      (memory.withWord 8 address value) := by
    unfold Memory.withWord
    exact ChangedWithin.refl.patch (Nat.le_refl _) (Nat.le_refl _) _
  exact linked.elsewhere changed apart

end Frames

section Access

variable {memory : Memory} {area : ClassArea} {free : List Nat}

theorem loadSize_yields {address : Nat} (inside : address + 8 ≤ memory.size) :
    Yields (loadSize address) memory (memory.word 8 address) :=
  load_yields Failure.outside inside

theorem Linked.head_inside (linked : Linked memory area free) (offset : Nat)
    (below : offset + 8 ≤ ClassArea.headsSize) :
    area.start + offset + 8 ≤ memory.size := by
  have inside := linked.inside
  unfold ClassArea.stop ClassArea.length at inside
  omega

theorem Linked.getMemSize (linked : Linked memory area free) :
    Yields area.allocator.getMemSize memory area.length := by
  rw [← linked.memSize]
  exact loadSize_yields (linked.head_inside 0 (by decide))

theorem Linked.getBlockSize (linked : Linked memory area free) :
    Yields area.allocator.getBlockSize memory area.blockSize := by
  rw [← linked.allocatorBlockSize]
  exact loadSize_yields (linked.head_inside 8 (by decide))

theorem Linked.iBlockSize (linked : Linked memory area free) :
    Yields area.allocator.chunk.iBlockSize memory area.blockSize := by
  rw [← linked.blockSize]
  exact loadSize_yields (linked.head_inside 16 (by decide))

theorem Linked.iBlockCount (linked : Linked memory area free) :
    Yields area.allocator.chunk.iBlockCount memory area.blockCount := by
  rw [← linked.blockCount]
  exact loadSize_yields (linked.head_inside 24 (by decide))

theorem firstAvailableBlock_yields (inside : area.start + 40 ≤ memory.size) :
    Yields area.allocator.chunk.firstAvailableBlock memory
      (memory.word 8 (area.start + 32)) :=
  loadSize_yields inside

theorem blockAvailable_yields (inside : area.start + 48 ≤ memory.size) :
    Yields area.allocator.chunk.blockAvailable memory
      (memory.word 8 (area.start + 40)) :=
  loadSize_yields inside

theorem Linked.firstAvailableBlock (linked : Linked memory area free) :
    Yields area.allocator.chunk.firstAvailableBlock memory
      (memory.word 8 (area.start + 32)) :=
  firstAvailableBlock_yields (linked.head_inside 32 (by decide))

theorem Linked.blockAvailable (linked : Linked memory area free) :
    Yields area.allocator.chunk.blockAvailable memory free.length := by
  rw [← linked.available]
  exact blockAvailable_yields (linked.head_inside 40 (by decide))

end Access

section Operations

variable {memory : Memory} {area : ClassArea} {free later : List Nat}
  {k : Nat} {allowed : Failure → Prop}

theorem storeSize_performs {memory' : Memory} {address value : Nat}
    {returns : Unit → Memory → Prop} (inside : address + 8 ≤ memory'.size)
    (holds : returns () (memory'.withWord 8 address value)) :
    Performs allowed (storeSize address value) memory' returns
      (fun _ => True) :=
  store_performs Failure.outside inside trivial holds

theorem memsetZero_performs {memory' : Memory} {address count : Nat}
    {returns : Unit → Memory → Prop}
    (inside : address + count ≤ memory'.size)
    (holds : returns () (memory'.filled address count)) :
    Performs allowed (memsetZero address count) memory' returns
      (fun _ => True) :=
  fill_performs Failure.outside inside trivial holds

theorem allocate2_exhausted (linked : Linked memory area []) :
    Yields area.allocator.chunk.allocate2 memory none := by
  have nothing : Yields area.allocator.chunk.allocate memory none := by
    refine linked.blockAvailable.bind ?_
    rw [if_neg (by simp)]
    exact Yields.pure _
  exact linked.firstAvailableBlock.bind (nothing.bind (Yields.pure _))

theorem ClassArea.word_apart {k l : Nat} (other : l ≠ k)
    (wide : 8 < area.blockSize) :
    area.block l + 8 ≤ area.block k ∨ area.block k + 8 ≤ area.block l := by
  rcases Nat.lt_or_gt_of_ne other with less | greater
  · have := area.block_apart less
    omega
  · have := area.block_apart greater
    omega

theorem Linked.few (linked : Linked memory area free)
    (addressable : memory.size < 2 ^ 64) : area.blockCount < 2 ^ 64 := by
  have inside := linked.inside
  have wide := linked.wide
  have many : 8 * area.blockCount ≤ area.blockSize * area.blockCount :=
    Nat.mul_le_mul_right _ (Nat.le_of_lt wide)
  unfold ClassArea.stop ClassArea.length at inside
  omega

theorem Linked.length_le (linked : Linked memory area free) :
    free.length ≤ area.blockCount := by
  have members : free ⊆ List.range area.blockCount := by
    intro k member
    exact List.mem_range.mpr (linked.bounded k member)
  have fits := (linked.distinct.subperm members).length_le
  simpa using fits

/-- The memory after block `k` was taken from the front of the list. -/
def handedOut (memory : Memory) (area : ClassArea) (k : Nat)
    (later : List Nat) : Memory :=
  ((memory.withWord 8 (area.start + 40) later.length).withWord 8
    (area.start + 32) (memory.word 8 (area.block k))).filled
    (area.block k) 8

theorem Linked.handedOut_changed (linked : Linked memory area (k :: later)) :
    ChangedWithin area.start area.stop memory
      (handedOut memory area k later) := by
  have wide := linked.wide
  have stop := area.block_stop (linked.bounded k List.mem_cons_self)
  have below := area.start_add_heads_le_block k
  have heads : ClassArea.headsSize = 48 := rfl
  unfold MemChunk.handedOut Memory.withWord Memory.filled
  refine ChangedWithin.patch (ChangedWithin.patch (ChangedWithin.patch
    ChangedWithin.refl ?_ ?_ _) ?_ ?_ _) ?_ ?_ _
  all_goals omega

theorem Linked.handedOut (addressable : memory.size < 2 ^ 64)
    (linked : Linked memory area (k :: later)) :
    Linked (handedOut memory area k later) area later := by
  have wide := linked.wide
  have below := area.start_add_heads_le_block k
  have heads : ClassArea.headsSize = 48 := rfl
  obtain ⟨fresh, distinct⟩ := List.nodup_cons.mp linked.distinct
  obtain ⟨first, chain⟩ := linked.chain
  have few : later.length < 2 ^ 64 := by
    have most := linked.length_le
    have few := linked.few addressable
    rw [List.length_cons] at most
    omega
  have kept : ∀ address, address + 8 ≤ area.start + 32 →
      (MemChunk.handedOut memory area k later).word 8 address =
        memory.word 8 address := by
    intro address before
    unfold MemChunk.handedOut
    rw [word_filled_apart (by omega), word_withWord_apart (by omega),
      word_withWord_apart (by omega)]
  constructor
  · exact linked.inside
  · exact wide
  · rw [kept _ (by omega)]
    exact linked.memSize
  · rw [kept _ (by omega)]
    exact linked.allocatorBlockSize
  · rw [kept _ (by omega)]
    exact linked.blockSize
  · rw [kept _ (by omega)]
    exact linked.blockCount
  · unfold MemChunk.handedOut
    rw [word_filled_apart (by omega), word_withWord_apart (by omega),
      word_withWord few]
  · unfold MemChunk.handedOut
    rw [word_filled_apart (by omega), word_withWord (word_lt _ _ _)]
    refine Chain.congr ?_ chain
    intro l member
    have other : l ≠ k := by
      rintro rfl
      exact fresh member
    have above := area.start_add_heads_le_block l
    have apart := ClassArea.word_apart other wide
    intro place low high
    symm
    refine (sameOn_patch apart place low high).trans
      ((sameOn_patch (by omega) place low high).trans
        (sameOn_patch (by omega) place low high))
  · intro l member
    exact linked.bounded l (List.mem_cons_of_mem _ member)
  · exact distinct

/-- The first free block is handed out. -/
theorem allocate2_performs (addressable : memory.size < 2 ^ 64)
    (linked : Linked memory area (k :: later)) :
    Performs allowed area.allocator.chunk.allocate2 memory
      (fun found after => found = some (area.block k, k + 1) ∧
        Linked after area later ∧
        ChangedWithin area.start area.stop memory after)
      (fun _ => True) := by
  have wide := linked.wide
  have inside := linked.inside
  have stop := area.block_stop (linked.bounded k List.mem_cons_self)
  have below := area.start_add_heads_le_block k
  have heads : ClassArea.headsSize = 48 := rfl
  obtain ⟨first, _⟩ := linked.chain
  refine linked.firstAvailableBlock.performs (Performs.bind
    (p := fun found after => found = some (area.block k) ∧
      after = handedOut memory area k later) ?_ ?_)
  · refine linked.blockAvailable.performs ?_
    rw [if_pos (by simp)]
    refine linked.firstAvailableBlock.performs
      (linked.iBlockSize.performs ?_)
    rw [first, ClassArea.pData_eq]
    refine Performs.bind (p := fun _ after => after =
      memory.withWord 8 (area.start + 40) later.length)
      (storeSize_performs (linked.head_inside 40 (by decide)) rfl) ?_
    rintro _ _ rfl
    refine Yields.performs (loadSize_yields ?_) ?_
    · show area.block k + 8 ≤ memory.size
      omega
    rw [word_withWord_apart (by omega)]
    refine Performs.bind (p := fun _ after => after = _)
      (storeSize_performs (linked.head_inside 32 (by decide)) rfl) ?_
    rintro _ _ rfl
    refine Performs.bind (p := fun _ after => after = _)
      (memsetZero_performs (by
        show area.block k + 8 ≤ memory.size
        omega) rfl) ?_
    rintro _ _ rfl
    exact Performs.pure ⟨rfl, rfl⟩
  · rintro _ after ⟨rfl, rfl⟩
    rw [first]
    exact Performs.pure
      ⟨rfl, linked.handedOut addressable, linked.handedOut_changed⟩

/-- The memory after block `k` was put in front of the list. -/
def takenBack (memory : Memory) (area : ClassArea) (k : Nat)
    (free : List Nat) : Memory :=
  (((memory.filled (area.block k) area.blockSize).withWord 8
    (area.block k) (memory.word 8 (area.start + 32))).withWord 8
    (area.start + 32) k).withWord 8 (area.start + 40) (free.length + 1)

theorem Linked.takenBack_changed (linked : Linked memory area free)
    (inside : k < area.blockCount) :
    ChangedWithin area.start area.stop memory
      (takenBack memory area k free) := by
  have wide := linked.wide
  have stop := area.block_stop inside
  have below := area.start_add_heads_le_block k
  have heads : ClassArea.headsSize = 48 := rfl
  unfold MemChunk.takenBack Memory.withWord Memory.filled
  refine ChangedWithin.patch (ChangedWithin.patch (ChangedWithin.patch
    (ChangedWithin.patch ChangedWithin.refl ?_ ?_ _) ?_ ?_ _) ?_ ?_ _)
    ?_ ?_ _
  all_goals omega

theorem Linked.takenBack (addressable : memory.size < 2 ^ 64)
    (linked : Linked memory area free) (inside : k < area.blockCount)
    (live : k ∉ free) :
    Linked (takenBack memory area k free) area (k :: free) := by
  have wide := linked.wide
  have below := area.start_add_heads_le_block k
  have heads : ClassArea.headsSize = 48 := rfl
  have few := linked.few addressable
  have distinct : (k :: free).Nodup := List.nodup_cons.mpr
    ⟨live, linked.distinct⟩
  have bounded : ∀ l ∈ k :: free, l < area.blockCount := by
    intro l member
    rcases List.mem_cons.mp member with rfl | member
    · exact inside
    · exact linked.bounded l member
  have most : free.length + 1 ≤ area.blockCount := by
    have members : k :: free ⊆ List.range area.blockCount := by
      intro l member
      exact List.mem_range.mpr (bounded l member)
    have fits := (distinct.subperm members).length_le
    simpa using fits
  have kept : ∀ address, address + 8 ≤ area.start + 32 →
      (MemChunk.takenBack memory area k free).word 8 address =
        memory.word 8 address := by
    intro address before
    unfold MemChunk.takenBack
    rw [word_withWord_apart (by omega), word_withWord_apart (by omega),
      word_withWord_apart (by omega), word_filled_apart (by omega)]
  constructor
  · exact linked.inside
  · exact wide
  · rw [kept _ (by omega)]
    exact linked.memSize
  · rw [kept _ (by omega)]
    exact linked.allocatorBlockSize
  · rw [kept _ (by omega)]
    exact linked.blockSize
  · rw [kept _ (by omega)]
    exact linked.blockCount
  · unfold MemChunk.takenBack
    rw [word_withWord (Nat.lt_of_le_of_lt most few), List.length_cons]
  · unfold MemChunk.takenBack
    rw [word_withWord_apart (by omega),
      word_withWord (Nat.lt_trans inside few)]
    refine ⟨rfl, ?_⟩
    rw [word_withWord_apart (by omega), word_withWord_apart (by omega),
      word_withWord (word_lt _ _ _)]
    refine Chain.congr ?_ linked.chain
    intro l member
    have other : l ≠ k := by
      rintro rfl
      exact live member
    have above := area.start_add_heads_le_block l
    have apart := ClassArea.word_apart other wide
    have blocks : area.block l + 8 ≤ area.block k ∨
        area.block k + area.blockSize ≤ area.block l := by
      rcases Nat.lt_or_gt_of_ne other with less | greater
      · have := area.block_apart less
        omega
      · exact Or.inr (area.block_apart greater)
    intro place low high
    symm
    refine (sameOn_patch (by omega) place low high).trans
      ((sameOn_patch (by omega) place low high).trans
        ((sameOn_patch apart place low high).trans
          (sameOn_patch blocks place low high)))
  · exact bounded
  · exact distinct

theorem pAddr_sub_pData (k : Nat) :
    area.block k - area.allocator.chunk.pData = k * area.blockSize := by
  rw [ClassArea.pData_eq]
  exact Nat.add_sub_cancel_left _ _

theorem deallocate_performs (addressable : memory.size < 2 ^ 64)
    (linked : Linked memory area free) (inside : k < area.blockCount) :
    Performs allowed (area.allocator.chunk.deallocate (area.block k)) memory
      (fun _ after => after = takenBack memory area k free)
      (fun _ => True) := by
  have wide := linked.wide
  have whole := linked.inside
  have stop := area.block_stop inside
  have below := area.start_add_heads_le_block k
  have heads : ClassArea.headsSize = 48 := rfl
  have few := linked.few addressable
  have quotient :
      (area.block k - area.allocator.chunk.pData) / area.blockSize = k := by
    rw [pAddr_sub_pData]
    exact Nat.mul_div_cancel k (by omega)
  have aligned : (area.block k - area.allocator.chunk.pData) %
      area.blockSize = 0 := by
    rw [pAddr_sub_pData]
    exact Nat.mul_mod_left ..
  have behind : area.block k ≥ area.allocator.chunk.pData := by
    rw [ClassArea.pData_eq]
    exact below
  -- no assertion looks at a word that the writes before it have changed
  refine Performs.bindRequire behind (linked.iBlockSize.performs
    (Performs.bindRequire aligned (Performs.bind
      (p := fun _ after => after = _)
      (memsetZero_performs (by omega) rfl) ?_)))
  rintro _ _ rfl
  refine (firstAvailableBlock_yields ?_).performs ?_
  · exact linked.head_inside 32 (by decide)
  rw [word_filled_apart (by omega)]
  refine Performs.bind (p := fun _ after => after = _)
    (storeSize_performs (by
      show area.block k + 8 ≤ memory.size
      omega) rfl) ?_
  rintro _ _ rfl
  rw [quotient]
  refine Performs.bind (p := fun _ after => after = _)
    (storeSize_performs (linked.head_inside 32 (by decide)) rfl) ?_
  rintro _ _ rfl
  refine (firstAvailableBlock_yields ?_).performs ?_
  · exact linked.head_inside 32 (by decide)
  refine Performs.bindRequire
    (word_withWord (Nat.lt_trans inside few)) ?_
  refine (blockAvailable_yields ?_).performs ?_
  · exact linked.head_inside 40 (by decide)
  have counted : ((((memory.filled (area.block k) area.blockSize).withWord 8
      (area.block k) (memory.word 8 (area.start + 32))).withWord 8
      (area.start + 32) k).word 8 (area.start + 40)) = free.length := by
    rw [word_withWord_apart (by omega), word_withWord_apart (by omega),
      word_filled_apart (by omega)]
    exact linked.available
  refine storeSize_performs (linked.head_inside 40 (by decide)) ?_
  unfold takenBack
  rw [← counted]
  rfl

theorem deallocate2_same (linked : Linked memory area free)
    (inside : k < area.blockCount) :
    SameRun (area.allocator.chunk.deallocate2 (k + 1))
      (area.allocator.chunk.deallocate (area.block k)) memory := by
  have numbered : k + 1 > 0 ∧ k + 1 ≤ area.blockCount :=
    ⟨Nat.succ_pos k, inside⟩
  have address : area.allocator.chunk.pData +
      (k + 1 - 1) * area.blockSize = area.block k := by
    rw [ClassArea.pData_eq, Nat.add_sub_cancel]
    rfl
  refine linked.iBlockCount.skip.trans
    ((Yields.require numbered _).skip.trans
      (linked.iBlockSize.skip.trans ?_))
  rw [address]
  exact SameRun.refl

theorem getAbsolute_yields (linked : Linked memory area free)
    (inside : k < area.blockCount) :
    Yields (area.allocator.chunk.getAbsolute (k + 1)) memory
      (area.block k) := by
  have numbered : k + 1 > 0 ∧ k + 1 ≤ area.blockCount :=
    ⟨Nat.succ_pos k, inside⟩
  refine linked.iBlockCount.bind ((Yields.require numbered _).bind
    (linked.iBlockSize.bind ?_))
  rw [ClassArea.pData_eq, Nat.add_sub_cancel]
  exact Yields.pure _

theorem getRelative_yields (linked : Linked memory area free)
    (inside : k < area.blockCount) :
    Yields (area.allocator.chunk.getRelative (area.block k)) memory
      (k + 1) := by
  have wide := linked.wide
  have between : area.block k ≥ area.allocator.chunk.pData ∧
      area.block k ≤ area.allocator.chunk.pData +
        area.blockSize * area.blockCount := by
    have stop := area.block_stop inside
    rw [ClassArea.pData_eq]
    unfold ClassArea.stop ClassArea.length at stop
    exact ⟨area.start_add_heads_le_block k, by omega⟩
  have aligned : (area.block k - area.allocator.chunk.pData) %
      area.blockSize = 0 := by
    rw [pAddr_sub_pData]
    exact Nat.mul_mod_left ..
  refine linked.iBlockSize.bind (linked.iBlockCount.bind
    ((Yields.require between _).bind ((Yields.require aligned _).bind ?_)))
  rw [pAddr_sub_pData, Nat.mul_div_cancel k (by omega), Nat.add_comm]
  exact Yields.pure _

end Operations

end MemChunk

end TarsCpp
