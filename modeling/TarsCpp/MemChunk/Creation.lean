import TarsCpp.MemChunk.FreeList

/-!
# Creating the areas of an allocator

`create` computes its sizes with wrapping arithmetic.  A run of it that stores
inside the memory only has written at least one block of every size, so that
the block sizes add up to less than the memory has, and nothing has wrapped.
-/

namespace TarsCpp

namespace MemChunk

open Interruption FlatMemory

section Checked

variable {α : Type} {memory : Memory} {address value count : Nat}
  {next : Unit → MemTask α} {returns : α → Memory → Prop}

theorem store_checked {width : Nat}
    (following : address + width ≤ memory.size →
      Performs anyFailure (next ()) (memory.withWord width address value)
        returns (fun _ => True)) :
    Performs anyFailure (store .outside width address value >>= next) memory
      returns (fun _ => True) := by
  have stores : Performs anyFailure
      (store Failure.outside width address value) memory
      (fun _ after => address + width ≤ memory.size ∧
        after = memory.withWord width address value) (fun _ => True) := by
    apply Performs.bindRead
    apply Performs.bindCheck (fun _ => trivial)
    intro inside
    exact Performs.write trivial ⟨inside, rfl⟩
  apply Performs.bind stores
  rintro _ _ ⟨inside, rfl⟩
  exact following inside

theorem storeSize_checked
    (following : address + 8 ≤ memory.size →
      Performs anyFailure (next ()) (memory.withWord 8 address value) returns
        (fun _ => True)) :
    Performs anyFailure (storeSize address value >>= next) memory returns
      (fun _ => True) :=
  store_checked following

theorem memsetZero_checked
    (following : address + count ≤ memory.size →
      Performs anyFailure (next ()) (memory.filled address count) returns
        (fun _ => True)) :
    Performs anyFailure (memsetZero address count >>= next) memory returns
      (fun _ => True) := by
  have fills : Performs anyFailure (memsetZero address count) memory
      (fun _ after => address + count ≤ memory.size ∧
        after = memory.filled address count) (fun _ => True) := by
    apply Performs.bindRead
    apply Performs.bindCheck (fun _ => trivial)
    intro inside
    exact Performs.write trivial ⟨inside, rfl⟩
  apply Performs.bind fills
  rintro _ _ ⟨inside, rfl⟩
  exact following inside

theorem assert_checked {condition : Prop} [Decidable condition]
    (following : condition →
      Performs anyFailure (next ()) memory returns (fun _ => True)) :
    Performs anyFailure (assert condition >>= next) memory returns
      (fun _ => True) :=
  Performs.bindCheck (fun _ => trivial) following

end Checked

section OneArea

variable {memory : Memory} {area : ClassArea}

/-- The first words of the blocks before `linked` are written. -/
structure Linking (memory : Memory) (area : ClassArea) (linked : Nat)
    (after : Memory) : Prop where
  changed : ChangedWithin (area.start + ClassArea.headsSize) area.stop memory
    after
  links : ∀ k < linked, after.word 8 (area.block k) = k + 1

theorem linkBlocks_performs (wide : 8 < area.blockSize)
    (few : area.blockCount < 2 ^ 64) (inside : area.stop ≤ memory.size)
    {allowed : Failure → Prop} :
    Performs allowed
      (area.allocator.chunk.linkBlocks area.blockSize area.blockCount) memory
      (fun _ after => Linking memory area area.blockCount after)
      (fun _ => True) := by
  apply Performs.forRange
  · intro i after bounded linking
    have stop := area.block_stop bounded
    have below := area.start_add_heads_le_block i
    rw [ClassArea.pData_eq]
    have within : area.block i + 8 ≤ after.size := by
      rw [linking.changed.size]
      omega
    refine storeSize_performs within ?_
    constructor
    · exact linking.changed.patch below (by
        show area.block i + 8 ≤ area.stop
        omega) _
    · intro k before
      rcases Nat.lt_succ_iff_lt_or_eq.mp before with earlier | rfl
      · have apart := area.block_apart earlier
        rw [← linking.links k earlier]
        exact word_withWord_apart (Or.inl (by
          show area.block k + 8 ≤ area.block i
          omega))
      · exact word_withWord (Nat.lt_of_le_of_lt bounded few)
  · constructor
    · exact ChangedWithin.refl
    · intro k before
      exact absurd before (Nat.not_lt_zero k)

theorem chain_range' {after : Memory}
    (links : ∀ k < area.blockCount, after.word 8 (area.block k) = k + 1) :
    ∀ {left first}, first + left = area.blockCount →
      Chain after area first (List.range' first left) := by
  intro left
  induction left with
  | zero =>
      intro first _
      trivial
  | succ left induction =>
      intro first whole
      refine ⟨rfl, ?_⟩
      rw [links first (by omega)]
      apply induction
      omega

variable (area) in
/-- `create` of a chunk links all of its blocks, in their order. -/
theorem chunkCreate_performs (addressable : memory.size < 2 ^ 64)
    (positive : 0 < area.blockCount)
    (blockSize : memory.word 8 (area.start + 8) = area.blockSize) :
    Performs anyFailure
      (area.allocator.chunk.create area.blockSize area.blockCount) memory
      (fun _ after => area.stop ≤ memory.size ∧
        ChangedWithin area.start area.stop memory after ∧
        (memory.word 8 area.start = area.length →
          Linked after area (List.range area.blockCount)))
      (fun _ => True) := by
  have heads : ClassArea.headsSize = 48 := rfl
  have pHead : area.allocator.chunk.pHead = area.start + 16 := rfl
  have stop : area.stop = area.start + 48 +
      area.blockCount * area.blockSize := by
    unfold ClassArea.stop ClassArea.length
    rw [Nat.mul_comm area.blockSize]
    omega
  refine assert_checked fun wide => ?_
  refine storeSize_checked fun inside₁ => ?_
  refine storeSize_checked fun inside₂ => ?_
  refine storeSize_checked fun inside₃ => ?_
  refine storeSize_checked fun inside₄ => ?_
  refine memsetZero_checked fun inside => ?_
  rw [ClassArea.pData_eq] at inside ⊢
  simp only [size_withWord] at inside
  have whole : area.stop ≤ memory.size := by omega
  have few : area.blockCount < 2 ^ 64 ∧ area.blockSize < 2 ^ 64 := by
    have one : 1 * area.blockSize ≤ area.blockCount * area.blockSize :=
      Nat.mul_le_mul_right _ positive
    have eight : area.blockCount * 1 ≤ area.blockCount * area.blockSize :=
      Nat.mul_le_mul_left _ (by omega)
    omega
  refine (linkBlocks_performs wide few.1 ?_).mono ?_ (fun _ _ => trivial)
  · exact whole
  intro _ after linking
  have headWord : ∀ offset, offset + 8 ≤ 48 →
      after.word 8 (area.start + offset) =
        ((((memory.withWord 8 (area.start + 16) area.blockSize).withWord 8
          (area.start + 24) area.blockCount).withWord 8 (area.start + 32)
            0).withWord 8 (area.start + 40) area.blockCount).word 8
          (area.start + offset) := by
    intro offset before
    rw [← word_congr (linking.changed.sameOn (by omega))]
    exact word_filled_apart (by omega)
  refine ⟨whole, ?_, fun memSize =>
    ⟨?_, wide, ?_, ?_, ?_, ?_, ?_, ?_, ?_, ?_⟩⟩
  · refine ChangedWithin.trans ?_ (linking.changed.widen
      (Nat.le_add_right _ _) (Nat.le_refl _))
    unfold Memory.withWord Memory.filled
    refine ChangedWithin.patch (ChangedWithin.patch (ChangedWithin.patch
      (ChangedWithin.patch (ChangedWithin.patch ChangedWithin.refl
        ?_ ?_ _) ?_ ?_ _) ?_ ?_ _) ?_ ?_ _) ?_ ?_ _
    all_goals omega
  · rw [linking.changed.size]
    exact whole
  · refine (headWord 0 (by decide)).trans ?_
    rw [word_withWord_apart (by omega), word_withWord_apart (by omega),
      word_withWord_apart (by omega), word_withWord_apart (by omega)]
    exact memSize
  · rw [headWord 8 (by decide), word_withWord_apart (by omega),
      word_withWord_apart (by omega), word_withWord_apart (by omega),
      word_withWord_apart (by omega)]
    exact blockSize
  · rw [headWord 16 (by decide), word_withWord_apart (by omega),
      word_withWord_apart (by omega), word_withWord_apart (by omega),
      word_withWord few.2]
  · rw [headWord 24 (by decide), word_withWord_apart (by omega),
      word_withWord_apart (by omega), word_withWord few.1]
  · rw [headWord 40 (by decide), word_withWord few.1, List.length_range]
  · rw [headWord 32 (by decide), word_withWord_apart (by omega),
      word_withWord (by decide), List.range_eq_range']
    exact chain_range' linking.links (Nat.zero_add _)
  · intro k member
    exact List.mem_range.mp member
  · exact List.nodup_range

/-- The memory after the head of an area is written. -/
def withAllocatorHead (memory : Memory) (start iSize blockSize : Nat) :
    Memory :=
  (memory.withWord 8 start iSize).withWord 8 (start + 8) blockSize

theorem word_withAllocatorHead_size {start iSize blockSize : Nat}
    (small : iSize < 2 ^ 64) :
    (withAllocatorHead memory start iSize blockSize).word 8 start = iSize :=
  (word_withWord_apart (Or.inl (Nat.le_refl _))).trans (word_withWord small)

theorem word_withAllocatorHead_blockSize {start iSize blockSize : Nat}
    (narrow : blockSize < 2 ^ 64) :
    (withAllocatorHead memory start iSize blockSize).word 8 (start + 8) =
      blockSize :=
  word_withWord narrow

theorem getMemSize_yields {start iSize blockSize : Nat}
    (inside : start + 8 ≤ memory.size) (small : iSize < 2 ^ 64) :
    Yields (TcMemChunkAllocator.mk start).getMemSize
      (withAllocatorHead memory start iSize blockSize) iSize := by
  refine Eq.subst (motive := Yields _ _)
    (word_withAllocatorHead_size small) (loadSize_yields ?_)
  exact inside

theorem getBlockSize_yields {start iSize blockSize : Nat}
    (inside : start + 8 + 8 ≤ memory.size) (narrow : blockSize < 2 ^ 64) :
    Yields (TcMemChunkAllocator.mk start).getBlockSize
      (withAllocatorHead memory start iSize blockSize) blockSize := by
  refine Eq.subst (motive := Yields _ _)
    (word_withAllocatorHead_blockSize narrow) (loadSize_yields ?_)
  exact inside

theorem withAllocatorHead_changed {start iSize blockSize stop : Nat}
    (behind : start + 16 ≤ stop) :
    ChangedWithin start stop memory
      (withAllocatorHead memory start iSize blockSize) := by
  unfold withAllocatorHead Memory.withWord
  refine ChangedWithin.patch (ChangedWithin.patch ChangedWithin.refl
    ?_ ?_ _) ?_ ?_ _
  all_goals omega

theorem initChunk_performs {start iSize blockSize : Nat}
    (addressable : memory.size < 2 ^ 64)
    (memSize : Yields (TcMemChunkAllocator.mk start).getMemSize memory iSize)
    (getBlockSize : Yields (TcMemChunkAllocator.mk start).getBlockSize memory
      blockSize)
    (stored : memory.word 8 (start + 8) = blockSize) :
    Performs anyFailure (TcMemChunkAllocator.mk start).initChunk memory
      (fun _ after => ∃ blockCount, 0 < blockCount ∧ 48 < iSize ∧
        blockCount = (iSize - 48) / blockSize ∧
        (ClassArea.mk start blockSize blockCount).stop ≤ memory.size ∧
        ChangedWithin start (ClassArea.mk start blockSize blockCount).stop
          memory after ∧
        (memory.word 8 start =
            (ClassArea.mk start blockSize blockCount).length →
          Linked after ⟨start, blockSize, blockCount⟩
            (List.range blockCount)))
      (fun _ => True) := by
  refine memSize.performs (assert_checked fun large => assert_checked
    fun larger => getBlockSize.performs ?_)
  refine Performs.bindCheck (fun _ => trivial) fun nonzero =>
    assert_checked fun positive => ?_
  refine (chunkCreate_performs ⟨start, blockSize, _⟩ addressable
    positive stored).mono ?_ (fun _ _ => trivial)
  intro _ after ⟨inside, changed, linked⟩
  refine ⟨_, positive, ?_, ?_, inside, changed, linked⟩
  · unfold TcMemChunkAllocator.getHeadSize TcMemChunk.getHeadSize at *
    omega
  · rw [Nat.sub_sub]
    rfl

/-- A completed `create` has stored at least one block; if the size is the
one of `blockCount` blocks, then it has stored just these. -/
theorem areaCreate_performs {start iSize blockSize : Nat}
    (addressable : memory.size < 2 ^ 64) (small : iSize < 2 ^ 64)
    (narrow : blockSize < 2 ^ 64) :
    Performs anyFailure
      ((TcMemChunkAllocator.mk start).create iSize blockSize) memory
      (fun _ after => after.size = memory.size ∧ 48 + blockSize ≤ iSize ∧
        start + 48 + blockSize ≤ memory.size ∧
        ∀ blockCount, iSize = 48 + blockSize * blockCount →
          Linked after ⟨start, blockSize, blockCount⟩
            (List.range blockCount) ∧
          ChangedWithin start (start + iSize) memory after)
      (fun _ => True) := by
  refine storeSize_checked fun inside₁ => storeSize_checked fun inside₂ => ?_
  have prepared : (withAllocatorHead memory start iSize blockSize).size <
      2 ^ 64 := addressable
  refine (initChunk_performs prepared (getMemSize_yields inside₁ small)
    (getBlockSize_yields inside₂ narrow)
    (word_withAllocatorHead_blockSize narrow)).mono ?_ (fun _ _ => trivial)
  intro _ after ⟨n, positive, large, count, inside, changed, linked⟩
  have atLeast : blockSize * n ≤ iSize - 48 := by
    rw [count]
    exact Nat.mul_div_le _ _
  have one : blockSize ≤ blockSize * n := Nat.le_mul_of_pos_right _ positive
  have stop : (ClassArea.mk start blockSize n).stop =
      start + (48 + blockSize * n) := rfl
  rw [stop] at inside changed
  refine ⟨changed.size, by omega, ?_, ?_⟩
  · refine Nat.le_trans ?_ inside
    omega
  · intro blockCount whole
    have nonzero : 0 < blockSize := by
      apply Nat.pos_of_ne_zero
      rintro rfl
      rw [Nat.div_zero] at count
      omega
    have same : n = blockCount := by
      rw [count, whole, Nat.add_sub_cancel_left,
        Nat.mul_div_cancel_left _ nonzero]
    subst same
    refine ⟨linked ?_, ?_⟩
    · rw [word_withAllocatorHead_size small]
      exact whole
    · rw [whole]
      exact (withAllocatorHead_changed (by omega)).trans changed

end OneArea

section AllAreas

variable {memory : Memory} {iBlockCount : Nat}

/-- The areas of one part, for its block sizes. -/
def areasFrom (iBlockCount : Nat) : Nat → List Nat → List ClassArea
  | _, [] => []
  | start, blockSize :: later =>
      let area : ClassArea := ⟨start, blockSize, iBlockCount⟩
      area :: areasFrom iBlockCount area.stop later

def areasLength (iBlockCount : Nat) (sizes : List Nat) : Nat :=
  (sizes.map fun blockSize =>
    ClassArea.headsSize + blockSize * iBlockCount).sum

theorem areasLength_eq (sizes : List Nat) :
    areasLength iBlockCount sizes =
      ClassArea.headsSize * sizes.length + sizes.sum * iBlockCount := by
  unfold areasLength
  induction sizes with
  | nil => simp
  | cons blockSize later induction =>
      rw [List.map_cons, List.sum_cons, induction, List.length_cons,
        List.sum_cons]
      ring

open TcMemMultiChunkAllocator in
theorem classSize_eq {blockSize : Nat}
    (fits : ClassArea.headsSize + blockSize * iBlockCount < 2 ^ 64) :
    classSize iBlockCount blockSize =
      ClassArea.headsSize + blockSize * iBlockCount := by
  have heads : ClassArea.headsSize = TcMemChunkAllocator.getHeadSize +
      TcMemChunk.getHeadSize := rfl
  unfold classSize TcMemChunk.calcMemSize wrapped
  rw [Nat.mod_eq_of_lt (a := blockSize * iBlockCount + _) (by omega),
    Nat.mod_eq_of_lt (by omega)]
  omega

open TcMemMultiChunkAllocator in
/-- The loop of `create`: whatever wraps, every block size has found room for
a block; where nothing wraps, the areas lie one behind the other. -/
theorem startClasses_performs {sizes : List Nat} :
    ∀ {memory start}, memory.size < 2 ^ 64 →
      (∀ blockSize ∈ sizes, blockSize < 2 ^ 64) →
      Performs anyFailure
        (startClasses (fun allocator blockSize =>
            allocator.create (classSize iBlockCount blockSize) blockSize)
          iBlockCount start sizes) memory
        (fun allocator after => after.size = memory.size ∧
          (sizes ≠ [] → start + sizes.sum ≤ memory.size) ∧
          (areasLength iBlockCount sizes < 2 ^ 64 →
            allocator = (areasFrom iBlockCount start sizes).map
              ClassArea.allocator ∧
            (∀ area ∈ areasFrom iBlockCount start sizes,
              Linked after area (List.range iBlockCount)) ∧
            ChangedWithin start (start + areasLength iBlockCount sizes)
              memory after))
        (fun _ => True) := by
  induction sizes with
  | nil =>
      intro memory start _ _
      refine Performs.pure ⟨rfl, fun absurdity => absurd rfl absurdity,
        fun _ => ⟨rfl, ?_, ChangedWithin.refl⟩⟩
      intro area member
      exact absurd member List.not_mem_nil
  | cons blockSize later induction =>
      intro memory start addressable narrow
      have small : classSize iBlockCount blockSize < 2 ^ 64 :=
        Nat.mod_lt _ (by decide)
      apply Performs.bind (areaCreate_performs addressable small
        (narrow _ List.mem_cons_self))
      rintro _ between ⟨size, whole, room, exactly⟩
      rw [← size] at addressable
      apply Performs.bind (induction addressable
        fun other member => narrow other (List.mem_cons_of_mem _ member))
      rintro others after ⟨size', room', exactly'⟩
      refine Performs.pure ⟨size'.trans size, ?_, ?_⟩
      · intro _
        rw [List.sum_cons]
        cases later with
        | nil =>
            rw [List.sum_nil]
            omega
        | cons other later =>
            have room := room' (List.cons_ne_nil _ _)
            omega
      · intro fits
        have split : areasLength iBlockCount (blockSize :: later) =
            ClassArea.headsSize + blockSize * iBlockCount +
              areasLength iBlockCount later := rfl
        rw [split] at fits ⊢
        have length : classSize iBlockCount blockSize = _ :=
          classSize_eq (by omega)
        rw [length] at exactly exactly'
        obtain ⟨linked, changed⟩ := exactly iBlockCount rfl
        obtain ⟨rfl, linked', changed'⟩ := exactly' (by omega)
        refine ⟨rfl, ?_, ?_⟩
        · intro area member
          rcases List.mem_cons.mp member with rfl | member
          · exact linked.elsewhere changed' (Or.inl (Nat.le_refl _))
          · exact linked' area member
        · rw [← Nat.add_assoc]
          exact (changed.widen (Nat.le_refl _) (Nat.le_add_right _ _)).trans
            (changed'.widen (Nat.le_add_right _ _) (Nat.le_refl _))

end AllAreas

end MemChunk

end TarsCpp
