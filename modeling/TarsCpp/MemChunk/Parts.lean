import TarsCpp.MemChunk.Creation

/-!
# The parts of an allocator

The layout of a part follows from its head alone.  `create` writes a head and
the areas of this layout, and a process that connects computes the same layout
from the head again.
-/

namespace TarsCpp

namespace MemChunk

open Interruption FlatMemory TcMemMultiChunkAllocator

/-- The head of a part without its totals and links. -/
structure PartLayout where
  pHead : Nat
  iSize : Nat
  iMinBlockSize : Nat
  iMaxBlockSize : Nat
  bits : Nat
deriving DecidableEq, Repr

namespace PartLayout

variable (factor : Factor) (layout : PartLayout)

def sizes : List Nat :=
  blockSizes factor layout.bits layout.iMinBlockSize layout.iMaxBlockSize

def count : Nat :=
  (layout.iSize - headsSize (layout.sizes factor).length) /
    (layout.sizes factor).sum

def areas : List ClassArea :=
  areasFrom (layout.count factor) (layout.pHead + getHeadSize)
    (layout.sizes factor)

def stop : Nat := layout.pHead + layout.iSize

/-- What the object of a process knows of a part. -/
def object : Part where
  pHead := layout.pHead
  vBlockSize := layout.sizes factor
  iBlockCount := layout.count factor
  allocator := (layout.areas factor).map ClassArea.allocator
  iAllIndex := ((layout.areas factor).map ClassArea.allocator).length *
    layout.count factor

/-- The sizes with which `create` does not fail. -/
structure Accepted : Prop where
  room : headsSize (layout.sizes factor).length < layout.iSize
  small : layout.iSize < 2 ^ 64
  sum : (layout.sizes factor).sum < 2 ^ 64
  blocks : 1 ≤ layout.count factor

end PartLayout

/-- The head of a part is in memory. -/
structure Headed (memory : Memory) (layout : PartLayout) (next : Nat) :
    Prop where
  inside : layout.pHead + getHeadSize ≤ memory.size
  size : memory.word 8 layout.pHead = layout.iSize
  minimum : memory.word 8 (layout.pHead + 16) = layout.iMinBlockSize
  maximum : memory.word 8 (layout.pHead + 24) = layout.iMaxBlockSize
  bits : memory.word 4 (layout.pHead + 32) = layout.bits
  next : memory.word 8 (layout.pHead + 36) = next

section Sizes

variable {factor : Factor} {layout : PartLayout}

theorem foldl_wrapped (sizes : List Nat) :
    ∀ {sum}, sum + sizes.sum < 2 ^ 64 →
      sizes.foldl (fun sum n => wrapped (sum + n)) sum = sum + sizes.sum := by
  induction sizes with
  | nil => simp
  | cons n later induction =>
      intro sum small
      rw [List.sum_cons, ← Nat.add_assoc] at small ⊢
      have now : wrapped (sum + n) = sum + n :=
        Nat.mod_eq_of_lt (Nat.lt_of_le_of_lt (Nat.le_add_right _ _) small)
      rw [List.foldl_cons, now]
      exact induction small

theorem wrappedSum_eq {sizes : List Nat} (small : sizes.sum < 2 ^ 64) :
    wrappedSum sizes = sizes.sum := by
  rw [wrappedSum, foldl_wrapped sizes (by rwa [Nat.zero_add]), Nat.zero_add]

theorem growingSizesFor_lt {bits iMaxBlockSize turns : Nat} :
    ∀ {n}, ∀ blockSize ∈ growingSizesFor factor bits iMaxBlockSize turns n,
      blockSize < iMaxBlockSize := by
  induction turns with
  | zero =>
      intro n blockSize member
      exact absurd member List.not_mem_nil
  | succ turns induction =>
      intro n blockSize member
      unfold growingSizesFor at member
      split at member
      · next below =>
          rcases List.mem_cons.mp member with rfl | member
          · exact below
          · exact induction blockSize member
      · exact absurd member List.not_mem_nil

theorem blockSizes_le {bits iMinBlockSize iMaxBlockSize : Nat} :
    ∀ blockSize ∈ blockSizes factor bits iMinBlockSize iMaxBlockSize,
      blockSize ≤ iMaxBlockSize := by
  intro blockSize member
  rcases List.mem_append.mp member with growing | last
  · exact Nat.le_of_lt (growingSizesFor_lt blockSize growing)
  · exact Nat.le_of_eq (List.mem_singleton.mp last)

theorem headsSize_eq (classes : Nat) :
    headsSize classes = getHeadSize + ClassArea.headsSize * classes := by
  unfold headsSize ClassArea.headsSize
  rw [Nat.add_mul]
  omega

/-- The areas of a part fit into it. -/
theorem PartLayout.Accepted.areas_fit (accepted : layout.Accepted factor) :
    getHeadSize + areasLength (layout.count factor) (layout.sizes factor) ≤
      layout.iSize := by
  have room := accepted.room
  have blocks : (layout.sizes factor).sum * layout.count factor ≤
      layout.iSize - headsSize (layout.sizes factor).length :=
    Nat.mul_div_le _ _
  rw [areasLength_eq]
  rw [headsSize_eq] at room blocks
  omega

end Sizes

section Heads

variable {factor : Factor} {layout : PartLayout} {memory : Memory}
  {next : Nat}

theorem Headed.congr {after : Memory} (headed : Headed memory layout next)
    (size : memory.size ≤ after.size)
    (same : SameOn layout.pHead getHeadSize memory after) :
    Headed after layout next := by
  have word : ∀ {width} offset, offset + width ≤ getHeadSize →
      after.word width (layout.pHead + offset) =
        memory.word width (layout.pHead + offset) := by
    intro width offset before
    exact (word_congr (same.within (by omega) (by omega))).symm
  constructor
  · exact Nat.le_trans headed.inside size
  · exact (word 0 (by decide)).trans headed.size
  · exact (word 16 (by decide)).trans headed.minimum
  · exact (word 24 (by decide)).trans headed.maximum
  · exact (word 32 (by decide)).trans headed.bits
  · exact (word 36 (by decide)).trans headed.next

theorem Headed.fFactor (headed : Headed memory layout next) :
    Yields (fFactor layout.pHead) memory layout.bits := by
  rw [← headed.bits]
  refine load_yields _ (Nat.le_trans ?_ headed.inside)
  rw [Nat.add_assoc]
  exact Nat.add_le_add_left (by decide) _

theorem Headed.word_yields {value : Nat}
    (headed : Headed memory layout next) (offset : Nat) (inside : offset + 8 ≤ getHeadSize)
    (stored : memory.word 8 (layout.pHead + offset) = value) :
    Yields (loadSize (layout.pHead + offset)) memory value := by
  rw [← stored]
  refine loadSize_yields (Nat.le_trans ?_ headed.inside)
  rw [Nat.add_assoc]
  exact Nat.add_le_add_left inside _

theorem Headed.iMinBlockSize (headed : Headed memory layout next) :
    Yields (iMinBlockSize layout.pHead) memory layout.iMinBlockSize :=
  headed.word_yields 16 (by decide) headed.minimum

theorem Headed.iMaxBlockSize (headed : Headed memory layout next) :
    Yields (iMaxBlockSize layout.pHead) memory layout.iMaxBlockSize :=
  headed.word_yields 24 (by decide) headed.maximum

theorem Headed.iSize (headed : Headed memory layout next) :
    Yields (iSize layout.pHead) memory layout.iSize :=
  headed.word_yields 0 (by decide) headed.size

theorem Headed.iNext (headed : Headed memory layout next) :
    Yields (iNext layout.pHead) memory next :=
  headed.word_yields 36 (by decide) headed.next

/-- What `calc` does after it has read the head. -/
def checkedBlocks (vBlockSize : List Nat) (size : Nat) :
    MemTask (List Nat × Nat) := do
  assert (size > headsSize vBlockSize.length)
  require (wrappedSum vBlockSize ≠ 0) .division
  let iBlockCount :=
    (size - headsSize vBlockSize.length) / wrappedSum vBlockSize
  assert (iBlockCount ≥ 1)
  return (vBlockSize, iBlockCount)

theorem calcBlocks_same (headed : Headed memory layout next) :
    SameRun (calcBlocks factor layout.pHead)
      (checkedBlocks (layout.sizes factor) layout.iSize) memory :=
  headed.fFactor.skip.trans (headed.iMinBlockSize.skip.trans
    (headed.iMaxBlockSize.skip.trans headed.iSize.skip))

theorem checkedBlocks_yields (accepted : layout.Accepted factor) :
    Yields (checkedBlocks (layout.sizes factor) layout.iSize) memory
      (layout.sizes factor, layout.count factor) := by
  have blocks := accepted.blocks
  have nonzero : (layout.sizes factor).sum ≠ 0 := by
    intro zero
    rw [PartLayout.count, zero, Nat.div_zero] at blocks
    exact absurd blocks (by decide)
  unfold checkedBlocks
  rw [wrappedSum_eq accepted.sum]
  exact (Yields.require accepted.room _).bind
    ((Yields.require nonzero _).bind
      ((Yields.require blocks _).bind (Yields.pure _)))

theorem checkedBlocks_performs {sizes : List Nat} {size : Nat} :
    Performs anyFailure (checkedBlocks sizes size) memory
      (fun found after => after = memory ∧
        headsSize sizes.length < size ∧
        found = (sizes, (size - headsSize sizes.length) /
          wrappedSum sizes) ∧
        1 ≤ (size - headsSize sizes.length) / wrappedSum sizes)
      (fun _ => True) :=
  assert_checked fun room => Performs.bindCheck (fun _ => trivial)
    fun _ => assert_checked fun blocks =>
      Performs.pure ⟨rfl, room, rfl, blocks⟩

end Heads

section Create

variable {factor : Factor} {memory : Memory} {layout : PartLayout}

theorem startPart_performs (addressable : memory.size < 2 ^ 64)
    (headed : Headed memory layout 0) :
    Performs anyFailure
      (startPart factor (fun iBlockCount allocator blockSize =>
        allocator.create (classSize iBlockCount blockSize) blockSize)
        layout.pHead) memory
      (fun part after => part = layout.object factor ∧
        layout.Accepted factor ∧
        (∀ area ∈ layout.areas factor,
          Linked after area (List.range (layout.count factor))) ∧
        ChangedWithin (layout.pHead + getHeadSize) layout.stop memory after)
      (fun _ => True) := by
  have narrow : ∀ blockSize ∈ layout.sizes factor, blockSize < 2 ^ 64 := by
    intro blockSize member
    refine Nat.lt_of_le_of_lt (blockSizes_le blockSize member) ?_
    rw [← headed.maximum]
    exact word_lt memory 8 _
  have small : layout.iSize < 2 ^ 64 := by
    rw [← headed.size]
    exact word_lt memory 8 _
  have some : layout.sizes factor ≠ [] :=
    List.append_ne_nil_of_right_ne_nil _ (List.cons_ne_nil _ _)
  apply Performs.bind ((calcBlocks_same headed).performs
    checkedBlocks_performs)
  rintro _ _ ⟨rfl, room, rfl, blocks⟩
  apply Performs.bind (startClasses_performs addressable narrow)
  rintro _ after ⟨size, fits, exactly⟩
  -- every block size has found room in the memory
  have sum : (layout.sizes factor).sum < 2 ^ 64 := by
    have fits := fits some
    omega
  rw [wrappedSum_eq sum] at blocks exactly ⊢
  have accepted : layout.Accepted factor := ⟨room, small, sum, blocks⟩
  have areasFit := accepted.areas_fit
  obtain ⟨rfl, linked, changed⟩ := exactly
    (Nat.lt_of_le_of_lt (Nat.le_trans (Nat.le_add_left _ _) areasFit) small)
  refine Performs.pure ⟨rfl, accepted, linked,
    changed.widen (Nat.le_refl _) ?_⟩
  rw [Nat.add_assoc]
  exact Nat.add_le_add_left areasFit _

/-- The memory after `create` has written the head of a part. -/
def withPartHead (memory : Memory)
    (pAddr iSize iMinBlockSize iMaxBlockSize bits : Nat) : Memory :=
  (((((memory.withWord 8 pAddr iSize).withWord 8 (pAddr + 8) iSize).withWord 8
    (pAddr + 16) iMinBlockSize).withWord 8 (pAddr + 24)
      iMaxBlockSize).withWord 4 (pAddr + 32) bits).withWord 8 (pAddr + 36) 0

theorem withPartHead_changed {pAddr iSize iMinBlockSize iMaxBlockSize bits
      stop : Nat} (behind : pAddr + getHeadSize ≤ stop) :
    ChangedWithin pAddr stop memory (withPartHead memory pAddr iSize
      iMinBlockSize iMaxBlockSize bits) := by
  have heads : getHeadSize = 44 := rfl
  unfold withPartHead Memory.withWord
  refine ChangedWithin.patch (ChangedWithin.patch (ChangedWithin.patch
    (ChangedWithin.patch (ChangedWithin.patch (ChangedWithin.patch
      ChangedWithin.refl ?_ ?_ _) ?_ ?_ _) ?_ ?_ _) ?_ ?_ _) ?_ ?_ _) ?_ ?_ _
  all_goals omega

/-- Both sizes in the head of a new part are its own size. -/
theorem word_withPartHead {pAddr iSize iMinBlockSize iMaxBlockSize bits
      offset : Nat} (small : iSize < 2 ^ 64) (either : offset = 0 ∨ offset = 8) :
    (withPartHead memory pAddr iSize iMinBlockSize iMaxBlockSize bits).word 8
      (pAddr + offset) = iSize := by
  unfold withPartHead
  rw [word_withWord_apart (by omega), word_withWord_apart (by omega),
    word_withWord_apart (by omega), word_withWord_apart (by omega)]
  rcases either with rfl | rfl
  · rw [word_withWord_apart (by omega)]
    exact word_withWord small
  · exact word_withWord small

/-- The layout that follows from a head in memory. -/
def layoutAt (memory : Memory) (pAddr : Nat) : PartLayout where
  pHead := pAddr
  iSize := memory.word 8 pAddr
  iMinBlockSize := memory.word 8 (pAddr + 16)
  iMaxBlockSize := memory.word 8 (pAddr + 24)
  bits := memory.word 4 (pAddr + 32)

/-- A completed `create` leaves a part with free areas. -/
theorem create_performs {pAddr iSize iMinBlockSize iMaxBlockSize bits : Nat}
    (addressable : memory.size < 2 ^ 64) (small : iSize < 2 ^ 64) :
    Performs anyFailure
      (create factor pAddr iSize iMinBlockSize iMaxBlockSize bits) memory
      (fun part after => ∃ layout : PartLayout,
        layout.pHead = pAddr ∧ layout.iSize = iSize ∧
        part = layout.object factor ∧ layout.Accepted factor ∧
        Headed after layout 0 ∧ after.word 8 (pAddr + 8) = iSize ∧
        (∀ area ∈ layout.areas factor,
          Linked after area (List.range (layout.count factor))) ∧
        ChangedWithin pAddr layout.stop memory after)
      (fun _ => True) := by
  have heads : getHeadSize = 44 := rfl
  refine assert_checked fun ordered => assert_checked fun grows => ?_
  refine storeSize_checked fun inside₁ => storeSize_checked fun inside₂ =>
    storeSize_checked fun inside₃ => storeSize_checked fun inside₄ =>
    store_checked fun inside₅ => storeSize_checked fun inside₆ => ?_
  have prepared : (withPartHead memory pAddr iSize iMinBlockSize
    iMaxBlockSize bits).size < 2 ^ 64 := addressable
  have headed : Headed (withPartHead memory pAddr iSize iMinBlockSize
      iMaxBlockSize bits) (layoutAt (withPartHead memory pAddr iSize
        iMinBlockSize iMaxBlockSize bits) pAddr) 0 := by
    refine ⟨inside₆, rfl, rfl, rfl, rfl, ?_⟩
    exact word_withWord (by decide)
  apply Performs.mono (startPart_performs prepared headed)
  · rintro part after ⟨rfl, accepted, linked, changed⟩
    have same : SameOn pAddr getHeadSize (withPartHead memory pAddr iSize
        iMinBlockSize iMaxBlockSize bits) after :=
      changed.sameOn (Or.inl (Nat.le_refl _))
    refine ⟨_, rfl, word_withPartHead small (Or.inl rfl), rfl, accepted,
      headed.congr (Nat.le_of_eq changed.size.symm) same, ?_, linked, ?_⟩
    · rw [← word_congr (same.within (by omega) (by omega))]
      exact word_withPartHead small (Or.inr rfl)
    · have room := accepted.areas_fit
      refine (withPartHead_changed ?_).trans
        (changed.widen (Nat.le_add_right _ _) (Nat.le_refl _))
      exact Nat.add_le_add_left
        (Nat.le_trans (Nat.le_add_right _ _) room) _
  · intro _ _
    trivial

end Create

section Connect

variable {factor : Factor} {memory : Memory} {layout : PartLayout}
  {next : Nat}

theorem areaConnect_yields {area : ClassArea} {free : List Nat}
    (linked : Linked memory area free) (positive : 0 < area.blockCount) :
    Yields area.allocator.connect memory () := by
  have wide := linked.wide
  have length : ClassArea.headsSize < area.length :=
    Nat.lt_add_of_pos_right (Nat.mul_pos (by omega) positive)
  refine linked.getMemSize.bind ((Yields.require ?_ _).bind
    (Yields.require ?_ _))
  · exact Nat.lt_of_le_of_lt (Nat.le_add_right _ _) length
  · exact Nat.lt_sub_of_add_lt (by
      rw [Nat.add_comm]
      exact length)

open TcMemMultiChunkAllocator in
/-- The loop of `connect`. -/
theorem startClasses_yields {iBlockCount : Nat} (positive : 0 < iBlockCount)
    {sizes : List Nat} {free : ClassArea → List Nat} :
    ∀ {start}, areasLength iBlockCount sizes < 2 ^ 64 →
      (∀ area ∈ areasFrom iBlockCount start sizes,
        Linked memory area (free area)) →
      Yields (startClasses (fun allocator _ => allocator.connect) iBlockCount
        start sizes) memory
        ((areasFrom iBlockCount start sizes).map ClassArea.allocator) := by
  induction sizes with
  | nil =>
      intro start _ _
      exact Yields.pure _
  | cons blockSize later induction =>
      intro start fits linked
      have split : areasLength iBlockCount (blockSize :: later) =
          ClassArea.headsSize + blockSize * iBlockCount +
            areasLength iBlockCount later := rfl
      rw [split] at fits
      refine (areaConnect_yields (linked _ List.mem_cons_self)
        positive).bind ?_
      rw [classSize_eq (by omega)]
      exact (induction (by omega) fun area member =>
        linked area (List.mem_cons_of_mem _ member)).bind (Yields.pure _)

theorem PartLayout.Accepted.areasLength_lt
    (accepted : layout.Accepted factor) :
    areasLength (layout.count factor) (layout.sizes factor) < 2 ^ 64 :=
  Nat.lt_of_le_of_lt
    (Nat.le_trans (Nat.le_add_left _ _) accepted.areas_fit) accepted.small

/-- A process that connects finds the layout that `create` has used. -/
theorem connectPart_yields {free : ClassArea → List Nat}
    (accepted : layout.Accepted factor) (headed : Headed memory layout next)
    (linked : ∀ area ∈ layout.areas factor, Linked memory area (free area)) :
    Yields (connectPart factor layout.pHead) memory
      (layout.object factor) :=
  ((calcBlocks_same headed).yields (checkedBlocks_yields accepted)).bind
    ((startClasses_yields accepted.blocks accepted.areasLength_lt
      linked).bind (Yields.pure _))

end Connect

end MemChunk

end TarsCpp
