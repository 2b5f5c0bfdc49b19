import TarsCpp.MemChunk.Pool

/-!
# Appending memory

An appended part is created behind the others.  Two words change in front of
it: the distance in the last head and the size of all parts in the first one.
-/

namespace TarsCpp

namespace MemChunk

open Interruption FlatMemory TcMemMultiChunkAllocator

section Heads

variable {memory after : Memory} {layout : PartLayout} {next next' : Nat}

/-- The total and the distance are the only words of a head that change. -/
theorem Headed.relink (headed : Headed memory layout next)
    (size : memory.size ≤ after.size)
    (low : SameOn layout.pHead 8 memory after)
    (high : SameOn (layout.pHead + 16) 20 memory after)
    (distance : after.word 8 (layout.pHead + 36) = next') :
    Headed after layout next' := by
  constructor
  · exact Nat.le_trans headed.inside size
  · rw [← word_congr low]
    exact headed.size
  · rw [← word_congr (high.within (by omega) (by omega))]
    exact headed.minimum
  · rw [← word_congr (high.within (by omega) (by omega))]
    exact headed.maximum
  · rw [← word_congr (high.within (by omega) (by omega))]
    exact headed.bits
  · exact distance

end Heads

/-- The free blocks once all blocks behind `bound` are free. -/
def grown (free : ClassArea → List Nat) (bound : Nat) (area : ClassArea) :
    List Nat :=
  if area.start < bound then free area else List.range area.blockCount

/-- The two stores of `append` behind `create`. -/
def withAppended (between : Memory) (pAddr palloc pAppendAddr size : Nat) :
    Memory :=
  (between.withWord 8 (palloc + 36) (pAppendAddr - palloc)).withWord 8
    (pAddr + 8) size

section Appended

variable {factor : Factor} {memory between : Memory} {pAddr size : Nat}
  {front : List PartLayout} {last layout : PartLayout}
  {free : ClassArea → List Nat}

theorem withAppended_sameOn {palloc pAppendAddr address count : Nat}
    (link : address + count ≤ palloc + 36 ∨ palloc + 36 + 8 ≤ address)
    (total : address + count ≤ pAddr + 8 ∨ pAddr + 8 + 8 ≤ address) :
    SameOn address count between
      (withAppended between pAddr palloc pAppendAddr size) := by
  intro place low high
  symm
  unfold withAppended Memory.withWord
  exact (sameOn_patch total place low high).trans
    (sameOn_patch link place low high)

/-- A head starts where the one of the first part does, or behind it. -/
theorem head_behind {other : PartLayout} {layouts : List PartLayout}
    (formatted : Formatted factor memory free pAddr layouts)
    (listed : other ∈ layouts) :
    other.pHead = pAddr ∨ pAddr + getHeadSize ≤ other.pHead := by
  cases layouts with
  | nil => exact absurd listed List.not_mem_nil
  | cons first nested =>
      obtain ⟨rfl, accepted, _, _, formatted⟩ := formatted
      rcases List.mem_cons.mp listed with rfl | listed
      · exact Or.inl rfl
      · obtain ⟨behind, _⟩ := mem_layouts formatted listed
        have fit := accepted.areas_fit
        unfold PartLayout.stop at behind
        exact Or.inr (by omega)

theorem total_append
    (formatted : Formatted factor memory free pAddr (front ++ [last])) :
    pAddr + ((front ++ [last]).map PartLayout.iSize).sum = last.stop := by
  obtain ⟨_, _, lastHead⟩ := split_formatted formatted
  rw [List.map_append, List.sum_append, ← Nat.add_assoc, ← lastHead]
  simp [PartLayout.stop]

/-- The parts in front of the new one keep their heads, but for the
distance. -/
theorem headed_appended
    (formatted : Formatted factor memory free pAddr (front ++ [last]))
    (changed : ChangedWithin last.stop layout.stop memory between) :
    ∀ other ∈ front ++ [last], Headed (withAppended between pAddr last.pHead
      last.stop size) other other.iSize := by
  have heads : getHeadSize = 44 := rfl
  obtain ⟨fronts, lastHeaded, _⟩ := split_formatted formatted
  obtain ⟨_, _, largeLast⟩ := mem_layouts formatted
    (List.mem_append_right _ (List.mem_singleton.mpr rfl))
  have distance : last.stop - last.pHead = last.iSize :=
    Nat.add_sub_cancel_left _ _
  have small : last.iSize < 2 ^ 64 := by
    rw [← lastHeaded.size]
    exact word_lt memory 8 _
  have grows : memory.size ≤ (withAppended between pAddr last.pHead last.stop
    size).size := Nat.le_of_eq changed.size.symm
  intro other listed
  have head := head_behind formatted listed
  have same : ∀ {address count}, address + count ≤ last.stop →
      (address + count ≤ last.pHead + 36 ∨ last.pHead + 36 + 8 ≤ address) →
      (address + count ≤ pAddr + 8 ∨ pAddr + 8 + 8 ≤ address) →
      SameOn address count memory (withAppended between pAddr last.pHead
        last.stop size) := by
    intro address count before link total
    exact (changed.sameOn (Or.inl before)).trans
      (withAppended_sameOn link total)
  unfold PartLayout.stop at same
  rcases List.mem_append.mp listed with inFront | isLast
  · obtain ⟨headed, before⟩ := fronts other inFront
    obtain ⟨_, _, large⟩ := mem_layouts formatted listed
    unfold PartLayout.stop at before
    refine headed.relink grows (same ?_ ?_ ?_) (same ?_ ?_ ?_) ?_
    all_goals try omega
    rw [← headed.next]
    exact (word_congr (same (by omega) (by omega) (by omega))).symm
  · obtain rfl := List.mem_singleton.mp isLast
    refine lastHeaded.relink grows (same ?_ ?_ ?_) (same ?_ ?_ ?_) ?_
    all_goals try omega
    unfold withAppended
    rw [word_withWord_apart (by omega), word_withWord (by omega), distance]

/-- The two stores do not touch an area of these parts. -/
theorem linked_appended {member : PoolClass} {list : List Nat}
    {memory' : Memory}
    (formatted : Formatted factor memory free pAddr (front ++ [last]))
    (listed : member ∈ poolClasses factor (front ++ [last]))
    (linked : Linked memory' member.area list) :
    Linked (withAppended memory' pAddr last.pHead last.stop size) member.area
      list := by
  have heads : getHeadSize = 44 := rfl
  have lastListed : last ∈ front ++ [last] :=
    List.mem_append_right _ (List.mem_singleton.mpr rfl)
  obtain ⟨first, firstListed, here⟩ : ∃ first ∈ front ++ [last],
      first.pHead = pAddr := by
    cases front with
    | nil => exact ⟨last, lastListed, formatted.1⟩
    | cons first nested => exact ⟨first, List.mem_cons_self, formatted.1⟩
  have behindLast := head_apart formatted lastListed listed
  have behindFirst := head_apart formatted firstListed listed
  rw [here] at behindFirst
  exact (linked.stored (by omega)).stored (by omega)

theorem pool_appended
    (pool : Pool factor memory free pAddr (front ++ [last]))
    (here : layout.pHead = last.stop) (accepted : layout.Accepted factor)
    (headed : Headed between layout 0)
    (linked : ∀ area ∈ layout.areas factor,
      Linked between area (List.range (layout.count factor)))
    (changed : ChangedWithin last.stop layout.stop memory between)
    (small : layout.stop - pAddr < 2 ^ 64) :
    Pool factor (withAppended between pAddr last.pHead last.stop
        (layout.stop - pAddr)) (grown free last.stop) pAddr
      (front ++ [last] ++ [layout]) := by
  have heads : getHeadSize = 44 := rfl
  have formatted := pool.formatted
  have total := total_append formatted
  have lastListed : last ∈ front ++ [last] :=
    List.mem_append_right _ (List.mem_singleton.mpr rfl)
  obtain ⟨behindLast, _, largeLast⟩ := mem_layouts formatted lastListed
  have stop : last.stop = last.pHead + last.iSize := rfl
  have size : (withAppended between pAddr last.pHead last.stop
    (layout.stop - pAddr)).size = memory.size := changed.size
  refine ⟨List.append_ne_nil_of_right_ne_nil _ (List.cons_ne_nil _ _), ?_,
    ?_, ?_⟩
  · rw [size]
    exact pool.addressable
  · refine formatted_append formatted (headed_appended formatted changed)
      ?_ ?_
    · intro member listed
      obtain ⟨linked, _, before⟩ := mem_pool formatted listed
      rw [total] at before
      have inFront : member.area.start < last.stop :=
        Nat.lt_of_lt_of_le (Nat.lt_add_of_pos_right
          (Nat.lt_of_lt_of_le (by decide) (Nat.le_add_right _ _))) before
      unfold grown
      rw [if_pos inFront]
      exact linked_appended formatted listed
        (linked.elsewhere changed (Or.inl before))
    · rw [total]
      refine ⟨here, accepted, ?_, ?_, trivial⟩
      · rw [if_pos rfl]
        refine headed.congr (Nat.le_of_eq rfl) ?_
        rw [here]
        exact withAppended_sameOn (Or.inr (by omega)) (Or.inr (by omega))
      · intro area listed
        have linked := linked area listed
        obtain ⟨member, own, rfl⟩ := List.mem_map.mp (areas_eq ▸ listed)
        obtain ⟨count, _, _, _, behind, _⟩ := mem_classesFrom own
        rw [here] at behind
        unfold grown
        rw [if_neg (by omega), count]
        exact (linked.stored (by omega)).stored (by omega)
  · unfold withAppended
    rw [word_withWord small, List.map_append, List.sum_append]
    simp only [List.map_cons, List.map_nil, List.sum_cons, List.sum_nil]
    unfold PartLayout.stop at *
    omega

end Appended

section Performing

variable {factor : Factor} {memory : Memory} {pAddr size : Nat}
  {layouts : List PartLayout} {free : ClassArea → List Nat}

theorem Pool.inside (pool : Pool factor memory free pAddr layouts) :
    pAddr + getHeadSize ≤ memory.size := by
  obtain ⟨first, nested, rfl, rfl⟩ := pool.first
  obtain ⟨_, _, headed, _⟩ := pool.formatted
  exact headed.inside

theorem getLast_objects (front : List PartLayout) (last : PartLayout) :
    (((front ++ [last]).map (PartLayout.object factor)).getLast?.map
      Part.pHead).getD pAddr = last.pHead := by
  rw [List.map_append, List.map_singleton, List.getLast?_concat]
  rfl

theorem append_performs (pool : Pool factor memory free pAddr layouts)
    (small : size < 2 ^ 64) :
    Performs anyFailure (append factor pAddr size) memory
      (fun parts after => ∃ layout : PartLayout,
        layout.pHead = pAddr + (layouts.map PartLayout.iSize).sum ∧
        parts = (layouts ++ [layout]).map (PartLayout.object factor) ∧
        Pool factor after
          (grown free (pAddr + (layouts.map PartLayout.iSize).sum)) pAddr
          (layouts ++ [layout]))
      (fun _ => True) := by
  have heads : getHeadSize = 44 := rfl
  have formatted := pool.formatted
  have inside := pool.inside
  have connected := pool.connect_yields
  obtain ⟨front, last, rfl⟩ : ∃ front last, layouts = front ++ [last] :=
    ⟨_, _, (List.dropLast_append_getLast pool.some).symm⟩
  have total := total_append formatted
  have totalYields : Yields (iTotalSize pAddr) memory
      ((front ++ [last]).map PartLayout.iSize).sum := by
    rw [← pool.total]
    exact loadSize_yields (by omega)
  have minYields : Yields (iMinBlockSize pAddr) memory _ :=
    loadSize_yields (by omega)
  have maxYields : Yields (iMaxBlockSize pAddr) memory _ :=
    loadSize_yields (by omega)
  have bitsYields : Yields (fFactor pAddr) memory _ :=
    load_yields _ (by omega)
  refine connected.performs (totalYields.performs
    (assert_checked fun larger => minYields.performs (maxYields.performs
      (bitsYields.performs ?_))))
  apply Performs.bind (create_performs pool.addressable (by omega))
  rintro _ between ⟨layout, here, size', rfl, accepted, headed, _, linked,
    changed⟩
  rw [total] at here changed ⊢
  rw [getLast_objects]
  refine storeSize_checked fun _ => ?_
  have nextYields : Yields (iNext pAddr) (between.withWord 8
      (last.pHead + 36) (last.stop - last.pHead)) _ :=
    loadSize_yields (by
      show pAddr + 36 + 8 ≤ between.size
      rw [changed.size]
      omega)
  have sizeYields : Yields (iSize pAddr) (between.withWord 8
      (last.pHead + 36) (last.stop - last.pHead)) _ :=
    loadSize_yields (by
      show pAddr + 8 ≤ between.size
      rw [changed.size]
      omega)
  refine nextYields.performs (sizeYields.performs
    (assert_checked fun _ => storeSize_checked fun _ => ?_))
  have whole : layout.stop - pAddr = size := by
    unfold PartLayout.stop
    omega
  refine Performs.pure ⟨layout, here, ?_, ?_⟩
  · have split : (front ++ [last] ++ [layout]).map
        (PartLayout.object factor) =
        (front ++ [last]).map (PartLayout.object factor) ++
          [layout].map (PartLayout.object factor) := List.map_append
    rw [split]
    rfl
  · have appended := pool_appended pool here accepted headed linked changed
      (by omega)
    rw [whole] at appended
    exact appended

end Performing

end MemChunk

end TarsCpp
