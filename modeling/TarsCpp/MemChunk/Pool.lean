import TarsCpp.MemChunk.Walks
import TarsCpp.TransitionRun

/-!
# The pool of blocks over a whole run

Processes allocate and release blocks, write into the blocks they own, connect
and append memory, in any order.  The heads and the free lists keep describing
the same parts, and the live blocks are exactly the ones that are not free.
-/

namespace TarsCpp

namespace MemChunk

open Interruption FlatMemory TcMemMultiChunkAllocator TransitionRun

/-- The parts from `pAddr` on, with the size of all of them in the first
head. -/
structure Pool (factor : Factor) (memory : Memory)
    (free : ClassArea → List Nat) (pAddr : Nat)
    (layouts : List PartLayout) : Prop where
  some : layouts ≠ []
  addressable : memory.size < 2 ^ 64
  formatted : Formatted factor memory free pAddr layouts
  total : memory.word 8 (pAddr + 8) = (layouts.map PartLayout.iSize).sum

section Geometry

variable {factor : Factor} {memory : Memory} {layouts : List PartLayout}
  {free : ClassArea → List Nat}

theorem mem_layouts {layout : PartLayout} :
    ∀ {pAddr}, Formatted factor memory free pAddr layouts →
      layout ∈ layouts → pAddr ≤ layout.pHead ∧
        layout.stop ≤ pAddr + (layouts.map PartLayout.iSize).sum ∧
        getHeadSize ≤ layout.iSize := by
  induction layouts with
  | nil =>
      intro pAddr _ listed
      exact absurd listed List.not_mem_nil
  | cons first nested induction =>
      intro pAddr formatted listed
      obtain ⟨rfl, accepted, _, _, formatted⟩ := formatted
      rw [List.map_cons, List.sum_cons, ← Nat.add_assoc]
      rcases List.mem_cons.mp listed with rfl | listed
      · exact ⟨Nat.le_refl _, Nat.le_add_right _ _,
          Nat.le_trans (Nat.le_add_right _ _) accepted.areas_fit⟩
      · obtain ⟨behind, before, large⟩ := induction formatted listed
        exact ⟨Nat.le_trans (Nat.le_add_right _ _) behind, before, large⟩

/-- The areas lie one behind the other. -/
theorem pool_apart :
    ∀ {pAddr}, Formatted factor memory free pAddr layouts →
      (poolClasses factor layouts).Pairwise
        fun first second => first.area.stop ≤ second.area.start := by
  induction layouts with
  | nil =>
      intro pAddr _
      exact List.Pairwise.nil
  | cons layout nested induction =>
      intro pAddr formatted
      obtain ⟨rfl, accepted, _, _, formatted⟩ := formatted
      refine List.pairwise_append.mpr ⟨classesFrom_apart, ?_, ?_⟩
      · exact List.pairwise_map.mpr (induction formatted)
      · intro first listed second listed'
        obtain ⟨other, inNested, rfl⟩ := List.mem_map.mp listed'
        obtain ⟨_, _, _, _, _, before⟩ := mem_classesFrom listed
        obtain ⟨_, behind, _⟩ := mem_pool formatted inNested
        have fit := accepted.areas_fit
        show first.area.stop ≤ other.area.start
        unfold PartLayout.stop at behind
        omega

/-- No area touches the head of a part. -/
theorem head_apart {layout : PartLayout} {member : PoolClass} :
    ∀ {pAddr}, Formatted factor memory free pAddr layouts →
      layout ∈ layouts → member ∈ poolClasses factor layouts →
      layout.pHead + getHeadSize ≤ member.area.start ∨
        member.area.stop ≤ layout.pHead := by
  induction layouts generalizing member with
  | nil =>
      intro pAddr _ listed
      exact absurd listed List.not_mem_nil
  | cons first nested induction =>
      intro pAddr formatted listed listed'
      obtain ⟨rfl, accepted, headed, linked, formatted⟩ := formatted
      have fit := accepted.areas_fit
      rcases List.mem_cons.mp listed with rfl | listed
      · rcases List.mem_append.mp listed' with listed' | listed'
        · obtain ⟨_, _, _, _, behind, _⟩ := mem_classesFrom listed'
          exact Or.inl behind
        · obtain ⟨other, inNested, rfl⟩ := List.mem_map.mp listed'
          obtain ⟨_, behind, _⟩ := mem_pool formatted inNested
          unfold PartLayout.stop at behind
          refine Or.inl ?_
          show layout.pHead + getHeadSize ≤ other.area.start
          omega
      · rcases List.mem_append.mp listed' with listed' | listed'
        · obtain ⟨_, _, _, _, _, before⟩ := mem_classesFrom listed'
          obtain ⟨behind, _, _⟩ := mem_layouts formatted listed
          unfold PartLayout.stop at behind
          exact Or.inr (by omega)
        · obtain ⟨other, inNested, rfl⟩ := List.mem_map.mp listed'
          have apart := induction formatted listed inNested
          exact apart

/-- Where the heads of the parts stay, and the areas are linked again, the
parts stay. -/
theorem Formatted.congr {after : Memory} {free' : ClassArea → List Nat}
    (size : memory.size ≤ after.size) :
    ∀ {pAddr}, Formatted factor memory free pAddr layouts →
      (∀ layout ∈ layouts, SameOn layout.pHead getHeadSize memory after) →
      (∀ member ∈ poolClasses factor layouts,
        Linked after member.area (free' member.area)) →
      Formatted factor after free' pAddr layouts := by
  induction layouts with
  | nil =>
      intro pAddr _ _ _
      trivial
  | cons layout nested induction =>
      intro pAddr formatted heads linked'
      obtain ⟨here, accepted, headed, linked, formatted⟩ := formatted
      refine ⟨here, accepted,
        headed.congr size (heads layout List.mem_cons_self), ?_, ?_⟩
      · intro area listed
        rw [areas_eq] at listed
        obtain ⟨member, own, rfl⟩ := List.mem_map.mp listed
        exact linked' member (List.mem_append_left _ own)
      · apply induction formatted
        · intro other listed
          exact heads other (List.mem_cons_of_mem _ listed)
        · intro member listed
          exact linked' (member.shift _) (List.mem_append_right _
            (List.mem_map_of_mem listed))

theorem area_apart {member other : PoolClass} {pAddr : Nat}
    (formatted : Formatted factor memory free pAddr layouts)
    (listed : member ∈ poolClasses factor layouts)
    (listed' : other ∈ poolClasses factor layouts)
    (different : other.area ≠ member.area) :
    other.area.stop ≤ member.area.start ∨
      member.area.stop ≤ other.area.start := by
  have apart : (poolClasses factor layouts).Pairwise
      fun first second : PoolClass => first.area ≠ second.area →
        first.area.stop ≤ second.area.start ∨
          second.area.stop ≤ first.area.start :=
    (pool_apart formatted).imp fun before _ => Or.inl before
  have symmetric : Std.Symm fun first second : PoolClass =>
      first.area ≠ second.area → first.area.stop ≤ second.area.start ∨
        second.area.stop ≤ first.area.start :=
    ⟨fun first second holds other => (holds other.symm).symm⟩
  exact List.Pairwise.forall_of_forall
    (fun _ _ absurdity => absurd rfl absurdity) apart listed' listed different

/-- A member of the pool is known by its area. -/
theorem member_of_area {member other : PoolClass} {pAddr : Nat}
    (formatted : Formatted factor memory free pAddr layouts)
    (listed : member ∈ poolClasses factor layouts)
    (listed' : other ∈ poolClasses factor layouts)
    (same : other.area = member.area) : other = member := by
  have apart : (poolClasses factor layouts).Pairwise
      fun first second : PoolClass => first.area = second.area →
        first = second := by
    refine (pool_apart formatted).imp ?_
    intro first second before same
    have heads : 0 < first.area.length :=
      Nat.lt_of_lt_of_le (by decide) (Nat.le_add_right _ _)
    rw [← same] at before
    unfold ClassArea.stop at before
    omega
  have symmetric : Std.Symm fun first second : PoolClass =>
      first.area = second.area → first = second :=
    ⟨fun first second holds same => (holds same.symm).symm⟩
  exact List.Pairwise.forall_of_forall (fun _ _ _ => rfl) apart listed'
    listed same

end Geometry

section Changes

variable {factor : Factor} {memory after : Memory} {pAddr : Nat}
  {layouts : List PartLayout} {free : ClassArea → List Nat}
  {member : PoolClass}

theorem Pool.first (pool : Pool factor memory free pAddr layouts) :
    ∃ layout nested, layouts = layout :: nested ∧ layout.pHead = pAddr := by
  cases layouts with
  | nil => exact absurd rfl pool.some
  | cons layout nested => exact ⟨layout, nested, rfl, pool.formatted.1⟩

theorem Pool.congr {free' : ClassArea → List Nat}
    (pool : Pool factor memory free pAddr layouts)
    (size : memory.size ≤ after.size) (addressable : after.size < 2 ^ 64)
    (heads : ∀ layout ∈ layouts,
      SameOn layout.pHead getHeadSize memory after)
    (linked : ∀ member ∈ poolClasses factor layouts,
      Linked after member.area (free' member.area)) :
    Pool factor after free' pAddr layouts where
  some := pool.some
  addressable := addressable
  formatted := pool.formatted.congr size heads linked
  total := by
    obtain ⟨layout, nested, rfl, rfl⟩ := pool.first
    rw [← pool.total]
    exact (word_congr ((heads layout List.mem_cons_self).within
      (Nat.le_add_right _ _)
      (Nat.add_le_add_left (show 8 + 8 ≤ getHeadSize by decide) _))).symm

/-- A change inside one area that links it again is one of the pool. -/
theorem Pool.relinked {list : List Nat}
    (pool : Pool factor memory free pAddr layouts)
    (listed : member ∈ poolClasses factor layouts)
    (linked : Linked after member.area list)
    (changed : ChangedWithin member.area.start member.area.stop memory
      after) :
    Pool factor after (Function.update free member.area list) pAddr
      layouts := by
  refine pool.congr (Nat.le_of_eq changed.size.symm)
    (changed.size ▸ pool.addressable) ?_ ?_
  · intro layout listed'
    exact changed.sameOn (head_apart pool.formatted listed' listed)
  · intro other listed'
    by_cases same : other.area = member.area
    · rw [same, Function.update_self]
      exact linked
    · rw [Function.update_of_ne same]
      obtain ⟨linked', _⟩ := mem_pool pool.formatted listed'
      exact linked'.elsewhere changed
        (area_apart pool.formatted listed listed' same)

/-- The owner of a block that is not free may write into it. -/
theorem Pool.used {k : Nat} (pool : Pool factor memory free pAddr layouts)
    (listed : member ∈ poolClasses factor layouts)
    (live : k ∉ free member.area) (inside : k < member.area.blockCount)
    (changed : ChangedWithin (member.area.block k)
      (member.area.block k + member.area.blockSize) memory after) :
    Pool factor after free pAddr layouts := by
  have low := member.area.start_add_heads_le_block k
  have high := member.area.block_stop inside
  have whole := changed.widen (Nat.le_trans (Nat.le_add_right _ _) low) high
  obtain ⟨linked, _⟩ := mem_pool pool.formatted listed
  have relinked : Linked after member.area (free member.area) := by
    refine linked.congr (Nat.le_of_eq changed.size.symm)
      (changed.sameOn (Or.inl low)) ?_
    intro l free
    have other : l ≠ k := by
      rintro rfl
      exact live free
    refine changed.sameOn ?_
    have wide := linked.wide
    rcases Nat.lt_or_gt_of_ne other with less | greater
    · have := member.area.block_apart less
      omega
    · exact Or.inr (member.area.block_apart greater)
  have updated := pool.relinked listed relinked whole
  rwa [Function.update_eq_self] at updated

/-- What happens outside of the parts is not noticed. -/
theorem Pool.outside (pool : Pool factor memory free pAddr layouts)
    (size : memory.size ≤ after.size) (addressable : after.size < 2 ^ 64)
    (same : SameOn pAddr (memory.word 8 (pAddr + 8)) memory after) :
    Pool factor after free pAddr layouts := by
  rw [pool.total] at same
  refine pool.congr size addressable ?_ ?_
  · intro layout listed
    obtain ⟨behind, before, large⟩ := mem_layouts pool.formatted listed
    unfold PartLayout.stop at before
    exact same.within behind (by omega)
  · intro member listed
    obtain ⟨linked, behind, before⟩ := mem_pool pool.formatted listed
    have heads : ClassArea.headsSize ≤ member.area.length :=
      Nat.le_add_right _ _
    refine linked.congr size (same.within (by omega) ?_) ?_
    · unfold ClassArea.stop at before
      omega
    · intro k free
      have low := member.area.start_add_heads_le_block k
      have high := member.area.block_stop (linked.bounded k free)
      have wide := linked.wide
      exact same.within (by omega) (by omega)

end Changes

section Connection

variable {factor : Factor} {memory : Memory} {layouts : List PartLayout}
  {free : ClassArea → List Nat}

theorem connectParts_yields :
    ∀ {pAddr parts}, layouts ≠ [] → layouts.length ≤ parts →
      Formatted factor memory free pAddr layouts →
      Yields (connectParts factor parts pAddr) memory
        (layouts.map (PartLayout.object factor)) := by
  induction layouts with
  | nil =>
      intro pAddr parts some
      exact absurd rfl some
  | cons layout nested induction =>
      intro pAddr parts _ enough formatted
      obtain ⟨rfl, accepted, headed, linked, formatted⟩ := formatted
      obtain ⟨parts, rfl⟩ : ∃ more, parts = more + 1 :=
        Nat.exists_eq_add_one.mpr (Nat.lt_of_lt_of_le (Nat.succ_pos _) enough)
      refine (connectPart_yields accepted headed linked).bind
        (headed.iNext.bind ?_)
      by_cases last : nested = []
      · subst last
        rw [if_pos rfl, if_pos rfl]
        exact Yields.pure _
      · have some : layout.iSize ≠ 0 := by
          have room := accepted.room
          omega
        rw [if_neg last, if_neg some]
        exact headed.iSize.bind ((Yields.require rfl _).bind
          ((induction last (Nat.le_of_succ_le_succ enough) formatted).bind
            (Yields.pure _)))

/-- Every part takes room. -/
theorem length_layouts_le :
    ∀ {pAddr}, layouts ≠ [] → Formatted factor memory free pAddr layouts →
      pAddr + layouts.length ≤ memory.size := by
  induction layouts with
  | nil =>
      intro pAddr some
      exact absurd rfl some
  | cons layout nested induction =>
      intro pAddr _ formatted
      obtain ⟨rfl, accepted, headed, _, formatted⟩ := formatted
      have room := accepted.room
      by_cases last : nested = []
      · subst last
        refine Nat.le_trans ?_ headed.inside
        exact Nat.add_le_add_left (show 1 ≤ getHeadSize by decide) _
      · have later := induction last formatted
        rw [List.length_cons]
        unfold PartLayout.stop at later
        omega

theorem Pool.connect_yields {pAddr : Nat}
    (pool : Pool factor memory free pAddr layouts) :
    Yields (connect factor pAddr) memory
      (layouts.map (PartLayout.object factor)) := by
  have enough := length_layouts_le pool.some pool.formatted
  exact (Yields.read _).bind
    (connectParts_yields pool.some (by omega) pool.formatted)

end Connection

section Appending

variable {factor : Factor} {memory after : Memory} {pAddr : Nat}
  {layouts front : List PartLayout} {free : ClassArea → List Nat}
  {last layout : PartLayout}

/-- All parts but the last one know the distance to the next one. -/
theorem split_formatted :
    ∀ {pAddr}, Formatted factor memory free pAddr (front ++ [last]) →
      (∀ layout ∈ front, Headed memory layout layout.iSize ∧
        layout.stop ≤ last.pHead) ∧
      Headed memory last 0 ∧
      last.pHead = pAddr + (front.map PartLayout.iSize).sum := by
  induction front with
  | nil =>
      intro pAddr formatted
      obtain ⟨here, _, headed, _⟩ := formatted
      refine ⟨?_, headed, here⟩
      intro layout listed
      exact absurd listed List.not_mem_nil
  | cons first nested induction =>
      intro pAddr formatted
      rw [List.cons_append] at formatted
      obtain ⟨rfl, _, headed, _, formatted⟩ := formatted
      obtain ⟨heads, lastHeaded, behind⟩ := induction formatted
      rw [if_neg (List.append_ne_nil_of_right_ne_nil _
        (List.cons_ne_nil _ _))] at headed
      rw [List.map_cons, List.sum_cons, ← Nat.add_assoc]
      refine ⟨?_, lastHeaded, behind⟩
      intro layout listed
      rcases List.mem_cons.mp listed with rfl | listed
      · exact ⟨headed, behind ▸ Nat.le_add_right _ _⟩
      · exact heads layout listed

/-- Once all heads know the distance to the next one, the new part is
reached. -/
theorem formatted_append {free' : ClassArea → List Nat} :
    ∀ {pAddr}, Formatted factor memory free pAddr layouts →
      (∀ other ∈ layouts, Headed after other other.iSize) →
      (∀ member ∈ poolClasses factor layouts,
        Linked after member.area (free' member.area)) →
      Formatted factor after free'
        (pAddr + (layouts.map PartLayout.iSize).sum) [layout] →
      Formatted factor after free' pAddr (layouts ++ [layout]) := by
  induction layouts with
  | nil =>
      intro pAddr _ _ _ new
      exact new
  | cons first nested induction =>
      intro pAddr formatted heads linked new
      obtain ⟨rfl, accepted, _, _, formatted⟩ := formatted
      rw [List.map_cons, List.sum_cons, ← Nat.add_assoc] at new
      rw [List.cons_append]
      refine ⟨rfl, accepted, ?_, ?_, ?_⟩
      · rw [if_neg (List.append_ne_nil_of_right_ne_nil _
          (List.cons_ne_nil _ _))]
        exact heads first List.mem_cons_self
      · intro area listed
        rw [areas_eq] at listed
        obtain ⟨member, own, rfl⟩ := List.mem_map.mp listed
        exact linked member (List.mem_append_left _ own)
      · apply induction formatted
        · intro other listed
          exact heads other (List.mem_cons_of_mem _ listed)
        · intro member listed
          exact linked (member.shift _) (List.mem_append_right _
            (List.mem_map_of_mem listed))
        · exact new

theorem poolClasses_append (factor : Factor) (layouts layouts' : List PartLayout) :
    ∃ blocks, poolClasses factor (layouts ++ layouts') =
      poolClasses factor layouts ++ (poolClasses factor layouts').map
        (·.shift blocks) := by
  induction layouts with
  | nil => exact ⟨0, (List.map_id _).symm⟩
  | cons layout nested induction =>
      obtain ⟨blocks, split⟩ := induction
      refine ⟨blocks + (layout.object factor).iAllIndex, ?_⟩
      rw [List.cons_append, poolClasses, split, List.map_append,
        List.map_map, ← List.append_assoc]
      congr 2
      funext member
      exact congrArg (fun offset => PoolClass.mk member.area offset
        member.index) (Nat.add_assoc ..)

end Appending

end MemChunk

end TarsCpp
