import TarsCpp.Epoll.ConnectionList

/-!
# The time index is in step with the slots

Every slot is free, reserved or used, and a used one has one element in `_tl`
and stores the iterator to it.
-/

namespace TarsCpp.Epoll

open NetworkBuffer

/-- The slots `1 .. _total`. -/
def slotsUpTo (total : Uid) : List Uid :=
  (List.range total.toNat).map fun i => BitVec.ofNat 32 (i + 1)

theorem mem_slotsUpTo {total uid : Uid} :
    uid ∈ slotsUpTo total ↔ uid > 0 ∧ uid ≤ total := by
  have bound := total.isLt
  have zero : (0 : Uid).toNat = 0 := rfl
  rw [slotsUpTo, List.mem_map, gt_iff_lt, BitVec.lt_def, BitVec.le_def, zero]
  constructor
  · intro member
    obtain ⟨i, inside, rfl⟩ := member
    rw [List.mem_range] at inside
    rw [BitVec.toNat_ofNat]
    omega
  · intro inside
    obtain ⟨positive, atMost⟩ := inside
    refine ⟨uid.toNat - 1, List.mem_range.mpr (by omega), ?_⟩
    apply BitVec.eq_of_toNat_eq
    rw [BitVec.toNat_ofNat]
    omega

theorem nodup_slotsUpTo (total : Uid) : (slotsUpTo total).Nodup := by
  have bound := total.isLt
  refine List.Nodup.map_on ?_ List.nodup_range
  intro i inside j inside' same
  rw [List.mem_range] at inside inside'
  have numbers := congrArg BitVec.toNat same
  rw [BitVec.toNat_ofNat, BitVec.toNat_ofNat] at numbers
  omega

theorem toNat_slot (uid : Uid) : (slot uid).toNat = uid.toNat % 2 ^ 22 := by
  have mask : (0x7FFFFFFF#32 >>> 9).toNat = 2 ^ 22 - 1 := by decide
  rw [slot, BitVec.toNat_and, mask, Nat.and_two_pow_sub_one_eq_mod]

theorem slot_or (magic uid : Uid) :
    slot (magic ||| uid) = slot magic ||| slot uid := by
  rw [slot, slot, slot, BitVec.and_or_distrib_right]

theorem slot_and_shift (x : Uid) {mask : Uid} (high : slot mask = 0) :
    slot (x &&& mask) = 0 := by
  rw [slot, BitVec.and_assoc, ← slot, high]
  exact BitVec.and_zero

theorem slot_add {x y : Uid} (first : slot x = 0) (second : slot y = 0) :
    slot (x + y) = 0 := by
  have first' := congrArg BitVec.toNat first
  have second' := congrArg BitVec.toNat second
  have zero : (0 : Uid).toNat = 0 := rfl
  apply BitVec.eq_of_toNat_eq
  rw [toNat_slot, zero] at first' second' ⊢
  rw [BitVec.toNat_add]
  omega

/-- The magic number leaves the bits of the slots free. -/
theorem slot_magic (size iIndex now : Uid) :
    slot (ConnectionList.init size iIndex now).iConnectionMagic = 0 :=
  slot_add (slot_and_shift _ (by decide)) (slot_and_shift _ (by decide))

namespace TimeoutList

/-- `_tl` is sorted, and the iterators to its elements are stored. -/
structure TimeIndex (list : TimeoutList) : Prop where
  iter : ∀ entry ∈ list.tl, list.iter entry.uid = some entry.node
  distinct : (list.tl.map TlNode.node).Nodup
  nodes : ∀ entry ∈ list.tl, entry.node < list.nodes
  sorted : Multimap.Sorted TlNode.key list.tl

structure Indexed (list : TimeoutList) : Prop extends TimeIndex list where
  /-- Each slot is free, reserved or used, once. -/
  slots : (list.free ++ list.reserved.map slot ++
    list.tl.map TlNode.uid).Perm (slotsUpTo list.total)
  used : ∀ uid, (list.vConn uid).isSome ↔ uid ∈ list.tl.map TlNode.uid
  magic : slot list.iConnectionMagic = 0

theorem indexed_new : new.Indexed where
  iter := by simp [new]
  distinct := List.nodup_nil
  nodes := by simp [new]
  sorted := List.Pairwise.nil
  slots := List.Perm.refl _
  used := by simp [new]
  magic := rfl

/-- A new element of `_tl` for a slot that has none. -/
theorem TimeIndex.insertTl {list : TimeoutList} (index : list.TimeIndex)
    {uid : Uid} (stamp : Int) (unused : uid ∉ list.tl.map TlNode.uid) :
    (list.insertTl stamp uid).TimeIndex where
  iter := by
    intro entry member
    rcases Multimap.mem_insert.mp member with rfl | old
    · simp [TimeoutList.insertTl]
    · have different : entry.uid ≠ uid :=
        fun same => unused (same ▸ List.mem_map_of_mem old)
      rw [TimeoutList.insertTl]
      simp only [Function.update_of_ne different]
      exact index.iter entry old
  distinct := by
    have perm := Multimap.insert_perm TlNode.key ⟨list.nodes, stamp, uid⟩
      list.tl
    refine (perm.map TlNode.node).nodup_iff.mpr ?_
    rw [List.map_cons, List.nodup_cons]
    refine ⟨?_, index.distinct⟩
    intro known
    obtain ⟨entry, member, same⟩ := List.mem_map.mp known
    have less := index.nodes entry member
    rw [same] at less
    exact Nat.lt_irrefl _ less
  nodes := by
    intro entry member
    rcases Multimap.mem_insert.mp member with rfl | old
    · exact Nat.lt_succ_self _
    · exact Nat.lt_succ_of_lt (index.nodes entry old)
  sorted := index.sorted.insert

theorem TimeIndex.filter {list : TimeoutList} (index : list.TimeIndex)
    (keep : TlNode → Bool) :
    { list with tl := list.tl.filter keep }.TimeIndex where
  iter := fun entry member => index.iter entry (List.mem_of_mem_filter member)
  distinct := index.distinct.sublist (List.filter_sublist.map _)
  nodes := fun entry member => index.nodes entry (List.mem_of_mem_filter member)
  sorted := index.sorted.filter keep

theorem tl_insertTl (list : TimeoutList) (stamp : Int) (uid : Uid) :
    ((list.insertTl stamp uid).tl.map TlNode.uid).Perm
      (uid :: list.tl.map TlNode.uid) :=
  (Multimap.insert_perm TlNode.key ⟨list.nodes, stamp, uid⟩ list.tl).map
    TlNode.uid

/-- A used slot is freed. -/
def removeEntry (list : TimeoutList) (entry : TlNode) : TimeoutList :=
  { list with
    free := list.free ++ [entry.uid]
    vConn := Function.update list.vConn entry.uid none
    tl := list.tl.filter (·.node ≠ entry.node) }

/-- One more reserved uid. -/
theorem perm_reserve (free reserved : List Uid) (uid : Uid)
    (used : List Uid) :
    (free ++ (reserved ++ [uid]).map slot ++ used).Perm
      (slot uid :: (free ++ reserved.map slot ++ used)) := by
  rw [List.map_append, List.map_singleton, ← List.append_assoc,
    List.append_assoc _ [slot uid]]
  exact List.perm_middle

section Indexed

variable {list : TimeoutList} (indexed : list.Indexed)

include indexed

theorem Indexed.nodup_slots :
    (list.free ++ list.reserved.map slot ++ list.tl.map TlNode.uid).Nodup :=
  indexed.slots.nodup_iff.mpr (nodup_slotsUpTo list.total)

theorem Indexed.nodup_uids : (list.tl.map TlNode.uid).Nodup :=
  (List.nodup_append.mp indexed.nodup_slots).2.1

theorem Indexed.inside {entry : TlNode} (member : entry ∈ list.tl) :
    entry.uid > 0 ∧ entry.uid ≤ list.total :=
  mem_slotsUpTo.mp (indexed.slots.mem_iff.mp
    (List.mem_append_right _ (List.mem_map_of_mem member)))

theorem Indexed.isSome {entry : TlNode} (member : entry ∈ list.tl) :
    (list.vConn entry.uid).isSome :=
  (indexed.used entry.uid).mpr (List.mem_map_of_mem member)

theorem Indexed.eq_of_node {entry other : TlNode} (member : entry ∈ list.tl)
    (otherMember : other ∈ list.tl) (same : entry.node = other.node) :
    entry = other :=
  List.inj_on_of_nodup_map indexed.distinct member otherMember same

theorem Indexed.eq_of_uid {entry other : TlNode} (member : entry ∈ list.tl)
    (otherMember : other ∈ list.tl) (same : entry.uid = other.uid) :
    entry = other :=
  List.inj_on_of_nodup_map indexed.nodup_uids member otherMember same

theorem Indexed.perm_filter {entry : TlNode} (member : entry ∈ list.tl) :
    list.tl.Perm (entry :: list.tl.filter (·.node ≠ entry.node)) := by
  have erased : list.tl.filter (·.node ≠ entry.node) = list.tl.erase entry := by
    have nodup : list.tl.Nodup := indexed.distinct.of_map _
    rw [nodup.erase_eq_filter]
    apply List.filter_congr
    intro other otherMember
    by_cases same : other = entry
    · simp [same]
    · have different : other.node ≠ entry.node :=
        fun node => same (indexed.eq_of_node otherMember member node)
      simp [same, different]
  rw [erased]
  exact List.perm_cons_erase member

theorem Indexed.eraseTl {entry : TlNode} (member : entry ∈ list.tl)
    {rest : TimeoutList} (same : rest.tl = list.tl) :
    rest.eraseTl (list.iter entry.uid) =
      .ok { rest with tl := rest.tl.filter (·.node ≠ entry.node) } := by
  rw [TimeoutList.eraseTl, indexed.iter entry member, same]
  cases search : list.tl.find? (some ·.node = some entry.node) with
  | none =>
      have missing := List.find?_eq_none.mp search entry member
      simp at missing
  | some found =>
      have node : found.node = entry.node := by
        simpa using List.find?_some search
      simp only [node]

theorem Indexed.delNoLock {entry : TlNode} (member : entry ∈ list.tl) :
    list.delNoLock entry.uid = .ok (list.removeEntry entry) := by
  obtain ⟨positive, atMost⟩ := indexed.inside member
  have freed : list.toConnectionList.delNoLock entry.uid =
      some { list.toConnectionList with
        vConn := Function.update list.vConn entry.uid none
        free := list.free ++ [entry.uid] } := by
    rw [ConnectionList.delNoLock,
      if_pos ⟨positive, atMost, indexed.isSome member⟩]
  rw [TimeoutList.delNoLock, freed, asserted, ok_bind,
    indexed.eraseTl member rfl, ok_bind]
  rfl

theorem Indexed.removeEntry {entry : TlNode} (member : entry ∈ list.tl) :
    (list.removeEntry entry).Indexed where
  iter := (indexed.filter _).iter
  distinct := (indexed.filter _).distinct
  nodes := (indexed.filter _).nodes
  sorted := (indexed.filter _).sorted
  slots := by
    have uids := (indexed.perm_filter member).map TlNode.uid
    refine List.Perm.trans ?_ indexed.slots
    refine List.Perm.trans ?_ (uids.symm.append_left _)
    simp only [TimeoutList.removeEntry, List.map_cons, List.append_assoc]
    refine List.Perm.append_left _ ?_
    rw [List.singleton_append]
    exact List.perm_middle.symm
  used := by
    intro uid
    have uids := ((indexed.perm_filter member).map TlNode.uid).mem_iff (a := uid)
    have distinct := ((indexed.perm_filter member).map
      TlNode.uid).nodup_iff.mp indexed.nodup_uids
    rw [List.map_cons, List.nodup_cons] at distinct
    rw [List.map_cons, List.mem_cons] at uids
    by_cases same : uid = entry.uid
    · subst same
      simp only [TimeoutList.removeEntry, Function.update_self,
        Option.isSome_none, Bool.false_eq_true, false_iff]
      exact distinct.1
    · simp only [TimeoutList.removeEntry, Function.update_of_ne same]
      rw [indexed.used uid, uids]
      exact or_iff_right same
  magic := indexed.magic

theorem Indexed.add {cPtr : Connection} {last stamp : Int}
    {next : TimeoutList} (reserved : cPtr.uid ∈ list.reserved)
    (run : list.add cPtr last stamp = .ok next) : next.Indexed := by
  rw [TimeoutList.add] at run
  cases added : list.toConnectionList.add cPtr with
  | none =>
      rw [added] at run
      cases run
  | some connections =>
      obtain ⟨_, empty, rfl⟩ := ConnectionList.add_cases added
      rw [added, asserted, ok_bind] at run
      cases run
      have unused : slot cPtr.uid ∉ list.tl.map TlNode.uid := by
        rw [← indexed.used, empty]
        exact Bool.false_ne_true
      have index := indexed.toTimeIndex.insertTl stamp unused
      have uids := tl_insertTl list stamp (slot cPtr.uid)
      refine {
        iter := index.iter
        distinct := index.distinct
        nodes := index.nodes
        sorted := index.sorted
        slots := ?_
        used := ?_
        magic := indexed.magic }
      · refine List.Perm.trans ?_ indexed.slots
        refine (uids.append_left _).trans ?_
        have taken := (List.perm_cons_erase reserved).map slot
        refine List.Perm.trans ?_
          ((taken.symm.append_left list.free).append_right _)
        rw [List.append_assoc, List.append_assoc]
        refine List.Perm.append_left _ ?_
        rw [List.map_cons, List.cons_append]
        exact List.perm_middle
      · intro uid
        have same := uids.mem_iff (a := uid)
        rw [List.mem_cons, ← indexed.used] at same
        refine Iff.trans ?_ same.symm
        by_cases here : uid = slot cPtr.uid
        · simp [TimeoutList.insertTl, here]
        · simp [TimeoutList.insertTl, here]

/-- The element of a slot moves to its new place. -/
theorem Indexed.move {entry : TlNode} (member : entry ∈ list.tl) (stamp : Int)
    (iLastRefreshTime : Uid → Int) :
    ({ list with
      iLastRefreshTime := iLastRefreshTime
      tl := list.tl.filter (·.node ≠ entry.node) }.insertTl stamp
        entry.uid).Indexed := by
  have perm := (indexed.perm_filter member).map TlNode.uid
  have distinct := perm.nodup_iff.mp indexed.nodup_uids
  rw [List.map_cons, List.nodup_cons] at distinct
  have kept := indexed.toTimeIndex.filter (·.node ≠ entry.node)
  have remaining : TimeIndex { list with
      iLastRefreshTime := iLastRefreshTime
      tl := list.tl.filter (·.node ≠ entry.node) } :=
    ⟨kept.iter, kept.distinct, kept.nodes, kept.sorted⟩
  have index := remaining.insertTl stamp distinct.1
  have uids := (tl_insertTl { list with
      iLastRefreshTime := iLastRefreshTime
      tl := list.tl.filter (·.node ≠ entry.node) } stamp entry.uid).trans
    perm.symm
  exact {
    iter := index.iter
    distinct := index.distinct
    nodes := index.nodes
    sorted := index.sorted
    slots := (uids.append_left _).trans indexed.slots
    used := fun uid => (indexed.used uid).trans uids.mem_iff.symm
    magic := indexed.magic }

theorem Indexed.refresh {muid : Uid} {stamp : Int} :
    (∃ what, list.refresh muid stamp = .error (.assertion what)) ∨
      ∃ next, list.refresh muid stamp = .ok next ∧ next.Indexed := by
  rw [TimeoutList.refresh]
  split_ifs with found recent
  · exact .inr ⟨list, rfl, indexed⟩
  · obtain ⟨entry, member, same⟩ := List.mem_map.mp
      ((indexed.used _).mp found.2.2.2)
    refine .inr ⟨_, ?_, indexed.move member stamp
      (Function.update list.iLastRefreshTime (slot muid) stamp)⟩
    simp only [← same]
    rw [indexed.eraseTl member (by rfl)]
    rfl
  · exact .inl ⟨_, rfl⟩

theorem Indexed.del {muid : Uid} :
    (∃ what, list.del muid = .error (.assertion what)) ∨
      ∃ next, list.del muid = .ok next ∧ next.Indexed := by
  rw [TimeoutList.del]
  split_ifs with found
  · obtain ⟨entry, member, same⟩ := List.mem_map.mp
      ((indexed.used _).mp found.2.2.2)
    rw [← same]
    exact .inr ⟨_, indexed.delNoLock member, indexed.removeEntry member⟩
  · exact .inl ⟨_, rfl⟩

/-- A uid leads back to its slot if the slot does not reach into the bits of
the magic number. -/
theorem Indexed.getUniqId {uid : Uid} {next : TimeoutList}
    (run : list.getUniqId = .ok (uid, next)) :
    next.Indexed ↔ ∀ first ∈ list.free.head?, first.toNat < 2 ^ 22 := by
  rw [TimeoutList.getUniqId, ConnectionList.getUniqId] at run
  cases free : list.free with
  | nil =>
      rw [free] at run
      cases run
  | cons first later =>
      rw [free] at run
      dsimp only at run
      split_ifs at run
      · cases run
        have whole := indexed.slots
        rw [free, List.cons_append, List.cons_append] at whole
        have place : slot (list.iConnectionMagic ||| first) = slot first := by
          rw [slot_or, indexed.magic]
          exact BitVec.zero_or
        have fits : slot first = first ↔ first.toNat < 2 ^ 22 := by
          rw [← BitVec.toNat_inj, toNat_slot]
          omega
        rw [List.head?_cons]
        constructor
        · intro after other same
          cases same
          have moved := (perm_reserve _ _ _ _).symm.trans after.slots
          rw [place] at moved
          have pair := (List.perm_append_right_iff _).mp
            (show ([slot first] ++ _).Perm ([first] ++ _) from
              moved.trans whole.symm)
          exact fits.mp (List.singleton_perm_singleton.mp pair)
        · intro inside
          have same := fits.mpr (inside first rfl)
          refine {
            iter := indexed.iter
            distinct := indexed.distinct
            nodes := indexed.nodes
            sorted := indexed.sorted
            slots := ?_
            used := indexed.used
            magic := indexed.magic }
          refine (perm_reserve _ _ _ _).trans ?_
          rw [place, same]
          exact whole
      · cases run

theorem Indexed.init_iff (size iIndex : Uid) (tnow : Int) :
    (list.init size iIndex tnow).Indexed ↔ list.total = 0 := by
  have zero : (0 : Uid).toNat = 0 := rfl
  have before := indexed.slots.length_eq
  simp only [List.length_append, slotsUpTo, List.length_map,
    List.length_range] at before
  constructor
  · intro after
    have lengths := after.slots.length_eq
    simp only [TimeoutList.init, ConnectionList.init, List.length_append,
      slotsUpTo, List.length_map, List.length_range] at lengths
    apply BitVec.eq_of_toNat_eq
    rw [zero]
    omega
  · intro nothing
    rw [nothing, zero] at before
    have free : list.free = [] := List.length_eq_zero_iff.mp (by omega)
    have reserved : list.reserved = [] := List.length_eq_zero_iff.mp (by omega)
    have tl : list.tl = [] := List.length_eq_zero_iff.mp (by omega)
    refine {
      iter := indexed.iter
      distinct := indexed.distinct
      nodes := indexed.nodes
      sorted := indexed.sorted
      slots := ?_
      used := ?_
      magic := slot_magic size iIndex _ }
    · simp only [TimeoutList.init, ConnectionList.init, free, reserved, tl]
      simp [slotsUpTo]
    · intro uid
      simp [TimeoutList.init, ConnectionList.init, tl]

end Indexed

end TimeoutList

end TarsCpp.Epoll
