import TarsCpp.ConsistentHash.Ring

/-!
# Taking a node away from the ring

A hashcode belongs to the first code that lies at it or behind it.  The search
stops strictly behind it instead, except at the first code.
-/

namespace TarsCpp.ConsistentHash

open Clockwise

/-- The place of an item on the ring. -/
def NodeTNew.code (item : NodeTNew) : Nat :=
  item.iHashCode.toNat

theorem search_spec {vHashList : List NodeTNew} {hashcode : UInt32}
    {low high : Nat} (few : vHashList.length ≤ 2 ^ 30) (inside : low < high)
    (atMost : high ≤ vHashList.length)
    (below : ∀ item ∈ vHashList[low]?, item.code ≤ hashcode.toNat)
    (above : ∀ item ∈ vHashList[high]?, hashcode.toNat < item.code) :
    ∃ found, search vHashList hashcode low high = some found ∧
      found < vHashList.length ∧
      (∀ item ∈ vHashList[found]?, item.code ≤ hashcode.toNat) ∧
      ∀ item ∈ vHashList[found + 1]?, hashcode.toNat < item.code := by
  fun_induction search vHashList hashcode low high with
  | case1 low high apart overflows =>
      unfold intMax at overflows
      omega
  | case2 low high apart fits missing =>
      rw [List.getElem?_eq_none_iff] at missing
      omega
  | case3 low high apart fits item found greater ih =>
      refine ih (by omega) (by omega) below ?_
      intro other same
      rw [found] at same
      rw [← Option.some.inj same]
      exact UInt32.lt_iff_toNat_lt.mp greater
  | case4 low high apart fits item found notGreater ih =>
      refine ih (by omega) atMost ?_ above
      intro other same
      rw [found] at same
      rw [← Option.some.inj same]
      exact Nat.le_of_not_lt fun less =>
        notGreater (UInt32.lt_iff_toNat_lt.mpr less)
  | case5 low high adjacent =>
      have behind : high = low + 1 := by omega
      exact ⟨low, rfl, by omega, below, behind ▸ above⟩

/-- Sorted by their codes, no two of which are equal. -/
def Ascending (vHashList : List NodeTNew) : Prop :=
  vHashList.Pairwise fun m1 m2 => m1.code < m2.code

theorem Ascending.getElem_lt {vHashList : List NodeTNew}
    (ascending : Ascending vHashList) {i j : Nat} {first second : NodeTNew}
    (isFirst : vHashList[i]? = some first)
    (isSecond : vHashList[j]? = some second) (before : i < j) :
    first.code < second.code := by
  obtain ⟨inside, rfl⟩ := List.getElem?_eq_some_iff.mp isFirst
  obtain ⟨inside', rfl⟩ := List.getElem?_eq_some_iff.mp isSecond
  exact List.pairwise_iff_getElem.mp ascending i j inside inside' before

theorem Ascending.getElem_le {vHashList : List NodeTNew}
    (ascending : Ascending vHashList) {i j : Nat} {first second : NodeTNew}
    (isFirst : vHashList[i]? = some first)
    (isSecond : vHashList[j]? = some second) (before : i ≤ j) :
    first.code ≤ second.code := by
  rcases Nat.eq_or_lt_of_le before with rfl | less
  · rw [isFirst] at isSecond
    rw [Option.some.inj isSecond]
  · exact Nat.le_of_lt (ascending.getElem_lt isFirst isSecond less)

/-- What the search finds: the first item on both sides of all codes, the next
one in between. -/
inductive Located (items : Set NodeTNew) (position : Nat) (item : NodeTNew) :
    Prop
  | outside (first : First NodeTNew.code items item)
      (outside : position ≤ item.code ∨
        ∀ other ∈ items, other.code < position)
  | between (next : Next NodeTNew.code items position item)
      (started : ∃ other ∈ items, other.code < position)

/-- The position is the last of several codes: the search reads behind the
vector. -/
structure Overruns (items : Set NodeTNew) (position : Nat) : Prop where
  occupied : ∃ item ∈ items, item.code = position
  last : ∀ item ∈ items, item.code ≤ position
  started : ∃ item ∈ items, item.code < position

theorem bmod_length {vHashList : List NodeTNew}
    (few : vHashList.length ≤ 2 ^ 30) :
    (vHashList.length : Int).bmod (2 ^ 32) = vHashList.length := by
  rw [Int.bmod_eq_iff]
  all_goals omega

theorem locate_spec {vHashList : List NodeTNew}
    (ascending : Ascending vHashList) (few : vHashList.length ≤ 2 ^ 30)
    (something : vHashList ≠ []) (hashcode : UInt32) :
    (∃ item, locate vHashList hashcode = some item ∧
      Located {item | item ∈ vHashList} hashcode.toNat item) ∨
    (locate vHashList hashcode = none ∧
      Overruns {item | item ∈ vHashList} hashcode.toNat) := by
  have length : 0 < vHashList.length := List.length_pos_iff.mpr something
  have isFirst := List.getElem?_eq_getElem length
  have inside : vHashList.length - 1 < vHashList.length := by omega
  have isLast := List.getElem?_eq_getElem inside
  generalize vHashList[0] = first at isFirst
  generalize vHashList[vHashList.length - 1] = last at isLast
  have firstLeast : First NodeTNew.code {item | item ∈ vHashList} first := by
    refine ⟨List.mem_of_getElem? isFirst, ?_⟩
    intro other member
    obtain ⟨i, isOther⟩ := List.mem_iff_getElem?.mp member
    exact ascending.getElem_le isFirst isOther (Nat.zero_le i)
  have lastGreatest : ∀ other ∈ vHashList, other.code ≤ last.code := by
    intro other member
    obtain ⟨i, isOther⟩ := List.mem_iff_getElem?.mp member
    obtain ⟨bound, _⟩ := List.getElem?_eq_some_iff.mp isOther
    exact ascending.getElem_le isOther isLast (by omega)
  have fits : (vHashList.length : Int).bmod (2 ^ 32) = vHashList.length :=
    bmod_length few
  have positive : ¬ ((vHashList.length : Int) ≤ 0) := by omega
  by_cases before : hashcode ≤ first.iHashCode
  · refine .inl ⟨first, ?_, .outside firstLeast (.inl before)⟩
    simp [locate, isFirst, before]
  by_cases passed : hashcode > last.iHashCode
  · refine .inl ⟨first, ?_, .outside firstLeast (.inr ?_)⟩
    · simp only [locate, isFirst, fits, positive, if_false, Int.toNat_natCast]
      simp [isLast, passed]
    · intro other member
      exact Nat.lt_of_le_of_lt (lastGreatest other member)
        (UInt32.lt_iff_toNat_lt.mp passed)
  have firstBelow : first.code < hashcode.toNat :=
    UInt32.lt_iff_toNat_lt.mp (UInt32.not_le.mp before)
  have atMostLast : hashcode.toNat ≤ last.code :=
    UInt32.le_iff_toNat_le.mp (UInt32.not_lt.mp passed)
  obtain ⟨found, searched, bound, below, above⟩ := search_spec few length
    (Nat.le_refl _)
    (by
      intro item same
      rw [isFirst] at same
      rw [← Option.some.inj same]
      exact Nat.le_of_lt firstBelow)
    (by simp)
  have read : locate vHashList hashcode = vHashList[found + 1]? := by
    simp only [locate, isFirst, fits, positive, if_false, Int.toNat_natCast]
    simp [before, isLast, passed, searched]
  rw [read]
  have started : ∃ item ∈ {item | item ∈ vHashList},
      item.code < hashcode.toNat := ⟨first, firstLeast.member, firstBelow⟩
  have isFound := List.getElem?_eq_getElem bound
  have foundBelow := below _ isFound
  cases next : vHashList[found + 1]? with
  | some item =>
      refine .inl ⟨item, rfl, .between ⟨List.mem_of_getElem? next,
        above item next, ?_⟩ started⟩
      intro other member behind
      obtain ⟨i, isOther⟩ := List.mem_iff_getElem?.mp member
      refine ascending.getElem_le next isOther (Nat.lt_of_not_le fun back => ?_)
      have atMost := ascending.getElem_le isOther isFound back
      omega
  | none =>
      have ends := List.getElem?_eq_none_iff.mp next
      have same : found = vHashList.length - 1 := by omega
      subst found
      rw [isLast] at isFound
      rw [← Option.some.inj isFound] at foundBelow
      refine .inr ⟨rfl, ⟨last, List.mem_of_getElem? isLast, ?_⟩, ?_, started⟩
      · exact Nat.le_antisymm foundBelow atMostLast
      · intro item member
        exact (lastGreatest item member).trans foundBelow

section Points

variable {items : Set NodeTNew} {position : Nat} {item other : NodeTNew}

theorem Located.member (located : Located items position item) :
    item ∈ items := by
  cases located with
  | outside first _ => exact first.member
  | between next _ => exact next.member

theorem Located.unique (apart : Apart NodeTNew.code items)
    (located : Located items position item)
    (second : Located items position other) : item = other := by
  cases located with
  | outside first outside =>
      cases second with
      | outside first' _ => exact first.unique apart first'
      | between next started =>
          obtain ⟨earlier, member, before⟩ := started
          have least := first.least earlier member
          rcases outside with atMost | passed
          · omega
          · have beyond := passed other next.member
            have behind := next.behind
            omega
  | between next started =>
      cases second with
      | between next' _ => exact next.unique apart next'
      | outside first outside =>
          obtain ⟨earlier, member, before⟩ := started
          have least := first.least earlier member
          rcases outside with atMost | passed
          · omega
          · have beyond := passed item next.member
            have behind := next.behind
            omega

theorem Located.not_overruns (located : Located items position item) :
    ¬ Overruns items position := by
  intro overruns
  cases located with
  | outside first outside =>
      obtain ⟨earlier, member, before⟩ := overruns.started
      have least := first.least earlier member
      rcases outside with atMost | passed
      · omega
      · obtain ⟨occupant, occupied, same⟩ := overruns.occupied
        have beyond := passed occupant occupied
        omega
  | between next _ =>
      have atMost := overruns.last item next.member
      have behind := next.behind
      omega

/-- Between two codes the search finds the next one. -/
theorem Located.next (located : Located items position item)
    (started : ∃ other ∈ items, other.code < position)
    (ends : ∃ other ∈ items, position ≤ other.code) :
    Next NodeTNew.code items position item := by
  cases located with
  | between next _ => exact next
  | outside first outside =>
      obtain ⟨earlier, member, before⟩ := started
      obtain ⟨later, laterMember, behind⟩ := ends
      have least := first.least earlier member
      rcases outside with atMost | passed
      · omega
      · have beyond := passed later laterMember
        omega

/-- The items without those of a node. -/
def without (items : Set NodeTNew) (node : List UInt8) : Set NodeTNew :=
  {item | item ∈ items ∧ item.sNode ≠ node}

theorem without_subset (items : Set NodeTNew) (node : List UInt8) :
    without items node ⊆ items :=
  fun _ member => member.1

/-- The position is the code of an item behind codes of the node only: without
the node this item is the first one, and the search stops at it. -/
structure Uncovers (items : Set NodeTNew) (node : List UInt8) (position : Nat)
    (item : NodeTNew) : Prop where
  kept : item ∈ without items node
  occupies : item.code = position
  started : ∃ other ∈ items, other.code < position
  covered : ∀ other ∈ items, other.code < position → other.sNode = node

variable {node : List UInt8}

theorem Located.without (located : Located items position item)
    (kept : item.sNode ≠ node)
    (covered : ∀ other, ¬ Uncovers items node position other) :
    Located (without items node) position item := by
  cases located with
  | outside first outside =>
      refine .outside (first.mono (without_subset items node)
        ⟨first.member, kept⟩) ?_
      rcases outside with atMost | passed
      · exact .inl atMost
      · exact .inr fun other member => passed other member.1
  | between next started =>
      have next' := next.mono (without_subset items node)
        (show item ∈ ConsistentHash.without items node from
          ⟨next.member, kept⟩)
      by_cases started' : ∃ other ∈ ConsistentHash.without items node,
          other.code < position
      · exact .between next' started'
      · have atMost : ∀ other ∈ ConsistentHash.without items node,
            position ≤ other.code :=
          fun other member => Nat.le_of_not_lt fun before =>
            started' ⟨other, member, before⟩
        refine .outside ⟨next'.member, ?_⟩ (.inl (Nat.le_of_lt next.behind))
        intro other member
        refine next'.least other member (lt_of_le_of_ne (atMost other member) ?_)
        intro same
        refine covered other ⟨member, same.symm, started, ?_⟩
        intro earlier present before
        by_contra foreign
        exact started' ⟨earlier, ⟨present, foreign⟩, before⟩

theorem Uncovers.located (uncovers : Uncovers items node position item) :
    Located (ConsistentHash.without items node) position item := by
  refine .outside ⟨uncovers.kept, ?_⟩ (.inl uncovers.occupies.ge)
  intro other member
  rw [uncovers.occupies]
  exact Nat.le_of_not_lt fun before =>
    member.2 (uncovers.covered other member.1 before)

end Points

/-- All items that the nodes put on the ring. -/
def allItems (md5bin : Digest) (hashAlg : HashAlgorithmType)
    (nodes : List Node) : List NodeTNew :=
  nodes.flatMap (items md5bin hashAlg)

/-- A set of nodes, known by their names, whose codes are all different; an
`int` can hold twice the number of the codes. -/
structure NodeSet (md5bin : Digest) (hashAlg : HashAlgorithmType)
    (nodes : List Node) : Prop where
  names : (nodes.map Node.node).Nodup
  codes : ((allItems md5bin hashAlg nodes).map NodeTNew.iHashCode).Nodup
  few : (allItems md5bin hashAlg nodes).length ≤ 2 ^ 30

section Build

variable {md5bin : Digest} {hashAlg : HashAlgorithmType} {nodes : List Node}

theorem foldl_addNode (ring : TcConsistentHashNew) (nodes : List Node) :
    nodes.foldl (TcConsistentHashNew.addNode md5bin) ring =
      { ring with
        vHashList := ring.vHashList ++
          allItems md5bin ring.hashAlg nodes } := by
  induction nodes generalizing ring with
  | nil => simp [allItems]
  | cons added nodes ih =>
      rw [List.foldl_cons, ih]
      simp [TcConsistentHashNew.addNode, allItems]

theorem build_vHashList :
    (build md5bin hashAlg nodes).vHashList =
      (allItems md5bin hashAlg nodes).insertionSort fun m1 m2 =>
        m1.iHashCode ≤ m2.iHashCode := by
  rw [build, foldl_addNode]
  rfl

theorem build_perm :
    (build md5bin hashAlg nodes).vHashList.Perm
      (allItems md5bin hashAlg nodes) := by
  rw [build_vHashList]
  exact List.perm_insertionSort _ _

theorem mem_items {added : Node} {item : NodeTNew}
    (member : item ∈ items md5bin hashAlg added) : item.sNode = added.node := by
  obtain ⟨_, _, member⟩ := List.mem_flatMap.mp member
  obtain ⟨_, _, rfl⟩ := List.mem_map.mp member
  rfl

theorem mem_items_iIndex {added : Node} {item : NodeTNew}
    (member : item ∈ items md5bin hashAlg added) :
    item.iIndex = added.index := by
  obtain ⟨_, _, member⟩ := List.mem_flatMap.mp member
  obtain ⟨_, _, rfl⟩ := List.mem_map.mp member
  rfl

theorem build_sorted :
    (build md5bin hashAlg nodes).vHashList.Pairwise fun m1 m2 =>
      m1.iHashCode ≤ m2.iHashCode := by
  have : Std.Total fun m1 m2 : NodeTNew => m1.iHashCode ≤ m2.iHashCode :=
    ⟨fun _ _ => UInt32.le_total _ _⟩
  have : IsTrans NodeTNew fun m1 m2 => m1.iHashCode ≤ m2.iHashCode :=
    ⟨fun _ _ _ => UInt32.le_trans⟩
  rw [build_vHashList]
  exact List.pairwise_insertionSort _ _

theorem NodeSet.ascending (set : NodeSet md5bin hashAlg nodes) :
    Ascending (build md5bin hashAlg nodes).vHashList := by
  have different : ((build md5bin hashAlg nodes).vHashList.map
      NodeTNew.iHashCode).Nodup :=
    (build_perm.map _).nodup_iff.mpr set.codes
  refine (List.pairwise_map.mp different).imp₂ ?_ build_sorted
  intro m1 m2 distinct atMost
  exact lt_of_le_of_ne (UInt32.le_iff_toNat_le.mp atMost) fun same =>
    distinct (UInt32.toNat_inj.mp same)

theorem NodeSet.apart (set : NodeSet md5bin hashAlg nodes) :
    Apart NodeTNew.code {item | item ∈ allItems md5bin hashAlg nodes} := by
  intro item member other otherMember same
  exact List.inj_on_of_nodup_map set.codes member otherMember
    (UInt32.toNat_inj.mp same)

theorem NodeSet.perm {others : List Node}
    (set : NodeSet md5bin hashAlg nodes) (same : others.Perm nodes) :
    NodeSet md5bin hashAlg others where
  names := (same.map _).nodup_iff.mpr set.names
  codes := ((same.flatMap_right _).map _).nodup_iff.mpr set.codes
  few := (same.flatMap_right _).length_eq.trans_le set.few

theorem allItems_erase (md5bin : Digest) (hashAlg : HashAlgorithmType)
    {added : Node} (member : added ∈ nodes) :
    (allItems md5bin hashAlg nodes).Perm
      (items md5bin hashAlg added ++
        allItems md5bin hashAlg (nodes.erase added)) :=
  (List.perm_cons_erase member).flatMap_right _

/-- A set of nodes stays one if a node is taken away. -/
theorem NodeSet.erase {added : Node} (set : NodeSet md5bin hashAlg nodes)
    (member : added ∈ nodes) :
    NodeSet md5bin hashAlg (nodes.erase added) where
  names := set.names.sublist (List.erase_sublist.map _)
  codes := by
    have codes := ((allItems_erase md5bin hashAlg member).map _).nodup_iff.mp set.codes
    rw [List.map_append] at codes
    exact codes.of_append_right
  few := by
    have length := (allItems_erase md5bin hashAlg member).length_eq
    have few := set.few
    rw [List.length_append] at length
    omega

/-- What is left are the items of the other nodes. -/
theorem NodeSet.mem_erase {added : Node} (set : NodeSet md5bin hashAlg nodes)
    (member : added ∈ nodes) {item : NodeTNew} :
    item ∈ allItems md5bin hashAlg (nodes.erase added) ↔
      item ∈ without {item | item ∈ allItems md5bin hashAlg nodes}
        added.node := by
  have split := (allItems_erase md5bin hashAlg member).mem_iff (a := item)
  constructor
  · intro present
    refine ⟨split.mpr (List.mem_append_right _ present), ?_⟩
    obtain ⟨other, otherMember, present⟩ := List.mem_flatMap.mp present
    rw [mem_items present]
    intro same
    have equal := List.inj_on_of_nodup_map set.names
      (List.mem_of_mem_erase otherMember) member same
    have distinct : nodes.Nodup := set.names.of_map _
    exact (distinct.not_mem_erase (equal ▸ otherMember))
  · rintro ⟨present, other⟩
    rcases List.mem_append.mp (split.mp present) with own | rest
    · exact absurd (mem_items own) other
    · exact rest

/-- The order in which the nodes are added does not matter. -/
theorem NodeSet.build_eq {others : List Node}
    (set : NodeSet md5bin hashAlg nodes) (same : others.Perm nodes) :
    build md5bin hashAlg others = build md5bin hashAlg nodes := by
  have lists : (build md5bin hashAlg others).vHashList =
      (build md5bin hashAlg nodes).vHashList := by
    refine List.Perm.eq_of_pairwise ?_ (set.perm same).ascending set.ascending
      (build_perm.trans ((same.flatMap_right _).trans build_perm.symm))
    intro m1 m2 _ _ less greater
    exact absurd less (Nat.lt_asymm greater)
  rw [build, build, foldl_addNode, foldl_addNode] at lists ⊢
  exact congrArg (TcConsistentHashNew.mk hashAlg) lists

theorem mem_build {item : NodeTNew} :
    item ∈ (build md5bin hashAlg nodes).vHashList ↔
      item ∈ allItems md5bin hashAlg nodes :=
  build_perm.mem_iff

theorem NodeSet.locate (set : NodeSet md5bin hashAlg nodes)
    (something : allItems md5bin hashAlg nodes ≠ []) (hashcode : UInt32) :
    (∃ item, locate (build md5bin hashAlg nodes).vHashList hashcode = some item ∧
      Located {item | item ∈ allItems md5bin hashAlg nodes}
        hashcode.toNat item) ∨
    (locate (build md5bin hashAlg nodes).vHashList hashcode = none ∧
      Overruns {item | item ∈ allItems md5bin hashAlg nodes}
        hashcode.toNat) := by
  have filled : (build md5bin hashAlg nodes).vHashList ≠ [] :=
    fun nothing => something (List.nil_perm.mp (nothing ▸ build_perm))
  have spec := locate_spec set.ascending
    (build_perm.length_eq.trans_le set.few) filled hashcode
  simpa only [mem_build] using spec

theorem NodeSet.locate_eq_some (set : NodeSet md5bin hashAlg nodes)
    {hashcode : UInt32} {item : NodeTNew}
    (located : Located {item | item ∈ allItems md5bin hashAlg nodes}
      hashcode.toNat item) :
    ConsistentHash.locate (build md5bin hashAlg nodes).vHashList hashcode =
      some item := by
  have something : allItems md5bin hashAlg nodes ≠ [] :=
    List.ne_nil_of_mem located.member
  rcases set.locate something hashcode with ⟨found, read, second⟩ | ⟨_, overruns⟩
  · rw [read, located.unique set.apart second]
  · exact absurd overruns located.not_overruns

theorem NodeSet.getNodeName_eq (set : NodeSet md5bin hashAlg nodes)
    {hashcode : UInt32} {item : NodeTNew}
    (located : Located {item | item ∈ allItems md5bin hashAlg nodes}
      hashcode.toNat item) :
    (build md5bin hashAlg nodes).getNodeName hashcode =
        some (0, item.sNode) ∧
      (build md5bin hashAlg nodes).getIndex hashcode =
        some (0, item.iIndex) := by
  have something : (build md5bin hashAlg nodes).vHashList ≠ [] :=
    List.ne_nil_of_mem (mem_build.mpr located.member)
  have read := set.locate_eq_some located
  constructor
  · rw [TcConsistentHashNew.getNodeName, if_neg something, read]
    rfl
  · rw [TcConsistentHashNew.getIndex, if_neg something, read]
    rfl

theorem NodeSet.getNodeName_eq_none (set : NodeSet md5bin hashAlg nodes)
    {hashcode : UInt32}
    (overruns : Overruns {item | item ∈ allItems md5bin hashAlg nodes}
      hashcode.toNat) :
    (build md5bin hashAlg nodes).getNodeName hashcode = none := by
  obtain ⟨_, member, _⟩ := overruns.occupied
  have something : (build md5bin hashAlg nodes).vHashList ≠ [] :=
    List.ne_nil_of_mem (mem_build.mpr member)
  rw [TcConsistentHashNew.getNodeName, if_neg something]
  rcases set.locate (List.ne_nil_of_mem member) hashcode with
    ⟨_, _, located⟩ | ⟨read, _⟩
  · exact absurd overruns located.not_overruns
  · rw [read]
    rfl

/-- The items of one name are those of one node. -/
theorem NodeSet.iIndex_eq (set : NodeSet md5bin hashAlg nodes)
    {item other : NodeTNew} (member : item ∈ allItems md5bin hashAlg nodes)
    (otherMember : other ∈ allItems md5bin hashAlg nodes)
    (same : item.sNode = other.sNode) : item.iIndex = other.iIndex := by
  obtain ⟨first, firstMember, present⟩ := List.mem_flatMap.mp member
  obtain ⟨second, secondMember, present'⟩ := List.mem_flatMap.mp otherMember
  rw [mem_items present, mem_items present'] at same
  obtain rfl := List.inj_on_of_nodup_map set.names firstMember secondMember same
  rw [mem_items_iIndex present, mem_items_iIndex present']

end Build

/-- In whichever order the nodes are added the hashcode is mapped to the same
node, and without `removed` to this one again if it is another. -/
def RemapsMinimally (md5bin : Digest) (hashAlg : HashAlgorithmType)
    (nodes : List Node) (removed : Node) (hashcode : UInt32) : Prop :=
  ∀ added rest : List Node, added.Perm nodes →
    rest.Perm (nodes.erase removed) →
    let ring := build md5bin hashAlg nodes
    ∃ code sNode, ring.getNodeName hashcode = some (code, sNode) ∧
      (build md5bin hashAlg added).getNodeName hashcode =
        ring.getNodeName hashcode ∧
      (build md5bin hashAlg added).getIndex hashcode =
        ring.getIndex hashcode ∧
      (code = 0 → sNode ≠ removed.node →
        (build md5bin hashAlg rest).getNodeName hashcode =
          some (0, sNode) ∧
        (build md5bin hashAlg rest).getIndex hashcode =
          ring.getIndex hashcode)

/-- The position is not the last of several codes, and it is not a code that
the node covers while the next one is that of a third node. -/
structure Undisturbed (items : Set NodeTNew) (node : List UInt8)
    (position : Nat) : Prop where
  inRange : ¬ Overruns items position
  uncovered : ∀ item next, Uncovers items node position item →
    Next NodeTNew.code items position next → next.sNode ≠ node →
    next.sNode = item.sNode

theorem remapsMinimally_iff {md5bin : Digest} {hashAlg : HashAlgorithmType}
    {nodes : List Node} (set : NodeSet md5bin hashAlg nodes) {removed : Node}
    (member : removed ∈ nodes) (hashcode : UInt32) :
    RemapsMinimally md5bin hashAlg nodes removed hashcode ↔
      Undisturbed {item | item ∈ allItems md5bin hashAlg nodes} removed.node
        hashcode.toNat := by
  have fewer := set.erase member
  have left : {item | item ∈ allItems md5bin hashAlg (nodes.erase removed)} =
      without {item | item ∈ allItems md5bin hashAlg nodes} removed.node :=
    Set.ext fun _ => set.mem_erase member
  constructor
  · intro remaps
    obtain ⟨code, sNode, mapped, _, _, kept⟩ :=
      remaps nodes _ (List.Perm.refl _) (List.Perm.refl _)
    constructor
    · intro overruns
      rw [set.getNodeName_eq_none overruns] at mapped
      cases mapped
    · intro item next uncovers isNext other
      have whole := set.getNodeName_eq (.between isNext uncovers.started)
      have part := fewer.getNodeName_eq (left ▸ uncovers.located)
      rw [whole.1] at mapped
      cases mapped
      have same := (kept rfl other).1
      rw [part.1] at same
      exact (congrArg Prod.snd (Option.some.inj same)).symm
  · intro undisturbed added rest addedPerm restPerm
    rw [set.build_eq addedPerm, fewer.build_eq restPerm]
    by_cases nothing : allItems md5bin hashAlg nodes = []
    · have empty : (build md5bin hashAlg nodes).vHashList = [] :=
        List.perm_nil.mp (nothing ▸ build_perm)
      refine ⟨-1, [], by simp [TcConsistentHashNew.getNodeName, empty], rfl,
        rfl, ?_⟩
      intro isZero
      exact absurd isZero (by decide)
    rcases set.locate nothing hashcode with ⟨item, _, located⟩ | ⟨_, overruns⟩
    · have whole := set.getNodeName_eq located
      refine ⟨0, item.sNode, whole.1, rfl, rfl, ?_⟩
      intro _ other
      rw [whole.2]
      by_cases covered : ∃ first,
          Uncovers {item | item ∈ allItems md5bin hashAlg nodes} removed.node
            hashcode.toNat first
      · obtain ⟨first, uncovers⟩ := covered
        have part := fewer.getNodeName_eq (left ▸ uncovers.located)
        have same := undisturbed.uncovered first item uncovers
          (located.next uncovers.started ⟨first, uncovers.kept.1,
            uncovers.occupies.ge⟩) other
        have index := set.iIndex_eq located.member uncovers.kept.1 same
        rw [same, index]
        exact part
      · exact fewer.getNodeName_eq (left ▸ located.without other
          (not_exists.mp covered))
    · exact absurd overruns undisturbed.inRange

namespace Sample

/-- The digests of `a_0`, `b_0` and `c_0`. -/
def md5bin : Digest := fun key =>
  if key = [97, 95, 48] then
    #v[106, 146, 117, 183, 249, 102, 228, 95, 251, 51, 73, 46, 53, 140, 141,
      255]
  else if key = [98, 95, 48] then
    #v[46, 66, 96, 0, 185, 44, 251, 199, 40, 107, 14, 44, 194, 163, 116, 130]
  else if key = [99, 95, 48] then
    #v[23, 148, 116, 237, 159, 220, 180, 173, 86, 119, 15, 225, 34, 142, 26,
      117]
  else
    Vector.replicate 16 0

def a : Node := ⟨[97], 0, 1⟩
def b : Node := ⟨[98], 1, 1⟩
def c : Node := ⟨[99], 2, 1⟩

/-- Their codes in the same order. -/
theorem allItems_eq :
    allItems md5bin .defaultHash [a, b, c] =
      [⟨961891165, [97], 0⟩, ⟨1776395901, [98], 1⟩, ⟨3570774524, [99], 2⟩] := by
  decide +kernel

theorem nodeSet : NodeSet md5bin .defaultHash [a, b, c] where
  names := by decide
  codes := by
    rw [allItems_eq]
    decide
  few := by
    rw [allItems_eq]
    decide

end Sample

/-- A hashcode between the first two codes. -/
theorem remapsMinimally_between :
    RemapsMinimally Sample.md5bin .defaultHash [Sample.a, Sample.b, Sample.c]
      Sample.a 1000000000 := by
  have free : ∀ item ∈ allItems Sample.md5bin .defaultHash
      [Sample.a, Sample.b, Sample.c], item.code ≠ 1000000000 := by
    rw [Sample.allItems_eq]
    decide
  refine (remapsMinimally_iff Sample.nodeSet List.mem_cons_self _).mpr ?_
  constructor
  · intro overruns
    obtain ⟨item, member, same⟩ := overruns.occupied
    exact free item member same
  · intro item _ uncovers
    exact absurd uncovers.occupies (free item uncovers.kept.1)

/-- The hashcode is the code of `b`.  It is mapped to `c`, but without `a` it is
mapped to `b`. -/
theorem exactCode_remapped :
    ¬ RemapsMinimally Sample.md5bin .defaultHash
      [Sample.a, Sample.b, Sample.c] Sample.a 1776395901 := by
  intro remaps
  obtain ⟨code, sNode, mapped, _, _, kept⟩ :=
    remaps _ _ (List.Perm.refl _) (List.Perm.refl _)
  have whole : (build Sample.md5bin .defaultHash
      [Sample.a, Sample.b, Sample.c]).getNodeName 1776395901 =
        some (0, [99]) := by
    decide +kernel
  have part : (build Sample.md5bin .defaultHash
      ([Sample.a, Sample.b, Sample.c].erase Sample.a)).getNodeName
        1776395901 = some (0, [98]) := by
    decide +kernel
  rw [whole] at mapped
  cases mapped
  have same := (kept rfl (by decide)).1
  rw [part] at same
  exact absurd same (by decide)

end TarsCpp.ConsistentHash
