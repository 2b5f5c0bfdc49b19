import TarsCpp.TransitionRun
import TarsCpp.ConsistentHash.EndpointManager
import TarsCpp.ConsistentHash.Remapping

/-!
# Selecting comes to an end

Every round of the loop that does not return takes a host out of
`_sortActivProxys`, provided that the ring names hosts that are there.  Between
two selections it names the hosts from which it was built.
-/

namespace TarsCpp.ConsistentHash

open TransitionRun

/-- The hosts on a ring. -/
def TcConsistentHashNew.names (ring : TcConsistentHashNew) :
    List (List UInt8) :=
  ring.vHashList.map NodeTNew.sNode

theorem locate_mem {vHashList : List NodeTNew} {hashcode : UInt32}
    {item : NodeTNew} (located : locate vHashList hashcode = some item) :
    item ∈ vHashList := by
  unfold locate at located
  simp only [Option.bind_eq_bind, Option.bind_eq_some_iff] at located
  obtain ⟨first, isFirst, located⟩ := located
  have firstMember := List.mem_of_getElem? isFirst
  split at located
  · cases located
    exact firstMember
  · split at located
    · rw [Option.bind_none] at located
      cases located
    · obtain ⟨last, isLast, located⟩ := Option.bind_eq_some_iff.mp located
      split at located
      · cases located
        exact firstMember
      · obtain ⟨low, _, found⟩ := Option.bind_eq_some_iff.mp located
        exact List.mem_of_getElem? found

/-- What is found on a ring is a host on it. -/
theorem getNodeName_mem {ring : TcConsistentHashNew} {hashcode : UInt32}
    {answer : Int × List UInt8} (something : ring.vHashList ≠ [])
    (found : ring.getNodeName hashcode = some answer) :
    answer.2 ∈ ring.names := by
  unfold TcConsistentHashNew.getNodeName at found
  rw [if_neg something] at found
  obtain ⟨item, located, rfl⟩ := Option.map_eq_some_iff.mp found
  exact List.mem_map_of_mem (locate_mem located)

theorem names_addNode (md5bin : Digest) (ring : TcConsistentHashNew)
    (added : Node) {name : List UInt8}
    (member : name ∈ (ring.addNode md5bin added).names) :
    name ∈ ring.names ∨ name = added.node := by
  obtain ⟨item, among, rfl⟩ := List.mem_map.mp member
  rcases List.mem_append.mp among with old | new
  · exact .inl (List.mem_map_of_mem old)
  · exact .inr (mem_items new)

theorem names_sortNode (ring : TcConsistentHashNew) {name : List UInt8} :
    name ∈ ring.sortNode.names ↔ name ∈ ring.names :=
  ((List.perm_insertionSort _ _).map _).mem_iff

namespace EndpointManager

variable {md5bin : Digest} {m m' : EndpointManager} {way : Way}
variable {map : Adapters}

/-- Every host is that of its adapter. -/
def Hosts (m : EndpointManager) (map : Adapters) : Prop :=
  ∀ entry ∈ map.entries, entry.2 < m.fresh ∧
    (m.adapters entry.2).endpoint.host = entry.1

/-- No adapter moves to another endpoint. -/
structure SameEndpoints (m m' : EndpointManager) : Prop where
  fresh : m.fresh ≤ m'.fresh
  endpoint : ∀ id < m.fresh,
    (m'.adapters id).endpoint = (m.adapters id).endpoint

theorem SameEndpoints.hosts (same : SameEndpoints m m')
    (hosts : m.Hosts map) : m'.Hosts map := by
  intro entry among
  obtain ⟨known, host⟩ := hosts entry among
  refine ⟨Nat.lt_of_lt_of_le known same.fresh, ?_⟩
  rw [same.endpoint _ known, host]

theorem sameEndpoints_change {id : AdapterId} {adapter : AdapterProxy}
    (same : id < m.fresh → adapter.endpoint = (m.adapters id).endpoint) :
    SameEndpoints m (m.change id adapter) where
  fresh := Nat.le_refl _
  endpoint := by
    intro other known
    by_cases equal : other = id
    · subst equal
      rw [adapters_change, same known]
    · rw [adapters_change_ne equal]

theorem hosts_emplace {host : List UInt8} {id : AdapterId}
    (hosts : m.Hosts map) (known : id < m.fresh)
    (same : (m.adapters id).endpoint.host = host) :
    m.Hosts (map.emplace host id) := by
  intro entry among
  rcases OrderedMap.mem_entries_emplace among with rfl | old
  · exact ⟨known, same⟩
  · exact hosts entry old

theorem hosts_erase (hosts : m.Hosts map) (host : List UInt8) :
    m.Hosts (map.erase host) :=
  fun entry among => hosts entry (OrderedMap.mem_entries_erase.mp among).1

/-- What holds between any two steps. -/
structure Consistent (m : EndpointManager) : Prop where
  known : ∀ entry ∈ m.allProxys.entries, entry.2 < m.fresh
  index : m.Hosts m.indexActiveProxys
  sort : m.Hosts m.sortActivProxys
  subset : m.sortActivProxys.keys ⊆ m.indexActiveProxys.keys
  rings : ∀ way, (m.ring way).names ⊆ (m.lastProxys way).keys

/-- The ring names hosts that can be put out. -/
def Fits (way : Way) (m : EndpointManager) : Prop :=
  (m.ring way).names ⊆ m.sortActivProxys.keys

/-- Only flags of adapters differ. -/
structure Reflagged (m m' : EndpointManager) : Prop where
  rest : m' = { m with adapters := m'.adapters }
  endpoint : ∀ id, (m'.adapters id).endpoint = (m.adapters id).endpoint

theorem Reflagged.same (reflagged : Reflagged m m') : SameEndpoints m m' where
  fresh := by
    rw [reflagged.rest]
  endpoint := fun id _ => reflagged.endpoint id

theorem reflagged_refl (m : EndpointManager) : Reflagged m m where
  rest := rfl
  endpoint := fun _ => rfl

theorem Reflagged.trans {m'' : EndpointManager} (first : Reflagged m m')
    (second : Reflagged m' m'') : Reflagged m m'' where
  rest := by
    rw [second.rest, first.rest]
  endpoint := by
    intro id
    rw [second.endpoint, first.endpoint]

theorem reflagged_reset (m : EndpointManager) (id : AdapterId) :
    Reflagged m (m.change id (m.adapters id).resetWeightChanged) where
  rest := rfl
  endpoint := by
    intro other
    by_cases equal : other = id
    · subst equal
      rw [adapters_change]
      rfl
    · rw [adapters_change_ne equal]

theorem Consistent.reflagged (consistent : m.Consistent)
    (reflagged : Reflagged m m') : m'.Consistent := by
  have same := reflagged.same
  have index := same.hosts consistent.index
  have sort := same.hosts consistent.sort
  obtain ⟨rest, _⟩ := reflagged
  rw [rest] at index sort ⊢
  exact ⟨consistent.known, index, sort, consistent.subset, consistent.rings⟩

theorem names_addHost (md5bin : Digest) (bStatic : Bool)
    (conHash : TcConsistentHashNew) (adapter : AdapterProxy)
    {name : List UInt8}
    (member : name ∈ (addHost md5bin bStatic conHash adapter).names) :
    name ∈ conHash.names ∨ name = adapter.endpoint.host := by
  unfold addHost at member
  dsimp only at member
  generalize (if bStatic then adapter.staticWeight else 100) = iWeight
    at member
  split at member
  · exact names_addNode md5bin conHash _ member
  · exact .inl member

theorem foldl_addProxy (md5bin : Digest) (bStatic : Bool)
    (entries : List (List UInt8 × AdapterId)) (conHash : TcConsistentHashNew)
    (m : EndpointManager) :
    Reflagged m (entries.foldl (addProxy md5bin bStatic) (conHash, m)).2 ∧
      ∀ name ∈ (entries.foldl (addProxy md5bin bStatic) (conHash, m)).1.names,
        name ∈ conHash.names ∨
          ∃ entry ∈ entries, name = (m.adapters entry.2).endpoint.host := by
  induction entries generalizing conHash m with
  | nil => exact ⟨reflagged_refl m, fun name member => .inl member⟩
  | cons entry entries induction =>
      have here := reflagged_reset m entry.2
      obtain ⟨later, names⟩ := induction
        (addHost md5bin bStatic conHash (m.adapters entry.2))
        (m.change entry.2 (m.adapters entry.2).resetWeightChanged)
      rw [List.foldl_cons]
      refine ⟨here.trans later, ?_⟩
      intro name member
      rcases names name member with old | ⟨other, among, rfl⟩
      · rcases names_addHost _ _ _ _ old with older | rfl
        · exact .inl older
        · exact .inr ⟨entry, List.mem_cons_self, rfl⟩
      · right
        refine ⟨other, List.mem_cons_of_mem _ among, ?_⟩
        rw [here.endpoint]

/-- The ring and what it was built from are replaced, and flags are reset. -/
structure Rebuilt (way : Way) (m m' : EndpointManager) : Prop where
  allProxys : m'.allProxys = m.allProxys
  vRegProxys : m'.vRegProxys = m.vRegProxys
  index : m'.indexActiveProxys = m.indexActiveProxys
  sort : m'.sortActivProxys = m.sortActivProxys
  same : SameEndpoints m m'
  fresh : m'.fresh = m.fresh
  fits : Fits way m'
  rings : ∀ other, (m'.ring other).names ⊆ (m'.lastProxys other).keys ∨
    m'.ring other = m.ring other ∧ m'.lastProxys other = m.lastProxys other

@[simp] theorem ring_setRing (way : Way) (conHash : TcConsistentHashNew)
    (m : EndpointManager) : (m.setRing way conHash).ring way = conHash := by
  cases way <;> rfl

@[simp] theorem lastProxys_setRing (way other : Way)
    (conHash : TcConsistentHashNew) (m : EndpointManager) :
    (m.setRing way conHash).lastProxys other = m.lastProxys other := by
  cases way <;> rfl

/-- The ring of both kinds of weights is one; that of the other way is left
alone. -/
theorem shared_or_apart (way other : Way) :
    (∀ m : EndpointManager, m.ring other = m.ring way ∧
      m.lastProxys other = m.lastProxys way) ∨
    ∀ (m : EndpointManager) conHash proxys,
      (m.setRing way conHash).ring other = m.ring other ∧
        (m.setLastProxys way proxys).lastProxys other =
          m.lastProxys other := by
  cases way <;> cases other
  · exact .inl fun _ => ⟨rfl, rfl⟩
  · exact .inr fun _ _ _ => ⟨rfl, rfl⟩
  · exact .inr fun _ _ _ => ⟨rfl, rfl⟩
  · exact .inl fun _ => ⟨rfl, rfl⟩

theorem updateConHashProxyWeighted_rebuilt (md5bin : Digest) (way : Way)
    (sort : m.Hosts m.sortActivProxys) :
    Rebuilt way m (m.updateConHashProxyWeighted md5bin way) := by
  unfold updateConHashProxyWeighted
  by_cases nothing : m.sortActivProxys.entries = []
  · rw [if_pos nothing]
    refine ⟨?_, ?_, ?_, ?_, ?_, ?_, ?_, ?_⟩
    · cases way <;> rfl
    · cases way <;> rfl
    · cases way <;> rfl
    · cases way <;> rfl
    · cases way <;> exact ⟨Nat.le_refl _, fun _ _ => rfl⟩
    · cases way <;> rfl
    · rw [Fits, ring_setRing]
      exact List.nil_subset _
    · intro other
      rcases shared_or_apart way other with shared | apart
      · rw [(shared _).1, ring_setRing]
        exact .inl (List.nil_subset _)
      · have kept := apart m { m.ring way with vHashList := [] } .empty
        exact .inr ⟨kept.1, lastProxys_setRing _ _ _ _⟩
  · rw [if_neg nothing]
    dsimp only
    have noted : (m.setLastProxys way m.sortActivProxys).sortActivProxys =
        m.sortActivProxys := by
      cases way <;> rfl
    rw [noted]
    obtain ⟨reflagged, names⟩ := foldl_addProxy md5bin way.bStatic
      m.sortActivProxys.entries { m.ring way with vHashList := [] }
      (m.setLastProxys way m.sortActivProxys)
    generalize m.sortActivProxys.entries.foldl (addProxy md5bin way.bStatic)
      ({ m.ring way with vHashList := [] },
        m.setLastProxys way m.sortActivProxys) = folded at reflagged names
    obtain ⟨conHash, built⟩ := folded
    dsimp only at reflagged names ⊢
    have hosts : ∀ name ∈ conHash.sortNode.names,
        name ∈ m.sortActivProxys.keys := by
      intro name member
      rcases names name ((names_sortNode _).mp member) with
        old | ⟨entry, among, rfl⟩
      · cases old
      · have host := (sort entry among).2
        have kept : (m.setLastProxys way m.sortActivProxys).adapters =
            m.adapters := by
          cases way <;> rfl
        rw [kept, host]
        exact List.mem_map_of_mem among
    have last : built.lastProxys way = m.sortActivProxys := by
      rw [reflagged.rest]
      cases way <;> rfl
    have sorts : (built.setRing way conHash.sortNode).sortActivProxys =
        m.sortActivProxys := by
      rw [reflagged.rest]
      cases way <;> rfl
    refine ⟨?_, ?_, ?_, sorts, ⟨?_, ?_⟩, ?_, ?_, ?_⟩
    · rw [reflagged.rest]
      cases way <;> rfl
    · rw [reflagged.rest]
      cases way <;> rfl
    · rw [reflagged.rest]
      cases way <;> rfl
    · rw [reflagged.rest]
      cases way <;> exact Nat.le_refl _
    · intro id _
      have endpoint := reflagged.endpoint id
      cases way <;> exact endpoint
    · rw [reflagged.rest]
      cases way <;> rfl
    · rw [Fits, ring_setRing, sorts]
      exact hosts
    · intro other
      rcases shared_or_apart way other with shared | apart
      · left
        rw [(shared _).1, (shared _).2, ring_setRing, lastProxys_setRing, last]
        exact hosts
      · right
        obtain ⟨ring, _⟩ := apart built conHash.sortNode .empty
        obtain ⟨_, proxys⟩ := apart m conHash m.sortActivProxys
        rw [ring, lastProxys_setRing, ← proxys, reflagged.rest]
        refine ⟨?_, ?_⟩
        · cases way <;> cases other <;> rfl
        · cases other <;> rfl

theorem Rebuilt.consistent (rebuilt : Rebuilt way m m')
    (consistent : m.Consistent) : m'.Consistent where
  known := by
    rw [rebuilt.allProxys, rebuilt.fresh]
    exact consistent.known
  index := by
    rw [rebuilt.index]
    exact rebuilt.same.hosts consistent.index
  sort := by
    rw [rebuilt.sort]
    exact rebuilt.same.hosts consistent.sort
  subset := by
    rw [rebuilt.sort, rebuilt.index]
    exact consistent.subset
  rings := by
    intro other
    rcases rebuilt.rings other with within | ⟨ring, last⟩
    · exact within
    · rw [ring, last]
      exact consistent.rings other

theorem comparesDifferent_reflagged (bStatic : Bool)
    (lasts sorts : List (List UInt8 × AdapterId)) (m : EndpointManager) :
    Reflagged m (comparesDifferent bStatic lasts sorts m).2 := by
  fun_induction comparesDifferent bStatic lasts sorts m with
  | case1 last lasts sort sorts m different => exact reflagged_refl m
  | case2 last lasts sort sorts m equal changed =>
      exact reflagged_reset m sort.2
  | case3 last lasts sort sorts m equal unchanged induction =>
      exact induction
  | case4 => exact reflagged_refl _

/-- Without a difference both maps have the same hosts. -/
theorem keys_of_comparesDifferent {bStatic : Bool}
    {lasts sorts : List (List UInt8 × AdapterId)}
    (length : lasts.length = sorts.length)
    (same : (comparesDifferent bStatic lasts sorts m).1 = false) :
    lasts.map Prod.fst = sorts.map Prod.fst := by
  induction lasts generalizing sorts with
  | nil =>
      cases sorts with
      | nil => rfl
      | cons sort sorts => cases length
  | cons last lasts induction =>
      cases sorts with
      | nil => cases length
      | cons sort sorts =>
          rw [comparesDifferent] at same
          split at same
          · cases same
          · next equal =>
              split at same
              · cases same
              · have heads := not_not.mp equal
                have tails := induction (Nat.succ.inj length) same
                rw [List.map_cons, List.map_cons, heads, tails]

theorem foldl_assign (entries : List (List UInt8 × AdapterId))
    (sort : Adapters) {entry : List UInt8 × AdapterId}
    (among : entry ∈ (entries.foldl
      (fun sort entry => sort.assign entry.1 entry.2) sort).entries) :
    entry ∈ entries ∨ entry ∈ sort.entries := by
  induction entries generalizing sort with
  | nil => exact .inr among
  | cons first entries induction =>
      rcases induction _ among with later | here
      · exact .inl (List.mem_cons_of_mem _ later)
      · rcases OrderedMap.mem_entries_assign here with rfl | old
        · exact .inl List.mem_cons_self
        · exact .inr old

theorem restore_consistent (consistent : m.Consistent) :
    m.restore.Consistent := by
  unfold restore
  split
  · refine ⟨consistent.known, consistent.index, ?_, ?_, consistent.rings⟩
    · intro entry among
      rcases foldl_assign _ _ among with active | old
      · exact consistent.index entry active
      · exact consistent.sort entry old
    · intro host member
      obtain ⟨entry, among, rfl⟩ := List.mem_map.mp member
      rcases foldl_assign _ _ among with active | old
      · exact List.mem_map_of_mem active
      · exact consistent.subset (List.mem_map_of_mem old)
  · exact consistent

theorem checkConHashChange_consistent (consistent : m.Consistent)
    (way : Way) : (m.checkConHashChange way).2.Consistent := by
  have restored := restore_consistent consistent
  unfold checkConHashChange
  dsimp only
  split
  · exact restored
  · exact restored.reflagged (comparesDifferent_reflagged _ _ _ _)

/-- What is left as it is, is up to date. -/
theorem checkConHashChange_fits (consistent : m.Consistent)
    (unchanged : (m.checkConHashChange way).1 = false) :
    Fits way (m.checkConHashChange way).2 := by
  have restored := restore_consistent consistent
  unfold checkConHashChange at unchanged ⊢
  dsimp only at unchanged ⊢
  split at unchanged
  · cases unchanged
  · next length =>
      have keys := keys_of_comparesDifferent (not_not.mp length) unchanged
      have reflagged := comparesDifferent_reflagged way.bStatic
        (m.restore.lastProxys way).entries m.restore.sortActivProxys.entries
        m.restore
      have within := restored.rings way
      rw [OrderedMap.keys, keys] at within
      rw [if_neg length, Fits, reflagged.rest]
      cases way <;> exact within

theorem refresh_fits (md5bin : Digest) (way : Way)
    (consistent : m.Consistent) :
    (m.refresh md5bin way).Consistent ∧ Fits way (m.refresh md5bin way) := by
  have checked := checkConHashChange_consistent consistent way
  unfold refresh
  dsimp only
  split
  · have rebuilt := updateConHashProxyWeighted_rebuilt md5bin way checked.sort
    exact ⟨rebuilt.consistent checked, rebuilt.fits⟩
  · next unchanged =>
      rw [Bool.not_eq_true] at unchanged
      exact ⟨checked, checkConHashChange_fits consistent unchanged⟩

/-- What `addActive` and `addInactive` keep, while the hosts that are put into
both maps are the same. -/
structure Loading (m : EndpointManager) : Prop where
  known : ∀ entry ∈ m.allProxys.entries, entry.2 < m.fresh
  index : m.Hosts m.indexActiveProxys
  same : m.sortActivProxys = m.indexActiveProxys
  rings : ∀ way, (m.ring way).names ⊆ (m.lastProxys way).keys

theorem Loading.consistent (loading : m.Loading) : m.Consistent where
  known := loading.known
  index := loading.index
  sort := by
    rw [loading.same]
    exact loading.index
  subset := by
    rw [loading.same]
    exact List.Subset.refl _
  rings := loading.rings

theorem adapterOf_loading (loading : m.Loading) (endpoint : EndpointInfo) :
    (m.adapterOf endpoint).1 < (m.adapterOf endpoint).2.fresh ∧
      (m.adapterOf endpoint).2.Loading := by
  unfold adapterOf
  split
  · next id found =>
      exact ⟨loading.known _ (OrderedMap.mem_entries.mpr found), loading⟩
  · have same : SameEndpoints m (m.change m.fresh
        { m.adapters m.fresh with endpoint := endpoint }) :=
      sameEndpoints_change fun known => absurd known (Nat.lt_irrefl _)
    refine ⟨Nat.lt_succ_self _, ?_, ?_, loading.same, loading.rings⟩
    · intro entry among
      rcases OrderedMap.mem_entries_emplace among with rfl | old
      · exact Nat.lt_succ_self _
      · exact Nat.lt_succ_of_lt (loading.known entry old)
    · intro entry among
      obtain ⟨known, host⟩ := same.hosts loading.index entry among
      exact ⟨Nat.lt_succ_of_lt known, host⟩

theorem addActive_loading (loading : m.Loading) (endpoint : EndpointInfo) :
    (m.addActive endpoint).Loading := by
  unfold addActive
  split
  · exact loading
  · obtain ⟨known, loading'⟩ := adapterOf_loading loading endpoint
    generalize m.adapterOf endpoint = found at known loading'
    obtain ⟨id, m⟩ := found
    dsimp only at known loading' ⊢
    have same : SameEndpoints m
        (m.change id ((m.adapters id).setWeight endpoint.weight)) :=
      sameEndpoints_change fun _ => rfl
    refine ⟨loading'.known, ?_, ?_, loading'.rings⟩
    · have host : ((m.change id ((m.adapters id).setWeight
          endpoint.weight)).adapters id).endpoint.host =
          (m.adapters id).endpoint.host :=
        congrArg EndpointInfo.host (same.endpoint id known)
      exact hosts_emplace (same.hosts loading'.index) known host
    · dsimp only
      rw [loading'.same]

theorem addInactive_loading (loading : m.Loading) (endpoint : EndpointInfo) :
    (m.addInactive endpoint).Loading := by
  unfold addInactive
  split
  · exact loading
  · obtain ⟨known, loading'⟩ := adapterOf_loading loading endpoint
    generalize m.adapterOf endpoint = found at known loading'
    obtain ⟨id, m⟩ := found
    have same : SameEndpoints m
        (m.change id ((m.adapters id).setWeight endpoint.weight)) :=
      sameEndpoints_change fun _ => rfl
    exact ⟨loading'.known, same.hosts loading'.index, loading'.same,
      loading'.rings⟩

theorem updateEndpoints_consistent (consistent : m.Consistent)
    (active inactive : List EndpointInfo) :
    (m.updateEndpoints active inactive).Consistent := by
  have started : ({ m with
      activeProxys := []
      regProxys := .empty
      indexActiveProxys := .empty
      sortActivProxys := .empty } : EndpointManager).Loading := by
    refine ⟨consistent.known, ?_, rfl, consistent.rings⟩
    intro entry among
    cases among
  have actives := List.foldlRecOn active addActive started
    fun m loading endpoint _ => addActive_loading loading endpoint
  have all := List.foldlRecOn inactive addInactive actives
    fun m loading endpoint _ => addInactive_loading loading endpoint
  have consistent' := all.consistent
  exact ⟨consistent'.known, consistent'.index, consistent'.sort,
    consistent'.subset, consistent'.rings⟩

/-- What a round does that looks inside the ring. -/
structure Advanced (way : Way) (m : EndpointManager)
    (after : Progress × EndpointManager) : Prop where
  consistent : after.2.Consistent
  fits : Fits way after.2
  fewer : after.1 = .again → after.2.sortActivProxys.entries.length <
    m.sortActivProxys.entries.length

theorem dismiss_advanced (md5bin : Digest) (consistent : m.Consistent)
    {sNode : List UInt8} (present : sNode ∈ m.sortActivProxys.keys)
    (outcome : Outcome) :
    (m.dismiss md5bin way sNode outcome).Consistent ∧
      Fits way (m.dismiss md5bin way sNode outcome) ∧
      (m.dismiss md5bin way sNode outcome).sortActivProxys.entries.length <
        m.sortActivProxys.entries.length := by
  have fewer := OrderedMap.length_erase_lt present
  unfold dismiss
  split
  · have left : ({ m with
        sortActivProxys := m.sortActivProxys.erase sNode } :
        EndpointManager).Consistent := by
      refine ⟨consistent.known, consistent.index,
        hosts_erase consistent.sort sNode, ?_, consistent.rings⟩
      intro host member
      exact consistent.subset (OrderedMap.mem_keys_erase.mp member).1
    have rebuilt := updateConHashProxyWeighted_rebuilt md5bin way left.sort
    refine ⟨rebuilt.consistent left, rebuilt.fits, ?_⟩
    rw [rebuilt.sort]
    exact fewer
  · have left : ({ m with
        indexActiveProxys := m.indexActiveProxys.erase sNode
        sortActivProxys := m.sortActivProxys.erase sNode } :
        EndpointManager).Consistent := by
      refine ⟨consistent.known, hosts_erase consistent.index sNode,
        hosts_erase consistent.sort sNode, ?_, consistent.rings⟩
      intro host member
      obtain ⟨kept, other⟩ := OrderedMap.mem_keys_erase.mp member
      exact OrderedMap.mem_keys_erase.mpr ⟨consistent.subset kept, other⟩
    have rebuilt := updateConHashProxyWeighted_rebuilt md5bin way left.sort
    refine ⟨rebuilt.consistent left, rebuilt.fits, ?_⟩
    rw [rebuilt.sort]
    exact fewer

theorem round_advanced (md5bin : Digest) {hashCode : UInt32}
    (consistent : m.Consistent) (fits : Fits way m)
    (something : (m.ring way).vHashList ≠ [])
    (inside : ((m.ring way).getNodeName hashCode).isSome)
    (outcome : Outcome) :
    Advanced way m (m.round md5bin way hashCode outcome) := by
  obtain ⟨answer, found⟩ := Option.isSome_iff_exists.mp inside
  have name : m.nodeName way hashCode outcome = answer.2 := by
    rw [nodeName, found]
  have present := fits (getNodeName_mem something found)
  obtain ⟨id, active⟩ := OrderedMap.mem_keys.mp (consistent.subset present)
  obtain ⟨left, fits', fewer⟩ :=
    @dismiss_advanced m way md5bin consistent _ present outcome
  unfold round
  dsimp only
  rw [name, active]
  dsimp only
  split
  · exact ⟨consistent, fits, fun again => by cases again⟩
  · split
    · exact ⟨left, fits', fun again => by cases again⟩
    · exact ⟨left, fits', fun _ => fewer⟩

end EndpointManager

end TarsCpp.ConsistentHash
