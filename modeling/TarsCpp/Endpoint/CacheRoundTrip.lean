import TarsCpp.Endpoint.Separation

/-!
# The cached list comes back

`setEndpoints` on the text of `setEndPointToCache` yields the set that was
written if and only if every endpoint is one that its text keeps, and the last
one has no IPv6 address.
-/

namespace TarsCpp.Endpoint

open CString

/-- The elements of a `set<EndpointInfo>`, in its order. -/
def Ordered (infos : List EndpointInfo) : Prop :=
  infos.Pairwise fun info info' => info.cmpDesc < info'.cmpDesc

theorem mem_insert {info other : EndpointInfo} {infos : List EndpointInfo}
    (member : other ∈ insert info infos) : other = info ∨ other ∈ infos := by
  induction infos with
  | nil => exact Or.inl (List.mem_singleton.mp member)
  | cons first infos ih =>
      rw [insert] at member
      split at member
      · exact List.mem_cons.mp member
      · split at member
        · rcases List.mem_cons.mp member with rfl | member
          · exact Or.inr List.mem_cons_self
          · exact (ih member).imp_right (List.mem_cons_of_mem _)
        · exact Or.inr member

def insertAll (set infos : List EndpointInfo) : List EndpointInfo :=
  infos.foldl (fun set info => insert info set) set

theorem mem_insertAll {other : EndpointInfo} {set infos : List EndpointInfo}
    (member : other ∈ insertAll set infos) : other ∈ set ∨ other ∈ infos := by
  induction infos generalizing set with
  | nil => exact Or.inl member
  | cons info infos ih =>
      rcases ih member with member | member
      · rcases mem_insert member with rfl | member
        · exact Or.inr List.mem_cons_self
        · exact Or.inl member
      · exact Or.inr (List.mem_cons_of_mem _ member)

theorem insert_last {info : EndpointInfo} {infos : List EndpointInfo}
    (greater : ∀ other ∈ infos, other.cmpDesc < info.cmpDesc) :
    insert info infos = infos ++ [info] := by
  induction infos with
  | nil => rfl
  | cons first infos ih =>
      have less := greater first List.mem_cons_self
      rw [insert, if_neg (List.lt_asymm less), if_pos less,
        ih fun other member => greater other (List.mem_cons_of_mem _ member)]
      rfl

theorem insertAll_ordered {set infos : List EndpointInfo}
    (ordered : Ordered (set ++ infos)) : insertAll set infos = set ++ infos := by
  induction infos generalizing set with
  | nil => rw [List.append_nil]; rfl
  | cons info infos ih =>
      have greater : ∀ other ∈ set, other.cmpDesc < info.cmpDesc :=
        fun other member => (List.pairwise_append.mp ordered).2.2 other member
          info List.mem_cons_self
      have split : set ++ info :: infos = set ++ [info] ++ infos := by simp
      have next : insertAll (set ++ [info]) infos = set ++ [info] ++ infos :=
        ih (split ▸ ordered)
      rw [insertAll, List.foldl_cons, insert_last greater, split]
      exact next

theorem readBack_cmpDesc (info : EndpointInfo) :
    EndpointInfo.cmpDesc { info with ep := info.ep.readBack } =
      info.cmpDesc := by
  have same : info.ep.readBack.type = info.ep.type ∧
      info.ep.readBack.host = info.ep.host ∧
      info.ep.readBack.port = info.ep.port := by
    by_cases unused : info.ep.weighttype = 0
    · rw [readBack_unused unused]
      exact ⟨rfl, rfl, rfl⟩
    · rw [readBack_used unused]
      exact ⟨rfl, rfl, rfl⟩
  rw [EndpointInfo.cmpDesc, EndpointInfo.cmpDesc]
  simp only [same]

theorem Ordered.distinct {infos : List EndpointInfo} (ordered : Ordered infos) :
    (infos.map EndpointInfo.cmpDesc).Nodup := by
  refine List.pairwise_map.mpr (List.Pairwise.imp ?_ ordered)
  intro info info' less same
  rw [same] at less
  exact List.lt_irrefl _ less

theorem Ordered.injective {infos : List EndpointInfo} (ordered : Ordered infos)
    {info info' : EndpointInfo} (member : info ∈ infos)
    (member' : info' ∈ infos) (same : info.cmpDesc = info'.cmpDesc) :
    info = info' :=
  List.inj_on_of_nodup_map ordered.distinct member member' same

section Lists

variable {infos : List EndpointInfo}

/-- What is read from the text of an element is kept if it is an element. -/
theorem kept_of_read (ordered : Ordered infos)
    (wellFormed : ∀ info ∈ infos, info.WellFormed)
    {info other : EndpointInfo} (member : info ∈ infos)
    (member' : other ∈ infos) (read : readInfo false other.text = some info) :
    other = info ∧ info.ep.Kept := by
  have good := wellFormed other member'
  by_cases unsigned : other.ep.Unsigned
  · rw [readInfo_text good unsigned] at read
    have back := Option.some.inj read
    have desc := readBack_cmpDesc other
    rw [back] at desc
    obtain rfl := ordered.injective member' member desc.symm
    refine ⟨rfl, (readBack_eq_iff good.ep unsigned).mp ?_⟩
    exact congrArg EndpointInfo.ep back
  · rw [readInfo_text_signed good unsigned] at read
    exact nomatch read

theorem cacheText_ne_nil (some_ : infos ≠ []) : cacheText infos ≠ [] := by
  obtain ⟨info, infos, rfl⟩ := List.exists_cons_of_ne_nil some_
  obtain ⟨c, tail, text, -⟩ := text_cons info
  rw [cacheText_cons, text]
  exact List.cons_ne_nil _ _

theorem setEndpoints_iff (some_ : infos ≠ []) (ordered : Ordered infos)
    (wellFormed : ∀ info ∈ infos, info.WellFormed) (weightType : WeightType) :
    (setEndpoints false (cacheText infos) [] weightType).1 = infos ↔
      (∀ info ∈ infos, info.ep.Kept) ∧
        IsName (infos.getLast some_).ep.host := by
  obtain ⟨ep, last, cut⟩ := sepEndpoint_cacheText some_ wellFormed
  have result : (setEndpoints false (cacheText infos) [] weightType).1 =
      insertAll [] ((infos.dropLast.map EndpointInfo.text ++ [ep]).filterMap
        (readInfo false)) := by
    rw [setEndpoints, if_neg (cacheText_ne_nil some_), cut]
    rfl
  have ending := List.dropLast_append_getLast some_
  rw [result]
  constructor
  · intro same
    have listed : ∀ info ∈ infos, ∃ text ∈ infos.dropLast.map
        EndpointInfo.text ++ [ep], readInfo false text = some info := by
      intro info member
      rw [← same] at member
      exact List.mem_filterMap.mp
        ((mem_insertAll member).resolve_left List.not_mem_nil)
    have inInit : ∀ {text}, text ∈ infos.dropLast.map EndpointInfo.text →
        ∃ other ∈ infos, other ∈ infos.dropLast ∧ text = other.text := by
      intro text member
      obtain ⟨other, inside, rfl⟩ := List.mem_map.mp member
      exact ⟨other, List.mem_of_mem_dropLast inside, inside, rfl⟩
    have name : IsName (infos.getLast some_).ep.host := by
      rcases last with ⟨name, -⟩ | ⟨address, j, inside, rfl⟩
      · exact name
      · -- the last element is read from no piece
        exfalso
        obtain ⟨text, piece, read⟩ := listed _ (List.getLast_mem some_)
        rcases List.mem_append.mp piece with piece | piece
        · obtain ⟨other, member, before, rfl⟩ := inInit piece
          obtain ⟨rfl, -⟩ := kept_of_read ordered wellFormed
            (List.getLast_mem some_) member read
          have distinct : infos.Nodup := List.Nodup.of_map _ ordered.distinct
          rw [← ending] at distinct
          exact List.disjoint_of_nodup_append distinct before
            (List.mem_singleton_self _)
        · rw [List.mem_singleton.mp piece] at read
          exact readInfo_take address inside read rfl
    refine ⟨fun info member => ?_, name⟩
    obtain ⟨text, piece, read⟩ := listed info member
    rcases List.mem_append.mp piece with piece | piece
    · obtain ⟨other, member', -, rfl⟩ := inInit piece
      exact (kept_of_read ordered wellFormed member member' read).2
    · rw [List.mem_singleton.mp piece] at read
      rcases last with ⟨-, rfl⟩ | ⟨address, -⟩
      · exact (kept_of_read ordered wellFormed member
          (List.getLast_mem some_) read).2
      · exact absurd address name.not_address
  · rintro ⟨kept, name⟩
    have whole : infos.dropLast.map EndpointInfo.text ++ [ep] =
        infos.map EndpointInfo.text := by
      rw [← cut]
      exact (sepEndpoint_iff some_ wellFormed).mpr name
    have reads : ∀ info ∈ infos, readInfo false info.text = some info := by
      intro info member
      have unsigned := (kept info member).unsigned
      have good := wellFormed info member
      rw [readInfo_text good unsigned,
        (readBack_eq_iff good.ep unsigned).mpr (kept info member)]
    have back : (infos.map EndpointInfo.text).filterMap (readInfo false) =
        infos := by
      rw [List.filterMap_map]
      conv => rhs; rw [← List.filterMap_some (l := infos)]
      exact List.filterMap_congr reads
    rw [whole, back]
    exact insertAll_ordered ordered

/-- The set is read back, the list is cut at its separators, and each endpoint
comes back from its text, if and only if the conditions hold. -/
theorem cached_iff (some_ : infos ≠ []) (ordered : Ordered infos)
    (wellFormed : ∀ info ∈ infos, info.WellFormed) (weightType : WeightType) :
    ((setEndpoints false (cacheText infos) [] weightType).1 = infos ↔
      (∀ info ∈ infos, info.ep.Kept) ∧
        IsName (infos.getLast some_).ep.host) ∧
    (sepEndpoint (cacheText infos) = infos.map EndpointInfo.text ↔
      IsName (infos.getLast some_).ep.host) ∧
    ∀ info ∈ infos,
      (TC_Endpoint.ofDesc info.ep.toString = .ok info.ep ↔ info.ep.Kept) := by
  refine ⟨setEndpoints_iff some_ ordered wellFormed weightType,
    sepEndpoint_iff some_ wellFormed, fun info member => ?_⟩
  have bare : EndpointInfo.WellFormed { info with setDivision := [] } :=
    ⟨(wellFormed info member).ep, by simp, by simp⟩
  have text : EndpointInfo.text { info with setDivision := [] } =
      info.ep.toString := by
    rw [EndpointInfo.text, if_pos rfl, List.append_nil]
  rw [← text]
  exact ofDesc_text_iff bare

end Lists

/-- An address and a name: the address stands first. -/
def sampleInfos : List EndpointInfo :=
  [{ ep := { host := ascii "fe80::1", port := 80, type := .UDP,
             isIPv6 := true }
     setDivision := ascii "app.sz.1" },
   { ep := { host := ascii "tars.test", port := 17890, type := .TCP,
             weight := 40, weighttype := 1 }
     setDivision := [] }]

theorem cached_sample :
    (setEndpoints false (cacheText sampleInfos) [] .E_LOOP).1 = sampleInfos ∧
      sepEndpoint (cacheText sampleInfos) =
        sampleInfos.map EndpointInfo.text ∧
      ∀ info ∈ sampleInfos,
        TC_Endpoint.ofDesc info.ep.toString = .ok info.ep := by
  have some_ : sampleInfos ≠ [] := List.cons_ne_nil _ _
  have ordered : Ordered sampleInfos := by
    have zero : decimal 0 = [48] := by rw [decimal]; rfl
    have one : decimal 1 = [49] := by rw [decimal]; rfl
    simp [Ordered, sampleInfos, EndpointInfo.cmpDesc, EType.code, zero, one,
      List.cons_lt_cons_iff]
  have name : IsName (ascii "tars.test") :=
    ⟨by decide, forall_mem_of_all (by decide), by decide, by decide⟩
  have letters : ∀ c ∈ ascii "fe80::1", isHex c ∨ c = 58 ∨ c = 46 :=
    forall_mem_of_all (by decide)
  have division : ∀ c ∈ ascii "app.sz.1", isBlank c = false ∧ c ≠ 58 :=
    forall_mem_of_all (by decide)
  have wellFormed : ∀ info ∈ sampleInfos, info.WellFormed := by
    simp only [sampleInfos, List.forall_mem_cons, List.not_mem_nil,
      false_implies, implies_true, and_true]
    exact ⟨⟨⟨Or.inr ⟨by decide, letters⟩, by decide, by decide⟩,
      ⟨division, by decide⟩⟩, ⟨⟨Or.inl name, by decide, by decide⟩,
      ⟨by simp, by decide⟩⟩⟩
  have kept : ∀ info ∈ sampleInfos, info.ep.Kept := by
    simp only [sampleInfos, List.forall_mem_cons, List.not_mem_nil,
      false_implies, implies_true, and_true]
    exact ⟨⟨by decide, by decide, by decide, Or.inl rfl⟩,
      ⟨by decide, by decide, by decide, by decide, by decide⟩⟩
  obtain ⟨set, cut, each⟩ := cached_iff some_ ordered wellFormed .E_LOOP
  exact ⟨set.mpr ⟨kept, name⟩, cut.mpr name,
    fun info member => (each info member).mpr (kept info member)⟩

/-- A list that ends with an address is read back without it. -/
theorem cached_address :
    (setEndpoints false (cacheText [{
        ep := { host := ascii "::1", port := 80, type := .TCP, isIPv6 := true }
        setDivision := [] }]) [] .E_LOOP).1 ≠ [{
        ep := { host := ascii "::1", port := 80, type := .TCP, isIPv6 := true }
        setDivision := [] }] := by
  intro same
  have wellFormed : ∀ info ∈ [({
      ep := { host := ascii "::1", port := 80, type := .TCP, isIPv6 := true }
      setDivision := [] } : EndpointInfo)], info.WellFormed := by
    simp only [List.forall_mem_cons, List.not_mem_nil, false_implies,
      implies_true, and_true]
    exact ⟨⟨Or.inr ⟨by decide, forall_mem_of_all (by decide)⟩, by decide,
      by decide⟩, ⟨by simp, by decide⟩⟩
  have name := ((setEndpoints_iff (List.cons_ne_nil _ _)
    (List.pairwise_singleton _ _) wellFormed .E_LOOP).mp same).2
  exact absurd (name.solid 58 (by decide)).2 (by decide)

end TarsCpp.Endpoint
