import TarsCpp.Servant.RoutingShares

/-!
# The two routing tables

Both tables are exact as long as no current weight leaves the range of an
`int`.  When the shares add up to 2^32 the chosen proxy pays nothing, because
the key is cut to an `int`, and all current weights grow until one of them has
no room any more.
-/

namespace TarsCpp.Servant.EndpointManager

variable {weights : List ℤ} {most least : ℤ}

theorem zipIdx_map_fst (weights : List ℤ) :
    weights.zipIdx.map Prod.fst = weights := by
  simp

theorem zipIdx_nodup (weights : List ℤ) :
    (weights.zipIdx.map Prod.snd).Nodup := by
  simpa using List.nodup_range'

theorem mem_positive {weight : ℤ} :
    weight ∈ (weights.zipIdx.filter fun proxy => proxy.1 > 0).map Prod.fst ↔
      weight ∈ weights ∧ 0 < weight := by
  constructor
  · intro member
    obtain ⟨proxy, kept, rfl⟩ := List.mem_map.mp member
    obtain ⟨present, positive⟩ := List.mem_filter.mp kept
    refine ⟨?_, of_decide_eq_true positive⟩
    rw [← zipIdx_map_fst weights]
    exact List.mem_map_of_mem present
  · intro member
    obtain ⟨present, positive⟩ := member
    rw [← zipIdx_map_fst weights] at present
    obtain ⟨proxy, member, rfl⟩ := List.mem_map.mp present
    exact List.mem_map_of_mem
      (List.mem_filter.mpr ⟨member, decide_eq_true positive⟩)

/-- The table of the proxies with positive weight. -/
theorem build_positive {first : ℤ × ℕ} {rest : List (ℤ × ℕ)}
    (ints : ∀ weight ∈ weights, weight < 2 ^ 31)
    (greatest : IsGreatest {weight | weight ∈ weights ∧ 0 < weight} most)
    (smallest : IsLeast {weight | weight ∈ weights ∧ 0 < weight} least)
    (same : weights.zipIdx.filter (fun proxy => proxy.1 > 0) = first :: rest)
    (fits : Fits (share most least) (first :: rest)) :
    ∃ table, build true [] first rest = .ok table ∧
      Exact (share most least) (first :: rest) table := by
  have weights_ : ∀ weight, weight ∈ (first :: rest).map Prod.fst ↔
      weight ∈ weights ∧ 0 < weight := by
    intro weight
    rw [← same]
    exact mem_positive
  refine build_exact ?_ ?_ ?_ ?_ fits
  · rw [← same]
    exact (zipIdx_nodup weights).sublist (List.filter_sublist.map _)
  · intro weight member
    obtain ⟨present, positive⟩ := (weights_ weight).mp member
    exact ⟨positive, ints weight present⟩
  · simpa only [weights_] using greatest
  · simpa only [weights_] using smallest

theorem positive_ne_nil
    (greatest : IsGreatest {weight | weight ∈ weights ∧ 0 < weight} most) :
    weights.zipIdx.filter (fun proxy => proxy.1 > 0) ≠ [] := by
  obtain ⟨proxy, member, _⟩ := List.mem_map.mp (mem_positive.mpr greatest.1)
  exact List.ne_nil_of_mem member

theorem reserve_ok {total : ℤ} (nonneg : 0 ≤ total)
    (room : total + 100 < 2 ^ 60) :
    reserve (sizeT total + 100) = .ok () := by
  refine if_neg ?_
  unfold sizeT maxSize
  rw [Int.emod_eq_of_lt nonneg (by omega)]
  omega

theorem dispatchEndpointCache_exact (manager : Manager)
    (ints : ∀ weight ∈ weights, weight < 2 ^ 31)
    (greatest : IsGreatest {weight | weight ∈ weights ∧ 0 < weight} most)
    (smallest : IsLeast {weight | weight ∈ weights ∧ 0 < weight} least)
    (fits : Fits (share most least)
      (weights.zipIdx.filter fun proxy => proxy.1 > 0))
    (positive : ∀ weight ∈ weights, 0 < weight)
    (room : weights.sum + 100 < 2 ^ 60) :
    ∃ next, manager.dispatchEndpointCache weights = .ok next ∧
      Exact (share most least) weights.zipIdx next.staticRouterCache := by
  have all : weights.zipIdx.filter (fun proxy => proxy.1 > 0) =
      weights.zipIdx := by
    refine List.filter_eq_self.mpr fun proxy member => decide_eq_true ?_
    apply positive
    rw [← zipIdx_map_fst weights]
    exact List.mem_map_of_mem member
  have some_ := positive_ne_nil greatest
  obtain ⟨first, rest, same⟩ := List.exists_cons_of_ne_nil some_
  rw [same] at fits
  obtain ⟨table, built, exact_⟩ :=
    build_positive ints greatest smallest same fits
  rw [all] at same
  refine ⟨{ manager with
    staticRouterCache := table
    lastSWeightPosition := 0 }, ?_, same ▸ exact_⟩
  have reserve := reserve_ok
    (List.sum_nonneg fun weight member => (positive weight member).le) room
  simp only [Manager.dispatchEndpointCache, same, reserve, built]

theorem updateHashProxyWeighted_exact (manager : Manager)
    (ints : ∀ weight ∈ weights, weight < 2 ^ 31)
    (greatest : IsGreatest {weight | weight ∈ weights ∧ 0 < weight} most)
    (smallest : IsLeast {weight | weight ∈ weights ∧ 0 < weight} least)
    (fits : Fits (share most least)
      (weights.zipIdx.filter fun proxy => proxy.1 > 0))
    (registered : manager.regWeights = weights) :
    ∃ next, manager.updateHashProxyWeighted true = .ok next ∧
      Exact (share most least)
        (weights.zipIdx.filter fun proxy => proxy.1 > 0)
        next.hashStaticRouterCache := by
  subst registered
  obtain ⟨first, rest, same⟩ :=
    List.exists_cons_of_ne_nil (positive_ne_nil greatest)
  rw [same] at fits ⊢
  obtain ⟨table, built, exact_⟩ :=
    build_positive ints greatest smallest same fits
  have some_ : manager.vRegProxys ≠ [] := by
    intro none_
    have empty : manager.regWeights = [] := by
      rw [Manager.regWeights, none_]
      rfl
    have member := greatest.1.1
    rw [empty] at member
    cases member
  refine ⟨{ (manager.renewStatic true).resetWeightChanged with
    hashStaticRouterCache := table }, ?_, exact_⟩
  have cleared : ((manager.renewStatic true).resetWeightChanged
      ).hashStaticRouterCache = [] := rfl
  rw [Manager.updateHashProxyWeighted, if_neg some_, same]
  dsimp only
  rw [cleared, built]
  rfl

theorem toInt_sub {value : ℤ} (least : -2 ^ 31 ≤ value)
    (greatest : value < 2 ^ 31) :
    toInt (sizeT (value - 2 ^ 32)) = value := by
  unfold toInt sizeT
  rw [Int.toNat_of_nonneg (Int.emod_nonneg _ (by omega)), Int.bmod_def]
  split <;> omega

/-- Nobody pays when the shares add up to 2^32, so that two of the greatest
shares cannot both grow for ever. -/
theorem turns_overflow (push : Bool) {ids : List ℕ} {weightOf : ℕ → ℤ}
    (nodup : ids.Nodup)
    (pair : ∃ first ∈ ids, ∃ second ∈ ids, first ≠ second ∧
      weightOf first = 100 ∧ weightOf second = 100)
    (range : ∀ id ∈ ids, 0 ≤ weightOf id ∧ weightOf id ≤ 100)
    (count round : ℕ) (building : Building)
    (weights : building.weightOf = weightOf)
    (full : building.iMaxRouterR = 2 ^ 32)
    (keyed : Keyed ids weightOf (fun id => round * weightOf id)
      building.mWeightToId)
    (small : (round + 1) * 100 < 2 ^ 31)
    (enough : 2 ^ 31 ≤ (round + 1 + count) * 100) :
    turns push count building = .error .signedOverflow := by
  induction count generalizing round building with
  | zero => omega
  | succ count ih =>
      subst weights
      cases last : building.mWeightToId.reverse with
      | nil =>
          obtain ⟨id, member, _⟩ := pair
          have none_ := keyed.perm.length_eq
          rw [List.reverse_eq_nil_iff.mp last, List.length_map] at none_
          rw [List.length_eq_zero_iff.mp none_.symm] at member
          cases member
      | cons entry rest =>
          obtain ⟨first, second⟩ := entry
          have chosen := keyed.chosen nodup last
          by_cases room : (round + 2) * 100 < 2 ^ 31
          · have grown : ∀ id ∈ ids, 0 ≤ ((round + 1 : ℕ) : ℤ) *
                building.weightOf id + building.weightOf id ∧
                ((round + 1 : ℕ) : ℤ) * building.weightOf id +
                  building.weightOf id < 2 ^ 31 := by
              intro id member
              obtain ⟨nonneg, atMost⟩ := range id member
              have product : ((round + 2 : ℕ) : ℤ) * building.weightOf id ≤
                  (round + 2 : ℕ) * 100 :=
                mul_le_mul_of_nonneg_left atMost (Nat.cast_nonneg _)
              have least : 0 ≤ ((round + 2 : ℕ) : ℤ) * building.weightOf id :=
                mul_nonneg (Nat.cast_nonneg _) nonneg
              push_cast at product least ⊢
              constructor <;> linarith
            obtain ⟨least, greatest⟩ := grown second chosen.member
            have paid : first - building.iMaxRouterR +
                building.weightOf second = ((round + 1 : ℕ) : ℤ) *
                  building.weightOf second + building.weightOf second -
                    2 ^ 32 := by
              rw [full, chosen.key]
              push_cast
              ring
            have cut := toInt_sub (by omega) greatest
            rw [← paid] at cut
            obtain ⟨mWeightToId, done, keyed'⟩ := @turn_keyed _ _
              (fun id => ((round + 1 : ℕ) : ℤ) * building.weightOf id) _ push
              _ _ _ last chosen cut
              (by
                intro id _ _
                push_cast
                ring)
              (by
                intro id member _
                obtain ⟨nonneg, fits⟩ := grown id member
                exact ⟨by omega, fits⟩)
            rw [turns, done]
            exact ih (round + 1) _ rfl full keyed' (by omega) (by omega)
          · obtain ⟨id, member, other, great⟩ : ∃ id ∈ ids, id ≠ second ∧
                building.weightOf id = 100 := by
              obtain ⟨one, member, two, member', distinct, great, great'⟩ :=
                pair
              by_cases same : one = second
              · exact ⟨two, member', fun equal =>
                  distinct (same.trans equal.symm), great'⟩
              · exact ⟨one, member, same, great⟩
            rw [turns, turn_error push last chosen member other (by
              rw [great]
              omega)]

/-- As many proxies of weight 100 as are wanted, and two others. -/
def crowd (count : ℕ) : List ℤ :=
  1 :: 95 :: List.replicate count 100

theorem mem_crowd {count : ℕ} {weight : ℤ} (member : weight ∈ crowd count) :
    weight = 1 ∨ weight = 95 ∨ weight = 100 := by
  rcases List.mem_cons.mp member with first | member
  · exact .inl first
  · rcases List.mem_cons.mp member with second | member
    · exact .inr (.inl second)
    · exact .inr (.inr (List.eq_of_mem_replicate member))

theorem crowd_greatest {count : ℕ} (some_ : 0 < count) :
    IsGreatest {weight | weight ∈ crowd count ∧ 0 < weight} 100 := by
  constructor
  · refine ⟨?_, by decide⟩
    exact List.mem_cons_of_mem _ (List.mem_cons_of_mem _
      (List.mem_replicate.mpr ⟨some_.ne', rfl⟩))
  · intro weight member
    rcases mem_crowd member.1 with rfl | rfl | rfl <;> decide

theorem crowd_least (count : ℕ) :
    IsLeast {weight | weight ∈ crowd count ∧ 0 < weight} 1 := by
  constructor
  · exact ⟨List.mem_cons_self, by decide⟩
  · intro weight member
    rcases mem_crowd member.1 with rfl | rfl | rfl <;> decide

theorem crowd_share {count : ℕ} {weight : ℤ} (member : weight ∈ crowd count) :
    (share 100 1 weight : ℤ) = weight := by
  rcases mem_crowd member with rfl | rfl | rfl <;> decide

theorem crowd_sum (count : ℕ) :
    ((crowd count).zipIdx.map fun proxy => share 100 1 proxy.1).sum =
      96 + count * 100 := by
  have whole : (crowd count).zipIdx.map (fun proxy => share 100 1 proxy.1) =
      (crowd count).map (share 100 1) := by
    conv_rhs => rw [← zipIdx_map_fst (crowd count), List.map_map]
    rfl
  have single : share 100 1 1 = 1 := by decide
  have second : share 100 1 95 = 95 := by decide
  have many : share 100 1 100 = 100 := by decide
  rw [whole, crowd, List.map_cons, List.map_cons, List.map_replicate,
    List.sum_cons, List.sum_cons, List.sum_replicate, single, second, many,
    smul_eq_mul, ← add_assoc]

theorem crowd_zipIdx (count : ℕ) : ∃ proxies,
    (crowd (count + 2)).zipIdx = (1, 0) :: proxies ∧ (100, 2) ∈ proxies ∧
      (100, 3) ∈ proxies := by
  refine ⟨_, rfl, ?_, ?_⟩
  · exact List.mem_cons_of_mem _ List.mem_cons_self
  · exact List.mem_cons_of_mem _ (List.mem_cons_of_mem _ List.mem_cons_self)

/-- Shares that add up to 2^32 end in a current weight that is no `int`. -/
theorem dispatchEndpointCache_crowd (manager : Manager) {count : ℕ}
    (full : 96 + (count + 2) * 100 = 2 ^ 32) :
    manager.dispatchEndpointCache (crowd (count + 2)) =
      .error .signedOverflow := by
  obtain ⟨proxies, indexed, two, three⟩ := crowd_zipIdx count
  have weights : ∀ weight, weight ∈ ((1, 0) :: proxies).map Prod.fst ↔
      weight ∈ crowd (count + 2) ∧ 0 < weight := by
    intro weight
    rw [← indexed, zipIdx_map_fst]
    refine ⟨fun member => ⟨member, ?_⟩, And.left⟩
    rcases mem_crowd member with rfl | rfl | rfl <;> decide
  have nodup := zipIdx_nodup (crowd (count + 2))
  have total := crowd_sum (count + 2)
  rw [indexed] at nodup total
  have shares : ∀ proxy ∈ (1, 0) :: proxies,
      (share 100 1 proxy.1 : ℤ) = proxy.1 ∧ 0 < proxy.1 ∧ proxy.1 ≤ 100 := by
    intro proxy member
    have present := (weights _).mp (List.mem_map_of_mem member)
    exact ⟨crowd_share present.1, present.2,
      (crowd_greatest (by omega)).2 present⟩
  have collected : Collected true (share 100 1) ((1, 0) :: proxies)
      { cache := [], iMaxRouterR := 0, mIdToWeight := [], mWeightToId := [] }
      (start true [] (1, 0) proxies) := by
    apply start_collected
    · intro weight member
      obtain ⟨proxy, present, rfl⟩ := List.mem_map.mp member
      obtain ⟨_, positive, atMost⟩ := shares proxy present
      exact ⟨positive, by omega⟩
    · simpa only [weights] using crowd_greatest (by omega)
    · simpa only [weights] using crowd_least (count + 2)
    · rw [total, full]
      norm_num
  have all : sharing (share 100 1) ((1, 0) :: proxies) =
      (1, 0) :: proxies := by
    refine List.filter_eq_self.mpr fun proxy member => decide_eq_true ?_
    obtain ⟨same, positive, _⟩ := shares proxy member
    omega
  have weightOf := collected.weightOf nodup
  have keyed := @Collected.keyed _ _ _
    (fun id => ((0 : ℕ) : ℤ) *
      (start true [] (1, 0) proxies).weightOf id) (by simp) nodup collected
  rw [all] at weightOf keyed
  have hundred : ∀ id, (100, id) ∈ proxies →
      id ∈ ((1, 0) :: proxies).map Prod.snd ∧
        (start true [] (1, 0) proxies).weightOf id = 100 := by
    intro id member
    have member' := List.mem_cons_of_mem (1, 0) member
    refine ⟨List.mem_map_of_mem member', ?_⟩
    exact (weightOf _ member').trans (shares _ member').1
  have range : ∀ id ∈ ((1, 0) :: proxies).map Prod.snd,
      0 ≤ (start true [] (1, 0) proxies).weightOf id ∧
        (start true [] (1, 0) proxies).weightOf id ≤ 100 := by
    intro id member
    obtain ⟨proxy, present, rfl⟩ := List.mem_map.mp member
    obtain ⟨same, positive, atMost⟩ := shares proxy present
    rw [weightOf proxy present, same]
    exact ⟨positive.le, atMost⟩
  have unpaid : (start true [] (1, 0) proxies).iMaxRouterR = 2 ^ 32 := by
    rw [collected.total, total, full, zero_add]
  have overflows := turns_overflow true nodup
    ⟨2, (hundred 2 two).1, 3, (hundred 3 three).1, by decide,
      (hundred 2 two).2, (hundred 3 three).2⟩
    range (2 ^ 32) 0 (start true [] (1, 0) proxies) rfl unpaid keyed
    (by norm_num) (by norm_num)
  have built : build true [] (1, 0) proxies = .error .signedOverflow := by
    rw [build, unpaid, overflows]
    rfl
  have sum : (crowd (count + 2)).sum = 2 ^ 32 := by
    rw [crowd, List.sum_cons, List.sum_cons, List.sum_replicate, nsmul_eq_mul]
    push_cast
    omega
  have reserve := @reserve_ok (crowd (count + 2)).sum (by omega) (by omega)
  simp only [Manager.dispatchEndpointCache, indexed, reserve, built]

theorem routingTables_exact (manager : Manager) {weights : List ℤ}
    {most least : ℤ} (ints : ∀ weight ∈ weights, weight < 2 ^ 31)
    (greatest : IsGreatest {weight | weight ∈ weights ∧ 0 < weight} most)
    (smallest : IsLeast {weight | weight ∈ weights ∧ 0 < weight} least)
    (fits : Fits (share most least)
      (weights.zipIdx.filter fun proxy => proxy.1 > 0)) :
    ((∀ weight ∈ weights, 0 < weight) → weights.sum + 100 < 2 ^ 60 →
      ∃ next, manager.dispatchEndpointCache weights = .ok next ∧
        Exact (share most least) weights.zipIdx next.staticRouterCache) ∧
    (manager.regWeights = weights →
      ∃ next, manager.updateHashProxyWeighted true = .ok next ∧
        Exact (share most least)
          (weights.zipIdx.filter fun proxy => proxy.1 > 0)
          next.hashStaticRouterCache) := by
  constructor
  · exact dispatchEndpointCache_exact manager ints greatest smallest fits
  · exact updateHashProxyWeighted_exact manager ints greatest smallest fits

/-- Three registered proxies, one of them without weight. -/
def threeProxies : Manager where
  vRegProxys := [0, 1, 2]
  staticWeight := fun proxy => [1, 0, 200].getD proxy 0
  staticWeightChanged := fun _ => true
  staticRouterCache := []
  lastSWeightPosition := 0
  lastHashStaticProxys := []
  hashStaticRouterCache := []

theorem fits_single {share : ℤ → ℕ} {proxies : List (ℤ × ℕ)}
    (sum : (proxies.map fun proxy => share proxy.1).sum < 2 ^ 31)
    (single : proxies.countP (fun proxy => 0 < share proxy.1) = 1) :
    Fits share proxies := by
  have one : harmonic 1 = 1 := by simp [harmonic_succ]
  rw [Fits, single, one, mul_one]
  exact_mod_cast sum

theorem routingTables_exact_two :
    (∃ next, threeProxies.dispatchEndpointCache [1, 200] = .ok next ∧
      Exact (share 200 1) [(1, 0), (200, 1)] next.staticRouterCache) ∧
    (∃ next, threeProxies.updateHashProxyWeighted true = .ok next ∧
      Exact (share 200 1) [(1, 0), (200, 2)] next.hashStaticRouterCache) := by
  have atMost : ∀ weight ∈ ([1, 0, 200] : List ℤ), weight ≤ 200 := by decide
  have atMost' : ∀ weight ∈ ([1, 200] : List ℤ), weight ≤ 200 := by decide
  constructor
  · exact (@routingTables_exact threeProxies [1, 200] 200 1 (by decide)
      ⟨by decide, fun weight member => atMost' weight member.1⟩
      ⟨by decide, fun weight member => Int.add_one_le_of_lt member.2⟩
      (fits_single (by decide) (by decide))).1 (by decide) (by decide)
  · exact (@routingTables_exact threeProxies [1, 0, 200] 200 1 (by decide)
      ⟨by decide, fun weight member => atMost weight member.1⟩
      ⟨by decide, fun weight member => Int.add_one_le_of_lt member.2⟩
      (fits_single (by decide) (by decide))).2 rfl

/-- With 42949674 proxies the table is not even completed. -/
theorem crowd_not_exact : ¬ ∀ (manager : Manager) (weights : List ℤ)
    (most least : ℤ), (∀ weight ∈ weights, 0 < weight ∧ weight < 2 ^ 31) →
    IsGreatest {weight | weight ∈ weights} most →
    IsLeast {weight | weight ∈ weights} least →
    ∃ next, manager.dispatchEndpointCache weights = .ok next ∧
      Exact (share most least) weights.zipIdx next.staticRouterCache := by
  intro exact_
  have positive : ∀ weight ∈ crowd (42949670 + 2), 0 < weight := by
    intro weight member
    rcases mem_crowd member with rfl | rfl | rfl <;> decide
  have same : {weight | weight ∈ crowd (42949670 + 2)} =
      {weight | weight ∈ crowd (42949670 + 2) ∧ 0 < weight} :=
    Set.ext fun weight => ⟨fun member => ⟨member, positive weight member⟩,
      And.left⟩
  obtain ⟨next, done, _⟩ := exact_ threeProxies (crowd (42949670 + 2)) 100 1
    (by
      intro weight member
      rcases mem_crowd member with rfl | rfl | rfl <;> decide)
    (same ▸ crowd_greatest (by norm_num)) (same ▸ crowd_least _)
  rw [dispatchEndpointCache_crowd threeProxies (by norm_num)] at done
  cases done

end TarsCpp.Servant.EndpointManager
