import TarsCpp.Servant.RoutingTable

/-!
# Routing tables hold the shares

The scaled weights are the shares, the first loop sorts the proxies by whether
they have one, and the turns append each proxy as often as its share says.
Current weights that are no `int` end the turns before the table is complete.
-/

namespace TarsCpp.Servant.EndpointManager

open TransitionRun SmoothRoundRobin

theorem extremes_foldl (weights : List ℤ) (found : ℕ × ℕ) :
    let last := weights.foldl
      (fun found weight =>
        let iTempWeight := sizeT weight
        (if iTempWeight > found.1 then iTempWeight else found.1,
          if iTempWeight < found.2 then iTempWeight else found.2)) found
    (last.1 = found.1 ∨ ∃ weight ∈ weights, last.1 = sizeT weight) ∧
      found.1 ≤ last.1 ∧ (∀ weight ∈ weights, sizeT weight ≤ last.1) ∧
      (last.2 = found.2 ∨ ∃ weight ∈ weights, last.2 = sizeT weight) ∧
      last.2 ≤ found.2 ∧ ∀ weight ∈ weights, last.2 ≤ sizeT weight := by
  induction weights generalizing found with
  | nil => simp
  | cons weight weights ih =>
      obtain ⟨most, grows, above, least, falls, below⟩ := ih
        (if sizeT weight > found.1 then sizeT weight else found.1,
          if sizeT weight < found.2 then sizeT weight else found.2)
      simp only [List.foldl_cons, List.forall_mem_cons, List.exists_mem_cons_iff]
      refine ⟨?_, ?_, ⟨?_, above⟩, ?_, ?_, ⟨?_, below⟩⟩
      · rcases most with same | other
        · rw [same]
          simp only
          split
          · exact .inr (.inl rfl)
          · exact .inl rfl
        · exact .inr (.inr other)
      · refine le_trans ?_ grows
        simp only
        split <;> omega
      · refine le_trans ?_ grows
        simp only
        split <;> omega
      · rcases least with same | other
        · rw [same]
          simp only
          split
          · exact .inr (.inl rfl)
          · exact .inl rfl
        · exact .inr (.inr other)
      · refine falls.trans ?_
        simp only
        split <;> omega
      · refine falls.trans ?_
        simp only
        split <;> omega

variable {first : ℤ × ℕ} {proxies : List (ℤ × ℕ)} {most least : ℤ}

theorem extremes_eq {first : ℤ} {weights : List ℤ}
    (ints : ∀ weight ∈ first :: weights, 0 < weight ∧ weight < 2 ^ 31)
    (greatest : IsGreatest {weight | weight ∈ first :: weights} most)
    (smallest : IsLeast {weight | weight ∈ first :: weights} least) :
    extremes first weights = (most.toNat, least.toNat) := by
  obtain ⟨isMost, grows, above, isLeast, falls, below⟩ :=
    extremes_foldl weights (sizeT first, sizeT first)
  have nat : ∀ weight ∈ first :: weights, sizeT weight = weight.toNat := by
    intro weight member
    obtain ⟨positive, small⟩ := ints weight member
    exact sizeT_of_nonneg positive.le small
  have among : ∀ {value}, (value = sizeT first ∨
      ∃ weight ∈ weights, value = sizeT weight) →
      ∃ weight ∈ first :: weights, value = weight.toNat := by
    rintro value (same | ⟨weight, member, same⟩)
    · exact ⟨first, List.mem_cons_self, same.trans (nat _ List.mem_cons_self)⟩
    · exact ⟨weight, List.mem_cons_of_mem _ member,
        same.trans (nat _ (List.mem_cons_of_mem _ member))⟩
  have atMost : most.toNat ≤ (extremes first weights).1 := by
    rw [← nat most greatest.1]
    rcases List.mem_cons.mp greatest.1 with same | member
    · exact same ▸ grows
    · exact above most member
  have atLeast : (extremes first weights).2 ≤ least.toNat := by
    rw [← nat least smallest.1]
    rcases List.mem_cons.mp smallest.1 with same | member
    · exact same ▸ falls
    · exact below least member
  obtain ⟨weight, member, same⟩ := among isMost
  obtain ⟨weight', member', same'⟩ := among isLeast
  have upper := Int.toNat_le_toNat (greatest.2 member)
  have lower := Int.toNat_le_toNat (smallest.2 member')
  exact Prod.ext (le_antisymm (same.trans_le upper) atMost)
    (le_antisymm atLeast (lower.trans_eq same'.symm))

/-- `iMaxR` for positive weights. -/
theorem scale_eq {iMaxWeight iMinWeight : ℕ} (positive : 0 < iMinWeight) :
    scale iMaxWeight iMinWeight =
      (max iMinWeightLimit (min iMaxWeightLimit (iMaxWeight / iMinWeight)),
        iMaxWeight) := by
  have limits : iMinWeightLimit ≤ iMaxWeightLimit := by decide
  simp only [scale, if_pos positive]
  generalize iMaxWeight / iMinWeight = ratio
  by_cases few : ratio < iMinWeightLimit
  · rw [if_pos few, if_neg (by omega), min_eq_right (by omega),
      max_eq_left few.le]
  · rw [if_neg few]
    by_cases many : ratio > iMaxWeightLimit
    · rw [if_pos many, min_eq_left many.le, max_eq_right limits]
    · rw [if_neg many, min_eq_right (by omega), max_eq_right (by omega)]

theorem share_cast {most least weight : ℕ} : share most least weight =
    weight * max iMinWeightLimit (min iMaxWeightLimit (most / least)) /
      most := by
  unfold share
  exact_mod_cast Int.toNat_natCast _

theorem share_le {most least weight : ℕ} (positive : 0 < weight)
    (atMost : weight ≤ most) : share most least weight ≤ iMaxWeightLimit := by
  have few : max iMinWeightLimit (min iMaxWeightLimit (most / least)) ≤
      iMaxWeightLimit :=
    max_le (by decide) (min_le_left _ _)
  rw [share_cast]
  calc weight * max iMinWeightLimit (min iMaxWeightLimit (most / least)) / most
      ≤ most * iMaxWeightLimit / most :=
        Nat.div_le_div_right (Nat.mul_le_mul atMost few)
    _ = iMaxWeightLimit := Nat.mul_div_cancel_left _ (positive.trans_le atMost)

theorem scaled_eq {most least weight : ℕ} (positive : 0 < least)
    (some_ : 0 < weight) (atMost : weight ≤ most) (small : most < 2 ^ 31) :
    scaled (scale most least).1 (scale most least).2 weight =
      share most least weight := by
  have few : max iMinWeightLimit (min iMaxWeightLimit (most / least)) ≤
      iMaxWeightLimit :=
    max_le (by decide) (min_le_left _ _)
  have product : weight *
      max iMinWeightLimit (min iMaxWeightLimit (most / least)) < 2 ^ 64 := by
    refine lt_of_le_of_lt (Nat.mul_le_mul (atMost.trans small.le) few) ?_
    unfold iMaxWeightLimit
    omega
  have bound : share most least weight ≤ iMaxWeightLimit :=
    share_le some_ atMost
  rw [scale_eq positive, scaled, sizeT_of_nonneg (by omega) (by omega)]
  simp only [Int.toNat_natCast]
  rw [Nat.mod_eq_of_lt product, ← share_cast]
  unfold iMaxWeightLimit at bound
  unfold toInt
  rw [Int.bmod_def]
  split <;> omega

/-- The proxies that take part in the turns. -/
def sharing (share : ℤ → ℕ) (proxies : List (ℤ × ℕ)) : List (ℤ × ℕ) :=
  proxies.filter fun proxy => 0 < share proxy.1

/-- The proxies that are appended once. -/
def shareless (share : ℤ → ℕ) (proxies : List (ℤ × ℕ)) : List (ℤ × ℕ) :=
  proxies.filter fun proxy => share proxy.1 = 0

section Loop

variable {share : ℤ → ℕ} {proxy : ℤ × ℕ}

theorem mem_sharing :
    proxy ∈ sharing share proxies ↔ proxy ∈ proxies ∧ 0 < share proxy.1 := by
  simp [sharing]

theorem mem_shareless :
    proxy ∈ shareless share proxies ↔ proxy ∈ proxies ∧ share proxy.1 = 0 := by
  simp [shareless]

theorem sharing_sum (share : ℤ → ℕ) (proxies : List (ℤ × ℕ)) :
    ((sharing share proxies).map fun proxy => share proxy.1).sum =
      (proxies.map fun proxy => share proxy.1).sum := by
  induction proxies with
  | nil => rfl
  | cons proxy proxies ih =>
      unfold sharing at ih ⊢
      by_cases some_ : 0 < share proxy.1
      · rw [List.filter_cons_of_pos (by simpa using some_)]
        simp [ih]
      · rw [List.filter_cons_of_neg (by simpa using some_)]
        simp [ih, Nat.eq_zero_of_not_pos some_]

/-- What the first loop makes of a table that is being built. -/
structure Collected (push : Bool) (share : ℤ → ℕ) (proxies : List (ℤ × ℕ))
    (building collected : Building) : Prop where
  cache : collected.cache = if push then
      building.cache ++ (shareless share proxies).map Prod.snd
    else building.cache
  total : collected.iMaxRouterR = building.iMaxRouterR +
    (proxies.map fun proxy => share proxy.1).sum
  ids : collected.mIdToWeight = building.mIdToWeight ++
    (sharing share proxies).map fun proxy => (proxy.2, (share proxy.1 : ℤ))
  sorted : Multimap.Sorted Prod.fst collected.mWeightToId
  perm : collected.mWeightToId.Perm ((sharing share proxies).map
    (fun proxy => ((share proxy.1 : ℤ), proxy.2)) ++ building.mWeightToId)

theorem collect_spec (push : Bool) (shareOf : ℤ → ℤ) (share : ℤ → ℕ)
    (proxies : List (ℤ × ℕ)) (building : Building)
    (same : ∀ proxy ∈ proxies, shareOf proxy.1 = share proxy.1)
    (few : ∀ proxy ∈ proxies, share proxy.1 ≤ iMaxWeightLimit)
    (small : building.iMaxRouterR +
      (proxies.map fun proxy => share proxy.1).sum < 2 ^ 64)
    (sorted : Multimap.Sorted Prod.fst building.mWeightToId) :
    Collected push share proxies building
      (collect push shareOf proxies building) := by
  induction proxies generalizing building with
  | nil =>
      constructor
      · simp [collect, shareless]
      · rfl
      · exact (List.append_nil _).symm
      · exact sorted
      · exact List.Perm.refl _
  | cons proxy proxies ih =>
      obtain ⟨weight, id⟩ := proxy
      have here : shareOf weight = share weight := same _ List.mem_cons_self
      have later : ∀ proxy ∈ proxies, shareOf proxy.1 = share proxy.1 :=
        fun proxy member => same proxy (List.mem_cons_of_mem _ member)
      have few' : ∀ proxy ∈ proxies, share proxy.1 ≤ iMaxWeightLimit :=
        fun proxy member => few proxy (List.mem_cons_of_mem _ member)
      have bound : share weight ≤ 100 := few _ List.mem_cons_self
      simp only [List.map_cons, List.sum_cons] at small
      simp only [collect, here]
      by_cases some_ : 0 < share weight
      · have part : sharing share ((weight, id) :: proxies) =
            (weight, id) :: sharing share proxies :=
          List.filter_cons_of_pos (by simpa using some_)
        have other : shareless share ((weight, id) :: proxies) =
            shareless share proxies :=
          List.filter_cons_of_neg (by simpa using some_.ne')
        rw [if_pos (by omega), sizeT_of_nonneg (by omega) (by omega),
          Int.toNat_natCast, Nat.mod_eq_of_lt (by omega)]
        have collected := ih
          { building with
            iMaxRouterR := building.iMaxRouterR + share weight
            mIdToWeight := building.mIdToWeight ++ [(id, ↑(share weight))]
            mWeightToId := Multimap.insert Prod.fst (↑(share weight), id)
              building.mWeightToId }
          later few' (by simp only; omega) sorted.insert
        constructor
        · rw [other]
          exact collected.cache
        · rw [collected.total, List.map_cons, List.sum_cons, add_assoc]
        · rw [collected.ids, part]
          simp
        · exact collected.sorted
        · rw [part]
          refine collected.perm.trans ?_
          refine ((Multimap.insert_perm _ _ _).append_left _).trans ?_
          exact List.perm_middle
      · have zero : share weight = 0 := Nat.eq_zero_of_not_pos some_
        have part : sharing share ((weight, id) :: proxies) =
            sharing share proxies :=
          List.filter_cons_of_neg (by simpa using some_)
        have other : shareless share ((weight, id) :: proxies) =
            (weight, id) :: shareless share proxies :=
          List.filter_cons_of_pos (by simpa using zero)
        rw [if_neg (by omega)]
        have collected := ih
          { building with
            cache := if push then building.cache ++ [id]
              else building.cache }
          later few' (by simp only; omega) sorted
        constructor
        · rw [collected.cache, other]
          cases push <;> simp
        · rw [collected.total, List.map_cons, List.sum_cons, zero, zero_add]
        · rw [part]
          exact collected.ids
        · exact collected.sorted
        · rw [part]
          exact collected.perm

theorem lookup_eq (nodup : (proxies.map Prod.snd).Nodup)
    (member : proxy ∈ proxies) :
    ((proxies.map fun proxy => (proxy.2, (share proxy.1 : ℤ))).lookup
      proxy.2).getD 0 = share proxy.1 := by
  induction proxies with
  | nil => cases member
  | cons head proxies ih =>
      obtain ⟨fresh, nodup'⟩ := List.nodup_cons.mp nodup
      rw [List.map_cons, List.lookup_cons]
      rcases List.mem_cons.mp member with rfl | later
      · simp
      · have other : proxy.2 ≠ head.2 := by
          intro equal
          exact fresh (List.mem_map.mpr ⟨proxy, later, equal⟩)
        rw [beq_eq_false_iff_ne.mpr other]
        exact ih nodup' later

end Loop

theorem Fits.sum_lt {share : ℤ → ℕ} (fits : Fits share proxies) :
    (proxies.map fun proxy => share proxy.1).sum < 2 ^ 31 := by
  rw [← sharing_sum]
  cases part : sharing share proxies with
  | nil => simp
  | cons proxy rest =>
      have some_ : 1 ≤ proxies.countP fun proxy => 0 < share proxy.1 := by
        rw [List.countP_eq_length_filter]
        change 1 ≤ (sharing share proxies).length
        simp [part]
      have one : (1 : ℚ) ≤ harmonic
          (proxies.countP fun proxy => 0 < share proxy.1) := by
        have grows := harmonic_le some_
        simpa [harmonic_succ] using grows
      rw [← part, sharing_sum]
      have small := lt_of_le_of_lt
        (le_mul_of_one_le_right (Nat.cast_nonneg _) one) fits
      exact_mod_cast small

/-- Which proxies the places of a table are for. -/
theorem exact_of_counts {share : ℤ → ℕ} {labels : List ℕ}
    (nodup : (proxies.map Prod.snd).Nodup)
    (counts : ∀ proxy ∈ sharing share proxies,
      labels.count proxy.2 = share proxy.1)
    (members : ∀ id ∈ labels, id ∈ (sharing share proxies).map Prod.snd)
    (length : labels.length = (proxies.map fun proxy => share proxy.1).sum) :
    Exact share proxies
      ((shareless share proxies).map Prod.snd ++ labels) := by
  have unique : ∀ proxy ∈ proxies, ∀ other ∈ proxies,
      proxy.2 = other.2 → proxy = other := by
    intro proxy member other member' equal
    exact List.inj_on_of_nodup_map nodup member member' equal
  constructor
  · intro proxy member
    rw [List.count_append]
    split
    · next zero =>
        have once : ((shareless share proxies).map Prod.snd).count proxy.2 =
            1 := by
          refine List.count_eq_one_of_mem ?_ ?_
          · exact nodup.sublist (List.filter_sublist.map _)
          · exact List.mem_map.mpr ⟨proxy, mem_shareless.mpr ⟨member, zero⟩, rfl⟩
        have never : labels.count proxy.2 = 0 := by
          rw [List.count_eq_zero]
          intro present
          obtain ⟨other, part, equal⟩ := List.mem_map.mp (members _ present)
          obtain ⟨member', positive⟩ := mem_sharing.mp part
          rw [unique other member' proxy member equal] at positive
          omega
        rw [once, never]
    · next some_ =>
        have never : ((shareless share proxies).map Prod.snd).count proxy.2 =
            0 := by
          rw [List.count_eq_zero]
          intro present
          obtain ⟨other, part, equal⟩ := List.mem_map.mp present
          obtain ⟨member', zero⟩ := mem_shareless.mp part
          rw [unique other member' proxy member equal] at zero
          exact some_ zero
        rw [never, zero_add]
        exact counts proxy (mem_sharing.mpr ⟨member, Nat.pos_of_ne_zero some_⟩)
  · intro id member
    rcases List.mem_append.mp member with alone | chosen
    · obtain ⟨proxy, part, equal⟩ := List.mem_map.mp alone
      exact List.mem_map.mpr ⟨proxy, (mem_shareless.mp part).1, equal⟩
    · obtain ⟨proxy, part, equal⟩ := List.mem_map.mp (members id chosen)
      exact List.mem_map.mpr ⟨proxy, (mem_sharing.mp part).1, equal⟩
  · rw [List.length_append, List.length_map, length,
      List.countP_eq_length_filter]
    exact add_comm _ _

section Start

variable {share : ℤ → ℕ} {building : Building}

theorem Collected.weightOf (nodup : (proxies.map Prod.snd).Nodup)
    (collected : Collected true share proxies
      { cache := [], iMaxRouterR := 0, mIdToWeight := [], mWeightToId := [] }
      building) :
    ∀ proxy ∈ sharing share proxies,
      building.weightOf proxy.2 = share proxy.1 := by
  intro proxy member
  rw [Building.weightOf, collected.ids]
  exact lookup_eq (nodup.sublist (List.filter_sublist.map _)) member

/-- The turns begin without credits. -/
theorem Collected.keyed {credit : ℕ → ℤ} (zero : ∀ id, credit id = 0)
    (nodup : (proxies.map Prod.snd).Nodup)
    (collected : Collected true share proxies
      { cache := [], iMaxRouterR := 0, mIdToWeight := [], mWeightToId := [] }
      building) :
    Keyed ((sharing share proxies).map Prod.snd) building.weightOf credit
      building.mWeightToId := by
  refine ⟨collected.sorted, collected.perm.trans (List.Perm.of_eq ?_)⟩
  rw [List.append_nil, List.map_map]
  apply List.map_congr_left
  intro proxy member
  simp [collected.weightOf nodup proxy member, zero]

theorem turns_exact (nodup : (proxies.map Prod.snd).Nodup)
    (some_ : sharing share proxies ≠ []) (fits : Fits share proxies)
    (collected : Collected true share proxies
      { cache := [], iMaxRouterR := 0, mIdToWeight := [], mWeightToId := [] }
      building) :
    ∃ built, turns true building.iMaxRouterR building = .ok built ∧
      Exact share proxies built.cache := by
  let ids := (sharing share proxies).map Prod.snd
  have nodup' : ids.Nodup := nodup.sublist (List.filter_sublist.map _)
  have shares := collected.weightOf nodup
  have weights : ∀ id ∈ ids.toFinset, 0 < building.weightOf id := by
    intro id member
    obtain ⟨proxy, part, rfl⟩ := List.mem_map.mp (List.mem_toFinset.mp member)
    rw [shares proxy part]
    exact_mod_cast (mem_sharing.mp part).2
  have total : ∑ id ∈ ids.toFinset, building.weightOf id =
      (((proxies.map fun proxy => share proxy.1).sum : ℕ) : ℤ) := by
    rw [List.sum_toFinset _ nodup', List.map_map, ← sharing_sum,
      Nat.cast_list_sum, List.map_map]
    exact congrArg List.sum (List.map_congr_left shares)
  have card : ids.toFinset.card =
      proxies.countP fun proxy => 0 < share proxy.1 := by
    rw [List.toFinset_card_of_nodup nodup', List.length_map,
      List.countP_eq_length_filter]
    rfl
  have keyed := collected.keyed (fun _ => rfl) nodup
  have fits' : ((∑ id ∈ ids.toFinset, building.weightOf id : ℤ) : ℚ) *
      harmonic ids.toFinset.card < 2 ^ 31 := by
    rw [total, card, Int.cast_natCast]
    exact fits
  have ids_ : ids ≠ [] := by simpa [ids] using some_
  have some' : ids.toFinset.Nonempty := by
    simpa [List.toFinset_nonempty_iff] using ids_
  have start : building.iMaxRouterR =
      (proxies.map fun proxy => share proxy.1).sum := by
    rw [collected.total]
    exact zero_add _
  obtain ⟨labels, last, built, done, length, run, cache⟩ := turns_ok true
    building.iMaxRouterR building nodup' rfl ids_ keyed rfl
    (by rw [total, start]) weights fits' (balanced_zero some' weights)
    (bounded_zero weights)
  refine ⟨built, done, ?_⟩
  rw [cache, if_pos rfl, collected.cache, if_pos rfl]
  refine exact_of_counts nodup ?_ ?_ (length.trans start)
  · intro proxy member
    have chosen := count_run weights run (by rw [length, start, total])
      proxy.2 (List.mem_toFinset.mpr (List.mem_map.mpr ⟨proxy, member, rfl⟩))
    rw [shares proxy member] at chosen
    exact_mod_cast chosen
  · intro id member
    exact List.mem_toFinset.mp (mem_run run id member)

end Start

theorem start_collected {first : ℤ × ℕ} {proxies : List (ℤ × ℕ)}
    {most least : ℤ}
    (ints : ∀ weight ∈ (first :: proxies).map Prod.fst,
      0 < weight ∧ weight < 2 ^ 31)
    (greatest : IsGreatest
      {weight | weight ∈ (first :: proxies).map Prod.fst} most)
    (smallest : IsLeast
      {weight | weight ∈ (first :: proxies).map Prod.fst} least)
    (small : ((first :: proxies).map fun proxy =>
      share most least proxy.1).sum < 2 ^ 64) :
    Collected true (share most least) (first :: proxies)
      { cache := [], iMaxRouterR := 0, mIdToWeight := [], mWeightToId := [] }
      (start true [] first proxies) := by
  have found : extremes first.1 (proxies.map Prod.fst) =
      (most.toNat, least.toNat) := by
    rw [List.map_cons] at ints greatest smallest
    exact extremes_eq ints greatest smallest
  obtain ⟨positive, few⟩ := ints most greatest.1
  have positive' := (ints least smallest.1).1
  lift most to ℕ using positive.le
  lift least to ℕ using positive'.le
  simp only [Int.toNat_natCast] at found
  have range : ∀ proxy ∈ first :: proxies, ∃ weight : ℕ,
      proxy.1 = weight ∧ 0 < weight ∧ weight ≤ most := by
    intro proxy member
    have among : proxy.1 ∈ (first :: proxies).map Prod.fst :=
      List.mem_map_of_mem member
    have some_ := (ints proxy.1 among).1
    have atMost : proxy.1 ≤ most := greatest.2 among
    obtain ⟨weight, equal⟩ := Int.eq_ofNat_of_zero_le some_.le
    exact ⟨weight, equal, by omega, by omega⟩
  simp only [start, found]
  apply collect_spec
  · intro proxy member
    obtain ⟨weight, equal, some_, atMost⟩ := range proxy member
    rw [equal]
    exact scaled_eq (by omega) some_ atMost (by omega)
  · intro proxy member
    obtain ⟨weight, equal, some_, atMost⟩ := range proxy member
    rw [equal]
    exact share_le some_ atMost
  · rw [zero_add]
    exact small
  · exact List.Pairwise.nil

theorem build_exact {first : ℤ × ℕ} {proxies : List (ℤ × ℕ)}
    {most least : ℤ} (nodup : ((first :: proxies).map Prod.snd).Nodup)
    (ints : ∀ weight ∈ (first :: proxies).map Prod.fst,
      0 < weight ∧ weight < 2 ^ 31)
    (greatest : IsGreatest
      {weight | weight ∈ (first :: proxies).map Prod.fst} most)
    (smallest : IsLeast
      {weight | weight ∈ (first :: proxies).map Prod.fst} least)
    (fits : Fits (share most least) (first :: proxies)) :
    ∃ table, build true [] first proxies = .ok table ∧
      Exact (share most least) (first :: proxies) table := by
  have collected := start_collected ints greatest smallest
    (fits.sum_lt.trans (by norm_num))
  have some_ : sharing (share most least) (first :: proxies) ≠ [] := by
    obtain ⟨proxy, member, equal⟩ := List.mem_map.mp greatest.1
    have positive := (ints most greatest.1).1
    refine List.ne_nil_of_mem (mem_sharing.mpr ⟨member, ?_⟩)
    rw [equal, share, Int.mul_ediv_cancel_left _ positive.ne']
    exact Int.pos_iff_toNat_pos.mp (lt_max_of_lt_left (by decide))
  obtain ⟨built, done, exact_⟩ := turns_exact nodup some_ fits collected
  refine ⟨built.cache, ?_, exact_⟩
  rw [build, done]
  rfl

end TarsCpp.Servant.EndpointManager
