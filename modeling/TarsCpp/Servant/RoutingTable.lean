import TarsCpp.Multimap
import TarsCpp.SmoothRoundRobin

/-!
# Weighted routing tables

A table lists the indices of the proxies in the order in which they are called.
The weights are scaled to shares, and in as many turns as the shares add up to
the proxy with the greatest current weight is appended; the current weights are
the keys of a multimap that every turn builds anew.  Keys are `int`, while the
sum of the shares is a `size_t`.

Every turn is one of the smooth weighted round robin, where the key of a proxy
is its credit together with its share.  Positive credits are bounded by a
harmonic number, so that all keys are in the range of an `int`, and after as
many turns as the shares add up to every proxy has got its share.
-/

namespace TarsCpp.Servant.EndpointManager

open TransitionRun

def iMinWeightLimit : ℕ := 10

def iMaxWeightLimit : ℕ := 100

/-- How a table is not built: `reserve` throws, or a sum is no `int`. -/
inductive Failure where
  | lengthError
  | signedOverflow
  deriving DecidableEq

/-- What the functions read and write.  A proxy stands for the pointer to it. -/
structure Manager where
  vRegProxys : List ℕ
  staticWeight : ℕ → ℤ
  staticWeightChanged : ℕ → Bool
  staticRouterCache : List ℕ
  lastSWeightPosition : ℕ
  lastHashStaticProxys : List ℕ
  hashStaticRouterCache : List ℕ

/-- A value as `size_t`. -/
def sizeT (value : ℤ) : ℕ :=
  (value % 2 ^ 64).toNat

/-- A `size_t` as `int`. -/
def toInt (value : ℕ) : ℤ :=
  (value : ℤ).bmod (2 ^ 32)

/-- The sum of two `int`s. -/
def addInt (first second : ℤ) : Except Failure ℤ :=
  if -2 ^ 31 ≤ first + second ∧ first + second < 2 ^ 31 then
    .ok (first + second)
  else
    .error .signedOverflow

/-- The greatest and the smallest weight. -/
def extremes (first : ℤ) (weights : List ℤ) : ℕ × ℕ :=
  weights.foldl
    (fun found weight =>
      let iTempWeight := sizeT weight
      (if iTempWeight > found.1 then iTempWeight else found.1,
        if iTempWeight < found.2 then iTempWeight else found.2))
    (sizeT first, sizeT first)

/-- `iMaxR` and `iMaxWeight`. -/
def scale (iMaxWeight iMinWeight : ℕ) : ℕ × ℕ :=
  if iMinWeight > 0 then
    let iMaxR := iMaxWeight / iMinWeight
    let iMaxR := if iMaxR < iMinWeightLimit then iMinWeightLimit else iMaxR
    let iMaxR := if iMaxR > iMaxWeightLimit then iMaxWeightLimit else iMaxR
    (iMaxR, iMaxWeight)
  else
    (1, 1)

/-- `iWeight`. -/
def scaled (iMaxR iMaxWeight : ℕ) (weight : ℤ) : ℤ :=
  toInt (sizeT weight * iMaxR % 2 ^ 64 / iMaxWeight)

/-- A table that is being built. -/
structure Building where
  cache : List ℕ
  iMaxRouterR : ℕ
  mIdToWeight : List (ℕ × ℤ)
  mWeightToId : List (ℤ × ℕ)

def Building.weightOf (building : Building) (id : ℕ) : ℤ :=
  (building.mIdToWeight.lookup id).getD 0

/-- The proxies with a share take part in the turns, the others are appended. -/
def collect (push : Bool) (share : ℤ → ℤ) :
    List (ℤ × ℕ) → Building → Building
  | [], building => building
  | (weight, id) :: proxies, building =>
      let iWeight := share weight
      if iWeight > 0 then
        collect push share proxies
          { building with
            iMaxRouterR := (building.iMaxRouterR + sizeT iWeight) % 2 ^ 64
            mIdToWeight := building.mIdToWeight ++ [(id, iWeight)]
            mWeightToId := Multimap.insert Prod.fst (iWeight, id)
              building.mWeightToId }
      else
        collect push share proxies
          { building with
            cache := if push then building.cache ++ [id]
              else building.cache }

/-- The keys of those that are not chosen grow. -/
def grow (weightOf : ℕ → ℤ) :
    List (ℤ × ℕ) → List (ℤ × ℕ) → Except Failure (List (ℤ × ℕ))
  | [], mulTemp => .ok mulTemp
  | (first, second) :: rest, mulTemp =>
      match addInt first (weightOf second) with
      | .ok key =>
          grow weightOf rest (Multimap.insert Prod.fst (key, second) mulTemp)
      | .error failure => .error failure

/-- The last one of the multimap is chosen. -/
def turn (push : Bool) (building : Building) : Except Failure Building :=
  match building.mWeightToId.reverse with
  | [] => .ok building
  | (first, second) :: rest =>
      let key := toInt (sizeT
        (first - building.iMaxRouterR + building.weightOf second))
      match grow building.weightOf rest [(key, second)] with
      | .ok mulTemp => .ok
          { building with
            cache := if push then building.cache ++ [second]
              else building.cache
            mWeightToId := mulTemp }
      | .error failure => .error failure

def turns (push : Bool) : ℕ → Building → Except Failure Building
  | 0, building => .ok building
  | count + 1, building =>
      match turn push building with
      | .ok next => turns push count next
      | .error failure => .error failure

/-- What the turns begin with. -/
def start (push : Bool) (cache : List ℕ) (first : ℤ × ℕ)
    (proxies : List (ℤ × ℕ)) : Building :=
  let weights := extremes first.1 (proxies.map Prod.fst)
  let ratio := scale weights.1 weights.2
  collect push (scaled ratio.1 ratio.2) (first :: proxies)
    { cache, iMaxRouterR := 0, mIdToWeight := [], mWeightToId := [] }

/-- The table behind what a cache already holds. -/
def build (push : Bool) (cache : List ℕ) (first : ℤ × ℕ)
    (proxies : List (ℤ × ℕ)) : Except Failure (List ℕ) :=
  let building := start push cache first proxies
  (turns push building.iMaxRouterR building).map Building.cache

/-- The longest `vector<size_t>`. -/
def maxSize : ℕ :=
  2 ^ 60 - 1

def reserve (capacity : ℕ) : Except Failure Unit :=
  if capacity % 2 ^ 64 > maxSize then .error .lengthError else .ok ()

namespace Manager

def dispatchEndpointCache (manager : Manager) (vWeight : List ℤ) :
    Except Failure Manager :=
  match vWeight.zipIdx with
  | [] => .ok manager
  | first :: proxies =>
      let iTotalCapacty := sizeT vWeight.sum
      match reserve (iTotalCapacty + 100), build true [] first proxies with
      | .error failure, _ => .error failure
      | .ok _, .error failure => .error failure
      | .ok _, .ok cache => .ok
          { manager with
            staticRouterCache := cache
            lastSWeightPosition := 0 }

/-- The weights of the registered proxies. -/
def regWeights (manager : Manager) : List ℤ :=
  manager.vRegProxys.map manager.staticWeight

/-- Which proxies the static table is for. -/
def renewStatic (manager : Manager) (bStatic : Bool) : Manager :=
  if bStatic then
    { manager with
      lastHashStaticProxys := manager.vRegProxys
      hashStaticRouterCache := [] }
  else
    manager

def resetWeightChanged (manager : Manager) : Manager :=
  { manager with
    staticWeightChanged := fun proxy =>
      manager.staticWeightChanged proxy && proxy ∉ manager.vRegProxys }

/-- `bStatic` off leaves the cache as it is. -/
def updateHashProxyWeighted (manager : Manager) (bStatic : Bool) :
    Except Failure Manager :=
  if manager.vRegProxys = [] then
    .ok manager
  else
    let renewed := (manager.renewStatic bStatic).resetWeightChanged
    match manager.regWeights.zipIdx.filter (fun proxy => proxy.1 > 0) with
    | [] => .ok renewed
    | first :: proxies =>
        (build bStatic renewed.hashStaticRouterCache first proxies).map
          fun cache => { renewed with hashStaticRouterCache := cache }

end Manager

/-- The share of a weight. -/
def share (most least : ℤ) (weight : ℤ) : ℕ :=
  (weight * max (iMinWeightLimit : ℤ) (min iMaxWeightLimit (most / least)) /
    most).toNat

/-- Every proxy has its share of the table, or one place if it has none. -/
structure Exact (share : ℤ → ℕ) (proxies : List (ℤ × ℕ))
    (table : List ℕ) : Prop where
  counts : ∀ proxy ∈ proxies,
    table.count proxy.2 = if share proxy.1 = 0 then 1 else share proxy.1
  only : ∀ id ∈ table, id ∈ proxies.map Prod.snd
  length : table.length = (proxies.map fun proxy => share proxy.1).sum +
    proxies.countP fun proxy => share proxy.1 = 0

/-- The current weights stay in the range of an `int`. -/
def Fits (share : ℤ → ℕ) (proxies : List (ℤ × ℕ)) : Prop :=
  (((proxies.map fun proxy => share proxy.1).sum : ℕ) : ℚ) *
    harmonic (proxies.countP fun proxy => 0 < share proxy.1) < 2 ^ 31

open SmoothRoundRobin

theorem sizeT_of_nonneg {value : ℤ} (nonneg : 0 ≤ value)
    (small : value < 2 ^ 31) : sizeT value = value.toNat := by
  unfold sizeT
  rw [Int.emod_eq_of_lt nonneg (by omega)]

theorem toInt_sizeT {value : ℤ} (least : -2 ^ 31 ≤ value)
    (greatest : value < 2 ^ 31) : toInt (sizeT value) = value := by
  unfold toInt sizeT
  rw [Int.toNat_of_nonneg (Int.emod_nonneg _ (by omega)), Int.bmod_def]
  split <;> omega

theorem addInt_ok {first second : ℤ} (least : -2 ^ 31 ≤ first + second)
    (greatest : first + second < 2 ^ 31) :
    addInt first second = .ok (first + second) :=
  if_pos ⟨least, greatest⟩

section Turns

variable {ids : List ℕ} {weightOf : ℕ → ℤ} {credit next : ℕ → ℤ}
  {entries rest mulTemp : List (ℤ × ℕ)}

/-- The multimap holds the credits of the proxies with their shares. -/
structure Keyed (ids : List ℕ) (weightOf : ℕ → ℤ) (credit : ℕ → ℤ)
    (entries : List (ℤ × ℕ)) : Prop where
  sorted : Multimap.Sorted Prod.fst entries
  perm : entries.Perm (ids.map fun id => (credit id + weightOf id, id))

theorem grow_ok (weightOf : ℕ → ℤ) (rest mulTemp : List (ℤ × ℕ))
    (sorted : Multimap.Sorted Prod.fst mulTemp)
    (fits : ∀ entry ∈ rest, -2 ^ 31 ≤ entry.1 + weightOf entry.2 ∧
      entry.1 + weightOf entry.2 < 2 ^ 31) :
    ∃ grown, grow weightOf rest mulTemp = .ok grown ∧
      Multimap.Sorted Prod.fst grown ∧
      grown.Perm (rest.map (fun entry =>
        (entry.1 + weightOf entry.2, entry.2)) ++ mulTemp) := by
  induction rest generalizing mulTemp with
  | nil => exact ⟨mulTemp, rfl, sorted, List.Perm.refl _⟩
  | cons entry rest ih =>
      obtain ⟨first, second⟩ := entry
      obtain ⟨least, greatest⟩ := fits (first, second) List.mem_cons_self
      obtain ⟨grown, done, ordered, same⟩ := ih
        (Multimap.insert Prod.fst (first + weightOf second, second) mulTemp)
        sorted.insert
        fun entry member => fits entry (List.mem_cons_of_mem _ member)
      refine ⟨grown, ?_, ordered, ?_⟩
      · simp only [grow, addInt_ok least greatest]
        exact done
      · refine same.trans ?_
        refine ((Multimap.insert_perm _ _ _).append_left _).trans ?_
        exact List.perm_middle

theorem grow_error (weightOf : ℕ → ℤ) (rest mulTemp : List (ℤ × ℕ))
    {entry : ℤ × ℕ} (member : entry ∈ rest)
    (great : 2 ^ 31 ≤ entry.1 + weightOf entry.2) :
    grow weightOf rest mulTemp = .error .signedOverflow := by
  induction rest generalizing mulTemp with
  | nil => cases member
  | cons head rest ih =>
      obtain ⟨first, second⟩ := head
      by_cases fits : -2 ^ 31 ≤ first + weightOf second ∧
          first + weightOf second < 2 ^ 31
      · simp only [grow, addInt_ok fits.1 fits.2]
        rcases List.mem_cons.mp member with rfl | later
        · exact absurd great (not_le.mpr fits.2)
        · exact ih _ later
      · simp only [grow, addInt, if_neg fits]

/-- What is known about the entry that is chosen and about the others. -/
structure Chosen (ids : List ℕ) (weightOf credit : ℕ → ℤ) (first : ℤ)
    (second : ℕ) (rest : List (ℤ × ℕ)) : Prop where
  member : second ∈ ids
  key : first = credit second + weightOf second
  greatest : ∀ id ∈ ids, credit id + weightOf id ≤ first
  others : ∀ entry ∈ rest, entry.2 ∈ ids ∧ entry.2 ≠ second ∧
    entry.1 = credit entry.2 + weightOf entry.2
  perm : ((first, second) :: rest).Perm
    (ids.map fun id => (credit id + weightOf id, id))

/-- The last entry is a greatest one. -/
theorem Keyed.chosen {first : ℤ} {second : ℕ} (nodup : ids.Nodup)
    (keyed : Keyed ids weightOf credit entries)
    (last : entries.reverse = (first, second) :: rest) :
    Chosen ids weightOf credit first second rest := by
  have perm : ((first, second) :: rest).Perm
      (ids.map fun id => (credit id + weightOf id, id)) := by
    rw [← last]
    exact entries.reverse_perm.trans keyed.perm
  have keys : ∀ entry ∈ (first, second) :: rest,
      entry.2 ∈ ids ∧ entry.1 = credit entry.2 + weightOf entry.2 := by
    intro entry member
    obtain ⟨id, present, equal⟩ := List.mem_map.mp (perm.mem_iff.mp member)
    rw [← equal]
    exact ⟨present, rfl⟩
  have sorted := List.pairwise_reverse.mpr keyed.sorted
  rw [last] at sorted
  have ids_ : ids.Perm (second :: rest.map Prod.snd) := by
    have projected := perm.symm.map Prod.snd
    simpa [List.map_map, Function.comp_def] using projected
  have fresh := (List.nodup_cons.mp (ids_.nodup_iff.mp nodup)).1
  refine ⟨(keys _ List.mem_cons_self).1, (keys _ List.mem_cons_self).2, ?_,
    ?_, perm⟩
  · intro id member
    have entry := perm.mem_iff.mpr (List.mem_map.mpr ⟨id, member, rfl⟩)
    rcases List.mem_cons.mp entry with equal | later
    · exact (Prod.mk.inj equal).1.le
    · exact (List.pairwise_cons.mp sorted).1 _ later
  · intro entry member
    obtain ⟨present, key⟩ := keys entry (List.mem_cons_of_mem _ member)
    refine ⟨present, ?_, key⟩
    intro equal
    exact fresh (List.mem_map.mpr ⟨entry, member, equal⟩)

/-- The chosen proxy pays, the others keep what they have earned. -/
theorem turn_keyed (push : Bool) {building : Building} {first : ℤ}
    {second : ℕ} (last : building.mWeightToId.reverse = (first, second) :: rest)
    (chosen : Chosen ids building.weightOf credit first second rest)
    (paid : toInt (sizeT
      (first - building.iMaxRouterR + building.weightOf second)) =
        next second + building.weightOf second)
    (kept : ∀ id ∈ ids, id ≠ second →
      next id = credit id + building.weightOf id)
    (fits : ∀ id ∈ ids, id ≠ second →
      -2 ^ 31 ≤ next id + building.weightOf id ∧
        next id + building.weightOf id < 2 ^ 31) :
    ∃ mWeightToId, turn push building = .ok
        { building with
          cache := if push then building.cache ++ [second]
            else building.cache
          mWeightToId := mWeightToId } ∧
      Keyed ids building.weightOf next mWeightToId := by
  have grown : ∀ entry ∈ rest, entry.1 + building.weightOf entry.2 =
      next entry.2 + building.weightOf entry.2 := by
    intro entry member
    obtain ⟨present, other, key⟩ := chosen.others entry member
    rw [kept entry.2 present other, key]
  obtain ⟨mWeightToId, done, sorted, perm⟩ := grow_ok building.weightOf rest
    [(next second + building.weightOf second, second)]
    (List.pairwise_singleton _ _) (by
      intro entry member
      obtain ⟨present, other, _⟩ := chosen.others entry member
      rw [grown entry member]
      exact fits entry.2 present other)
  refine ⟨mWeightToId, ?_, sorted, ?_⟩
  · simp only [turn, last, paid, done]
  · have mapped := chosen.perm.map fun entry : ℤ × ℕ =>
      (next entry.2 + building.weightOf entry.2, entry.2)
    rw [List.map_map, List.map_cons] at mapped
    refine perm.trans (List.Perm.trans ?_ mapped)
    rw [List.map_congr_left fun entry member =>
      congrArg (fun key => (key, entry.2)) (grown entry member)]
    exact List.perm_append_singleton _ _

theorem turn_ok (push : Bool) {building : Building} (some_ : ids ≠ [])
    (nodup : ids.Nodup)
    (keyed : Keyed ids building.weightOf credit building.mWeightToId)
    (sum : (building.iMaxRouterR : ℤ) =
      ∑ id ∈ ids.toFinset, building.weightOf id)
    (fits : ∀ chosen next,
      Turn ids.toFinset building.weightOf credit chosen next →
      ∀ id ∈ ids, -2 ^ 31 ≤ next id + building.weightOf id ∧
        next id + building.weightOf id < 2 ^ 31) :
    ∃ chosen next mWeightToId, turn push building = .ok
        { building with
          cache := if push then building.cache ++ [chosen]
            else building.cache
          mWeightToId := mWeightToId } ∧
      Turn ids.toFinset building.weightOf credit chosen next ∧
      Keyed ids building.weightOf next mWeightToId := by
  cases last : building.mWeightToId.reverse with
  | nil =>
      have none_ := keyed.perm.length_eq
      rw [List.reverse_eq_nil_iff.mp last, List.length_map] at none_
      exact absurd (List.length_eq_zero_iff.mp none_.symm) some_
  | cons entry rest =>
      obtain ⟨first, second⟩ := entry
      have chosen := keyed.chosen nodup last
      let next : ℕ → ℤ := fun id => credit id + building.weightOf id -
        if id = second then ∑ id ∈ ids.toFinset, building.weightOf id else 0
      have taken : Turn ids.toFinset building.weightOf credit second next := by
        refine ⟨List.mem_toFinset.mpr chosen.member, ?_, fun _ _ => rfl⟩
        intro id member
        rw [← chosen.key]
        exact chosen.greatest id (List.mem_toFinset.mp member)
      have paid : first - building.iMaxRouterR + building.weightOf second =
          next second + building.weightOf second := by
        simp only [next, if_true, sum, chosen.key]
      obtain ⟨least, most⟩ := fits second next taken second chosen.member
      obtain ⟨mWeightToId, done, keyed'⟩ := @turn_keyed _ _ next _ push _ _ _
        last chosen (by rw [paid, toInt_sizeT least most])
        (fun id _ other => by simp only [next, if_neg other, sub_zero])
        (fun id member _ => fits second next taken id member)
      exact ⟨second, next, mWeightToId, done, taken, keyed'⟩

/-- One that is not chosen has too much. -/
theorem turn_error (push : Bool) {building : Building} {first : ℤ}
    {second id : ℕ}
    (last : building.mWeightToId.reverse = (first, second) :: rest)
    (chosen : Chosen ids building.weightOf credit first second rest)
    (member : id ∈ ids) (other : id ≠ second)
    (great : 2 ^ 31 ≤
      credit id + building.weightOf id + building.weightOf id) :
    turn push building = .error .signedOverflow := by
  have entry := chosen.perm.mem_iff.mpr (List.mem_map.mpr ⟨id, member, rfl⟩)
  rcases List.mem_cons.mp entry with equal | later
  · exact absurd (Prod.mk.inj equal).2 other
  · simp only [turn, last, grow_error building.weightOf rest _ later great]

end Turns

section Runs

variable {ids : List ℕ} {weightOf : ℕ → ℤ} {credit : ℕ → ℤ}

/-- The keys are in the range of an `int`. -/
theorem key_range {s : Finset ℕ} (weights : ∀ id ∈ s, 0 < weightOf id)
    (fits : ((∑ id ∈ s, weightOf id : ℤ) : ℚ) * harmonic s.card < 2 ^ 31)
    (balanced : Balanced s weightOf credit)
    (bounded : Bounded s weightOf credit) :
    ∀ id ∈ s, -2 ^ 31 ≤ credit id + weightOf id ∧
      credit id + weightOf id < 2 ^ 31 := by
  intro id member
  have positive := weights id member
  have single : weightOf id ≤ ∑ id ∈ s, weightOf id :=
    Finset.single_le_sum (fun id member => (weights id member).le) member
  have total : (0 : ℚ) < ((∑ id ∈ s, weightOf id : ℤ) : ℚ) := by
    exact_mod_cast positive.trans_le single
  have one : (1 : ℚ) ≤ harmonic s.card := by
    have grows := harmonic_le
      (Finset.one_le_card.mpr ⟨id, member⟩)
    simpa [harmonic_succ] using grows
  have whole : ((∑ id ∈ s, weightOf id : ℤ) : ℚ) < 2 ^ 31 :=
    lt_of_le_of_lt (le_mul_of_one_le_right total.le one) fits
  constructor
  · have debt := balanced.debt id member
    have whole' : (∑ id ∈ s, weightOf id) < 2 ^ 31 := by exact_mod_cast whole
    omega
  · have bound := bounded {id} (Finset.singleton_subset_iff.mpr member)
      (Finset.singleton_nonempty id)
    simp only [Finset.sum_singleton, Finset.card_singleton, Nat.cast_one,
      one_mul, harmonic_succ, harmonic_zero, zero_add, inv_one] at bound
    have single' : (weightOf id : ℚ) ≤ ((∑ id ∈ s, weightOf id : ℤ) : ℚ) := by
      exact_mod_cast single
    have less : ((credit id + weightOf id : ℤ) : ℚ) < 2 ^ 31 := by
      push_cast at bound single' fits ⊢
      linarith
    exact_mod_cast less

/-- As many turns as the shares add up to choose every proxy as often as its
share says. -/
theorem turns_ok (push : Bool) {s : Finset ℕ} (count : ℕ) (building : Building)
    (nodup : ids.Nodup) (same : ids.toFinset = s) (some_ : ids ≠ [])
    (keyed : Keyed ids weightOf credit building.mWeightToId)
    (ids_ : building.weightOf = weightOf)
    (sum : (building.iMaxRouterR : ℤ) = ∑ id ∈ s, weightOf id)
    (weights : ∀ id ∈ s, 0 < weightOf id)
    (fits : ((∑ id ∈ s, weightOf id : ℤ) : ℚ) * harmonic s.card < 2 ^ 31)
    (balanced : Balanced s weightOf credit)
    (bounded : Bounded s weightOf credit) :
    ∃ labels last built, turns push count building = .ok built ∧
      labels.length = count ∧ Run (Turn s weightOf) credit labels last ∧
      built.cache = if push then building.cache ++ labels
        else building.cache := by
  induction count generalizing credit building with
  | zero =>
      refine ⟨[], credit, building, rfl, rfl, .nil credit, ?_⟩
      simp
  | succ count ih =>
      subst same ids_
      obtain ⟨chosen, next, mWeightToId, done, taken, keyed'⟩ :=
        turn_ok push some_ nodup keyed sum (by
          intro chosen next taken id member
          exact key_range weights fits (taken.balanced weights balanced)
            (taken.bounded weights bounded) id (List.mem_toFinset.mpr member))
      obtain ⟨labels, last, built, rest, length, run, cache⟩ := ih
        { building with
          cache := if push then building.cache ++ [chosen]
            else building.cache
          mWeightToId := mWeightToId }
        keyed' rfl sum (taken.balanced weights balanced)
        (taken.bounded weights bounded)
      refine ⟨chosen :: labels, last, built, ?_, ?_, .cons taken run, ?_⟩
      · simp only [turns, done]
        exact rest
      · simp [length]
      · rw [cache]
        cases push <;> simp

end Runs

end TarsCpp.Servant.EndpointManager
