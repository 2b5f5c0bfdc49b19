import TarsCpp.ConsistentHash.Remapping

/-!
# Looking a hashcode up

The node of a hashcode is that of the first code at it or behind it.  The
search reads the element behind all codes that are not greater, and how far it
can look is limited by the sums of two `int`s.
-/

namespace TarsCpp.ConsistentHash

variable {vHashList : List NodeTNew} {hashcode : UInt32}

/-- Sorted by their codes, some of which may be equal. -/
def SortedByCode (vHashList : List NodeTNew) : Prop :=
  vHashList.Pairwise fun m1 m2 => m1.iHashCode ≤ m2.iHashCode

/-- The clockwise successor of a hashcode. -/
def successor (vHashList : List NodeTNew) (hashcode : UInt32) :
    Option NodeTNew :=
  (vHashList.find? fun item => hashcode ≤ item.iHashCode).or vHashList[0]?

structure NodeTNew.SameNode (item other : NodeTNew) : Prop where
  iIndex : item.iIndex = other.iIndex
  sNode : item.sNode = other.sNode

/-- Both functions return the node of the successor. -/
def FindsSuccessor (ring : TcConsistentHashNew) (hashcode : UInt32) : Prop :=
  ∃ item, successor ring.vHashList hashcode = some item ∧
    ring.getIndex hashcode = some (0, item.iIndex) ∧
      ring.getNodeName hashcode = some (0, item.sNode)

/-- How far `low` can move to the right before `low + high` overflows. -/
def reach (high low : Nat) : Nat :=
  if low < high - 1 ∧ low + high ≤ intMax then
    reach high ((low + high) / 2)
  else
    low
termination_by high - low

theorem le_reach (high low : Nat) : low ≤ reach high low := by
  fun_induction reach high low with
  | case1 low moves ih => omega
  | case2 low stays => exact Nat.le_refl _

/-- In a ring of ordinary size the search reaches every element. -/
theorem reach_of_few {high low : Nat} (few : high ≤ 2 ^ 30)
    (inside : low < high) : high = reach high low + 1 := by
  fun_induction reach high low with
  | case1 low moves ih => exact ih (by omega)
  | case2 low stays =>
      unfold intMax at stays
      omega

/-- `place` is behind the codes that are not greater. -/
structure Splits (vHashList : List NodeTNew) (hashcode : UInt32)
    (place : Nat) : Prop where
  before : ∀ i < place, ∀ item ∈ vHashList[i]?, item.iHashCode ≤ hashcode
  behind : ∀ i ≥ place, ∀ item ∈ vHashList[i]?, hashcode < item.iHashCode

theorem Splits.greater_iff {n i place : Nat} {item : NodeTNew}
    (splits : Splits (vHashList.take n) hashcode place) (within : i < n)
    (here : vHashList[i]? = some item) :
    item.iHashCode > hashcode ↔ place ≤ i := by
  have here' : (vHashList.take n)[i]? = some item := by
    rw [List.getElem?_take_of_lt within]
    exact here
  constructor
  · intro greater
    by_contra before
    have atMost := splits.before i (by omega) item here'
    exact absurd greater (UInt32.not_lt.mpr atMost)
  · intro behind
    exact splits.behind i behind item here'

/-- Where no sum of two indices overflows the search finds the last code that
is not greater. -/
theorem search_fits {n low high place : Nat}
    (splits : Splits (vHashList.take n) hashcode place) (inside : low < place)
    (atMost : place ≤ high) (within : high ≤ n) (bound : n ≤ vHashList.length)
    (fits : 2 * high ≤ intMax + 1) :
    search vHashList hashcode low high = some (place - 1) := by
  fun_induction search vHashList hashcode low high with
  | case1 low high apart overflows => omega
  | case2 low high apart _ missing =>
      rw [List.getElem?_eq_none_iff] at missing
      omega
  | case3 low high apart _ item found greater ih =>
      have behind := (splits.greater_iff (by omega) found).mp greater
      exact ih inside behind (by omega) (by omega)
  | case4 low high apart _ item found notGreater ih =>
      have before : ¬ place ≤ (low + high) / 2 := fun behind =>
        notGreater ((splits.greater_iff (by omega) found).mpr behind)
      exact ih (by omega) atMost within fits
  | case5 low high adjacent =>
      have same : low = place - 1 := by omega
      rw [same]

theorem search_eq {low high place : Nat}
    (splits : Splits (vHashList.take high) hashcode place) (inside : low < place)
    (atMost : place ≤ high) (within : high ≤ vHashList.length) :
    search vHashList hashcode low high =
      if high ≤ reach high low + 1 ∨ place ≤ reach high low then
        some (place - 1)
      else none := by
  fun_induction reach high low with
  | case1 low moves ih =>
      obtain ⟨apart, fits⟩ := moves
      have here : (low + high) / 2 < vHashList.length := by omega
      have found := List.getElem?_eq_getElem here
      have greater := splits.greater_iff (by omega) found
      rw [search, if_pos apart, if_neg (by omega), found]
      by_cases behind : place ≤ (low + high) / 2
      · have reached := le_reach high ((low + high) / 2)
        simp only [if_pos (greater.mpr behind)]
        rw [search_fits splits inside behind (by omega) within (by omega),
          if_pos (.inr (by omega))]
      · simp only [if_neg fun large => behind (greater.mp large)]
        exact ih (by omega)
  | case2 low stays =>
      rw [search]
      by_cases apart : low < high - 1
      · have overflows : low + high > intMax := by
          by_contra fits
          exact stays ⟨apart, by omega⟩
        rw [if_pos apart, if_pos overflows, if_neg (by omega)]
      · have same : low = place - 1 := by omega
        rw [if_neg apart, if_pos (.inl (by omega)), same]

theorem splits_countP (sorted : SortedByCode vHashList) :
    Splits vHashList hashcode
      (vHashList.countP fun item => item.iHashCode ≤ hashcode) := by
  induction vHashList with
  | nil => constructor <;> simp
  | cons first rest ih =>
      obtain ⟨least, sorted'⟩ := List.pairwise_cons.mp sorted
      by_cases small : first.iHashCode ≤ hashcode
      · have counted : (first :: rest).countP
            (fun item => item.iHashCode ≤ hashcode) =
            rest.countP (fun item => item.iHashCode ≤ hashcode) + 1 :=
          List.countP_cons_of_pos (decide_eq_true small)
        rw [counted]
        constructor
        · intro i before item member
          cases i with
          | zero =>
              obtain rfl : first = item := Option.some.inj member
              exact small
          | succ i => exact (ih sorted').before i (by omega) item member
        · intro i behind item member
          cases i with
          | zero => omega
          | succ i => exact (ih sorted').behind i (by omega) item member
      · have none_ : (first :: rest).countP
            (fun item => item.iHashCode ≤ hashcode) = 0 := by
          rw [List.countP_eq_zero]
          intro item member small'
          have atMost := of_decide_eq_true small'
          rcases List.mem_cons.mp member with rfl | later
          · exact small atMost
          · exact small (UInt32.le_trans (least item later) atMost)
        rw [none_]
        constructor
        · intro i before
          omega
        · intro i _ item member
          have present := List.mem_of_getElem? member
          rcases List.mem_cons.mp present with rfl | later
          · exact UInt32.not_le.mp small
          · exact UInt32.lt_of_lt_of_le (UInt32.not_le.mp small)
              (least item later)

/-- How many elements the search knows of. -/
@[irreducible] def seen (vHashList : List NodeTNew) : Int :=
  (vHashList.length : Int).bmod (2 ^ 32)

/-- How many of them have codes that are not greater. -/
def place (vHashList : List NodeTNew) (hashcode : UInt32) : Nat :=
  (vHashList.take (seen vHashList).toNat).countP fun item =>
    item.iHashCode ≤ hashcode

theorem bmod_toNat_le (size m : Nat) : ((size : Int).bmod m).toNat ≤ size := by
  have least := Nat.mod_le size m
  rw [Int.bmod_def]
  split <;> omega

theorem seen_le (vHashList : List NodeTNew) :
    (seen vHashList).toNat ≤ vHashList.length := by
  unfold seen
  exact bmod_toNat_le vHashList.length (2 ^ 32)

theorem locate_first {first : NodeTNew} (isFirst : vHashList[0]? = some first)
    (before : hashcode ≤ first.iHashCode) :
    locate vHashList hashcode = some first := by
  simp [locate, isFirst, before]

theorem splits_place (sorted : SortedByCode vHashList) :
    Splits (vHashList.take (seen vHashList).toNat) hashcode
      (place vHashList hashcode) :=
  splits_countP (sorted.sublist (List.take_sublist _ _))

section Behind

variable {first : NodeTNew} (sorted : SortedByCode vHashList)
  (isFirst : vHashList[0]? = some first) (behind : first.iHashCode < hashcode)

include isFirst behind

theorem locate_unseen (none_ : seen vHashList ≤ 0) :
    locate vHashList hashcode = none := by
  have notBefore : ¬ hashcode ≤ first.iHashCode := UInt32.not_le.mpr behind
  unfold seen at none_
  simp only [locate, isFirst, Option.bind_eq_bind, Option.bind_some, notBefore,
    if_false, if_pos none_, Option.bind_none]

theorem locate_seen {last : NodeTNew} (some_ : 0 < seen vHashList)
    (isLast : vHashList[(seen vHashList).toNat - 1]? = some last) :
    locate vHashList hashcode =
      if hashcode > last.iHashCode then some first
      else (search vHashList hashcode 0 (seen vHashList).toNat).bind
        fun low => vHashList[low + 1]? := by
  have notBefore : ¬ hashcode ≤ first.iHashCode := UInt32.not_le.mpr behind
  have positive : ¬ seen vHashList ≤ 0 := by omega
  unfold seen at positive isLast ⊢
  simp only [locate, isFirst, Option.bind_eq_bind, Option.bind_some, notBefore,
    if_false, if_neg positive, isLast, pure]

theorem locate_passed (some_ : 0 < seen vHashList)
    (all : ∀ item ∈ vHashList.take (seen vHashList).toNat,
      item.iHashCode < hashcode) :
    locate vHashList hashcode = some first := by
  have within := seen_le vHashList
  have inside : (seen vHashList).toNat - 1 < vHashList.length := by omega
  have isLast := List.getElem?_eq_getElem inside
  have among : vHashList[(seen vHashList).toNat - 1] ∈
      vHashList.take (seen vHashList).toNat := by
    refine List.mem_iff_getElem?.mpr ⟨(seen vHashList).toNat - 1, ?_⟩
    rw [List.getElem?_take_of_lt (by omega)]
    exact isLast
  rw [locate_seen isFirst behind some_ isLast, if_pos (all _ among)]

include sorted

theorem locate_between (some_ : 0 < seen vHashList)
    (left : ∃ item ∈ vHashList.take (seen vHashList).toNat,
      hashcode ≤ item.iHashCode) :
    locate vHashList hashcode =
      if seen vHashList ≤ reach (seen vHashList).toNat 0 + 1 ∨
          place vHashList hashcode ≤ reach (seen vHashList).toNat 0 then
        vHashList[place vHashList hashcode]?
      else none := by
  have within := seen_le vHashList
  have inside : (seen vHashList).toNat - 1 < vHashList.length := by omega
  have isLast := List.getElem?_eq_getElem inside
  have splits := @splits_place _ hashcode sorted
  have atMost : place vHashList hashcode ≤ (seen vHashList).toNat := by
    refine List.countP_le_length.trans ?_
    rw [List.length_take]
    omega
  have started : 0 < place vHashList hashcode := by
    by_contra none_
    have here : (vHashList.take (seen vHashList).toNat)[0]? = some first := by
      rw [List.getElem?_take_of_lt (by omega)]
      exact isFirst
    have greater := splits.behind 0 (by omega) first here
    exact absurd greater (UInt32.not_lt.mpr (UInt32.le_of_lt behind))
  have notPassed : ¬ hashcode >
      vHashList[(seen vHashList).toNat - 1].iHashCode := by
    obtain ⟨item, member, atLeast⟩ := left
    obtain ⟨i, here⟩ := List.mem_iff_getElem?.mp member
    have bound : i < (seen vHashList).toNat := by
      have short := (List.getElem?_eq_some_iff.mp here).1
      rw [List.length_take] at short
      omega
    rw [List.getElem?_take_of_lt bound] at here
    obtain ⟨short, rfl⟩ := List.getElem?_eq_some_iff.mp here
    have order : vHashList[i].iHashCode ≤
        vHashList[(seen vHashList).toNat - 1].iHashCode := by
      rcases Nat.eq_or_lt_of_le (Nat.le_sub_one_of_lt bound) with same | less
      · subst same
        exact UInt32.le_refl _
      · exact List.pairwise_iff_getElem.mp sorted i _ short inside less
    exact UInt32.not_lt.mpr (UInt32.le_trans atLeast order)
  rw [locate_seen isFirst behind some_ isLast, if_neg notPassed,
    search_eq splits started atMost within]
  have cast : seen vHashList ≤ reach (seen vHashList).toNat 0 + 1 ↔
      (seen vHashList).toNat ≤ reach (seen vHashList).toNat 0 + 1 := by
    omega
  simp only [cast]
  split
  · rw [Option.bind_some, Nat.sub_add_cancel started]
  · rfl

end Behind

/-- When the item that is read is one of the successor's node. -/
inductive ReadsSuccessor (vHashList : List NodeTNew) (hashcode : UInt32) : Prop
  | first (item : NodeTNew) (here : vHashList[0]? = some item)
      (before : hashcode ≤ item.iHashCode)
  | passed (first next : NodeTNew) (here : vHashList[0]? = some first)
      (some_ : 0 < seen vHashList)
      (all : ∀ item ∈ vHashList.take (seen vHashList).toNat,
        item.iHashCode < hashcode)
      (isNext : successor vHashList hashcode = some next)
      (same : first.SameNode next)
  | between (first item next : NodeTNew) (here : vHashList[0]? = some first)
      (behind : first.iHashCode < hashcode) (some_ : 0 < seen vHashList)
      (left : ∃ item ∈ vHashList.take (seen vHashList).toNat,
        hashcode ≤ item.iHashCode)
      (fits : seen vHashList ≤ reach (seen vHashList).toNat 0 + 1 ∨
        place vHashList hashcode ≤ reach (seen vHashList).toNat 0)
      (read : vHashList[place vHashList hashcode]? = some item)
      (isNext : successor vHashList hashcode = some next)
      (same : item.SameNode next)

theorem finds_iff (ring : TcConsistentHashNew)
    (something : ring.vHashList ≠ []) :
    FindsSuccessor ring hashcode ↔
      ∃ item, locate ring.vHashList hashcode = some item ∧
        ∃ next, successor ring.vHashList hashcode = some next ∧
          item.SameNode next := by
  unfold FindsSuccessor TcConsistentHashNew.getIndex
    TcConsistentHashNew.getNodeName
  simp only [if_neg something]
  constructor
  · rintro ⟨next, isNext, index, name⟩
    obtain ⟨item, read, here⟩ := Option.map_eq_some_iff.mp index
    rw [read] at name
    injection here with _ iIndex
    injection name with name
    injection name with _ sNode
    exact ⟨item, read, next, isNext, ⟨iIndex, sNode⟩⟩
  · rintro ⟨item, read, next, isNext, same⟩
    refine ⟨next, isNext, ?_, ?_⟩
    · rw [read, ← same.iIndex]
      rfl
    · rw [read, ← same.sNode]
      rfl

theorem successor_first {first : NodeTNew}
    (isFirst : vHashList[0]? = some first)
    (before : hashcode ≤ first.iHashCode) :
    successor vHashList hashcode = some first := by
  cases vHashList with
  | nil => cases isFirst
  | cons item rest =>
      obtain rfl : item = first := Option.some.inj isFirst
      simp [successor, before]

/-- On a ring in the order of its codes the successor's node is found if and
only if it is the one that is read. -/
theorem findsSuccessor_iff (ring : TcConsistentHashNew) (hashcode : UInt32)
    (something : ring.vHashList ≠ [])
    (sorted : SortedByCode ring.vHashList) :
    FindsSuccessor ring hashcode ↔
      ReadsSuccessor ring.vHashList hashcode := by
  have length := List.length_pos_iff.mpr something
  have isFirst := List.getElem?_eq_getElem length
  generalize ring.vHashList[0] = first at isFirst
  rw [finds_iff ring something]
  constructor
  · rintro ⟨item, read, next, isNext, same⟩
    by_cases before : hashcode ≤ first.iHashCode
    · exact .first first isFirst before
    · have behind := UInt32.not_le.mp before
      by_cases some_ : 0 < seen ring.vHashList
      · by_cases all : ∀ item ∈
            ring.vHashList.take (seen ring.vHashList).toNat,
            item.iHashCode < hashcode
        · rw [locate_passed isFirst behind some_ all] at read
          obtain rfl : first = item := Option.some.inj read
          exact .passed first next isFirst some_ all isNext same
        · simp only [not_forall, exists_prop, UInt32.not_lt] at all
          rw [locate_between sorted isFirst behind some_ all] at read
          split at read
          · next fits =>
              exact .between first item next isFirst behind some_ all fits read
                isNext same
          · cases read
      · rw [locate_unseen isFirst behind (by omega)] at read
        cases read
  · intro reads
    cases reads with
    | first item here before =>
        exact ⟨item, locate_first here before, item,
          successor_first here before, ⟨rfl, rfl⟩⟩
    | passed first next here some_ all isNext same =>
        have among : first ∈
            ring.vHashList.take (seen ring.vHashList).toNat := by
          refine List.mem_iff_getElem?.mpr ⟨0, ?_⟩
          rw [List.getElem?_take_of_lt (by omega)]
          exact here
        exact ⟨first, locate_passed here (all first among) some_ all,
          next, isNext, same⟩
    | between first item next here behind some_ left fits read isNext same =>
        refine ⟨item, ?_, next, isNext, same⟩
        rw [locate_between sorted here behind some_ left, if_pos fits, read]

/-- Three codes, of which the second one is asked for. -/
def threeCodes : TcConsistentHashNew :=
  ⟨.defaultHash, [⟨10, [97], 0⟩, ⟨20, [98], 1⟩, ⟨30, [99], 2⟩]⟩

theorem seen_threeCodes : seen threeCodes.vHashList = 3 := by
  unfold seen
  exact bmod_length (by decide)

theorem reach_threeCodes : reach 3 0 = 2 := by
  have reached := @reach_of_few 3 0 (by omega) (by omega)
  omega

theorem sorted_threeCodes : SortedByCode threeCodes.vHashList := by
  unfold SortedByCode
  decide

/-- What is read between the first code and the last one. -/
theorem locate_threeCodes {hashcode : UInt32} (behind : 10 < hashcode)
    (left : hashcode ≤ 30) : locate threeCodes.vHashList hashcode =
      threeCodes.vHashList[
        threeCodes.vHashList.countP (·.iHashCode ≤ hashcode)]? := by
  have last : (⟨30, [99], 2⟩ : NodeTNew) ∈ threeCodes.vHashList := by decide
  have located := @locate_between threeCodes.vHashList hashcode
    ⟨10, [97], 0⟩ sorted_threeCodes rfl behind
    (by rw [seen_threeCodes]; decide)
    ⟨⟨30, [99], 2⟩, by rw [seen_threeCodes]; exact last, left⟩
  have fits : (3 : Int) ≤ (reach 3 0 : Nat) + 1 := by
    rw [reach_threeCodes]
    decide
  rw [seen_threeCodes] at located
  rw [located, if_pos (.inl fits), place, seen_threeCodes]
  rfl

/-- Between two codes the successor is found. -/
theorem findsSuccessor_between : FindsSuccessor threeCodes 15 := by
  refine (findsSuccessor_iff threeCodes 15 (by decide)
    sorted_threeCodes).mpr ?_
  refine .between ⟨10, [97], 0⟩ ⟨20, [98], 1⟩ ⟨20, [98], 1⟩ rfl (by decide) ?_
    ⟨⟨20, [98], 1⟩, ?_, by decide⟩ (.inl ?_) ?_ rfl ⟨rfl, rfl⟩
  · rw [seen_threeCodes]
    decide
  · rw [seen_threeCodes]
    decide
  · rw [seen_threeCodes]
    change (3 : Int) ≤ (reach 3 0 : Nat) + 1
    rw [reach_threeCodes]
    decide
  · unfold place
    rw [seen_threeCodes]
    decide

/-- The second code is on the second node, and the third one is returned;
behind the last code nothing is read that exists. -/
theorem exactCode_passed : ¬ FindsSuccessor threeCodes 20 ∧
    threeCodes.getIndex 20 = some (0, 2) ∧ threeCodes.getIndex 30 = none := by
  have something : threeCodes.vHashList ≠ [] := by decide
  have second := @locate_threeCodes 20 (by decide) (by decide)
  have third := @locate_threeCodes 30 (by decide) (by decide)
  have index : threeCodes.getIndex 20 = some (0, 2) := by
    rw [TcConsistentHashNew.getIndex, if_neg something, second]
    decide
  refine ⟨?_, index, ?_⟩
  · rintro ⟨item, isNext, found, -⟩
    obtain rfl : (⟨20, [98], 1⟩ : NodeTNew) = item := Option.some.inj isNext
    rw [index] at found
    cases found
  · rw [TcConsistentHashNew.getIndex, if_neg something, third]
    decide

end TarsCpp.ConsistentHash
