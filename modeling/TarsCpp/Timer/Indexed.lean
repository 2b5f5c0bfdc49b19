import TarsCpp.Timer.Timer

/-!
# The index of the times

Every event in `_mapEvent` is listed once in `_mapTimer`, under its time, until
a thread that fires events takes it out of there, and `_nextTimer` is not
behind the least of the times.
-/

namespace TarsCpp.Timer

namespace TC_TimerBase

variable {t : TC_TimerBase} {el : List UInt32} {uniqId : UInt32}
  {event : Func}

/-- `el` is what the firing thread has still to look up. -/
structure Indexed (t : TC_TimerBase) (el : List UInt32) : Prop where
  events : (t.mapEvent.map Func.uniqueId).Nodup
  listed : ∀ ms uniqId, (ms, uniqId) ∈ t.mapTimer ↔ uniqId ∉ el ∧
    ∃ event ∈ t.mapEvent, event.uniqueId = uniqId ∧ event.fireMillseconds = ms
  nodup : t.mapTimer.Nodup
  sorted : Multimap.Sorted Prod.fst t.mapTimer
  next : ∀ it ∈ t.mapTimer, 0 ≤ t.nextTimer ∧ t.nextTimer ≤ it.1
  small : ∀ event ∈ t.mapEvent, event.fireMillseconds < 2 ^ 63

theorem toInt64_eq {ms : Nat} (small : ms < 2 ^ 63) : toInt64 ms = ms :=
  if_pos small

theorem findEvent_eq_none : t.findEvent uniqId = none ↔
    uniqId ∉ t.mapEvent.map Func.uniqueId := by
  rw [findEvent, List.find?_eq_none]
  simp

theorem mem_of_findEvent (found : t.findEvent uniqId = some event) :
    event ∈ t.mapEvent ∧ event.uniqueId = uniqId :=
  ⟨List.mem_of_find?_eq_some found, by simpa using List.find?_some found⟩

/-- The time of a listed entry is a small one. -/
theorem Indexed.small_entry (indexed : t.Indexed el) {it : Nat × UInt32}
    (member : it ∈ t.mapTimer) : it.1 < 2 ^ 63 := by
  obtain ⟨-, event, present, -, same⟩ := (indexed.listed it.1 it.2).mp member
  rw [← same]
  exact indexed.small event present

theorem Indexed.new : ({} : TC_TimerBase).Indexed [] := by
  constructor <;> simp [Multimap.Sorted]

theorem Indexed.congr {u : TC_TimerBase} (indexed : t.Indexed el)
    (events : u.mapEvent = t.mapEvent) (times : u.mapTimer = t.mapTimer)
    (next : u.nextTimer = t.nextTimer) : u.Indexed el := by
  constructor
  · rw [events]
    exact indexed.events
  · rw [events, times]
    exact indexed.listed
  · rw [times]
    exact indexed.nodup
  · rw [times]
    exact indexed.sorted
  · rw [times, next]
    exact indexed.next
  · rw [events]
    exact indexed.small

section Post

variable (indexed : t.Indexed el) (repeat_ : Bool)

/-- `_nextTimer` is the least of the times again. -/
theorem next_nearer {ms : Nat} (small : ms < 2 ^ 63) :
    0 ≤ (t.nearer ms).nextTimer ∧ (t.nearer ms).nextTimer ≤ ms ∧
      (0 ≤ t.nextTimer → (t.nearer ms).nextTimer ≤ t.nextTimer) := by
  have value := toInt64_eq small
  unfold nearer
  split
  · simp only [value]
    omega
  · split
    · simp only [value]
      omega
    · omega

variable (unknown : event.uniqueId ∉ t.mapEvent.map Func.uniqueId)
  (outside : event.uniqueId ∉ el)

include indexed unknown

theorem Indexed.unlisted (ms : Nat) :
    (ms, event.uniqueId) ∉ t.mapTimer := by
  intro member
  obtain ⟨-, other, present, same, -⟩ := (indexed.listed _ _).mp member
  exact unknown (same ▸ List.mem_map_of_mem present)

theorem Indexed.post_eq : t.post event repeat_ =
    { t with
      repeatIds := if repeat_ then event.uniqueId :: t.repeatIds
        else t.repeatIds
      mapEvent := event :: t.mapEvent
      mapTimer := Multimap.insert Prod.fst
        (event.fireMillseconds, event.uniqueId) t.mapTimer
      nextTimer := (t.nearer event.fireMillseconds).nextTimer } := by
  have unlisted := indexed.unlisted unknown event.fireMillseconds
  have missing := findEvent_eq_none.mpr unknown
  unfold TC_TimerBase.findEvent at missing
  cases repeat_ with
  | false =>
      simp only [post, insertEvent, TC_TimerBase.findEvent, missing,
        Bool.false_eq_true, if_false, insertTimer, if_neg unlisted, nearer]
      split
      · rfl
      · split <;> rfl
  | true =>
      simp only [post, insertEvent, TC_TimerBase.findEvent, missing, if_true,
        insertTimer, if_neg unlisted, nearer]
      split
      · rfl
      · split <;> rfl

include outside

theorem Indexed.post (small : event.fireMillseconds < 2 ^ 63) :
    (t.post event repeat_).Indexed el := by
  have entry := indexed.unlisted unknown event.fireMillseconds
  have perm := Multimap.insert_perm Prod.fst
    (event.fireMillseconds, event.uniqueId) t.mapTimer
  rw [indexed.post_eq repeat_ unknown]
  constructor
  · exact List.nodup_cons.mpr ⟨unknown, indexed.events⟩
  · intro ms uniqId
    rw [perm.mem_iff, List.mem_cons, indexed.listed]
    constructor
    · rintro (here | ⟨still, other, present, same, time⟩)
      · injection here with time same
        subst time same
        exact ⟨outside, event, List.mem_cons_self, rfl, rfl⟩
      · exact ⟨still, other, List.mem_cons_of_mem _ present, same, time⟩
    · rintro ⟨still, other, present, same, time⟩
      rcases List.mem_cons.mp present with rfl | present
      · exact .inl (by rw [same, time])
      · exact .inr ⟨still, other, present, same, time⟩
  · exact perm.nodup_iff.mpr (List.nodup_cons.mpr ⟨entry, indexed.nodup⟩)
  · exact indexed.sorted.insert
  · intro it member
    obtain ⟨nonneg, least, before⟩ := @next_nearer t _ small
    refine ⟨nonneg, ?_⟩
    rcases Multimap.mem_insert.mp member with rfl | old
    · exact least
    · obtain ⟨nonneg', least'⟩ := indexed.next it old
      exact (before nonneg').trans least'
  · intro other present
    rcases List.mem_cons.mp present with rfl | present
    · exact small
    · exact indexed.small other present

end Post

theorem mem_eraseEvent : event ∈ (t.eraseEvent uniqId).mapEvent ↔
    event ∈ t.mapEvent ∧ event.uniqueId ≠ uniqId := by
  simp [eraseEvent]

theorem Indexed.nodup_eraseEvent (indexed : t.Indexed el) :
    ((t.eraseEvent uniqId).mapEvent.map Func.uniqueId).Nodup :=
  indexed.events.sublist (List.filter_sublist.map _)

theorem Indexed.erase (indexed : t.Indexed el) (uniqId : UInt32) :
    (t.erase uniqId).Indexed el := by
  cases found : t.findEvent uniqId with
  | none =>
      refine indexed.congr ?_ ?_ ?_ <;> simp only [TC_TimerBase.erase, found]
  | some event =>
      obtain ⟨present, here⟩ := mem_of_findEvent found
      have events : (t.erase uniqId).mapEvent =
          (t.eraseEvent uniqId).mapEvent := by
        simp only [TC_TimerBase.erase, found]
      have times : (t.erase uniqId).mapTimer =
          t.mapTimer.filter (· ≠ (event.fireMillseconds, uniqId)) := by
        simp only [TC_TimerBase.erase, found]
      have next : (t.erase uniqId).nextTimer = t.nextTimer := by
        simp only [TC_TimerBase.erase, found, eraseEvent]
      constructor
      · rw [events]
        exact indexed.nodup_eraseEvent
      · intro ms other
        rw [events, times, List.mem_filter, indexed.listed]
        constructor
        · rintro ⟨⟨still, event', present', same, time⟩, apart⟩
          refine ⟨still, event', mem_eraseEvent.mpr ⟨present', ?_⟩, same, time⟩
          rintro here'
          have equal : event' = event :=
            List.inj_on_of_nodup_map indexed.events present' present
              (here'.trans here.symm)
          rw [← same, here', ← time, equal] at apart
          simp at apart
        · rintro ⟨still, event', member, same, time⟩
          obtain ⟨present', apart⟩ := mem_eraseEvent.mp member
          refine ⟨⟨still, event', present', same, time⟩, ?_⟩
          rw [← same]
          simp [apart]
      · rw [times]
        exact indexed.nodup.filter _
      · rw [times]
        exact indexed.sorted.filter _
      · rw [times, next]
        exact fun it member => indexed.next it (List.mem_of_mem_filter member)
      · rw [events]
        exact fun event' member =>
          indexed.small event' (mem_eraseEvent.mp member).1

theorem Indexed.clear : t.clear.Indexed el := by
  constructor <;> simp [TC_TimerBase.clear, Multimap.Sorted]

/-- The event of an id in `el` is taken. -/
theorem Indexed.take (indexed : t.Indexed el) (member : event.uniqueId ∈ el) :
    (t.takeEvent event).Indexed (el.filter (· ≠ event.uniqueId)) := by
  have events : (t.takeEvent event).mapEvent =
    (t.eraseEvent event.uniqueId).mapEvent := rfl
  have times : (t.takeEvent event).mapTimer = t.mapTimer := rfl
  have next : (t.takeEvent event).nextTimer = t.nextTimer := rfl
  constructor
  · rw [events]
    exact indexed.nodup_eraseEvent
  · intro ms other
    rw [events, times, indexed.listed]
    constructor
    · rintro ⟨still, event', present', same, time⟩
      refine ⟨fun among => still (List.mem_of_mem_filter among), event',
        mem_eraseEvent.mpr ⟨present', ?_⟩, same, time⟩
      intro here
      rw [← same, here] at still
      exact still member
    · rintro ⟨still, event', member', same, time⟩
      obtain ⟨present', apart⟩ := mem_eraseEvent.mp member'
      refine ⟨fun among => still ?_, event', present', same, time⟩
      rw [same] at apart
      exact List.mem_filter.mpr ⟨among, by simpa using apart⟩
  · exact indexed.nodup
  · exact indexed.sorted
  · rw [times, next]
    exact indexed.next
  · rw [events]
    exact fun event' member' =>
      indexed.small event' (mem_eraseEvent.mp member').1

/-- An id without an event is passed over. -/
theorem Indexed.skip (indexed : t.Indexed el)
    (gone : t.findEvent uniqId = none) :
    t.Indexed (el.filter (· ≠ uniqId)) := by
  refine ⟨indexed.events, ?_, indexed.nodup, indexed.sorted, indexed.next,
    indexed.small⟩
  intro ms other
  rw [indexed.listed]
  refine and_congr_left fun ⟨event', present, same, _⟩ => ?_
  have apart : other ≠ uniqId := by
    rintro rfl
    exact findEvent_eq_none.mp gone (same ▸ List.mem_map_of_mem present)
  simp [apart]

/-- What is due is taken out, and the first of the rest is the next one. -/
theorem Indexed.getEvents (indexed : t.Indexed []) (TNOWMS : Nat → Nat) :
    (t.getEvents TNOWMS).2.Indexed (t.getEvents TNOWMS).1 := by
  have split : t.due TNOWMS ++ (t.getEvents TNOWMS).2.mapTimer = t.mapTimer :=
    List.takeWhile_append_dropWhile
  have nodup := indexed.nodup
  have sorted := indexed.sorted
  rw [← split] at nodup sorted
  have apart := (List.nodup_append'.mp nodup).2.2
  have member : ∀ it ∈ (t.getEvents TNOWMS).2.mapTimer, it ∈ t.mapTimer := by
    intro it later
    rw [← split]
    exact List.mem_append_right _ later
  refine ⟨indexed.events, ?_, (List.nodup_append'.mp nodup).2.1,
    (List.pairwise_append.mp sorted).2.1, ?_, indexed.small⟩
  · intro ms uniqId
    have whole := indexed.listed ms uniqId
    rw [← split, List.mem_append] at whole
    have unique : ∀ ms', (ms', uniqId) ∈ t.mapTimer →
        (ms, uniqId) ∈ t.mapTimer → ms' = ms := by
      intro ms' first second
      obtain ⟨-, event, present, same, time⟩ := (indexed.listed _ _).mp first
      obtain ⟨-, event', present', same', time'⟩ :=
        (indexed.listed _ _).mp second
      rw [← time, ← time', List.inj_on_of_nodup_map indexed.events present
        present' (same.trans same'.symm)]
    constructor
    · intro later
      refine ⟨?_, (whole.mp (.inr later)).2⟩
      intro among
      obtain ⟨it, early, here⟩ := List.mem_map.mp among
      obtain ⟨ms', other⟩ := it
      obtain rfl : other = uniqId := here
      have early' : (ms', other) ∈ t.mapTimer := by
        rw [← split]
        exact List.mem_append_left _ early
      rw [unique ms' early' (member _ later)] at early
      exact apart early later
    · rintro ⟨still, found⟩
      rcases whole.mpr ⟨List.not_mem_nil, found⟩ with early | later
      · exact absurd (List.mem_map_of_mem early) still
      · exact later
  · intro it later
    have later' : it ∈ t.mapTimer.dropWhile fun it =>
      decide (it.1 ≤ TNOWMS it.1) := later
    have rest : (t.getEvents TNOWMS).2.nextTimer =
        ((t.mapTimer.dropWhile fun it =>
          decide (it.1 ≤ TNOWMS it.1)).head?.elim (-1) fun it =>
            toInt64 it.1) := rfl
    have order : Multimap.Sorted Prod.fst (t.mapTimer.dropWhile fun it =>
        decide (it.1 ≤ TNOWMS it.1)) := (List.pairwise_append.mp sorted).2.1
    have among : ∀ it ∈ (t.mapTimer.dropWhile fun it =>
        decide (it.1 ≤ TNOWMS it.1)), it ∈ t.mapTimer := member
    rw [rest]
    revert later' order among
    cases (t.mapTimer.dropWhile fun it => decide (it.1 ≤ TNOWMS it.1)) with
    | nil => exact fun none_ => absurd none_ List.not_mem_nil
    | cons first rest =>
        intro later' order among
        have small := indexed.small_entry (among first List.mem_cons_self)
        rw [List.head?_cons, Option.elim_some, toInt64_eq small]
        refine ⟨Int.natCast_nonneg _, Int.ofNat_le.mpr ?_⟩
        rcases List.mem_cons.mp later' with rfl | behind
        · exact Nat.le_refl _
        · exact (List.pairwise_cons.mp order).1 it behind

end TC_TimerBase

end TarsCpp.Timer
