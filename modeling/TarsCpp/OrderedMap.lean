import Mathlib.Data.List.Lex
import Mathlib.Tactic

/-!
# Ordered maps

The entries of a map in the order of their keys, each key once.  A key is
looked up from the front, and a new entry goes in front of the first with a
larger key.
-/

namespace TarsCpp

/-- Strings of bytes can be keys. -/
instance lawfulOrderLT_bytes : Std.LawfulOrderLT (List UInt8) := inferInstance

variable {κ β : Type}

namespace SortedEntries

variable [DecidableEq κ]

def find? (key : κ) : List (κ × β) → Option β
  | [] => none
  | (other, value) :: entries =>
      if other = key then some value else find? key entries

theorem find?_none {key : κ} {entries : List (κ × β)}
    (absent : ∀ entry ∈ entries, entry.1 ≠ key) : find? key entries = none := by
  induction entries with
  | nil => rfl
  | cons entry entries ih =>
      rw [List.forall_mem_cons] at absent
      rw [find?, if_neg absent.1]
      exact ih absent.2

theorem mem_of_find? {key : κ} {value : β} {entries : List (κ × β)}
    (found : find? key entries = some value) : (key, value) ∈ entries := by
  induction entries with
  | nil => cases found
  | cons entry entries ih =>
      rw [find?] at found
      split at found
      · next same =>
          cases found
          rw [← same]
          exact List.mem_cons_self
      · exact List.mem_cons_of_mem _ (ih found)

variable [LT κ]

/-- Each key once, in ascending order. -/
def Sorted (entries : List (κ × β)) : Prop :=
  entries.Pairwise fun first second => first.1 < second.1

section Placing

variable [DecidableLT κ]

/-- The entry of a key is made of what was there before. -/
def place (key : κ) (combine : Option β → β) : List (κ × β) → List (κ × β)
  | [] => [(key, combine none)]
  | (other, value) :: entries =>
      if key < other then
        (key, combine none) :: (other, value) :: entries
      else if other = key then
        (key, combine (some value)) :: entries
      else
        (other, value) :: place key combine entries

theorem mem_place {key : κ} {combine : Option β → β} {entry : κ × β}
    {entries : List (κ × β)} (among : entry ∈ place key combine entries) :
    entry.1 = key ∨ entry ∈ entries := by
  induction entries with
  | nil =>
      rw [place, List.mem_singleton] at among
      exact .inl (congrArg Prod.fst among)
  | cons first entries ih =>
      rw [place] at among
      split at among
      · rcases List.mem_cons.mp among with rfl | old
        · exact .inl rfl
        · exact .inr old
      · split at among
        · rcases List.mem_cons.mp among with rfl | old
          · exact .inl rfl
          · exact .inr (List.mem_cons_of_mem _ old)
        · rcases List.mem_cons.mp among with rfl | later
          · exact .inr List.mem_cons_self
          · rcases ih later with same | old
            · exact .inl same
            · exact .inr (List.mem_cons_of_mem _ old)

end Placing

variable [LE κ] [Std.LawfulOrderLT κ]

theorem Sorted.find?_of_mem {key : κ} {value : β} {entries : List (κ × β)}
    (sorted : Sorted entries) (among : (key, value) ∈ entries) :
    find? key entries = some value := by
  induction entries with
  | nil => cases among
  | cons entry entries ih =>
      have later : ∀ other ∈ entries, entry.1 < other.1 :=
        fun other => List.rel_of_pairwise_cons sorted
      rw [find?]
      rcases List.mem_cons.mp among with rfl | among
      · rw [if_pos rfl]
      · have different : entry.1 ≠ key := by
          intro same
          exact Std.lt_irrefl (same ▸ later _ among)
        rw [if_neg different]
        exact ih sorted.of_cons among

variable [Std.IsLinearOrder κ] [DecidableLT κ]

theorem Sorted.place {entries : List (κ × β)} (sorted : Sorted entries)
    (key : κ) (combine : Option β → β) :
    Sorted (place key combine entries) := by
  induction entries with
  | nil => exact List.pairwise_singleton _ _
  | cons first entries ih =>
      obtain ⟨other, value⟩ := first
      have later : ∀ entry ∈ entries, other < entry.1 :=
        fun entry => List.rel_of_pairwise_cons sorted
      rw [SortedEntries.place]
      split
      · next less =>
          refine List.Pairwise.cons ?_ sorted
          intro entry among
          rcases List.mem_cons.mp among with rfl | among
          · exact less
          · exact Std.lt_trans less (later entry among)
      · next notLess =>
          split
          · next same =>
              subst same
              exact List.Pairwise.cons later sorted.of_cons
          · next different =>
              refine List.Pairwise.cons ?_ (ih sorted.of_cons)
              intro entry among
              rcases mem_place among with same | old
              · rcases Std.lt_trichotomy key other with less | equal | above
                · exact absurd less notLess
                · exact absurd equal.symm different
                · exact same ▸ above
              · exact later entry old

theorem Sorted.find?_place {entries : List (κ × β)} (sorted : Sorted entries)
    (key other : κ) (combine : Option β → β) :
    find? other (SortedEntries.place key combine entries) =
      if key = other then some (combine (find? key entries))
      else find? other entries := by
  induction entries with
  | nil => rfl
  | cons first entries ih =>
      obtain ⟨third, value⟩ := first
      rw [SortedEntries.place]
      split
      · next less =>
          have absent : find? key ((third, value) :: entries) = none := by
            apply find?_none
            intro entry among same
            rcases List.mem_cons.mp among with rfl | among
            · exact Std.lt_irrefl (same ▸ less)
            · have beyond : third < entry.1 :=
                List.rel_of_pairwise_cons sorted among
              exact Std.lt_irrefl (same ▸ Std.lt_trans less beyond)
          rw [absent]
          rfl
      · split
        · next same =>
            subst same
            rw [find?, find?, if_pos rfl, find?]
            split
            · rfl
            · rfl
        · next different =>
            rw [find?, ih sorted.of_cons, find?, find?, if_neg different]
            split
            · next same =>
                subst same
                rw [if_neg (Ne.symm different)]
            · rfl

/-- An entry with the largest key goes to the end. -/
theorem place_last {key : κ} {combine : Option β → β}
    {entries : List (κ × β)} (below : ∀ entry ∈ entries, entry.1 < key) :
    place key combine entries = entries ++ [(key, combine none)] := by
  induction entries with
  | nil => rfl
  | cons first entries ih =>
      obtain ⟨other, value⟩ := first
      rw [List.forall_mem_cons] at below
      have notLess : ¬ key < other :=
        fun less => Std.lt_irrefl (Std.lt_trans less below.1)
      have different : other ≠ key := by
        intro same
        exact Std.lt_irrefl (same ▸ below.1)
      rw [place, if_neg notLess, if_neg different, ih below.2]
      rfl

end SortedEntries

structure OrderedMap (κ β : Type) [LT κ] where
  entries : List (κ × β)
  sorted : SortedEntries.Sorted entries

namespace OrderedMap

@[ext] theorem ext [LT κ] {first second : OrderedMap κ β}
    (same : first.entries = second.entries) : first = second := by
  cases first
  cases second
  cases same
  rfl

def empty [LT κ] : OrderedMap κ β := ⟨[], List.Pairwise.nil⟩

def find? [LT κ] [DecidableEq κ] (map : OrderedMap κ β) (key : κ) : Option β :=
  SortedEntries.find? key map.entries

variable [LT κ] [DecidableEq κ]

def keys (map : OrderedMap κ β) : List κ := map.entries.map Prod.fst

/-- `map.erase(key)` -/
def erase (map : OrderedMap κ β) (key : κ) : OrderedMap κ β :=
  ⟨map.entries.filter (·.1 ≠ key), map.sorted.filter _⟩

theorem mem_entries_erase {map : OrderedMap κ β} {key : κ} {entry : κ × β} :
    entry ∈ (map.erase key).entries ↔ entry ∈ map.entries ∧ entry.1 ≠ key := by
  rw [erase, List.mem_filter, decide_eq_true_eq]

theorem mem_keys_erase {map : OrderedMap κ β} {key other : κ} :
    other ∈ (map.erase key).keys ↔ other ∈ map.keys ∧ other ≠ key := by
  simp only [keys, List.mem_map, mem_entries_erase]
  constructor
  · rintro ⟨entry, ⟨among, different⟩, rfl⟩
    exact ⟨⟨entry, among, rfl⟩, different⟩
  · rintro ⟨⟨entry, among, rfl⟩, different⟩
    exact ⟨entry, ⟨among, different⟩, rfl⟩

theorem length_erase_lt {map : OrderedMap κ β} {key : κ}
    (present : key ∈ map.keys) :
    (map.erase key).entries.length < map.entries.length := by
  obtain ⟨entry, among, same⟩ := List.mem_map.mp present
  apply List.length_filter_lt_length_iff_exists.mpr
  refine ⟨entry, among, ?_⟩
  rw [decide_eq_true_eq]
  exact not_not_intro same

variable [LE κ] [Std.LawfulOrderLT κ]

theorem mem_entries {map : OrderedMap κ β} {key : κ} {value : β} :
    (key, value) ∈ map.entries ↔ map.find? key = some value :=
  ⟨map.sorted.find?_of_mem, SortedEntries.mem_of_find?⟩

theorem mem_keys {map : OrderedMap κ β} {key : κ} :
    key ∈ map.keys ↔ ∃ value, map.find? key = some value := by
  rw [keys, List.mem_map]
  constructor
  · rintro ⟨⟨_, value⟩, among, rfl⟩
    exact ⟨value, mem_entries.mp among⟩
  · rintro ⟨value, found⟩
    exact ⟨(key, value), mem_entries.mpr found, rfl⟩

variable [Std.IsLinearOrder κ] [DecidableLT κ]

/-- `map.emplace(key, value)`, which keeps the entry of a key that has one. -/
def emplace (map : OrderedMap κ β) (key : κ) (value : β) : OrderedMap κ β :=
  ⟨SortedEntries.place key (·.getD value) map.entries, map.sorted.place _ _⟩

/-- `map[key] = value` -/
def assign (map : OrderedMap κ β) (key : κ) (value : β) : OrderedMap κ β :=
  ⟨SortedEntries.place key (fun _ => value) map.entries, map.sorted.place _ _⟩

/-- Each entry in turn is emplaced. -/
def emplaceAll (map : OrderedMap κ β) (entries : List (κ × β)) :
    OrderedMap κ β :=
  entries.foldl (fun map entry => map.emplace entry.1 entry.2) map

def ofList (entries : List (κ × β)) : OrderedMap κ β :=
  empty.emplaceAll entries

theorem find?_emplace (map : OrderedMap κ β) (key other : κ) (value : β) :
    (map.emplace key value).find? other =
      if key = other then some ((map.find? key).getD value)
      else map.find? other :=
  map.sorted.find?_place key other _

@[simp] theorem find?_assign (map : OrderedMap κ β) (key other : κ)
    (value : β) :
    (map.assign key value).find? other =
      if key = other then some value else map.find? other :=
  map.sorted.find?_place key other _

theorem mem_entries_emplace {map : OrderedMap κ β} {key : κ} {value : β}
    {entry : κ × β} (among : entry ∈ (map.emplace key value).entries) :
    entry = (key, value) ∨ entry ∈ map.entries := by
  obtain ⟨other, found⟩ := entry
  rw [mem_entries, find?_emplace] at among
  rw [mem_entries]
  split at among
  · next same =>
      subst same
      cases old : map.find? key with
      | none =>
          rw [old] at among
          cases among
          exact .inl rfl
      | some kept =>
          rw [old] at among
          exact .inr among
  · exact .inr among

theorem mem_entries_assign {map : OrderedMap κ β} {key : κ} {value : β}
    {entry : κ × β} (among : entry ∈ (map.assign key value).entries) :
    entry = (key, value) ∨ entry ∈ map.entries := by
  obtain ⟨other, found⟩ := entry
  rw [mem_entries, find?_assign] at among
  rw [mem_entries]
  split at among
  · next same =>
      subst same
      cases among
      exact .inl rfl
  · exact .inr among

/-- The first entry of a key counts, and one that was there before counts
most. -/
theorem find?_emplaceAll (map : OrderedMap κ β) (entries : List (κ × β))
    (key : κ) :
    (map.emplaceAll entries).find? key =
      (map.find? key).or (SortedEntries.find? key entries) := by
  induction entries generalizing map with
  | nil => exact (Option.or_none).symm
  | cons entry entries ih =>
      rw [emplaceAll, List.foldl_cons]
      refine (ih _).trans ?_
      rw [find?_emplace, SortedEntries.find?]
      split
      · next same =>
          subst same
          cases map.find? entry.1 with
          | none => rfl
          | some old => rfl
      · rfl

/-- Entries that are sorted already are taken over one behind the other. -/
theorem emplaceAll_sorted {map : OrderedMap κ β} {entries : List (κ × β)}
    (sorted : SortedEntries.Sorted (map.entries ++ entries)) :
    (map.emplaceAll entries).entries = map.entries ++ entries := by
  induction entries generalizing map with
  | nil => exact (List.append_nil _).symm
  | cons entry entries ih =>
      have below : ∀ old ∈ map.entries, old.1 < entry.1 := by
        intro old among
        exact (List.pairwise_append.mp sorted).2.2 old among entry
          List.mem_cons_self
      have placed : (map.emplace entry.1 entry.2).entries =
          map.entries ++ [entry] := SortedEntries.place_last below
      rw [emplaceAll, List.foldl_cons]
      refine (ih ?_).trans ?_
      · rw [placed, List.append_assoc]
        exact sorted
      · rw [placed, List.append_assoc]
        rfl

theorem ofList_entries (map : OrderedMap κ β) : ofList map.entries = map := by
  apply ext
  exact emplaceAll_sorted map.sorted

end OrderedMap

end TarsCpp
