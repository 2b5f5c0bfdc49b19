import TarsCpp.Json.KeyTexts
import TarsCpp.Json.RoundTrip
import TarsCpp.Json.Typed

/-!
# Typed round trip

`readJson` of what `writeJson` has made gives the value back if its
enumerators and the keys of its maps come back and if the previous content of
the target is part of the value: sets and maps are not cleared.  Nothing less
is enough for a fresh target and the given one.
-/

namespace TarsCpp.Json

variable {double : Type}

section Containers

variable {β κ : Type} {p : JsonValuePtr double}

theorem ok_of_bind {γ : Type} {first : Except Failure β}
    {next : β → Except Failure γ} {last : γ}
    (done : (first >>= next) = .ok last) :
    ∃ value, first = .ok value ∧ next value = .ok last := by
  cases first with
  | error failure => cases done
  | ok value => exact ⟨value, rfl, done⟩

theorem readEach_restores
    {read : β → JsonValuePtr double → Except Failure β} {fresh : β}
    {write : β → JsonValuePtr double} {v x : List β}
    (alone : ∀ new ∈ v, read fresh (write new) = .ok new)
    (upon : ∀ (i : ℕ) (old new : β), x[i]? = some old → v[i]? = some new →
      read old (write new) = .ok new) :
    readEach read fresh x (v.map write) = .ok v := by
  induction v generalizing x with
  | nil => rfl
  | cons new v ih =>
      have first : read (x.headD fresh) (write new) = .ok new := by
        cases x with
        | nil => exact alone new List.mem_cons_self
        | cons old x => exact upon 0 old new rfl rfl
      have rest := @ih x.tail
        (fun other among => alone other (List.mem_cons_of_mem _ among))
        (fun i old other here there => upon (i + 1) old other
          (by rw [← List.getElem?_tail]; exact here) there)
      rw [List.map_cons, readEach, first]
      simp only [bind, Except.bind, rest]
      rfl

/-- What has been read upon the elements that were there. -/
theorem readEach_reads
    {read : β → JsonValuePtr double → Except Failure β} {fresh : β}
    {write : β → JsonValuePtr double} {v x u : List β}
    (done : readEach read fresh x (v.map write) = .ok u) :
    u.length = v.length ∧ ∀ (i : ℕ) (new back : β), v[i]? = some new →
      u[i]? = some back →
      read (x[i]?.getD fresh) (write new) = .ok back := by
  induction v generalizing x u with
  | nil =>
      cases done
      exact ⟨rfl, fun i new back none_ => by cases none_⟩
  | cons new v ih =>
      rw [List.map_cons, readEach] at done
      obtain ⟨first, read_, done⟩ := ok_of_bind done
      obtain ⟨rest, tail, done⟩ := ok_of_bind done
      cases done
      obtain ⟨length, each⟩ := ih tail
      refine ⟨congrArg Nat.succ length, ?_⟩
      intro i other back here there
      cases i with
      | zero =>
          cases here
          cases there
          cases x with
          | nil => exact read_
          | cons old x => exact read_
      | succ i =>
          have later := each i other back here there
          rwa [List.getElem?_tail] at later

theorem readInsert_reads [DecidableEq β]
    {read : JsonValuePtr double → Except Failure β} {v u : Finset β}
    {value : List (JsonValuePtr double)}
    (done : readInsert read v value = .ok u) :
    v ⊆ u ∧ (∀ back ∈ u, back ∈ v ∨ ∃ p ∈ value, read p = .ok back) ∧
      ∀ p ∈ value, ∃ back ∈ u, read p = .ok back := by
  induction value generalizing v with
  | nil =>
      cases done
      exact ⟨subset_rfl, fun back among => .inl among,
        fun p none_ => by cases none_⟩
  | cons p value ih =>
      rw [readInsert] at done
      obtain ⟨t, read_, done⟩ := ok_of_bind done
      obtain ⟨kept, only, all⟩ := ih done
      refine ⟨(Finset.subset_insert t v).trans kept, ?_, ?_⟩
      · intro back among
        rcases only back among with old | ⟨q, among', read'⟩
        · rcases Finset.mem_insert.mp old with rfl | old
          · exact .inr ⟨p, List.mem_cons_self, read_⟩
          · exact .inl old
        · exact .inr ⟨q, List.mem_cons_of_mem _ among', read'⟩
      · intro q among
        rcases List.mem_cons.mp among with rfl | among
        · exact ⟨t, kept (Finset.mem_insert_self t v), read_⟩
        · exact all q among

theorem readInsert_succeeds [DecidableEq β]
    {read : JsonValuePtr double → Except Failure β} (v : Finset β)
    {value : List (JsonValuePtr double)}
    (each : ∀ p ∈ value, ∃ back, read p = .ok back) :
    ∃ u, readInsert read v value = .ok u := by
  induction value generalizing v with
  | nil => exact ⟨v, rfl⟩
  | cons p value ih =>
      obtain ⟨t, read_⟩ := each p List.mem_cons_self
      obtain ⟨u, rest⟩ := ih (insert t v)
        fun q among => each q (List.mem_cons_of_mem _ among)
      refine ⟨u, ?_⟩
      rw [readInsert, read_]
      exact rest

theorem readPairs_reads [DecidableEq κ]
    {readKey : List UInt8 → Except Failure κ}
    {read : JsonValuePtr double → Except Failure β}
    {m u : Finmap fun _ : κ => β} {value : Entries double}
    (done : readPairs readKey read m value = .ok u) :
    (∀ first second, m.lookup first = some second →
      u.lookup first = some second) ∧
    (∀ first second, u.lookup first = some second →
      m.lookup first = some second ∨
      ∃ entry ∈ value, readKey entry.1 = .ok first ∧
        read entry.2 = .ok second) ∧
    ∀ entry ∈ value, ∃ first ∈ u, readKey entry.1 = .ok first := by
  induction value generalizing m with
  | nil =>
      cases done
      exact ⟨fun first second found => found,
        fun first second found => .inl found, fun entry none_ => by cases none_⟩
  | cons entry value ih =>
      rw [readPairs] at done
      obtain ⟨first, readKey_, done⟩ := ok_of_bind done
      obtain ⟨second, read_, done⟩ := ok_of_bind done
      obtain ⟨kept, only, all⟩ := ih done
      by_cases present : first ∈ m
      · rw [if_pos present] at kept only
        refine ⟨kept, ?_, ?_⟩
        · intro first' second' found
          rcases only first' second' found with old | ⟨other, among, reads⟩
          · exact .inl old
          · exact .inr ⟨other, List.mem_cons_of_mem _ among, reads⟩
        · intro other among
          rcases List.mem_cons.mp among with rfl | among
          · obtain ⟨old, found⟩ := Finmap.mem_iff.mp present
            exact ⟨first, Finmap.mem_iff.mpr ⟨old, kept first old found⟩,
              readKey_⟩
          · exact all other among
      · rw [if_neg present] at kept only
        have new_ := kept first second (Finmap.lookup_insert m)
        refine ⟨?_, ?_, ?_⟩
        · intro first' second' found
          apply kept
          rw [Finmap.lookup_insert_of_ne]
          · exact found
          · rintro rfl
            exact present (Finmap.mem_iff.mpr ⟨second', found⟩)
        · intro first' second' found
          rcases only first' second' found with old | ⟨other, among, reads⟩
          · by_cases same : first' = first
            · subst same
              rw [Finmap.lookup_insert] at old
              cases old
              exact .inr ⟨entry, List.mem_cons_self, readKey_, read_⟩
            · rw [Finmap.lookup_insert_of_ne m same] at old
              exact .inl old
          · exact .inr ⟨other, List.mem_cons_of_mem _ among, reads⟩
        · intro other among
          rcases List.mem_cons.mp among with rfl | among
          · exact ⟨first, Finmap.mem_iff.mpr ⟨second, new_⟩, readKey_⟩
          · exact all other among

theorem readPairs_succeeds [DecidableEq κ]
    {readKey : List UInt8 → Except Failure κ}
    {read : JsonValuePtr double → Except Failure β}
    (m : Finmap fun _ : κ => β) {value : Entries double}
    (each : ∀ entry ∈ value, (∃ first, readKey entry.1 = .ok first) ∧
      ∃ second, read entry.2 = .ok second) :
    ∃ u, readPairs readKey read m value = .ok u := by
  induction value generalizing m with
  | nil => exact ⟨m, rfl⟩
  | cons entry value ih =>
      obtain ⟨⟨first, readKey_⟩, second, read_⟩ :=
        each entry List.mem_cons_self
      obtain ⟨u, rest⟩ := ih
        (if first ∈ m then m else m.insert first second)
        fun other among => each other (List.mem_cons_of_mem _ among)
      refine ⟨u, ?_⟩
      rw [readPairs, readKey_]
      simp only [bind, Except.bind, read_]
      exact rest

end Containers

section Objects

/-- The entries of an object are among those that are inserted, and no key is
missing. -/
theorem insertAll_entries (value inserted : Entries double) :
    (∀ entry ∈ inserted.foldl Entries.insert value,
      entry ∈ value ∨ entry ∈ inserted) ∧
    ∀ entry ∈ value ++ inserted,
      entry.1 ∈ (inserted.foldl Entries.insert value).keys := by
  induction inserted generalizing value with
  | nil =>
      refine ⟨fun entry among => .inl among, ?_⟩
      intro entry among
      rw [List.append_nil] at among
      exact List.mem_map_of_mem among
  | cons first inserted ih =>
      rw [List.foldl_cons]
      obtain ⟨only, all⟩ := ih (value.insert first)
      refine ⟨?_, ?_⟩
      · intro entry among
        rcases only entry among with old | later
        · rw [Entries.insert] at old
          split at old
          · exact .inl old
          · rcases List.mem_append.mp old with old | new_
            · exact .inl old
            · rw [List.mem_singleton] at new_
              exact .inr (new_ ▸ List.mem_cons_self)
        · exact .inr (List.mem_cons_of_mem _ later)
      · intro entry among
        by_cases present : value.keys.contains first.1
        · rw [Entries.insert, if_pos present] at all ⊢
          rcases List.mem_append.mp among with old | later
          · exact all entry (List.mem_append_left _ old)
          · rcases List.mem_cons.mp later with rfl | later
            · have listed := List.contains_iff_mem.mp present
              obtain ⟨other, among', same⟩ := List.mem_map.mp listed
              rw [← same]
              exact all other (List.mem_append_left _ among')
            · exact all entry (List.mem_append_right _ later)
        · rw [Entries.insert, if_neg present] at all ⊢
          apply all
          rw [List.append_assoc]
          exact among

theorem mem_elements (iteration : Iteration double) {type : Ty}
    {values : Finset type.Value} {value : type.Value} :
    value ∈ iteration.elements type values ↔ value ∈ values := by
  rw [← Multiset.mem_coe, iteration.elements_val, Finset.mem_val]

theorem mem_pairs (iteration : Iteration double) {key : Key} {element : Ty}
    {values : Finmap fun _ : key.Value => element.Value}
    {pair : Σ _ : key.Value, element.Value} :
    pair ∈ iteration.pairs key element values ↔
      values.lookup pair.1 = some pair.2 := by
  rw [← Multiset.mem_coe, iteration.pairs_entries, Finmap.lookup_eq_some_iff]

/-- The object of a map has an entry for each key. -/
theorem object_entries (iteration : Iteration double) {key : Key}
    {element : Ty} (m : Finmap fun _ : key.Value => element.Value)
    (write : element.Value → JsonValuePtr double) {value : Entries double}
    (made : value = iteration.entries
      ((iteration.pairs key element m).foldl (fun value pair =>
        Entries.insert value (key.tostr pair.1, write pair.2)) [])) :
    (∀ entry ∈ value, ∃ first second, m.lookup first = some second ∧
      entry = (key.tostr first, write second)) ∧
    ∀ first second, m.lookup first = some second →
      ∃ entry ∈ value, entry.1 = key.tostr first := by
  have folded : (iteration.pairs key element m).foldl (fun value pair =>
      Entries.insert value (key.tostr pair.1, write pair.2)) [] =
        ((iteration.pairs key element m).map fun pair =>
          (key.tostr pair.1, write pair.2)).foldl Entries.insert [] := by
    rw [List.foldl_map]
  obtain ⟨only, all⟩ := insertAll_entries []
    ((iteration.pairs key element m).map fun pair =>
      (key.tostr pair.1, write pair.2))
  rw [folded] at made
  have members : ∀ entry, entry ∈ value ↔
      entry ∈ ((iteration.pairs key element m).map fun pair =>
        (key.tostr pair.1, write pair.2)).foldl Entries.insert [] := by
    intro entry
    rw [made]
    exact (iteration.entries_perm _).mem_iff
  constructor
  · intro entry among
    rcases only entry ((members entry).mp among) with none_ | inserted
    · cases none_
    · obtain ⟨pair, among', rfl⟩ := List.mem_map.mp inserted
      exact ⟨pair.1, pair.2, (mem_pairs iteration).mp among', rfl⟩
  · intro first second found
    have among : (⟨first, second⟩ : Σ _ : key.Value, element.Value) ∈
        iteration.pairs key element m := (mem_pairs iteration).mpr found
    have listed := all (key.tostr first, write second)
      (List.mem_map_of_mem among)
    obtain ⟨entry, among', same⟩ := List.mem_map.mp listed
    exact ⟨entry, (members entry).mpr among', same⟩

end Objects

namespace Ty

/-- `int` holds the enumerators, and the keys of maps come back. -/
def Fits : (type : Ty) → type.Value → Prop
  | bool, _ | integer _, _ | string, _ => True
  | enum underlying, (v : BitVec underlying.width) =>
      underlying.width ≤ 32 ∨
        -2147483648 ≤ v.toInt ∧ v.toInt < 2147483648
  | vector element, (v : List element.Value) => ∀ x ∈ v, element.Fits x
  | set element, (v : Finset element.Value)
  | unorderedSet element, (v : Finset element.Value) =>
      ∀ x ∈ v, element.Fits x
  | map container key element, (m : Finmap fun _ : key.Value => element.Value)
      => ∀ first second, m.lookup first = some second →
        key.Fits container first ∧ element.Fits second

/-- The sets and the maps of the content `x` are parts of those of `v`. -/
def Merges : (type : Ty) → (x v : type.Value) → Prop
  | bool, _, _ | integer _, _, _ | enum _, _, _ | string, _, _ => True
  | vector element, (x : List element.Value), (v : List element.Value) =>
      ∀ (i : ℕ) (old new : element.Value),
        x[i]? = some old → v[i]? = some new → element.Merges old new
  | set element, x, v | unorderedSet element, x, v =>
      let items (s : Finset element.Value) := s
      items x ⊆ items v
  | map _ key element, x, v =>
      let content (m : Finmap fun _ : key.Value => element.Value) := m.lookup
      ∀ first second, content x first = some second →
        content v first = some second

theorem fresh_merges (type : Ty) (v : type.Value) :
    type.Merges type.fresh v := by
  cases type with
  | bool => trivial
  | integer type => trivial
  | enum underlying => trivial
  | string => trivial
  | vector element =>
      intro i old new none_
      cases none_
  | set element => exact Finset.empty_subset v
  | unorderedSet element => exact Finset.empty_subset v
  | map container key element =>
      intro first second none_
      cases none_

end Ty

section Parts

variable {β : Type}

/-- A set is read upon a part of it. -/
theorem readInsert_restores [DecidableEq β]
    {read : JsonValuePtr double → Except Failure β}
    {write : β → JsonValuePtr double} {x v : Finset β} {items : List β}
    (members : ∀ item, item ∈ items ↔ item ∈ v)
    (alone : ∀ item ∈ v, read (write item) = .ok item) (part : x ⊆ v) :
    readInsert read x (items.map write) = .ok v := by
  have each : ∀ p ∈ items.map write, ∃ back, read p = .ok back := by
    intro p among
    obtain ⟨item, among', rfl⟩ := List.mem_map.mp among
    exact ⟨item, alone item ((members item).mp among')⟩
  obtain ⟨u, done⟩ := readInsert_succeeds x each
  obtain ⟨kept, only, all⟩ := readInsert_reads done
  rw [done]
  congr 1
  apply Finset.Subset.antisymm
  · intro back among
    rcases only back among with old | ⟨p, listed, read_⟩
    · exact part old
    · obtain ⟨item, among', rfl⟩ := List.mem_map.mp listed
      have inside := (members item).mp among'
      rw [alone item inside] at read_
      exact Except.ok.inj read_ ▸ inside
  · intro item among
    obtain ⟨back, among', read_⟩ :=
      all (write item) (List.mem_map_of_mem ((members item).mpr among))
    rw [alone item among] at read_
    exact Except.ok.inj read_ ▸ among'

/-- What is read of a set has been in the target or is read of its items. -/
theorem readInsert_items [DecidableEq β]
    {read : JsonValuePtr double → Except Failure β}
    {write : β → JsonValuePtr double} {x v u : Finset β} {items : List β}
    (members : ∀ item, item ∈ items ↔ item ∈ v)
    (done : readInsert read x (items.map write) = .ok u) :
    x ⊆ u ∧ ∀ back ∈ u, back ∈ x ∨ ∃ item ∈ v, read (write item) = .ok back := by
  obtain ⟨kept, only, -⟩ := readInsert_reads done
  refine ⟨kept, ?_⟩
  intro back among
  rcases only back among with old | ⟨p, listed, read_⟩
  · exact .inl old
  · obtain ⟨item, among', rfl⟩ := List.mem_map.mp listed
    exact .inr ⟨item, (members item).mp among', read_⟩

variable {container : Container} {key : Key} {element : Ty}
  {read : JsonValuePtr double → Except Failure element.Value}
  {write : element.Value → JsonValuePtr double}
  {x m u : Finmap fun _ : key.Value => element.Value} {value : Entries double}

theorem readPairs_restores
    (entries : (∀ entry ∈ value, ∃ first second,
        m.lookup first = some second ∧
        entry = (key.tostr first, write second)) ∧
      ∀ first second, m.lookup first = some second →
        ∃ entry ∈ value, entry.1 = key.tostr first)
    (keys : ∀ first second, m.lookup first = some second →
      key.read container (key.tostr first) = .ok first)
    (alone : ∀ first second, m.lookup first = some second →
      read (write second) = .ok second)
    (part : ∀ first second, x.lookup first = some second →
      m.lookup first = some second) :
    readPairs (key.read container) read x value = .ok m := by
  have each : ∀ entry ∈ value,
      (∃ first, key.read container entry.1 = .ok first) ∧
        ∃ second, read entry.2 = .ok second := by
    intro entry among
    obtain ⟨first, second, found, rfl⟩ := entries.1 entry among
    exact ⟨⟨first, keys first second found⟩,
      ⟨second, alone first second found⟩⟩
  obtain ⟨u, done⟩ := readPairs_succeeds x each
  obtain ⟨kept, only, all⟩ := readPairs_reads done
  have sound : ∀ first second, u.lookup first = some second →
      m.lookup first = some second := by
    intro first second found
    rcases only first second found with old | ⟨entry, among, reads⟩
    · exact part first second old
    · obtain ⟨first', second', found', rfl⟩ := entries.1 entry among
      rw [keys first' second' found'] at reads
      rw [alone first' second' found'] at reads
      rw [← Except.ok.inj reads.1, ← Except.ok.inj reads.2]
      exact found'
  rw [done]
  congr 1
  apply Finmap.ext_lookup
  intro first
  cases found : u.lookup first with
  | some second => exact (sound first second found).symm
  | none =>
      cases missing : m.lookup first with
      | none => rfl
      | some second =>
          obtain ⟨entry, among, text⟩ := entries.2 first second missing
          obtain ⟨first', inside, back⟩ := all entry among
          rw [text, keys first second missing] at back
          rw [← Except.ok.inj back] at inside
          obtain ⟨second', found'⟩ := Finmap.mem_iff.mp inside
          rw [found] at found'
          cases found'

theorem readPairs_items
    (entries : ∀ entry ∈ value, ∃ first second,
      m.lookup first = some second ∧ entry = (key.tostr first, write second))
    (done : readPairs (key.read container) read x value = .ok u) :
    (∀ first second, x.lookup first = some second →
      u.lookup first = some second) ∧
    ∀ first second, u.lookup first = some second →
      x.lookup first = some second ∨
      ∃ first' second', m.lookup first' = some second' ∧
        key.read container (key.tostr first') = .ok first ∧
        read (write second') = .ok second := by
  obtain ⟨kept, only, -⟩ := readPairs_reads done
  refine ⟨kept, ?_⟩
  intro first second found
  rcases only first second found with old | ⟨entry, among, reads⟩
  · exact .inl old
  · obtain ⟨first', second', found', rfl⟩ := entries entry among
    exact .inr ⟨first', second', found', reads⟩

end Parts

section RoundTrip

variable [FloatingPoint double] (iteration : Iteration double)

/-- What has been written and merges with the target is read. -/
theorem readValue_restores {type : Ty} (compiles : type.compiles = true)
    {x v : type.Value} (fits : type.Fits v) (merges : type.Merges x v) :
    readValue type x (writeJson iteration type v) true = .ok v := by
  induction type with
  | bool => rfl
  | integer type =>
      have back : (BitVec.ofInt 64 (type.number v)).setWidth type.width = v :=
        (setWidth_ofInt (width_le type) _).trans (ofInt_number v)
      exact congrArg Except.ok back
  | enum underlying =>
      have back : (BitVec.ofInt 64 (asInt32 underlying v)).setWidth
          underlying.width = v :=
        (setWidth_ofInt (width_le underlying) _).trans (ofInt_toInt fits)
      exact congrArg Except.ok back
  | string => rfl
  | vector element ih =>
      change List element.Value at x v
      have each : ∀ new ∈ v, ∀ old, element.Merges old new →
          readValue element old (writeJson iteration element new) true =
            .ok new :=
        fun new among old merges' => ih compiles (fits new among) merges'
      refine @readEach_restores _ _ _ element.fresh _ v x ?_ ?_
      · intro new among
        exact each new among _ (element.fresh_merges new)
      · intro i old new here there
        exact each new (List.mem_of_getElem? there) old
          (merges i old new here there)
  | set element ih =>
      apply readInsert_restores (fun item => mem_elements iteration)
      · intro item among
        exact ih compiles (fits item among) (element.fresh_merges item)
      · exact merges
  | unorderedSet element ih =>
      apply readInsert_restores (fun item => mem_elements iteration)
      · intro item among
        exact ih compiles (fits item among) (element.fresh_merges item)
      · exact merges
  | map container key element ih =>
      obtain ⟨compiles', compiles''⟩ := Bool.and_eq_true_iff.mp compiles
      apply readPairs_restores (object_entries iteration v _ rfl)
      · intro first second found
        exact key.read_tostr compiles' (fits first second found).1
      · intro first second found
        exact ih compiles'' (fits first second found).2
          (element.fresh_merges second)
      · exact merges

/-- What has been there stays there. -/
theorem merges_of_readValue {type : Ty} {x v : type.Value}
    (done : readValue type x (writeJson iteration type v) true = .ok v) :
    type.Merges x v := by
  induction type with
  | bool => trivial
  | integer type => trivial
  | enum underlying => trivial
  | string => trivial
  | vector element ih =>
      intro i old new here there
      have read := (readEach_reads done).2 i new new there there
      rw [here] at read
      exact ih read
  | set element ih =>
      exact (readInsert_items (fun item => mem_elements iteration) done).1
  | unorderedSet element ih =>
      exact (readInsert_items (fun item => mem_elements iteration) done).1
  | map container key element ih =>
      have entries := (object_entries iteration v
        (writeJson iteration element) rfl).1
      exact (readPairs_items entries done).1

/-- What has been written and read twice fits. -/
theorem fits_of_twice {type : Ty} {v v' v'' : type.Value}
    (first : readValue type type.fresh (writeJson iteration type v) true =
      .ok v')
    (second : readValue type type.fresh (writeJson iteration type v') true =
      .ok v'') : type.Fits v'' := by
  induction type with
  | bool => trivial
  | integer type => trivial
  | enum underlying =>
      have back : ∀ {v v' : BitVec underlying.width},
          (BitVec.ofInt 64 (asInt32 underlying v)).setWidth underlying.width =
            v' →
          BitVec.ofInt underlying.width (asInt32 underlying v) = v' := by
        intro v v' same
        rwa [setWidth_ofInt (width_le underlying)] at same
      by_cases few : underlying.width ≤ 32
      · exact .inl few
      · exact .inr (cast_toInt few (back (Except.ok.inj second))).2
  | string => trivial
  | vector element ih =>
      change List element.Value at v v' v''
      obtain ⟨length, each⟩ := readEach_reads first
      obtain ⟨length', each'⟩ := readEach_reads second
      intro item among
      obtain ⟨i, found⟩ := List.mem_iff_getElem?.mp among
      have inside := (List.getElem?_eq_some_iff.mp found).1
      have found' := List.getElem?_eq_getElem (length' ▸ inside)
      have found'' := List.getElem?_eq_getElem (length ▸ length' ▸ inside)
      exact ih (each i _ _ found'' found') (each' i _ _ found' found)
  | set element ih =>
      intro item among
      have reads := (readInsert_items
        (fun item => mem_elements iteration) first).2
      have reads' := (readInsert_items
        (fun item => mem_elements iteration) second).2
      rcases reads' item among with none_ | ⟨item', among', read'⟩
      · cases none_
      · rcases reads item' among' with none_ | ⟨item'', -, read⟩
        · cases none_
        · exact ih read read'
  | unorderedSet element ih =>
      intro item among
      have reads := (readInsert_items
        (fun item => mem_elements iteration) first).2
      have reads' := (readInsert_items
        (fun item => mem_elements iteration) second).2
      rcases reads' item among with none_ | ⟨item', among', read'⟩
      · cases none_
      · rcases reads item' among' with none_ | ⟨item'', -, read⟩
        · cases none_
        · exact ih read read'
  | map container key element ih =>
      have entries := (object_entries iteration v
        (writeJson iteration element) rfl).1
      have entries' := (object_entries iteration v'
        (writeJson iteration element) rfl).1
      intro first' second' found
      rcases (readPairs_items entries' second).2 first' second' found with
        none_ | ⟨first'', second'', found', key', read'⟩
      · cases none_
      · rcases (readPairs_items entries first).2 first'' second'' found' with
          none_ | ⟨_, _, _, key_, read⟩
        · cases none_
        · exact ⟨key.fits_of_twice key_ key', ih read read'⟩

/-- A value is read back, into a fresh target and into the given one, if and
only if it fits and the given target merges with it. -/
theorem readJson_writeJson_iff (type : Ty) (x v : type.Value) :
    (readJson type type.fresh (writeJson iteration type v) true = .ok v ∧
      readJson type x (writeJson iteration type v) true = .ok v) ↔
    type.compiles = true ∧ type.Fits v ∧ type.Merges x v := by
  rw [readJson, readJson]
  constructor
  · rintro ⟨alone, upon⟩
    split at alone
    · next compiles =>
        rw [if_pos compiles] at upon
        exact ⟨compiles, fits_of_twice iteration alone alone,
          merges_of_readValue iteration upon⟩
    · cases alone
  · rintro ⟨compiles, fits, merges⟩
    rw [if_pos compiles, if_pos compiles]
    exact ⟨readValue_restores iteration compiles fits (type.fresh_merges v),
      readValue_restores iteration compiles fits merges⟩

end RoundTrip

/-- Some order. -/
noncomputable def anyOrder : Iteration (Option ℚ) where
  elements _ values := values.toList
  pairs _ _ values := values.entries.toList
  entries value := value
  elements_val _ values := values.coe_toList
  pairs_entries _ _ values := values.entries.coe_toList
  entries_perm value := List.Perm.refl value

abbrev intSet : Ty := .set (.integer .int)

abbrev charMap : Ty := .map .map (.integer .char) .bool

/-- The letter `a`. -/
def letter : charMap.Value :=
  Finmap.singleton (97 : BitVec 8) true

/-- The target of a set is not cleared, and the letter is read as 0. -/
theorem not_read_back :
    readJson intSet ({5} : Finset (BitVec 32))
        (writeJson anyOrder intSet (∅ : Finset (BitVec 32))) true ≠
      .ok (∅ : Finset (BitVec 32)) ∧
    readJson charMap charMap.fresh (writeJson anyOrder charMap letter) true ≠
      .ok letter := by
  constructor
  · intro done
    have merges : ({5} : Finset (BitVec 32)) ⊆ (∅ : Finset (BitVec 32)) :=
      merges_of_readValue anyOrder done
    have among := merges (Finset.mem_singleton_self 5)
    exact Finset.notMem_empty 5 among
  · intro done
    have fits : charMap.Fits letter := fits_of_twice anyOrder done done
    have found : Finmap.lookup (97 : BitVec 8) letter = some true :=
      Finmap.lookup_singleton_eq
    have zero : (97 : BitVec 8) = 0 := (fits (97 : BitVec 8) true found).1
    exact absurd zero (by decide)

end TarsCpp.Json
