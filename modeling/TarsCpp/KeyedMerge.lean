import Mathlib.Tactic
import Mathlib.Data.List.AList

/-!
# Merging tables

The entries of one table are merged into another one after the other, each at
a place of its own.  What is found at a place depends on one entry of each
table.
-/

namespace TarsCpp.KeyedMerge

variable {κ ι β γ : Type} [DecidableEq κ]

/-- Finitely many entries under different keys. -/
abbrev Table (κ β : Type) : Type := AList fun _ : κ => β

/-- The entry of a key, made of what was there before. -/
def upsert (change : Option β → β) (key : κ) (table : Table κ β) : Table κ β :=
  table.insert key (change (table.lookup key))

theorem lookup_upsert (change : Option β → β) (key : κ) (table : Table κ β) :
    (upsert change key table).lookup key = some (change (table.lookup key)) :=
  AList.lookup_insert table

theorem lookup_upsert_ne {key other : κ} (different : other ≠ key)
    (change : Option β → β) (table : Table κ β) :
    (upsert change key table).lookup other = table.lookup other :=
  AList.lookup_insert_ne different

/-- Each entry is merged in at its place. -/
def mergeInto (place : ι → κ) (change : γ → Option β → β)
    (entries : List ((_ : ι) × γ)) (table : Table κ β) : Table κ β :=
  entries.foldl
    (fun table entry => upsert (change entry.2) (place entry.1) table) table

section Lookup

variable {place : ι → κ} {change : γ → Option β → β}

/-- A place that no entry has is left alone. -/
theorem lookup_mergeInto_other {entries : List ((_ : ι) × γ)} {key : κ}
    (elsewhere : ∀ entry ∈ entries, place entry.1 ≠ key)
    (table : Table κ β) :
    (mergeInto place change entries table).lookup key = table.lookup key := by
  induction entries generalizing table with
  | nil => rfl
  | cons entry entries ih =>
      have here : key ≠ place entry.1 := (elsewhere entry (by simp)).symm
      rw [mergeInto, List.foldl_cons, ← mergeInto,
        ih fun entry member => elsewhere entry (List.mem_cons_of_mem _ member),
        lookup_upsert_ne here]

theorem lookup_mergeInto_entries [DecidableEq ι]
    (injective : Function.Injective place)
    {entries : List ((_ : ι) × γ)} (nodup : entries.NodupKeys) (key : ι)
    (table : Table κ β) :
    (mergeInto place change entries table).lookup (place key) =
      (entries.dlookup key).elim (table.lookup (place key))
        fun value => some (change value (table.lookup (place key))) := by
  induction entries generalizing table with
  | nil => rfl
  | cons entry entries ih =>
      obtain ⟨key', value⟩ := entry
      obtain ⟨fresh, nodup'⟩ := List.nodupKeys_cons.mp nodup
      by_cases same : key = key'
      · subst key'
        have elsewhere : ∀ entry ∈ entries, place entry.1 ≠ place key := by
          intro entry member equal
          have there : entry.1 ∈ entries.keys := List.mem_map_of_mem member
          rw [injective equal] at there
          exact fresh there
        rw [mergeInto, List.foldl_cons, ← mergeInto,
          lookup_mergeInto_other elsewhere, lookup_upsert,
          List.dlookup_cons_eq, Option.elim_some]
      · have different : place key ≠ place key' :=
          fun equal => same (injective equal)
        rw [mergeInto, List.foldl_cons, ← mergeInto, ih nodup',
          lookup_upsert_ne different,
          List.dlookup_cons_ne entries ⟨key', value⟩ same]

/-- What is found where an entry of the table belongs. -/
theorem lookup_mergeInto [DecidableEq ι] (change : γ → Option β → β)
    (injective : Function.Injective place) (source : Table ι γ) (key : ι) (table : Table κ β) :
    (mergeInto place change source.entries table).lookup (place key) =
      (source.lookup key).elim (table.lookup (place key))
        fun value => some (change value (table.lookup (place key))) :=
  lookup_mergeInto_entries injective source.nodupKeys key table

/-- The tables have the same keys. -/
theorem lookup_mergeInto_at (change : γ → Option β → β) (source : Table κ γ)
    (key : κ) (table : Table κ β) :
    (mergeInto id change source.entries table).lookup key =
      (source.lookup key).elim (table.lookup key)
        fun value => some (change value (table.lookup key)) :=
  lookup_mergeInto change Function.injective_id source key table

end Lookup

end TarsCpp.KeyedMerge
