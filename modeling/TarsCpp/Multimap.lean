import Mathlib.Tactic

/-!
# Sorted sequences with equal keys

The elements of a multimap in the order of their keys; a new element goes
behind those with the same key.
-/

namespace TarsCpp.Multimap

variable {α κ : Type} [LinearOrder κ]

/-- The order of the elements. -/
def Sorted (key : α → κ) (items : List α) : Prop :=
  items.Pairwise fun first second => key first ≤ key second

def insert (key : α → κ) (item : α) : List α → List α
  | [] => [item]
  | first :: items =>
      if key item < key first then
        item :: first :: items
      else
        first :: insert key item items

theorem insert_perm (key : α → κ) (item : α) (items : List α) :
    (insert key item items).Perm (item :: items) := by
  induction items with
  | nil => exact List.Perm.refl _
  | cons first items ih =>
      rw [insert]
      split
      · exact List.Perm.refl _
      · exact (ih.cons first).trans (List.Perm.swap item first items)

theorem mem_insert {key : α → κ} {item other : α} {items : List α} :
    other ∈ insert key item items ↔ other = item ∨ other ∈ items :=
  (insert_perm key item items).mem_iff.trans List.mem_cons

theorem Sorted.insert {key : α → κ} {item : α} {items : List α}
    (sorted : Sorted key items) :
    Sorted key (Multimap.insert key item items) := by
  induction items with
  | nil => exact List.pairwise_singleton _ _
  | cons first items ih =>
      obtain ⟨least, rest⟩ := List.pairwise_cons.mp sorted
      rw [Multimap.insert]
      split
      · next before =>
          refine List.pairwise_cons.mpr ⟨?_, sorted⟩
          intro other member
          rcases List.mem_cons.mp member with rfl | later
          · exact le_of_lt before
          · exact (le_of_lt before).trans (least other later)
      · next behind =>
          refine List.pairwise_cons.mpr ⟨?_, ih rest⟩
          intro other member
          rcases mem_insert.mp member with rfl | later
          · exact not_lt.mp behind
          · exact least other later

/-- Taking elements out keeps the order. -/
theorem Sorted.filter {key : α → κ} {items : List α}
    (sorted : Sorted key items) (keep : α → Bool) :
    Sorted key (items.filter keep) :=
  List.Pairwise.filter keep sorted

/-- From an element on no key is smaller. -/
theorem Sorted.le_of_split {key : α → κ} {before behind : List α} {item : α}
    (sorted : Sorted key (before ++ item :: behind)) :
    ∀ other ∈ behind, key item ≤ key other :=
  (List.pairwise_cons.mp (List.pairwise_append.mp sorted).2.1).1

/-- In front of all larger keys an element becomes the first one. -/
theorem insert_least {key : α → κ} {item : α} {items : List α}
    (larger : ∀ other ∈ items, key item < key other) :
    insert key item items = item :: items := by
  cases items with
  | nil => rfl
  | cons first items => rw [insert, if_pos (larger first List.mem_cons_self)]

/-- The only element with its key can be taken out and put in again. -/
theorem insert_filter [DecidableEq κ] {key : α → κ} {item : α} {items : List α}
    (sorted : Sorted key items)
    (single : items.filter (fun other => key other = key item) = [item]) :
    insert key item (items.filter fun other => key other ≠ key item) =
      items := by
  induction items with
  | nil => cases single
  | cons first items ih =>
      obtain ⟨least, sorted⟩ := List.pairwise_cons.mp sorted
      by_cases same : key first = key item
      · rw [List.filter_cons_of_pos (by simpa using same)] at single
        injection single with here others
        subst here
        have apart : ∀ other ∈ items, key other ≠ key first := by
          intro other member equal
          exact List.filter_eq_nil_iff.mp others other member (by simpa using equal)
        have kept : items.filter (fun other => key other ≠ key first) = items :=
          List.filter_eq_self.mpr fun other member => by
            simpa using apart other member
        rw [List.filter_cons_of_neg (by simp), kept]
        apply insert_least
        intro other member
        exact lt_of_le_of_ne (least other member) (apart other member).symm
      · rw [List.filter_cons_of_neg (by simpa using same)] at single
        have listed : item ∈ items := by
          apply List.mem_of_mem_filter
          rw [single]
          exact List.mem_singleton_self item
        have behind : ¬ key item < key first := not_lt.mpr (least item listed)
        rw [List.filter_cons_of_pos (by simpa using same), insert,
          if_neg behind, ih sorted single]

end TarsCpp.Multimap
