import Mathlib.Tactic

/-!
# Insertion into an ordered list

Insertion as ordered containers do it: before the first larger element, and not
at all where an equivalent one stands already.  Of the order only its asymmetry
is used.
-/

namespace TarsCpp.KeyedInsertion

variable {α : Type} {less : α → α → Bool} {item : α}
variable {acc items start listed : List α}

def insertOnce (less : α → α → Bool) (item : α) : List α → List α
  | [] => [item]
  | first :: rest =>
      if less first item then
        first :: insertOnce less item rest
      else if less item first then
        item :: first :: rest
      else
        first :: rest

def insertAll (less : α → α → Bool) (start listed : List α) : List α :=
  listed.foldl (fun acc item => insertOnce less item acc) start

theorem insertAll_append (less : α → α → Bool) (start listed more : List α) :
    insertAll less start (listed ++ more) =
      insertAll less (insertAll less start listed) more :=
  List.foldl_append

/-- What is there stays there. -/
theorem subset_insertOnce (less : α → α → Bool) (item : α) (acc : List α) :
    acc ⊆ insertOnce less item acc := by
  induction acc with
  | nil => exact List.nil_subset _
  | cons first rest induction =>
      rw [insertOnce]
      split
      · apply List.cons_subset_cons
        exact induction
      · split
        · exact List.subset_cons_self _ _
        · exact List.Subset.refl _

theorem subset_insertAll (less : α → α → Bool) (start listed : List α) :
    start ⊆ insertAll less start listed := by
  induction listed generalizing start with
  | nil => exact List.Subset.refl _
  | cons item listed induction =>
      apply List.Subset.trans (subset_insertOnce less item start)
      exact induction _

section Sorted

variable (asymm : ∀ a b, less a b → ¬ less b a)
include asymm

theorem less_irrefl (a : α) : ¬ less a a := fun holds => asymm a a holds holds

/-- An element of a sorted list goes to its place in a part of that list. -/
theorem insertOnce_sublist (sorted : items.Pairwise fun a b => less a b)
    (within : acc.Sublist items) (among : item ∈ items) :
    (insertOnce less item acc).Sublist items ∧
      item ∈ insertOnce less item acc := by
  induction within with
  | slnil => cases among
  | @cons acc rest first within induction =>
      obtain ⟨below, sortedRest⟩ := List.pairwise_cons.mp sorted
      rcases List.mem_cons.mp among with rfl | later
      · have front : insertOnce less item acc = item :: acc := by
          cases acc with
          | nil => rfl
          | cons other others =>
              have larger := below other (within.subset List.mem_cons_self)
              rw [insertOnce, if_neg (asymm _ _ larger), if_pos larger]
        rw [front]
        exact ⟨within.cons_cons item, List.mem_cons_self⟩
      · obtain ⟨sublist, member⟩ := induction sortedRest later
        exact ⟨sublist.cons first, member⟩
  | @cons_cons acc rest first within induction =>
      obtain ⟨below, sortedRest⟩ := List.pairwise_cons.mp sorted
      rcases List.mem_cons.mp among with rfl | later
      · have alone := less_irrefl asymm item
        rw [insertOnce, if_neg alone, if_neg alone]
        exact ⟨within.cons_cons item, List.mem_cons_self⟩
      · obtain ⟨sublist, member⟩ := induction sortedRest later
        rw [insertOnce, if_pos (below item later)]
        exact ⟨sublist.cons_cons first, List.mem_cons_of_mem _ member⟩

theorem insertAll_sublist (sorted : items.Pairwise fun a b => less a b)
    (within : start.Sublist items) (among : listed ⊆ items) :
    (insertAll less start listed).Sublist items ∧
      listed ⊆ insertAll less start listed := by
  induction listed generalizing start with
  | nil => exact ⟨within, List.nil_subset _⟩
  | cons item listed induction =>
      obtain ⟨here, later⟩ := List.cons_subset.mp among
      obtain ⟨sublist, member⟩ :=
        insertOnce_sublist asymm sorted within here
      obtain ⟨whole, others⟩ := induction sublist later
      refine ⟨whole, List.cons_subset.mpr ⟨?_, others⟩⟩
      exact subset_insertAll less _ listed member

/-- Of two sorted lists the smaller is a part of the larger. -/
theorem sublist_of_subset (sorted : acc.Pairwise fun a b => less a b)
    (sortedItems : items.Pairwise fun a b => less a b)
    (subset : acc ⊆ items) : acc.Sublist items := by
  induction items generalizing acc with
  | nil =>
      rw [List.subset_nil.mp subset]
  | cons first rest induction =>
      obtain ⟨below, sortedRest⟩ := List.pairwise_cons.mp sortedItems
      cases acc with
      | nil => exact List.nil_sublist _
      | cons head tail =>
          obtain ⟨above, sortedTail⟩ := List.pairwise_cons.mp sorted
          obtain ⟨here, later⟩ := List.cons_subset.mp subset
          rcases List.mem_cons.mp here with rfl | behind
          · apply List.Sublist.cons_cons
            apply induction sortedTail sortedRest
            intro other member
            rcases List.mem_cons.mp (later member) with rfl | found
            · exact absurd (above _ member) (less_irrefl asymm _)
            · exact found
          · apply List.Sublist.cons
            apply induction sorted sortedRest
            apply List.cons_subset.mpr
            refine ⟨behind, ?_⟩
            intro other member
            rcases List.mem_cons.mp (later member) with rfl | found
            · exact absurd (above _ member) (asymm _ _ (below _ behind))
            · exact found

theorem eq_of_sublist (sorted : items.Pairwise fun a b => less a b)
    (within : acc.Sublist items) (all : items ⊆ acc) : acc = items := by
  induction within with
  | slnil => rfl
  | @cons acc rest first within induction =>
      obtain ⟨below, _⟩ := List.pairwise_cons.mp sorted
      have twice := within.subset (List.cons_subset.mp all).1
      exact absurd (below first twice) (less_irrefl asymm first)
  | @cons_cons acc rest first within induction =>
      obtain ⟨below, sortedRest⟩ := List.pairwise_cons.mp sorted
      have others : rest ⊆ acc := by
        intro other member
        rcases List.mem_cons.mp (all (List.mem_cons_of_mem _ member)) with
          rfl | found
        · exact absurd (below _ member) (less_irrefl asymm _)
        · exact found
      rw [induction sortedRest others]

/-- The elements of a sorted list, inserted in any order, make up that list
exactly if nothing else was there before. -/
theorem insertAll_eq_iff (sortedStart : start.Pairwise fun a b => less a b)
    (sorted : items.Pairwise fun a b => less a b)
    (listing : listed.Perm items) :
    insertAll less start listed = items ↔ start ⊆ items := by
  constructor
  · rintro rfl
    exact subset_insertAll less start listed
  · intro subset
    have within := sublist_of_subset asymm sortedStart sorted subset
    obtain ⟨sublist, members⟩ :=
      insertAll_sublist asymm sorted within listing.subset
    apply eq_of_sublist asymm sorted sublist
    exact List.Subset.trans listing.symm.subset members

end Sorted

end TarsCpp.KeyedInsertion
