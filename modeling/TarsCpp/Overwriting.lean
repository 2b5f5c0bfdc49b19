import Mathlib.Tactic

/-!
# Tables under a list of writes

The last write to a key decides what stands there.  A finite set that a function
maps onto itself, where nothing gets smaller, has no element that gets larger.
-/

namespace TarsCpp.Overwriting

variable {κ β : Type} [DecidableEq κ]

def overwrite (writes : List (κ × β)) (base : κ → Option β) : κ → Option β :=
  writes.foldl
    (fun table write => Function.update table write.1 (some write.2)) base

theorem overwrite_append (front back : List (κ × β)) (base : κ → Option β) :
    overwrite (front ++ back) base = overwrite back (overwrite front base) :=
  List.foldl_append

/-- What stands at a key has been written there, unless nothing has. -/
theorem overwrite_cases (writes : List (κ × β)) (base : κ → Option β)
    (key : κ) :
    (∃ value, (key, value) ∈ writes ∧
        overwrite writes base key = some value) ∨
      (∀ value, (key, value) ∉ writes) ∧
        overwrite writes base key = base key := by
  induction writes generalizing base with
  | nil => exact .inr ⟨fun _ => List.not_mem_nil, rfl⟩
  | cons write writes ih =>
      obtain ⟨other, text⟩ := write
      rcases ih (Function.update base other (some text)) with
        ⟨value, member, found⟩ | ⟨missing, found⟩
      · exact .inl ⟨value, List.mem_cons_of_mem _ member, found⟩
      · by_cases same : key = other
        · subst same
          refine .inl ⟨text, List.mem_cons_self, found.trans ?_⟩
          exact Function.update_self ..
        · refine .inr ⟨fun value member => ?_, found.trans ?_⟩
          · rcases List.mem_cons.mp member with here | behind
            · exact same (congrArg Prod.fst here)
            · exact missing value behind
          · exact Function.update_of_ne same _ _

/-- The writes of a whole table. -/
theorem overwrite_eq_or {writes : List (κ × β)} {table : κ → Option β}
    (same : ∀ key value, (key, value) ∈ writes ↔ table key = some value)
    (base : κ → Option β) (key : κ) :
    overwrite writes base key = (table key).or (base key) := by
  rcases overwrite_cases writes base key with
    ⟨value, member, found⟩ | ⟨missing, found⟩
  · rw [found, (same key value).mp member, Option.some_or]
  · have none : table key = none := by
      cases here : table key with
      | none => rfl
      | some value => exact absurd ((same key value).mpr here) (missing value)
    rw [found, none, Option.none_or]

theorem size_eq_of_image_eq {α : Type} [DecidableEq α] {items : Finset α}
    {move : α → α} {size : α → Nat} (same : items.image move = items)
    (grows : ∀ item ∈ items, size item ≤ size (move item)) :
    ∀ item ∈ items, size (move item) = size item := by
  have injective : Set.InjOn move items :=
    Finset.card_image_iff.mp (by rw [same])
  have total : ∑ item ∈ items, size (move item) =
      ∑ item ∈ items, size item := by
    rw [← Finset.sum_image (f := size) injective, same]
  intro item member
  exact ((Finset.sum_eq_sum_iff_of_le grows).mp total.symm item member).symm

end TarsCpp.Overwriting
