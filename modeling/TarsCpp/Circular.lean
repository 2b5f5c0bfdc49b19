import Mathlib.Tactic

/-!
# Circular storage

A sequence of symbols laid out in `capacity` cells from a start position on,
continuing at cell zero behind the last one.  A position may also stand behind
the last cell, which denotes the same place as zero.  Nothing longer than the
capacity is laid out, so a sum of a position and an offset crosses the end at
most once.
-/

namespace TarsCpp

namespace Circular

variable {β : Type}

/-- The cell of the symbol `offset` places behind `start`. -/
def cell (capacity start offset : Nat) : Nat :=
  if start + offset < capacity then start + offset
  else start + offset - capacity

/-- The position behind `count` symbols. -/
def advance (capacity start count : Nat) : Nat :=
  if start + count ≤ capacity then start + count
  else start + count - capacity

/-- The cells from `start` on hold these symbols. -/
def Holds (capacity : Nat) (cells : Nat → β) (start : Nat)
    (symbols : List β) : Prop :=
  ∀ i (inside : i < symbols.length),
    cells (cell capacity start i) = symbols[i]

variable {capacity start : Nat} {cells : Nat → β}

theorem cell_lt {offset : Nat} (position : start ≤ capacity)
    (inside : offset < capacity) : cell capacity start offset < capacity := by
  unfold cell
  split <;> omega

theorem cell_injective {first second : Nat} (firstInside : first < capacity)
    (secondInside : second < capacity)
    (same : cell capacity start first = cell capacity start second) :
    first = second := by
  unfold cell at same
  split at same <;> split at same <;> omega

theorem cell_of_lt {offset : Nat} (below : start + offset < capacity) :
    cell capacity start offset = start + offset :=
  if_pos below

theorem cell_of_le {offset : Nat} (wrapped : capacity ≤ start + offset) :
    cell capacity start offset = start + offset - capacity :=
  if_neg (Nat.not_lt.mpr wrapped)

theorem advance_zero (position : start ≤ capacity) :
    advance capacity start 0 = start :=
  if_pos position

theorem advance_le {count : Nat} (position : start ≤ capacity)
    (bounded : count ≤ capacity) :
    advance capacity start count ≤ capacity := by
  unfold advance
  split <;> omega

theorem advance_advance {first second : Nat} (position : start ≤ capacity)
    (bounded : first + second ≤ capacity) :
    advance capacity (advance capacity start first) second =
      advance capacity start (first + second) := by
  unfold advance
  split <;> split <;> split <;> omega

/-- Only nothing and a full turn lead back to the same position. -/
theorem advance_ne_self {count : Nat} (positive : 0 < count)
    (room : count < capacity ∨ count = capacity ∧ start = 0) :
    advance capacity start count ≠ start := by
  unfold advance
  split <;> omega

theorem cell_advance {count offset : Nat} (position : start ≤ capacity)
    (bounded : count + offset < capacity) :
    cell capacity (advance capacity start count) offset =
      cell capacity start (count + offset) := by
  unfold advance cell
  split <;> split <;> split <;> omega

namespace Holds

theorem nil : Holds capacity cells start [] := by
  intro i inside
  exact absurd inside (Nat.not_lt_zero i)

theorem front {first second : List β}
    (holds : Holds capacity cells start (first ++ second)) :
    Holds capacity cells start first := by
  intro i inside
  have longer : i < (first ++ second).length := by
    rw [List.length_append]
    omega
  rw [holds i longer, List.getElem_append_left inside]

theorem back {first second : List β} (position : start ≤ capacity)
    (bounded : (first ++ second).length ≤ capacity)
    (holds : Holds capacity cells start (first ++ second)) :
    Holds capacity cells (advance capacity start first.length) second := by
  intro i inside
  rw [List.length_append] at bounded
  have longer : first.length + i < (first ++ second).length := by
    rw [List.length_append]
    omega
  rw [cell_advance position (by omega), holds _ longer,
    List.getElem_append_right (Nat.le_add_right _ _)]
  congr 1
  omega

/-- A symbol stored behind the others. -/
theorem store {symbols : List β} (room : symbols.length < capacity)
    (holds : Holds capacity cells start symbols) (symbol : β) :
    Holds capacity
      (Function.update cells (cell capacity start symbols.length) symbol)
      start (symbols ++ [symbol]) := by
  intro i inside
  by_cases latest : i = symbols.length
  · subst latest
    rw [Function.update_self, List.getElem_concat_length rfl]
  · have earlier : i < symbols.length := by
      rw [List.length_append, List.length_singleton] at inside
      omega
    have elsewhere : cell capacity start i ≠
        cell capacity start symbols.length := by
      intro same
      exact latest (cell_injective (by omega) room same)
    rw [Function.update_of_ne elsewhere, holds i earlier,
      List.getElem_append_left earlier]

/-- Consecutive cells that the layout runs through in order hold a slice of
the symbols. -/
theorem slice {first middle last : List β} {offset : Nat}
    (holds : Holds capacity cells start (first ++ (middle ++ last)))
    (aligned : ∀ i < middle.length,
      offset + i = cell capacity start (first.length + i)) :
    (List.range middle.length).map (fun i => cells (offset + i)) =
      middle := by
  apply List.ext_getElem
  · rw [List.length_map, List.length_range]
  · intro i _ inside
    have longer : first.length + i < (first ++ (middle ++ last)).length := by
      rw [List.length_append, List.length_append]
      omega
    rw [List.getElem_map, List.getElem_range, aligned i inside,
      holds _ longer, List.getElem_append_right (Nat.le_add_right _ _),
      List.getElem_append_left (by omega)]
    congr 1
    omega

end Holds

end Circular

end TarsCpp
