import Mathlib.Data.List.Basic

/-!
# Cutting a list at a symbol

The parts of a list before and behind the first, or the last, occurrence of a
symbol.  A search that finds nothing answers the length of the list.
-/

namespace TarsCpp

namespace Cutting

variable {α : Type} [DecidableEq α]

def cut (c : α) (s : List α) : Option (List α × List α) :=
  let index := s.idxOf c
  if index = s.length then none
  else some (s.take index, s.drop (index + 1))

def cutLast (c : α) (s : List α) : Option (List α × List α) :=
  (cut c s.reverse).map fun parts => (parts.2.reverse, parts.1.reverse)

variable {c : α} {s front back : List α}

theorem idxOf_append_cons (absent : c ∉ front) :
    (front ++ c :: back).idxOf c = front.length := by
  rw [List.idxOf_append_of_notMem absent, List.idxOf_cons_self, Nat.add_zero]

theorem cut_append_cons (absent : c ∉ front) :
    cut c (front ++ c :: back) = some (front, back) := by
  have found := @idxOf_append_cons α _ c front back absent
  have inside : front.length ≠ (front ++ c :: back).length := by
    rw [List.length_append, List.length_cons]
    omega
  have behind : (front ++ c :: back).drop (front.length + 1) = back := by
    rw [← List.drop_drop, List.drop_left' rfl, List.drop_one, List.tail_cons]
  simp only [cut, found]
  rw [if_neg inside, List.take_left' rfl, behind]

theorem cut_eq_none_iff : cut c s = none ↔ c ∉ s := by
  simp only [cut, List.idxOf_eq_length_iff, ite_eq_left_iff, reduceCtorEq,
    imp_false, not_not]

theorem cut_eq_some_iff :
    cut c s = some (front, back) ↔ s = front ++ c :: back ∧ c ∉ front := by
  constructor
  · intro parts
    have present : c ∈ s := by
      by_contra absent
      rw [cut_eq_none_iff.mpr absent] at parts
      cases parts
    obtain ⟨first, rest, rfl, absent⟩ :=
      List.eq_append_cons_of_mem present
    rw [cut_append_cons absent] at parts
    cases parts
    exact ⟨rfl, absent⟩
  · rintro ⟨rfl, absent⟩
    exact cut_append_cons absent

theorem cutLast_eq_none_iff : cutLast c s = none ↔ c ∉ s := by
  rw [cutLast, Option.map_eq_none_iff, cut_eq_none_iff, List.mem_reverse]

theorem cutLast_eq_some_iff :
    cutLast c s = some (front, back) ↔ s = front ++ c :: back ∧ c ∉ back := by
  rw [cutLast, Option.map_eq_some_iff]
  constructor
  · rintro ⟨⟨last, first⟩, parts, same⟩
    obtain ⟨reversed, absent⟩ := cut_eq_some_iff.mp parts
    cases same
    refine ⟨?_, by rwa [List.mem_reverse]⟩
    rw [List.reverse_eq_iff] at reversed
    rw [reversed]
    simp
  · rintro ⟨rfl, absent⟩
    refine ⟨(back.reverse, front.reverse), ?_, by simp⟩
    rw [cut_eq_some_iff]
    simpa using absent

/-- A symbol is found before another one. -/
theorem idxOf_lt_idxOf_iff {d : α} : s.idxOf c < s.idxOf d ↔
    ∃ front back, s = front ++ c :: back ∧ d ∉ front ∧ c ≠ d := by
  constructor
  · intro before
    have present : c ∈ s :=
      List.idxOf_lt_length_iff.mp
        (Nat.lt_of_lt_of_le before List.idxOf_le_length)
    obtain ⟨front, back, rfl, absent⟩ := List.eq_append_cons_of_mem present
    rw [idxOf_append_cons absent] at before
    refine ⟨front, back, rfl, ?_, ?_⟩
    · intro earlier
      have early := List.idxOf_lt_length_iff.mpr earlier
      rw [List.idxOf_append_of_mem earlier] at before
      omega
    · rintro rfl
      rw [idxOf_append_cons absent] at before
      exact Nat.lt_irrefl _ before
  · rintro ⟨front, back, rfl, absent, other⟩
    rw [List.idxOf_append_of_notMem absent, List.idxOf_cons_ne _ other]
    have found : (front ++ c :: back).idxOf c ≤ front.length := by
      rw [List.idxOf_append]
      split
      · next earlier =>
          exact Nat.le_of_lt (List.idxOf_lt_length_iff.mpr earlier)
      · exact Nat.le_of_eq (by rw [List.idxOf_cons_self, Nat.zero_add])
    omega

theorem cutLast_append_cons (absent : c ∉ back) :
    cutLast c (front ++ c :: back) = some (front, back) :=
  cutLast_eq_some_iff.mpr ⟨rfl, absent⟩

end Cutting

end TarsCpp
