import Mathlib.Tactic

/-!
# Sequences cut into segments

A list of places, each of which holds a part of one sequence.  The parts may
be empty.
-/

namespace TarsCpp

variable {ι α : Type}

/-- `places` hold `whole` one after the other. -/
inductive Segments (holds : ι → List α → Prop) : List ι → List α → Prop
  | nil : Segments holds [] []
  | cons {place part places rest} :
      holds place part → Segments holds places rest →
      Segments holds (place :: places) (part ++ rest)

namespace Segments

variable {holds holds' : ι → List α → Prop}

theorem one {place : ι} {part : List α} (held : holds place part) :
    Segments holds [place] part := by
  have single : Segments holds [place] (part ++ []) := .cons held .nil
  rwa [List.append_nil] at single

theorem append {places places' : List ι} {whole whole' : List α}
    (front : Segments holds places whole)
    (back : Segments holds places' whole') :
    Segments holds (places ++ places') (whole ++ whole') := by
  induction front with
  | nil => exact back
  | cons held _ induction =>
      rw [List.append_assoc]
      exact .cons held induction

theorem mono {places : List ι} {whole : List α}
    (segments : Segments holds places whole)
    (kept : ∀ place ∈ places, ∀ part, holds place part → holds' place part) :
    Segments holds' places whole := by
  induction segments with
  | nil => exact .nil
  | cons held _ induction =>
      apply Segments.cons (kept _ List.mem_cons_self _ held)
      apply induction
      intro place member
      exact kept place (List.mem_cons_of_mem _ member)

/-- Places in a heap: a change elsewhere does not show. -/
theorem update [DecidableEq ι] {σ : Type} {shows : σ → List α → Prop}
    {heap : ι → σ} {places : List ι} {whole : List α} {place : ι}
    (segments : Segments (fun place => shows (heap place)) places whole)
    (elsewhere : place ∉ places) (value : σ) :
    Segments (fun other => shows (Function.update heap place value other))
      places whole := by
  apply segments.mono
  intro other member part held
  have different : other ≠ place := by
    intro same
    exact elsewhere (same ▸ member)
  rwa [Function.update_of_ne different]

theorem cut {front back : List ι} {whole : List α}
    (segments : Segments holds (front ++ back) whole) :
    ∃ first last, whole = first ++ last ∧ Segments holds front first ∧
      Segments holds back last := by
  induction front generalizing whole with
  | nil => exact ⟨[], whole, rfl, .nil, segments⟩
  | cons place front induction =>
      cases segments with
      | cons held later =>
          obtain ⟨first, last, rfl, before, after⟩ := induction later
          exact ⟨_, last, (List.append_assoc _ _ _).symm, .cons held before,
            after⟩

theorem last {front : List ι} {place : ι} {whole : List α}
    (segments : Segments holds (front ++ [place]) whole) :
    ∃ first part, whole = first ++ part ∧ Segments holds front first ∧
      holds place part := by
  obtain ⟨first, part, rfl, before, after⟩ := segments.cut
  cases after with
  | cons held none =>
      cases none
      rw [List.append_nil]
      exact ⟨first, _, rfl, before, held⟩

/-- A measure of the places that is the length of what they hold. -/
theorem sum_eq_length {places : List ι} {whole : List α}
    (segments : Segments holds places whole) {measure : ι → Nat}
    (measured : ∀ {place part}, holds place part →
      measure place = part.length) :
    (places.map measure).sum = whole.length := by
  induction segments with
  | nil => rfl
  | cons held _ induction =>
      rw [List.map_cons, List.sum_cons, List.length_append, measured held,
        induction]

/-- Reading the places one after the other. -/
theorem mapM_eq {ε : Type} {places : List ι} {whole : List α}
    (segments : Segments holds places whole) {read : ι → Except ε (List α)}
    (reads : ∀ {place part}, holds place part → read place = .ok part) :
    ∃ parts, places.mapM read = .ok parts ∧ parts.flatten = whole := by
  induction segments with
  | nil => exact ⟨[], rfl, rfl⟩
  | cons held _ induction =>
      obtain ⟨parts, run, flat⟩ := induction
      refine ⟨_ :: parts, ?_, by rw [List.flatten_cons, flat]⟩
      rw [List.mapM_cons, reads held, run]
      rfl

end Segments

end TarsCpp
