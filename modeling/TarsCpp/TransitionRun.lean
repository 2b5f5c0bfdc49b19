import Mathlib.Tactic

/-!
# Runs of labelled transition systems

A step relation between states, labelled with what happened, and its finite
runs.  Invariants and simulations of single steps lift to runs; a guard on
states and labels restricts the steps that a run may take.
-/

namespace TarsCpp

namespace TransitionRun

variable {σ τ ι : Type}

/-- Finite runs, with the labels in the order in which they happened. -/
inductive Run (step : σ → ι → σ → Prop) : σ → List ι → σ → Prop
  | nil (state) : Run step state [] state
  | cons {first label middle labels last} :
      step first label middle → Run step middle labels last →
      Run step first (label :: labels) last

/-- The steps whose label is admissible in the state they start from. -/
def Guarded (guard : σ → ι → Prop) (step : σ → ι → σ → Prop)
    (state : σ) (label : ι) (next : σ) : Prop :=
  guard state label ∧ step state label next

variable {step : σ → ι → σ → Prop}

theorem Run.append {first middle last : σ} {labels labels' : List ι}
    (run : Run step first labels middle) (run' : Run step middle labels' last) :
    Run step first (labels ++ labels') last := by
  induction run with
  | nil state => exact run'
  | cons taken _ induction => exact .cons taken (induction run')

/-- What every step preserves holds at the end of every run. -/
theorem Run.preserves {invariant : σ → Prop}
    (keeps : ∀ {state label next}, invariant state →
      step state label next → invariant next)
    {first last : σ} {labels : List ι} (run : Run step first labels last)
    (initially : invariant first) : invariant last := by
  induction run with
  | nil state => exact initially
  | cons taken _ induction => exact induction (keeps initially taken)

/-- What holds of every step from an invariant state holds of every label of a
run. -/
theorem Run.labels {invariant : σ → Prop} {good : ι → Prop}
    (keeps : ∀ {state label next}, invariant state →
      step state label next → invariant next)
    (sound : ∀ {state label next}, invariant state →
      step state label next → good label)
    {first last : σ} {labels : List ι} (run : Run step first labels last)
    (initially : invariant first) : ∀ label ∈ labels, good label := by
  induction run with
  | nil state =>
      intro label member
      cases member
  | cons taken _ induction =>
      intro label member
      cases member with
      | head => exact sound initially taken
      | tail _ later => exact induction (keeps initially taken) label later

/-- Forward simulation: if every step from related states is matched by an
abstract one with the same label, so is every run. -/
theorem Run.simulates {step' : τ → ι → τ → Prop} {related : σ → τ → Prop}
    (matched : ∀ {state abstract label next}, related state abstract →
      step state label next →
      ∃ abstract', step' abstract label abstract' ∧ related next abstract')
    {first last : σ} {labels : List ι} (run : Run step first labels last) :
    ∀ {abstract : τ}, related first abstract →
      ∃ abstract', Run step' abstract labels abstract' ∧
        related last abstract' := by
  induction run with
  | nil state =>
      intro abstract holds
      exact ⟨abstract, .nil abstract, holds⟩
  | cons taken _ induction =>
      intro abstract holds
      obtain ⟨middle, abstractStep, holds'⟩ := matched holds taken
      obtain ⟨abstract', abstractRun, holds''⟩ := induction holds'
      exact ⟨abstract', .cons abstractStep abstractRun, holds''⟩

/-- The steps of a partial function. -/
def Applies (apply : σ → ι → Option σ) (state : σ) (label : ι) (next : σ) :
    Prop :=
  apply state label = some next

/-- Where labels lead, as long as the guard admits them. -/
def replay (guard : σ → ι → Bool) (apply : σ → ι → Option σ) :
    σ → List ι → Option σ
  | state, [] => some state
  | state, label :: labels =>
      if guard state label then
        (apply state label).bind fun next => replay guard apply next labels
      else
        none

theorem Run.of_replay {guard : σ → ι → Bool} {apply : σ → ι → Option σ}
    {first last : σ} {labels : List ι}
    (replayed : replay guard apply first labels = some last) :
    Run (Guarded (fun state label => guard state label = true)
      (Applies apply)) first labels last := by
  induction labels generalizing first with
  | nil =>
      cases replayed
      exact .nil _
  | cons label labels ih =>
      rw [replay] at replayed
      split at replayed
      · next admitted =>
          obtain ⟨next, applied, rest⟩ := Option.bind_eq_some_iff.mp replayed
          exact .cons ⟨admitted, applied⟩ (ih rest)
      · cases replayed

/-- The guard of a run may be forgotten. -/
theorem Run.unguarded {guard : σ → ι → Prop} {first last : σ}
    {labels : List ι} (run : Run (Guarded guard step) first labels last) :
    Run step first labels last := by
  induction run with
  | nil state => exact .nil state
  | cons taken _ induction => exact .cons taken.2 induction

end TransitionRun

end TarsCpp
