import Mathlib.Algebra.BigOperators.Group.Finset.Basic
import Mathlib.NumberTheory.Harmonic.Defs
import Mathlib.Tactic
import TarsCpp.TransitionRun

/-!
# Smooth weighted round robin

In every turn the credit of each participant grows by its weight, one with the
greatest credit is chosen, and it pays the sum of the weights.  Nobody's debt
reaches that sum, so that in as many turns as the sum of the weights everybody
is chosen as often as its weight says.  The greatest credit is bounded by a
harmonic number.
-/

namespace TarsCpp.SmoothRoundRobin

open TransitionRun

variable {ι : Type} [DecidableEq ι] {s : Finset ι} {r : ι → ℤ}
  {credit next last : ι → ℤ} {chosen : ι} {labels : List ι}

/-- One turn, with the credits before and behind it. -/
structure Turn (s : Finset ι) (r : ι → ℤ) (credit : ι → ℤ) (chosen : ι)
    (next : ι → ℤ) : Prop where
  member : chosen ∈ s
  greatest : ∀ i ∈ s, credit i + r i ≤ credit chosen + r chosen
  paid : ∀ i ∈ s, next i =
    credit i + r i - if i = chosen then ∑ j ∈ s, r j else 0

/-- The credits add up to nothing, and no debt reaches the sum of weights. -/
structure Balanced (s : Finset ι) (r : ι → ℤ) (credit : ι → ℤ) : Prop where
  sum : ∑ i ∈ s, credit i = 0
  debt : ∀ i ∈ s, -∑ j ∈ s, r j < credit i

theorem Turn.sum_next (turn : Turn s r credit chosen next) {t : Finset ι}
    (subset : t ⊆ s) : ∑ i ∈ t, next i =
      ∑ i ∈ t, (credit i + r i) - if chosen ∈ t then ∑ j ∈ s, r j else 0 := by
  rw [Finset.sum_congr rfl fun i member => turn.paid i (subset member),
    Finset.sum_sub_distrib, Finset.sum_ite_eq' t chosen]

/-- The credits that are compared add up to the sum of the weights, so that the
greatest one is positive. -/
theorem Turn.positive (turn : Turn s r credit chosen next)
    (balanced : Balanced s r credit) (weights : ∀ i ∈ s, 0 < r i) :
    0 < credit chosen + r chosen := by
  by_contra nonpos
  have total : ∑ i ∈ s, (credit i + r i) = ∑ j ∈ s, r j := by
    rw [Finset.sum_add_distrib, balanced.sum, zero_add]
  have few : ∑ i ∈ s, (credit i + r i) ≤ 0 := by
    apply Finset.sum_nonpos
    intro i member
    have atMost := turn.greatest i member
    omega
  have some_ : 0 < ∑ j ∈ s, r j := Finset.sum_pos weights ⟨chosen, turn.member⟩
  omega

theorem Turn.balanced (turn : Turn s r credit chosen next)
    (weights : ∀ i ∈ s, 0 < r i) (balanced : Balanced s r credit) :
    Balanced s r next := by
  constructor
  · rw [turn.sum_next (Finset.Subset.refl s), if_pos turn.member,
      Finset.sum_add_distrib, balanced.sum]
    omega
  · intro i member
    rw [turn.paid i member]
    split
    · next same =>
        have positive := turn.positive balanced weights
        rw [same]
        omega
    · have debt := balanced.debt i member
      have weight := weights i member
      omega

omit [DecidableEq ι] in
theorem balanced_zero (some_ : s.Nonempty) (weights : ∀ i ∈ s, 0 < r i) :
    Balanced s r fun _ => 0 := by
  constructor
  · simp
  · intro i member
    have positive := Finset.sum_pos weights some_
    omega

theorem balanced_run (run : Run (Turn s r) credit labels last)
    (weights : ∀ i ∈ s, 0 < r i) (balanced : Balanced s r credit) :
    Balanced s r last :=
  run.preserves (fun before turn => turn.balanced weights before) balanced

/-- What has been earned and what has been paid. -/
theorem credit_run (run : Run (Turn s r) credit labels last) {i : ι}
    (member : i ∈ s) : last i =
      credit i + labels.length * r i - labels.count i * ∑ j ∈ s, r j := by
  induction run with
  | nil state => simp
  | @cons first chosen middle labels last turn rest ih =>
      rw [ih, turn.paid i member, List.length_cons, List.count_cons]
      by_cases same : i = chosen
      · simp only [same, if_true, beq_self_eq_true]
        push_cast
        ring
      · have other : ¬ chosen = i := fun equal => same equal.symm
        simp only [same, other, if_false, beq_iff_eq]
        push_cast
        ring

theorem mem_run (run : Run (Turn s r) credit labels last) :
    ∀ i ∈ labels, i ∈ s := by
  refine @Run.labels _ _ _ (fun _ => True) _ ?_ ?_ _ _ _ run trivial
  · intro _ _ _ _ _
    trivial
  · intro _ _ _ _ turn
    exact turn.member

/-- Everybody is chosen as often as its weight says. -/
theorem count_run (weights : ∀ i ∈ s, 0 < r i)
    (run : Run (Turn s r) (fun _ => 0) labels last)
    (length : (labels.length : ℤ) = ∑ j ∈ s, r j) :
    ∀ i ∈ s, (labels.count i : ℤ) = r i := by
  intro i member
  have some_ : s.Nonempty := ⟨i, member⟩
  have positive := Finset.sum_pos weights some_
  have balanced := balanced_run run weights (balanced_zero some_ weights)
  have atMost : ∀ j ∈ s, (labels.count j : ℤ) ≤ r j := by
    intro j present
    have debt := balanced.debt j present
    rw [credit_run run present, length] at debt
    by_contra more
    have loss : (r j + 1) * ∑ k ∈ s, r k ≤
        labels.count j * ∑ k ∈ s, r k :=
      mul_le_mul_of_nonneg_right (by omega) positive.le
    linarith [mul_comm (∑ k ∈ s, r k) (r j)]
  have whole : ∑ j ∈ s, (labels.count j : ℤ) = ∑ j ∈ s, r j := by
    rw [← length]
    have counted := Multiset.sum_count_eq_card (s := s) (m := labels)
      (by simpa using mem_run run)
    simp only [Multiset.coe_count, Multiset.coe_card] at counted
    exact_mod_cast counted
  exact (Finset.sum_eq_sum_iff_of_le atMost).mp whole i member

/-- Many cannot have a great credit. -/
def Bounded (s : Finset ι) (r : ι → ℤ) (credit : ι → ℤ) : Prop :=
  ∀ t ⊆ s, t.Nonempty → ((∑ i ∈ t, credit i : ℤ) : ℚ) ≤
    t.card * ((∑ j ∈ s, r j : ℤ) : ℚ) * (harmonic s.card - harmonic t.card)

theorem harmonic_le {m n : ℕ} (le : m ≤ n) : harmonic m ≤ harmonic n := by
  refine Finset.sum_le_sum_of_subset_of_nonneg
    (Finset.range_subset_range.mpr le) fun i _ _ => ?_
  positivity

omit [DecidableEq ι] in
theorem bounded_zero (weights : ∀ i ∈ s, 0 < r i) :
    Bounded s r fun _ => 0 := by
  intro t subset some_
  have total : (0 : ℚ) ≤ ((∑ j ∈ s, r j : ℤ) : ℚ) := by
    exact_mod_cast Finset.sum_nonneg fun i member => (weights i member).le
  have grows := harmonic_le (Finset.card_le_card subset)
  have whole : (0 : ℚ) ≤ t.card * ((∑ j ∈ s, r j : ℤ) : ℚ) *
      (harmonic s.card - harmonic t.card) :=
    mul_nonneg (mul_nonneg (Nat.cast_nonneg _) total) (sub_nonneg.mpr grows)
  simpa using whole

/-- What `n` participants have, if none of them has more than another one and
all of them together have no more than `credits` and `weights`. -/
theorem share_bound {n : ℕ} {sum single credits weights total : ℤ} {h g : ℚ}
    (share : sum ≤ n * single) (joined : credits + weights = sum + single)
    (atMost : weights ≤ total) (before : (credits : ℚ) ≤
      ((n + 1 : ℕ) : ℚ) * total * (h - (g + ((n + 1 : ℕ) : ℚ)⁻¹))) :
    (sum : ℚ) ≤ n * total * (h - g) := by
  have positive : (0 : ℚ) < ((n + 1 : ℕ) : ℚ) := by positivity
  have share' : (sum : ℚ) ≤ n * single := by exact_mod_cast share
  have joined' : (credits : ℚ) + weights = sum + single := by
    exact_mod_cast joined
  have atMost' : (weights : ℚ) ≤ total := by exact_mod_cast atMost
  have unfolded : ((n + 1 : ℕ) : ℚ) * total *
      (h - (g + ((n + 1 : ℕ) : ℚ)⁻¹)) =
        ((n + 1 : ℕ) : ℚ) * total * (h - g) - total := by
    field_simp
    ring
  rw [unfolded] at before
  refine le_of_mul_le_mul_left ?_ positive
  calc ((n + 1 : ℕ) : ℚ) * sum
      ≤ n * (sum + single) := by
        push_cast
        linarith
    _ = n * (credits + weights) := by rw [joined']
    _ ≤ n * (((n + 1 : ℕ) : ℚ) * total * (h - g)) := by
        apply mul_le_mul_of_nonneg_left _ (Nat.cast_nonneg n)
        linarith
    _ = ((n + 1 : ℕ) : ℚ) * (n * total * (h - g)) := by ring

/-- Together with the chosen one the others have no more than it has alone. -/
theorem Turn.bounded (turn : Turn s r credit chosen next)
    (weights : ∀ i ∈ s, 0 < r i) (bounded : Bounded s r credit) :
    Bounded s r next := by
  intro t subset some_
  have whole : ∀ u ⊆ s, ∑ i ∈ u, r i ≤ ∑ j ∈ s, r j := fun u within =>
    Finset.sum_le_sum_of_subset_of_nonneg within
      fun i member _ => (weights i member).le
  rw [turn.sum_next subset]
  by_cases among : chosen ∈ t
  · have least : ∑ i ∈ t, (credit i + r i) - ∑ j ∈ s, r j ≤
        ∑ i ∈ t, credit i := by
      have atMost := whole t subset
      rw [Finset.sum_add_distrib]
      omega
    rw [if_pos among]
    exact (Int.cast_le.mpr least).trans (bounded t subset some_)
  · rw [if_neg among, sub_zero]
    have subset' : insert chosen t ⊆ s :=
      Finset.insert_subset turn.member subset
    have before := bounded _ subset' (Finset.insert_nonempty _ _)
    rw [Finset.card_insert_of_notMem among, harmonic_succ] at before
    have atMost := whole _ subset'
    have share : ∑ i ∈ t, (credit i + r i) ≤
        t.card * (credit chosen + r chosen) := by
      rw [← nsmul_eq_mul]
      exact Finset.sum_le_card_nsmul _ _ _
        fun i member => turn.greatest i (subset member)
    have joined : ∑ i ∈ insert chosen t, credit i +
        ∑ i ∈ insert chosen t, r i =
          ∑ i ∈ t, (credit i + r i) + (credit chosen + r chosen) := by
      rw [Finset.sum_insert among, Finset.sum_insert among,
        Finset.sum_add_distrib]
      ring
    exact share_bound share joined atMost before

end TarsCpp.SmoothRoundRobin
