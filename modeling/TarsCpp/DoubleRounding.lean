import Mathlib.Data.Int.Log
import Mathlib.Data.Rat.Floor
import Mathlib.Tactic

/-!
# Rounding to doubles

A number that is no double is rounded to the nearest one, and to the even one
of two that are equally near.  The exponent is unbounded here: overflow and
the subnormal numbers are left out.
-/

namespace TarsCpp.DoubleRounding

/-- The distance of the doubles of this magnitude. -/
def ulp (value : ℚ) : ℚ := 2 ^ (Int.log 2 |value| - 52)

def nearestEven (value : ℚ) : ℤ :=
  let below := ⌊value⌋
  if value - below < 1 / 2 then
    below
  else if 1 / 2 < value - below then
    below + 1
  else if below % 2 = 0 then
    below
  else
    below + 1

def toDouble (value : ℚ) : ℚ := nearestEven (value / ulp value) * ulp value

/-- The conversion of a double to an integer cuts off the fraction. -/
def truncate (value : ℚ) : ℤ := if 0 ≤ value then ⌊value⌋ else ⌈value⌉

theorem ulp_pos (value : ℚ) : 0 < ulp value := by
  unfold ulp
  positivity

theorem ulp_le {value : ℚ} (positive : 0 < value) :
    ulp value ≤ value / 2 ^ 52 := by
  have magnitude : (2 : ℚ) ^ Int.log 2 value ≤ value :=
    Int.zpow_log_le_self (by decide) positive
  rw [ulp, abs_of_pos positive, zpow_sub₀ (by norm_num)]
  exact div_le_div_of_nonneg_right magnitude (by positivity)

theorem abs_nearestEven_sub_le (value : ℚ) :
    |nearestEven value - value| ≤ 1 / 2 := by
  have below := Int.floor_le value
  have above := Int.lt_floor_add_one value
  unfold nearestEven
  rw [abs_le]
  dsimp only
  split_ifs with near far even
  · constructor <;> linarith
  · push_cast
    constructor <;> linarith
  · constructor <;> linarith
  · push_cast
    constructor <;> linarith

theorem nearestEven_intCast (value : ℤ) :
    nearestEven (value : ℚ) = value := by
  unfold nearestEven
  dsimp only
  rw [Int.floor_intCast, sub_self, if_pos (by norm_num)]

/-- The relative error is at most half a unit in the last place. -/
theorem abs_toDouble_sub_le {value : ℚ} (positive : 0 < value) :
    |toDouble value - value| ≤ value / 2 ^ 53 := by
  have unit := ulp_pos value
  have scaled : toDouble value - value =
      (nearestEven (value / ulp value) - value / ulp value) * ulp value := by
    rw [sub_mul, div_mul_cancel₀ _ unit.ne']
    rfl
  rw [scaled, abs_mul, abs_of_pos unit]
  calc |nearestEven (value / ulp value) - value / ulp value| * ulp value
      ≤ 1 / 2 * ulp value := by
        gcongr
        exact abs_nearestEven_sub_le _
    _ ≤ 1 / 2 * (value / 2 ^ 52) := by
        gcongr
        exact ulp_le positive
    _ = value / 2 ^ 53 := by ring

/-- Integers of up to 53 bits are doubles. -/
theorem toDouble_natCast {value : ℕ} (small : value < 2 ^ 53) :
    toDouble (value : ℚ) = value := by
  have bits : Nat.log 2 value ≤ 52 :=
    Nat.lt_succ_iff.mp (Nat.log_lt_of_lt_pow' (by decide) small)
  have whole : (value : ℚ) / ulp value =
      ((value * 2 ^ (52 - Nat.log 2 value) : ℕ) : ℤ) := by
    rw [ulp, Nat.abs_cast, Int.log_natCast]
    push_cast
    rw [div_eq_mul_inv, ← zpow_neg, neg_sub, ← zpow_natCast,
      Nat.cast_sub bits]
    rfl
  rw [toDouble, whole, nearestEven_intCast, ← whole,
    div_mul_cancel₀ _ (ulp_pos _).ne']

end TarsCpp.DoubleRounding
