import Mathlib.Data.BitVec
import Mathlib.Tactic

/-!
# Decimal notation

Numbers as bytes, and what the digits mean.  Reading digits one after another
into a semiring that multiplies by ten and adds gives the number, whether it
counts without bound or modulo a power of two.
-/

namespace TarsCpp

def isDigit (c : UInt8) : Bool := 48 ≤ c ∧ c ≤ 57

def digitOf (c : UInt8) : Nat := c.toNat - 48

def decimal (n : Nat) : List UInt8 :=
  if n < 10 then [48 + n.toUInt8]
  else decimal (n / 10) ++ [48 + (n % 10).toUInt8]

def decimalInt (n : Int) : List UInt8 :=
  if n < 0 then 45 :: decimal n.natAbs else decimal n.natAbs

/-- The value of digits behind `start`. -/
def numbered {scalar : Type} [Semiring scalar] (start : scalar)
    (digits : List UInt8) : scalar :=
  digits.foldl (fun number c => number * 10 + (digitOf c : scalar)) start

variable {scalar : Type} [Semiring scalar]

theorem numbered_append (start : scalar) (digits digits' : List UInt8) :
    numbered start (digits ++ digits') =
      numbered (numbered start digits) digits' := by
  simp only [numbered, List.foldl_append]

theorem numbered_cons (start : scalar) (c : UInt8) (digits : List UInt8) :
    numbered start (c :: digits) =
      numbered (start * 10 + (digitOf c : scalar)) digits := by
  simp only [numbered, List.foldl_cons]

theorem toUInt8_digit {digit : Nat} (small : digit < 10) :
    isDigit (48 + digit.toUInt8) ∧ digitOf (48 + digit.toUInt8) = digit := by
  interval_cases digit <;> decide

theorem decimal_digits (n : Nat) :
    decimal n ≠ [] ∧ ∀ c ∈ decimal n, isDigit c := by
  induction n using decimal.induct with
  | case1 n small =>
      rw [decimal, if_pos small]
      refine ⟨List.cons_ne_nil _ _, fun c member => ?_⟩
      exact List.mem_singleton.mp member ▸ (toUInt8_digit small).1
  | case2 n large ih =>
      rw [decimal, if_neg large]
      refine ⟨by simp, fun c member => ?_⟩
      rcases List.mem_append.mp member with member | member
      · exact ih.2 c member
      · have last := toUInt8_digit (Nat.mod_lt n (by decide : 10 > 0))
        exact List.mem_singleton.mp member ▸ last.1

theorem numbered_decimal (n : Nat) :
    numbered (0 : scalar) (decimal n) = (n : scalar) := by
  induction n using decimal.induct with
  | case1 n small =>
      rw [decimal, if_pos small, numbered_cons, (toUInt8_digit small).2]
      simp [numbered]
  | case2 n large ih =>
      have last := toUInt8_digit (Nat.mod_lt n (by decide : 10 > 0))
      have sum : n = n / 10 * 10 + n % 10 := by omega
      rw [decimal, if_neg large, numbered_append, ih, numbered_cons, last.2]
      conv => rhs; rw [sum, Nat.cast_add, Nat.cast_mul]
      rfl

theorem length_decimal_le {n k : Nat} (small : n < 10 ^ (k + 1)) :
    (decimal n).length ≤ k + 1 := by
  induction k generalizing n with
  | zero =>
      have digit : n < 10 := small
      rw [decimal, if_pos digit]
      rfl
  | succ k ih =>
      rw [decimal]
      split
      · exact Nat.succ_le_succ (Nat.zero_le _)
      · have shorter := ih (n := n / 10) (by omega)
        rw [List.length_append, List.length_singleton]
        exact Nat.succ_le_succ shorter

theorem not_isDigit_minus : isDigit 45 = false := by decide

theorem decimal_head_ne (n : Nat) : (decimal n).head? ≠ some 45 := by
  obtain ⟨c, rest, shape⟩ := List.exists_cons_of_ne_nil (decimal_digits n).1
  have digit := (decimal_digits n).2 c (by rw [shape]; exact List.mem_cons_self)
  rw [shape, List.head?_cons]
  rintro same
  rw [Option.some.inj same, not_isDigit_minus] at digit
  exact Bool.false_ne_true digit

end TarsCpp
