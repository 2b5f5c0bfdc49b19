import Mathlib.Tactic

/-!
# Network byte order

Fixed-width big-endian words over bytes.  Every numeric field of the wire
formats treated here is stored most significant byte first, so the two
directions and their round trip are stated once, for any width.
-/

namespace TarsCpp

namespace ByteOrder

/-- The `width` low-order bytes of a number, most significant byte first. -/
def bigEndian : Nat → Nat → List UInt8
  | 0, _ => []
  | width + 1, value =>
      UInt8.ofNat (value / 256 ^ width) :: bigEndian width value

/-- The number denoted by a byte string, most significant byte first. -/
def ofBigEndian : List UInt8 → Nat
  | [] => 0
  | byte :: bytes => byte.toNat * 256 ^ bytes.length + ofBigEndian bytes

@[simp] theorem length_bigEndian (width value : Nat) :
    (bigEndian width value).length = width := by
  induction width with
  | zero => rfl
  | succ width induction => simp [bigEndian, induction]

theorem ofBigEndian_lt (bytes : List UInt8) :
    ofBigEndian bytes < 256 ^ bytes.length := by
  induction bytes with
  | nil => simp [ofBigEndian]
  | cons byte bytes induction =>
      have digit : byte.toNat ≤ 255 := by
        have := byte.toNat_lt
        omega
      calc
        ofBigEndian (byte :: bytes)
            = byte.toNat * 256 ^ bytes.length + ofBigEndian bytes := rfl
        _ < byte.toNat * 256 ^ bytes.length + 256 ^ bytes.length := by omega
        _ = (byte.toNat + 1) * 256 ^ bytes.length := by ring
        _ ≤ 256 * 256 ^ bytes.length :=
          Nat.mul_le_mul_right _ (by omega)
        _ = 256 ^ (byte :: bytes).length := by
          rw [List.length_cons, Nat.pow_succ, Nat.mul_comm]

theorem ofBigEndian_bigEndian_mod (width value : Nat) :
    ofBigEndian (bigEndian width value) = value % 256 ^ width := by
  induction width with
  | zero => simp [bigEndian, ofBigEndian, Nat.mod_one]
  | succ width induction =>
      have digit :
          (UInt8.ofNat (value / 256 ^ width)).toNat =
            value / 256 ^ width % 256 := by
        simp
      rw [bigEndian, ofBigEndian, length_bigEndian, induction, digit,
        Nat.pow_succ, Nat.mod_mul, Nat.mul_comm, Nat.add_comm]

theorem ofBigEndian_bigEndian {width value : Nat}
    (fits : value < 256 ^ width) :
    ofBigEndian (bigEndian width value) = value := by
  rw [ofBigEndian_bigEndian_mod, Nat.mod_eq_of_lt fits]

/-- Only the low-order bytes are stored. -/
theorem bigEndian_add (width high : Nat) : ∀ low,
    bigEndian width (high * 256 ^ width + low) = bigEndian width low := by
  induction width generalizing high with
  | zero =>
      intro low
      rfl
  | succ width induction =>
      intro low
      have shifted : high * 256 ^ (width + 1) + low =
          high * 256 * 256 ^ width + low := by
        rw [Nat.pow_succ]
        ring
      have digit : UInt8.ofNat ((high * 256 * 256 ^ width + low) /
          256 ^ width) = UInt8.ofNat (low / 256 ^ width) := by
        rw [Nat.mul_comm, Nat.mul_add_div (Nat.pow_pos (by decide))]
        apply UInt8.toNat.inj
        rw [UInt8.toNat_ofNat', UInt8.toNat_ofNat', Nat.mul_comm high,
          Nat.mul_add_mod]
      rw [bigEndian, bigEndian, shifted, digit, induction]

theorem bigEndian_ofBigEndian (bytes : List UInt8) :
    bigEndian bytes.length (ofBigEndian bytes) = bytes := by
  induction bytes with
  | nil => rfl
  | cons byte bytes induction =>
      have rest := ofBigEndian_lt bytes
      rw [List.length_cons, bigEndian, ofBigEndian, bigEndian_add, induction,
        Nat.mul_comm, Nat.mul_add_div (Nat.zero_lt_of_lt rest),
        Nat.div_eq_of_lt rest, Nat.add_zero, UInt8.ofNat_toNat]

/-- A long word is its high part in front of its low part. -/
theorem bigEndian_append (first second value : Nat) :
    bigEndian (first + second) value =
      bigEndian first (value / 256 ^ second) ++ bigEndian second value := by
  induction first with
  | zero => rw [Nat.zero_add, bigEndian, List.nil_append]
  | succ first induction =>
      rw [Nat.add_right_comm, bigEndian, bigEndian, induction, List.cons_append,
        Nat.div_div_eq_div_mul, ← Nat.pow_add, Nat.add_comm second first]

theorem ofBigEndian_append (front back : List UInt8) :
    ofBigEndian (front ++ back) =
      ofBigEndian front * 256 ^ back.length + ofBigEndian back := by
  induction front with
  | nil => simp [ofBigEndian]
  | cons byte front induction =>
      rw [List.cons_append, ofBigEndian, ofBigEndian, induction,
        List.length_append, Nat.pow_add]
      ring

/-- A machine word survives being stored in at least its own width. -/
theorem ofNat_ofBigEndian_toNat {bits width : Nat}
    (wide : bits ≤ 8 * width) (word : BitVec bits) :
    BitVec.ofNat bits (ofBigEndian (bigEndian width word.toNat)) = word := by
  have capacity : 2 ^ bits ≤ 256 ^ width := by
    calc
      2 ^ bits ≤ 2 ^ (8 * width) := Nat.pow_le_pow_right (by omega) wide
      _ = 256 ^ width := by rw [Nat.pow_mul]
  rw [ofBigEndian_bigEndian (Nat.lt_of_lt_of_le word.isLt capacity)]
  simp

end ByteOrder

end TarsCpp
