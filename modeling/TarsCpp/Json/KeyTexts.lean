import Mathlib.Tactic
import TarsCpp.Json.MapKeys

/-!
# Keys that come back

Numbers come back from their decimal text.  Characters come back where they are
read as characters; a `map` reads them as numbers, and then only zero does.
-/

namespace TarsCpp.Json

open CString TC_Common

theorem digits_eq_numbered (start : ℕ) {text : List UInt8}
    (all : ∀ c ∈ text, isDigit c) :
    digits 10 start text = numbered start text := by
  induction text generalizing start with
  | nil => rfl
  | cons c text ih =>
      have digit := all c List.mem_cons_self
      simp only [isDigit, Bool.decide_and, Bool.and_eq_true,
        decide_eq_true_eq] at digit
      have value : digitValue c = some (digitOf c) := by
        rw [digitValue, if_pos digit]
        rfl
      have small : digitOf c < 10 := by
        have most := UInt8.le_iff_toNat_le.mp digit.2
        change c.toNat ≤ 57 at most
        rw [digitOf]
        omega
      rw [digits, value, numbered_cons]
      simp only [if_pos small]
      exact ih _ fun other member => all other (List.mem_cons_of_mem _ member)

theorem digits_decimal (n : ℕ) : digits 10 0 (decimal n) = n := by
  rw [digits_eq_numbered 0 (decimal_digits n).2, numbered_decimal]
  rfl

/-- What a decimal number begins with. -/
theorem decimal_head (n : ℕ) : ∃ c rest, decimal n = c :: rest ∧
    isspace c = false ∧ c ≠ 45 ∧ c ≠ 43 := by
  obtain ⟨c, rest, shape⟩ := List.exists_cons_of_ne_nil (decimal_digits n).1
  have digit := (decimal_digits n).2 c (by rw [shape]; exact List.mem_cons_self)
  refine ⟨c, rest, shape, ?_, ?_, ?_⟩
  · simp only [isDigit, isspace, Bool.decide_and, Bool.and_eq_true,
      decide_eq_true_eq, decide_eq_false_iff_not] at *
    grind
  · rintro rfl
    cases digit
  · rintro rfl
    cases digit

theorem number_decimal (n : ℕ) : number 10 (decimal n) = (false, n) := by
  have value := digits_decimal n
  obtain ⟨c, rest, shape, solid, minus, plus⟩ := decimal_head n
  rw [shape] at value ⊢
  simp [number, solid, minus, plus, value]

theorem number_minus (n : ℕ) : number 10 (45 :: decimal n) = (true, n) := by
  have solid : isspace 45 = false := rfl
  simp [number, solid, digits_decimal]

theorem strtol_decimalInt {n : ℤ} (least : -9223372036854775808 ≤ n) :
    strtol 10 (decimalInt n) = min 9223372036854775807 n := by
  rw [decimalInt]
  split
  · next negative =>
      rw [strtol, number_minus]
      simp only [if_true]
      omega
  · next nonneg =>
      rw [strtol, number_decimal]
      simp only [Bool.false_eq_true, if_false]
      omega

theorem strtoul_decimalInt {n : ℕ} (small : n < 18446744073709551616) :
    strtoul 10 (decimalInt n) = n := by
  rw [decimalInt, if_neg (by omega), strtoul, Int.natAbs_natCast,
    number_decimal]
  simp only [Bool.false_eq_true, if_false]
  rw [if_neg (by omega)]

theorem decimalInt_ne_nil (n : ℤ) : decimalInt n ≠ [] := by
  rw [decimalInt]
  split
  · exact List.cons_ne_nil _ _
  · exact (decimal_digits _).1

theorem decimalInt_not_hexadecimal (n : ℤ) :
    ¬ ascii "0x" <+: decimalInt n := by
  rintro ⟨rest, same⟩
  change 48 :: 120 :: rest = _ at same
  rw [decimalInt] at same
  split at same
  · cases same
  · have digit := (decimal_digits n.natAbs).2 120 (by rw [← same]; simp)
    cases digit

theorem based_decimalInt {β : Type} (zero : β)
    (hexadecimal decimal : List UInt8 → β) (n : ℤ) :
    based zero hexadecimal decimal (decimalInt n) = decimal (decimalInt n) := by
  rw [based, if_neg (decimalInt_ne_nil n),
    if_neg (decimalInt_not_hexadecimal n)]

/-- The number that a single character is read as. -/
def digit (c : UInt8) : ℕ :=
  if isDigit c then digitOf c else 0

theorem digits_single (c : UInt8) : digits 10 0 [c] = digit c := by
  rw [digit]
  split
  · next digit =>
      rw [digits_eq_numbered 0 (by simpa using digit)]
      simp [numbered]
  · next other =>
      simp only [isDigit, Bool.decide_and, Bool.and_eq_true,
        decide_eq_true_eq] at other
      rw [digits, digitValue, if_neg other]
      split
      · rfl
      · next place found =>
          have large : ¬ place < 10 := by
            split at found
            · next upper =>
                have least := UInt8.le_iff_toNat_le.mp upper.1
                change 65 ≤ c.toNat at least
                have value := Option.some.inj found
                omega
            · split at found
              · next lower =>
                  have least := UInt8.le_iff_toNat_le.mp lower.1
                  change 97 ≤ c.toNat at least
                  have value := Option.some.inj found
                  omega
              · cases found
          rw [if_neg large]

theorem digit_le (c : UInt8) : digit c ≤ 9 := by
  rw [digit]
  split
  · next digit =>
      simp only [isDigit, Bool.decide_and, Bool.and_eq_true,
        decide_eq_true_eq, UInt8.le_iff_toNat_le] at digit
      have most := digit.2
      change c.toNat ≤ 57 at most
      rw [digitOf]
      omega
  · exact Nat.zero_le 9

theorem digit_small {c : UInt8} (small : c.toNat ≤ 9) : digit c = 0 := by
  rw [digit, if_neg]
  simp only [isDigit, Bool.decide_and, Bool.and_eq_true,
    decide_eq_true_eq, UInt8.le_iff_toNat_le]
  rintro ⟨least, -⟩
  change 48 ≤ c.toNat at least
  omega

theorem strtoInt_single (c : UInt8) : strtoInt [c] = digit c := by
  have plain : ¬ ascii "0x" <+: [c] := by
    intro prefix_
    have length := prefix_.length_le
    change 2 ≤ 1 at length
    omega
  have small := digit_le c
  have read : number 10 [c] = (decide (c = 45), digit c) := by
    by_cases blank : isspace c = true
    · have minus : c ≠ 45 := by
        rintro rfl
        cases blank
      have none_ : digit c = 0 := by
        rw [← digits_single, digits]
        simp only [isspace, Bool.decide_or, Bool.decide_and, Bool.or_eq_true,
          Bool.and_eq_true, decide_eq_true_eq] at blank
        have other : digitValue c = none := by
          rw [digitValue]
          grind
        rw [other]
      simp [number, blank, minus, none_, digits]
    · by_cases minus : c = 45
      · subst minus
        rfl
      · by_cases plus : c = 43
        · subst plus
          rfl
        · simp [number, blank, minus, plus, digits_single]
  rw [strtoInt, based, if_neg (List.cons_ne_nil _ _), if_neg plain, atoi,
    strtol, read]
  by_cases minus : c = 45
  · subst minus
    rfl
  · simp only [minus, decide_false, Bool.false_eq_true, if_false]
    rw [toInt_eq (by omega) (by omega)]
    omega

theorem formatChar_head (bits : BitVec 8) :
    ((formatChar bits).head?.map UInt8.toBitVec).getD 0 = bits := by
  rw [formatChar]
  split
  · next zero => exact zero.symm
  · rfl

theorem extractCharacter_single (c : UInt8) :
    extractCharacter [c] =
      if isspace c then .error .undefined else .ok c.toBitVec := by
  rw [extractCharacter]
  cases blank : isspace c with
  | true => simp [blank]
  | false => simp [blank]

theorem stream_back (bits : BitVec 64) :
    extractUnsigned (decimalInt bits.toNat) = .ok bits := by
  have value := strtoul_decimalInt bits.isLt
  have text : decimalInt (bits.toNat : ℤ) = decimal bits.toNat := by
    rw [decimalInt, if_neg (by omega), Int.natAbs_natCast]
  obtain ⟨c, rest, shape, solid, -, -⟩ := decimal_head bits.toNat
  rw [text, shape] at value ⊢
  simp [extractUnsigned, solid, value]

theorem signed_back (bits : BitVec 64) :
    BitVec.ofInt 64 (based 0 (strtol 16) (strtol 10) (decimalInt bits.toInt)) =
      bits := by
  have least : -2 ^ 63 ≤ bits.toInt := BitVec.le_toInt bits
  have most : bits.toInt < 2 ^ 63 := BitVec.toInt_lt
  rw [based_decimalInt, strtol_decimalInt (by omega), min_eq_right (by omega),
    BitVec.ofInt_toInt]

theorem unsigned_back {width : ℕ} (few : width ≤ 64) (bits : BitVec width) :
    BitVec.ofNat width (based 0 (strtoul 16) (strtoul 10)
      (decimalInt bits.toNat)) = bits := by
  have small : bits.toNat < 18446744073709551616 :=
    bits.isLt.trans_le (Nat.pow_le_pow_right (by decide) few)
  rw [based_decimalInt, strtoul_decimalInt small, BitVec.ofNat_toNat,
    BitVec.setWidth_eq]

/-- The decimal text of a number, read with `atoi`. -/
theorem strtoInt_decimalInt {n : ℤ} (least : -9223372036854775808 ≤ n) :
    strtoInt (decimalInt n) = toInt (min 9223372036854775807 n) := by
  rw [strtoInt, based_decimalInt, atoi, strtol_decimalInt least]

theorem short_back (bits : BitVec 16) :
    BitVec.ofInt 16 (based 0 (strtol 16) atoi (decimalInt bits.toInt)) =
      bits := by
  have least : -2 ^ 15 ≤ bits.toInt := BitVec.le_toInt bits
  have most : bits.toInt < 2 ^ 15 := BitVec.toInt_lt
  rw [based_decimalInt, atoi, strtol_decimalInt (by omega),
    min_eq_right (by omega), toInt_eq (by omega) (by omega),
    BitVec.ofInt_toInt]

theorem int_back (bits : BitVec 32) :
    BitVec.ofInt 32 (strtoInt (decimalInt bits.toInt)) = bits := by
  have least : -2 ^ 31 ≤ bits.toInt := BitVec.le_toInt bits
  have most : bits.toInt < 2 ^ 31 := BitVec.toInt_lt
  rw [strtoInt_decimalInt (by omega), min_eq_right (by omega),
    toInt_eq (by omega) (by omega), BitVec.ofInt_toInt]

/-- Integers that are read as what they are come back. -/
theorem strto_tostr (type : IntegerType) (bits : BitVec type.width)
    (known : type ∉ [IntegerType.wchar, .char16, .char32]) :
    strto type (tostr type bits) =
      if type = .signedChar ∧ isspace (UInt8.ofNat bits.toNat) then
        .error .undefined
      else
        .ok bits := by
  cases type with
  | char => exact congrArg Except.ok (formatChar_head bits)
  | unsignedChar => exact congrArg Except.ok (formatChar_head bits)
  | signedChar =>
      have back : (UInt8.ofNat bits.toNat).toBitVec = bits :=
        BitVec.ofNat_toNat 8 bits |>.trans (BitVec.setWidth_eq bits)
      have read := extractCharacter_single (UInt8.ofNat bits.toNat)
      rw [back] at read
      simp only [true_and]
      exact read
  | wchar => simp at known
  | char16 => simp at known
  | char32 => simp at known
  | short =>
      rw [if_neg (by simp)]
      exact congrArg Except.ok (short_back bits)
  | int =>
      rw [if_neg (by simp)]
      exact congrArg Except.ok (int_back bits)
  | long =>
      rw [if_neg (by simp)]
      exact congrArg Except.ok (signed_back bits)
  | longLong =>
      rw [if_neg (by simp)]
      exact congrArg Except.ok (signed_back bits)
  | unsignedShort =>
      rw [if_neg (by simp)]
      exact congrArg Except.ok (@unsigned_back 16 (by decide) bits)
  | unsignedInt =>
      rw [if_neg (by simp)]
      exact congrArg Except.ok (@unsigned_back 32 (by decide) bits)
  | unsignedLong =>
      rw [if_neg (by simp)]
      exact congrArg Except.ok (@unsigned_back 64 (by decide) bits)
  | unsignedLongLong =>
      rw [if_neg (by simp)]
      change extractUnsigned (if decimalInt bits.toNat = [] then ascii "0"
        else decimalInt bits.toNat) = _
      rw [if_neg (decimalInt_ne_nil _)]
      exact stream_back bits

/-- What a map reads of a character. -/
theorem strtoInt_tostr {type : IntegerType} (bits : BitVec type.width)
    (isCharacter : type = .char ∨ type = .unsignedChar) :
    strtoInt (tostr type bits) = digit (UInt8.ofNat bits.toNat) := by
  have formatted : ∀ bits : BitVec 8,
      strtoInt (formatChar bits) = digit (UInt8.ofNat bits.toNat) := by
    intro bits
    have same : UInt8.ofNat bits.toNat = ⟨bits⟩ :=
      UInt8.toBitVec_inj.mp (BitVec.ofNat_toNat 8 bits |>.trans
        (BitVec.setWidth_eq bits))
    rw [same, formatChar]
    split
    · next zero =>
        rw [zero]
        rfl
    · exact strtoInt_single _
  rcases isCharacter with rfl | rfl
  · exact formatted bits
  · exact formatted bits

theorem strtoInt_insertion {type : IntegerType} (bits : BitVec type.width)
    (isCharacter : type.isCharacter = true) :
    strtoInt (insertion type bits) = digit (UInt8.ofNat bits.toNat) := by
  rw [insertion, if_pos isCharacter]
  exact strtoInt_single _

/-- A digit is no digit again. -/
theorem digit_digit {width : ℕ} (wide : 8 ≤ width) (c : UInt8) :
    digit (UInt8.ofNat (BitVec.ofInt width (digit c)).toNat) = 0 := by
  have small := digit_le c
  have room : 2 ^ 8 ≤ 2 ^ width := Nat.pow_le_pow_right (by decide) wide
  have value : (BitVec.ofInt width (digit c)).toNat = digit c := by
    rw [BitVec.ofInt_natCast, BitVec.toNat_ofNat]
    exact Nat.mod_eq_of_lt (by omega)
  apply digit_small
  rw [value, UInt8.toNat_ofNat']
  exact (Nat.mod_le _ _).trans small

theorem ofInt_eq {width : ℕ} {value : ℤ} {bits : BitVec width}
    (same : (2 ^ width : ℤ) ∣ value - bits.toInt) :
    BitVec.ofInt width value = bits := by
  obtain ⟨turns, difference⟩ := same
  have whole : value = bits.toInt + ((2 ^ width : ℕ) : ℤ) * turns := by
    push_cast
    omega
  apply BitVec.eq_of_toInt_eq
  rw [BitVec.toInt_ofInt, whole, Int.add_mul_bmod_self_left,
    BitVec.toInt_bmod_cancel]

theorem number_dvd {type : IntegerType} (bits : BitVec type.width) :
    (2 ^ type.width : ℤ) ∣ type.number bits - bits.toInt := by
  rw [IntegerType.number]
  split
  · simp
  · rw [BitVec.toInt_eq_toNat_cond]
    split
    · simp
    · simp

theorem toInt_dvd {width : ℕ} (few : width ≤ 32) (value : ℤ) :
    (2 ^ width : ℤ) ∣ toInt value - value := by
  have whole : (2 ^ 32 : ℤ) ∣ toInt value - value := by
    unfold toInt
    omega
  exact (pow_dvd_pow 2 few).trans whole

theorem number_least (type : IntegerType) (bits : BitVec type.width) :
    -9223372036854775808 ≤ type.number bits := by
  have few : type.width - 1 ≤ 63 := by
    cases type <;> decide
  rw [IntegerType.number]
  split
  · have least : -2 ^ (type.width - 1) ≤ bits.toInt := BitVec.le_toInt bits
    have power : (2 : ℤ) ^ (type.width - 1) ≤ 2 ^ 63 :=
      pow_le_pow_right₀ (by decide) few
    omega
  · omega

theorem number_most {type : IntegerType} (few : type.width ≤ 32)
    (bits : BitVec type.width) : type.number bits ≤ 4294967296 := by
  have small : bits.toNat < 2 ^ 32 :=
    bits.isLt.trans_le (Nat.pow_le_pow_right (by decide) few)
  have most : bits.toInt ≤ bits.toNat := by
    rw [BitVec.toInt_eq_toNat_cond]
    split
    · exact le_rfl
    · omega
  rw [IntegerType.number]
  split <;> omega

theorem width_wide {type : IntegerType} (wide : ¬ type.width ≤ 32) :
    2 ^ type.width = 18446744073709551616 := by
  have width : type.width = 64 := by
    cases type <;> first
      | rfl
      | exact absurd (by decide) wide
  rw [width]
  norm_num

/-- An enumeration comes back through an `int`. -/
theorem ofInt_toInt_number {type : IntegerType} {bits : BitVec type.width}
    (fits : type.width ≤ 32 ∨
      -2147483648 ≤ bits.toInt ∧ bits.toInt < 2147483648 ∧
        (type.isSigned ∨ -1 ≤ bits.toInt)) :
    BitVec.ofInt type.width
      (toInt (min 9223372036854775807 (type.number bits))) = bits := by
  apply ofInt_eq
  by_cases few : type.width ≤ 32
  · have small := number_most few bits
    have sum := dvd_add (toInt_dvd few (type.number bits)) (number_dvd bits)
    rw [min_eq_right (by omega)]
    rwa [sub_add_sub_cancel] at sum
  · obtain ⟨least, most, signed⟩ := fits.resolve_left few
    have same : toInt (min 9223372036854775807 (type.number bits)) =
        bits.toInt := by
      have value := bits.toInt_eq_toNat_cond
      have small := bits.isLt
      rw [width_wide few] at value small
      rw [IntegerType.number]
      split
      · rw [min_eq_right (by omega), toInt_eq least most]
      · next unsigned =>
          have positive := signed.resolve_left unsigned
          by_cases negative : bits.toInt = -1
          · -- the one number beyond `LONG_MAX` for which `strtol` returns -1
            have large : (bits.toNat : ℤ) = 18446744073709551615 := by
              split at value <;> omega
            rw [large, negative]
            rfl
          · have equal : (bits.toNat : ℤ) = bits.toInt := by
              split at value <;> omega
            rw [equal, min_eq_right (by omega), toInt_eq least most]
    rw [same, sub_self]
    exact dvd_zero _

/-- What has come through an `int`. -/
theorem cast_toInt {type : IntegerType} (wide : ¬ type.width ≤ 32) {value : ℤ}
    {bits : BitVec type.width}
    (same : BitVec.ofInt type.width (toInt value) = bits) :
    bits.toInt = toInt value ∧ -2147483648 ≤ bits.toInt ∧
      bits.toInt < 2147483648 := by
  have exact_ : bits.toInt = toInt value := by
    rw [← same, BitVec.toInt_ofInt, width_wide wide]
    apply Int.bmod_eq_of_le
    · unfold toInt
      omega
    · unfold toInt
      omega
  refine ⟨exact_, ?_, ?_⟩
  · rw [exact_]
    unfold toInt
    omega
  · rw [exact_]
    exact toInt_lt value

/-- An enumerator that an `int` holds comes back. -/
theorem ofInt_toInt {type : IntegerType} {bits : BitVec type.width}
    (fits : type.width ≤ 32 ∨
      -2147483648 ≤ bits.toInt ∧ bits.toInt < 2147483648) :
    BitVec.ofInt type.width (toInt (type.number bits)) = bits := by
  apply ofInt_eq
  by_cases few : type.width ≤ 32
  · have sum := dvd_add (toInt_dvd few (type.number bits)) (number_dvd bits)
    rwa [sub_add_sub_cancel] at sum
  · obtain ⟨least, most⟩ := fits.resolve_left few
    have same : toInt (type.number bits) = bits.toInt := by
      have value := bits.toInt_eq_toNat_cond
      rw [width_wide few] at value
      rw [IntegerType.number]
      split
      · exact toInt_eq least most
      · unfold toInt
        split at value <;> omega
    rw [same, sub_self]
    exact dvd_zero _

theorem setWidth_ofInt {width : ℕ} (few : width ≤ 64) (value : ℤ) :
    (BitVec.ofInt 64 value).setWidth width = BitVec.ofInt width value := by
  apply BitVec.eq_of_toNat_eq
  rw [BitVec.toNat_setWidth, BitVec.toNat_ofInt, BitVec.toNat_ofInt]
  have divides : ((2 ^ width : ℕ) : ℤ) ∣ ((2 ^ 64 : ℕ) : ℤ) :=
    Int.natCast_dvd_natCast.mpr (pow_dvd_pow 2 few)
  have nonneg : 0 ≤ value % ((2 ^ 64 : ℕ) : ℤ) :=
    Int.emod_nonneg value (by norm_num)
  rw [← Int.emod_emod_of_dvd value divides,
    Int.toNat_emod nonneg (Int.natCast_nonneg _), Int.toNat_natCast]

theorem ofInt_number {type : IntegerType} (bits : BitVec type.width) :
    BitVec.ofInt type.width (type.number bits) = bits :=
  ofInt_eq (number_dvd bits)

theorem width_le (type : IntegerType) : type.width ≤ 64 := by
  cases type <;> decide

/-- What has come through an `int` twice comes back. -/
theorem twice_toInt_number {type : IntegerType} {value : ℤ}
    {bits bits' : BitVec type.width}
    (first : BitVec.ofInt type.width (toInt value) = bits)
    (second : BitVec.ofInt type.width
      (toInt (min 9223372036854775807 (type.number bits))) = bits') :
    type.width ≤ 32 ∨
      -2147483648 ≤ bits'.toInt ∧ bits'.toInt < 2147483648 ∧
        (type.isSigned ∨ -1 ≤ bits'.toInt) := by
  by_cases few : type.width ≤ 32
  · exact .inl few
  · right
    obtain ⟨-, least, most⟩ := cast_toInt few first
    obtain ⟨back, least', most'⟩ := cast_toInt few second
    refine ⟨least', most', ?_⟩
    by_cases signed : type.isSigned = true
    · exact .inl signed
    · right
      have value := bits.toInt_eq_toNat_cond
      have small := bits.isLt
      rw [width_wide few] at value small
      rw [IntegerType.number, if_neg signed] at back
      by_cases positive : 0 ≤ bits.toInt
      · have equal : (bits.toNat : ℤ) = bits.toInt := by
          split at value <;> omega
        rw [equal, min_eq_right (by omega), toInt_eq least most] at back
        omega
      · have large : 9223372036854775807 ≤ (bits.toNat : ℤ) := by
          split at value <;> omega
        rw [min_eq_left large] at back
        rw [back]
        rfl

/-- The integers that come back as keys. -/
def IntegerFits (container : Container) (type : IntegerType)
    (value : BitVec type.width) : Prop :=
  if container = .map ∧ (type = .char ∨ type = .unsignedChar) then
    value = 0
  else
    ¬ (type = .signedChar ∧ isspace (UInt8.ofNat value.toNat))

/-- The enumerators that come back as keys. -/
def EnumFits (underlying : IntegerType) (value : BitVec underlying.width) :
    Prop :=
  if underlying.isCharacter then
    value = 0
  else
    underlying.width ≤ 32 ∨
      -2147483648 ≤ value.toInt ∧ value.toInt < 2147483648 ∧
        (underlying.isSigned ∨ -1 ≤ value.toInt)

section Integers

variable {container : Container} {type : IntegerType}
  {value value' value'' : BitVec type.width}

theorem readInteger_tostr
    (known : type ∉ [IntegerType.wchar, .char16, .char32])
    (fits : IntegerFits container type value) :
    readInteger container type (tostr type value) = .ok value := by
  rw [IntegerFits] at fits
  rw [readInteger]
  split
  · next special =>
      rw [if_pos special] at fits
      rw [fits]
      rcases special.2 with rfl | rfl
      · rfl
      · rfl
  · next other =>
      rw [if_neg other] at fits
      rw [strto_tostr type value known, if_neg fits]

theorem readInteger_twice
    (first : readInteger container type (tostr type value) = .ok value')
    (second : readInteger container type (tostr type value') = .ok value'') :
    IntegerFits container type value'' := by
  rw [readInteger] at first second
  rw [IntegerFits]
  split
  · next special =>
      have wide : 8 ≤ type.width := by
        rcases special.2 with rfl | rfl
        · exact le_rfl
        · exact le_rfl
      rw [if_pos special, strtoInt_tostr _ special.2] at first second
      rw [← Except.ok.inj second, ← Except.ok.inj first, digit_digit wide]
      exact BitVec.ofInt_natCast _ 0
  · next other =>
      have known : type ∉ [IntegerType.wchar, .char16, .char32] := by
        intro unknown
        simp only [List.mem_cons, List.not_mem_nil, or_false] at unknown
        rw [if_neg other] at first
        rcases unknown with rfl | rfl | rfl
        · cases first
        · cases first
        · cases first
      rw [if_neg other, strto_tostr type _ known] at second
      split at second
      · cases second
      · next solid =>
          rw [← Except.ok.inj second]
          exact solid

theorem readEnum_insertion (isMap : container = .map)
    (fits : EnumFits type value) :
    readEnum container type (insertion type value) = .ok value := by
  rw [EnumFits] at fits
  rw [readEnum, if_pos isMap]
  split at fits
  · next isCharacter =>
      rw [strtoInt_insertion value isCharacter, fits]
      exact congrArg Except.ok (BitVec.ofInt_natCast _ 0)
  · next other =>
      rw [insertion, if_neg other,
        strtoInt_decimalInt (number_least type value), ofInt_toInt_number fits]

theorem readEnum_twice
    (first : readEnum container type (insertion type value) = .ok value')
    (second : readEnum container type (insertion type value') = .ok value'') :
    EnumFits type value'' := by
  rw [readEnum] at first second
  rw [EnumFits]
  split at first
  · next isMap =>
      rw [if_pos isMap] at second
      split
      · next isCharacter =>
          have wide : 8 ≤ type.width := by
            cases type <;> decide
          rw [strtoInt_insertion _ isCharacter] at first second
          rw [← Except.ok.inj second, ← Except.ok.inj first, digit_digit wide]
          exact BitVec.ofInt_natCast _ 0
      · next other =>
          rw [insertion, if_neg other,
            strtoInt_decimalInt (number_least type _)] at first second
          exact twice_toInt_number (Except.ok.inj first)
            (Except.ok.inj second)
  · cases first

end Integers

namespace Key

/-- The keys that come back. -/
def Fits (container : Container) : (key : Key) → key.Value → Prop
  | string, _ => True
  | integer type, value => IntegerFits container type value
  | enum _ underlying, value => EnumFits underlying value

variable {container : Container} {key : Key} {value value' value'' : key.Value}

theorem read_tostr (compiles : key.compiles container = true)
    (fits : key.Fits container value) :
    key.read container (key.tostr value) = .ok value := by
  cases key with
  | string => rfl
  | integer type =>
      exact readInteger_tostr (of_decide_eq_true compiles) fits
  | enum isScoped underlying =>
      have isMap := (Bool.and_eq_true_iff.mp compiles).2
      exact readEnum_insertion (of_decide_eq_true isMap) fits

/-- Keys that have been written and read twice come back. -/
theorem fits_of_twice
    (first : key.read container (key.tostr value) = .ok value')
    (second : key.read container (key.tostr value') = .ok value'') :
    key.Fits container value'' := by
  cases key with
  | string => trivial
  | integer type => exact readInteger_twice first second
  | enum isScoped underlying => exact readEnum_twice first second

end Key

end TarsCpp.Json
