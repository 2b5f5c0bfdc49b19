import TarsCpp.Base64.RoundTrip

/-!
# Encoded texts

The groups that the encoder writes are pieces that give the bytes back, and the
buffer that it asks for is large enough, as long as its size is an `int`.
-/

namespace TarsCpp.Base64

open CString DoubleRounding

theorem first_eq (nValue : Nat) :
    first nValue = UInt8.ofNat (nValue / 65536) := by
  have byte : (nValue &&& 0x00ff0000) >>> 16 = nValue / 65536 % 256 := by
    rw [Nat.shiftRight_and_distrib, Nat.shiftRight_eq_div_pow]
    exact Nat.and_two_pow_sub_one_eq_mod _ 8
  rw [first, byte]
  apply UInt8.toNat.inj
  simp

theorem second_eq (nValue : Nat) :
    second nValue = UInt8.ofNat (nValue / 256) := by
  have byte : (nValue &&& 0x0000ff00) >>> 8 = nValue / 256 % 256 := by
    rw [Nat.shiftRight_and_distrib, Nat.shiftRight_eq_div_pow]
    exact Nat.and_two_pow_sub_one_eq_mod _ 8
  rw [second, byte]
  apply UInt8.toNat.inj
  simp

theorem third_eq (nValue : Nat) : third nValue = UInt8.ofNat nValue := by
  have byte : nValue &&& 0x000000ff = nValue % 256 :=
    Nat.and_two_pow_sub_one_eq_mod _ 8
  rw [third, byte]
  apply UInt8.toNat.inj
  simp

/-- Two parts of a byte side by side. -/
theorem or_eq_add {high low width : Nat} (small : low < 2 ^ width) :
    high <<< width ||| low = high * 2 ^ width + low := by
  rw [← Nat.shiftLeft_add_eq_or_of_lt small, Nat.shiftLeft_eq]

theorem and_low (n width : Nat) :
    n &&& (2 ^ width - 1) = n % 2 ^ width :=
  Nat.and_two_pow_sub_one_eq_mod n width

section Bits

variable (c1 c2 c3 : UInt8)

theorem bits_first : c1.toNat >>> 2 = c1.toNat / 4 :=
  Nat.shiftRight_eq_div_pow _ 2

theorem bits_second :
    (c1.toNat <<< 4 ||| c2.toNat >>> 4) &&& 0x3f =
      c1.toNat % 4 * 16 + c2.toNat / 16 := by
  have byte := c2.toNat_lt
  have mask := and_low (c1.toNat <<< 4 ||| c2.toNat >>> 4) 6
  have small : c2.toNat >>> 4 < 2 ^ 4 := by
    rw [Nat.shiftRight_eq_div_pow]
    omega
  rw [or_eq_add small, Nat.shiftRight_eq_div_pow] at mask
  rw [or_eq_add small, Nat.shiftRight_eq_div_pow]
  exact mask.trans (by omega)

theorem bits_third :
    (c2.toNat <<< 2 ||| c3.toNat >>> 6) &&& 0x3f =
      c2.toNat % 16 * 4 + c3.toNat / 64 := by
  have byte := c3.toNat_lt
  have mask := and_low (c2.toNat <<< 2 ||| c3.toNat >>> 6) 6
  have small : c3.toNat >>> 6 < 2 ^ 2 := by
    rw [Nat.shiftRight_eq_div_pow]
    omega
  rw [or_eq_add small, Nat.shiftRight_eq_div_pow] at mask
  rw [or_eq_add small, Nat.shiftRight_eq_div_pow]
  exact mask.trans (by omega)

theorem bits_fourth : c3.toNat &&& 0x3f = c3.toNat % 64 := and_low c3.toNat 6

/-- The masks at the end of the text. -/
theorem bits_high : (c1.toNat &&& 0xfc) >>> 2 = c1.toNat / 4 := by
  have byte := c1.toNat_lt
  have mask := and_low (c1.toNat / 4) 6
  rw [Nat.shiftRight_and_distrib, Nat.shiftRight_eq_div_pow]
  exact mask.trans (by omega)

theorem bits_low : (c1.toNat &&& 0x03) <<< 4 = c1.toNat % 4 * 16 := by
  rw [Nat.shiftLeft_eq]
  exact congrArg (· * 16) (and_low c1.toNat 2)

theorem bits_middle :
    (c1.toNat &&& 0x03) <<< 4 ||| (c2.toNat &&& 0xf0) >>> 4 =
      c1.toNat % 4 * 16 + c2.toNat / 16 := by
  have byte := c2.toNat_lt
  have half : (c2.toNat &&& 0xf0) >>> 4 = c2.toNat / 16 := by
    have mask := and_low (c2.toNat / 16) 4
    rw [Nat.shiftRight_and_distrib, Nat.shiftRight_eq_div_pow]
    exact mask.trans (by omega)
  have low : c1.toNat &&& 0x03 = c1.toNat % 4 := and_low c1.toNat 2
  rw [half, low]
  exact or_eq_add (by omega)

theorem bits_end : (c2.toNat &&& 0x0f) <<< 2 = c2.toNat % 16 * 4 := by
  rw [Nat.shiftLeft_eq]
  exact congrArg (· * 4) (and_low c2.toNat 4)

end Bits

theorem encoded_facts : ∀ v < 64, value (encoded v) = v ∧ encoded v < 128 ∧
    encoded v ≠ 13 ∧ encoded v ≠ 10 ∧ encoded v ≠ 61 := by
  decide +kernel

theorem ofNat_byte {n : Nat} {c : UInt8} (same : n % 256 = c.toNat) :
    UInt8.ofNat n = c := by
  apply UInt8.toNat.inj
  rw [UInt8.toNat_ofNat', same]

section Groups

variable {c1 c2 c3 : UInt8}

/-- The digits of three bytes. -/
def digits (c1 c2 c3 : UInt8) : List UInt8 :=
  [encoded (c1.toNat / 4), encoded (c1.toNat % 4 * 16 + c2.toNat / 16),
   encoded (c2.toNat % 16 * 4 + c3.toNat / 64), encoded (c3.toNat % 64)]

/-- A digit is neither a line break nor an equals sign. -/
structure Digit (c : UInt8) : Prop where
  low : c < 128
  unbroken : ¬ (c = 13 ∨ c = 10)
  other : c ≠ 61

theorem digit_encoded {v : Nat} (small : v < 64) : Digit (encoded v) := by
  obtain ⟨_, low, cr, lf, equals⟩ := encoded_facts v small
  exact ⟨low, fun either => either.elim cr lf, equals⟩

theorem value_encoded {v : Nat} (small : v < 64) : value (encoded v) = v :=
  (encoded_facts v small).1

theorem first_encoded {v2 : Nat} (small : v2 < 64)
    (high : v2 / 16 = c1.toNat % 4) :
    first (pair (encoded (c1.toNat / 4)) (encoded v2)) = c1 := by
  have byte := c1.toNat_lt
  rw [first_eq, pair, value_encoded (by omega), value_encoded small,
    Nat.shiftLeft_eq, Nat.shiftLeft_eq]
  apply ofNat_byte
  omega

theorem second_encoded {v3 : Nat} (small : v3 < 64)
    (high : v3 / 4 = c2.toNat % 16) :
    second (triple (encoded (c1.toNat / 4))
      (encoded (c1.toNat % 4 * 16 + c2.toNat / 16)) (encoded v3)) = c2 := by
  have byte1 := c1.toNat_lt
  have byte2 := c2.toNat_lt
  rw [second_eq, triple, pair, value_encoded (by omega),
    value_encoded (by omega), value_encoded small, Nat.shiftLeft_eq,
    Nat.shiftLeft_eq, Nat.shiftLeft_eq]
  apply ofNat_byte
  omega

theorem third_encoded :
    third (quadruple (encoded (c1.toNat / 4))
      (encoded (c1.toNat % 4 * 16 + c2.toNat / 16))
      (encoded (c2.toNat % 16 * 4 + c3.toNat / 64))
      (encoded (c3.toNat % 64))) = c3 := by
  have byte1 := c1.toNat_lt
  have byte2 := c2.toNat_lt
  have byte3 := c3.toNat_lt
  rw [third_eq, quadruple, triple, pair, value_encoded (by omega),
    value_encoded (by omega), value_encoded (by omega),
    value_encoded (by omega), Nat.shiftLeft_eq, Nat.shiftLeft_eq,
    Nat.shiftLeft_eq]
  apply ofNat_byte
  omega

end Groups

/-- The text gives these bytes. -/
def Gives (text data : List UInt8) : Prop :=
  ∀ turns, text.length ≤ turns → written (pieces turns text) = data ∧
    ∀ piece ∈ pieces turns text, piece.Low

theorem gives_nil : Gives [] [] := by
  intro turns _
  cases turns <;> simp [pieces, piece, written]

theorem gives_piece {text data : List UInt8} {piece : Piece}
    (found : Base64.piece text = some piece)
    (low : ∀ c ∈ piece.consulted, c < 128) (later : Gives piece.rest data) :
    Gives text (piece.written ++ data) := by
  intro turns enough
  have shorter := piece_length found
  cases turns with
  | zero => omega
  | succ turns =>
      obtain ⟨same, lows⟩ := later turns (by omega)
      rw [pieces, found]
      refine ⟨?_, List.forall_mem_cons.mpr ⟨low, lows⟩⟩
      rw [written, List.flatMap_cons]
      exact congrArg _ same

theorem gives_break {c : UInt8} {text data : List UInt8}
    (lineBreak : c = 13 ∨ c = 10) (later : Gives text data) :
    Gives (c :: text) data := by
  have found : piece (c :: text) = some ⟨[], [], text⟩ := by
    rw [piece, if_pos lineBreak]
  exact gives_piece found (by simp) later

/-- Equals signs at the end of a text. -/
theorem gives_equals {count : Nat} (few : count ≤ 2) :
    Gives (List.replicate count 61) [] := by
  intro turns _
  have none_ : piece (List.replicate count 61) = none := by
    interval_cases count <;> rfl
  cases turns with
  | zero => simp [pieces, written]
  | succ turns => simp [pieces, none_, written]

section Groups

variable {c1 c2 c3 : UInt8} {text data : List UInt8}

theorem gives_digits (later : Gives text data) :
    Gives (digits c1 c2 c3 ++ text) (c1 :: c2 :: c3 :: data) := by
  have byte1 := c1.toNat_lt
  have byte2 := c2.toNat_lt
  have byte3 := c3.toNat_lt
  have one : Digit (encoded (c1.toNat / 4)) := digit_encoded (by omega)
  have two : Digit (encoded (c1.toNat % 4 * 16 + c2.toNat / 16)) :=
    digit_encoded (by omega)
  have three : Digit (encoded (c2.toNat % 16 * 4 + c3.toNat / 64)) :=
    digit_encoded (by omega)
  have four : Digit (encoded (c3.toNat % 64)) := digit_encoded (by omega)
  have found : piece (digits c1 c2 c3 ++ text) =
      some ⟨digits c1 c2 c3, [c1, c2, c3], text⟩ := by
    change piece (_ :: _ :: _ :: _ :: text) = _
    rw [piece, if_neg one.unbroken, group, if_neg three.other, fourth,
      if_neg four.other, first_encoded (by omega) (by omega),
      second_encoded (by omega) (by omega), third_encoded, digits]
  refine gives_piece found ?_ later
  simp [digits, one.low, two.low, three.low, four.low]

theorem gives_one :
    Gives [encoded (c1.toNat / 4), encoded (c1.toNat % 4 * 16), 61, 61]
      [c1] := by
  have byte1 := c1.toNat_lt
  have one : Digit (encoded (c1.toNat / 4)) := digit_encoded (by omega)
  have two : Digit (encoded (c1.toNat % 4 * 16)) := digit_encoded (by omega)
  have found : piece [encoded (c1.toNat / 4), encoded (c1.toNat % 4 * 16),
      61, 61] = some ⟨[encoded (c1.toNat / 4), encoded (c1.toNat % 4 * 16)],
        [c1], [61, 61]⟩ := by
    rw [piece, if_neg one.unbroken, group, if_pos rfl,
      first_encoded (by omega) (by omega)]
  have low : ∀ c ∈ [encoded (c1.toNat / 4), encoded (c1.toNat % 4 * 16)],
      c < 128 := by
    simp [one.low, two.low]
  exact gives_piece found low (@gives_equals 2 (by omega))

theorem gives_two :
    Gives [encoded (c1.toNat / 4),
      encoded (c1.toNat % 4 * 16 + c2.toNat / 16),
      encoded (c2.toNat % 16 * 4), 61] [c1, c2] := by
  have byte1 := c1.toNat_lt
  have byte2 := c2.toNat_lt
  have one : Digit (encoded (c1.toNat / 4)) := digit_encoded (by omega)
  have two : Digit (encoded (c1.toNat % 4 * 16 + c2.toNat / 16)) :=
    digit_encoded (by omega)
  have three : Digit (encoded (c2.toNat % 16 * 4)) := digit_encoded (by omega)
  have found : piece [encoded (c1.toNat / 4),
      encoded (c1.toNat % 4 * 16 + c2.toNat / 16),
      encoded (c2.toNat % 16 * 4), 61] =
      some ⟨[encoded (c1.toNat / 4),
        encoded (c1.toNat % 4 * 16 + c2.toNat / 16),
        encoded (c2.toNat % 16 * 4)], [c1, c2], [61]⟩ := by
    rw [piece, if_neg one.unbroken, group, if_neg three.other, fourth,
      if_pos rfl, first_encoded (by omega) (by omega),
      second_encoded (by omega) (by omega)]
  refine gives_piece found ?_ (@gives_equals 1 (by omega))
  simp [one.low, two.low, three.low]

end Groups

theorem digits_eq (c1 c2 c3 : UInt8) :
    [encoded (c1.toNat >>> 2),
      encoded ((c1.toNat <<< 4 ||| c2.toNat >>> 4) &&& 0x3f),
      encoded ((c2.toNat <<< 2 ||| c3.toNat >>> 6) &&& 0x3f),
      encoded (c3.toNat &&& 0x3f)] = digits c1 c2 c3 := by
  rw [bits_first, bits_second, bits_third, bits_fourth, digits]

/-- What is encoded is given back. -/
theorem gives_encodeFrom (bChangeLine : Bool) (nLineLen : Nat)
    (data : List UInt8) :
    Gives (encodeFrom bChangeLine nLineLen data) data := by
  fun_induction encodeFrom bChangeLine nLineLen data with
  | case1 nLineLen c1 c2 c3 pSrc group full induction =>
      have same : group = digits c1 c2 c3 := digits_eq c1 c2 c3
      rw [same]
      exact gives_digits
        (gives_break (.inl rfl) (gives_break (.inr rfl) induction))
  | case2 nLineLen c1 c2 c3 pSrc group more induction =>
      have same : group = digits c1 c2 c3 := digits_eq c1 c2 c3
      rw [same]
      exact gives_digits induction
  | case3 nLineLen c1 =>
      rw [bits_high, bits_low]
      exact gives_one
  | case4 nLineLen c1 c2 =>
      rw [bits_high, bits_middle, bits_end]
      exact gives_two
  | case5 nLineLen => exact gives_nil

/-- Four bytes for three, and a line break behind nineteen groups. -/
theorem length_encodeFrom (bChangeLine : Bool) (nLineLen : Nat)
    (data : List UInt8) (aligned : nLineLen % 4 = 0)
    (short : bChangeLine = true → nLineLen ≤ 72) :
    (encodeFrom bChangeLine nLineLen data).length ≤
      (data.length + 2) / 3 * 4 +
        (nLineLen / 4 + data.length / 3) / 19 * 2 := by
  fun_induction encodeFrom bChangeLine nLineLen data with
  | case1 nLineLen c1 c2 c3 pSrc group full induction =>
      have following := induction rfl fun _ => Nat.zero_le 72
      simp only [Bool.and_eq_true, decide_eq_true_eq] at full
      have room := short full.1
      simp only [group, List.length_append, List.length_cons,
        List.length_nil]
      omega
  | case2 nLineLen c1 c2 c3 pSrc group more induction =>
      have following := induction (by omega) fun change => by
        simpa [change] using more
      simp only [group, List.length_append, List.length_cons,
        List.length_nil]
      omega
  | case3 nLineLen c1 =>
      simp only [List.length_cons, List.length_nil]
      omega
  | case4 nLineLen c1 c2 =>
      simp only [List.length_cons, List.length_nil]
      omega
  | case5 nLineLen => exact Nat.zero_le _

/-- `1.4` is not quite seven fifths. -/
theorem factor_bounds :
    7 / 5 - 7 / 5 / 2 ^ 53 ≤ toDouble (7 / 5) ∧
      toDouble (7 / 5) ≤ 7 / 5 + 7 / 5 / 2 ^ 53 := by
  have near := abs_le.mp (abs_toDouble_sub_le (by norm_num : (0 : ℚ) < 7 / 5))
  constructor <;> linarith

/-- The largest text whose buffer has an `int` as its size. -/
def maxSize : Nat := 1533916887

section Sizes

variable {size : Nat}

theorem scaledSize_bounds (some_ : 0 < size) (fits : size ≤ maxSize) :
    (size : ℚ) * (7 / 5) - 1 / 1000 ≤ scaledSize size ∧
      scaledSize size ≤ size * (7 / 5) + 1 / 1000 := by
  have least : (1 : ℚ) ≤ size := by exact_mod_cast some_
  have most : (size : ℚ) ≤ 1533916887 := by exact_mod_cast fits
  obtain ⟨below, above⟩ := factor_bounds
  have whole : toDouble (size : ℚ) = size :=
    toDouble_natCast (fits.trans_lt (by norm_num [maxSize]))
  have low : (size : ℚ) * (7 / 5 - 7 / 5 / 2 ^ 53) ≤
      size * toDouble (7 / 5) := mul_le_mul_of_nonneg_left below (by linarith)
  have high : (size : ℚ) * toDouble (7 / 5) ≤
      size * (7 / 5 + 7 / 5 / 2 ^ 53) :=
    mul_le_mul_of_nonneg_left above (by linarith)
  have near := abs_le.mp (abs_toDouble_sub_le
    (by linarith : 0 < (size : ℚ) * toDouble (7 / 5)))
  rw [scaledSize, whole]
  constructor <;> linarith

theorem scaledSize_large (large : maxSize < size) :
    2147483643 ≤ scaledSize size := by
  have least : (1533916888 : ℚ) ≤ size := by exact_mod_cast large
  obtain ⟨below, above⟩ := factor_bounds
  have rounded := abs_le.mp (abs_toDouble_sub_le
    (by linarith : (0 : ℚ) < size))
  have double : (1533916888 : ℚ) - 1 / 1000 ≤ toDouble size := by linarith
  have product : ((1533916888 : ℚ) - 1 / 1000) * (7 / 5 - 7 / 5 / 2 ^ 53) ≤
      toDouble size * toDouble (7 / 5) := by
    gcongr
  have near := abs_le.mp (abs_toDouble_sub_le
    (by linarith : 0 < toDouble size * toDouble (7 / 5)))
  rw [scaledSize]
  linarith

end Sizes

section Encode

variable {data : List UInt8} {bChangeLine : Bool}

theorem encode_small (fits : data.length ≤ maxSize) :
    encode data bChangeLine = .ok (encodeFrom bChangeLine 0 data) := by
  rcases Nat.eq_zero_or_pos data.length with empty | some_
  · rw [List.length_eq_zero_iff.mp empty]
    rfl
  · obtain ⟨low, high⟩ := scaledSize_bounds some_ fits
    have least : (1 : ℚ) ≤ data.length := by exact_mod_cast some_
    have text := length_encodeFrom bChangeLine 0 data rfl
      fun _ => Nat.zero_le 72
    have floor : truncate (scaledSize data.length) =
        ⌊scaledSize data.length⌋ := if_pos (by linarith)
    have above := Int.floor_le (scaledSize data.length)
    have below := Int.lt_floor_add_one (scaledSize data.length)
    rw [← floor] at above below
    have large : 7000 * (data.length : ℤ) - 5005 <
        5000 * truncate (scaledSize data.length) := by
      have large : 7000 * (data.length : ℚ) - 5005 <
          5000 * (truncate (scaledSize data.length) : ℚ) := by linarith
      exact_mod_cast large
    have small : 5000 * truncate (scaledSize data.length) ≤
        7000 * (data.length : ℤ) + 5 := by
      have small : 5000 * (truncate (scaledSize data.length) : ℚ) ≤
          7000 * (data.length : ℚ) + 5 := by linarith
      exact_mod_cast small
    unfold maxSize at fits
    have fine : ¬ truncate (scaledSize data.length) + 6 ≥ 2 ^ 31 := by omega
    have room : ¬ ((encodeFrom bChangeLine 0 data).length + 1 : ℤ) >
        truncate (scaledSize data.length) + 6 := by omega
    have started : ¬ data.isEmpty := by
      simpa using List.length_pos_iff.mp some_
    rw [encode, if_neg started]
    simp only
    rw [if_neg fine, if_neg room]

theorem encode_large (large : maxSize < data.length) :
    encode data bChangeLine = .error .overflow := by
  have least := scaledSize_large large
  have floor : truncate (scaledSize data.length) =
      ⌊scaledSize data.length⌋ := if_pos (by linarith)
  have above : 2147483643 ≤ truncate (scaledSize data.length) := by
    rw [floor]
    exact Int.le_floor.mpr (by exact_mod_cast least)
  have started : ¬ data.isEmpty := by
    have some_ : data ≠ [] := by
      rintro rfl
      cases large
    simpa using some_
  rw [encode, if_neg started]
  exact if_pos (by omega)

end Encode

/-- Encoding stays in its buffer, and decoding gives the bytes back. -/
def RoundTrip (data : List UInt8) (bChangeLine : Bool) : Prop :=
  ∃ text, encode data bChangeLine = .ok text ∧ decode text = .ok data

theorem roundTrip_iff (data : List UInt8) (bChangeLine : Bool) :
    RoundTrip data bChangeLine ↔ data.length ≤ maxSize := by
  constructor
  · rintro ⟨text, encodes, _⟩
    by_contra large
    rw [encode_large (Nat.lt_of_not_le large)] at encodes
    cases encodes
  · intro fits
    refine ⟨_, encode_small fits, ?_⟩
    obtain ⟨same, low⟩ := gives_encodeFrom bChangeLine 0 data _ le_rfl
    by_cases empty : encodeFrom bChangeLine 0 data = []
    · rw [empty] at same ⊢
      rw [← same]
      rfl
    · have size : toInt data.length = data.length :=
        toInt_eq (by omega) (by unfold maxSize at fits; omega)
      have word : ((data.length : ℤ) % 2 ^ 64).toNat = data.length := by
        unfold maxSize at fits
        omega
      rw [decode_low empty low]
      simp only [same]
      rw [size, word, if_neg (lt_irrefl _), List.take_length]

/-- The bytes come back exactly from those texts whose buffer has an `int` as
its size, and decoding is safe exactly if no byte of a group is negative. -/
theorem base64_iff (data : List UInt8) (bChangeLine : Bool)
    (text : List UInt8) :
    (RoundTrip data bChangeLine ↔ data.length ≤ 1533916887) ∧
    (Safe text ↔
      ∀ piece ∈ pieces text.length text, ∀ c ∈ piece.consulted, c < 128) :=
  ⟨roundTrip_iff data bChangeLine, safe_iff text⟩

/-- A negative index. -/
theorem decode_negative : ¬ Safe [255, 65, 65, 65] := by
  intro safe
  have failed : decode [255, 65, 65, 65] = .error .outsideTable := by
    decide +kernel
  exact absurd (safe _ failed) (by decide)

end TarsCpp.Base64
