import TarsCpp.Tea.Streams

/-!
# `TC_Tea::decrypt` undoes `TC_Tea::encrypt`

Decryption finds the length of the padding, the body and the zeros in the bytes
that the blocks contain, and accesses nothing else.  What was encrypted comes
back if `encrypt` does not lose it: bytes that are written behind the elements
of a vector are overwritten when they become elements.
-/

namespace TarsCpp.Tea

open BlockChaining CString

section Decryption

variable {pKey : Key} {sIn : List UInt8} {length size pOutBufLen : Nat}

/-- The length of the padding. -/
def padding (pKey : Key) (sIn : List UInt8) : Nat :=
  (plainByte pKey sIn 0 &&& 0x7).toNat

theorem ok_bind {α β : Type} (value : α) (next : α → Except Stop β) :
    (Except.ok value : Except Stop α) >>= next = next value := rfl

theorem padding_lt (pKey : Key) (sIn : List UInt8) : padding pKey sIn < 8 := by
  have mask := Nat.and_two_pow_sub_one_eq_mod (plainByte pKey sIn 0).toNat 3
  rw [padding, UInt8.toNat_and]
  exact mask.trans_lt (Nat.mod_lt _ (by decide))

theorem dest_zero :
    TeaDecryptECB (blocks sIn 0) pKey 0 = plainByte pKey sIn 0 := by
  change _ = xor (TeaDecryptECB (blocks sIn 0) pKey) (fun _ => 0) 0
  simp [xor]

/-- The bytes behind the body are zero. -/
def ZeroEnd (pKey : Key) (sIn : List UInt8) (length : Nat) : Prop :=
  ∀ i < ZERO_LEN, plainByte pKey sIn (length - ZERO_LEN + i) = 0

/-- The bytes of the body. -/
def body (pKey : Key) (sIn : List UInt8) (length : Nat) : List UInt8 :=
  (List.range (length - padding pKey sIn - 10)).map fun i =>
    plainByte pKey sIn (1 + padding pKey sIn + SALT_LEN + i)

/-- The state in which the loops begin. -/
def opening (pKey : Key) (sIn : List UInt8) : Decryption where
  dest_buf := TeaDecryptECB (blocks sIn 0) pKey
  dest_i := 1 + padding pKey sIn
  iv_pre_crypt := none
  iv_cur_crypt := some 0
  pInBuf := 8
  nBufPos := 8
  pOutBuf := []

theorem at_opening (least : 16 ≤ length) :
    Decryption.At pKey sIn length (1 + padding pKey sIn)
      (opening pKey sIn) where
  fits := by
    have few := padding_lt pKey sIn
    change 1 + padding pKey sIn ≤ 8
    omega
  block := by
    refine ⟨0, ?_, by omega, rfl, rfl, rfl, rfl, rfl⟩
    change 1 + padding pKey sIn = 8 * 0 + (1 + padding pKey sIn)
    omega

theorem oi_symmetry_decrypt2_eq (aligned : length % 8 = 0)
    (least : 16 ≤ length) (within : length ≤ sIn.length)
    (space : length ≤ pOutBufLen) :
    oi_symmetry_decrypt2 sIn length pKey size pOutBufLen =
      if length < padding pKey sIn + 10 then .error .rejected
      else Decryption.loops sIn length pKey size
        (length - padding pKey sIn - 10) (opening pKey sIn) := by
  have accepted : ¬ ((length : Int).tmod 8 ≠ 0 ∨ (length : Int) < 16) := by
    have whole : (length : Int).tmod 8 = 0 := by
      rw [Int.tmod_eq_emod_of_nonneg (by omega)]
      omega
    omega
  have block : readBlock sIn = .ok (blocks sIn 0) := by
    rw [readBlock, if_neg (by omega)]
    congr 1
    funext j
    rw [blocks, Nat.mul_zero, Nat.zero_add]
  have pad : (TeaDecryptECB (blocks sIn 0) pKey 0 &&& 0x7).toNat =
      padding pKey sIn := by
    rw [dest_zero, padding]
  have plain : ((length : Int) - 1 - padding pKey sIn - SALT_LEN -
      ZERO_LEN).toNat = length - padding pKey sIn - 10 := by
    simp only [SALT_LEN, ZERO_LEN]
    omega
  have few := padding_lt pKey sIn
  rw [oi_symmetry_decrypt2, if_neg accepted, block]
  simp only [bind, Except.bind, pad, Int.toNat_natCast, plain]
  by_cases short : length < padding pKey sIn + 10
  · rw [if_pos short, if_pos]
    simp only [SALT_LEN, ZERO_LEN]
    omega
  · rw [if_neg short, if_neg]
    · rfl
    · simp only [SALT_LEN, ZERO_LEN]
      omega

/-- A text of whole blocks is rejected, or its body is written. -/
theorem oi_symmetry_decrypt2_cases (aligned : length % 8 = 0)
    (least : 16 ≤ length) (within : length ≤ sIn.length)
    (space : length ≤ pOutBufLen) (room : length ≤ size) :
    (padding pKey sIn + 10 ≤ length ∧ ZeroEnd pKey sIn length →
      oi_symmetry_decrypt2 sIn length pKey size pOutBufLen =
        .ok (body pKey sIn length)) ∧
    (¬ (padding pKey sIn + 10 ≤ length ∧ ZeroEnd pKey sIn length) →
      oi_symmetry_decrypt2 sIn length pKey size pOutBufLen =
        .error .rejected) := by
  have salt : SALT_LEN = 2 := rfl
  have zero : ZERO_LEN = 7 := rfl
  rw [oi_symmetry_decrypt2_eq aligned least within space]
  by_cases long : padding pKey sIn + 10 ≤ length
  · obtain ⟨salted, skips, at₁, out₁⟩ :=
      @Decryption.At.skip _ _ _ _ _ aligned within SALT_LEN
        (@at_opening pKey sIn length least) (by omega)
    have empty : salted.pOutBuf = [] := out₁
    obtain ⟨copied, copies, at₂, out₂⟩ :=
      @Decryption.At.copy _ _ _ size _ _ aligned within
        (length - padding pKey sIn - 10) at₁ (by omega) (by
          rw [empty, List.length_nil]
          omega)
    obtain ⟨zeros, others⟩ :=
      @Decryption.At.check _ _ _ _ _ aligned within ZERO_LEN at₂ (by omega)
    have last : 1 + padding pKey sIn + SALT_LEN +
        (length - padding pKey sIn - 10) = length - ZERO_LEN := by
      omega
    rw [last] at zeros others
    rw [empty, List.nil_append] at out₂
    have run : Decryption.loops sIn length pKey size
        (length - padding pKey sIn - 10) (opening pKey sIn) =
        Decryption.check sIn length pKey ZERO_LEN copied >>= fun checked =>
          pure checked.pOutBuf := by
      rw [Decryption.loops, skips, ok_bind, copies, ok_bind]
    rw [if_neg (by omega), run]
    refine ⟨fun accepted => ?_, fun refused => ?_⟩
    · obtain ⟨checked, checks, out₃⟩ := zeros accepted.2
      rw [checks, ok_bind, out₃, out₂, body]
      rfl
    · rw [others fun all => refused ⟨long, all⟩]
      rfl
  · rw [if_pos (by omega)]
    exact ⟨fun accepted => absurd accepted.1 long, fun _ => rfl⟩

end Decryption

namespace Buffer

variable {buffer : Buffer} {text : List UInt8} {size : Nat}

theorem size_resize : (buffer.resize size).size = size := by
  rw [resize]
  split <;> rfl

/-- What was an element stays one. -/
theorem elements_write_resize (room : text.length ≤ buffer.size) :
    ((buffer.write text).resize text.length).elements = text := by
  rw [resize, dif_pos (show text.length ≤ (buffer.write text).size from room)]
  exact List.take_left

/-- What was behind the elements is overwritten. -/
theorem elements_write_resize_of_lt (behind : buffer.size < text.length) :
    ((buffer.write text).resize text.length).elements =
      text.take buffer.size ++
        List.replicate (text.length - buffer.size) 0 := by
  have grows : ¬ text.length ≤ (buffer.write text).size := Nat.not_le.mpr behind
  have elements : (buffer.write text).elements = text.take buffer.size :=
    List.take_append_of_le_length behind.le
  rw [resize, dif_neg grows]
  change List.take text.length ((buffer.write text).elements ++
    List.replicate (text.length - buffer.size) 0 ++ _) = _
  have length : text.length = ((buffer.write text).elements ++
      List.replicate (text.length - buffer.size) 0).length := by
    rw [elements, List.length_append, List.length_take, List.length_replicate]
    omega
  rw [elements] at length ⊢
  nth_rewrite 1 [length]
  exact List.take_left

end Buffer

section Vectors

variable {key : Key} {plain : List UInt8} {rand : Nat → UInt8}
  {buffer : Buffer}

theorem length_encrypt2 : (oi_symmetry_encrypt2 plain key rand).length =
    oi_symmetry_encrypt2_len plain.length := by
  have aligned := encrypt2_len_mod plain.length
  rw [oi_symmetry_encrypt2_eq, length_text]
  omega

/-- `encrypt` keeps what it has written exactly if the vector has to grow, or if
what is written behind its elements is zero anyway. -/
theorem elements_encrypt_iff :
    (encrypt key plain rand buffer).elements =
        oi_symmetry_encrypt2 plain key rand ↔
      buffer.capacity < oi_symmetry_encrypt2_len plain.length * 2 ∨
        ∀ c ∈ (oi_symmetry_encrypt2 plain key rand).drop buffer.size,
          c = 0 := by
  have length := @length_encrypt2 key plain rand
  rw [encrypt]
  by_cases grows :
      buffer.capacity < oi_symmetry_encrypt2_len plain.length * 2
  · rw [if_pos grows]
    refine iff_of_true (Buffer.elements_write_resize ?_) (.inl grows)
    rw [Buffer.size_resize]
    omega
  · rw [if_neg grows]
    by_cases room :
        (oi_symmetry_encrypt2 plain key rand).length ≤ buffer.size
    · refine iff_of_true (Buffer.elements_write_resize room) (.inr ?_)
      rw [List.drop_eq_nil_of_le room]
      exact fun c member => absurd member List.not_mem_nil
    · have behind := Nat.lt_of_not_le room
      rw [Buffer.elements_write_resize_of_lt behind]
      nth_rewrite 3 [← List.take_append_drop buffer.size
        (oi_symmetry_encrypt2 plain key rand)]
      rw [List.append_cancel_left_eq, eq_comm, List.eq_replicate_iff,
        List.length_drop]
      simp [grows]

end Vectors

section Outcome

variable {key : Key} {sIn : List UInt8} {buffer : Buffer}

/-- The length that `oi_symmetry_decrypt2` gets is no longer than the text. -/
theorem decrypt2_outcome {size : Nat} (room : sIn.length ≤ size) :
    oi_symmetry_decrypt2 sIn (toInt sIn.length) key size sIn.length =
        .error .rejected ∨
      ∃ text, oi_symmetry_decrypt2 sIn (toInt sIn.length) key size
        sIn.length = .ok text := by
  by_cases refused : (toInt sIn.length).tmod 8 ≠ 0 ∨ toInt sIn.length < 16
  · left
    rw [oi_symmetry_decrypt2, if_pos refused]
  · have whole : (toInt sIn.length).tmod 8 = 0 := by
      by_contra other
      exact refused (.inl other)
    have least : 16 ≤ toInt sIn.length :=
      Int.not_lt.mp fun short => refused (.inr short)
    have within : toInt sIn.length ≤ sIn.length :=
      toInt_le (le_trans (by decide) (Int.natCast_nonneg _))
    have positive : 0 ≤ toInt sIn.length := le_trans (by decide) least
    obtain ⟨length, counted⟩ := Int.eq_ofNat_of_zero_le positive
    rw [Int.tmod_eq_emod_of_nonneg positive] at whole
    rw [counted] at whole least within ⊢
    obtain ⟨accepts, refuses⟩ := @oi_symmetry_decrypt2_cases key sIn length
      size sIn.length (by omega) (by omega) (by omega) (by omega) (by omega)
    by_cases accepted : padding key sIn + 10 ≤ length ∧
        ZeroEnd key sIn length
    · exact .inr ⟨_, accepts accepted⟩
    · exact .inl (refuses accepted)

/-- The vector with room for twice the text. -/
theorem decrypt_eq : ∃ grown : Buffer, sIn.length * 2 = grown.size ∧
    decrypt key sIn buffer = decrypted grown (oi_symmetry_decrypt2 sIn
      (toInt sIn.length) key (sIn.length * 2) sIn.length) := by
  refine ⟨(if buffer.capacity < sIn.length * 2 then
    buffer.resize (sIn.length * 2) else buffer).resize (sIn.length * 2),
    Buffer.size_resize.symm, ?_⟩
  rw [decrypt, Buffer.size_resize]

/-- Decryption ends, without an access outside the text or the vector. -/
theorem decrypt_ends : ∃ result, decrypt key sIn buffer = .ok result := by
  have room : sIn.length ≤ sIn.length * 2 := by omega
  obtain ⟨grown, _, run⟩ := @decrypt_eq key sIn buffer
  rw [run]
  rcases @decrypt2_outcome key sIn _ room with rejected | ⟨text, written⟩
  · exact ⟨none, by rw [rejected, decrypted]⟩
  · exact ⟨_, by rw [written, decrypted]⟩

end Outcome

section RoundTrip

variable {key : Key} {plain : List UInt8} {rand : Nat → UInt8}

/-- What decryption finds in an encrypted text. -/
theorem plainByte_encrypt2 {place : Nat}
    (inside : place < (message plain rand).length) :
    plainByte key (oi_symmetry_encrypt2 plain key rand) place =
      (message plain rand).getD place 0 := by
  have aligned := encrypt2_len_mod plain.length
  rw [length_message] at inside
  have earlier : ∀ block ≤ place / 8,
      blocks (oi_symmetry_encrypt2 plain key rand) block =
        sealed (mode key) (blocks (message plain rand)) block := by
    intro block older
    rw [oi_symmetry_encrypt2_eq]
    exact blocks_text (by omega)
  rw [plainByte, opened_congr (mode key) earlier, opened_sealed, blocks,
    Nat.div_add_mod]

theorem padding_encrypt2 :
    padding key (oi_symmetry_encrypt2 plain key rand) =
      nPadlen plain.length := by
  have few := nPadlen_lt plain.length
  have inside : 0 < (message plain rand).length := Nat.zero_lt_succ _
  have masked : ∀ r : UInt8, ∀ p < 8,
      ((r &&& 0x0f8) ||| UInt8.ofNat p) &&& 0x7 = UInt8.ofNat p := by
    intro r p small
    have bits : (r &&& 0x0f8) &&& 0x7 = 0 := by
      rw [UInt8.and_assoc]
      exact UInt8.and_zero
    have parts : ((r &&& 0x0f8) ||| UInt8.ofNat p) &&& 0x7 =
        ((r &&& 0x0f8) &&& 0x7) ||| (UInt8.ofNat p &&& 0x7) :=
      UInt8.eq_of_toBitVec_eq BitVec.and_or_distrib_right
    rw [parts, bits, UInt8.zero_or]
    interval_cases p <;> rfl
  rw [padding, plainByte_encrypt2 inside]
  change (((rand 0 &&& 0x0f8) ||| UInt8.ofNat (nPadlen plain.length)) &&&
    0x7).toNat = _
  rw [masked _ _ few, UInt8.toNat_ofNat', Nat.mod_eq_of_lt (by omega)]

theorem drop_message :
    (message plain rand).drop (1 + nPadlen plain.length + SALT_LEN) =
      plain ++ List.replicate ZERO_LEN 0 := by
  have front : (message plain rand).drop (1 + nPadlen plain.length) =
      [rand (nPadlen plain.length + 1), rand (nPadlen plain.length + 2)] ++
        (plain ++ List.replicate ZERO_LEN 0) := by
    rw [← List.drop_drop]
    exact List.drop_left' (by rw [List.length_map, List.length_range])
  rw [← List.drop_drop, front]
  rfl

/-- The bytes behind padding and salt. -/
theorem plainByte_behind {i : Nat} (inside : i < plain.length + ZERO_LEN) :
    plainByte key (oi_symmetry_encrypt2 plain key rand)
        (1 + nPadlen plain.length + SALT_LEN + i) =
      (plain ++ List.replicate ZERO_LEN 0).getD i 0 := by
  have length := congrArg List.length (@drop_message plain rand)
  rw [List.length_drop, List.length_append, List.length_replicate] at length
  rw [plainByte_encrypt2 (by omega), List.getD_eq_getElem?_getD,
    ← List.getElem?_drop, drop_message, List.getD_eq_getElem?_getD]

theorem zeroEnd_encrypt2 : ZeroEnd key (oi_symmetry_encrypt2 plain key rand)
    (oi_symmetry_encrypt2_len plain.length) := by
  intro i inside
  have place : oi_symmetry_encrypt2_len plain.length - ZERO_LEN + i =
      1 + nPadlen plain.length + SALT_LEN + (plain.length + i) := by
    rw [oi_symmetry_encrypt2_len, nPadSaltBodyZeroLen]
    omega
  rw [place, plainByte_behind (by omega), List.getD_eq_getElem?_getD,
    List.getElem?_append_right (Nat.le_add_right _ _), Nat.add_sub_cancel_left,
    List.getElem?_replicate, if_pos inside]
  rfl

theorem body_encrypt2 : body key (oi_symmetry_encrypt2 plain key rand)
    (oi_symmetry_encrypt2_len plain.length) = plain := by
  have count : oi_symmetry_encrypt2_len plain.length -
      nPadlen plain.length - 10 = plain.length := by
    rw [oi_symmetry_encrypt2_len, nPadSaltBodyZeroLen, SALT_LEN, ZERO_LEN]
    omega
  rw [body, padding_encrypt2, count]
  apply List.ext_getElem
  · rw [List.length_map, List.length_range]
  · intro i inside within
    rw [List.getElem_map, List.getElem_range, plainByte_behind (by omega),
      List.getD_eq_getElem?_getD, List.getElem?_append_left within,
      List.getElem?_eq_getElem within]
    rfl

/-- The plaintext comes back, whatever the vectors contained before. -/
def GivesBack (key : Key) (plain : List UInt8) (rand : Nat → UInt8)
    (buffer other : Buffer) : Prop :=
  ∃ result, decrypt key (encrypt key plain rand buffer).elements other =
      .ok (some result) ∧ result.elements = plain

theorem givesBack_of_elements {buffer other : Buffer}
    (short : plain.length < 2 ^ 31 - 32)
    (kept : (encrypt key plain rand buffer).elements =
      oi_symmetry_encrypt2 plain key rand) :
    GivesBack key plain rand buffer other := by
  have length := @length_encrypt2 key plain rand
  have aligned := encrypt2_len_mod plain.length
  have parts : oi_symmetry_encrypt2_len plain.length =
      plain.length + 10 + nPadlen plain.length := by
    rw [oi_symmetry_encrypt2_len, nPadSaltBodyZeroLen, SALT_LEN, ZERO_LEN]
  have few := nPadlen_lt plain.length
  have counted : toInt (oi_symmetry_encrypt2 plain key rand).length =
      oi_symmetry_encrypt2_len plain.length := by
    rw [length]
    exact toInt_eq (by omega) (by omega)
  obtain ⟨grown, size, run⟩ :=
    @decrypt_eq key (oi_symmetry_encrypt2 plain key rand) other
  have accepts := (@oi_symmetry_decrypt2_cases key
    (oi_symmetry_encrypt2 plain key rand)
    (oi_symmetry_encrypt2_len plain.length)
    ((oi_symmetry_encrypt2 plain key rand).length * 2)
    (oi_symmetry_encrypt2 plain key rand).length
    aligned (by omega) length.ge length.ge (by omega)).1
    ⟨by rw [padding_encrypt2]; omega, zeroEnd_encrypt2⟩
  rw [body_encrypt2] at accepts
  rw [GivesBack, kept, run, counted, accepts, decrypted]
  refine ⟨_, rfl, Buffer.elements_write_resize ?_⟩
  omega

end RoundTrip

/-- What was encrypted into a vector that grows, or has that many elements
already, comes back, and decryption of any text ends without an access outside
the text or the vector. -/
theorem tea_givesBack (key : Key) (plain : List UInt8) (rand : Nat → UInt8)
    (buffer other : Buffer) (sIn : List UInt8) :
    (plain.length < 2 ^ 31 - 32 →
      buffer.capacity < oi_symmetry_encrypt2_len plain.length * 2 ∨
        oi_symmetry_encrypt2_len plain.length ≤ buffer.size →
      GivesBack key plain rand buffer other) ∧
    ∃ result, decrypt key sIn buffer = .ok result := by
  refine ⟨?_, decrypt_ends⟩
  intro short enough
  refine givesBack_of_elements short (elements_encrypt_iff.mpr ?_)
  refine enough.imp_right fun room => ?_
  rw [List.drop_eq_nil_of_le (by rw [length_encrypt2]; exact room)]
  exact fun c member => absurd member List.not_mem_nil

/-- A vector of 64 bytes, without an element. -/
def reserved : Buffer := ⟨List.replicate 64 0, 0, Nat.zero_le _⟩

/-- An empty vector is large enough, as it grows. -/
theorem empty_givesBack : GivesBack (fun _ => 1) [72, 105] (fun _ => 5)
    ⟨[], 0, Nat.le_refl 0⟩ reserved :=
  (tea_givesBack _ _ _ _ _ []).1 (by decide) (.inl (by decide))

/-- In a vector with room but without elements, nothing is left. -/
theorem reserved_lost :
    ¬ GivesBack (fun _ => 1) [72, 105] (fun _ => 5) reserved reserved := by
  have zeros : (encrypt (fun _ => 1) [72, 105] (fun _ => 5) reserved).elements =
      List.replicate 16 0 := by
    have length : (oi_symmetry_encrypt2 [72, 105] (fun _ => 1)
        fun _ => 5).length = 16 := length_encrypt2
    have fits : ¬ reserved.capacity <
        oi_symmetry_encrypt2_len [(72 : UInt8), 105].length * 2 := by
      decide
    rw [encrypt, if_neg fits, Buffer.elements_write_resize_of_lt, length]
    · rfl
    · rw [length]
      decide
  have rejected : oi_symmetry_decrypt2 (List.replicate 16 0)
      (toInt (List.replicate 16 (0 : UInt8)).length) (fun _ => 1) 32 16 =
        .error .rejected := by
    decide +kernel
  rintro ⟨result, run, _⟩
  obtain ⟨grown, _, ends⟩ :=
    @decrypt_eq (fun _ => 1) (List.replicate 16 0) reserved
  rw [zeros, ends] at run
  rw [List.length_replicate] at run rejected
  rw [rejected, decrypted] at run
  cases run

end TarsCpp.Tea
