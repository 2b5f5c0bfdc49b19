import Mathlib
import TarsCpp.BlockChaining
import TarsCpp.Tea.TcTea

/-!
# The streams as chains of blocks

Both streams are at a place of a sequence of bytes, and what they hold belongs
to a block of it.  Encryption chains the blocks of the padded text, decryption
opens them again.
-/

namespace TarsCpp.Tea

open ByteOrder BlockChaining

theorem decryptRound_encryptRound (k : KeyWords) (words : Words) :
    decryptRound k (encryptRound k words) = words := by
  simp [decryptRound, encryptRound]

theorem sum_encryptRounds (k : KeyWords) (rounds : Nat) (words : Words) :
    ((encryptRound k)^[rounds] words).sum =
      words.sum + UInt32.ofNat rounds * DELTA := by
  induction rounds with
  | zero => simp
  | succ rounds induction =>
      have next : UInt32.ofNat (rounds + 1) = UInt32.ofNat rounds + 1 :=
        UInt32.ofNat_add rounds 1
      rw [Function.iterate_succ_apply', encryptRound, induction, next,
        UInt32.add_mul, UInt32.one_mul, UInt32.add_assoc]

theorem word_bigEndian (w : UInt32) (bytes : List UInt8)
    (same : bytes = bigEndian 4 w.toNat) :
    UInt32.ofNat (ofBigEndian bytes) = w := by
  have fits : w.toNat < 256 ^ 4 := w.toNat_lt
  rw [same, ofBigEndian_bigEndian fits, UInt32.ofNat_toNat]

theorem loadWords_storeWords (words : Words) :
    loadWords (storeWords words) words.sum = words := by
  have y : word (storeWords words 0) (storeWords words 1) (storeWords words 2)
      (storeWords words 3) = words.y := word_bigEndian _ _ rfl
  have z : word (storeWords words 4) (storeWords words 5) (storeWords words 6)
      (storeWords words 7) = words.z := word_bigEndian _ _ rfl
  rw [loadWords, y, z]

theorem bigEndian_word (c0 c1 c2 c3 : UInt8) :
    bigEndian 4 (word c0 c1 c2 c3).toNat = [c0, c1, c2, c3] := by
  have fits := ofBigEndian_lt [c0, c1, c2, c3]
  have wide : 256 ^ [c0, c1, c2, c3].length = 2 ^ 32 := by norm_num
  rw [wide] at fits
  rw [word, UInt32.toNat_ofNat', Nat.mod_eq_of_lt fits]
  exact bigEndian_ofBigEndian [c0, c1, c2, c3]

theorem storeWords_loadWords (block : Block) (sum : UInt32) :
    storeWords (loadWords block sum) = block := by
  funext j
  rw [storeWords, loadWords, bigEndian_word, bigEndian_word]
  fin_cases j <;> rfl

theorem TeaDecryptECB_TeaEncryptECB (block : Block) (pKey : Key) :
    TeaDecryptECB (TeaEncryptECB block pKey) pKey = block := by
  have sum : ((encryptRound (loadKey pKey))^[ROUNDS] (loadWords block 0)).sum =
      DELTA <<< 4 := by
    rw [sum_encryptRounds]
    change (0 : UInt32) + UInt32.ofNat 16 * DELTA = DELTA <<< 4
    decide
  have undone : Function.LeftInverse (decryptRound (loadKey pKey))
      (encryptRound (loadKey pKey)) :=
    decryptRound_encryptRound (loadKey pKey)
  rw [TeaDecryptECB, TeaEncryptECB, ← sum, loadWords_storeWords,
    undone.iterate ROUNDS, storeWords_loadWords]

/-- The cipher, chained. -/
def mode (pKey : Key) : Mode Block where
  mix := xor
  zero := fun _ => 0
  encrypt block := TeaEncryptECB block pKey
  decrypt block := TeaDecryptECB block pKey
  mix_mix first second := by
    funext j
    simp [xor]
  mix_comm first second := by
    funext j
    exact UInt8.xor_comm _ _
  mix_zero block := by
    funext j
    simp [xor]
  decrypt_encrypt block := TeaDecryptECB_TeaEncryptECB block pKey

/-- The blocks of a text. -/
def blocks (text : List UInt8) (block : Nat) : Block := fun j =>
  text.getD (8 * block + j) 0

/-- The text of some blocks. -/
def text (blocks : Nat → Block) (count : Nat) : List UInt8 :=
  (List.range count).flatMap fun block => List.ofFn (blocks block)

theorem text_succ (blocks : Nat → Block) (count : Nat) :
    text blocks (count + 1) =
      text blocks count ++ List.ofFn (blocks count) := by
  rw [text, List.range_succ, List.flatMap_append, List.flatMap_singleton, text]

theorem length_text (blocks : Nat → Block) (count : Nat) :
    (text blocks count).length = 8 * count := by
  induction count with
  | zero => rfl
  | succ count induction =>
      rw [text_succ, List.length_append, List.length_ofFn, induction]
      ring

theorem blocks_text {source : Nat → Block} {count block : Nat}
    (inside : block < count) :
    blocks (text source count) block = source block := by
  induction count with
  | zero => cases inside
  | succ count induction =>
      funext j
      have place := j.isLt
      rw [blocks, text_succ]
      rcases Nat.lt_succ_iff_lt_or_eq.mp inside with earlier | rfl
      · have within : 8 * block + j.val < (text source count).length := by
          rw [length_text]
          omega
        rw [List.getD_eq_getElem?_getD, List.getElem?_append_left within,
          ← List.getD_eq_getElem?_getD]
        exact congrFun (induction earlier) j
      · have behind : (text source block).length ≤ 8 * block + j.val := by
          rw [length_text]
          omega
        rw [List.getD_eq_getElem?_getD, List.getElem?_append_right behind,
          length_text, Nat.add_sub_cancel_left, List.getElem?_ofFn,
          dif_pos place]
        rfl

section Encryption

variable {pKey : Key} {message : List UInt8} {st : Encryption} {place : Nat}

/-- The encryption has taken this many bytes of a message. -/
structure Encryption.At (pKey : Key) (message : List UInt8) (place : Nat)
    (st : Encryption) : Prop where
  fits : st.src_i ≤ 8
  block : ∃ block, place = 8 * block + st.src_i ∧
    st.iv_plain =
      before (mode pKey) (mixed (mode pKey) (blocks message)) block ∧
    st.iv_crypt =
      before (mode pKey) (sealed (mode pKey) (blocks message)) block ∧
    st.pOutBuf = text (sealed (mode pKey) (blocks message)) block ∧
    ∀ j : Fin 8, j.val < st.src_i → st.src_buf j = blocks message block j

theorem at_start : Encryption.At pKey message 0 {} where
  fits := Nat.zero_le 8
  block := ⟨0, rfl, rfl, rfl, rfl,
    fun j taken => absurd taken j.val.not_lt_zero⟩

theorem Encryption.At.push {c : UInt8} (at_ : st.At pKey message place)
    (room : st.src_i < 8) (next : message.getD place 0 = c) :
    (st.push c).At pKey message (place + 1) := by
  obtain ⟨block, here, plain, crypt, out, taken⟩ := at_.block
  refine ⟨room, block, ?_, plain, crypt, out, ?_⟩
  · rw [here]
    rfl
  · intro j inside
    by_cases last : j.val = st.src_i
    · change (if j.val = st.src_i then c else st.src_buf j) = _
      rw [if_pos last, ← next, here, blocks, last]
    · have earlier : j.val < st.src_i := by
        change j.val < st.src_i + 1 at inside
        omega
      change (if j.val = st.src_i then c else st.src_buf j) = _
      rw [if_neg last, taken j earlier]

theorem Encryption.At.flush (at_ : st.At pKey message place)
    (full : st.src_i = 8) : (st.flush pKey).At pKey message place := by
  obtain ⟨block, here, plain, crypt, out, taken⟩ := at_.block
  have whole : st.src_buf = blocks message block := by
    funext j
    exact taken j (by rw [full]; exact j.isLt)
  have source : xor st.src_buf st.iv_crypt =
      mixed (mode pKey) (blocks message) block := by
    rw [mixed_eq, whole, crypt]
    rfl
  have written : xor (TeaEncryptECB (xor st.src_buf st.iv_crypt) pKey)
      st.iv_plain = sealed (mode pKey) (blocks message) block := by
    rw [sealed_eq, source, plain]
    rfl
  refine ⟨Nat.zero_le 8, block + 1, ?_, source, written, ?_, ?_⟩
  · rw [here, full]
    rfl
  · rw [text_succ, ← out, ← written]
    rfl
  · exact fun j taken => absurd taken j.val.not_lt_zero

theorem Encryption.At.flushFull (at_ : st.At pKey message place) :
    (st.flushFull pKey).At pKey message place ∧
      (st.flushFull pKey).src_i < 8 := by
  rw [Encryption.flushFull]
  split
  · next full =>
      refine ⟨at_.flush full, ?_⟩
      change 0 < 8
      decide
  · next more => exact ⟨at_, Nat.lt_of_le_of_ne at_.fits more⟩

theorem Encryption.At.stream {bytes later : List UInt8}
    (at_ : st.At pKey message place)
    (next : message.drop place = bytes ++ later) :
    (st.stream pKey bytes).At pKey message (place + bytes.length) ∧
      (bytes = [] ∨ (st.stream pKey bytes).src_i < 8) := by
  induction bytes generalizing st place with
  | nil => exact ⟨at_, .inl rfl⟩
  | cons c bytes induction =>
      have here : message.getD place 0 = c := by
        rw [List.getD_eq_getElem?_getD, ← Nat.add_zero place,
          ← List.getElem?_drop, next]
        rfl
      have behind : message.drop (place + 1) = bytes ++ later := by
        rw [← List.drop_drop, next]
        rfl
      obtain ⟨opened, room⟩ := at_.flushFull
      obtain ⟨pushed, below⟩ := (opened.push room here).flushFull
      obtain ⟨streamed, last⟩ := induction pushed behind
      rw [Encryption.stream, List.length_cons, Nat.add_comm bytes.length,
        ← Nat.add_assoc]
      refine ⟨streamed, .inr ?_⟩
      rcases last with rfl | last
      · exact below
      · exact last

end Encryption

/-- The padded text of which a body is a part. -/
def message (pInBuf : List UInt8) (rand : Nat → UInt8) : List UInt8 :=
  ((rand 0 &&& 0x0f8) ||| UInt8.ofNat (nPadlen pInBuf.length)) ::
    ((List.range (nPadlen pInBuf.length)).map (fun call => rand (call + 1)) ++
      ([rand (nPadlen pInBuf.length + 1), rand (nPadlen pInBuf.length + 2)] ++
        (pInBuf ++ List.replicate ZERO_LEN 0)))

theorem nPadlen_lt (nInBufLen : Nat) : nPadlen nInBufLen < 8 := by
  rw [nPadlen]
  split
  · omega
  · decide

theorem length_message (pInBuf : List UInt8) (rand : Nat → UInt8) :
    (message pInBuf rand).length = oi_symmetry_encrypt2_len pInBuf.length := by
  simp only [message, oi_symmetry_encrypt2_len, nPadSaltBodyZeroLen, SALT_LEN,
    ZERO_LEN, List.length_cons, List.length_append, List.length_map,
    List.length_range, List.length_replicate, List.length_nil]
  omega

theorem encrypt2_len_mod (nInBufLen : Nat) :
    oi_symmetry_encrypt2_len nInBufLen % 8 = 0 := by
  rw [oi_symmetry_encrypt2_len, nPadlen]
  split
  · omega
  · omega

section Padding

variable {pKey : Key} {text later padding : List UInt8} {st : Encryption}
  {place : Nat}

/-- Padding goes into the first block. -/
theorem Encryption.At.pushAll (at_ : st.At pKey text place)
    (next : text.drop place = padding ++ later)
    (room : st.src_i + padding.length ≤ 8) :
    (padding.foldl (fun st c => st.push c) st).At pKey text
      (place + padding.length) := by
  induction padding generalizing st place with
  | nil => exact at_
  | cons c padding induction =>
      have here : text.getD place 0 = c := by
        rw [List.getD_eq_getElem?_getD, ← Nat.add_zero place,
          ← List.getElem?_drop, next]
        rfl
      have behind : text.drop (place + 1) = padding ++ later := by
        rw [← List.drop_drop, next]
        rfl
      rw [List.length_cons] at room
      have pushed := at_.push (by omega) here
      rw [List.foldl_cons, List.length_cons, Nat.add_comm padding.length,
        ← Nat.add_assoc]
      apply induction pushed behind
      change st.src_i + 1 + padding.length ≤ 8
      omega

end Padding

/-- Encryption chains the blocks of the padded text. -/
theorem oi_symmetry_encrypt2_eq (pInBuf : List UInt8) (pKey : Key)
    (rand : Nat → UInt8) :
    oi_symmetry_encrypt2 pInBuf pKey rand =
      text (sealed (mode pKey) (blocks (message pInBuf rand)))
        (oi_symmetry_encrypt2_len pInBuf.length / 8) := by
  let pads := (List.range (nPadlen pInBuf.length)).map fun call =>
    rand (call + 1)
  let salt := [rand (nPadlen pInBuf.length + 1),
    rand (nPadlen pInBuf.length + 2)]
  let zeros := List.replicate ZERO_LEN (0 : UInt8)
  have few : 1 + pads.length ≤ 8 := by
    have few := nPadlen_lt pInBuf.length
    rw [List.length_map, List.length_range]
    omega
  have started := (@at_start pKey (message pInBuf rand)).push
    (by decide) rfl
  have padded := @Encryption.At.pushAll pKey (message pInBuf rand)
    (salt ++ (pInBuf ++ zeros)) pads _ 1 started rfl few
  have behindPads : (message pInBuf rand).drop (1 + pads.length) =
      salt ++ (pInBuf ++ zeros) := by
    rw [← List.drop_drop]
    exact List.drop_left
  have salted := (padded.stream behindPads).1
  have behindSalt : (message pInBuf rand).drop
      (1 + pads.length + salt.length) = pInBuf ++ zeros := by
    rw [← List.drop_drop, behindPads]
    exact List.drop_left
  have body := (salted.stream behindSalt).1
  have behindBody : (message pInBuf rand).drop
      (1 + pads.length + salt.length + pInBuf.length) = zeros ++ [] := by
    rw [← List.drop_drop, behindSalt, List.append_nil]
    exact List.drop_left
  obtain ⟨done, last⟩ := body.stream behindBody
  obtain ⟨block, here, _, _, out, _⟩ := done.block
  have length := length_message pInBuf rand
  have whole := congrArg List.length behindBody
  have aligned := encrypt2_len_mod pInBuf.length
  have seven : zeros.length = 7 := rfl
  rw [List.length_drop, List.length_append, List.length_nil] at whole
  have below := last.resolve_left (List.cons_ne_nil _ _)
  have count : block = oi_symmetry_encrypt2_len pInBuf.length / 8 := by
    omega
  rw [← count, ← out, oi_symmetry_encrypt2]
  simp only [pads, List.foldl_map]
  rfl

theorem mod_eight_lt (place : Nat) : place % 8 < 8 :=
  Nat.mod_lt place (by omega)

/-- A byte of what a text contains. -/
def plainByte (pKey : Key) (sIn : List UInt8) (place : Nat) : UInt8 :=
  opened (mode pKey) (blocks sIn) (place / 8) ⟨place % 8, mod_eight_lt place⟩

/-- The pointer to the block in front. -/
def ivOf : Nat → Option Nat
  | 0 => none
  | block + 1 => some (8 * block)

section Decryption

variable {pKey : Key} {sIn : List UInt8} {length size place : Nat}
  {st : Decryption}

/-- The decryption is in front of a byte of its text. -/
structure Decryption.At (pKey : Key) (sIn : List UInt8) (length place : Nat)
    (st : Decryption) : Prop where
  fits : st.dest_i ≤ 8
  block : ∃ block, place = 8 * block + st.dest_i ∧ 8 * (block + 1) ≤ length ∧
    st.dest_buf = unmixed (mode pKey) (blocks sIn) block ∧
    st.iv_pre_crypt = ivOf block ∧ st.iv_cur_crypt = some (8 * block) ∧
    st.pInBuf = 8 * (block + 1) ∧ st.nBufPos = 8 * (block + 1)

theorem readByte_eq (inside : place < sIn.length) :
    readByte sIn place = .ok (sIn.getD place 0) := by
  rw [readByte, List.getElem?_eq_getElem inside,
    List.getD_eq_getElem?_getD, List.getElem?_eq_getElem inside]
  rfl

/-- The loop that mixes a block into `dest_buf`. -/
theorem mixBytes_eq {block : Nat} (dest : Block) (js : List (Fin 8))
    (distinct : js.Nodup) (here : st.pInBuf = 8 * block)
    (counted : st.nBufPos = 8 * block) (inside : 8 * block + 8 ≤ length)
    (within : length ≤ sIn.length) :
    js.foldlM (Decryption.mixByte sIn length st) dest =
      .ok fun j => if j ∈ js then dest j ^^^ blocks sIn block j
        else dest j := by
  induction js generalizing dest with
  | nil => simp [pure, Except.pure]
  | cons j js induction =>
      obtain ⟨fresh, distinct⟩ := List.nodup_cons.mp distinct
      have place := j.isLt
      have more : ¬ st.nBufPos + j ≥ length := by omega
      have mixed : Decryption.mixByte sIn length st dest j =
          .ok (Function.update dest j (dest j ^^^ blocks sIn block j)) := by
        rw [Decryption.mixByte, if_neg more, here, readByte_eq (by omega)]
        rfl
      rw [List.foldlM_cons, mixed]
      change List.foldlM _ _ js = _
      rw [induction _ distinct]
      congr 1
      funext i
      by_cases same : i = j
      · subst same
        simp [fresh]
      · simp [same]

theorem Decryption.At.ready (at_ : st.At pKey sIn length place)
    (more : place < length) (aligned : length % 8 = 0)
    (within : length ≤ sIn.length) :
    ∃ st', Decryption.ready sIn length pKey st = .ok st' ∧
      st'.At pKey sIn length place ∧ st'.dest_i < 8 ∧
      st'.pOutBuf = st.pOutBuf := by
  obtain ⟨block, here, inside, dest, pre, cur, source, counted⟩ := at_.block
  rw [Decryption.ready]
  by_cases left : st.dest_i < 8
  · exact ⟨st, if_pos left, at_, left, rfl⟩
  · have full : st.dest_i = 8 := by
      have fits := at_.fits
      omega
    have mixed := @mixBytes_eq sIn length st (block + 1) st.dest_buf
      (List.finRange 8) (List.nodup_finRange 8) source counted (by omega) within
    simp only [List.mem_finRange, if_true] at mixed
    rw [if_neg left, if_pos full, Decryption.load, mixed]
    refine ⟨_, rfl, ⟨Nat.zero_le 8, block + 1, ?_, ?_, ?_, cur, ?_, ?_, ?_⟩,
      Nat.zero_lt_succ 7, rfl⟩
    · change place = 8 * (block + 1) + 0
      omega
    · omega
    · rw [dest]
      rfl
    · rw [source]
    · change st.pInBuf + 8 = _
      omega
    · change st.nBufPos + 8 = _
      omega

theorem Decryption.At.byte (at_ : st.At pKey sIn length place)
    (left : st.dest_i < 8) (within : length ≤ sIn.length) :
    Decryption.byte sIn st = .ok (plainByte pKey sIn place) := by
  obtain ⟨block, here, inside, dest, pre, cur, source, counted⟩ := at_.block
  have index : (⟨place % 8, mod_eight_lt place⟩ : Fin 8) =
      Fin.ofNat 8 st.dest_i := by
    rw [Fin.ext_iff, here]
    change (8 * block + st.dest_i) % 8 = st.dest_i % 8
    omega
  have number : place / 8 = block := by omega
  have iv : readIv sIn st.iv_pre_crypt st.dest_i =
      .ok (before (mode pKey) (blocks sIn) block (Fin.ofNat 8 st.dest_i)) := by
    rw [pre]
    cases block with
    | zero => rfl
    | succ block =>
        rw [ivOf, readIv, readByte_eq (by omega), before, blocks]
        have small : (Fin.ofNat 8 st.dest_i).val = st.dest_i :=
          Nat.mod_eq_of_lt left
        rw [small]
  rw [Decryption.byte, iv, plainByte, number, index, opened, dest]
  rfl

/-- Behind a byte. -/
theorem Decryption.At.step (at_ : st.At pKey sIn length place)
    (left : st.dest_i < 8) (pOutBuf : List UInt8) :
    ({ st with pOutBuf := pOutBuf, dest_i := st.dest_i + 1 } : Decryption).At
      pKey sIn length (place + 1) := by
  obtain ⟨block, here, others⟩ := at_.block
  exact ⟨left, block, by rw [here]; rfl, others⟩

variable (aligned : length % 8 = 0) (within : length ≤ sIn.length)
include aligned within

theorem Decryption.At.skip {turns : Nat} (at_ : st.At pKey sIn length place)
    (more : place + turns ≤ length) :
    ∃ st', Decryption.skip sIn length pKey turns st = .ok st' ∧
      st'.At pKey sIn length (place + turns) ∧ st'.pOutBuf = st.pOutBuf := by
  induction turns generalizing st place with
  | zero => exact ⟨st, rfl, at_, rfl⟩
  | succ turns induction =>
      obtain ⟨st₁, ready, at₁, left, out⟩ :=
        at_.ready (by omega) aligned within
      obtain ⟨st₂, run, at₂, out₂⟩ :=
        induction (at₁.step left st₁.pOutBuf) (by omega)
      refine ⟨st₂, ?_, ?_, out₂.trans out⟩
      · rw [Decryption.skip, ready]
        exact run
      · rw [← Nat.add_assoc, Nat.add_right_comm]
        exact at₂

theorem Decryption.At.copy {nPlainLen : Nat}
    (at_ : st.At pKey sIn length place) (more : place + nPlainLen ≤ length)
    (room : st.pOutBuf.length + nPlainLen ≤ size) :
    ∃ st', Decryption.copy sIn length pKey size nPlainLen st = .ok st' ∧
      st'.At pKey sIn length (place + nPlainLen) ∧
      st'.pOutBuf = st.pOutBuf ++
        (List.range nPlainLen).map fun i => plainByte pKey sIn (place + i) := by
  induction nPlainLen generalizing st place with
  | zero => exact ⟨st, rfl, at_, (List.append_nil _).symm⟩
  | succ nPlainLen induction =>
      obtain ⟨st₁, ready, at₁, left, out⟩ :=
        at_.ready (by omega) aligned within
      have byte := at₁.byte left within
      have free : ¬ st₁.pOutBuf.length ≥ size := by
        rw [out]
        omega
      obtain ⟨st₂, run, at₂, out₂⟩ := induction
        (at₁.step left (st₁.pOutBuf ++ [plainByte pKey sIn place])) (by omega)
        (by
          rw [out, List.length_append, List.length_singleton]
          omega)
      refine ⟨st₂, ?_, ?_, ?_⟩
      · rw [Decryption.copy, ready]
        simp only [bind, Except.bind, byte]
        rw [if_neg free]
        exact run
      · rw [← Nat.add_assoc, Nat.add_right_comm]
        exact at₂
      · have shifted : (fun i => plainByte pKey sIn (place + 1 + i)) =
            (fun i => plainByte pKey sIn (place + i)) ∘ Nat.succ := by
          funext i
          rw [Function.comp_apply, Nat.add_assoc, Nat.add_comm 1 i]
        rw [out₂, out, List.range_succ_eq_map, List.map_cons, List.map_map,
          List.append_assoc, List.singleton_append, shifted]
        rfl

theorem Decryption.At.check {turns : Nat} (at_ : st.At pKey sIn length place)
    (more : place + turns ≤ length) :
    ((∀ i < turns, plainByte pKey sIn (place + i) = 0) →
      ∃ st', Decryption.check sIn length pKey turns st = .ok st' ∧
        st'.pOutBuf = st.pOutBuf) ∧
    ((¬ ∀ i < turns, plainByte pKey sIn (place + i) = 0) →
      Decryption.check sIn length pKey turns st = .error .rejected) := by
  induction turns generalizing st place with
  | zero =>
      refine ⟨fun _ => ⟨st, rfl, rfl⟩, fun some_ => ?_⟩
      exact absurd (fun i below => absurd below i.not_lt_zero) some_
  | succ turns induction =>
      obtain ⟨st₁, ready, at₁, left, out⟩ :=
        at_.ready (by omega) aligned within
      have byte := at₁.byte left within
      obtain ⟨zeros, others⟩ :=
        induction (at₁.step left st₁.pOutBuf) (by omega)
      have start : Decryption.check sIn length pKey (turns + 1) st =
          if plainByte pKey sIn place ≠ 0 then .error .rejected
          else Decryption.check sIn length pKey turns
            { st₁ with dest_i := st₁.dest_i + 1 } := by
        rw [Decryption.check, ready]
        simp only [bind, Except.bind, byte]
      have split : (∀ i < turns + 1, plainByte pKey sIn (place + i) = 0) ↔
          plainByte pKey sIn place = 0 ∧
            ∀ i < turns, plainByte pKey sIn (place + 1 + i) = 0 := by
        rw [Nat.forall_lt_succ_left]
        simp only [Nat.add_zero, Nat.add_assoc, Nat.add_comm 1]
      rw [start, split]
      by_cases zero : plainByte pKey sIn place = 0
      · rw [if_neg (not_not.mpr zero)]
        refine ⟨fun all => ?_, fun some_ => ?_⟩
        · obtain ⟨st₂, run, out₂⟩ := zeros all.2
          exact ⟨st₂, run, out₂.trans out⟩
        · exact others fun all => some_ ⟨zero, all⟩
      · rw [if_pos zero]
        exact ⟨fun all => absurd all.1 zero, fun _ => rfl⟩

end Decryption

end TarsCpp.Tea
