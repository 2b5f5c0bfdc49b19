import TarsCpp.Pack.TcPack

/-!
# `TC_PackOut` undoes `TC_PackIn`

Each value is read back from what was packed, whatever follows it, and so is a
sequence of values.  A string is an exception if its length does not fit the
four bytes in front of it, and a `char *` is not looked for within the buffer:
this is the one read that can leave it, whatever has been read before.
-/

namespace TarsCpp.Pack

open ByteOrder PrefixDecoding

theorem memory_swapBytes (width value : Nat) :
    memory width (swapBytes width value) = bigEndian width value := by
  have order := bigEndian_ofBigEndian (bigEndian width value).reverse
  rw [List.length_reverse, length_bigEndian] at order
  rw [memory, swapBytes, order, List.reverse_reverse]

theorem swapBytes_fromMemory (bytes : List UInt8) :
    swapBytes bytes.length (fromMemory bytes) = ofBigEndian bytes := by
  have order := bigEndian_ofBigEndian bytes.reverse
  rw [List.length_reverse] at order
  rw [swapBytes, fromMemory, order, List.reverse_reverse]

theorem pack_htonll_eq (x : Nat) : pack_htonll x = swapBytes 8 x := by
  have high : x / 2 ^ 32 * 256 ^ 4 + x % 2 ^ 32 = x := by omega
  have low : bigEndian 4 x = bigEndian 4 (x % 2 ^ 32) := by
    rw [← bigEndian_add 4 (x / 2 ^ 32) (x % 2 ^ 32), high]
  calc
    pack_htonll x
        = swapBytes 4 (x % 2 ^ 32) * 256 ^ 4 + swapBytes 4 (x / 2 ^ 32) := rfl
    _ = ofBigEndian ((bigEndian 4 (x % 2 ^ 32)).reverse ++
          (bigEndian 4 (x / 2 ^ 32)).reverse) := by
      rw [ofBigEndian_append, List.length_reverse, length_bigEndian]
      rfl
    _ = swapBytes 8 x := by
      have power : (256 : Nat) ^ 4 = 2 ^ 32 := by norm_num
      rw [swapBytes, bigEndian_append 4 4, List.reverse_append, low, power]

theorem length_memory (width value : Nat) :
    (memory width value).length = width := by
  rw [memory, List.length_reverse, length_bigEndian]

/-- A word that was swapped on the way into the buffer and on the way out. -/
theorem swapBytes_memory {width value : Nat} (fits : value < 256 ^ width) :
    swapBytes width (fromMemory (memory width (swapBytes width value))) =
      value := by
  have order := swapBytes_fromMemory (memory width (swapBytes width value))
  rw [length_memory, memory_swapBytes, ofBigEndian_bigEndian fits] at order
  rw [memory_swapBytes]
  exact order

theorem ntohs_htons (t : UInt16) : UInt16.ofNat
    (swapBytes 2 (fromMemory (memory 2 (swapBytes 2 t.toNat)))) = t := by
  have fits : t.toNat < 256 ^ 2 := t.toNat_lt
  rw [swapBytes_memory fits, UInt16.ofNat_toNat]

theorem ntohl_htonl (t : UInt32) : UInt32.ofNat
    (swapBytes 4 (fromMemory (memory 4 (swapBytes 4 t.toNat)))) = t := by
  have fits : t.toNat < 256 ^ 4 := t.toNat_lt
  rw [swapBytes_memory fits, UInt32.ofNat_toNat]

theorem ntohll_htonll (t : UInt64) : UInt64.ofNat
    (pack_ntohll (fromMemory (memory 8 (pack_htonll t.toNat)))) = t := by
  have fits : t.toNat < 256 ^ 8 := t.toNat_lt
  rw [pack_ntohll, pack_htonll_eq, pack_htonll_eq, swapBytes_memory fits,
    UInt64.ofNat_toNat]

theorem fromMemory_singleton (byte : UInt8) :
    UInt8.ofNat (fromMemory [byte]) = byte := by
  simp [fromMemory, ofBigEndian]

theorem reads_bytes (data : List UInt8) (error : String) :
    Reads (bytes data.length error) data data := by
  rintro out rest ⟨facing, inside⟩
  have length := congrArg List.length facing
  rw [List.length_drop, List.length_append] at length
  have room : ¬ out._pos + data.length > out._length := by
    rw [TcPackOut._length] at *
    omega
  rw [bytes, EStateM.run_bind, EStateM.run_get]
  simp only [room, if_false]
  rw [EStateM.run_bind, EStateM.run_set]
  simp only
  rw [EStateM.run_pure, facing, List.take_left]
  rfl

/-- A fixed number of bytes that is converted afterwards. -/
theorem reads_word {α : Type} {data : List UInt8} {len : Nat} {error : String}
    (convert : List UInt8 → α) {value : α} (length : data.length = len)
    (converts : convert data = value) :
    Reads (do
      let memory ← bytes len error
      pure (convert memory) : Unpack α) data value := by
  subst length
  refine (reads_bytes data error).bind_pure ?_
  rw [converts]
  exact Reads.pure value

theorem reads_unsignedChar (t : UInt8) : Reads unpackUnsignedChar [t] t :=
  reads_word (fun memory => UInt8.ofNat (fromMemory memory)) rfl
    (fromMemory_singleton t)

theorem reads_unsignedInt {value : Nat} (fits : value < 2 ^ 32) :
    Reads unpackUnsignedInt (memory 4 (swapBytes 4 value))
      (UInt32.ofNat value) := by
  refine reads_word
    (fun memory => UInt32.ofNat (swapBytes 4 (fromMemory memory)))
    (length_memory 4 _) ?_
  rw [swapBytes_memory fits]

theorem reads_zeroString (text : { text : List UInt8 // 0 ∉ text }) :
    Reads unpackZeroString (text.val ++ [0]) text := by
  obtain ⟨text, plain⟩ := text
  rintro out rest ⟨facing, inside⟩
  rw [List.append_assoc] at facing
  have length := congrArg List.length facing
  simp only [List.length_drop, List.length_append, List.length_singleton]
    at length
  have found : 0 ∈ out._pbuffer.drop out._pos := by
    rw [facing]
    simp
  have word : (out._pbuffer.drop out._pos).takeWhile (· ≠ 0) = text := by
    rw [facing, List.takeWhile_append_of_pos]
    · simp
    · intro c member
      have other : c ≠ 0 := fun same => plain (same ▸ member)
      simpa using other
  have room : ¬ out._pos + (text.length + 1) > out._length := by
    rw [TcPackOut._length] at *
    omega
  rw [unpackZeroString, EStateM.run_bind, EStateM.run_get]
  simp only [found, if_true, word]
  rw [EStateM.run_bind, EStateM.run_set]
  simp only [room, if_false]
  rw [EStateM.run_pure]
  simp [PrefixInput.advance]

/-- What stands in front of a string with this length. -/
def lengthBytes (len : Nat) : List UInt8 :=
  if len < 255 then [UInt8.ofNat len] else 255 :: memory 4 (swapBytes 4 len)

theorem packString_eq (sBuffer : List UInt8) :
    packString sBuffer =
      lengthBytes (sBuffer.length % 2 ^ 32) ++ sBuffer := by
  rw [packString, lengthBytes]
  split
  · rfl
  · rfl

theorem reads_length {len : Nat} (fits : len < 2 ^ 32) :
    Reads unpackLength (lengthBytes len) len := by
  rw [lengthBytes]
  split
  · next short =>
      have value : (UInt8.ofNat len).toNat = len := by
        rw [UInt8.toNat_ofNat', Nat.mod_eq_of_lt (by omega)]
      have other : UInt8.ofNat len ≠ 255 := by
        intro same
        have same := congrArg UInt8.toNat same
        rw [value] at same
        exact Nat.ne_of_lt short same
      refine (reads_unsignedChar _).bind_pure ?_
      rw [if_neg other, value]
      exact Reads.pure len
  · refine (reads_unsignedChar 255).bind_cons ?_
    rw [if_pos rfl]
    refine (reads_unsignedInt fits).bind_pure ?_
    rw [UInt32.toNat_ofNat', Nat.mod_eq_of_lt fits]
    exact Reads.pure len

theorem reads_string {data : List UInt8} (fits : data.length < 2 ^ 32) :
    Reads unpackString (lengthBytes data.length ++ data) data :=
  (reads_length fits).bind (reads_bytes data _)

/-- The values that are read as they were packed. -/
def Value.Fits : Value → Prop
  | .string sBuffer => sBuffer.length < 2 ^ 32
  | _ => True

theorem reads_value {value : Value} (fits : value.Fits) :
    Reads (unpack value.kind) (pack value) value := by
  cases value with
  | bool t =>
      refine reads_word (fun memory => Value.bool (fromMemory memory ≠ 0)) rfl ?_
      cases t <;> rfl
  | char t =>
      refine reads_word
        (fun memory => Value.char (UInt8.ofNat (fromMemory memory)).toInt8) rfl ?_
      rw [pack, fromMemory_singleton, Int8.toInt8_toUInt8]
  | unsignedChar t => exact (reads_unsignedChar t).bind_pure (Reads.pure _)
  | short t =>
      refine reads_word (fun memory =>
        Value.short (UInt16.ofNat (swapBytes 2 (fromMemory memory))).toInt16)
        (length_memory 2 _) ?_
      rw [pack, ntohs_htons, Int16.toInt16_toUInt16]
  | unsignedShort t =>
      refine reads_word (fun memory =>
        Value.unsignedShort (UInt16.ofNat (swapBytes 2 (fromMemory memory))))
        (length_memory 2 _) ?_
      rw [pack, ntohs_htons]
  | int t =>
      refine reads_word (fun memory =>
        Value.int (UInt32.ofNat (swapBytes 4 (fromMemory memory))).toInt32)
        (length_memory 4 _) ?_
      rw [pack, ntohl_htonl, Int32.toInt32_toUInt32]
  | unsignedInt t =>
      have reads := reads_unsignedInt t.toNat_lt
      rw [UInt32.ofNat_toNat] at reads
      exact reads.bind_pure (Reads.pure _)
  | long t =>
      refine reads_word (fun memory =>
        Value.long (UInt64.ofNat (pack_ntohll (fromMemory memory))).toInt64)
        (length_memory 8 _) ?_
      rw [pack, ntohll_htonll, Int64.toInt64_toUInt64]
  | unsignedLong t =>
      refine reads_word (fun memory =>
        Value.unsignedLong (UInt64.ofNat (pack_ntohll (fromMemory memory))))
        (length_memory 8 _) ?_
      rw [pack, ntohll_htonll]
  | longLong t =>
      refine reads_word (fun memory =>
        Value.longLong (UInt64.ofNat (pack_ntohll (fromMemory memory))).toInt64)
        (length_memory 8 _) ?_
      rw [pack, ntohll_htonll, Int64.toInt64_toUInt64]
  | unsignedLongLong t =>
      refine reads_word (fun memory =>
        Value.unsignedLongLong (UInt64.ofNat (pack_ntohll (fromMemory memory))))
        (length_memory 8 _) ?_
      rw [pack, ntohll_htonll]
  | float t =>
      refine reads_word (fun memory =>
        Value.float (UInt32.ofNat (swapBytes 4 (fromMemory memory))))
        (length_memory 4 _) ?_
      rw [pack, ntohl_htonl]
  | double t =>
      refine reads_word (fun memory =>
        Value.double (UInt64.ofNat (pack_ntohll (fromMemory memory))))
        (length_memory 8 _) ?_
      rw [pack, ntohll_htonll]
  | zeroString sBuffer =>
      exact (reads_zeroString sBuffer).bind_pure (Reads.pure _)
  | string sBuffer =>
      have reads := reads_string fits
      rw [pack, packString_eq, Nat.mod_eq_of_lt fits]
      exact reads.bind_pure (Reads.pure _)

/-- A string that is too long comes back cut. -/
theorem fits_of_read {value : Value} {out after : TcPackOut}
    {rest : List UInt8} (facing : PrefixInput.Facing out (pack value ++ rest))
    (read : (unpack value.kind).run out = .ok value after) : value.Fits := by
  cases value with
  | string sBuffer =>
      rcases Nat.lt_or_ge sBuffer.length (2 ^ 32) with fits | long
      · exact fits
      · exfalso
        have below : sBuffer.length % 2 ^ 32 < 2 ^ 32 :=
          Nat.mod_lt _ (by norm_num)
        have cut : (sBuffer.take (sBuffer.length % 2 ^ 32)).length =
            sBuffer.length % 2 ^ 32 := by
          rw [List.length_take]
          omega
        have reads := reads_string (cut.trans_lt below)
        rw [cut] at reads
        rw [pack, packString_eq, List.append_assoc,
          ← List.take_append_drop (sBuffer.length % 2 ^ 32) (sBuffer ++ rest),
          List.take_append_of_le_length (Nat.mod_le _ _), ← List.append_assoc]
          at facing
        have run := reads out _ facing
        rw [Value.kind, unpack, EStateM.run_bind, run] at read
        simp only [EStateM.run_pure, EStateM.Result.ok.injEq,
          Value.string.injEq] at read
        have same := congrArg List.length read.1
        omega
  | _ => trivial

theorem reads_all {values : List Value}
    (fits : ∀ value ∈ values, value.Fits) :
    Reads (unpackAll (values.map Value.kind)) (packAll values) values := by
  induction values with
  | nil => exact Reads.pure []
  | cons value values induction =>
      obtain ⟨first, later⟩ := List.forall_mem_cons.mp fits
      rw [List.map_cons, unpackAll, List.mapM_cons]
      exact (reads_value first).bind ((induction later).bind_pure (Reads.pure _))

theorem unpackAll_cons {kind : Kind} {kinds : List Kind} {value : Value}
    {values : List Value} {out after : TcPackOut}
    (read : (unpackAll (kind :: kinds)).run out = .ok (value :: values) after) :
    ∃ middle, (unpack kind).run out = .ok value middle ∧
      (unpackAll kinds).run middle = .ok values after := by
  rw [unpackAll, List.mapM_cons, EStateM.run_bind] at read
  cases first : (unpack kind).run out with
  | error fault middle =>
      rw [first] at read
      cases read
  | ok value' middle =>
      rw [first] at read
      simp only at read
      rw [EStateM.run_bind] at read
      refine ⟨middle, ?_⟩
      rw [unpackAll]
      cases second : (kinds.mapM unpack).run middle with
      | error fault middle' =>
          rw [second] at read
          cases read
      | ok values' middle' =>
          rw [second] at read
          cases read
          exact ⟨rfl, rfl⟩

theorem fits_of_read_all {values : List Value} {out after : TcPackOut}
    {rest : List UInt8}
    (facing : PrefixInput.Facing out (packAll values ++ rest))
    (read : (unpackAll (values.map Value.kind)).run out = .ok values after) :
    ∀ value ∈ values, value.Fits := by
  induction values generalizing out with
  | nil => exact fun _ member => absurd member List.not_mem_nil
  | cons value values induction =>
      obtain ⟨middle, first, later⟩ := unpackAll_cons read
      rw [packAll, List.flatMap_cons, List.append_assoc] at facing
      have fits := fits_of_read facing first
      have run := reads_value fits out _ facing
      rw [first] at run
      cases run
      exact List.forall_mem_cons.mpr
        ⟨fits, induction (PrefixInput.facing_advance facing) later⟩

/-- The values come back, and nothing is left. -/
def RoundTrip (values : List Value) : Prop :=
  ∃ out, (unpackAll (values.map Value.kind)).run
      (TcPackOut.init (packAll values)) = .ok values out ∧
    out.isEnd = true

theorem roundTrip_iff_fits {values : List Value} :
    RoundTrip values ↔ ∀ value ∈ values, value.Fits := by
  have facing : PrefixInput.Facing (TcPackOut.init (packAll values))
      (packAll values ++ []) := by
    rw [List.append_nil]
    exact ⟨rfl, Nat.zero_le _⟩
  constructor
  · rintro ⟨out, read, _⟩
    exact fits_of_read_all facing read
  · intro fits
    refine ⟨_, reads_all fits _ _ facing, ?_⟩
    simp [TcPackOut.isEnd, PrefixInput.advance, TcPackOut.init,
      TcPackOut._length]

namespace TcPackOut

/-- What has not been read yet. -/
def rest (out : TcPackOut) : List UInt8 := out._pbuffer.drop out._pos

def Inside (out : TcPackOut) : Prop := out._pos ≤ out._length

end TcPackOut

/-- The read has inspected no byte behind the buffer, and has not moved past
its end. -/
def Contained (outcome : Outcome) : Prop :=
  outcome.state.Inside ∧
    match outcome with
    | .ok _ _ => True
    | .error fault _ => fault ≠ .outside

section Reads

variable {α : Type} {out : TcPackOut}

/-- The decoder throws an exception at worst, and stays in the buffer. -/
def Careful (decoder : Unpack α) (out : TcPackOut) : Prop :=
  Satisfies decoder out (fun _ out => out.Inside)
    fun fault out => out.Inside ∧ fault ≠ .outside

theorem Careful.bind {β : Type} {first : Unpack α} {next : α → Unpack β}
    (firstCareful : Careful first out)
    (nextCareful : ∀ value out, out.Inside → Careful (next value) out) :
    Careful (first >>= next) out :=
  Satisfies.bind firstCareful nextCareful fun _ _ allowed => allowed

theorem careful_pure {value : α} (inside : out.Inside) :
    Careful (pure value) out := by
  rw [Careful, satisfies_pure]
  exact inside

theorem careful_bytes {len : Nat} {error : String} (inside : out.Inside) :
    Careful (bytes len error) out := by
  unfold Careful Satisfies
  rw [bytes, EStateM.run_bind, EStateM.run_get]
  simp only
  split
  · next value after run =>
      split at run
      · cases run
      · next room =>
          cases run
          exact Nat.le_of_not_lt room
  · next fault after run =>
      split at run
      · cases run
        exact ⟨inside, by simp⟩
      · cases run

theorem careful_word {len : Nat} {error : String}
    (convert : List UInt8 → α) (inside : out.Inside) :
    Careful (do
      let memory ← bytes len error
      pure (convert memory)) out :=
  (careful_bytes inside).bind fun _ _ => careful_pure

theorem careful_string (inside : out.Inside) : Careful unpackString out := by
  have length : Careful unpackLength out := by
    refine (careful_word _ inside).bind fun c out inside => ?_
    split
    · exact (careful_word _ inside).bind fun _ _ => careful_pure
    · exact careful_pure inside
  exact length.bind fun _ _ => careful_bytes

/-- Where a NUL is left, the string ends there. -/
theorem careful_zeroString (inside : out.Inside) (found : 0 ∈ out.rest) :
    Careful unpackZeroString out := by
  obtain ⟨front, back, split, plain⟩ := List.eq_append_cons_of_mem found
  have facing : PrefixInput.Facing out ((front ++ [0]) ++ back) := by
    rw [List.append_assoc]
    exact ⟨split, inside⟩
  have run := reads_zeroString ⟨front, plain⟩ out back facing
  unfold Careful Satisfies
  rw [run]
  exact (PrefixInput.facing_advance facing).2

theorem unpackZeroString_outside (missing : 0 ∉ out.rest) :
    unpackZeroString.run out = .error .outside out := by
  rw [TcPackOut.rest] at missing
  rw [unpackZeroString, EStateM.run_bind, EStateM.run_get]
  simp only [missing, if_false]
  rfl

theorem careful_unpack {kind : Kind} (inside : out.Inside)
    (terminated : kind = .zeroString → 0 ∈ out.rest) :
    Careful (unpack kind) out := by
  cases kind with
  | unsignedChar =>
      exact (careful_word _ inside).bind fun _ _ => careful_pure
  | unsignedInt =>
      exact (careful_word _ inside).bind fun _ _ => careful_pure
  | zeroString =>
      exact (careful_zeroString inside (terminated rfl)).bind
        fun _ _ => careful_pure
  | string => exact (careful_string inside).bind fun _ _ => careful_pure
  | _ => exact careful_word _ inside

theorem contained_iff {kind : Kind} (inside : out.Inside) :
    Contained ((unpack kind).run out) ↔
      (kind = .zeroString → 0 ∈ out.rest) := by
  constructor
  · rintro contained rfl
    by_contra missing
    rw [unpack, EStateM.run_bind, unpackZeroString_outside missing]
      at contained
    exact contained.2 rfl
  · intro terminated
    have careful := careful_unpack inside terminated
    unfold Careful Satisfies at careful
    cases run : (unpack kind).run out with
    | ok value after =>
        rw [run] at careful
        exact ⟨careful, trivial⟩
    | error fault after =>
        rw [run] at careful
        exact careful

end Reads

/-- Each read of a `char *` finds a NUL in what has not been read. -/
def Terminated : List Kind → TcPackOut → Prop
  | [], _ => True
  | kind :: kinds, out =>
      (kind = .zeroString → 0 ∈ out.rest) ∧
        Terminated kinds (Outcome.state ((unpack kind).run out))

theorem readEach_contained_iff {kinds : List Kind} {out : TcPackOut}
    (inside : out.Inside) :
    (∀ outcome ∈ readEach kinds out, Contained outcome) ↔
      Terminated kinds out := by
  induction kinds generalizing out with
  | nil => simp [readEach, Terminated]
  | cons kind kinds induction =>
      rw [readEach, Terminated, List.forall_mem_cons, contained_iff inside]
      refine and_congr_right fun terminated => ?_
      exact induction ((contained_iff inside).mpr terminated).1

/-- Values come back exactly when their strings are not too long, and reads
of arbitrary bytes stay within them exactly when each `char *` ends there. -/
theorem packOut_iff (values : List Value) (kinds : List Kind)
    (pBuffer : List UInt8) :
    (RoundTrip values ↔
      ∀ sBuffer, .string sBuffer ∈ values → sBuffer.length < 2 ^ 32) ∧
    ((∀ outcome ∈ readEach kinds (TcPackOut.init pBuffer),
        Contained outcome) ↔
      Terminated kinds (TcPackOut.init pBuffer)) := by
  constructor
  · rw [roundTrip_iff_fits]
    refine ⟨fun fits sBuffer member => fits _ member, ?_⟩
    intro strings value member
    cases value with
    | string sBuffer => exact strings sBuffer member
    | _ => trivial
  · exact readEach_contained_iff (Nat.zero_le _)

/-- A string without a NUL is searched for one behind the buffer. -/
theorem zeroString_outside :
    ¬ ∀ outcome ∈ readEach [.zeroString] (TcPackOut.init [97]),
      Contained outcome := by
  intro contained
  have here := contained (.error .outside (TcPackOut.init [97]))
    (List.mem_singleton.mpr rfl)
  exact here.2 rfl

end TarsCpp.Pack
