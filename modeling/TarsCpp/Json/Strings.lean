import TarsCpp.Json.Parser

/-!
# Strings come back

What `getString` makes of a string that `writeString` wrote: the string itself
if its runs of plain bytes are short, and a shorter one otherwise, since `i` in
`getString` is counted in 32 bits.
-/

namespace TarsCpp.Json

open CString PrefixDecoding BufferJsonReader

variable {reader : BufferJsonReader} {bytes rest blanks : List UInt8}
  {c : UInt8} {follows : List UInt8 → Prop}

theorem unread_eq (facing : PrefixInput.Facing reader bytes) :
    reader.unread = bytes.length := by
  have facing : reader.buf.drop reader.cur = bytes := facing
  rw [unread, ← facing, List.length_drop]

theorem read_reads (c : UInt8) : Reads BufferJsonReader.read [c] c := by
  intro reader rest facing
  have facing : reader.buf.drop reader.cur = c :: rest := facing
  have here : reader.buf[reader.cur]? = some c := by
    rw [← List.head?_drop, facing, List.head?_cons]
  simp only [BufferJsonReader.read, EStateM.run_bind, EStateM.run_get, here,
    EStateM.run_set, EStateM.run_pure]
  rfl

theorem filterSpace_reads (spaces : ∀ space ∈ blanks, isspace space)
    (other : ¬ isspace c) {first : UInt8} {behind : List UInt8}
    (whole : blanks ++ [c] = first :: behind) {turns : Nat}
    (enough : behind.length < turns) :
    Reads (filterSpace turns first) behind c := by
  induction blanks generalizing first behind turns with
  | nil =>
      obtain ⟨rfl, rfl⟩ := List.cons.inj whole
      obtain ⟨turns, rfl⟩ := Nat.exists_eq_succ_of_ne_zero
        (Nat.ne_of_gt enough)
      rw [filterSpace, if_neg other]
      exact Reads.pure c
  | cons space blanks ih =>
      rw [List.cons_append, List.cons.injEq] at whole
      obtain ⟨rfl, rfl⟩ := whole
      obtain ⟨turns, rfl⟩ := Nat.exists_eq_succ_of_ne_zero
        (Nat.ne_of_gt (Nat.zero_lt_of_lt enough))
      have blank := spaces _ List.mem_cons_self
      rw [filterSpace, if_pos blank]
      obtain ⟨next, behind, shape⟩ : ∃ next behind,
          blanks ++ [c] = next :: behind :=
        List.exists_cons_of_ne_nil (by simp)
      rw [shape] at enough ⊢
      rw [List.length_cons] at enough
      refine (read_reads next).bind_cons ?_
      exact ih (fun space member => spaces space (List.mem_cons_of_mem _ member))
        shape (by omega)

/-- Blanks are passed over up to the first other byte. -/
theorem readFiltered_reads (spaces : ∀ space ∈ blanks, isspace space)
    (other : ¬ isspace c) : Reads readFiltered (blanks ++ [c]) c := by
  obtain ⟨first, behind, whole⟩ : ∃ first behind,
      blanks ++ [c] = first :: behind :=
    List.exists_cons_of_ne_nil (by simp)
  rw [whole]
  refine (read_reads first).bind_cons ?_
  refine Reads.gets (fun reader => reader.unread + 1)
    (fun turns => filterSpace turns first) fun reader rest facing => ?_
  refine filterSpace_reads spaces other whole ?_
  rw [unread_eq facing, List.length_append]
  omega

theorem byte_cases {motive : UInt8 → Prop}
    (each : ∀ n : Fin 256, motive (UInt8.ofFin n)) (c : UInt8) : motive c := by
  have this := each c.toFin
  rwa [UInt8.ofFin_toFin] at this

theorem writeByte_plain (plain : Plain c) : writeByte c = [c] := by
  revert plain
  induction c using byte_cases with
  | each n =>
      revert n
      decide +kernel

/-- The two forms of an escape. -/
theorem writeByte_special (special : ¬ Plain c) :
    (∃ letter, writeByte c = [92, letter] ∧ escaped letter = some c) ∨
      (∃ high low, writeByte c = [92, 117, 48, 48, high, low] ∧
        hexValue high = some (c.toNat / 16) ∧
        hexValue low = some (c.toNat % 16) ∧ c.toNat < 128) := by
  have table : (writeByte c = [92, (writeByte c).getD 1 0] ∧
      escaped ((writeByte c).getD 1 0) = some c) ∨
      (writeByte c = [92, 117, 48, 48, hexDigit (c / 16), hexDigit (c % 16)] ∧
        hexValue (hexDigit (c / 16)) = some (c.toNat / 16) ∧
        hexValue (hexDigit (c % 16)) = some (c.toNat % 16) ∧
        c.toNat < 128) := by
    revert special
    induction c using byte_cases with
    | each n =>
        revert n
        decide +kernel
  rcases table with ⟨written, means⟩ | ⟨written, high, low, small⟩
  · exact Or.inl ⟨_, written, means⟩
  · exact Or.inr ⟨_, _, written, high, low, small⟩

theorem writeByte_pos (c : UInt8) : 0 < (writeByte c).length := by
  by_cases plain : Plain c
  · rw [writeByte_plain plain]
    exact Nat.one_pos
  · rcases writeByte_special plain with ⟨_, written, _⟩ | ⟨_, _, written, _⟩ <;>
      simp [written]

theorem length_le_written (s : List UInt8) :
    s.length ≤ (s.flatMap writeByte).length := by
  induction s with
  | nil => exact Nat.le_refl _
  | cons c s ih =>
      have positive := writeByte_pos c
      rw [List.flatMap_cons, List.length_append, List.length_cons]
      omega

@[simp] theorem advance_buf (count : Nat) :
    (PrefixInput.advance reader count).buf = reader.buf := rfl

@[simp] theorem advance_cur (count : Nat) :
    (PrefixInput.advance reader count).cur = reader.cur + count := rfl

@[simp] theorem append_advance (st : StringState) (count : Nat) :
    st.append (PrefixInput.advance reader count) = st.append reader := rfl

theorem getHexLoop_reads {high low : UInt8} {first second : Nat}
    (highDigit : hexValue high = some first)
    (lowDigit : hexValue low = some second) :
    Reads getHex [48, 48, high, low] (first * 16 + second) := by
  have digit : ∀ (iLoop iCode value : Nat) (c : UInt8) (more : List UInt8)
      (result : Nat), hexValue c = some value →
      Reads (getHexLoop iLoop (iCode * 16 + value)) more result →
      Reads (getHexLoop (iLoop + 1) iCode) (c :: more) result := by
    intro iLoop iCode value c more result digit later
    refine (read_reads c).bind_cons ?_
    simp only [digit]
    exact later
  have zero : hexValue 48 = some 0 := by decide
  refine digit 3 0 0 48 _ _ zero (digit 2 _ 0 48 _ _ zero
    (digit 1 _ first high _ _ highDigit (digit 0 _ second low _ _ lowDigit ?_)))
  exact (Reads.pure _).of_eq rfl (by omega)

/-- An escape appends its byte and moves `pChar` behind it. -/
theorem getEscape_run (special : ¬ Plain c) {tail : List UInt8}
    (written : writeByte c = 92 :: tail) (st : StringState)
    (facing : PrefixInput.Facing reader (tail ++ rest)) :
    (getEscape st).run reader =
      .ok { value := st.append reader ++ [c]
            pChar := st.pChar + st.i.toNat + (tail.length + 1)
            i := 0 }
        (PrefixInput.advance reader tail.length) := by
  rcases writeByte_special special with
    ⟨letter, two, means⟩ | ⟨high, low, six, highDigit, lowDigit, small⟩
  · rw [two, List.cons.injEq] at written
    obtain ⟨-, rfl⟩ := written
    simp only [getEscape, EStateM.run_bind, EStateM.run_get,
      read_reads letter reader rest facing, means, EStateM.run_pure]
    rfl
  · rw [six, List.cons.injEq] at written
    obtain ⟨-, rfl⟩ := written
    have read := read_reads 117 reader ([48, 48, high, low] ++ rest) facing
    have hex := getHexLoop_reads highDigit lowDigit
      (PrefixInput.advance reader 1) rest
      (PrefixInput.facing_advance_one facing)
    have none_ : escaped 117 = none := by decide
    have code : codeBytes (c.toNat / 16 * 16 + c.toNat % 16) = [c] := by
      have whole : c.toNat / 16 * 16 + c.toNat % 16 = c.toNat := by omega
      rw [whole, codeBytes, if_pos small]
      exact congrArg (fun byte => [byte]) (UInt8.ofNat_toNat)
    simp only [getEscape, EStateM.run_bind, EStateM.run_get, read, none_,
      if_true, List.length_singleton, hex, code, EStateM.run_pure]
    rfl

/-- The state inside a run of plain bytes: they are copied later. -/
structure InRun (st : StringState) (reader : BufferJsonReader)
    (run : List UInt8) : Prop where
  plain : ∀ c ∈ run, Plain c
  short : run.length < 2 ^ 32
  counted : st.i.toNat = run.length
  behind : st.pChar + run.length = reader.cur
  copied : reader.slice st.pChar run.length = run

section Runs

variable {st : StringState} {run : List UInt8}

theorem InRun.append_eq (inRun : InRun st reader run) :
    st.append reader = st.value ++ run := by
  rw [StringState.append, inRun.counted, inRun.copied]

theorem InRun.begin (value : List UInt8) {pChar : Nat}
    (here : pChar = reader.cur) :
    InRun { value := value, pChar := pChar, i := 0 } reader [] where
  plain := by simp
  short := by simp
  counted := rfl
  behind := here
  copied := rfl

/-- One more plain byte, as long as `i` can count it. -/
theorem InRun.next (inRun : InRun st reader run) (plain : Plain c)
    (facing : PrefixInput.Facing reader (c :: rest))
    (room : run.length + 1 < 2 ^ 32) :
    InRun { st with i := st.i + 1 } (PrefixInput.advance reader 1)
      (run ++ [c]) where
  plain := by
    intro other member
    rcases List.mem_append.mp member with member | member
    · exact inRun.plain other member
    · exact List.mem_singleton.mp member ▸ plain
  short := by
    rw [List.length_append, List.length_singleton]
    exact room
  counted := by
    have counted := inRun.counted
    rw [UInt32.toNat_add, counted, List.length_append]
    exact Nat.mod_eq_of_lt room
  behind := by
    have behind := inRun.behind
    rw [List.length_append, List.length_singleton, advance_cur]
    exact (Nat.add_assoc _ _ _).symm.trans (congrArg (· + 1) behind)
  copied := by
    have facing : reader.buf.drop reader.cur = c :: rest := facing
    have copied := inRun.copied
    rw [slice] at copied ⊢
    rw [List.length_append, List.length_singleton, List.take_add, advance_buf,
      copied, List.drop_drop, inRun.behind, facing]
    rfl

theorem slice_length_le (pChar i : Nat) :
    (reader.slice pChar i).length ≤ i := by
  rw [slice, List.length_take]
  exact Nat.min_le_left _ _

theorem getStringLoop_end (turns : Nat)
    (facing : PrefixInput.Facing reader (34 :: rest)) :
    (getStringLoop 34 (turns + 1) st).run reader =
      .ok (st.append reader) (PrefixInput.advance reader 1) := by
  rw [getStringLoop, EStateM.run_bind, read_reads 34 reader rest facing]
  rfl

theorem getStringLoop_plain (turns : Nat) (plain : Plain c)
    (facing : PrefixInput.Facing reader (c :: rest)) :
    (getStringLoop 34 (turns + 1) st).run reader =
      (getStringLoop 34 turns { st with i := st.i + 1 }).run
        (PrefixInput.advance reader 1) := by
  rw [getStringLoop, EStateM.run_bind, read_reads c reader rest facing]
  simp only [plain.2.2.2, plain.2.1, if_false, List.length_singleton]

theorem getStringLoop_special (turns : Nat) (special : ¬ Plain c)
    (facing : PrefixInput.Facing reader (writeByte c ++ rest)) :
    (getStringLoop 34 (turns + 1) st).run reader =
      (getStringLoop 34 turns
        { value := st.append reader ++ [c]
          pChar := st.pChar + st.i.toNat + (writeByte c).length
          i := 0 }).run
        (PrefixInput.advance reader (writeByte c).length) := by
  obtain ⟨tail, written⟩ : ∃ tail, writeByte c = 92 :: tail := by
    rcases writeByte_special special with
      ⟨_, written, _⟩ | ⟨_, _, written, _⟩ <;> exact ⟨_, written⟩
  rw [written] at facing ⊢
  rw [getStringLoop, EStateM.run_bind, read_reads 92 reader _ facing]
  simp only [if_true, EStateM.run_bind]
  have behind := getEscape_run special written st
    (PrefixInput.facing_advance_one facing)
  rw [List.length_singleton, behind]
  simp only [append_advance, PrefixInput.advance_advance, List.length_cons,
    Nat.add_comm 1]

theorem append_length_le : (st.append reader).length ≤
    st.value.length + st.i.toNat := by
  rw [StringState.append, List.length_append]
  exact Nat.add_le_add_left (slice_length_le _ _) _

/-- Whatever was lost stays lost. -/
theorem getStringLoop_lost (s : List UInt8) (st : StringState)
    (bound turns : Nat)
    (lost : st.value.length + st.i.toNat < bound) (enough : s.length ≤ turns)
    (facing : PrefixInput.Facing reader (s.flatMap writeByte ++ 34 :: rest)) :
    ∃ value, (getStringLoop 34 (turns + 1) st).run reader =
        .ok value (PrefixInput.advance reader
          ((s.flatMap writeByte).length + 1)) ∧
      value.length < bound + s.length := by
  induction s generalizing st reader bound turns with
  | nil =>
      exact ⟨_, getStringLoop_end turns facing,
        Nat.lt_of_le_of_lt append_length_le lost⟩
  | cons c s ih =>
      rw [List.length_cons] at enough
      obtain ⟨turns, rfl⟩ := Nat.exists_eq_succ_of_ne_zero
        (show turns ≠ 0 by omega)
      rw [List.flatMap_cons, List.append_assoc] at facing
      rw [List.flatMap_cons, List.length_append, List.length_cons,
        Nat.add_assoc, ← PrefixInput.advance_advance, Nat.add_comm s.length,
        ← Nat.add_assoc]
      by_cases plain : Plain c
      · rw [writeByte_plain plain] at facing ⊢
        rw [getStringLoop_plain _ plain facing]
        refine ih _ _ _ ?_ (by omega) (PrefixInput.facing_advance facing)
        have counted : (st.i + 1).toNat ≤ st.i.toNat + 1 := by
          rw [UInt32.toNat_add]
          exact Nat.mod_le _ _
        exact Nat.lt_of_le_of_lt (Nat.add_le_add_left counted _)
          (Nat.succ_lt_succ lost)
      · rw [getStringLoop_special _ plain facing]
        refine ih _ _ _ ?_ (by omega) (PrefixInput.facing_advance facing)
        rw [List.length_append]
        exact Nat.succ_lt_succ (Nat.lt_of_le_of_lt append_length_le lost)

/-- What becomes of a string. -/
structure Copied (s value : List UInt8) : Prop where
  whole : ShortRuns s → value = s
  shorter : ¬ ShortRuns s → value.length < s.length

theorem getStringLoop_copied (s : List UInt8) (turns : Nat)
    (inRun : InRun st reader run) (enough : s.length ≤ turns)
    (facing : PrefixInput.Facing reader (s.flatMap writeByte ++ 34 :: rest)) :
    ∃ value, (getStringLoop 34 (turns + 1) st).run reader =
        .ok value (PrefixInput.advance reader
          ((s.flatMap writeByte).length + 1)) ∧
      (ShortRuns (run ++ s) → value = st.value ++ (run ++ s)) ∧
      (¬ ShortRuns (run ++ s) →
        value.length < st.value.length + (run ++ s).length) := by
  induction s generalizing st reader run turns with
  | nil =>
      refine ⟨_, getStringLoop_end turns facing, fun _ => ?_, fun long => ?_⟩
      · rw [inRun.append_eq, List.append_nil]
      · rw [List.append_nil] at long
        exact absurd (shortRuns_of_length inRun.short) long
  | cons c s ih =>
      rw [List.length_cons] at enough
      obtain ⟨turns, rfl⟩ := Nat.exists_eq_succ_of_ne_zero
        (show turns ≠ 0 by omega)
      rw [List.flatMap_cons, List.append_assoc] at facing
      rw [List.flatMap_cons, List.length_append, Nat.add_assoc,
        ← PrefixInput.advance_advance]
      by_cases plain : Plain c
      · rw [writeByte_plain plain] at facing ⊢
        rw [getStringLoop_plain _ plain facing]
        have behind := PrefixInput.facing_advance facing
        have shape : run ++ c :: s = (run ++ [c]) ++ s := by simp
        rw [shape]
        by_cases room : run.length + 1 < 2 ^ 32
        · exact ih turns (inRun.next plain facing room) (by omega) behind
        · -- the counter has come round to 0
          have wrapped : (st.i + 1).toNat = 0 := by
            have counted := inRun.counted
            have short := inRun.short
            rw [UInt32.toNat_add, counted]
            have full : run.length + 1 = 2 ^ 32 := by omega
            exact full ▸ Nat.mod_self _
          have long : ¬ ShortRuns (run ++ [c] ++ s) := by
            intro short
            have all : ∀ byte ∈ run ++ [c], Plain byte := by
              intro byte member
              rcases List.mem_append.mp member with member | member
              · exact inRun.plain byte member
              · exact List.mem_singleton.mp member ▸ plain
            have below := short (run ++ [c]) (List.infix_append' [] _ s) all
            rw [List.length_append, List.length_singleton] at below
            exact room below
          have lost : st.value.length + (st.i + 1).toNat <
              st.value.length + (run ++ [c]).length := by
            rw [wrapped, List.length_append, List.length_singleton]
            exact Nat.lt_add_of_pos_right (Nat.succ_pos _)
          obtain ⟨value, ran, less⟩ := getStringLoop_lost s
            { st with i := st.i + 1 } _ turns lost (by omega) behind
          refine ⟨value, ran, fun short => absurd short long, fun _ => ?_⟩
          rw [List.length_append, ← Nat.add_assoc]
          exact less
      · rw [getStringLoop_special _ plain facing]
        have here : st.pChar + st.i.toNat + (writeByte c).length =
            (PrefixInput.advance reader (writeByte c).length).cur := by
          rw [inRun.counted, inRun.behind, advance_cur]
        obtain ⟨value, ran, whole, shorter⟩ := ih turns
          (InRun.begin (st.append reader ++ [c]) here) (by omega)
          (PrefixInput.facing_advance facing)
        have split : ShortRuns (run ++ c :: s) ↔ ShortRuns s :=
          shortRuns_split inRun.short plain
        refine ⟨value, ran, fun short => ?_, fun long => ?_⟩
        · rw [whole (split.mp short), inRun.append_eq]
          simp
        · have less := shorter fun short => long (split.mpr short)
          rw [inRun.append_eq] at less
          simp only [List.length_append, List.length_cons, List.length_nil,
            List.nil_append] at less ⊢
          omega

end Runs

/-- A string comes back exactly if its runs are short. -/
theorem getString_yields (s : List UInt8) :
    Yields follows (getString 34) (s.flatMap writeByte ++ [34]) (Copied s) := by
  intro reader rest _ facing
  have enough : s.length ≤ reader.unread := by
    have written := length_le_written s
    rw [unread_eq facing, List.length_append, List.length_append]
    omega
  rw [List.append_assoc, List.singleton_append] at facing
  obtain ⟨value, ran, whole, shorter⟩ := getStringLoop_copied s reader.unread
    (InRun.begin [] rfl) enough facing
  refine ⟨value, ⟨fun short => ?_, fun long => ?_⟩, ?_⟩
  · simpa using whole short
  · simpa using shorter long
  · rw [List.length_append, List.length_singleton]
    exact ran

end TarsCpp.Json
