import TarsCpp.Json.Strings

/-!
# Integers and words come back

What `getNum` makes of a written 64-bit integer, and `getBoolean` of a written
boolean.  The digits are summed up modulo `2 ^ 64`, which is right for the
least integer too.
-/

namespace TarsCpp.Json

open CString PrefixDecoding BufferJsonReader

variable {reader : BufferJsonReader} {rest : List UInt8} {c : UInt8}
  {follows : List UInt8 → Prop}

/-- The sign and the digits of an integer give it back. -/
theorem signed_natAbs (d : BitVec 64) :
    (if d.toInt < 0 then 0 - (d.toInt.natAbs : BitVec 64)
      else (d.toInt.natAbs : BitVec 64)) = d := by
  have whole : BitVec.ofInt 64 d.toInt = d := BitVec.ofInt_toInt
  by_cases negative : d.toInt < 0
  · rw [if_pos negative]
    have sign : d.toInt = -(d.toInt.natAbs : Int) := by omega
    conv => rhs; rw [← whole, sign, BitVec.ofInt_neg, BitVec.ofInt_natCast]
    exact BitVec.zero_sub _
  · rw [if_neg negative]
    have sign : d.toInt = (d.toInt.natAbs : Int) := by omega
    conv => rhs; rw [← whole, sign, BitVec.ofInt_natCast]
    rfl

/-- No byte follows with which a number would go on. -/
def Ends (rest : List UInt8) : Prop :=
  ∀ c ∈ rest.head?, ¬ isDigit c ∧ c ≠ 46 ∧ c ≠ 101 ∧ c ≠ 69

section Loop

variable {double : Type} [FloatingPoint double] {st : NumState double}

theorem hasEnd_run : hasEnd.run reader =
    .ok (decide (reader.buf.length ≤ reader.cur)) reader := rfl

theorem back_run (count : Nat) :
    back.run (PrefixInput.advance reader (count + 1)) =
      .ok () (PrefixInput.advance reader count) := by
  have moved : (PrefixInput.advance reader (count + 1)).cur ≠ 0 :=
    Nat.succ_ne_zero _
  rw [back, EStateM.run_bind, EStateM.run_get]
  simp only [moved, if_false]
  rfl

theorem facing_cons_unread (facing : PrefixInput.Facing reader (c :: rest)) :
    ¬ reader.buf.length ≤ reader.cur := by
  have unread := unread_eq facing
  rw [BufferJsonReader.unread, List.length_cons] at unread
  omega

theorem facing_nil_end (facing : PrefixInput.Facing reader []) :
    reader.buf.length ≤ reader.cur := by
  have unread := unread_eq facing
  rw [BufferJsonReader.unread, List.length_nil] at unread
  omega

theorem getNumLoop_digit (turns : Nat) (digit : isDigit c)
    (facing : PrefixInput.Facing reader (c :: rest)) :
    (getNumLoop (turns + 1) st).run reader =
      (getNumLoop turns (st.digit c)).run (PrefixInput.advance reader 1) := by
  rw [getNumLoop, EStateM.run_bind, hasEnd_run]
  simp only [facing_cons_unread facing, decide_false, Bool.false_eq_true,
    if_false]
  rw [EStateM.run_bind, read_reads c reader rest facing]
  simp only [digit, if_true, List.length_singleton]

/-- Behind the digits the loop ends, at the end of the buffer or one byte
behind the number. -/
theorem getNumLoop_end (turns : Nat) (ends : Ends rest)
    (facing : PrefixInput.Facing reader rest) :
    (getNumLoop (turns + 1) st).run reader =
      .ok (if rest = [] then st else { st with bNeedBack := true })
        (PrefixInput.advance reader (if rest = [] then 0 else 1)) := by
  rw [getNumLoop, EStateM.run_bind, hasEnd_run]
  cases rest with
  | nil =>
      simp only [facing_nil_end facing, decide_true, if_true]
      rfl
  | cons c rest =>
      obtain ⟨notDigit, notPoint, notExponent⟩ := ends c rfl
      simp only [facing_cons_unread facing, decide_false, Bool.false_eq_true,
        if_false]
      rw [EStateM.run_bind, read_reads c reader rest facing]
      simp [notDigit, notPoint, notExponent]

theorem getNumLoop_run {digits : List UInt8} (turns : Nat)
    (st : NumState double)
    (integer : st.bFloat = false ∧ st.bExponential = false)
    (each : ∀ c ∈ digits, isDigit c) (started : st.bOk ∨ digits ≠ [])
    (enough : digits.length ≤ turns) (ends : Ends rest)
    (facing : PrefixInput.Facing reader (digits ++ rest)) :
    (getNumLoop (turns + 1) st).run reader =
      .ok { st with
            bOk := true
            iInt := numbered st.iInt digits
            bNeedBack := if rest = [] then st.bNeedBack else true }
        (PrefixInput.advance reader
          (digits.length + if rest = [] then 0 else 1)) := by
  induction digits generalizing st reader turns with
  | nil =>
      have ok : st.bOk = true := started.resolve_right (fun some_ => some_ rfl)
      rw [getNumLoop_end turns ends facing, List.length_nil, Nat.zero_add]
      congr 1
      by_cases ended : rest = [] <;> simp [ended, numbered, ← ok]
  | cons c digits ih =>
      rw [List.length_cons] at enough
      obtain ⟨turns, rfl⟩ := Nat.exists_eq_succ_of_ne_zero
        (show turns ≠ 0 by omega)
      have next : st.digit c = { st with
          bOk := true
          iInt := st.iInt * 10 + (digitOf c : BitVec 64) } := by
        simp [NumState.digit, integer]
      have later := ih turns (st.digit c) (by rw [next]; exact integer)
        (fun c member => each c (List.mem_cons_of_mem _ member))
        (Or.inl (by rw [next])) (by omega)
        (PrefixInput.facing_advance_one facing)
      rw [getNumLoop_digit _ (each c List.mem_cons_self) facing,
        numbered_cons]
      refine later.trans ?_
      rw [next, PrefixInput.advance_advance]
      congr 2
      simp only [List.length_cons]
      omega

/-- `getNum` of a first byte and digits. -/
theorem getNum_yields {head : UInt8} {digits : List UInt8}
    (each : ∀ c ∈ digits, isDigit c) (started : head ≠ 45 ∨ digits ≠ []) :
    Yields Ends (getNum head) digits fun number : JsonValueNum double =>
      number = .ofInt64 (if head = 45 then 0 - numbered 0 digits
        else numbered ((digitOf head : BitVec 64)) digits) := by
  intro reader rest ends facing
  have enough : digits.length ≤ reader.unread := by
    rw [unread_eq facing, List.length_append]
    exact Nat.le_add_right _ _
  have ran := getNumLoop_run reader.unread
    (NumState.start head : NumState double) ⟨rfl, rfl⟩ each
    (started.imp_left decide_eq_true) enough ends facing
  refine ⟨_, rfl, ?_⟩
  rw [getNum, EStateM.run_bind, EStateM.run_get]
  simp only
  rw [EStateM.run_bind, ran]
  by_cases ended : rest = []
  · simp only [ended, if_true]
    by_cases negative : head = 45 <;>
      simp [negative, NumState.start, NumState.result, JsonValueNum.ofInt64]
  · simp only [ended, if_false]
    by_cases negative : head = 45 <;>
      simp [negative, EStateM.run_bind, back_run, NumState.start, NumState.result,
        JsonValueNum.ofInt64, -bind_pure_comp]

end Loop

/-- A written integer is a first byte and digits, from which `getNum` gets it
back. -/
theorem writeInt64_yields (double : Type) [FloatingPoint double]
    (d : BitVec 64) : ∃ head digits, writeInt64 d = head :: digits ∧
      (isDigit head ∨ head = 45) ∧
      Yields Ends (getNum head) digits
        fun number : JsonValueNum double => number = .ofInt64 d := by
  obtain ⟨some_, each⟩ := decimal_digits d.toInt.natAbs
  have value : numbered (0 : BitVec 64) (decimal d.toInt.natAbs) = _ :=
    numbered_decimal d.toInt.natAbs
  have signed := signed_natAbs d
  rw [writeInt64, decimalInt]
  by_cases negative : d.toInt < 0
  · rw [if_pos negative] at signed ⊢
    refine ⟨45, _, rfl, Or.inr rfl, ?_⟩
    refine (getNum_yields each (Or.inr some_)).mono fun number same => ?_
    rw [same, if_pos rfl, value, signed]
  · rw [if_neg negative] at signed ⊢
    obtain ⟨head, digits, shape⟩ := List.exists_cons_of_ne_nil some_
    rw [shape] at each value ⊢
    have digit := each head List.mem_cons_self
    have unsigned : head ≠ 45 := by
      rintro rfl
      exact absurd digit (by decide)
    refine ⟨head, digits, rfl, Or.inl digit, ?_⟩
    refine (getNum_yields
      (fun c member => each c (List.mem_cons_of_mem _ member))
      (Or.inl unsigned)).mono fun number same => ?_
    have start : (0 : BitVec 64) * 10 + (digitOf head : BitVec 64) =
        (digitOf head : BitVec 64) := by simp
    rw [numbered_cons, start, signed] at value
    rw [same, if_neg unsigned, value]

theorem readLetters_reads {word : List UInt8}
    (lower : ∀ c ∈ word, tolower c = c) :
    Reads (readLetters word) word true := by
  induction word with
  | nil => exact Reads.pure true
  | cons c word ih =>
      refine (read_reads c).bind_cons ?_
      rw [if_pos (lower c List.mem_cons_self)]
      exact ih fun c member => lower c (List.mem_cons_of_mem _ member)

/-- A written boolean is a first letter and the rest of the word. -/
theorem writeBoolean_reads (value : Bool) : ∃ head word,
    writeBoolean value = head :: word ∧ (head = 116 ∨ head = 102) ∧
      Reads (getBoolean head) word value := by
  cases value with
  | true =>
      refine ⟨116, ascii "rue", rfl, Or.inl rfl, ?_⟩
      rw [getBoolean, if_pos (by decide)]
      exact (readLetters_reads (forall_mem_of_all (by decide))).bind_pure (Reads.pure _)
  | false =>
      refine ⟨102, ascii "alse", rfl, Or.inr rfl, ?_⟩
      rw [getBoolean, if_neg (by decide), if_pos (by decide)]
      exact (readLetters_reads (forall_mem_of_all (by decide))).bind_pure (Reads.pure _)

end TarsCpp.Json
