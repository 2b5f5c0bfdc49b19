import TarsCpp.Json.Parser

/-!
# Every text is read to an end

`TC_Json::getValue` returns a value or throws: no assertion of the reader fails
and no bound that the model puts on a loop, or on the nesting, is met.  What
carries it is that each turn of a loop reads a byte.
-/

namespace TarsCpp.Json

open BufferJsonReader CString

/-- The call throws an exception, or it returns with such a reader. -/
def EndsWith {α : Type} (call : Parse α) (reader : BufferJsonReader)
    (post : α → BufferJsonReader → Prop) : Prop :=
  match call.run reader with
  | .ok value reader' => post value reader'
  | .error fault _ => ∃ message, fault = .throws message

/-- The same buffer, and at least so many bytes further. -/
structure Behind (bytes : ℕ) (reader reader' : BufferJsonReader) : Prop where
  buf : reader'.buf = reader.buf
  cur : reader.cur + bytes ≤ reader'.cur

theorem Behind.refl (reader : BufferJsonReader) : Behind 0 reader reader :=
  ⟨rfl, le_rfl⟩

theorem Behind.trans {first second : ℕ}
    {reader reader' reader'' : BufferJsonReader}
    (before : Behind first reader reader')
    (after : Behind second reader' reader'') :
    Behind (first + second) reader reader'' := by
  refine ⟨after.buf.trans before.buf, ?_⟩
  have first := before.cur
  have second := after.cur
  omega

theorem Behind.weaken {fewer bytes : ℕ} {reader reader' : BufferJsonReader}
    (behind : Behind bytes reader reader') (le : fewer ≤ bytes) :
    Behind fewer reader reader' := by
  refine ⟨behind.buf, ?_⟩
  have further := behind.cur
  omega

theorem Behind.unread {bytes : ℕ} {reader reader' : BufferJsonReader}
    (behind : Behind bytes reader reader') :
    reader'.unread ≤ reader.unread - bytes := by
  have further := behind.cur
  unfold BufferJsonReader.unread
  rw [behind.buf]
  omega

section Rules

variable {α β : Type} {reader : BufferJsonReader}
  {post : α → BufferJsonReader → Prop} {post' : β → BufferJsonReader → Prop}

theorem EndsWith.pure {value : α} (holds : post value reader) :
    EndsWith (Pure.pure value) reader post :=
  holds

theorem EndsWith.mono {call : Parse α} {weaker : α → BufferJsonReader → Prop}
    (ends : EndsWith call reader post)
    (implies : ∀ value reader', post value reader' → weaker value reader') :
    EndsWith call reader weaker := by
  unfold EndsWith at ends ⊢
  cases ran : call.run reader with
  | ok value reader' =>
      rw [ran] at ends
      exact implies value reader' ends
  | error fault reader' =>
      rw [ran] at ends
      exact ends

theorem EndsWith.bind {call : Parse α} {next : α → Parse β}
    (first : EndsWith call reader post)
    (rest : ∀ value reader', post value reader' →
      EndsWith (next value) reader' post') :
    EndsWith (call >>= next) reader post' := by
  unfold EndsWith at first ⊢
  rw [EStateM.run_bind]
  cases ran : call.run reader with
  | ok value reader' =>
      rw [ran] at first
      exact rest value reader' first
  | error fault reader' =>
      rw [ran] at first
      exact first

theorem EndsWith.map {call : Parse α} {make : α → β}
    (ends : EndsWith call reader fun value => post' (make value)) :
    EndsWith (make <$> call) reader post' := by
  rw [← bind_pure_comp]
  exact ends.bind fun _ _ holds => EndsWith.pure holds

/-- The reader is read and stays. -/
theorem EndsWith.get {next : BufferJsonReader → Parse β}
    (rest : EndsWith (next reader) reader post') :
    EndsWith (MonadState.get >>= next) reader post' :=
  rest

theorem endsWith_fail (text : String) :
    EndsWith (fail text : Parse α) reader post :=
  ⟨_, rfl⟩

end Rules

theorem endsWith_read (reader : BufferJsonReader) :
    EndsWith BufferJsonReader.read reader fun _ reader' =>
      Behind 1 reader reader' ∧ reader'.unread < reader.unread := by
  refine EndsWith.get ?_
  cases here : reader.buf[reader.cur]? with
  | none => exact ⟨_, rfl⟩
  | some c =>
      have inside := (List.getElem?_eq_some_iff.mp here).1
      refine ⟨⟨rfl, le_rfl⟩, ?_⟩
      show reader.buf.length - (reader.cur + 1) < _
      unfold BufferJsonReader.unread
      omega

theorem endsWith_back {reader : BufferJsonReader} (behind : 0 < reader.cur) :
    EndsWith back reader fun _ reader' =>
      reader'.buf = reader.buf ∧ reader'.cur + 1 = reader.cur := by
  refine EndsWith.get ?_
  rw [if_neg (Nat.pos_iff_ne_zero.mp behind)]
  exact ⟨rfl, Nat.succ_pred_eq_of_pos behind⟩

theorem endsWith_hasEnd (reader : BufferJsonReader) :
    EndsWith hasEnd reader fun _ => Behind 0 reader :=
  Behind.refl reader

theorem filterSpace_ends (turns : ℕ) (c : UInt8) (reader : BufferJsonReader)
    (enough : reader.unread < turns) :
    EndsWith (filterSpace turns c) reader fun _ => Behind 0 reader := by
  induction turns generalizing c reader with
  | zero => omega
  | succ turns induction =>
      unfold filterSpace
      split
      · refine (endsWith_read reader).bind ?_
        intro next reader' ⟨behind, less⟩
        refine (induction next reader' (by omega)).mono ?_
        intro _ reader'' further
        exact (behind.trans further).weaken (Nat.zero_le _)
      · exact EndsWith.pure (Behind.refl reader)

theorem readFiltered_ends (reader : BufferJsonReader) :
    EndsWith readFiltered reader fun _ reader' =>
      Behind 1 reader reader' ∧ reader'.unread < reader.unread := by
  refine (endsWith_read reader).bind ?_
  intro c reader' ⟨behind, less⟩
  refine EndsWith.get ?_
  refine (filterSpace_ends _ c reader' (Nat.lt_succ_self _)).mono ?_
  intro _ reader'' further
  have unread := further.unread
  exact ⟨behind.trans further, by omega⟩

theorem getHexLoop_ends (iLoop iCode : ℕ) (reader : BufferJsonReader) :
    EndsWith (getHexLoop iLoop iCode) reader fun _ => Behind 0 reader := by
  induction iLoop generalizing iCode reader with
  | zero => exact EndsWith.pure (Behind.refl reader)
  | succ iLoop induction =>
      refine (endsWith_read reader).bind ?_
      intro c reader' ⟨behind, _⟩
      split
      · refine (induction _ reader').mono ?_
        intro _ reader'' further
        exact (behind.trans further).weaken (Nat.zero_le _)
      · exact endsWith_fail _

theorem getEscape_ends (st : StringState) (reader : BufferJsonReader) :
    EndsWith (getEscape st) reader fun _ => Behind 0 reader := by
  refine EndsWith.get ?_
  refine (endsWith_read reader).bind ?_
  intro c reader' ⟨behind, _⟩
  have same := behind.weaken (Nat.zero_le 1)
  split
  · exact EndsWith.pure same
  · split
    · refine (getHexLoop_ends 4 0 reader').bind ?_
      intro iCode reader'' further
      exact EndsWith.pure (same.trans further)
    · exact EndsWith.pure same

theorem getStringLoop_ends (head : UInt8) (turns : ℕ) (st : StringState)
    (reader : BufferJsonReader) (enough : reader.unread < turns) :
    EndsWith (getStringLoop head turns st) reader fun _ => Behind 0 reader := by
  induction turns generalizing st reader with
  | zero => omega
  | succ turns induction =>
      refine (endsWith_read reader).bind ?_
      intro c reader' ⟨behind, less⟩
      have same := behind.weaken (Nat.zero_le 1)
      split
      · refine (getEscape_ends st reader').bind ?_
        intro st' reader'' further
        have unread := further.unread
        refine (induction st' reader'' (by omega)).mono ?_
        intro _ reader''' rest
        exact (same.trans further).trans rest
      · split
        · exact EndsWith.get (EndsWith.pure same)
        · refine (induction _ reader' (by omega)).mono ?_
          intro _ reader'' further
          exact same.trans further

theorem getString_ends (head : UInt8) (reader : BufferJsonReader) :
    EndsWith (getString head) reader fun _ => Behind 0 reader :=
  EndsWith.get (getStringLoop_ends head _ _ reader (Nat.lt_succ_self _))

theorem readLetters_ends (letters : List UInt8) (reader : BufferJsonReader) :
    EndsWith (readLetters letters) reader fun _ => Behind 0 reader := by
  induction letters generalizing reader with
  | nil => exact EndsWith.pure (Behind.refl reader)
  | cons letter letters induction =>
      refine (endsWith_read reader).bind ?_
      intro c reader' ⟨behind, _⟩
      have same := behind.weaken (Nat.zero_le 1)
      split
      · refine (induction reader').mono ?_
        intro _ reader'' further
        exact same.trans further
      · exact EndsWith.pure same

theorem getBoolean_ends (c : UInt8) (reader : BufferJsonReader) :
    EndsWith (getBoolean c) reader fun _ => Behind 0 reader := by
  unfold getBoolean
  split
  · refine (readLetters_ends _ reader).bind ?_
    intro whole reader' further
    split
    · exact EndsWith.pure further
    · exact endsWith_fail _
  · split
    · refine (readLetters_ends _ reader).bind ?_
      intro whole reader' further
      split
      · exact EndsWith.pure further
      · exact endsWith_fail _
    · exact endsWith_fail _

/-- The assertion of `getNull` is what its caller has tested. -/
theorem getNull_ends {c : UInt8} (letter : tolower c = 110)
    (reader : BufferJsonReader) :
    EndsWith (getNull c) reader fun _ => Behind 0 reader := by
  unfold getNull
  rw [if_neg (not_not_intro letter)]
  refine (readLetters_ends _ reader).bind ?_
  intro whole reader' further
  split
  · exact EndsWith.pure further
  · exact endsWith_fail _

section Numbers

variable {double : Type} [FloatingPoint double]

theorem NumState.digit_bNeedBack (st : NumState double) (c : UInt8) :
    (st.digit c).bNeedBack = st.bNeedBack := by
  unfold NumState.digit
  split
  · rfl
  · split
    · rfl
    · rfl

/-- A byte that is read too far is one that the loop has read. -/
theorem getNumLoop_ends (turns : ℕ) (st : NumState double)
    (reader : BufferJsonReader) (enough : reader.unread < turns)
    (fresh : st.bNeedBack = false) :
    EndsWith (getNumLoop turns st) reader fun st' =>
      Behind st'.bNeedBack.toNat reader := by
  induction turns generalizing st reader with
  | zero => omega
  | succ turns induction =>
      refine (endsWith_hasEnd reader).bind ?_
      intro ended reader₁ same
      have unread := same.unread
      split
      · refine EndsWith.pure ?_
        rw [fresh]
        exact same
      · refine (endsWith_read reader₁).bind ?_
        intro c reader₂ ⟨behind, less⟩
        have read : Behind 1 reader reader₂ := same.trans behind
        -- a further turn, with a state that has not read too far
        have turn : ∀ (st' : NumState double) (reader' : BufferJsonReader),
            Behind 1 reader reader' → reader'.unread < turns →
            st'.bNeedBack = false →
            EndsWith (getNumLoop turns st') reader' fun st'' =>
              Behind st''.bNeedBack.toNat reader := by
          intro st' reader' passed enough' fresh'
          refine (induction st' reader' enough' fresh').mono ?_
          intro st'' reader'' further
          exact ((passed.weaken (Nat.zero_le 1)).trans further).weaken
            (Nat.zero_add _).ge
        -- the loop ends here, a byte too far at most
        have ends : ∀ (st' : NumState double) (reader' : BufferJsonReader),
            Behind 1 reader reader' →
            EndsWith (pure st' : Parse (NumState double)) reader' fun st'' =>
              Behind st''.bNeedBack.toNat reader := by
          intro st' reader' passed
          exact EndsWith.pure (passed.weaken (Bool.toNat_le _))
        split
        · exact turn _ reader₂ read (by omega)
            ((st.digit_bNeedBack c).trans fresh)
        · split
          · exact turn _ reader₂ read (by omega) fresh
          · split
            · refine (endsWith_hasEnd reader₂).bind ?_
              intro ended' reader₃ same'
              have read₃ : Behind 1 reader reader₃ := read.trans same'
              have unread₃ := same'.unread
              split
              · exact ends _ reader₃ read₃
              · refine (endsWith_read reader₃).bind ?_
                intro c' reader₄ ⟨behind', less'⟩
                have read₄ : Behind 1 reader reader₄ :=
                  (read₃.trans behind').weaken (Nat.le_succ 1)
                by_cases back : (st.exponent c').bNeedBack = true
                · simp only [back, if_true]
                  exact ends _ reader₄ read₄
                · simp only [back]
                  exact turn _ reader₄ read₄ (by omega)
                    (eq_false_of_ne_true back)
            · exact ends _ reader₂ read

theorem getNum_ends (head : UInt8) (reader : BufferJsonReader) :
    EndsWith (getNum head : Parse (JsonValueNum double)) reader
      fun _ => Behind 0 reader := by
  refine EndsWith.get ?_
  refine (getNumLoop_ends _ (NumState.start head) reader
    (Nat.lt_succ_self _) rfl).bind ?_
  intro st reader' further
  split
  · exact endsWith_fail _
  · cases back : st.bNeedBack with
    | false =>
        refine EndsWith.pure ?_
        exact further.weaken (Nat.zero_le _)
    | true =>
        rw [back] at further
        have read := further.cur
        rw [Bool.toNat_true] at read
        refine (endsWith_back (by omega)).bind ?_
        intro _ reader'' ⟨buf, cur⟩
        refine EndsWith.pure ⟨buf.trans further.buf, ?_⟩
        omega

end Numbers

section Values

variable {double : Type}

/-- What `getValue` does at readers with no more than so many unread bytes. -/
def ReadsWithin (unread : ℕ) (getValue : Parse (JsonValuePtr double)) :
    Prop :=
  ∀ reader, reader.unread ≤ unread →
    EndsWith getValue reader fun _ => Behind 1 reader

theorem getObjLoop_ends {getValue : Parse (JsonValuePtr double)} {bound : ℕ}
    (values : ReadsWithin bound getValue) (turns : ℕ) (bFirst : Bool)
    (entries : Entries double) (reader : BufferJsonReader)
    (enough : reader.unread < turns) (within : reader.unread ≤ bound) :
    EndsWith (getObjLoop getValue turns bFirst entries) reader
      fun _ => Behind 0 reader := by
  induction turns generalizing bFirst entries reader with
  | zero => omega
  | succ turns induction =>
      refine (readFiltered_ends reader).bind ?_
      intro c reader₁ ⟨behind₁, less₁⟩
      have same₁ := behind₁.weaken (Nat.zero_le 1)
      split
      · exact EndsWith.pure same₁
      · split
        · exact endsWith_fail _
        · refine (getString_ends 34 reader₁).bind ?_
          intro key reader₂ behind₂
          have same₂ := same₁.trans behind₂
          have unread₂ := behind₂.unread
          refine (readFiltered_ends reader₂).bind ?_
          intro c' reader₃ ⟨behind₃, less₃⟩
          have same₃ := same₂.trans (behind₃.weaken (Nat.zero_le 1))
          split
          · exact endsWith_fail _
          · refine (values reader₃ (by omega)).bind ?_
            intro value reader₄ behind₄
            have same₄ := same₃.trans (behind₄.weaken (Nat.zero_le 1))
            have unread₄ := behind₄.unread
            refine (readFiltered_ends reader₄).bind ?_
            intro c'' reader₅ ⟨behind₅, less₅⟩
            have same₅ := same₄.trans (behind₅.weaken (Nat.zero_le 1))
            split
            · refine (induction false _ reader₅ (by omega) (by omega)).mono ?_
              intro _ reader' further
              exact same₅.trans further
            · split
              · exact EndsWith.pure same₅
              · exact endsWith_fail _

theorem getArrayLoop_ends {getValue : Parse (JsonValuePtr double)} {bound : ℕ}
    (values : ReadsWithin bound getValue) (turns : ℕ)
    (read : List (JsonValuePtr double)) (reader : BufferJsonReader)
    (enough : reader.unread < turns) (within : reader.unread ≤ bound) :
    EndsWith (getArrayLoop getValue turns read) reader
      fun _ => Behind 0 reader := by
  induction turns generalizing read reader with
  | zero => omega
  | succ turns induction =>
      refine (values reader within).bind ?_
      intro value reader₁ behind₁
      have same₁ := behind₁.weaken (Nat.zero_le 1)
      have unread₁ := behind₁.unread
      refine (readFiltered_ends reader₁).bind ?_
      intro c reader₂ ⟨behind₂, less₂⟩
      have same₂ := same₁.trans (behind₂.weaken (Nat.zero_le 1))
      split
      · refine (induction _ reader₂ (by omega) (by omega)).mono ?_
        intro _ reader' further
        exact same₂.trans further
      · split
        · exact EndsWith.pure same₂
        · exact endsWith_fail _

theorem getArray_ends {getValue : Parse (JsonValuePtr double)} {bound : ℕ}
    (values : ReadsWithin bound getValue) (reader : BufferJsonReader)
    (within : reader.unread ≤ bound) :
    EndsWith (getArray getValue) reader fun _ => Behind 0 reader := by
  refine (readFiltered_ends reader).bind ?_
  intro c reader₁ ⟨behind₁, less₁⟩
  split
  · exact EndsWith.pure (behind₁.weaken (Nat.zero_le 1))
  · have further := behind₁.cur
    refine (endsWith_back (by omega)).bind ?_
    intro _ reader₂ ⟨buf, cur⟩
    have same₂ : Behind 0 reader reader₂ :=
      ⟨buf.trans behind₁.buf, by omega⟩
    have unread₂ := same₂.unread
    refine EndsWith.get ?_
    refine (getArrayLoop_ends values _ [] reader₂ (Nat.lt_succ_self _)
      (by omega)).mono ?_
    intro _ reader' further
    exact same₂.trans further

variable [FloatingPoint double]

theorem getValueFrom_ends {getValue : Parse (JsonValuePtr double)} {bound : ℕ}
    (values : ReadsWithin bound getValue) (c : UInt8)
    (reader : BufferJsonReader) (within : reader.unread ≤ bound) :
    EndsWith (getValueFrom getValue c) reader fun _ => Behind 0 reader := by
  unfold getValueFrom
  split
  · refine EndsWith.map (EndsWith.get ?_)
    exact getObjLoop_ends values _ true [] reader (Nat.lt_succ_self _) within
  · split
    · exact EndsWith.map (getArray_ends values reader within)
    · split
      · exact EndsWith.map (getString_ends c reader)
      · split
        · exact EndsWith.map (getBoolean_ends c reader)
        · split
          · exact EndsWith.map (getNum_ends c reader)
          · split
            · refine (getNull_ends ‹_› reader).bind ?_
              intro _ reader' further
              exact EndsWith.pure further
            · exact ⟨_, rfl⟩

/-- Each level of nesting reads a byte. -/
theorem getValueWithin_ends (depth : ℕ) {bound : ℕ} (enough : bound < depth) :
    ReadsWithin bound (getValueWithin depth : Parse (JsonValuePtr double)) := by
  induction depth generalizing bound with
  | zero => omega
  | succ depth induction =>
      intro reader within
      refine (readFiltered_ends reader).bind ?_
      intro c reader' ⟨behind, less⟩
      have unread := behind.unread
      have deeper : ReadsWithin (bound - 1)
          (getValueWithin depth : Parse (JsonValuePtr double)) :=
        induction (by omega)
      refine (getValueFrom_ends deeper c reader' (by omega)).mono ?_
      intro _ reader'' further
      exact behind.trans further

/-- `TC_Json::getValue` returns a value or throws an exception. -/
theorem getValue_ends (str : List UInt8) {fault : Fault}
    {reader : BufferJsonReader}
    (ended : (getValue str : EStateM.Result _ _ (JsonValuePtr double)) =
      .error fault reader) :
    ∃ message, fault = .throws message := by
  have reads : ReadsWithin str.length
      (getValueWithin (str.length + 1) : Parse (JsonValuePtr double)) :=
    getValueWithin_ends (str.length + 1) (Nat.lt_succ_self str.length)
  have ends := reads { buf := str, cur := 0 } le_rfl
  unfold EndsWith at ends
  unfold getValue at ended
  rw [ended] at ends
  exact ends

end Values

end TarsCpp.Json
