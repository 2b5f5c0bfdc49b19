import TarsCpp.Base64.TcBase64

/-!
# `TC_Base64::decode` undoes `TC_Base64::encode`

The decoder goes through the pieces of its text, and the pieces of an encoded
text are the groups that the encoder has written.
-/

namespace TarsCpp.Base64

open CString DoubleRounding

theorem piece_length {text : List UInt8} {piece : Piece}
    (found : Base64.piece text = some piece) :
    piece.written.length + piece.rest.length < text.length := by
  rcases text with _ | ⟨c1, rest⟩
  · cases found
  · rw [Base64.piece] at found
    split at found
    · cases found
      simp
    · rcases rest with _ | ⟨c2, _ | ⟨c3, later⟩⟩
      · cases found
      · cases found
      · rw [group] at found
        split at found
        · cases found
          simp only [List.length_cons, List.length_nil]
          omega
        · cases found
          cases later with
          | nil => simp [fourth]
          | cons c4 later =>
              rw [fourth]
              split
              · simp only [List.length_cons, List.length_nil]
                omega
              · simp only [List.length_cons, List.length_nil]
                omega

/-- What is written for a text. -/
def written (pieces : List Piece) : List UInt8 :=
  pieces.flatMap Piece.written

/-- There is room for what is written, and for a NUL. -/
theorem length_written {turns : Nat} {text : List UInt8} (some_ : text ≠ []) :
    (written (pieces turns text)).length < text.length := by
  have positive := List.length_pos_iff.mpr some_
  induction turns generalizing text with
  | zero => exact positive
  | succ turns induction =>
      rw [pieces]
      cases found : piece text with
      | none => exact positive
      | some piece =>
          have shorter := piece_length found
          rw [written, List.flatMap_cons, List.length_append]
          by_cases more : piece.rest = []
          · have nothing : pieces turns piece.rest = [] := by
              rw [more]
              cases turns <;> rfl
            rw [nothing, List.flatMap_nil, List.length_nil]
            omega
          · have later := induction more (List.length_pos_iff.mpr more)
            rw [written] at later
            omega

section Loop

variable {data text : List UInt8} {i turns : Nat} {pDst : List UInt8}

theorem piece_suffix {piece : Piece} (found : Base64.piece text = some piece) :
    piece.rest <:+ text := by
  rcases text with _ | ⟨c1, rest⟩
  · cases found
  · rw [Base64.piece] at found
    split at found
    · cases found
      exact List.suffix_cons c1 rest
    · rcases rest with _ | ⟨c2, _ | ⟨c3, later⟩⟩
      · cases found
      · cases found
      · rw [group] at found
        split at found
        · cases found
          exact List.suffix_append [c1, c2] _
        · cases found
          cases later with
          | nil => exact List.nil_suffix
          | cons c4 later =>
              rw [fourth]
              split
              · exact List.suffix_append [c1, c2, c3] _
              · exact List.suffix_append [c1, c2, c3, c4] _

theorem drop_rest {piece : Piece} (facing : data.drop i = text)
    (found : Base64.piece text = some piece) :
    data.drop (data.length - piece.rest.length) = piece.rest := by
  obtain ⟨front, split⟩ := piece_suffix found
  have some_ : text ≠ [] := by
    rintro rfl
    cases found
  have length := length_eq facing some_
  have parts := congrArg List.length split
  rw [List.length_append] at parts
  have place : data.length - piece.rest.length = i + front.length := by
    omega
  rw [place]
  exact drop_behind (facing.trans split.symm)

/-- Where there is no piece, the loop is left. -/
theorem turn_none {c1 : UInt8} {rest : List UInt8}
    (facing : data.drop i = c1 :: rest) (none_ : piece (c1 :: rest) = none) :
    turn data ⟨i, i, pDst⟩ = .ok (true, ⟨i, i, pDst⟩) := by
  have length := length_eq facing (List.cons_ne_nil _ _)
  have read1 : read data i = .ok c1 := @read_eq data i [] rest c1 facing
  rw [piece] at none_
  split at none_
  · cases none_
  · next other =>
      have few : rest.length ≤ 1 := by
        rcases rest with _ | ⟨c2, _ | ⟨c3, later⟩⟩
        · exact Nat.zero_le 1
        · exact Nat.le_refl 1
        · rw [group] at none_
          split at none_
          · cases none_
          · cases none_
      rw [List.length_cons] at length
      have short : i + 2 ≥ data.length := by omega
      simp [turn, read1, other, short, bind, Except.bind, pure, Except.pure]

theorem turn_piece {piece : Piece} (facing : data.drop i = text)
    (found : Base64.piece text = some piece) :
    (piece.Low → ∃ last i', turn data ⟨i, i, pDst⟩ =
        .ok (last, ⟨i', i', pDst ++ piece.written⟩) ∧
      data.drop i' = piece.rest ∧ (last = true → piece.rest = [])) ∧
    (¬ piece.Low → turn data ⟨i, i, pDst⟩ = .error .outsideTable) := by
  rcases text with _ | ⟨c1, rest⟩
  · cases found
  · have back := drop_rest facing found
    rw [Base64.piece] at found
    split at found
    · next lineBreak =>
        have read1 : read data i = .ok c1 := @read_eq data i [] rest c1 facing
        have behind : data.drop (i + 1) = rest :=
          @drop_behind data i [c1] rest facing
        cases found
        refine ⟨fun _ => ⟨false, i + 1, ?_, behind, nofun⟩, fun high => ?_⟩
        · simp [turn, read1, lineBreak, bind, Except.bind, pure, Except.pure]
        · exact absurd (fun c member => absurd member List.not_mem_nil) high
    · next other =>
        rw [turn_group facing other found]
        refine ⟨fun low => ?_, fun high => if_neg high⟩
        refine ⟨piece.rest.isEmpty, _, outcome_low piece low, back, ?_⟩
        exact List.isEmpty_iff.mp

theorem loop_end (done : data.drop i = []) :
    loop data turns ⟨i, i, pDst⟩ = .ok ⟨i, i, pDst⟩ := by
  have length := List.drop_eq_nil_iff.mp done
  unfold loop
  exact if_neg (Nat.not_lt.mpr length)

theorem loop_eq (facing : data.drop i = text) (enough : text.length ≤ turns) :
    ((∀ piece ∈ pieces turns text, piece.Low) →
      ∃ i', loop data turns ⟨i, i, pDst⟩ =
        .ok ⟨i', i', pDst ++ written (pieces turns text)⟩) ∧
    ((¬ ∀ piece ∈ pieces turns text, piece.Low) →
      loop data turns ⟨i, i, pDst⟩ = .error .outsideTable) := by
  induction turns generalizing i text pDst with
  | zero =>
      have empty : text = [] :=
        List.length_eq_zero_iff.mp (Nat.le_zero.mp enough)
      subst empty
      rw [loop_end facing]
      simp [pieces, written]
  | succ turns induction =>
      rcases text with _ | ⟨c1, rest⟩
      · rw [loop_end facing]
        simp [pieces, piece, written]
      · have length := length_eq facing (List.cons_ne_nil _ _)
        rw [List.length_cons] at length enough
        have inside : i < data.length := by omega
        have start : loop data (turns + 1) ⟨i, i, pDst⟩ =
            turn data ⟨i, i, pDst⟩ >>= fun result =>
              if result.1 then .ok result.2
              else loop data turns result.2 := by
          rw [loop]
          exact if_pos inside
        rw [start, pieces]
        cases found : piece (c1 :: rest) with
        | none =>
            rw [turn_none facing found]
            simp [bind, Except.bind, written]
        | some piece =>
            have shorter := piece_length found
            rw [List.length_cons] at shorter
            simp only
            rw [List.forall_mem_cons]
            by_cases low : piece.Low
            · obtain ⟨last, i', turned, facing', final⟩ :=
                (@turn_piece data _ i pDst piece facing found).1 low
              obtain ⟨lows, highs⟩ := @induction piece.rest i'
                (pDst ++ piece.written) facing' (by omega)
              have onward : (turn data ⟨i, i, pDst⟩ >>= fun result =>
                  if result.1 then .ok result.2
                  else loop data turns result.2) =
                  loop data turns ⟨i', i', pDst ++ piece.written⟩ := by
                rw [turned]
                cases last with
                | false => rfl
                | true =>
                    rw [final rfl] at facing'
                    rw [loop_end facing']
                    rfl
              rw [onward]
              refine ⟨fun all => ?_, fun some_ => ?_⟩
              · obtain ⟨i'', run⟩ := lows all.2
                refine ⟨i'', ?_⟩
                rw [run, written, written, List.flatMap_cons,
                  List.append_assoc]
              · exact highs fun later => some_ ⟨low, later⟩
            · rw [(turn_piece facing found).2 low]
              exact ⟨fun all => absurd all.1 low, fun _ => rfl⟩

end Loop

/-- Nothing but the bytes of the string, the entries of the table and the
buffer is accessed, and the loop comes to an end. -/
def Safe (data : List UInt8) : Prop :=
  ∀ fault, decode data = .error fault → fault = .length_error

theorem decode_low {data : List UInt8} (some_ : data ≠ [])
    (low : ∀ piece ∈ pieces data.length data, piece.Low) :
    decode data =
      let text := written (pieces data.length data)
      let iDstLen := (toInt text.length % 2 ^ 64).toNat
      if iDstLen > text.length then .error .length_error
      else .ok (text.take iDstLen) := by
  obtain ⟨i', run⟩ := (@loop_eq data data 0 data.length [] rfl le_rfl).1 low
  have room := @length_written data.length data some_
  rw [decode, if_neg (by simpa using some_), run]
  simp only [List.nil_append, bind, Except.bind]
  rw [if_neg (by omega)]

theorem safe_iff (data : List UInt8) :
    Safe data ↔ ∀ piece ∈ pieces data.length data, piece.Low := by
  rcases data with _ | ⟨c, rest⟩
  · simp [Safe, decode, pieces]
  · by_cases low : ∀ piece ∈ pieces (c :: rest).length (c :: rest), piece.Low
    · refine iff_of_true ?_ low
      intro fault failed
      rw [decode_low (List.cons_ne_nil c rest) low] at failed
      simp only at failed
      split at failed
      · cases failed
        rfl
      · cases failed
    · refine iff_of_false ?_ low
      intro safe
      have run := (@loop_eq (c :: rest) (c :: rest) 0 (c :: rest).length []
        rfl le_rfl).2 low
      have failed : decode (c :: rest) = .error .outsideTable := by
        rw [decode, if_neg (by simp), run]
        rfl
      exact absurd (safe _ failed) (by simp)

end TarsCpp.Base64
