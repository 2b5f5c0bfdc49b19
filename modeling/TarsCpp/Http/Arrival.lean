import TarsCpp.Http.Announced
import TarsCpp.Http.RequestSafety

/-!
# Requests that arrive bit by bit

What `checkRequest` answers on the beginnings of a well-formed request.  A
request without chunks is complete with its last byte.  One with chunks is
already complete for it when the line of the last chunk is there, and the blank
line behind that is not.
-/

namespace TarsCpp.Http

open CString NetworkBuffer

variable {turns : Nat}

theorem not_interrupted {text : List (List UInt8)}
    (nonzero : ∀ line ∈ text, (0 : UInt8) ∉ line) : ¬ Interrupted text := by
  rintro ⟨before, line, behind, rfl, _, zero⟩
  exact nonzero line (by simp) zero

namespace Request

variable (r : Request)

/-- Behind the head only the body decides. -/
theorem checkRequest_head (known : r.Known) {more : List UInt8}
    (short : (r.head ++ more).length < 2 ^ 31) (turns : Nat) :
    turns ≤ r.fields.length + 1 ∧
        checkRequest turns (r.head ++ more) = .ok none ∨
      checkRequest turns (r.head ++ more) =
        checkBody turns (r.head ++ more) r.pos
          (some (scan (r.fields.map Field.line ++ [[]]) 0)) := by
  obtain ⟨p, line, same, run⟩ := Http.checkRequest_head (r.hasHead known short)
  rw [headerLines_head] at same
  have unbroken : ¬ Interrupted (linesFrom (r.head ++ more) r.pos p) := by
    rw [same]
    refine not_interrupted fun line member => ?_
    rcases List.mem_append.mp member with field | blank
    · obtain ⟨found, _, rfl⟩ := List.mem_map.mp field
      exact found.line_plain.nonzero
    · rw [List.mem_singleton.mp blank]
      exact List.not_mem_nil
  have scanned := @headerLoop_turns (r.head ++ more) r.pos p 0 turns
    (r.first_blank_line more).2 line unbroken
  rw [same] at scanned
  rw [run]
  refine scanned.imp ?_ ?_
  · rintro ⟨few, unfinished⟩
    rw [unfinished]
    exact ⟨by simpa using few, rfl⟩
  · intro finished
    rw [finished, ok_bind]

/-- As long as the head has not arrived the request is not complete. -/
theorem checkRequest_short (known : r.Known) {s : List UInt8}
    (arrived : s <+: r.bytes) (short : s.length < r.head.length) :
    checkRequest turns s = .ok (some false) := by
  have cut : s = r.bytes.take s.length := List.prefix_iff_eq_take.mp arrived
  refine checkRequest_unended ?_ ?_
  · intro long
    obtain ⟨place, first, near, listed⟩ :=
      (r.knownMethod_iff r.body.bytes).mpr known
    have within : place + space.length ≤ s.length := by
      change place + 1 ≤ _
      omega
    refine ⟨place, ?_, near, ?_⟩
    · rw [cut]
      exact first_take_iff.mpr ⟨first, within⟩
    · rw [cut, List.take_take, Nat.min_eq_left (by omega)]
      exact listed
  · intro pos head
    have blank := head.blank
    rw [cut] at blank
    obtain ⟨first, fits⟩ := first_take_iff.mp blank
    obtain ⟨whole, first'⟩ := r.first_blank_line r.body.bytes
    rw [first.unique first'] at fits
    change r.pos + 4 ≤ _ at fits
    omega

theorem checkBody_plain (plain : ¬ r.body.Chunked) (more : List UInt8)
    (short : r.bytes.length < 2 ^ 31) :
    checkBody turns (r.head ++ more) r.pos
        (some (scan (r.fields.map Field.line ++ [[]]) 0)) =
      .ok (some (decide (r.bytes.length ≤ (r.head ++ more).length))) := by
  have length : r.bytes.length = r.head.length + r.body.bytes.length :=
    List.length_append
  have whole := (r.first_blank_line more).1
  rw [scan_plain r.framed plain (by omega), checkBody]
  have sum : (r.body.bytes.length + r.pos + 4) % 2 ^ 64 = r.bytes.length := by
    rw [Nat.mod_eq_of_lt (by omega)]
    omega
  rw [sum]

/-- A request without chunks is complete with its last byte. -/
theorem checkRequest_plain (known : r.Known) (plain : ¬ r.body.Chunked)
    (short : r.bytes.length < 2 ^ 31) {s : List UInt8}
    (arrived : s <+: r.bytes) (enough : r.fields.length + 1 < turns) :
    checkRequest turns s = .ok (some (decide (s = r.bytes))) := by
  have fits := arrived.length_le
  by_cases part : s.length < r.head.length
  · have strict : s ≠ r.bytes := by
      rintro rfl
      rw [bytes, List.length_append] at part
      omega
    rw [r.checkRequest_short known arrived part, decide_eq_false strict]
  · obtain ⟨more, rfl⟩ : r.head <+: s :=
      List.prefix_of_prefix_length_le (List.prefix_append _ _) arrived
        (Nat.not_lt.mp part)
    have reached : (r.head ++ more).length < 2 ^ 31 := by omega
    have answer := (r.checkRequest_head known reached turns).resolve_left
      fun few => absurd few.1 (by omega)
    rw [answer, r.checkBody_plain plain more short]
    congr 3
    refine propext ⟨arrived.eq_of_length_le, fun same => ?_⟩
    rw [same]

end Request

theorem Chunk.size_nonempty (chunk : Chunk) : chunk.size ≠ [] := by
  intro empty
  have counts := chunk.counts
  rw [empty] at counts
  exact chunk.nonempty (List.eq_nil_of_length_eq_zero counts.symm)

theorem Chunk.passes (chunk : Chunk) {rest : List UInt8}
    (short : (chunk.bytes ++ rest).length < 2 ^ 31) :
    Passes (chunk.bytes ++ rest) chunk.size.length chunk.data.length := by
  have split : chunk.bytes ++ rest =
      chunk.size ++ (crlf ++ (chunk.data ++ (crlf ++ rest))) := by
    simp [Chunk.bytes]
  have length : (chunk.bytes ++ rest).length =
      chunk.size.length + 2 + (chunk.data.length + 2) + rest.length := by
    rw [split]
    simp [crlf]
    omega
  have unended : (13 : UInt8) ∉ chunk.size := fun member =>
    ne_of_class (chunk.hex _ member) (by decide) rfl
  have ends := first_of_line (chunk.data ++ (crlf ++ rest)) unended
  rw [← split] at ends
  have counts := chunk.counts
  refine ⟨ends, ?_, ?_, List.length_pos_of_ne_nil chunk.nonempty, ?_⟩
  · rw [toInt_eq (by omega) (by omega)]
    omega
  · rw [split, List.take_left,
      chunkSize_hex chunk.size_nonempty chunk.hex (by omega), counts]
  · rw [toInt_eq (by omega) (by omega), toInt_eq (by omega) (by omega)]
    omega

/-- The line of the last chunk ends the walk. -/
theorem chunkLoop_last {sBuffer : List UInt8} {pCur zeros : Nat}
    (rest : sBuffer.drop pCur = lastChunk zeros ++ crlf)
    (short : (sBuffer.drop pCur).length < 2 ^ 31) :
    chunkLoop sBuffer (turns + 1) pCur (toInt (sBuffer.drop pCur).length) =
      .ok (some true) := by
  have known : toInt (sBuffer.drop pCur).length =
      (sBuffer.drop pCur).length := toInt_eq (by omega) (by omega)
  have hex : ∀ c ∈ lastChunk zeros, isHex c := by
    intro c member
    rw [List.eq_of_mem_replicate member]
    rfl
  have unended : (13 : UInt8) ∉ lastChunk zeros := fun member =>
    ne_of_class (hex _ member) (by decide) rfl
  have ends := first_of_line [] unended
  rw [List.append_nil, ← rest] at ends
  have zero : digits 16 0 (lastChunk zeros) = 0 := digits_zeros _
  have size : chunkSize (lastChunk zeros) ≤ 0 := by
    have nonempty : lastChunk zeros ≠ [] := List.cons_ne_nil _ _
    rw [chunkSize_hex nonempty hex (by omega), zero]
    exact Int.le_refl 0
  rw [chunkLoop, strnstr_eq (by decide) (toInt_length_le _), known,
    Int.toNat_natCast, List.take_length, find_eq_some_iff.mpr ends]
  simp only [access_some, ok_bind]
  rw [rest, List.take_left, if_pos size]

theorem chunkLoop_chunks {sBuffer : List UInt8} {pCur zeros : Nat}
    {chunks : List Chunk}
    (rest : sBuffer.drop pCur =
      chunks.flatMap Chunk.bytes ++ (lastChunk zeros ++ crlf))
    (short : (sBuffer.drop pCur).length < 2 ^ 31) :
    chunkLoop sBuffer turns pCur (toInt (sBuffer.drop pCur).length) =
        .ok none ∨
      chunkLoop sBuffer turns pCur (toInt (sBuffer.drop pCur).length) =
        .ok (some true) := by
  induction turns generalizing pCur chunks with
  | zero => exact .inl rfl
  | succ turns ih =>
      cases chunks with
      | nil =>
          rw [List.flatMap_nil, List.nil_append] at rest
          exact .inr (chunkLoop_last rest short)
      | cons chunk chunks =>
          rw [List.flatMap_cons, List.append_assoc] at rest
          have passes := chunk.passes (rest ▸ short)
          rw [← rest] at passes
          rcases chunkLoop_turn with ⟨complete, _, stuck⟩ |
            ⟨line, size, passes', next⟩
          · exact absurd passes (stuck _ _)
          obtain ⟨rfl, rfl⟩ := passes.unique passes'
          have length : chunk.bytes.length =
              chunk.size.length + chunk.data.length + 4 := by
            simp [Chunk.bytes, crlf]
            omega
          have held : chunk.size.length + chunk.data.length + 4 ≤
              (sBuffer.drop pCur).length := by
            rw [rest, List.length_append, length]
            omega
          have behind : sBuffer.drop
              (pCur + (chunk.size.length + chunk.data.length + 4)) =
                chunks.flatMap Chunk.bytes ++ (lastChunk zeros ++ crlf) := by
            rw [← List.drop_drop, rest, ← length, List.drop_left]
          rw [next, remaining_drop held]
          refine ih behind ?_
          rw [← List.drop_drop, List.length_drop]
          omega

namespace Request

variable (r : Request)

/-- A request with chunks is taken for complete before it is. -/
theorem exists_early (known : r.Known) (chunked : r.body.Chunked)
    (short : r.bytes.length < 2 ^ 31) :
    ∃ s, s <+: r.bytes ∧ s ≠ r.bytes ∧ ∀ turns,
      checkRequest turns s = .ok none ∨
        checkRequest turns s = .ok (some true) := by
  obtain ⟨chunks, zeros, body⟩ : ∃ chunks zeros,
      r.body = .chunked chunks zeros := by
    cases same : r.body with
    | none => exact absurd chunked (by rw [same]; exact id)
    | sized content => exact absurd chunked (by rw [same]; exact id)
    | chunked chunks zeros => exact ⟨chunks, zeros, rfl⟩
  obtain ⟨bChunk, scanned⟩ := scan_chunked (body ▸ r.framed)
  have whole := fun more => (r.first_blank_line more).1
  cases bChunk with
  | false =>
      -- in another case of letters the chunks are not noticed
      have strict : r.bytes ≠ r.head := by
        rw [bytes, body]
        simp [Body.bytes, crlfcrlf, crlf]
      have reached : (r.head ++ []).length < 2 ^ 31 := by
        rw [bytes, List.length_append] at short
        rw [List.append_nil]
        omega
      refine ⟨r.head ++ [], ?_, by simpa using strict.symm, fun turns => ?_⟩
      · rw [List.append_nil]
        exact List.prefix_append _ _
      · refine (r.checkRequest_head known reached turns).imp
          (fun few => few.2) fun answer => ?_
        rw [answer, scanned, checkBody]
        have fits : (0 + r.pos + 4) % 2 ^ 64 ≤ (r.head ++ []).length := by
          rw [Nat.zero_add, whole []]
          exact (Nat.mod_le _ _).trans (by simp)
        rw [decide_eq_true fits]
  | true =>
      obtain ⟨rest, chosen⟩ : ∃ rest, rest =
        chunks.flatMap Chunk.bytes ++ (lastChunk zeros ++ crlf) := ⟨_, rfl⟩
      have split : r.bytes = r.head ++ rest ++ crlf := by
        rw [bytes, body, chosen]
        simp [Body.bytes, crlfcrlf]
      have reached : (r.head ++ rest).length < 2 ^ 31 := by
        rw [split, List.length_append] at short
        omega
      refine ⟨r.head ++ rest, ?_, ?_, fun turns => ?_⟩
      · rw [split]
        exact List.prefix_append _ _
      · rw [split]
        simp [crlf]
      · rcases r.checkRequest_head known reached turns with few | answer
        · exact .inl few.2
        rw [answer, scanned, checkBody_chunks (r.hasHead known reached),
          whole []]
        refine @chunkLoop_chunks _ _ _ zeros chunks ?_ ?_
        · rw [List.drop_left, chosen]
        · rw [List.drop_left]
          rw [List.length_append] at reached
          omega

end Request

end TarsCpp.Http
