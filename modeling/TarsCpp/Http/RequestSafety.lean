import TarsCpp.Http.HeaderScan

/-!
# The memory safety of `checkRequest`

The walk over the chunks keeps the number of remaining bytes modulo `2 ^ 32`.
As long as `pCur` is in the buffer that is never too much; a chunk of `INT_MAX`
bytes whose size line ends the buffer moves `pCur` so far behind it that the
number becomes positive again.
-/

namespace TarsCpp.Http

open CString NetworkBuffer

variable {sBuffer rest : List UInt8} {pos turns : Nat}

/-- It stops, and has read nothing but the buffer. -/
def Finishes (sBuffer : List UInt8) : Prop :=
  ∃ turns, (∃ complete, checkRequest turns sBuffer = .ok (some complete)) ∨
    ∃ what, checkRequest turns sBuffer = .error (.thrown what)

/-- The header has a line that `strstr` finds no end of. -/
def Hangs (sBuffer : List UInt8) : Prop :=
  ∃ pos, HasHead sBuffer pos ∧ Interrupted (headerLines sBuffer pos)

/-- A chunk of `size` bytes begins, and the walk goes on behind it. -/
structure Passes (rest : List UInt8) (line size : Nat) : Prop where
  ends : First crlf rest line
  seen : line + 2 ≤ toInt rest.length
  announced : chunkSize (rest.take line) = size
  positive : 0 < size
  fits : toInt (line + size + 4) ≤ toInt rest.length

/-- The walk comes to a size line which ends the buffer and says `INT_MAX`. -/
inductive Overruns : List UInt8 → Prop
  | last {rest : List UInt8} {line : Nat} (ends : First crlf rest line)
      (whole : rest.length = line + 2) (short : rest.length < 2 ^ 31)
      (largest : chunkSize (rest.take line) = 2 ^ 31 - 1) : Overruns rest
  | later {rest : List UInt8} {line size : Nat} (passes : Passes rest line size)
      (held : line + size + 4 ≤ rest.length)
      (overruns : Overruns (rest.drop (line + size + 4))) : Overruns rest

/-- The chunks of a body are walked, and the walk overruns the buffer. -/
def OverrunsBody (sBuffer : List UInt8) : Prop :=
  ∃ pos, HasHead sBuffer pos ∧ (scan (headerLines sBuffer pos) 0).1 = true ∧
    Overruns (sBuffer.drop (pos + 4))

theorem chunkSize_lt (line : List UInt8) : chunkSize line < 2 ^ 31 :=
  toInt_lt _

/-- One turn of the walk. -/
theorem chunkLoop_turn {pCur : Nat} :
    (∃ complete, chunkLoop sBuffer (turns + 1) pCur
        (toInt (sBuffer.drop pCur).length) = .ok (some complete) ∧
      ∀ line size, ¬ Passes (sBuffer.drop pCur) line size) ∨
    ∃ line size, Passes (sBuffer.drop pCur) line size ∧
      chunkLoop sBuffer (turns + 1) pCur (toInt (sBuffer.drop pCur).length) =
        chunkLoop sBuffer turns (pCur + (line + size + 4))
          (toInt ((sBuffer.drop pCur).length - (line + size + 4 : Nat))) := by
  obtain ⟨rest, chosen⟩ : ∃ rest, rest = sBuffer.drop pCur := ⟨_, rfl⟩
  rw [chunkLoop, ← chosen, strnstr_eq (by decide) (toInt_length_le rest),
    access_some, ok_bind]
  cases found : find crlf (rest.take (toInt rest.length).toNat) with
  | none =>
      refine .inl ⟨false, rfl, ?_⟩
      intro line size passes
      refine find_eq_none_iff.mp found line
        (first_take_iff.mpr ⟨passes.ends, ?_⟩)
      have seen := passes.seen
      change line + 2 ≤ _
      omega
  | some line =>
      obtain ⟨ends, seen⟩ := first_take_iff.mp (find_eq_some_iff.mp found)
      have only : ∀ other size, Passes rest other size → other = line :=
        fun other size passes => passes.ends.unique ends
      change line + 2 ≤ _ at seen
      simp only []
      split
      · next last =>
          refine .inl ⟨true, rfl, ?_⟩
          intro other size passes
          obtain rfl := only other size passes
          have positive := passes.positive
          rw [passes.announced] at last
          omega
      · next positive =>
          obtain ⟨size, same⟩ := Int.eq_ofNat_of_zero_le
            (Int.le_of_lt (Int.not_le.mp positive))
          have moved : (line : Int) + 2 + size + 2 =
              ((line + size + 4 : Nat) : Int) := by omega
          rw [same, moved]
          split
          · next fits =>
              refine .inr ⟨line, size, ⟨ends, by omega, same, by omega, ?_⟩, ?_⟩
              · push_cast at fits
                exact fits
              · have place : pCur + line + 2 + size + 2 =
                    pCur + (line + size + 4) := by omega
                rw [toInt_sub, Int.toNat_natCast, place]
          · next short =>
              refine .inl ⟨false, rfl, ?_⟩
              intro other size' passes
              obtain rfl := only other size' passes
              have same' : size' = size := by
                have size' := passes.announced
                rw [same] at size'
                omega
              subst same'
              have fits := passes.fits
              push_cast at short
              exact short fits

/-- Behind the buffer the walk ends unless it has gone `2 ^ 31` bytes too far
and one more. -/
theorem chunkLoop_behind {pCur : Nat} {remaining : Int}
    (negative : remaining < 0) (near : -(2 ^ 31) ≤ remaining) :
    chunkLoop sBuffer (turns + 1) pCur (toInt remaining) =
      .ok (some false) := by
  have none : (toInt remaining).toNat = 0 := by
    rw [toInt_eq near (by omega)]
    omega
  rw [chunkLoop, strnstr_eq (by decide) (by rw [toInt_eq near]; omega; omega),
    none]
  rfl

theorem chunkLoop_overrun {pCur : Nat} (outside : sBuffer.length ≤ pCur) :
    chunkLoop sBuffer (turns + 1) pCur (2 ^ 31 - 1) =
      .error .invalidAccess := by
  rw [chunkLoop, List.drop_eq_nil_of_le outside]
  rfl

theorem Passes.unique {line line' size size' : Nat}
    (passes : Passes rest line size) (passes' : Passes rest line' size') :
    line = line' ∧ size = size' := by
  obtain rfl := passes.ends.unique passes'.ends
  have announced := passes.announced
  rw [passes'.announced] at announced
  exact ⟨rfl, by omega⟩

/-- The size line that overruns the buffer lets the walk go on. -/
theorem passes_last {line : Nat} (ends : First crlf rest line)
    (whole : rest.length = line + 2) (short : rest.length < 2 ^ 31)
    (largest : chunkSize (rest.take line) = 2 ^ 31 - 1) :
    Passes rest line (2 ^ 31 - 1) where
  ends := ends
  seen := by
    rw [toInt_eq (by omega) (by omega)]
    omega
  announced := largest
  positive := by decide
  fits := by
    have known : toInt rest.length = rest.length :=
      toInt_eq (by omega) (by omega)
    have size : ((2 ^ 31 - 1 : Nat) : Int) = 2147483647 := by norm_num
    rw [known, size]
    unfold toInt
    omega

/-- A pass that leaves the buffer ends the walk or overruns. -/
theorem Passes.leaves {line size : Nat} (passes : Passes rest line size)
    (left : rest.length < line + size + 4) :
    -(2 ^ 31) ≤ (rest.length : Int) - (line + size + 4 : Nat) ∨
      Overruns rest := by
  have seen := passes.seen
  have bound := toInt_length_le rest
  have limit := toInt_lt rest.length
  have largest := chunkSize_lt (rest.take line)
  rw [passes.announced] at largest
  by_cases far : rest.length = line + 2 ∧ size = 2 ^ 31 - 1
  · obtain ⟨whole, rfl⟩ := far
    exact .inr (.last passes.ends whole (by omega) (by
      rw [passes.announced]
      rfl))
  · left
    omega

theorem remaining_drop {pCur passed : Nat}
    (held : passed ≤ (sBuffer.drop pCur).length) :
    ((sBuffer.drop pCur).length : Int) - (passed : Nat) =
      ((sBuffer.drop (pCur + passed)).length : Nat) := by
  rw [List.length_drop] at held
  simp only [List.length_drop]
  omega

theorem chunkLoop_finishes {pCur : Nat}
    (safe : ¬ Overruns (sBuffer.drop pCur))
    (enough : (sBuffer.drop pCur).length + 1 < turns) :
    ∃ complete, chunkLoop sBuffer turns pCur
      (toInt (sBuffer.drop pCur).length) = .ok (some complete) := by
  induction turns generalizing pCur with
  | zero => omega
  | succ turns ih =>
      rcases chunkLoop_turn with ⟨complete, stops, _⟩ |
        ⟨line, size, passes, next⟩
      · exact ⟨complete, stops⟩
      rw [next]
      by_cases held : line + size + 4 ≤ (sBuffer.drop pCur).length
      · have positive := passes.positive
        rw [remaining_drop held]
        apply ih
        · rw [← List.drop_drop]
          intro overruns
          exact safe (.later passes held overruns)
        · rw [← List.drop_drop, List.length_drop]
          omega
      · have left := Nat.not_le.mp held
        obtain ⟨turns, rfl⟩ : ∃ fewer, turns = fewer + 1 :=
          ⟨turns - 1, by omega⟩
        exact ⟨false, chunkLoop_behind (by omega)
          ((passes.leaves left).resolve_right safe)⟩

theorem chunkLoop_overruns {pCur : Nat}
    (overruns : Overruns (sBuffer.drop pCur)) :
    chunkLoop sBuffer turns pCur (toInt (sBuffer.drop pCur).length) =
        .ok none ∨
      chunkLoop sBuffer turns pCur (toInt (sBuffer.drop pCur).length) =
        .error .invalidAccess := by
  induction turns generalizing pCur with
  | zero => exact .inl rfl
  | succ turns ih =>
      rcases chunkLoop_turn with ⟨complete, _, stuck⟩ |
        ⟨line, size, passes, next⟩
      · exfalso
        cases overruns with
        | last ends whole short largest =>
            exact stuck _ _ (passes_last ends whole short largest)
        | later passes held overruns => exact stuck _ _ passes
      rw [next]
      cases overruns with
      | last ends whole short largest =>
          obtain ⟨rfl, rfl⟩ :=
            passes.unique (passes_last ends whole short largest)
          have around : toInt (((sBuffer.drop pCur).length : Int) -
              (line + (2 ^ 31 - 1) + 4 : Nat)) = 2 ^ 31 - 1 := by
            rw [whole]
            unfold toInt
            omega
          rw [around]
          cases turns with
          | zero => exact .inl rfl
          | succ turns =>
              refine .inr (chunkLoop_overrun ?_)
              rw [List.length_drop] at whole
              omega
      | later passes' held overruns =>
          obtain ⟨rfl, rfl⟩ := passes.unique passes'
          rw [List.drop_drop] at overruns
          rw [remaining_drop held]
          exact ih overruns

/-- The walk over the chunks starts with the bytes behind the head. -/
theorem checkBody_chunks {len : Nat} (head : HasHead sBuffer pos) :
    checkBody turns sBuffer pos (some (true, len)) =
      chunkLoop sBuffer turns (pos + 4)
        (toInt (sBuffer.drop (pos + 4)).length) := by
  have within := head.blank.fits
  change pos + 4 ≤ _ at within
  rw [checkBody, List.length_drop, Nat.cast_sub within]
  rfl

theorem checkBody_finishes {found : Bool × Nat} (head : HasHead sBuffer pos)
    (safe : found.1 = true → ¬ Overruns (sBuffer.drop (pos + 4)))
    (enough : sBuffer.length + 1 < turns) :
    ∃ complete, checkBody turns sBuffer pos (some found) =
      .ok (some complete) := by
  obtain ⟨bChunk, len⟩ := found
  cases bChunk with
  | true =>
      rw [checkBody_chunks head]
      refine chunkLoop_finishes (safe rfl) ?_
      rw [List.length_drop]
      omega
  | false => exact ⟨_, rfl⟩

/-- There are no more lines than bytes. -/
theorem length_lines_le (bytes : List UInt8) :
    (lines bytes).length ≤ bytes.length := by
  fun_induction lines bytes with
  | case1 => exact Nat.le_refl _
  | case2 rest ih =>
      rw [List.length_cons, List.length_cons, List.length_cons]
      omega
  | case3 c rest _ none ih => exact Nat.zero_le _
  | case4 c rest _ line more some ih =>
      rw [some] at ih
      rw [List.length_cons] at ih ⊢
      rw [List.length_cons]
      omega

theorem finishes_of_safe (unbroken : ¬ Hangs sBuffer)
    (safe : ¬ OverrunsBody sBuffer) : Finishes sBuffer := by
  refine ⟨sBuffer.length + 2, ?_⟩
  by_cases head : ∃ pos, HasHead sBuffer pos
  · obtain ⟨pos, head⟩ := head
    obtain ⟨p, line, same, run⟩ := checkRequest_head head
    have few := length_lines_le ((sBuffer.take (pos + 4)).drop p)
    rw [List.length_drop, List.length_take] at few
    have scanned : headerLoop sBuffer (pos + 4) (sBuffer.length + 2) p 0 =
        .ok (some (scan (linesFrom sBuffer pos p) 0)) := by
      refine headerLoop_scan head.blank line ?_ ?_
      · intro interrupted
        exact unbroken ⟨pos, head, same ▸ interrupted⟩
      · rw [linesFrom]
        omega
    rw [run, scanned, ok_bind, same]
    exact .inl (checkBody_finishes head
      (fun chunks overruns => safe ⟨pos, head, chunks, overruns⟩) (by omega))
  · rcases checkRequest_headless (not_exists.mp head) with no | thrown
    · exact .inl ⟨false, no⟩
    · exact .inr thrown

theorem not_finishes (stuck : ∀ turns,
    checkRequest turns sBuffer = .ok none ∨
      checkRequest turns sBuffer = .error .invalidAccess) :
    ¬ Finishes sBuffer := by
  rintro ⟨turns, ⟨complete, finished⟩ | ⟨what, finished⟩⟩ <;>
    · rcases stuck turns with same | same <;>
        · rw [same] at finished
          cases finished

theorem checkRequest_hangs (hangs : Hangs sBuffer) :
    checkRequest turns sBuffer = .ok none := by
  obtain ⟨pos, head, interrupted⟩ := hangs
  obtain ⟨p, line, same, run⟩ := checkRequest_head head
  rw [run, headerLoop_interrupted head.blank line (same ▸ interrupted),
    ok_bind]
  rfl

theorem checkRequest_overruns (overruns : OverrunsBody sBuffer) :
    checkRequest turns sBuffer = .ok none ∨
      checkRequest turns sBuffer = .error .invalidAccess := by
  obtain ⟨pos, head, chunks, overruns⟩ := overruns
  obtain ⟨p, line, same, run⟩ := checkRequest_head head
  by_cases interrupted : Interrupted (linesFrom sBuffer pos p)
  · rw [run, headerLoop_interrupted head.blank line interrupted, ok_bind]
    exact .inl rfl
  · rcases headerLoop_turns head.blank line interrupted with
      ⟨_, unfinished⟩ | scanned
    · rw [run, unfinished, ok_bind]
      exact .inl rfl
    · rw [run, scanned, ok_bind, same]
      have found : scan (headerLines sBuffer pos) 0 =
          (true, (scan (headerLines sBuffer pos) 0).2) := Prod.ext chunks rfl
      rw [found, checkBody_chunks head]
      exact chunkLoop_overruns overruns

/-- `checkRequest` stops inside the buffer unless `strstr` finds no end of a
header line, or a chunk of `INT_MAX` bytes is announced at the end. -/
theorem checkRequest_safe_iff (sBuffer : List UInt8) :
    Finishes sBuffer ↔ ¬ Hangs sBuffer ∧ ¬ OverrunsBody sBuffer := by
  constructor
  · intro finishes
    constructor
    · intro hangs
      exact not_finishes (fun turns => .inl (checkRequest_hangs hangs)) finishes
    · intro overruns
      exact not_finishes (fun turns => checkRequest_overruns overruns) finishes
  · rintro ⟨unbroken, safe⟩
    exact finishes_of_safe unbroken safe

/-- A zero byte in a header line. -/
def zeroByteRequest : List UInt8 :=
  ascii "GET / HTTP/1.1\r\nA:" ++ 0 :: crlfcrlf

/-- The last line announces a chunk of `INT_MAX` bytes. -/
def largestChunkRequest : List UInt8 :=
  ascii "PUT / HTTP/1.1\r\nTransfer-Encoding: chunked" ++ crlfcrlf ++
    ascii "7fffffff" ++ crlf

/-- The loop over the header never ends for the one; for the other the walk
over the chunks reads behind the buffer. -/
theorem request_unsafe :
    ¬ Finishes zeroByteRequest ∧
      checkRequest 3 largestChunkRequest = .error .invalidAccess := by
  constructor
  · have head : HasHead zeroByteRequest 19 := {
      long := by decide
      method := ⟨3, find_eq_some_iff.mp (by decide), by decide, by decide⟩
      blank := find_eq_some_iff.mp (by decide)
      reached := by decide }
    have interrupted : Interrupted (headerLines zeroByteRequest 19) :=
      ⟨[], [65, 58, 0], [[]], by decide, by simp, by decide⟩
    exact not_finishes fun turns =>
      .inl (checkRequest_hangs ⟨19, head, interrupted⟩)
  · decide +kernel

end TarsCpp.Http
