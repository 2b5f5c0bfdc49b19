import TarsCpp.Http.CheckRequest

/-!
# The lines of a header

What `strnstr` finds when it stays in the buffer, and what the loop over the
header lines makes of them.  A line with a zero byte, on which `strstr` finds
no end, is never left.
-/

namespace TarsCpp.Http

open CString NetworkBuffer

variable {sBuffer s1 s2 : List UInt8} {pos p len turns : Nat}

@[simp] theorem access_some {α : Type} (value : α) :
    access (some value) = .ok value := rfl

theorem countLoop_within (within : turns ≤ s1.length) :
    ∃ l1, countLoop s1 turns = some l1 := by
  induction turns generalizing s1 with
  | zero => exact ⟨0, by cases s1 <;> rfl⟩
  | succ turns ih =>
      cases s1 with
      | nil => simp at within
      | cons c rest =>
          rw [countLoop]
          split
          · exact ⟨0, rfl⟩
          · obtain ⟨l1, counted⟩ := ih (Nat.le_of_succ_le_succ within)
            exact ⟨l1 + 1, by rw [counted, Option.map_some]⟩

theorem searchLoop_within (nonempty : s2 ≠ [])
    (within : turns ≠ 0 → turns + s2.length ≤ s1.length + 1) :
    searchLoop s2 s1 turns = some ((find s2 s1).filter (· < turns)) := by
  have positive := List.length_pos_of_ne_nil nonempty
  induction turns generalizing s1 with
  | zero => cases find s2 s1 <;> simp [searchLoop]
  | succ turns ih =>
      have within := within (by omega)
      cases s1 with
      | nil =>
          rw [List.length_nil] at within
          omega
      | cons c rest =>
          rw [List.length_cons] at within
          have compared : memcmp s2 (c :: rest) =
              some (decide (s2 <+: c :: rest)) := by
            rw [memcmp, if_pos (by rw [List.length_cons]; omega)]
          rw [searchLoop, compared, Option.bind_eq_bind, Option.bind_some,
            find]
          by_cases here : s2 <+: c :: rest
          · simp [here, Option.filter_some]
          · have later : searchLoop s2 rest turns =
                some ((find s2 rest).filter (· < turns)) := ih (by omega)
            simp only [here, decide_false, Bool.false_eq_true, if_false,
              List.drop_one, List.tail_cons, later]
            cases find s2 rest with
            | none => rfl
            | some place =>
                by_cases near : place < turns <;>
                  simp [near, Option.filter_some]

/-- The search goes over `pos1` bytes; a zero byte does not end it. -/
theorem strnstr_eq (nonempty : s2 ≠ []) {pos1 : Int}
    (within : pos1 ≤ s1.length) :
    strnstr s1 s2 pos1 = some (find s2 (s1.take pos1.toNat)) := by
  have positive := List.length_pos_of_ne_nil nonempty
  obtain ⟨l1, counted⟩ : ∃ l1, countLoop s1 pos1.toNat = some l1 :=
    countLoop_within (by omega)
  rw [strnstr, if_neg nonempty, counted, Option.bind_eq_bind,
    Option.bind_some, searchLoop_within nonempty (by omega)]
  congr 1
  cases whole : find s2 s1 with
  | none =>
      symm
      rw [Option.filter_none, find_eq_none_iff]
      intro place first
      exact find_eq_none_iff.mp whole place (first_take_iff.mp first).1
  | some place =>
      have first := find_eq_some_iff.mp whole
      by_cases near : place + s2.length ≤ pos1.toNat
      · rw [find_eq_some_iff.mpr (first_take_iff.mpr ⟨first, near⟩),
          Option.filter_some, if_pos (by simp; omega)]
      · rw [Option.filter_some, if_neg (by simp; omega)]
        symm
        rw [find_eq_none_iff]
        intro other cut
        obtain ⟨first', near'⟩ := first_take_iff.mp cut
        exact near (first.unique first' ▸ near')

/-- The line says that the body comes in chunks. -/
def announcesChunks (line : List UInt8) : Bool :=
  startsWith transferEncoding line && isChunked line

/-- `bChunk` and `len` after some lines. -/
def scan : List (List UInt8) → Nat → Bool × Nat
  | [], len => (false, len)
  | line :: more, len =>
      if startsWith transferEncoding line then
        if isChunked line then (true, len) else scan more len
      else if startsWith contentLength line then
        scan more (lengthOf line)
      else
        scan more len

/-- A line with a zero byte comes before any that announces chunks, or is that
line. -/
def Interrupted (header : List (List UInt8)) : Prop :=
  ∃ before line behind, header = before ++ line :: behind ∧
    (∀ earlier ∈ before, announcesChunks earlier = false) ∧ 0 ∈ line

theorem interrupted_cons_iff {line : List UInt8} {more : List (List UInt8)} :
    Interrupted (line :: more) ↔
      0 ∈ line ∨ announcesChunks line = false ∧ Interrupted more := by
  constructor
  · rintro ⟨before, found, behind, same, unannounced, zero⟩
    cases before with
    | nil =>
        injection same with same _
        exact .inl (same ▸ zero)
    | cons first before =>
        injection same with same same'
        subst same
        exact .inr ⟨unannounced _ List.mem_cons_self, before, found, behind,
          same', fun earlier member =>
            unannounced _ (List.mem_cons_of_mem _ member), zero⟩
  · rintro (zero | ⟨unannounced, before, found, behind, rfl, rest, zero⟩)
    · exact ⟨[], line, more, rfl, by simp, zero⟩
    · refine ⟨line :: before, found, behind, rfl, ?_, zero⟩
      intro earlier member
      rcases List.mem_cons.mp member with rfl | later
      · exact unannounced
      · exact rest earlier later

/-- The lines from `p` on, the blank one included. -/
def linesFrom (sBuffer : List UInt8) (pos p : Nat) : List (List UInt8) :=
  lines ((sBuffer.take (pos + 4)).drop p)

theorem linesFrom_body : linesFrom sBuffer pos (pos + 4) = [] := by
  rw [linesFrom, List.drop_eq_nil_of_le (by simp)]
  rfl

/-- A line of the header begins at `p`; the blank line begins at `pos + 2`. -/
def AtLine (pos p : Nat) : Prop := p ≤ pos ∨ p = pos + 2

theorem getElem?_blank (blank : First crlfcrlf sBuffer pos) :
    sBuffer[pos]? = some 13 ∧ crlf <+: sBuffer.drop pos ∧
      crlf <+: sBuffer.drop (pos + 2) := by
  obtain ⟨tail, same⟩ := blank.here
  refine ⟨?_, ⟨crlf ++ tail, same⟩, tail, ?_⟩
  · rw [← List.head?_drop, ← same]
    rfl
  · rw [← List.drop_drop, ← same]
    rfl

/-- The line at `p` ends, and what follows is a line again or the body. -/
theorem line_ends (blank : First crlfcrlf sBuffer pos) (line : AtLine pos p) :
    ∃ lineEnd, First crlf (sBuffer.drop p) lineEnd ∧
      (AtLine pos (p + lineEnd + 2) ∨ p + lineEnd + 2 = pos + 4) ∧
      linesFrom sBuffer pos p = (sBuffer.drop p).take lineEnd ::
        linesFrom sBuffer pos (p + lineEnd + 2) := by
  obtain ⟨carriage, here, here'⟩ := getElem?_blank blank
  have found : ∃ lineEnd, First crlf (sBuffer.drop p) lineEnd ∧
      (AtLine pos (p + lineEnd + 2) ∨ p + lineEnd + 2 = pos + 4) := by
    rcases line with before | rfl
    · have ends : crlf <+: (sBuffer.drop p).drop (pos - p) := by
        rwa [List.drop_drop, Nat.add_sub_cancel' before]
      obtain ⟨lineEnd, within, first⟩ := exists_first ends
      refine ⟨lineEnd, first, ?_⟩
      -- the line feed of this line is not the carriage return at `pos`
      have apart : p + lineEnd + 1 ≠ pos := by
        intro same
        obtain ⟨tail, feed⟩ := first.here
        have byte : sBuffer[pos]? = some 10 := by
          rw [← same, Nat.add_assoc, ← List.getElem?_drop,
            ← List.getElem?_drop, ← feed]
          rfl
        rw [byte] at carriage
        cases carriage
      unfold AtLine
      omega
    · exact ⟨0, ⟨here', fun _ before => absurd before (by omega)⟩, .inr rfl⟩
  obtain ⟨lineEnd, first, behind⟩ := found
  have bounded : p + lineEnd + 2 ≤ pos + 4 := by
    rcases behind with at_line | ends
    · unfold AtLine at at_line
      omega
    · omega
  refine ⟨lineEnd, first, behind, ?_⟩
  have cut : First crlf ((sBuffer.take (pos + 4)).drop p) lineEnd := by
    rw [List.drop_take]
    exact first_take_iff.mpr ⟨first, by simp [crlf]; omega⟩
  rw [linesFrom, lines_first cut, List.drop_drop, linesFrom, Nat.add_assoc]
  congr 1
  rw [List.drop_take, List.take_take, Nat.min_eq_left (by omega)]

/-- Both field names are matched inside the line. -/
theorem strncasecmp_field {rest field : List UInt8} {lineEnd : Nat}
    (known : field = transferEncoding ∨ field = contentLength)
    (first : First crlf rest lineEnd) :
    strncasecmp field rest = some (startsWith field (rest.take lineEnd)) := by
  have foreign : tolower 13 ∉ field.map tolower := by
    rcases known with rfl | rfl <;> decide
  have split := first.split
  calc
    strncasecmp field rest =
        strncasecmp field (rest.take lineEnd ++
          (crlf ++ rest.drop (lineEnd + crlf.length))) := by rw [← split]
    _ = some (startsWith field (rest.take lineEnd)) :=
        strncasecmp_line _ foreign

theorem headerLoop_line {lineEnd : Nat} (within : p < pos + 4)
    (first : First crlf (sBuffer.drop p) lineEnd)
    (unended : 0 ∉ (sBuffer.drop p).take lineEnd) :
    headerLoop sBuffer (pos + 4) (turns + 1) p len =
      let line := (sBuffer.drop p).take lineEnd
      let behind := p + lineEnd + 2
      if startsWith transferEncoding line then
        if isChunked line then .ok (some (true, len))
        else headerLoop sBuffer (pos + 4) turns behind len
      else if startsWith contentLength line then
        headerLoop sBuffer (pos + 4) turns behind (lengthOf line)
      else
        headerLoop sBuffer (pos + 4) turns behind len := by
  rw [headerLoop, if_neg (Nat.not_le.mpr within)]
  simp only [strstr_found (by decide) first unended, access_some, ok_bind,
    strncasecmp_field (.inl rfl) first, strncasecmp_field (.inr rfl) first]

/-- Without an interruption the loop needs one turn for each line, and one. -/
theorem headerLoop_turns (blank : First crlfcrlf sBuffer pos)
    (line : AtLine pos p ∨ p = pos + 4)
    (unbroken : ¬ Interrupted (linesFrom sBuffer pos p)) :
    turns ≤ (linesFrom sBuffer pos p).length ∧
        headerLoop sBuffer (pos + 4) turns p len = .ok none ∨
      headerLoop sBuffer (pos + 4) turns p len =
        .ok (some (scan (linesFrom sBuffer pos p) len)) := by
  induction turns generalizing p len with
  | zero => exact .inl ⟨Nat.zero_le _, rfl⟩
  | succ turns ih =>
      rcases line with line | rfl
      · obtain ⟨lineEnd, first, behind, same⟩ := line_ends blank line
        rw [same, interrupted_cons_iff, not_or] at unbroken
        have within : p < pos + 4 := by
          unfold AtLine at line
          omega
        have rest : announcesChunks ((sBuffer.drop p).take lineEnd) = false →
            ∀ len, turns + 1 ≤ (linesFrom sBuffer pos p).length ∧
                headerLoop sBuffer (pos + 4) turns (p + lineEnd + 2) len =
                  .ok none ∨
              headerLoop sBuffer (pos + 4) turns (p + lineEnd + 2) len =
                .ok (some (scan (linesFrom sBuffer pos (p + lineEnd + 2))
                  len)) := by
          intro unannounced len
          rw [same, List.length_cons]
          refine (ih behind ?_).imp_left (And.imp_left Nat.succ_le_succ)
          intro interrupted
          exact unbroken.2 ⟨unannounced, interrupted⟩
        rw [headerLoop_line within first unbroken.1]
        nth_rewrite 2 [same]
        simp only [scan]
        split
        · next encoding =>
            split
            · exact .inr rfl
            · next plain =>
                exact rest (by simp [announcesChunks, plain]) len
        · next other =>
            have unannounced :
                announcesChunks ((sBuffer.drop p).take lineEnd) = false := by
              simp [announcesChunks, other]
            split
            · exact rest unannounced _
            · exact rest unannounced _
      · rw [headerLoop, if_pos (by omega), linesFrom_body]
        exact .inr rfl

theorem headerLoop_scan (blank : First crlfcrlf sBuffer pos)
    (line : AtLine pos p ∨ p = pos + 4)
    (unbroken : ¬ Interrupted (linesFrom sBuffer pos p))
    (enough : (linesFrom sBuffer pos p).length < turns) :
    headerLoop sBuffer (pos + 4) turns p len =
      .ok (some (scan (linesFrom sBuffer pos p) len)) :=
  (headerLoop_turns blank line unbroken).resolve_left
    (fun short => absurd short.1 (Nat.not_le.mpr enough))

/-- An interruption is a loop that never ends. -/
theorem headerLoop_interrupted (blank : First crlfcrlf sBuffer pos)
    (line : AtLine pos p ∨ p = pos + 4)
    (interrupted : Interrupted (linesFrom sBuffer pos p)) :
    headerLoop sBuffer (pos + 4) turns p len = .ok none := by
  induction turns generalizing p len with
  | zero => rfl
  | succ turns ih =>
      rcases line with line | rfl
      · obtain ⟨lineEnd, first, behind, same⟩ := line_ends blank line
        have within : p < pos + 4 := by
          unfold AtLine at line
          omega
        by_cases ended : 0 ∈ (sBuffer.drop p).take lineEnd
        · rw [headerLoop, if_neg (Nat.not_le.mpr within)]
          simp only [strstr_ended first ended, access_some, ok_bind]
          exact ih (.inl line) interrupted
        · rw [same, interrupted_cons_iff] at interrupted
          obtain ⟨unannounced, interrupted⟩ :=
            interrupted.resolve_left ended
          rw [headerLoop_line within first ended]
          simp only [announcesChunks, Bool.and_eq_false_iff] at unannounced
          have rest : ∀ len, headerLoop sBuffer (pos + 4) turns
              (p + lineEnd + 2) len = .ok none :=
            fun len => ih behind interrupted
          simp only [rest]
          split
          · next encoding =>
              rw [if_neg]
              simpa [encoding] using unannounced
          · split <;> rfl
      · rw [linesFrom_body] at interrupted
        obtain ⟨before, found, behind, same, _⟩ := interrupted
        simp at same

/-- One of the methods stands in front of the first space. -/
def KnownMethod (sBuffer : List UInt8) : Prop :=
  ∃ p, First space sBuffer p ∧ p < 10 ∧
    (HEADER.lookup (sBuffer.take p)).isSome

/-- The buffer holds a head with a known method, whose blank line begins at
`pos + 2`, in the part that an `int` reaches. -/
structure HasHead (sBuffer : List UInt8) (pos : Nat) : Prop where
  long : 10 ≤ sBuffer.length
  method : KnownMethod sBuffer
  blank : First crlfcrlf sBuffer pos
  reached : pos + 4 ≤ toInt sBuffer.length

/-- The lines behind the request line, the blank one included. -/
def headerLines (sBuffer : List UInt8) (pos : Nat) : List (List UInt8) :=
  (linesFrom sBuffer pos 0).tail

theorem toInt_length_le (sBuffer : List UInt8) :
    toInt sBuffer.length ≤ sBuffer.length := toInt_le (by omega)

theorem strnstr_method {p : Nat} (long : 10 ≤ sBuffer.length)
    (first : First space sBuffer p) (near : p < 10) :
    strnstr sBuffer space 10 = some (some p) := by
  rw [strnstr_eq (by decide) (by omega),
    find_eq_some_iff.mpr (first_take_iff.mpr ⟨first, ?_⟩)]
  change p + 1 ≤ 10
  omega

section Known

variable (long : 10 ≤ sBuffer.length) (known : KnownMethod sBuffer)

include long known

/-- The blank line is not within reach. -/
theorem checkRequest_endless
    (endless : find crlfcrlf (sBuffer.take (toInt sBuffer.length).toNat) =
      none) : checkRequest turns sBuffer = .ok (some false) := by
  obtain ⟨method, first, near, known⟩ := known
  have listed : ¬ (HEADER.lookup (sBuffer.take method)).isNone := by
    simpa using known
  have blank : strnstr sBuffer crlfcrlf (toInt sBuffer.length) =
      some (find crlfcrlf (sBuffer.take (toInt sBuffer.length).toNat)) :=
    strnstr_eq (by decide) (toInt_length_le sBuffer)
  rw [endless] at blank
  rw [checkRequest, if_neg (Nat.not_lt.mpr long),
    strnstr_method long first near]
  simp only [access_some, ok_bind, if_neg listed, blank]

theorem checkRequest_lines {line : Nat}
    (ended : find crlfcrlf (sBuffer.take (toInt sBuffer.length).toNat) =
      some pos)
    (first_line : strnstr sBuffer crlf (toInt (pos + 4 : Nat)) =
      some (some line)) :
    checkRequest turns sBuffer = (do
      let found ← headerLoop sBuffer (pos + 4) turns (line + 2) 0
      checkBody turns sBuffer pos found) := by
  obtain ⟨method, first, near, known⟩ := known
  have listed : ¬ (HEADER.lookup (sBuffer.take method)).isNone := by
    simpa using known
  have blank : strnstr sBuffer crlfcrlf (toInt sBuffer.length) =
      some (find crlfcrlf (sBuffer.take (toInt sBuffer.length).toNat)) :=
    strnstr_eq (by decide) (toInt_length_le sBuffer)
  rw [ended] at blank
  rw [checkRequest, if_neg (Nat.not_lt.mpr long),
    strnstr_method long first near]
  simp only [access_some, ok_bind, if_neg listed, blank, first_line]

end Known

theorem checkRequest_unknown (long : 10 ≤ sBuffer.length)
    (unknown : ¬ KnownMethod sBuffer) :
    ∃ what, checkRequest turns sBuffer = .error (.thrown what) := by
  rw [checkRequest, if_neg (Nat.not_lt.mpr long),
    strnstr_eq (by decide) (by omega), access_some, ok_bind]
  cases spaced : find space (sBuffer.take (10 : Int).toNat) with
  | none => exact ⟨_, rfl⟩
  | some method =>
      obtain ⟨first, near⟩ := first_take_iff.mp (find_eq_some_iff.mp spaced)
      change method + 1 ≤ 10 at near
      have unlisted : (HEADER.lookup (sBuffer.take method)).isNone := by
        by_contra listed
        exact unknown ⟨method, first, by omega, by simpa using listed⟩
      simp only [if_pos unlisted]
      exact ⟨_, rfl⟩

theorem checkRequest_head (head : HasHead sBuffer pos) :
    ∃ p, (AtLine pos p ∨ p = pos + 4) ∧
      linesFrom sBuffer pos p = headerLines sBuffer pos ∧
      ∀ turns, checkRequest turns sBuffer = (do
        let found ← headerLoop sBuffer (pos + 4) turns p 0
        checkBody turns sBuffer pos found) := by
  obtain ⟨line, ends, behind, same⟩ :=
    line_ends head.blank (.inl (Nat.zero_le pos))
  rw [List.drop_zero] at ends same
  rw [Nat.zero_add] at behind same
  have bound := toInt_length_le sBuffer
  have reached := head.reached
  have limit := toInt_lt sBuffer.length
  have blank : find crlfcrlf (sBuffer.take (toInt sBuffer.length).toNat) =
      some pos := by
    rw [find_eq_some_iff.mpr (first_take_iff.mpr ⟨head.blank, ?_⟩)]
    change pos + 4 ≤ _
    omega
  have ended : strnstr sBuffer crlf (toInt (pos + 4 : Nat)) =
      some (some line) := by
    rw [toInt_eq (by omega) (by omega), strnstr_eq (by decide) (by omega),
      find_eq_some_iff.mpr (first_take_iff.mpr ⟨ends, ?_⟩)]
    change line + 2 ≤ _
    unfold AtLine at behind
    omega
  refine ⟨line + 2, behind, by rw [headerLines, same, List.tail_cons], ?_⟩
  intro turns
  exact checkRequest_lines head.long head.method blank ended

/-- Without the end of the header the request is not complete. -/
theorem checkRequest_unended (known : 10 ≤ sBuffer.length → KnownMethod sBuffer)
    (headless : ∀ pos, ¬ HasHead sBuffer pos) :
    checkRequest turns sBuffer = .ok (some false) := by
  by_cases long : 10 ≤ sBuffer.length
  · cases blank : find crlfcrlf
        (sBuffer.take (toInt sBuffer.length).toNat) with
    | none => exact checkRequest_endless long (known long) blank
    | some pos =>
        obtain ⟨blank, reached⟩ := first_take_iff.mp (find_eq_some_iff.mp blank)
        change pos + 4 ≤ _ at reached
        exact absurd ⟨long, known long, blank, by omega⟩ (headless pos)
  · rw [checkRequest, if_pos (Nat.not_le.mp long)]

/-- Without a head the answer is `false` or an exception. -/
theorem checkRequest_headless (headless : ∀ pos, ¬ HasHead sBuffer pos) :
    checkRequest turns sBuffer = .ok (some false) ∨
      ∃ what, checkRequest turns sBuffer = .error (.thrown what) := by
  by_cases long : 10 ≤ sBuffer.length
  · by_cases known : KnownMethod sBuffer
    · exact .inl (checkRequest_unended (fun _ => known) headless)
    · exact .inr (checkRequest_unknown long known)
  · exact .inl (checkRequest_unended (fun within => absurd within long) headless)

end TarsCpp.Http
