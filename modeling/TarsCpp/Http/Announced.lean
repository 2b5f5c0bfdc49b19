import TarsCpp.Http.WellFormed

/-!
# What a header announces

The numbers and words that `checkRequest` takes from the fields of a well-formed
request, and the sizes that it takes from the chunks.
-/

namespace TarsCpp.Http

open CString

section Trimming

variable {p : UInt8 → Bool} {c : UInt8} {before rest behind : List UInt8}

theorem dropWhile_stops (other : p c = false) (before rest : List UInt8) :
    (before ++ c :: rest).dropWhile p = before.dropWhile p ++ c :: rest := by
  induction before with
  | nil => rw [List.nil_append, List.dropWhile_cons_of_neg (by simp [other])]; rfl
  | cons first before ih =>
      rw [List.cons_append]
      by_cases dropped : p first
      · rw [List.dropWhile_cons_of_pos dropped,
          List.dropWhile_cons_of_pos dropped, ih]
      · rw [List.dropWhile_cons_of_neg dropped,
          List.dropWhile_cons_of_neg dropped, List.cons_append]

theorem rdropWhile_stops (other : p c = false) (front behind : List UInt8) :
    (front ++ c :: behind).rdropWhile p =
      front ++ c :: behind.rdropWhile p := by
  have reversed := dropWhile_stops other behind.reverse front.reverse
  rw [List.rdropWhile, List.reverse_append, List.reverse_cons,
    List.append_assoc, List.singleton_append, reversed]
  simp [List.rdropWhile]

theorem dropWhile_all (all : ∀ c ∈ before, p c) :
    before.dropWhile p = [] :=
  List.dropWhile_eq_nil_iff.mpr all

end Trimming

theorem digits_append {base value : Nat} {word behind : List UInt8}
    (digit : ∀ c ∈ word, ∃ d, digitValue c = some d ∧ d < base)
    (ends : ∀ c ∈ behind.head?, digitValue c = none) :
    digits base value (word ++ behind) = digits base value word := by
  induction word generalizing value with
  | nil =>
      cases behind with
      | nil => rfl
      | cons c behind =>
          have none : digitValue c = none := ends c rfl
          simp [digits, none]
  | cons c word ih =>
      obtain ⟨d, here, small⟩ := digit c List.mem_cons_self
      rw [List.cons_append, digits, digits, here]
      simp only [if_pos small]
      exact ih fun other member => digit other (List.mem_cons_of_mem _ member)

theorem digitValue_digit {c : UInt8} (digit : isDigit c) :
    ∃ d, digitValue c = some d ∧ d < 10 := by
  simp only [isDigit, Bool.decide_and, Bool.and_eq_true, decide_eq_true_eq,
    UInt8.le_iff_toNat_le] at digit
  refine ⟨c.toNat - 48, ?_, ?_⟩
  · rw [digitValue, if_pos]
    simp only [UInt8.le_iff_toNat_le]
    exact digit
  · obtain ⟨_, most⟩ := digit
    change _ ≤ 57 at most
    omega

theorem digitValue_blank {c : UInt8} (blank : isBlank c) :
    digitValue c = none := by
  simp only [isBlank, Bool.decide_or, Bool.or_eq_true, decide_eq_true_eq]
    at blank
  rcases blank with rfl | rfl <;> decide

theorem isBlank_isspace {c : UInt8} (blank : isBlank c) : isspace c := by
  simp only [isBlank, Bool.decide_or, Bool.or_eq_true, decide_eq_true_eq]
    at blank
  rcases blank with rfl | rfl <;> decide

theorem isDigit_isspace {c : UInt8} (digit : isDigit c) :
    isspace c = false := by
  simp only [isDigit, isspace, Bool.decide_and, Bool.and_eq_true,
    decide_eq_true_eq, decide_eq_false_iff_not] at *
  grind

/-- Blanks around a number do not matter. -/
theorem strto_decimal {before word behind : List UInt8} {length : Nat}
    (blank : ∀ c ∈ before, isBlank c) (blank' : ∀ c ∈ behind, isBlank c)
    (decimal : Decimal length word) (fits : length < 2 ^ 64) :
    strto (before ++ (word ++ behind)) = length := by
  obtain ⟨c, tail, rfl⟩ := List.exists_cons_of_ne_nil decimal.nonempty
  have digit := decimal.digit c List.mem_cons_self
  have plain : ¬ ascii "0x" <+: before ++ (c :: tail ++ behind) := by
    rintro ⟨rest, same⟩
    change 48 :: 120 :: rest = _ at same
    cases before with
    | cons first before =>
        simp only [List.cons_append, List.cons.injEq] at same
        exact ne_of_class (blank first List.mem_cons_self)
          (by decide : isBlank 48 = false) same.1.symm
    | nil =>
        simp only [List.cons_append, List.nil_append, List.cons.injEq] at same
        have member : (120 : UInt8) ∈ tail ++ behind := by
          rw [← same.2]
          exact List.mem_cons_self
        rcases List.mem_append.mp member with inside | outside
        · exact ne_of_class (decimal.digit _ (List.mem_cons_of_mem _ inside))
            (by decide) rfl
        · exact ne_of_class (blank' _ outside) (by decide) rfl
  have spaces : before.dropWhile isspace = [] :=
    dropWhile_all fun c member => isBlank_isspace (blank c member)
  have value : digits 10 0 (c :: tail ++ behind) = length := by
    rw [digits_append (fun c member => digitValue_digit (decimal.digit c member))
      ?_, decimal.counts]
    intro c first
    exact digitValue_blank (blank' c (List.mem_of_mem_head? first))
  have read : number 10 (before ++ (c :: tail ++ behind)) = (false, length) := by
    rw [number, List.cons_append, dropWhile_stops (isDigit_isspace digit),
      spaces, List.nil_append]
    have minus : c ≠ 45 := ne_of_class digit (by decide)
    have plus : c ≠ 43 := ne_of_class digit (by decide)
    rw [List.cons_append] at value
    simp [minus, plus, value]
  rw [strto, if_neg (by simp), if_neg plain, strtoul, read]
  simp only [Bool.false_eq_true, if_false]
  rw [if_neg (by omega)]

theorem digitValue_hex {c : UInt8} (hex : isHex c) :
    ∃ d, digitValue c = some d ∧ d < 16 := by
  simp only [isHex, isDigit, Bool.decide_and, Bool.decide_or, Bool.and_eq_true,
    Bool.or_eq_true, decide_eq_true_eq, UInt8.le_iff_toNat_le] at hex
  simp only [digitValue, UInt8.le_iff_toNat_le]
  rcases hex with ⟨least, most⟩ | ⟨least, most⟩ | ⟨least, most⟩ <;>
    change _ ≤ c.toNat at least <;> change c.toNat ≤ _ at most
  · refine ⟨c.toNat - 48, ?_, by simp at most; omega⟩
    rw [if_pos ⟨least, most⟩]
  · simp at least most
    refine ⟨c.toNat - 55, ?_, by omega⟩
    rw [if_neg (by simp; omega), if_pos (by simp; omega)]
  · simp at least most
    refine ⟨c.toNat - 87, ?_, by omega⟩
    rw [if_neg (by simp; omega), if_neg (by simp; omega),
      if_pos (by simp; omega)]

theorem isHex_isspace {c : UInt8} (hex : isHex c) : isspace c = false := by
  simp only [isHex, isDigit, isspace, Bool.decide_and, Bool.decide_or,
    Bool.and_eq_true, Bool.or_eq_true, decide_eq_true_eq] at *
  grind

theorem tolower_hex {c : UInt8} (hex : isHex c) : tolower c ≠ 120 := by
  simp only [isHex, isDigit, Bool.decide_and, Bool.decide_or,
    Bool.and_eq_true, Bool.or_eq_true, decide_eq_true_eq] at hex
  unfold tolower
  grind

/-- What stands behind a size does not matter, if it is no digit. -/
theorem chunkSize_line {size behind : List UInt8} (nonempty : size ≠ [])
    (hex : ∀ c ∈ size, isHex c)
    (ends : ∀ c ∈ behind.head?, digitValue c = none)
    (small : digits 16 0 size < 2 ^ 31) :
    chunkSize (size ++ behind) = digits 16 0 size := by
  obtain ⟨c, tail, rfl⟩ := List.exists_cons_of_ne_nil nonempty
  have first := hex c List.mem_cons_self
  have minus : c ≠ 45 := ne_of_class first (by decide)
  have plus : c ≠ 43 := ne_of_class first (by decide)
  have second : ∀ d ∈ (tail ++ behind).head?, tolower d ≠ 120 := by
    intro d member
    cases tail with
    | nil =>
        intro lower
        have none := ends d member
        unfold tolower at lower
        simp only [digitValue] at none
        grind
    | cons first tail =>
        cases member
        exact tolower_hex (hex d (by simp))
  have unprefixed : startsWith (ascii "0x") (c :: (tail ++ behind)) = false := by
    rw [startsWith, decide_eq_false_iff_not]
    rintro ⟨rest, same⟩
    cases follows : tail ++ behind with
    | nil =>
        rw [follows] at same
        simp [ascii, tolower] at same
    | cons d more =>
        rw [follows] at same second
        simp only [ascii, List.map_cons] at same
        injection same with _ same
        injection same with lower _
        exact second d rfl lower.symm
  have value : digits 16 0 (c :: (tail ++ behind)) =
      digits 16 0 (c :: tail) :=
    digits_append (fun d member => digitValue_hex (hex d member)) ends
  have read : number 16 (c :: (tail ++ behind)) =
      (false, digits 16 0 (c :: tail)) := by
    rw [number, List.dropWhile_cons_of_neg (by simp [isHex_isspace first])]
    simp [minus, plus, unprefixed, value]
  rw [List.cons_append, chunkSize, strtol, read]
  simp only [Bool.false_eq_true, if_false]
  rw [min_eq_right (by omega), toInt_eq (by omega) (by omega)]

theorem chunkSize_hex {size : List UInt8} (nonempty : size ≠ [])
    (hex : ∀ c ∈ size, isHex c) (small : digits 16 0 size < 2 ^ 31) :
    chunkSize size = digits 16 0 size := by
  have nothing : ∀ c ∈ ([] : List UInt8).head?, digitValue c = none := by
    intro c member
    cases member
  have whole := chunkSize_line nonempty hex nothing small
  rwa [List.append_nil] at whole

theorem digits_zeros (zeros : Nat) :
    digits 16 0 (List.replicate zeros 48) = 0 := by
  induction zeros with
  | zero => rfl
  | succ zeros ih =>
      rw [List.replicate_succ, digits]
      exact ih

theorem prefix_colon {name found value : List UInt8} (foreign : 58 ∉ name)
    (foreign' : 58 ∉ found) :
    name ++ [58] <+: found ++ 58 :: value ↔ found = name := by
  induction name generalizing found with
  | nil =>
      cases found with
      | nil => simp
      | cons c found =>
          have other : ¬ 58 = c := by
            rintro rfl
            exact foreign' List.mem_cons_self
          simp [other]
  | cons d name ih =>
      rw [List.mem_cons, not_or] at foreign
      cases found with
      | nil => simp [Ne.symm foreign.1]
      | cons c found =>
          rw [List.mem_cons, not_or] at foreign'
          rw [List.cons_append, List.cons_append, List.cons_prefix_cons,
            ih foreign.2 foreign'.2, List.cons.injEq]
          exact and_congr_left fun _ => eq_comm

/-- The names with the colon are found in the fields of these names. -/
theorem startsWith_line {name : List UInt8} (field : Field)
    (foreign : 58 ∉ name.map tolower) :
    startsWith (name ++ colon) field.line = true ↔ field.Named name := by
  have foreign' : 58 ∉ field.name.map tolower := by
    intro member
    obtain ⟨c, inName, same⟩ := List.mem_map.mp member
    exact ne_of_class (field.token c inName) (by decide)
      (tolower_eq_colon.mp same)
  rw [startsWith, decide_eq_true_eq, Field.line, Field.Named]
  have same : (field.name ++ (colon ++ field.value)).map tolower =
      field.name.map tolower ++ 58 :: field.value.map tolower := by
    simp [colon, ascii, tolower]
  rw [same, List.map_append]
  exact prefix_colon foreign foreign'

theorem Field.line_drop {name : List UInt8} {field : Field}
    (named : field.Named name) :
    field.line.drop (name.length + 1) = field.value := by
  have length : field.name.length = name.length := by
    rw [← List.length_map tolower, named, List.length_map]
  rw [Field.line, ← length, List.drop_length_add_append]
  rfl

/-- Blanks around a word are trimmed. -/
theorem trim_word {p : List UInt8} {before word behind : List UInt8}
    (nonempty : word ≠ []) (outside : ∀ c ∈ word, c ∉ p) :
    trim (before ++ (word ++ behind)) p =
      before.dropWhile (· ∈ p) ++ (word ++ behind.rdropWhile (· ∈ p)) := by
  obtain ⟨c, tail, rfl⟩ := List.exists_cons_of_ne_nil nonempty
  obtain ⟨front, last, same⟩ : ∃ front last, c :: tail = front ++ [last] :=
    ⟨_, _, (List.dropLast_append_getLast (List.cons_ne_nil c tail)).symm⟩
  have first : c ∉ p := outside c List.mem_cons_self
  have stops : last ∉ p := outside last (by rw [same]; simp)
  rw [trim, List.cons_append, dropWhile_stops (by simpa using first),
    ← List.cons_append, same, List.append_assoc, List.singleton_append,
    ← List.append_assoc, rdropWhile_stops (by simpa using stops)]
  simp

theorem lengthOf_line {length : Nat} {field : Field}
    (named : field.Named (ascii "Content-Length"))
    (announced : field.Says (Decimal length)) (fits : length < 2 ^ 64) :
    lengthOf field.line = length := by
  obtain ⟨before, word, behind, value, blank, blank', decimal⟩ := announced
  have outside : ∀ c ∈ word, c ∉ space := by
    intro c member blank
    exact ne_of_class (decimal.digit c member) (by decide)
      (List.mem_singleton.mp blank)
  have dropped := Field.line_drop named
  rw [lengthOf, show 15 = (ascii "Content-Length").length + 1 from rfl, dropped,
    value, trim_word decimal.nonempty outside]
  apply strto_decimal _ _ decimal fits
  · intro c member
    exact blank c ((List.dropWhile_sublist _).subset member)
  · intro c member
    exact blank' c ((List.rdropWhile_prefix _ _).subset member)

theorem startsWith_transferEncoding (field : Field) :
    startsWith transferEncoding field.line = true ↔
      field.Named (ascii "Transfer-Encoding") := by
  rw [show transferEncoding = ascii "Transfer-Encoding" ++ colon by decide]
  exact startsWith_line field (by decide)

theorem startsWith_contentLength (field : Field) :
    startsWith contentLength field.line = true ↔
      field.Named (ascii "Content-Length") := by
  rw [show contentLength = ascii "Content-Length" ++ colon by decide]
  exact startsWith_line field (by decide)

theorem scan_neutral {fields : List Field} (more : List (List UInt8))
    (len : Nat) (neutral : ∀ field ∈ fields, field.Neutral) :
    scan (fields.map Field.line ++ more) len = scan more len := by
  induction fields with
  | nil => rfl
  | cons field fields ih =>
      obtain ⟨notLength, notEncoding⟩ := neutral field List.mem_cons_self
      rw [List.map_cons, List.cons_append, scan,
        if_neg (mt (startsWith_transferEncoding field).mp notEncoding),
        if_neg (mt (startsWith_contentLength field).mp notLength)]
      exact ih fun other member => neutral other (List.mem_cons_of_mem _ member)

theorem scan_blank (len : Nat) : scan [[]] len = (false, len) := rfl

/-- Without chunks the scan finds the length of the body. -/
theorem scan_plain {fields : List Field} {body : Body}
    (framed : Framed fields body) (plain : ¬ body.Chunked)
    (fits : body.bytes.length < 2 ^ 64) :
    scan (fields.map Field.line ++ [[]]) 0 = (false, body.bytes.length) := by
  cases body with
  | none => exact scan_neutral [[]] 0 framed
  | chunked chunks zeros => exact absurd trivial plain
  | sized content =>
      obtain ⟨before, field, behind, rfl, named, announced, neutral, neutral'⟩ :=
        framed
      have apart : ¬ field.Named (ascii "Transfer-Encoding") := by
        intro named'
        have lengths := congrArg List.length (named.symm.trans named')
        exact absurd lengths (by decide)
      rw [List.map_append, List.append_assoc, scan_neutral _ _ neutral,
        List.map_cons, List.cons_append, scan,
        if_neg (mt (startsWith_transferEncoding field).mp apart),
        if_pos ((startsWith_contentLength field).mpr named),
        lengthOf_line named announced fits, scan_neutral _ _ neutral']
      rfl

/-- With chunks it finds them, if `chunked` is in lower case. -/
theorem scan_chunked {fields : List Field} {chunks : List Chunk} {zeros : Nat}
    (framed : Framed fields (.chunked chunks zeros)) :
    ∃ bChunk, scan (fields.map Field.line ++ [[]]) 0 = (bChunk, 0) := by
  obtain ⟨before, field, behind, rfl, named, announced, neutral, neutral'⟩ := framed
  rw [List.map_append, List.append_assoc, scan_neutral _ _ neutral,
    List.map_cons, List.cons_append, scan,
    if_pos ((startsWith_transferEncoding field).mpr named)]
  by_cases lower : isChunked field.line
  · exact ⟨true, by rw [if_pos lower]⟩
  · exact ⟨false, by
      rw [if_neg lower, scan_neutral _ _ neutral', scan_blank]⟩

end TarsCpp.Http
