import Mathlib.Data.List.TakeWhile
import TarsCpp.Cron.Ordinals
import TarsCpp.Cron.Setting

/-!
# What a field says, and what it is read as

A number is written in digits or with one of the names of the field, at its
full value.  Blanks and a plus sign may stand in front of it, nothing behind
it.  An item that says something is rejected, or read with the values it says
modulo 256.
-/

namespace TarsCpp.Cron

open CString (isspace)

/-- The word stands for the number. -/
def Ordinal (names : List (List UInt8)) (word : List UInt8) (v : Nat) : Prop :=
  (word ≠ [] ∧ (∀ c ∈ word, isDigit c = true) ∧ v = numbered (0 : Nat) word) ∨
  names[v]? = some (upper word)

structure Number (names : List (List UInt8)) (token : List UInt8) (v : Nat) :
    Prop where
  written : ∃ blanks sign word, token = blanks ++ (sign ++ word) ∧
    (∀ c ∈ blanks, isspace c = true) ∧ (sign = [] ∨ sign = [43]) ∧
    Ordinal names word v

/-- `*`, a number, or two numbers with a minus sign between them. -/
inductive Range (names : List (List UInt8)) (minval maxval : UInt8) :
    List UInt8 → Nat → Nat → Prop
  | all : Range names minval maxval [42] minval.toNat maxval.toNat
  | single {text : List UInt8} {v : Nat} :
      45 ∉ text → Number names text v → Range names minval maxval text v v
  | between {text low high : List UInt8} {first last : Nat} :
      split 45 text = [low, high] → Number names low first →
      Number names high last → Range names minval maxval text first last

structure Item where
  first : Nat
  last : Nat
  step : Nat

/-- The values `a`, `a + d`, `a + 2d`, ... up to the last one. -/
def Item.Denotes (item : Item) (v : Nat) : Prop :=
  ∃ k, v = item.first + k * item.step ∧ v ≤ item.last

structure Item.Valid (minval maxval : UInt8) (item : Item) : Prop where
  least : minval.toNat ≤ item.first
  ordered : item.first ≤ item.last
  greatest : item.last ≤ maxval.toNat
  positive : 0 < item.step

/-- A range, or a range and an increment with a slash between them. -/
inductive Reads (names : List (List UInt8)) (minval maxval : UInt8) :
    List UInt8 → Item → Prop
  | range {text : List UInt8} {first last : Nat} :
      47 ∉ text → Range names minval maxval text first last →
      Reads names minval maxval text ⟨first, last, 1⟩
  | upward {text base increment : List UInt8} {first last step : Nat} :
      split 47 text = [base, increment] → 45 ∉ base →
      Range names minval maxval base first last →
      Number names increment step →
      Reads names minval maxval text ⟨first, maxval.toNat, step⟩
  | within {text base increment : List UInt8} {first last step : Nat} :
      split 47 text = [base, increment] → 45 ∈ base →
      Range names minval maxval base first last →
      Number names increment step →
      Reads names minval maxval text ⟨first, last, step⟩

/-- The items that a field consists of, all in range. -/
structure Consists (names : List (List UInt8)) (minval maxval : UInt8)
    (value : List UInt8) (items : List Item) : Prop where
  reads : List.Forall₂ (Reads names minval maxval) (sepstr 44 value) items
  valid : ∀ item ∈ items, item.Valid minval maxval

/-- The part as the loops of the field see it. -/
def Renamed (names : List (List UInt8)) (part part' : List UInt8) : Prop :=
  (names = [] ∧ part' = part) ∨ Replaced names (upper part) part'

section Renaming

variable {names : List (List UInt8)} {sep : UInt8}
  {text text' : List UInt8}

theorem toupper_eq_iff {c : UInt8} (separator : Separator sep)
    (noLower : ¬ (97 ≤ sep ∧ sep ≤ 122)) : toupper c = sep ↔ c = sep := by
  rw [toupper]
  split
  · next lower =>
      constructor
      · rintro rfl
        refine absurd ?_ separator.noLetter
        simp only [UInt8.le_iff_toNat_le] at lower ⊢
        rw [UInt8.toNat_sub_of_le c 32
          (UInt8.le_iff_toNat_le.mpr (Nat.le_trans (by decide) lower.1))]
        have least : 97 ≤ c.toNat := lower.1
        have most : c.toNat ≤ 122 := lower.2
        exact ⟨show 65 ≤ c.toNat - 32 by omega,
          show c.toNat - 32 ≤ 90 by omega⟩
      · rintro rfl
        exact absurd lower noLower
  · exact Iff.rfl

/-- A separator in either case of letters. -/
structure Mark (sep : UInt8) : Prop where
  separator : Separator sep
  noLower : ¬ (97 ≤ sep ∧ sep ≤ 122)

theorem mark_iff : Mark sep ↔ ¬ (65 ≤ sep ∧ sep ≤ 90) ∧
    isDigit sep = false ∧ ¬ (97 ≤ sep ∧ sep ≤ 122) :=
  ⟨fun mark => ⟨mark.1.1, mark.1.2, mark.2⟩, fun h => ⟨⟨h.1, h.2.1⟩, h.2.2⟩⟩

theorem mark_comma : Mark 44 := mark_iff.mpr (by decide)

theorem mark_minus : Mark 45 := mark_iff.mpr (by decide)

theorem mark_slash : Mark 47 := mark_iff.mpr (by decide)

theorem mark_star : Mark 42 := mark_iff.mpr (by decide)

theorem mark_question : Mark 63 := mark_iff.mpr (by decide)

theorem mem_upper (mark : Mark sep) : sep ∈ upper text ↔ sep ∈ text := by
  rw [upper, List.mem_map]
  constructor
  · rintro ⟨c, member, same⟩
    rwa [(toupper_eq_iff mark.separator mark.noLower).mp same] at member
  · intro member
    exact ⟨sep, member, (toupper_eq_iff mark.separator mark.noLower).mpr rfl⟩

theorem split_upper (mark : Mark sep) (text : List UInt8) :
    split sep (upper text) = (split sep text).map upper :=
  split_map (fun _ => toupper_eq_iff mark.separator mark.noLower) text

theorem Renamed.split (isNames : Names names) (mark : Mark sep)
    (renamed : Renamed names text text') :
    List.Forall₂ (Renamed names) (split sep text) (split sep text') := by
  rcases renamed with ⟨none, rfl⟩ | replaced
  · exact List.forall₂_same.mpr fun _ _ => Or.inl ⟨none, rfl⟩
  · have parts := replaced.split isNames mark.separator
    rw [split_upper mark, List.forall₂_map_left_iff] at parts
    exact parts.imp fun _ _ replaced => Or.inr replaced

theorem Renamed.eq_nil (isNames : Names names)
    (renamed : Renamed names text text') : text' = [] ↔ text = [] := by
  rcases renamed with ⟨_, rfl⟩ | replaced
  · rfl
  · rw [replaced.eq_nil isNames, upper, List.map_eq_nil_iff]

theorem Renamed.sepstr (isNames : Names names) (mark : Mark sep)
    (renamed : Renamed names text text') :
    List.Forall₂ (Renamed names) (sepstr sep text) (sepstr sep text') := by
  refine List.rel_filter ?_ (renamed.split isNames mark)
  intro part part' head
  simp only [decide_eq_true_eq, ne_eq, head.eq_nil isNames]

theorem Renamed.mem (isNames : Names names) (mark : Mark sep)
    (renamed : Renamed names text text') : sep ∈ text' ↔ sep ∈ text := by
  rcases renamed with ⟨_, rfl⟩ | replaced
  · rfl
  · rw [replaced.mem isNames mark.separator, mem_upper mark]

/-- A mark alone stays. -/
theorem Renamed.mark (isNames : Names names) (mark : Mark sep)
    (renamed : Renamed names [sep] text') : text' = [sep] := by
  rcases renamed with ⟨_, rfl⟩ | replaced
  · rfl
  · have same : upper [sep] = [sep] := by
      rw [upper, List.map_singleton,
        (toupper_eq_iff mark.separator mark.noLower).mpr rfl]
    rw [same] at replaced
    refine replaced.of_no_letter isNames fun c member => ?_
    rw [List.mem_singleton.mp member]
    exact mark.separator.noLetter

end Renaming

/-- What may stand in front of a number. -/
structure Front (front : List UInt8) : Prop where
  parts : ∃ blanks sign, front = blanks ++ sign ∧
    (∀ c ∈ blanks, isspace c = true) ∧ (sign = [] ∨ sign = [43])

section Numbers

variable {front word text : List UInt8}

theorem digit_bounds {c : UInt8} (digit : isDigit c = true) :
    48 ≤ c ∧ c ≤ 57 := by
  simpa only [isDigit, decide_eq_true_eq] using digit

theorem Front.byte (isFront : Front front) {c : UInt8} (member : c ∈ front) :
    isspace c = true ∨ c = 43 := by
  obtain ⟨blanks, sign, rfl, spaces, signed⟩ := isFront
  rcases List.mem_append.mp member with member | member
  · exact Or.inl (spaces c member)
  · rcases signed with rfl | rfl
    · exact absurd member List.not_mem_nil
    · exact Or.inr (List.mem_singleton.mp member)

theorem front_byte_small {c : UInt8} (byte : isspace c = true ∨ c = 43) :
    c ≠ 0 ∧ c ≠ 42 ∧ ¬ (65 ≤ c ∧ c ≤ 90) ∧ ¬ (97 ≤ c ∧ c ≤ 122) := by
  rcases byte with space | rfl
  · simp only [isspace, decide_eq_true_eq] at space
    rcases space with rfl | ⟨above, below⟩
    · decide
    · have least : 9 ≤ c.toNat := above
      have most : c.toNat ≤ 13 := below
      simp only [UInt8.le_iff_toNat_le, ne_eq, UInt8.toNat_inj.symm]
      refine ⟨?_, ?_, ?_, ?_⟩
      · show ¬ c.toNat = 0
        omega
      · show ¬ c.toNat = 42
        omega
      · show ¬ (65 ≤ c.toNat ∧ c.toNat ≤ 90)
        omega
      · show ¬ (97 ≤ c.toNat ∧ c.toNat ≤ 122)
        omega
  · decide

/-- A word that `stoul` does not skip. -/
def Stays (word : List UInt8) : Prop :=
  ∀ c ∈ word.head?, isspace c = false ∧ c ≠ 43 ∧ c ≠ 45

/-- The number in the digits that a word begins with. -/
def leading (word : List UInt8) : Option Nat :=
  if word.takeWhile (isDigit ·) = [] then
    none
  else if numbered (0 : Nat) (word.takeWhile (isDigit ·)) ≥ 2 ^ 64 then
    none
  else
    some (numbered (0 : Nat) (word.takeWhile (isDigit ·)))

theorem Stays.dropWhile (stays : Stays word) :
    word.dropWhile isspace = word := by
  cases word with
  | nil => rfl
  | cons c word =>
      have other := (stays c rfl).1
      rw [List.dropWhile_cons_of_neg (by simp [other])]

theorem Stays.head? (stays : Stays word) :
    word.head? ≠ some 45 ∧ word.head? ≠ some 43 := by
  constructor
  · intro head
    exact (stays 45 head).2.2 rfl
  · intro head
    exact (stays 43 head).2.1 rfl

/-- Behind what may stand in front of it, `stoul` reads the digits. -/
theorem stoul_front (isFront : Front front) (stays : Stays word) :
    stoul (front ++ word) = leading word := by
  obtain ⟨blanks, sign, rfl, spaces, signed⟩ := isFront
  have skipped :
      (blanks ++ sign ++ word).dropWhile isspace = sign ++ word := by
    rw [List.append_assoc, List.dropWhile_append_of_pos spaces]
    rcases signed with rfl | rfl
    · exact stays.dropWhile
    · rfl
  rw [stoul]
  simp only [skipped]
  rcases signed with rfl | rfl
  · simp [stays.head?, leading]
  · simp [leading]

theorem Front.nonzero (isFront : Front front) (noZero : 0 ∉ word) :
    (front ++ word).takeWhile (· ≠ 0) = front ++ word := by
  refine List.takeWhile_eq_self_iff.mpr fun c member => ?_
  rcases List.mem_append.mp member with member | member
  · simpa using (front_byte_small (isFront.byte member)).1
  · simpa using fun zero : c = 0 => noZero (zero ▸ member)

theorem to_cron_int_front (isFront : Front front) (stays : Stays word)
    (noZero : 0 ∉ word) {u : UInt8}
    (read : to_cron_int (front ++ word) = .ok u) :
    ∃ value, leading word = some value ∧ u.toNat = value % 256 := by
  rw [to_cron_int, isFront.nonzero noZero, stoul_front isFront stays] at read
  cases number : leading word with
  | none =>
      rw [number] at read
      cases read
  | some value =>
      rw [number] at read
      cases read
      exact ⟨value, rfl, UInt8.toNat_ofNat'⟩

theorem stays_digits (digits : ∀ c ∈ word, isDigit c = true) : Stays word := by
  intro c head
  have bounds := digit_bounds (digits c (List.mem_of_mem_head? head))
  simp only [UInt8.le_iff_toNat_le] at bounds
  have least : 48 ≤ c.toNat := bounds.1
  have most : c.toNat ≤ 57 := bounds.2
  refine ⟨?_, ?_, ?_⟩
  · simp only [isspace, decide_eq_false_iff_not, UInt8.le_iff_toNat_le,
      UInt8.toNat_inj.symm]
    show ¬ (c.toNat = 32 ∨ 9 ≤ c.toNat ∧ c.toNat ≤ 13)
    omega
  · rintro rfl
    exact absurd least (by decide)
  · rintro rfl
    exact absurd least (by decide)

/-- A name begins with no number. -/
theorem leading_name {name : List UInt8} (isName : Name name) :
    Stays name ∧ 0 ∉ name ∧ leading name = none := by
  obtain ⟨c, rest, rfl⟩ := List.exists_cons_of_length_eq_add_one isName.three
  have letter := isName.letters c List.mem_cons_self
  simp only [UInt8.le_iff_toNat_le] at letter
  have least : 65 ≤ c.toNat := letter.1
  refine ⟨?_, ?_, ?_⟩
  · rintro d head
    cases head
    refine ⟨?_, ?_, ?_⟩
    · simp only [isspace, decide_eq_false_iff_not, UInt8.le_iff_toNat_le,
        UInt8.toNat_inj.symm]
      show ¬ (c.toNat = 32 ∨ 9 ≤ c.toNat ∧ c.toNat ≤ 13)
      omega
    · rintro rfl
      exact absurd least (by decide)
    · rintro rfl
      exact absurd least (by decide)
  · intro member
    exact absurd (isName.letters 0 member).1 (by decide)
  · have other : ¬ isDigit c = true := by
      intro digit
      have most : c.toNat ≤ 57 :=
        UInt8.le_iff_toNat_le.mp (digit_bounds digit).2
      omega
    rw [leading, List.takeWhile_cons_of_neg other, if_pos rfl]

theorem leading_digits (nonempty : word ≠ [])
    (digits : ∀ c ∈ word, isDigit c = true) {value : Nat}
    (read : leading word = some value) : value = numbered (0 : Nat) word := by
  rw [leading, List.takeWhile_eq_self_iff.mpr digits, if_neg nonempty] at read
  split at read
  · cases read
  · exact (Option.some.inj read).symm

theorem read_digits (isFront : Front front) (nonempty : word ≠ [])
    (digits : ∀ c ∈ word, isDigit c = true) {u : UInt8}
    (read : to_cron_int (front ++ word) = .ok u) :
    u.toNat = numbered (0 : Nat) word % 256 := by
  have noZero : 0 ∉ word := by
    intro member
    exact absurd (digit_bounds (digits 0 member)).1 (by decide)
  obtain ⟨value, number, low⟩ :=
    to_cron_int_front isFront (stays_digits digits) noZero read
  rw [low, leading_digits nonempty digits number]

end Numbers

section Tokens

variable {names : List (List UInt8)} {token part : List UInt8} {v : Nat}

theorem toupper_of_not_lower {c : UInt8} (noLower : ¬ (97 ≤ c ∧ c ≤ 122)) :
    toupper c = c :=
  if_neg noLower

theorem upper_of_no_lower {text : List UInt8}
    (noLower : ∀ c ∈ text, ¬ (97 ≤ c ∧ c ≤ 122)) : upper text = text :=
  (List.map_congr_left fun c member =>
    toupper_of_not_lower (noLower c member)).trans (List.map_id text)

theorem digit_no_letter {c : UInt8} (digit : isDigit c = true) :
    ¬ (65 ≤ c ∧ c ≤ 90) ∧ ¬ (97 ≤ c ∧ c ≤ 122) := by
  have most := (digit_bounds digit).2
  refine ⟨fun letter => ?_, fun letter => ?_⟩
  · exact absurd (UInt8.le_trans letter.1 most) (by decide)
  · exact absurd (UInt8.le_trans letter.1 most) (by decide)

/-- A number is read modulo 256, or not at all. -/
theorem Number.read (isNames : Names names) (number : Number names token v)
    (renamed : Renamed names token part) {u : UInt8}
    (read : to_cron_int part = .ok u) : u.toNat = v % 256 := by
  obtain ⟨blanks, sign, word, rfl, spaces, signed, ordinal⟩ := number
  have isFront : Front (blanks ++ sign) :=
    ⟨blanks, sign, rfl, spaces, signed⟩
  rw [← List.append_assoc] at renamed
  have frontUpper : upper (blanks ++ sign) = blanks ++ sign :=
    upper_of_no_lower fun c member =>
      (front_byte_small (isFront.byte member)).2.2.2
  have frontLetter : ∀ c ∈ blanks ++ sign, ¬ (65 ≤ c ∧ c ≤ 90) :=
    fun c member => (front_byte_small (isFront.byte member)).2.2.1
  rcases ordinal with ⟨nonempty, digits, rfl⟩ | named
  · have same : part = blanks ++ sign ++ word := by
      rcases renamed with ⟨_, rfl⟩ | replaced
      · rfl
      · have noLower : ∀ c ∈ word, ¬ (97 ≤ c ∧ c ≤ 122) :=
          fun c member => (digit_no_letter (digits c member)).2
        rw [upper, List.map_append] at replaced
        have whole : (blanks ++ sign).map toupper ++ word.map toupper =
            blanks ++ sign ++ word :=
          congrArg₂ _ frontUpper (upper_of_no_lower noLower)
        rw [whole] at replaced
        refine replaced.of_no_letter isNames fun c member => ?_
        rcases List.mem_append.mp member with member | member
        · exact frontLetter c member
        · exact (digit_no_letter (digits c member)).1
    rw [same] at read
    exact read_digits isFront nonempty digits read
  · rcases renamed with ⟨none, _⟩ | replaced
    · rw [none] at named
      cases named
    · have whole : upper (blanks ++ sign ++ word) =
          blanks ++ sign ++ upper word := by
        rw [upper, List.map_append]
        exact congrArg₂ _ frontUpper rfl
      rw [whole] at replaced
      have isName := isNames.each _ (List.mem_of_getElem? named)
      rcases replaced.of_name isNames named frontLetter with rfl | rfl
      · obtain ⟨stays, noZero, missing⟩ := leading_name isName
        obtain ⟨value, found, _⟩ :=
          to_cron_int_front isFront stays noZero read
        rw [missing] at found
        cases found
      · obtain ⟨nonempty, digits⟩ := decimal_digits v
        rw [read_digits isFront nonempty digits read, numbered_decimal]
        rfl

theorem Number.nonempty (isNames : Names names)
    (number : Number names token v) : token ≠ [] := by
  obtain ⟨blanks, sign, word, rfl, _, _, ordinal⟩ := number
  have someWord : word ≠ [] := by
    rcases ordinal with ⟨nonempty, _, _⟩ | named
    · exact nonempty
    · rintro rfl
      have three := (isNames.each _ (List.mem_of_getElem? named)).three
      cases three
  simp [someWord]

/-- No star stands in a number. -/
theorem Number.no_star (isNames : Names names)
    (number : Number names token v) : 42 ∉ token := by
  obtain ⟨blanks, sign, word, rfl, spaces, signed, ordinal⟩ := number
  have isFront : Front (blanks ++ sign) :=
    ⟨blanks, sign, rfl, spaces, signed⟩
  rw [← List.append_assoc]
  intro member
  rcases List.mem_append.mp member with member | member
  · exact (front_byte_small (isFront.byte member)).2.1 rfl
  · rcases ordinal with ⟨_, digits, _⟩ | named
    · exact absurd (digit_bounds (digits 42 member)).1 (by decide)
    · have isName := isNames.each _ (List.mem_of_getElem? named)
      exact mark_star.separator.absent_name isName
        ((mem_upper mark_star).mpr member)

end Tokens

section Items

variable {names : List (List UInt8)} {minval maxval : UInt8}
  {text text' : List UInt8}

theorem Range.nonempty (isNames : Names names) {first last : Nat}
    (range : Range names minval maxval text first last) : text ≠ [] := by
  cases range with
  | all => exact List.cons_ne_nil _ _
  | single _ number => exact number.nonempty isNames
  | between parted _ _ =>
      rintro rfl
      cases parted

/-- Two parts that are not empty are what `sepstr` finds. -/
theorem Renamed.two (isNames : Names names) {sep : UInt8} (mark : Mark sep)
    (renamed : Renamed names text text') {left right : List UInt8}
    (parted : Cron.split sep text = [left, right]) (someLeft : left ≠ [])
    (someRight : right ≠ []) :
    ∃ left' right', Cron.sepstr sep text' = [left', right'] ∧ sep ∈ text' ∧
      Renamed names left left' ∧ Renamed names right right' := by
  have parts := renamed.split isNames mark
  rw [parted] at parts
  obtain ⟨left', rest', first, others, shape⟩ :=
    List.forall₂_cons_left_iff.mp parts
  obtain ⟨right', rest'', second, others', rfl⟩ :=
    List.forall₂_cons_left_iff.mp others
  rw [List.forall₂_nil_left_iff.mp others'] at shape
  refine ⟨left', right', ?_, ?_, first, second⟩
  · exact sepstr_of_split shape
      (fun empty => someLeft ((first.eq_nil isNames).mp empty))
      (fun empty => someRight ((second.eq_nil isNames).mp empty))
  · by_contra absent
    have whole : Cron.split sep (text' ++ []) = [text' ++ []] :=
      split_append absent rfl
    rw [List.append_nil, shape] at whole
    cases whole

/-- The ends of a range are read modulo 256. -/
theorem Range.read (isNames : Names names) {first last : Nat}
    (range : Range names minval maxval text first last)
    (renamed : Renamed names text text') {f l : UInt8}
    (read : rangeEnds text' minval maxval = .ok (f, l)) :
    f.toNat = first % 256 ∧ l.toNat = last % 256 := by
  have narrow : ∀ u : UInt8, u.toNat = u.toNat % 256 := fun u =>
    (Nat.mod_eq_of_lt u.toNat_lt).symm
  rw [rangeEnds] at read
  cases range with
  | all =>
      rw [renamed.mark isNames mark_star, if_pos rfl] at read
      cases read
      exact ⟨narrow _, narrow _⟩
  | single noMinus number =>
      have noStar : text' ≠ [42] := by
        rintro rfl
        exact number.no_star isNames
          ((renamed.mem isNames mark_star).mp (List.mem_singleton_self _))
      have noMinus' : 45 ∉ text' := fun member =>
        noMinus ((renamed.mem isNames mark_minus).mp member)
      rw [if_neg noStar, if_pos noMinus'] at read
      cases value : to_cron_int text' with
      | error failure =>
          rw [value] at read
          cases read
      | ok u =>
          rw [value] at read
          cases read
          have low := number.read isNames renamed value
          exact ⟨low, low⟩
  | between parted low high =>
      obtain ⟨low', high', parted', minus, lowRenamed, highRenamed⟩ :=
        renamed.two isNames mark_minus parted (low.nonempty isNames)
          (high.nonempty isNames)
      have noStar : text' ≠ [42] := by
        rintro rfl
        exact absurd (List.mem_singleton.mp minus) (by decide)
      rw [if_neg noStar, if_neg (not_not_intro minus), parted'] at read
      dsimp only at read
      cases value : to_cron_int low' with
      | error failure =>
          rw [value] at read
          cases read
      | ok u =>
          cases value' : to_cron_int high' with
          | error failure =>
              rw [value, value'] at read
              cases read
          | ok u' =>
              rw [value, value'] at read
              cases read
              exact ⟨low.read isNames lowRenamed value,
                high.read isNames highRenamed value'⟩

theorem makeRange_ends {f l : UInt8}
    (read : makeRange text minval maxval = .ok (f, l)) :
    rangeEnds text minval maxval = .ok (f, l) := by
  rw [makeRange] at read
  cases ends : rangeEnds text minval maxval with
  | error failure =>
      rw [ends] at read
      cases read
  | ok range =>
      obtain ⟨f', l'⟩ := range
      rw [ends, ok_bind] at read
      dsimp only at read
      split at read
      · cases read
      · split at read
        · cases read
        · split at read
          · cases read
          · cases read
            rfl

/-- An item is read as its values modulo 256. -/
theorem Reads.read (isNames : Names names) {item : Item}
    (reads : Reads names minval maxval text item)
    (renamed : Renamed names text text') {f l d : UInt8}
    (read : itemOf text' minval maxval = .ok (f, l, d)) :
    f.toNat = item.first % 256 ∧ l.toNat = item.last % 256 ∧
      d.toNat = item.step % 256 := by
  have stepwise : ∀ {base increment : List UInt8} {first last step : Nat},
      Cron.split 47 text = [base, increment] →
      Range names minval maxval base first last →
      Number names increment step →
      f.toNat = first % 256 ∧ d.toNat = step % 256 ∧
        (45 ∈ base → l.toNat = last % 256) ∧ (45 ∉ base → l = maxval) := by
    intro base increment first last step parted range number
    obtain ⟨base', increment', parted', slash, baseRenamed, stepRenamed⟩ :=
      renamed.two isNames mark_slash parted (range.nonempty isNames)
        (number.nonempty isNames)
    rw [itemOf, if_neg (not_not_intro slash), parted'] at read
    dsimp only at read
    cases made : makeRange base' minval maxval with
    | error failure =>
        rw [made] at read
        cases read
    | ok ends =>
        obtain ⟨f', l'⟩ := ends
        rw [made, ok_bind] at read
        dsimp only at read
        cases delta : to_cron_int increment' with
        | error failure =>
            rw [delta] at read
            cases read
        | ok u =>
            rw [delta, ok_bind] at read
            have bounds :=
              range.read isNames baseRenamed (makeRange_ends made)
            have low := number.read isNames stepRenamed delta
            have minus := baseRenamed.mem isNames mark_minus
            split at read
            · cases read
            · cases read
              refine ⟨bounds.1, low, fun inside => ?_, fun outside => ?_⟩
              · rw [if_neg (not_not_intro (minus.mpr inside))]
                exact bounds.2
              · exact if_pos fun member => outside (minus.mp member)
  cases reads with
  | range noSlash range =>
      have noSlash' : 47 ∉ text' := fun member =>
        noSlash ((renamed.mem isNames mark_slash).mp member)
      rw [itemOf, if_pos noSlash'] at read
      cases made : makeRange text' minval maxval with
      | error failure =>
          rw [made] at read
          cases read
      | ok ends =>
          rw [made] at read
          cases read
          have bounds := range.read isNames renamed (makeRange_ends made)
          exact ⟨bounds.1, bounds.2, rfl⟩
  | upward parted noMinus range number =>
      obtain ⟨first, step, _, last⟩ := stepwise parted range number
      rw [last noMinus]
      exact ⟨first, (Nat.mod_eq_of_lt maxval.toNat_lt).symm, step⟩
  | within parted minus range number =>
      obtain ⟨first, step, last, _⟩ := stepwise parted range number
      exact ⟨first, last minus, step⟩

end Items

end TarsCpp.Cron
