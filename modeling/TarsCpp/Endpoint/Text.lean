import TarsCpp.Endpoint.Endpoint

/-!
# What `parse` makes of `toString`

The words of the text of an endpoint, and the endpoint that `parse` gets from
them.  It is the one that was written if the fields that `toString` leaves out
have the values that `parse` assumes, and if no number is negative.
-/

namespace TarsCpp.Endpoint

open CString

/-- An IPv4 address or a name. -/
structure IsName (host : List UInt8) : Prop where
  some_ : host ≠ []
  solid : ∀ c ∈ host, isBlank c = false ∧ c ≠ 58
  noOption : host.head? ≠ some 45
  noWildcard : host ≠ ascii "*"

def isHex (c : UInt8) : Bool :=
  isDigit c ∨ 65 ≤ c ∧ c ≤ 70 ∨ 97 ≤ c ∧ c ≤ 102

/-- Hexadecimal digits, colons and dots, and at least one colon. -/
structure IsIPv6 (host : List UInt8) : Prop where
  colon : 58 ∈ host
  letters : ∀ c ∈ host, isHex c ∨ c = 58 ∨ c = 46

/-- The endpoints of a registry answer. -/
structure TC_Endpoint.WellFormed (ep : TC_Endpoint) : Prop where
  host : IsName ep.host ∨ IsIPv6 ep.host
  port : 0 ≤ ep.port.toInt ∧ ep.port.toInt ≤ 65535
  isIPv6 : ep.isIPv6 = addressIsIPv6 ep.host

/-- A set division is empty or a name such as `app.sz.1`. -/
structure IsSetDivision (setDivision : List UInt8) : Prop where
  solid : ∀ c ∈ setDivision, isBlank c = false ∧ c ≠ 58
  noOption : setDivision.head? ≠ some 45

structure EndpointInfo.WellFormed (info : EndpointInfo) : Prop where
  ep : info.ep.WellFormed
  setDivision : IsSetDivision info.setDivision

theorem letter_cases {c : UInt8} (letter : isHex c ∨ c = 58 ∨ c = 46) :
    isBlank c = false ∧ c ≠ 45 ∧ c ≠ 42 := by
  have table : ∀ n : Fin 256, (isHex (UInt8.ofFin n) ∨ UInt8.ofFin n = 58 ∨
      UInt8.ofFin n = 46) → isBlank (UInt8.ofFin n) = false ∧
      UInt8.ofFin n ≠ 45 ∧ UInt8.ofFin n ≠ 42 := by decide +kernel
  have this := table c.toFin
  rw [UInt8.ofFin_toFin] at this
  exact this letter

theorem digit_cases {c : UInt8} (digit : isDigit c) :
    isBlank c = false ∧ c ≠ 45 ∧ c ≠ 58 ∧ c ≠ 43 := by
  have table : ∀ n : Fin 256, isDigit (UInt8.ofFin n) →
      isBlank (UInt8.ofFin n) = false ∧ UInt8.ofFin n ≠ 45 ∧
      UInt8.ofFin n ≠ 58 ∧ UInt8.ofFin n ≠ 43 := by decide +kernel
  have this := table c.toFin
  rw [UInt8.ofFin_toFin] at this
  exact this digit

section Hosts

variable {host : List UInt8}

theorem TC_Endpoint.WellFormed.solid {ep : TC_Endpoint}
    (wellFormed : ep.WellFormed) : ep.host ≠ [] ∧
      (∀ c ∈ ep.host, isBlank c = false) ∧ ep.host.head? ≠ some 45 ∧
      ep.host ≠ ascii "*" := by
  rcases wellFormed.host with name | address
  · exact ⟨name.some_, fun c member => (name.solid c member).1, name.noOption,
      name.noWildcard⟩
  · have some_ := List.ne_nil_of_mem address.colon
    refine ⟨some_, fun c member => (letter_cases (address.letters c member)).1,
      fun hyphen => ?_, fun wildcard => ?_⟩
    · have member := List.mem_of_head? hyphen
      exact (letter_cases (address.letters 45 member)).2.1 rfl
    · have member : (42 : UInt8) ∈ ep.host := by
        rw [wildcard]
        decide
      exact (letter_cases (address.letters 42 member)).2.2 rfl

end Hosts

def optionWords (given : Bool) (letter : UInt8) (text : List UInt8) :
    List (List UInt8) :=
  if given then [[45, letter], text] else []

theorem words_optionText {front text : List UInt8} {letter : UInt8}
    (given : Bool) (letter_ : isBlank letter = false)
    (solid : ∀ c ∈ text, isBlank c = false) (some_ : text ≠ []) :
    words isBlank (front ++ optionText given letter text) =
      words isBlank front ++ optionWords given letter text := by
  cases given with
  | false => simp [optionText, optionWords]
  | true =>
      have hyphen : ∀ c ∈ [45, letter], isBlank c = false := by
        simp only [List.forall_mem_cons, List.not_mem_nil, false_implies,
          implies_true, and_true]
        exact ⟨by decide, letter_⟩
      have shape : front ++ optionText true letter text =
          front ++ 32 :: ([45, letter] ++ 32 :: text) := rfl
      rw [shape, words_append_cons (by decide), words_append_cons (by decide),
        words_of_forall hyphen (List.cons_ne_nil _ _),
        words_of_forall solid some_]
      rfl

theorem decimal_solid (n : Nat) :
    (∀ c ∈ decimal n, isBlank c = false) ∧ decimal n ≠ [] :=
  ⟨fun c member => (digit_cases ((decimal_digits n).2 c member)).1,
    (decimal_digits n).1⟩

theorem decimalInt_solid (n : Int) :
    (∀ c ∈ decimalInt n, isBlank c = false) ∧ decimalInt n ≠ [] := by
  obtain ⟨solid, some_⟩ := decimal_solid n.natAbs
  rw [decimalInt]
  split
  · refine ⟨fun c member => ?_, List.cons_ne_nil _ _⟩
    rcases List.mem_cons.mp member with rfl | member
    · decide
    · exact solid c member
  · exact ⟨solid, some_⟩

/-- The words of the options of an endpoint. -/
def TC_Endpoint.options (ep : TC_Endpoint) : List (List UInt8) :=
  optionWords true 104 ep.host ++
    optionWords true 112 (decimalInt ep.port.toInt) ++
    optionWords (ep.timeout ≠ 0) 116 (decimalInt ep.timeout.toInt) ++
    optionWords (ep.grid ≠ 0) 103 (decimalInt ep.grid.toInt) ++
    optionWords (ep.qos ≠ 0) 113 (decimalInt ep.qos.toInt) ++
    optionWords (0 < ep.weight.toInt) 119 (decimalInt ep.weight.toInt) ++
    optionWords (ep.weighttype ≠ 0) 118 (decimal ep.weighttype.toNat) ++
    optionWords (ep.authType.code ≠ 0) 101 (decimal ep.authType.code)

theorem words_toString {ep : TC_Endpoint} (wellFormed : ep.WellFormed) :
    words isBlank ep.toString = ep.type.name :: ep.options := by
  obtain ⟨some_, solid, -, -⟩ := wellFormed.solid
  have number := decimalInt_solid
  have count := decimal_solid
  have name : words isBlank ep.type.name = [ep.type.name] := by
    cases ep.type <;> decide
  rw [TC_Endpoint.toString]
  rw [words_optionText _ (by decide) (count _).1 (count _).2,
    words_optionText _ (by decide) (count _).1 (count _).2,
    words_optionText _ (by decide) (number _).1 (number _).2,
    words_optionText _ (by decide) (number _).1 (number _).2,
    words_optionText _ (by decide) (number _).1 (number _).2,
    words_optionText _ (by decide) (number _).1 (number _).2,
    words_optionText _ (by decide) (number _).1 (number _).2,
    words_optionText _ (by decide) solid some_, name]
  simp only [TC_Endpoint.options, List.append_assoc, List.singleton_append]
  rfl

/-- The set division is written as one more option. -/
theorem EndpointInfo.words_text {info : EndpointInfo}
    (wellFormed : info.WellFormed) :
    words isBlank info.text = info.ep.type.name :: (info.ep.options ++
      optionWords (info.setDivision ≠ []) 115 info.setDivision) := by
  have shape : info.text = info.ep.toString ++
      optionText (info.setDivision ≠ []) 115 info.setDivision := by
    rw [text, optionText]
    by_cases empty : info.setDivision = []
    · simp [empty]
    · rw [if_neg empty, if_pos (by simpa using empty)]
      rfl
  rw [shape]
  by_cases empty : info.setDivision = []
  · simp [empty, optionText, optionWords, words_toString wellFormed.ep]
  · rw [words_optionText _ (by decide)
      (fun c member => (wellFormed.setDivision.solid c member).1) empty,
      words_toString wellFormed.ep, List.cons_append]

theorem signedDigits_decimal (n : Nat) :
    signedDigits (decimal n) = some (false, n) := by
  obtain ⟨some_, digits⟩ := (decimal_digits n)
  obtain ⟨c, rest, shape⟩ := List.exists_cons_of_ne_nil some_
  have digit := digit_cases (digits c (by rw [shape]; exact List.mem_cons_self))
  have all : (decimal n).all isDigit := List.all_eq_true.mpr digits
  have value : numbered (0 : Nat) (decimal n) = n := numbered_decimal n
  rw [shape] at all value
  rw [signedDigits, shape]
  simp only [List.head?_cons, Option.some.injEq, digit.2.1, digit.2.2.2,
    decide_false, or_self, if_false, all, value]
  simp

theorem decimalInt_nonneg {n : Int} (nonneg : 0 ≤ n) :
    decimalInt n = decimal n.toNat := by
  rw [decimalInt, if_neg (by omega)]
  congr 1
  omega

theorem extractInt_decimal {value : BitVec 32} (nonneg : 0 ≤ value.toInt) :
    extractInt (decimalInt value.toInt) = some value := by
  have whole : ((value.toInt.toNat : Nat) : Int) = value.toInt := by omega
  rw [decimalInt_nonneg nonneg, extractInt, signedDigits_decimal]
  simp only [Option.bind_eq_bind, Option.bind_some, Bool.false_eq_true,
    if_false, whole, BitVec.ofInt_toInt, if_true]

theorem extractUnsigned_decimal (value : BitVec 32) :
    extractUnsigned (decimal value.toNat) = some value := by
  rw [extractUnsigned, signedDigits_decimal]
  simp only [Option.bind_eq_bind, Option.bind_some, Bool.false_eq_true,
    if_false]
  rw [if_pos value.isLt, BitVec.ofNat_toNat, BitVec.setWidth_eq]

section Options

variable {str text : List UInt8} {ep ep' : TC_Endpoint} {letter : UInt8}
  {rest : List (List UInt8)}

theorem parseOptions_argument (noOption : text.head? ≠ some 45)
    (set : setOption str ep letter text = .ok ep') :
    parseOptions str ([45, letter] :: text :: rest) ep =
      parseOptions str rest ep' := by
  rw [parseOptions, optionLetter, orThrow]
  simp only [bind, Except.bind, if_neg noOption, set]

theorem parseOptions_negative {message : List UInt8} (hyphen : text.head? = some 45)
    (failed : setOption str ep letter [] = .error message) :
    parseOptions str ([45, letter] :: text :: rest) ep = .error message := by
  rw [parseOptions, optionLetter, orThrow]
  simp only [bind, Except.bind, if_pos hyphen, failed]

theorem parseOptions_given {given : Bool} (ep' : TC_Endpoint)
    (noOption : text.head? ≠ some 45)
    (set : given → setOption str ep letter text = .ok ep')
    (omitted : given = false → ep' = ep) :
    parseOptions str (optionWords given letter text ++ rest) ep =
      parseOptions str rest ep' := by
  cases given with
  | true => exact parseOptions_argument noOption (set rfl)
  | false => rw [omitted rfl]; rfl

end Options

/-- No number that is written has a sign. -/
structure TC_Endpoint.Unsigned (ep : TC_Endpoint) : Prop where
  timeout : 0 ≤ ep.timeout.toInt
  grid : 0 ≤ ep.grid.toInt
  qos : 0 ≤ ep.qos.toInt

/-- The endpoint with the values that are assumed for what is left out. -/
def TC_Endpoint.assumed (ep : TC_Endpoint) : TC_Endpoint :=
  { ep with
    timeout := if ep.timeout = 0 then 3000 else ep.timeout
    weight := if 0 < ep.weight.toInt then ep.weight else -1
    isIPv6 := false }

section Whole

variable {ep : TC_Endpoint} {str : List UInt8} {rest : List (List UInt8)}

theorem noOption_int {value : BitVec 32} (nonneg : 0 ≤ value.toInt) :
    (decimalInt value.toInt).head? ≠ some 45 := by
  rw [decimalInt_nonneg nonneg]
  exact decimal_head_ne _

theorem minus_int {value : BitVec 32} (negative : value.toInt < 0) :
    (decimalInt value.toInt).head? = some 45 := by
  rw [decimalInt, if_pos negative]
  rfl

/-- An option with a number that has no sign sets its field. -/
theorem setOption_int {ep : TC_Endpoint} {value : BitVec 32}
    (nonneg : 0 ≤ value.toInt) :
    setOption str ep 116 (decimalInt value.toInt) =
        .ok { ep with timeout := value } ∧
      setOption str ep 103 (decimalInt value.toInt) =
        .ok { ep with grid := value } ∧
      setOption str ep 113 (decimalInt value.toInt) =
        .ok { ep with qos := value } ∧
      setOption str ep 119 (decimalInt value.toInt) =
        .ok { ep with weight := value } := by
  refine ⟨?_, ?_, ?_, ?_⟩ <;>
    simp [setOption, extractInt_decimal nonneg, orThrow, bind, Except.bind]

section Steps

variable (start : TC_Endpoint) {value : BitVec 32}

theorem parse_host {host : List UInt8} (some_ : host ≠ [])
    (noOption : host.head? ≠ some 45) :
    parseOptions str (optionWords true 104 host ++ rest) start =
      parseOptions str rest { start with host := host } :=
  parseOptions_given _ noOption (fun _ => by simp [setOption, some_]) (by simp)

theorem parse_port (range : 0 ≤ value.toInt ∧ value.toInt ≤ 65535) :
    parseOptions str (optionWords true 112 (decimalInt value.toInt) ++ rest)
      start = parseOptions str rest { start with port := value } := by
  have inside : ¬ (value.toInt < 0 ∨ value.toInt > 65535) := by omega
  refine parseOptions_given _ (noOption_int range.1) (fun _ => ?_) (by simp)
  simp [setOption, extractInt_decimal range.1, orThrow, bind, Except.bind,
    inside]

theorem parse_timeout (nonneg : 0 ≤ value.toInt)
    (fresh : start.timeout = 3000) :
    parseOptions str (optionWords (value ≠ 0) 116 (decimalInt value.toInt) ++
      rest) start = parseOptions str rest
        { start with timeout := if value = 0 then 3000 else value } := by
  refine parseOptions_given _ (noOption_int nonneg) (fun given => ?_)
    fun omitted => ?_
  · rw [if_neg (of_decide_eq_true given), (setOption_int nonneg).1]
  · rw [if_pos (not_not.mp (of_decide_eq_false omitted)), ← fresh]

theorem parse_grid (nonneg : 0 ≤ value.toInt) (fresh : start.grid = 0) :
    parseOptions str (optionWords (value ≠ 0) 103 (decimalInt value.toInt) ++
      rest) start = parseOptions str rest { start with grid := value } := by
  refine parseOptions_given _ (noOption_int nonneg)
    (fun _ => (setOption_int nonneg).2.1) fun omitted => ?_
  rw [not_not.mp (of_decide_eq_false omitted), ← fresh]

theorem parse_qos (nonneg : 0 ≤ value.toInt) (fresh : start.qos = 0) :
    parseOptions str (optionWords (value ≠ 0) 113 (decimalInt value.toInt) ++
      rest) start = parseOptions str rest { start with qos := value } := by
  refine parseOptions_given _ (noOption_int nonneg)
    (fun _ => (setOption_int nonneg).2.2.1) fun omitted => ?_
  rw [not_not.mp (of_decide_eq_false omitted), ← fresh]

theorem parse_weight (fresh : start.weight = -1) :
    parseOptions str (optionWords (0 < value.toInt) 119
      (decimalInt value.toInt) ++ rest) start = parseOptions str rest
        { start with weight := if 0 < value.toInt then value else -1 } := by
  by_cases positive : 0 < value.toInt
  · refine parseOptions_given _ (noOption_int positive.le) (fun _ => ?_)
      fun omitted => absurd positive (of_decide_eq_false omitted)
    rw [if_pos positive, (setOption_int positive.le).2.2.2]
  · rw [if_neg positive, ← fresh, decide_eq_false positive]
    rfl

theorem parse_weighttype (fresh : start.weighttype = 0) :
    parseOptions str (optionWords (value ≠ 0) 118 (decimal value.toNat) ++
      rest) start = parseOptions str rest
        { start with weighttype := value } := by
  refine parseOptions_given _ (decimal_head_ne _) (fun _ => ?_)
    fun omitted => ?_
  · simp [setOption, extractUnsigned_decimal, orThrow, bind, Except.bind]
  · rw [not_not.mp (of_decide_eq_false omitted), ← fresh]

theorem parse_authType {authType : AUTH_TYPE}
    (fresh : start.authType = .AUTH_TYPENONE) :
    parseOptions str (optionWords (authType.code ≠ 0) 101
      (decimal authType.code) ++ rest) start = parseOptions str rest
        { start with authType := authType } := by
  refine parseOptions_given _ (decimal_head_ne _) (fun given => ?_)
    fun omitted => ?_
  · cases authType with
    | AUTH_TYPENONE => exact absurd rfl (of_decide_eq_true given)
    | AUTH_TYPELOCAL =>
        have one : extractInt (decimal 1) = some 1 := by
          rw [extractInt, signedDigits_decimal]
          rfl
        simp [setOption, AUTH_TYPE.code, one, orThrow, bind, Except.bind]
  · cases authType with
    | AUTH_TYPENONE => rw [← fresh]
    | AUTH_TYPELOCAL => exact absurd omitted (by decide)

end Steps

theorem parseOptions_options (wellFormed : ep.WellFormed)
    (unsigned : ep.Unsigned) :
    parseOptions str (ep.options ++ rest) { type := ep.type } =
      parseOptions str rest ep.assumed := by
  obtain ⟨some_, -, noOption, -⟩ := wellFormed.solid
  obtain ⟨timeout, grid, qos⟩ := unsigned
  simp only [TC_Endpoint.options, List.append_assoc]
  rw [parse_host _ some_ noOption, parse_port _ wellFormed.port,
    parse_timeout _ timeout rfl, parse_grid _ grid rfl, parse_qos _ qos rfl,
    parse_weight _ rfl, parse_weighttype _ rfl, parse_authType _ rfl]
  rfl

/-- A sign ends the parsing. -/
theorem parseOptions_signed (wellFormed : ep.WellFormed)
    (signed : ¬ ep.Unsigned) : ∃ message,
    parseOptions str (ep.options ++ rest) { type := ep.type } =
      .error message := by
  obtain ⟨some_, -, noOption, -⟩ := wellFormed.solid
  simp only [TC_Endpoint.options, List.append_assoc]
  rw [parse_host _ some_ noOption, parse_port _ wellFormed.port]
  have failing : ∀ {value : BitVec 32} {letter : UInt8} {start : TC_Endpoint}
      {later : List (List UInt8)}, value.toInt < 0 →
      (letter = 116 ∨ letter = 103 ∨ letter = 113) → ∃ message,
      parseOptions str (optionWords (value ≠ 0) letter
        (decimalInt value.toInt) ++ later) start = .error message := by
    intro value letter start later negative number
    have given : value ≠ 0 := by
      rintro rfl
      exact absurd negative (by decide)
    rw [decide_eq_true given]
    rcases number with rfl | rfl | rfl <;>
      exact ⟨_, parseOptions_negative (minus_int negative) rfl⟩
  by_cases timeout : 0 ≤ ep.timeout.toInt
  · rw [parse_timeout _ timeout rfl]
    by_cases grid : 0 ≤ ep.grid.toInt
    · rw [parse_grid _ grid rfl]
      have qos : ep.qos.toInt < 0 := by
        by_contra nonneg
        exact signed ⟨timeout, grid, not_lt.mp nonneg⟩
      exact failing qos (Or.inr (Or.inr rfl))
    · exact failing (not_le.mp grid) (Or.inr (Or.inl rfl))
  · exact failing (not_le.mp timeout) (Or.inl rfl)

theorem parseType_name (type : EType) : parseType str type.name = .ok type := by
  cases type <;> rfl

theorem parse_words {options : List (List UInt8)} {type : EType}
    (words_ : words isBlank str = type.name :: options) :
    TC_Endpoint.ofDesc str =
      (parseOptions str options { type := type } >>= fun ep =>
        ep.clampWeight.checkHost str) := by
  rw [TC_Endpoint.ofDesc, TC_Endpoint.parse, words_]
  simp only [parseType_name]
  rfl

/-- What `parse` gets from the text. -/
def TC_Endpoint.readBack (ep : TC_Endpoint) : TC_Endpoint :=
  { ep.assumed.clampWeight with isIPv6 := addressIsIPv6 ep.host }

theorem clampWeight_host (ep : TC_Endpoint) :
    ep.clampWeight.host = ep.host := by
  rw [TC_Endpoint.clampWeight]
  split <;> rfl

theorem checkHost_assumed (wellFormed : ep.WellFormed) :
    ep.assumed.clampWeight.checkHost str = .ok ep.readBack := by
  obtain ⟨some_, -, -, noWildcard⟩ := wellFormed.solid
  have host : ep.assumed.clampWeight.host = ep.host :=
    clampWeight_host ep.assumed
  rw [TC_Endpoint.checkHost, TC_Endpoint.readBack, host, if_neg some_,
    if_neg noWildcard]

theorem optionWords_setDivision {setDivision : List UInt8}
    (wellFormed : IsSetDivision setDivision) {start : TC_Endpoint} :
    parseOptions str (optionWords (setDivision ≠ []) 115 setDivision) start =
      .ok start := by
  have ignored : parseOptions str (optionWords (setDivision ≠ []) 115
      setDivision ++ []) start = parseOptions str [] start :=
    parseOptions_given _ wellFormed.noOption (fun _ => rfl) fun _ => rfl
  rwa [List.append_nil] at ignored

theorem ofDesc_text {info : EndpointInfo} (wellFormed : info.WellFormed)
    (unsigned : info.ep.Unsigned) :
    TC_Endpoint.ofDesc info.text = .ok info.ep.readBack := by
  rw [parse_words (EndpointInfo.words_text wellFormed),
    parseOptions_options wellFormed.ep unsigned,
    optionWords_setDivision wellFormed.setDivision]
  exact checkHost_assumed wellFormed.ep

theorem ofDesc_text_signed {info : EndpointInfo}
    (wellFormed : info.WellFormed) (signed : ¬ info.ep.Unsigned) :
    ∃ message, TC_Endpoint.ofDesc info.text = .error message := by
  rw [parse_words (EndpointInfo.words_text wellFormed)]
  obtain ⟨message, failed⟩ := parseOptions_signed wellFormed.ep signed
  exact ⟨message, by rw [failed]; rfl⟩

/-- The weight is one that is written and read without change. -/
def TC_Endpoint.WeightKept (ep : TC_Endpoint) : Prop :=
  if ep.weighttype = 0 then ep.weight = -1 ∨ 0 < ep.weight.toInt
  else 0 < ep.weight.toInt ∧ ep.weight.toInt ≤ 100

structure TC_Endpoint.Kept (ep : TC_Endpoint) : Prop where
  timeout : 0 < ep.timeout.toInt
  grid : 0 ≤ ep.grid.toInt
  qos : 0 ≤ ep.qos.toInt
  weight : ep.WeightKept

theorem TC_Endpoint.Kept.unsigned (kept : ep.Kept) : ep.Unsigned :=
  ⟨kept.timeout.le, kept.grid, kept.qos⟩

theorem readBack_unused (unused : ep.weighttype = 0) : ep.readBack =
    { ep.assumed with isIPv6 := addressIsIPv6 ep.host } := by
  have unused : ¬ ep.assumed.weighttype ≠ 0 := not_not.mpr unused
  rw [TC_Endpoint.readBack, TC_Endpoint.clampWeight, if_neg unused]

theorem readBack_used (used : ep.weighttype ≠ 0) : ep.readBack =
    { ep.assumed with
      weight :=
        let weight :=
          if ep.assumed.weight = -1 then 100 else ep.assumed.weight
        if weight.toInt > 100 then 100 else weight
      isIPv6 := addressIsIPv6 ep.host } := by
  have used : ep.assumed.weighttype ≠ 0 := used
  rw [TC_Endpoint.readBack, TC_Endpoint.clampWeight, if_pos used]

theorem readBack_timeout :
    ep.readBack.timeout = if ep.timeout = 0 then 3000 else ep.timeout := by
  by_cases unused : ep.weighttype = 0
  · rw [readBack_unused unused]
    rfl
  · rw [readBack_used unused]
    rfl

/-- The weight read where none was written, and where one was. -/
theorem readBack_weight :
    (¬ 0 < ep.weight.toInt → ep.readBack.weight =
      if ep.weighttype = 0 then -1 else 100) ∧
    (0 < ep.weight.toInt → ep.readBack.weight =
      if ep.weighttype ≠ 0 ∧ ep.weight.toInt > 100 then 100 else ep.weight) := by
  constructor
  · intro none_
    have weight : ep.assumed.weight = -1 := if_neg none_
    by_cases unused : ep.weighttype = 0
    · rw [readBack_unused unused, if_pos unused]
      exact weight
    · rw [readBack_used unused, if_neg unused]
      simp only [weight, if_true]
      decide
  · intro positive
    have weight : ep.assumed.weight = ep.weight := if_pos positive
    have given : ep.weight ≠ -1 := by
      intro same
      rw [same] at positive
      exact absurd positive (by decide)
    by_cases unused : ep.weighttype = 0
    · rw [readBack_unused unused, if_neg fun both => both.1 unused]
      exact weight
    · rw [readBack_used unused]
      simp only [weight, if_neg given]
      by_cases large : ep.weight.toInt > 100
      · rw [if_pos large, if_pos ⟨unused, large⟩]
      · rw [if_neg large, if_neg fun both => large both.2]

theorem readBack_weight_iff : ep.readBack.weight = ep.weight ↔
    ep.WeightKept := by
  obtain ⟨left_, given⟩ := @readBack_weight ep
  rw [TC_Endpoint.WeightKept]
  by_cases positive : 0 < ep.weight.toInt
  · rw [given positive]
    by_cases unused : ep.weighttype = 0
    · simp [unused, positive]
    · rw [if_neg unused]
      by_cases large : ep.weight.toInt > 100
      · rw [if_pos ⟨unused, large⟩]
        constructor
        · intro same
          rw [← same] at large
          exact absurd large (by decide)
        · exact fun kept => absurd kept.2 (not_le.mpr large)
      · rw [if_neg fun both => large both.2]
        exact iff_of_true rfl ⟨positive, not_lt.mp large⟩
  · rw [left_ positive]
    by_cases unused : ep.weighttype = 0
    · rw [if_pos unused, if_pos unused]
      exact ⟨fun same => Or.inl same.symm, fun kept =>
        (kept.resolve_right positive).symm⟩
    · rw [if_neg unused, if_neg unused]
      refine iff_of_false (fun same => positive ?_) fun kept => positive kept.1
      rw [← same]
      decide

theorem readBack_eq_iff (wellFormed : ep.WellFormed)
    (unsigned : ep.Unsigned) : ep.readBack = ep ↔ ep.Kept := by
  have others : ep.readBack = { ep with
      timeout := ep.readBack.timeout
      weight := ep.readBack.weight } := by
    by_cases unused : ep.weighttype = 0
    · rw [readBack_unused unused, ← wellFormed.isIPv6]
      rfl
    · rw [readBack_used unused, ← wellFormed.isIPv6]
      rfl
  constructor
  · intro same
    refine ⟨?_, unsigned.grid, unsigned.qos, readBack_weight_iff.mp ?_⟩
    · have timeout := @readBack_timeout ep
      rw [same] at timeout
      have some_ : ep.timeout ≠ 0 := by
        intro zero
        rw [if_pos zero, zero] at timeout
        exact absurd timeout (by decide)
      have nonneg := unsigned.timeout
      have notZero : ep.timeout.toInt ≠ 0 := fun zero =>
        some_ (BitVec.eq_of_toInt_eq zero)
      omega
    · rw [same]
  · intro kept
    have some_ : ep.timeout ≠ 0 := by
      intro zero
      have positive := kept.timeout
      rw [zero] at positive
      exact absurd positive (by decide)
    rw [others, readBack_timeout, if_neg some_,
      readBack_weight_iff.mpr kept.weight]

/-- One endpoint comes back from its text. -/
theorem ofDesc_text_iff {info : EndpointInfo} (wellFormed : info.WellFormed) :
    TC_Endpoint.ofDesc info.text = .ok info.ep ↔ info.ep.Kept := by
  by_cases unsigned : info.ep.Unsigned
  · rw [ofDesc_text wellFormed unsigned, ← readBack_eq_iff wellFormed.ep unsigned]
    exact ⟨Except.ok.inj, fun same => by rw [same]⟩
  · obtain ⟨message, failed⟩ := ofDesc_text_signed wellFormed unsigned
    rw [failed]
    exact iff_of_false (fun same => nomatch same) fun kept =>
      unsigned kept.unsigned

end Whole

section SetDivision

variable {text sep : List UInt8} {pos : Nat}

theorem rfind_eq_some (here : sep <+: text.drop pos) (inside : pos ≤ text.length)
    (last : ∀ later, pos < later → ¬ sep <+: text.drop later) :
    rfind text sep = some pos := by
  rw [rfind, List.find?_eq_some_iff_getElem]
  refine ⟨List.isPrefixOf_iff_prefix.mpr here, text.length - pos, ?_, ?_, ?_⟩
  · simp
  · simp
    omega
  · intro index before
    simp only [List.getElem_reverse, List.getElem_range, List.length_range,
      Bool.not_eq_eq_eq_not, Bool.not_true]
    rw [← Bool.not_eq_true, List.isPrefixOf_iff_prefix]
    exact last _ (by omega)

theorem rfind_eq_none (nowhere : ∀ pos, ¬ sep <+: text.drop pos) :
    rfind text sep = none := by
  rw [rfind, List.find?_eq_none]
  intro pos _
  rw [List.isPrefixOf_iff_prefix]
  exact nowhere pos

theorem trim_solid (solid : ∀ c ∈ text, isBlank c = false) :
    trim text = text := by
  have front : text.dropWhile isBlank = text := by
    cases text with
    | nil => rfl
    | cons c text =>
        rw [List.dropWhile_cons_of_neg (by
          rw [solid c List.mem_cons_self]
          exact Bool.false_ne_true)]
  rw [trim, front, List.rdropWhile_eq_self_iff]
  intro some_
  rw [solid _ (List.getLast_mem some_)]
  exact Bool.false_ne_true

/-- No word of an endpoint is `-s`. -/
theorem not_mem_options {ep : TC_Endpoint} (wellFormed : ep.WellFormed) :
    [45, 115] ∉ ep.type.name :: ep.options := by
  have host : ep.host ≠ [45, 115] := by
    intro same
    exact wellFormed.solid.2.2.1 (by rw [same]; rfl)
  have count : ∀ n, decimal n ≠ [45, 115] := by
    intro n same
    exact decimal_head_ne n (by rw [same]; rfl)
  have number : ∀ n, decimalInt n ≠ [45, 115] := by
    intro n same
    rw [decimalInt] at same
    split at same
    · have digit := (decimal_digits n.natAbs).2 115 (by
        rw [List.cons.inj same |>.2]
        exact List.mem_singleton_self _)
      exact absurd digit (by decide)
    · exact count _ same
  have option_ : ∀ (given : Bool) (letter : UInt8) (text : List UInt8),
      letter ≠ 115 → text ≠ [45, 115] →
      [45, 115] ∉ optionWords given letter text := by
    intro given letter text other different member
    cases given with
    | false => exact List.not_mem_nil member
    | true =>
        simp only [optionWords, if_true, List.mem_cons, List.not_mem_nil,
          or_false, List.cons.injEq, true_and, and_true] at member
        rcases member with same | same
        · exact other same.symm
        · exact different same.symm
  have name : ep.type.name ≠ [45, 115] := by cases ep.type <;> decide
  simp only [TC_Endpoint.options, List.mem_cons, List.mem_append, not_or]
  exact ⟨name.symm, ⟨⟨⟨⟨⟨⟨option_ _ _ _ (by decide) host,
    option_ _ _ _ (by decide) (number _)⟩, option_ _ _ _ (by decide) (number _)⟩,
    option_ _ _ _ (by decide) (number _)⟩,
    option_ _ _ _ (by decide) (number _)⟩,
    option_ _ _ _ (by decide) (number _)⟩,
    option_ _ _ _ (by decide) (count _)⟩, option_ _ _ _ (by decide) (count _)⟩

theorem not_prefix_toString {ep : TC_Endpoint} (wellFormed : ep.WellFormed)
    (pos : Nat) : ¬ ascii " -s " <+: ep.toString.drop pos := by
  rintro ⟨behind, whole⟩
  have split : ep.toString =
      ep.toString.take pos ++ 32 :: ([45, 115] ++ 32 :: behind) := by
    have joined := List.take_append_drop pos ep.toString
    rw [← whole] at joined
    exact joined.symm
  have member : [45, 115] ∈ words isBlank ep.toString := by
    rw [split]
    exact mem_words (by decide) (by decide) (forall_mem_of_all (by decide))
      (by decide)
  rw [words_toString wellFormed] at member
  exact not_mem_options wellFormed member

/-- The last ` -s ` in the text is the one that was written. -/
theorem readSetDivision_text {info : EndpointInfo}
    (wellFormed : info.WellFormed) :
    readSetDivision info.text = info.setDivision := by
  rw [readSetDivision, EndpointInfo.text]
  by_cases empty : info.setDivision = []
  · rw [if_pos empty, List.append_nil,
      rfind_eq_none (not_prefix_toString wellFormed.ep), empty]
  · have solid := fun c member => (wellFormed.setDivision.solid c member).1
    have found : rfind (info.ep.toString ++ (ascii " -s " ++ info.setDivision))
        (ascii " -s ") = some info.ep.toString.length := by
      refine rfind_eq_some ?_ ?_ fun later behind => ?_
      · rw [List.drop_left]
        exact List.prefix_append _ _
      · rw [List.length_append]
        exact Nat.le_add_right _ _
      · obtain ⟨offset, rfl⟩ := Nat.exists_eq_add_of_lt behind
        rw [List.drop_append, List.drop_eq_nil_of_le (by omega),
          List.nil_append]
        have shift : info.ep.toString.length + offset + 1 -
            info.ep.toString.length = offset + 1 := by omega
        rw [shift]
        have shape : (ascii " -s " ++ info.setDivision).drop (offset + 1) =
            (45 :: 115 :: 32 :: info.setDivision).drop offset := rfl
        rw [shape]
        match offset with
        | 0 => exact fun ⟨_, same⟩ => absurd (List.cons.inj same).1 (by decide)
        | 1 => exact fun ⟨_, same⟩ => absurd (List.cons.inj same).1 (by decide)
        | 2 =>
            rintro ⟨behind, same⟩
            have rest := (List.cons.inj same).2
            exact wellFormed.setDivision.noOption (by
              rw [← rest]
              rfl)
        | offset + 3 =>
            rintro ⟨behind, same⟩
            have member : (32 : UInt8) ∈ info.setDivision.drop offset := by
              have inside : (32 : UInt8) ∈ ascii " -s " ++ behind := by
                exact List.mem_cons_self
              rw [same] at inside
              exact inside
            have blank := solid 32 (List.mem_of_mem_drop member)
            exact absurd blank (by decide)
    have behind : (info.ep.toString ++ (ascii " -s " ++ info.setDivision)).drop
        (info.ep.toString.length + 4) = info.setDivision := by
      rw [← List.append_assoc]
      exact List.drop_left' (by rw [List.length_append]; rfl)
    rw [if_neg empty, found]
    simp only [behind]
    rw [trim_solid solid, List.takeWhile_eq_self_iff]
    intro c member
    refine decide_eq_true fun same => ?_
    have blank := solid c member
    rw [same] at blank
    exact absurd blank (by decide)

end SetDivision

section Infos

variable {info : EndpointInfo}

theorem readInfo_text (wellFormed : info.WellFormed)
    (unsigned : info.ep.Unsigned) :
    readInfo false info.text = some { info with ep := info.ep.readBack } := by
  rw [readInfo, ofDesc_text wellFormed unsigned]
  simp only [readSetDivision_text wellFormed]
  rfl

theorem readInfo_text_signed (wellFormed : info.WellFormed)
    (signed : ¬ info.ep.Unsigned) : readInfo false info.text = none := by
  obtain ⟨message, failed⟩ := ofDesc_text_signed wellFormed signed
  rw [readInfo, failed]

theorem type_name_length (type : EType) : type.name.length = 3 := by
  cases type <;> rfl

/-- What is written behind ` -p `. -/
def EndpointInfo.behind (info : EndpointInfo) : List UInt8 :=
  decimalInt info.ep.port.toInt ++
    (optionText (info.ep.timeout ≠ 0) 116 (decimalInt info.ep.timeout.toInt) ++
    (optionText (info.ep.grid ≠ 0) 103 (decimalInt info.ep.grid.toInt) ++
    (optionText (info.ep.qos ≠ 0) 113 (decimalInt info.ep.qos.toInt) ++
    (optionText (0 < info.ep.weight.toInt) 119
      (decimalInt info.ep.weight.toInt) ++
    (optionText (info.ep.weighttype ≠ 0) 118
      (decimal info.ep.weighttype.toNat) ++
    (optionText (info.ep.authType.code ≠ 0) 101
      (decimal info.ep.authType.code) ++
    (if info.setDivision = [] then []
      else ascii " -s " ++ info.setDivision)))))))

theorem EndpointInfo.text_front (info : EndpointInfo) :
    info.text = info.ep.type.name ++ (ascii " -h " ++
      (info.ep.host ++ (ascii " -p " ++ info.behind))) := by
  have host : optionText true 104 info.ep.host =
      ascii " -h " ++ info.ep.host := rfl
  have port : ∀ text, optionText true 112 text = ascii " -p " ++ text :=
    fun _ => rfl
  rw [text, TC_Endpoint.toString, behind, host, port]
  simp only [List.append_assoc]

theorem take_text (info : EndpointInfo) {count : Nat}
    (inside : count ≤ info.ep.host.length) :
    info.text.take (7 + count) =
      info.ep.type.name ++ (ascii " -h " ++ info.ep.host.take count) := by
  have front : (info.ep.type.name ++ ascii " -h ").length = 7 := by
    rw [List.length_append, type_name_length]
    rfl
  rw [info.text_front, ← List.append_assoc, ← front,
    List.take_length_add_append, List.take_append_of_le_length inside,
    List.append_assoc]

/-- A text that ends inside the host does not give that host. -/
theorem readInfo_take (address : IsIPv6 info.ep.host) {count : Nat}
    (inside : count < info.ep.host.length) {other : EndpointInfo}
    (read : readInfo false (info.text.take (7 + count)) = some other) :
    other.ep.host ≠ info.ep.host := by
  have name : words isBlank info.ep.type.name = [info.ep.type.name] := by
    cases info.ep.type <;> decide
  have shape : info.text.take (7 + count) = info.ep.type.name ++
      optionText true 104 (info.ep.host.take count) :=
    take_text info inside.le
  have part : ∀ c ∈ info.ep.host.take count, c ∈ info.ep.host :=
    fun c member => List.mem_of_mem_take member
  by_cases none_ : info.ep.host.take count = []
  · have words_ : words isBlank (info.text.take (7 + count)) =
        info.ep.type.name :: [[45, 104]] := by
      rw [shape, none_]
      cases info.ep.type <;> decide
    rw [readInfo, parse_words words_] at read
    exact nomatch read
  · have words_ : words isBlank (info.text.take (7 + count)) =
        info.ep.type.name ::
          (optionWords true 104 (info.ep.host.take count) ++ []) := by
      rw [shape, words_optionText _ (by decide)
        (fun c member => (letter_cases (address.letters c (part c member))).1)
        none_, name]
      simp
    have noOption : (info.ep.host.take count).head? ≠ some 45 := by
      intro hyphen
      have member := part 45 (List.mem_of_head? hyphen)
      exact (letter_cases (address.letters 45 member)).2.1 rfl
    have noWildcard : info.ep.host.take count ≠ ascii "*" := by
      intro wildcard
      have member : (42 : UInt8) ∈ info.ep.host.take count := by
        rw [wildcard]
        decide
      exact (letter_cases (address.letters 42 (part 42 member))).2.2 rfl
    have parsed : TC_Endpoint.ofDesc (info.text.take (7 + count)) =
        .ok { type := info.ep.type, host := info.ep.host.take count,
              isIPv6 := addressIsIPv6 (info.ep.host.take count) } := by
      rw [parse_words words_, parse_host _ none_ noOption]
      have unused : ({ type := info.ep.type, host := info.ep.host.take count } :
          TC_Endpoint).clampWeight =
          { type := info.ep.type, host := info.ep.host.take count } := rfl
      simp only [parseOptions, bind, Except.bind, unused,
        TC_Endpoint.checkHost, if_neg none_, if_neg noWildcard]
    rw [readInfo, parsed] at read
    obtain rfl := Option.some.inj read
    intro same
    have shorter := congrArg List.length same
    rw [List.length_take] at shorter
    omega

end Infos

end TarsCpp.Endpoint
