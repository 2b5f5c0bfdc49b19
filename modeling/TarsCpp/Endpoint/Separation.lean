import TarsCpp.Endpoint.Text

/-!
# Cutting the list at its separators

The scanner of `sepEndpoint` over a list of well-formed endpoints.  Inside an
endpoint no colon is followed by a type, so that the list is cut between the
endpoints only; but a colon inside the last host is the last position the
scanner remembers, and there the last endpoint ends.
-/

namespace TarsCpp.Endpoint

open CString

variable {sEndpoints seg rest : List UInt8} {pos : Nat} {st : SepState}

/-- Behind bytes without a colon nothing has changed. -/
theorem sepLoop_plain (sEndpoints rest : List UInt8) (pos : Nat)
    {st : SepState} (plain : ∀ c ∈ seg, c ≠ 58) (ready : st.flag = false) :
    sepLoop sEndpoints (seg ++ rest) pos st =
      sepLoop sEndpoints rest (pos + seg.length) st := by
  induction seg generalizing pos with
  | nil => rfl
  | cons c seg ih =>
      have other : c ≠ 58 := plain c List.mem_cons_self
      have same : st.turn sEndpoints pos (c :: (seg ++ rest)) = st := by
        simp [SepState.turn, ready, other]
      rw [List.cons_append, sepLoop, same,
        ih (pos + 1) fun c member => plain c (List.mem_cons_of_mem _ member),
        List.length_cons]
      congr 1
      omega

/-- The bytes of an IPv6 address do not begin a type, nor are they blanks. -/
theorem letter_noType {c : UInt8} (letter : isHex c ∨ c = 58 ∨ c = 46)
    (text : List UInt8) : c ≠ 32 ∧ startsWithType (c :: text) = false := by
  have table : ∀ n : Fin 256, (isHex (UInt8.ofFin n) ∨ UInt8.ofFin n = 58 ∨
      UInt8.ofFin n = 46) → UInt8.ofFin n ≠ 32 ∧
      tolower (UInt8.ofFin n) ≠ 116 ∧ tolower (UInt8.ofFin n) ≠ 117 ∧
      tolower (UInt8.ofFin n) ≠ 115 := by decide +kernel
  have this := table c.toFin
  rw [UInt8.ofFin_toFin] at this
  obtain ⟨blank, t, u, s⟩ := this letter
  refine ⟨blank, ?_⟩
  have names : [ascii "tcp", ascii "udp", ascii "ssl"] =
      [[116, 99, 112], [117, 100, 112], [115, 115, 108]] := by decide
  rw [startsWithType, names]
  simp [t, u, s]

/-- An address leaves at most the position of one of its colons behind, and
does so if it has one. -/
theorem sepLoop_letters (sEndpoints rest : List UInt8) (pos : Nat)
    (st : SepState) (letters : ∀ c ∈ seg, isHex c ∨ c = 58 ∨ c = 46) :
    ∃ flag sepPos, sepLoop sEndpoints (seg ++ rest) pos st =
        sepLoop sEndpoints rest (pos + seg.length)
          { st with flag := flag, sepPos := sepPos } ∧
      (sepPos = st.sepPos ∨ ∃ j < seg.length, sepPos = some (pos + j)) ∧
      (58 ∈ seg → st.flag = false →
        ∃ j < seg.length, sepPos = some (pos + j)) := by
  induction seg generalizing pos st with
  | nil =>
      exact ⟨st.flag, st.sepPos, rfl, Or.inl rfl,
        fun member => absurd member List.not_mem_nil⟩
  | cons c seg ih =>
      obtain ⟨blank, noType⟩ :=
        letter_noType (letters c List.mem_cons_self) (seg ++ rest)
      have next := fun st => ih (pos + 1) st
        fun c member => letters c (List.mem_cons_of_mem _ member)
      have advance : pos + (c :: seg).length = pos + 1 + seg.length := by
        rw [List.length_cons]
        omega
      rw [List.cons_append, sepLoop, advance]
      cases flag : st.flag with
      | true =>
          have turned : st.turn sEndpoints pos (c :: (seg ++ rest)) =
              { st with flag := false } := by
            simp [SepState.turn, flag, blank, noType]
          obtain ⟨flag', sepPos, same, place, -⟩ := next { st with flag := false }
          rw [turned]
          refine ⟨flag', sepPos, same, place.imp_right ?_,
            fun _ ready => nomatch ready⟩
          rintro ⟨j, inside, rfl⟩
          exact ⟨j + 1, by simpa using inside, by congr 1; omega⟩
      | false =>
          by_cases colon : c = 58
          · have turned : st.turn sEndpoints pos (c :: (seg ++ rest)) =
                { st with sepPos := some pos, flag := true } := by
              simp [SepState.turn, flag, colon]
            obtain ⟨flag', sepPos, same, place, -⟩ :=
              next { st with sepPos := some pos, flag := true }
            have here : ∃ j < (c :: seg).length, sepPos = some (pos + j) := by
              rcases place with rfl | ⟨j, inside, rfl⟩
              · exact ⟨0, by simp, rfl⟩
              · exact ⟨j + 1, by simpa using inside, by congr 1; omega⟩
            rw [turned]
            exact ⟨flag', sepPos, same, Or.inr here, fun _ _ => here⟩
          · have turned : st.turn sEndpoints pos (c :: (seg ++ rest)) = st := by
              simp [SepState.turn, flag, colon]
            obtain ⟨flag', sepPos, same, place, colon'⟩ := next st
            rw [turned]
            refine ⟨flag', sepPos, same, place.imp_right ?_,
              fun member _ => ?_⟩
            · rintro ⟨j, inside, rfl⟩
              exact ⟨j + 1, by simpa using inside, by congr 1; omega⟩
            · obtain ⟨j, inside, rfl⟩ := colon'
                ((List.mem_cons.mp member).resolve_left (Ne.symm colon)) flag
              exact ⟨j + 1, by simpa using inside, by congr 1; omega⟩

section OneEndpoint

variable {info : EndpointInfo}

theorem behind_plain (wellFormed : info.WellFormed) :
    ∀ c ∈ info.behind, c ≠ 58 := by
  have count : ∀ n, ∀ c ∈ decimal n, c ≠ 58 := fun n c member =>
    (digit_cases ((decimal_digits n).2 c member)).2.2.1
  have number : ∀ n, ∀ c ∈ decimalInt n, c ≠ 58 := by
    intro n c member
    rw [decimalInt] at member
    split at member
    · rcases List.mem_cons.mp member with rfl | member
      · decide
      · exact count _ c member
    · exact count _ c member
  have option_ : ∀ (given : Bool) (letter : UInt8) (text : List UInt8),
      letter ≠ 58 → (∀ c ∈ text, c ≠ 58) →
      ∀ c ∈ optionText given letter text, c ≠ 58 := by
    intro given letter text other plain c member
    cases given with
    | false => exact absurd member List.not_mem_nil
    | true =>
        simp only [optionText, if_true, List.mem_cons] at member
        rcases member with rfl | rfl | rfl | rfl | member
        · decide
        · decide
        · exact other
        · decide
        · exact plain c member
  intro c member
  simp only [EndpointInfo.behind, List.mem_append] at member
  rcases member with member | member | member | member | member | member |
    member | member
  · exact number _ c member
  · exact option_ _ _ _ (by decide) (number _) c member
  · exact option_ _ _ _ (by decide) (number _) c member
  · exact option_ _ _ _ (by decide) (number _) c member
  · exact option_ _ _ _ (by decide) (number _) c member
  · exact option_ _ _ _ (by decide) (count _) c member
  · exact option_ _ _ _ (by decide) (count _) c member
  · split at member
    · exact absurd member List.not_mem_nil
    · have option_ : ∀ c ∈ ascii " -s ", c ≠ 58 :=
        forall_mem_of_all (by decide)
      rcases List.mem_append.mp member with member | member
      · exact option_ c member
      · exact (wellFormed.setDivision.solid c member).2

theorem text_cons (info : EndpointInfo) : ∃ c tail, info.text = c :: tail ∧
    c ≠ 58 ∧ c ≠ 32 ∧ isBlank c = false ∧
    ∀ rest, startsWithType (info.text ++ rest) = true := by
  rw [info.text_front]
  cases info.ep.type with
  | UDP => exact ⟨117, _, rfl, by decide, by decide, by decide, fun _ => rfl⟩
  | TCP => exact ⟨116, _, rfl, by decide, by decide, by decide, fun _ => rfl⟩
  | SSL => exact ⟨115, _, rfl, by decide, by decide, by decide, fun _ => rfl⟩

theorem sepLoop_hyphen (sEndpoints rest : List UInt8) (pos : Nat)
    (st : SepState) (flag : Bool) :
    sepLoop sEndpoints (32 :: 45 :: rest) pos { st with flag := flag } =
      sepLoop sEndpoints rest (pos + 2) { st with flag := false } := by
  have names : [ascii "tcp", ascii "udp", ascii "ssl"] =
      [[116, 99, 112], [117, 100, 112], [115, 115, 108]] := by decide
  have hyphen : startsWithType (45 :: rest) = false := by
    rw [startsWithType, names]
    simp [tolower]
  rw [sepLoop, sepLoop]
  cases flag <;> simp [SepState.turn, hyphen]

/-- What the scanner remembers behind an endpoint of which it has passed the
first byte. -/
theorem sepLoop_text (sEndpoints rest : List UInt8) (pos : Nat)
    (wellFormed : info.WellFormed)
    (ready : st.flag = false) {c : UInt8} {tail : List UInt8}
    (text : info.text = c :: tail) :
    ∃ sepPos, sepLoop sEndpoints (tail ++ rest) (pos + 1) st =
        sepLoop sEndpoints rest (pos + info.text.length)
          { st with sepPos := sepPos } ∧
      ((IsName info.ep.host ∧ sepPos = st.sepPos) ∨
        IsIPv6 info.ep.host ∧
          ∃ j < info.ep.host.length, sepPos = some (pos + (7 + j))) := by
  have front_plain : ∀ c ∈ info.ep.type.name.tail ++ ascii " -h ", c ≠ 58 := by
    cases info.ep.type <;> exact forall_mem_of_all (by decide)
  have front_length : (info.ep.type.name.tail ++ ascii " -h ").length = 6 := by
    cases info.ep.type <;> rfl
  have back_plain : ∀ c ∈ 112 :: 32 :: info.behind, c ≠ 58 := by
    simp only [List.forall_mem_cons]
    exact ⟨by decide, by decide, behind_plain wellFormed⟩
  have shape : tail = (info.ep.type.name.tail ++ ascii " -h ") ++
      (info.ep.host ++ 32 :: 45 :: (112 :: 32 :: info.behind)) := by
    have whole := congrArg List.tail (info.text_front.symm.trans text)
    rw [List.tail_cons] at whole
    rw [← whole, List.append_assoc]
    cases info.ep.type <;> rfl
  have length : info.text.length =
      1 + (6 + (info.ep.host.length + (2 + (112 :: 32 :: info.behind).length)))
      := by
    rw [text, shape]
    simp only [List.length_cons, List.length_append] at front_length ⊢
    omega
  have finish : ∀ flag sepPos, sepLoop sEndpoints
      (32 :: 45 :: (112 :: 32 :: info.behind) ++ rest)
      (pos + 1 + 6 + info.ep.host.length)
      { st with flag := flag, sepPos := sepPos } =
      sepLoop sEndpoints rest (pos + info.text.length)
        { st with sepPos := sepPos } := by
    intro flag sepPos
    have hyphen := sepLoop_hyphen sEndpoints
      ((112 :: 32 :: info.behind) ++ rest) (pos + 1 + 6 + info.ep.host.length)
      { st with sepPos := sepPos } flag
    have plain := sepLoop_plain sEndpoints rest
      (pos + 1 + 6 + info.ep.host.length + 2) back_plain
      (show { st with flag := false, sepPos := sepPos }.flag = false from rfl)
    refine hyphen.trans (plain.trans ?_)
    have place : pos + 1 + 6 + info.ep.host.length + 2 +
        (112 :: 32 :: info.behind).length = pos + info.text.length := by
      rw [length]
      omega
    rw [place, ← ready]
  have passed : sepLoop sEndpoints (tail ++ rest) (pos + 1) st =
      sepLoop sEndpoints (info.ep.host ++
        (32 :: 45 :: (112 :: 32 :: info.behind) ++ rest)) (pos + 1 + 6) st := by
    rw [shape, List.append_assoc, sepLoop_plain _ _ _ front_plain ready,
      front_length, List.append_assoc]
  rw [passed]
  rcases wellFormed.ep.host with name | address
  · refine ⟨st.sepPos, ?_, Or.inl ⟨name, rfl⟩⟩
    rw [sepLoop_plain _ _ _ (fun c member => (name.solid c member).2) ready]
    exact finish st.flag st.sepPos
  · obtain ⟨flag, sepPos, same, -, place⟩ :=
      sepLoop_letters sEndpoints
        (32 :: 45 :: (112 :: 32 :: info.behind) ++ rest) (pos + 1 + 6) st
        address.letters
    obtain ⟨j, inside, rfl⟩ := place address.colon ready
    refine ⟨_, ?_, Or.inr ⟨address, j, inside, rfl⟩⟩
    have place : pos + 1 + 6 + j = pos + (7 + j) := by omega
    rw [same, finish, place]

end OneEndpoint

/-- The text behind the first endpoint. -/
def joined (infos : List EndpointInfo) : List UInt8 :=
  infos.flatMap fun info => 58 :: info.text

theorem cacheText_cons (info : EndpointInfo) (infos : List EndpointInfo) :
    cacheText (info :: infos) = info.text ++ joined infos := by
  have appended : ∀ (infos : List EndpointInfo) (front : List UInt8),
      front ≠ [] → infos.foldl (fun sEndpoints info =>
        sEndpoints ++ (if sEndpoints = [] then [] else [58]) ++ info.text)
        front = front ++ joined infos := by
    intro infos
    induction infos with
    | nil => simp [joined]
    | cons info infos ih =>
        intro front some_
        rw [List.foldl_cons, if_neg some_, ih _ (by simp), joined, joined,
          List.flatMap_cons]
        simp
  obtain ⟨c, tail, text, -⟩ := text_cons info
  rw [cacheText, List.foldl_cons, if_pos rfl, List.nil_append,
    List.nil_append]
  exact appended infos info.text (by rw [text]; exact List.cons_ne_nil _ _)

/-- What is cut off for the last endpoint. -/
def LastPiece (info : EndpointInfo) (ep : List UInt8) : Prop :=
  (IsName info.ep.host ∧ ep = info.text) ∨
    IsIPv6 info.ep.host ∧
      ∃ j < info.ep.host.length, ep = info.text.take (7 + j)

/-- The last byte is no blank. -/
def Closed (text : List UInt8) : Prop :=
  ∃ front c, text = front ++ [c] ∧ isBlank c = false

theorem closed_append (front : List UInt8) {text : List UInt8}
    (solid : ∀ c ∈ text, isBlank c = false) (some_ : text ≠ []) :
    Closed (front ++ text) := by
  refine ⟨front ++ text.dropLast, text.getLast some_, ?_,
    solid _ (List.getLast_mem some_)⟩
  rw [List.append_assoc, List.dropLast_append_getLast some_]

theorem closed_option {front text : List UInt8} (closed : Closed front)
    (given : Bool) (letter : UInt8)
    (solid : (∀ c ∈ text, isBlank c = false) ∧ text ≠ []) :
    Closed (front ++ optionText given letter text) := by
  cases given with
  | false =>
      rw [optionText, if_neg Bool.false_ne_true, List.append_nil]
      exact closed
  | true =>
      have shape : front ++ optionText true letter text =
          (front ++ [32, 45, letter, 32]) ++ text := by
        rw [optionText, if_pos rfl, List.append_assoc]
        rfl
      rw [shape]
      exact closed_append _ solid.1 solid.2

theorem closed_text {info : EndpointInfo} (wellFormed : info.WellFormed) :
    Closed info.text := by
  obtain ⟨some_, solid, -, -⟩ := wellFormed.ep.solid
  have name : Closed info.ep.type.name := by
    cases info.ep.type with
    | UDP => exact ⟨ascii "ud", 112, rfl, by decide⟩
    | TCP => exact ⟨ascii "tc", 112, rfl, by decide⟩
    | SSL => exact ⟨ascii "ss", 108, rfl, by decide⟩
  rw [EndpointInfo.text]
  by_cases empty : info.setDivision = []
  · rw [if_pos empty, List.append_nil, TC_Endpoint.toString]
    have number := decimalInt_solid
    have count := decimal_solid
    exact closed_option (closed_option (closed_option (closed_option
      (closed_option (closed_option (closed_option (closed_option name
        true 104 ⟨solid, some_⟩) true 112 (number _)) _ 116 (number _))
        _ 103 (number _)) _ 113 (number _)) _ 119 (number _)) _ 118 (count _))
        _ 101 (count _)
  · rw [if_neg empty, ← List.append_assoc]
    exact closed_append _
      (fun c member => (wellFormed.setDivision.solid c member).1) empty

theorem trim_text {info : EndpointInfo} (wellFormed : info.WellFormed) :
    trim info.text = info.text := by
  obtain ⟨front, last, whole, closed⟩ := closed_text wellFormed
  obtain ⟨c, tail, text, -, -, solid, -⟩ := text_cons info
  have dropped : info.text.dropWhile isBlank = info.text := by
    rw [text, List.dropWhile_cons_of_neg (by rw [solid]; exact Bool.false_ne_true)]
  rw [trim, dropped, whole, List.rdropWhile_concat_neg]
  rw [closed]
  exact Bool.false_ne_true

theorem sepLoop_joined (infos : List EndpointInfo) (info : EndpointInfo)
    (wellFormed : ∀ other ∈ info :: infos, other.WellFormed)
    (before : List UInt8) (st : SepState) (ready : st.flag = false)
    (start : st.startPos = before.length)
    (earlier : ∀ sepPos ∈ st.sepPos, sepPos < before.length)
    (whole : sEndpoints = before ++ (info.text ++ joined infos))
    {c : UInt8} {tail : List UInt8} (text : info.text = c :: tail) :
    ∃ ep, LastPiece ((info :: infos).getLast (List.cons_ne_nil _ _)) ep ∧
      (let final := sepLoop sEndpoints (tail ++ joined infos)
        (before.length + 1) st
      push final.vEndpoints (piece sEndpoints final.startPos final.sepPos)) =
        st.vEndpoints ++ ((info :: infos).dropLast.map EndpointInfo.text ++
          [ep]) := by
  have some_ : info.text ≠ [] := by
    rw [text]
    exact List.cons_ne_nil _ _
  have here := wellFormed info List.mem_cons_self
  induction infos generalizing info before st c tail with
  | nil =>
      obtain ⟨sepPos, passed, place⟩ := sepLoop_text sEndpoints (joined [])
        before.length here ready text
      have rest : sEndpoints.drop before.length = info.text := by
        rw [whole, List.drop_left]
        simp [joined]
      rw [passed]
      simp only [joined, List.flatMap_nil, sepLoop, start]
      rcases place with ⟨name, rfl⟩ | ⟨address, j, inside, rfl⟩
      · have cut : piece sEndpoints before.length st.sepPos = info.text := by
          rw [piece.eq_def]
          cases sepPos : st.sepPos with
          | none => exact rest
          | some sepPos_ =>
              simp only [if_pos (earlier sepPos_ sepPos), rest]
        refine ⟨info.text, Or.inl ⟨name, rfl⟩, ?_⟩
        rw [cut, push, if_neg some_]
        rfl
      · have cut : piece sEndpoints before.length
            (some (before.length + (7 + j))) = info.text.take (7 + j) := by
          simp only [piece, if_neg (Nat.not_lt.mpr (Nat.le_add_right _ _)), rest,
            Nat.add_sub_cancel_left]
        have nonempty : info.text.take (7 + j) ≠ [] := by
          rw [text, Nat.add_comm]
          exact List.cons_ne_nil _ _
        refine ⟨info.text.take (7 + j), Or.inr ⟨address, j, inside, rfl⟩, ?_⟩
        rw [cut, push, if_neg nonempty]
        rfl
  | cons next infos ih =>
      obtain ⟨sepPos, passed, place⟩ := sepLoop_text sEndpoints
        (joined (next :: infos)) before.length here ready text
      obtain ⟨c', tail', text', colon', blank', -, type'⟩ := text_cons next
      have nextSome : next.text ≠ [] := by
        rw [text']
        exact List.cons_ne_nil _ _
      have cut : piece sEndpoints before.length
          (some (before.length + info.text.length)) = info.text := by
        simp only [piece, whole,
          if_neg (Nat.not_lt.mpr (Nat.le_add_right _ _)), List.drop_left,
          Nat.add_sub_cancel_left, List.take_left]
      -- the separator, and the first byte behind it
      have pushed : sepLoop sEndpoints (joined (next :: infos))
          (before.length + info.text.length) { st with sepPos := sepPos } =
          sepLoop sEndpoints (tail' ++ joined infos)
            ((before ++ info.text ++ [58]).length + 1)
            { vEndpoints := st.vEndpoints ++ [info.text]
              flag := false
              startPos := (before ++ info.text ++ [58]).length
              sepPos := some (before.length + info.text.length) } := by
        have shape : joined (next :: infos) =
            58 :: c' :: (tail' ++ joined infos) := by
          rw [joined, List.flatMap_cons, text']
          rfl
        have begins : startsWithType (c' :: (tail' ++ joined infos)) = true := by
          rw [← List.cons_append, ← text']
          exact type' _
        have place : (before ++ info.text ++ [58]).length =
            before.length + info.text.length + 1 := by
          simp only [List.length_append, List.length_singleton]
        rw [shape, sepLoop, sepLoop, place]
        have separator : SepState.turn sEndpoints
            (before.length + info.text.length)
            (58 :: c' :: (tail' ++ joined infos)) { st with sepPos := sepPos } =
            { st with
              flag := true
              sepPos := some (before.length + info.text.length) } := by
          simp [SepState.turn, ready]
        have first : SepState.turn sEndpoints
            (before.length + info.text.length + 1)
            (c' :: (tail' ++ joined infos))
            { st with
              flag := true
              sepPos := some (before.length + info.text.length) } =
            { vEndpoints := st.vEndpoints ++ [info.text]
              flag := false
              startPos := before.length + info.text.length + 1
              sepPos := some (before.length + info.text.length) } := by
          simp [SepState.turn, blank', begins, start, cut, trim_text here,
            push, some_]
        rw [separator, first]
      obtain ⟨ep, last, result⟩ := ih next
        (fun other member => wellFormed other (List.mem_cons_of_mem _ member))
        (before ++ info.text ++ [58])
        { vEndpoints := st.vEndpoints ++ [info.text]
          flag := false
          startPos := (before ++ info.text ++ [58]).length
          sepPos := some (before.length + info.text.length) } rfl rfl
        (by simp) (by rw [whole]; simp [joined]) text' nextSome
        (wellFormed next (List.mem_cons_of_mem _ List.mem_cons_self))
      refine ⟨ep, last, ?_⟩
      rw [passed, pushed, result]
      simp

/-- The list is cut between the endpoints, and the last one at a colon of its
host if it has one. -/
theorem sepEndpoint_cacheText {infos : List EndpointInfo} (some_ : infos ≠ [])
    (wellFormed : ∀ info ∈ infos, info.WellFormed) :
    ∃ ep, LastPiece (infos.getLast some_) ep ∧
      sepEndpoint (cacheText infos) =
        infos.dropLast.map EndpointInfo.text ++ [ep] := by
  obtain ⟨info, infos, rfl⟩ := List.exists_cons_of_ne_nil some_
  obtain ⟨c, tail, text, colon, -⟩ := text_cons info
  have whole := cacheText_cons info infos
  obtain ⟨ep, last, result⟩ := sepLoop_joined infos info wellFormed [] {} rfl
    rfl (by simp) whole text
  refine ⟨ep, last, ?_⟩
  have first : SepState.turn (cacheText (info :: infos)) 0
      (c :: (tail ++ joined infos)) {} = {} := by
    simp [SepState.turn, colon]
  have begins : sepLoop (cacheText (info :: infos)) (cacheText (info :: infos))
      0 {} = sepLoop (cacheText (info :: infos)) (tail ++ joined infos) 1
        {} := by
    conv => lhs; arg 2; rw [whole, text, List.cons_append]
    rw [sepLoop, first]
  rw [sepEndpoint, begins]
  exact result

theorem IsName.not_address {host : List UInt8} (name : IsName host) :
    ¬ IsIPv6 host :=
  fun address => (name.solid 58 address.colon).2 rfl

theorem sepEndpoint_iff {infos : List EndpointInfo} (some_ : infos ≠ [])
    (wellFormed : ∀ info ∈ infos, info.WellFormed) :
    sepEndpoint (cacheText infos) = infos.map EndpointInfo.text ↔
      IsName (infos.getLast some_).ep.host := by
  obtain ⟨ep, last, cut⟩ := sepEndpoint_cacheText some_ wellFormed
  have whole : infos.map EndpointInfo.text =
      infos.dropLast.map EndpointInfo.text ++ [(infos.getLast some_).text] := by
    conv => lhs; rw [← List.dropLast_append_getLast some_]
    rw [List.map_append]
    rfl
  rw [cut, whole, List.append_cancel_left_eq, List.cons.injEq]
  constructor
  · rintro ⟨same, -⟩
    rcases last with ⟨name, -⟩ | ⟨-, j, inside, rfl⟩
    · exact name
    · -- the piece is shorter than the text
      exfalso
      have length := congrArg List.length same
      rw [take_text _ inside.le] at length
      rw [(infos.getLast some_).text_front] at length
      have blanks : (ascii " -p ").length = 4 := by decide
      simp only [List.length_append, List.length_take, blanks] at length
      omega
  · intro name
    rcases last with ⟨-, rfl⟩ | ⟨address, -⟩
    · exact ⟨rfl, rfl⟩
    · exact absurd address name.not_address

end TarsCpp.Endpoint
