import TarsCpp.Http.Announced
import TarsCpp.Http.Decode

/-!
# Decoding well-formed requests

`decode` reads the head of a well-formed request field by field.  Without chunks
it finds the length that the field announces, as `checkRequest` does.
-/

namespace TarsCpp.Http

open CString NetworkBuffer

variable {sBuffer : List UInt8} {lineStartIt headerIt turns : Nat}

theorem skipSpaces_stops {c : UInt8} (other : c ≠ 32) (blanks rest : List UInt8)
    (place : Nat) :
    skipSpaces (blanks ++ c :: rest) place =
      some (place + (blanks.takeWhile (· = 32)).length) := by
  induction blanks generalizing place with
  | nil => simp [skipSpaces, other]
  | cons first blanks ih =>
      rw [List.cons_append, skipSpaces]
      by_cases same : first = 32
      · rw [if_pos same, ih]
        simp [same]
        omega
      · simp [same]

theorem skipBack_stays {c : UInt8} {place : Nat}
    (here : sBuffer[place]? = some c) (other : c ≠ 32) :
    skipBack sBuffer place = some place := by
  cases place <;> simp [skipBack, here, other]

theorem substring_eq {start stop : Nat} (order : start ≤ stop) :
    substring sBuffer start stop =
      .ok ((sBuffer.drop start).take (stop - start)) := by
  rw [substring, if_neg (Nat.not_lt.mpr order), List.drop_take]

/-- What the parser makes of a field: blanks behind the value stay. -/
def Field.header (field : Field) : Header :=
  ⟨field.name, field.value.dropWhile (· = 32)⟩

/-- The value of `contentLength` behind the field. -/
def Field.announced (field : Field) (contentLength : Nat) : Nat :=
  if startsWith (ascii "Content-Length") field.name then
    strto (field.value.dropWhile (· = 32))
  else
    contentLength

theorem announcedLength_eq (field : Field) (contentLength : Nat) :
    announcedLength field.name (field.value.dropWhile (· = 32)) contentLength =
      .ok (field.announced contentLength) := by
  rw [announcedLength, strncasecmp_line [] (by decide), access_some, ok_bind,
    Field.announced]
  split <;> rfl

theorem first_colon (field : Field) (rest : List UInt8) :
    First colon (field.line ++ rest) field.name.length := by
  have here : First colon (colon ++ (field.value ++ rest)) 0 :=
    ⟨List.prefix_append _ _, fun _ before => absurd before (by omega)⟩
  rw [Field.line, List.append_assoc, List.append_assoc]
  refine here.behind fun start within => ?_
  rw [List.drop_append_of_le_length within.le,
    List.drop_eq_getElem_cons within]
  rintro ⟨tail, same⟩
  injection same with byte _
  exact ne_of_class (field.token _ (List.getElem_mem within)) (by decide)
    byte.symm

theorem parseHeaderLine_field (field : Field) {rest : List UInt8}
    (memory : sBuffer.drop lineStartIt = field.line ++ (crlf ++ rest))
    (short : field.line.length < 2 ^ 31) (parsed : Nat × List Header) :
    parseHeaderLine sBuffer lineStartIt (lineStartIt + field.line.length)
        parsed =
      .ok (field.announced parsed.1,
        HttpRequest.insertHeader field.header parsed.2) := by
  obtain ⟨first, name, same⟩ := List.exists_cons_of_ne_nil field.named
  have token := field.token first (by rw [same]; exact List.mem_cons_self)
  have line : field.line.length =
      field.name.length + 1 + field.value.length := by
    simp [Field.line, colon, ascii]
    omega
  have window : ((lineStartIt + field.line.length : Nat) : Int) - lineStartIt =
      field.line.length := by omega
  have spaced : strnstr (sBuffer.drop lineStartIt) colon
      (toInt ((lineStartIt + field.line.length : Nat) - lineStartIt)) =
        some (some field.name.length) := by
    rw [window, toInt_eq (by omega) (by omega), memory,
      strnstr_eq (by decide) (by simp; omega), find_eq_some_iff.mpr
        (first_take_iff.mpr ⟨first_colon field _, ?_⟩)]
    change field.name.length + 1 ≤ _
    omega
  have start : skipSpaces (sBuffer.drop lineStartIt) lineStartIt =
      some lineStartIt := by
    rw [memory, Field.line, same, List.cons_append, List.cons_append]
    exact skipSpaces_stops (ne_of_class token (by decide)) [] _ _
  have atColon : sBuffer[lineStartIt + field.name.length]? = some 58 := by
    rw [← List.getElem?_drop, memory, Field.line]
    simp [colon, ascii]
  have atEnd : sBuffer[lineStartIt + field.line.length]? = some 13 := by
    rw [← List.getElem?_drop, memory]
    simp [crlf]
  have behind : sBuffer.drop (lineStartIt + field.name.length + 1) =
      field.value ++ (crlf ++ rest) := by
    rw [Nat.add_assoc, ← List.drop_drop, memory, Field.line, List.append_assoc,
      List.drop_length_add_append]
    rfl
  obtain ⟨blanks, content, split, taken, kept⟩ : ∃ blanks content,
      field.value = blanks ++ content ∧
        field.value.takeWhile (· = 32) = blanks ∧
        field.value.dropWhile (· = 32) = content :=
    ⟨_, _, List.takeWhile_append_dropWhile.symm, rfl, rfl⟩
  have lengths : field.value.length = blanks.length + content.length := by
    rw [split, List.length_append]
  have skipped : skipSpaces (sBuffer.drop
      (lineStartIt + field.name.length + 1))
        (lineStartIt + field.name.length + 1) =
      some (lineStartIt + field.name.length + 1 + blanks.length) := by
    rw [behind, ← taken]
    exact skipSpaces_stops (by decide) _ _ _
  have nameText : (sBuffer.drop lineStartIt).take
      (lineStartIt + field.name.length - lineStartIt) = field.name := by
    rw [Nat.add_sub_cancel_left, memory, Field.line, List.append_assoc,
      List.take_left]
  have valueText : (sBuffer.drop
      (lineStartIt + field.name.length + 1 + blanks.length)).take
        (lineStartIt + field.line.length -
          (lineStartIt + field.name.length + 1 + blanks.length)) =
        content := by
    have count : lineStartIt + field.line.length -
        (lineStartIt + field.name.length + 1 + blanks.length) =
        content.length := by omega
    rw [count, ← List.drop_drop, behind, split, List.append_assoc,
      List.drop_left, List.take_left]
  have announced := announcedLength_eq field parsed.1
  rw [kept] at announced
  simp only [parseHeaderLine, spaced, start, access_some, ok_bind,
    skipBack_stays atColon (by decide), skipBack_stays atEnd (by decide),
    skipped]
  rw [substring_eq (Nat.le_add_right _ _), nameText, ok_bind,
    substring_eq (by omega), valueText, ok_bind, announced, ok_bind, pure_ok,
    Field.header, kept]

/-- The headers behind some fields. -/
def inserted (headers : List Header) (fields : List Field) : List Header :=
  fields.foldl (fun headers field =>
    HttpRequest.insertHeader field.header headers) headers

theorem mem_inserted {fields : List Field} {headers : List Header}
    {header : Header} :
    header ∈ inserted headers fields ↔
      header ∈ headers ∨ ∃ field ∈ fields, header = field.header := by
  induction fields generalizing headers with
  | nil => simp [inserted]
  | cons field fields ih =>
      rw [inserted, List.foldl_cons, ← inserted, ih,
        HttpRequest.insertHeader, Multimap.mem_insert]
      simp only [List.mem_cons, exists_eq_or_imp]
      constructor
      · rintro ((rfl | old) | later)
        · exact .inr (.inl rfl)
        · exact .inl old
        · exact .inr (.inr later)
      · rintro (old | rfl | later)
        · exact .inl (.inr old)
        · exact .inl (.inl rfl)
        · exact .inr later

/-- The line at `lineStartIt` ends where it should, and more lines follow. -/
theorem parseHeaderLoop_more {line rest : List UInt8} {first : Bool}
    {parsed : Nat × List Header} (unended : (13 : UInt8) ∉ line)
    (memory : sBuffer.drop lineStartIt = line ++ (crlf ++ rest))
    (within : lineStartIt + line.length + 2 ≤ headerIt)
    (inside : headerIt ≤ sBuffer.length) (short : headerIt < 2 ^ 31) :
    parseHeaderLoop sBuffer headerIt (turns + 1) lineStartIt first parsed = (do
      let parsed ← parseUnlessFirst sBuffer lineStartIt
        (lineStartIt + line.length) first parsed
      parseHeaderLoop sBuffer headerIt turns (lineStartIt + line.length + 2)
        false parsed) := by
  have ends := first_of_line rest unended
  have found : strnstr (sBuffer.drop lineStartIt) crlf
      (toInt (headerIt - lineStartIt)) = some (some line.length) := by
    rw [toInt_eq (by omega) (by omega),
      strnstr_eq (by decide) (by rw [List.length_drop]; omega), memory,
      find_eq_some_iff.mpr (first_take_iff.mpr ⟨ends, ?_⟩)]
    change line.length + 2 ≤ _
    omega
  rw [parseHeaderLoop, found]
  rfl

/-- The last line ends with the header. -/
theorem parseHeaderLoop_last {line rest : List UInt8} {first : Bool}
    {parsed : Nat × List Header} (unended : (13 : UInt8) ∉ line)
    (memory : sBuffer.drop lineStartIt = line ++ (crlf ++ rest))
    (whole : headerIt = lineStartIt + line.length)
    (inside : headerIt ≤ sBuffer.length) (short : headerIt < 2 ^ 31) :
    parseHeaderLoop sBuffer headerIt (turns + 1) lineStartIt first parsed = (do
      let parsed ← parseUnlessFirst sBuffer lineStartIt headerIt first parsed
      pure (some parsed)) := by
  have ends := first_of_line rest unended
  have none : strnstr (sBuffer.drop lineStartIt) crlf
      (toInt (headerIt - lineStartIt)) = some none := by
    rw [toInt_eq (by omega) (by omega),
      strnstr_eq (by decide) (by rw [List.length_drop]; omega), memory,
      find_eq_none_iff.mpr]
    intro place cut
    obtain ⟨first', fits⟩ := first_take_iff.mp cut
    rw [first'.unique ends] at fits
    change line.length + 2 ≤ _ at fits
    omega
  rw [parseHeaderLoop, none]
  rfl

theorem joined_cons (line : List UInt8) (text : List (List UInt8)) :
    joined (line :: text) = line ++ (crlf ++ joined text) := by
  simp [joined]

/-- All fields are inserted in their order. -/
theorem parseHeaderLoop_fields {field : Field} {fields : List Field}
    {rest : List UInt8} (parsed : Nat × List Header)
    (memory : sBuffer.drop lineStartIt =
      joined ((field :: fields).map Field.line) ++ rest)
    (whole : headerIt + 2 =
      lineStartIt + (joined ((field :: fields).map Field.line)).length)
    (inside : headerIt ≤ sBuffer.length) (short : headerIt < 2 ^ 31)
    (enough : fields.length < turns) :
    ∃ length, parseHeaderLoop sBuffer headerIt turns lineStartIt false parsed =
      .ok (some (length, inserted parsed.2 (field :: fields))) := by
  induction fields generalizing field lineStartIt parsed turns with
  | nil =>
      obtain ⟨turns, rfl⟩ : ∃ fewer, turns = fewer + 1 := ⟨turns - 1, by omega⟩
      have line : sBuffer.drop lineStartIt = field.line ++ (crlf ++ rest) := by
        rw [memory]
        simp [joined]
      have ends : headerIt = lineStartIt + field.line.length := by
        simp [joined, crlf] at whole
        omega
      have run := parseHeaderLine_field field line (by omega) parsed
      refine ⟨field.announced parsed.1, ?_⟩
      rw [parseHeaderLoop_last field.line_plain.unended line ends inside short,
        parseUnlessFirst, if_neg (by decide), ends, run]
      rfl
  | cons next fields ih =>
      obtain ⟨turns, rfl⟩ : ∃ fewer, turns = fewer + 1 := ⟨turns - 1, by omega⟩
      rw [List.length_cons] at enough
      have line : sBuffer.drop lineStartIt = field.line ++ (crlf ++
          (joined ((next :: fields).map Field.line) ++ rest)) := by
        rw [memory, List.map_cons, joined_cons]
        simp
      have lengths : headerIt + 2 = lineStartIt + field.line.length + 2 +
          (joined ((next :: fields).map Field.line)).length := by
        rw [whole, List.map_cons, joined_cons]
        simp [crlf]
        omega
      have some : 2 ≤ (joined ((next :: fields).map Field.line)).length := by
        rw [List.map_cons, joined_cons]
        simp [crlf]
        omega
      have run := parseHeaderLine_field field line (by omega) parsed
      have behind : sBuffer.drop (lineStartIt + field.line.length + 2) =
          joined ((next :: fields).map Field.line) ++ rest := by
        rw [Nat.add_assoc, ← List.drop_drop, line, List.drop_length_add_append]
        rfl
      obtain ⟨length', run'⟩ := ih
        (field.announced parsed.1,
          HttpRequest.insertHeader field.header parsed.2) behind lengths
        (by omega : fields.length < turns)
      refine ⟨length', ?_⟩
      rw [parseHeaderLoop_more field.line_plain.unended line (by omega) inside
        short, parseUnlessFirst, if_neg (by decide), run, ok_bind, run']
      rfl

namespace Request

variable (r : Request)

/-- What follows the method. -/
def behindMethod (more : List UInt8) : List UInt8 :=
  r.target ++ (space ++ (version ++ (crlf ++
    (joined (r.fields.map Field.line) ++ (crlf ++ more)))))

theorem head_split (more : List UInt8) :
    r.head ++ more = r.method ++ (space ++ r.behindMethod more) := by
  simp [head, headLines, joined, requestLine, behindMethod]

theorem head_line (more : List UInt8) :
    r.head ++ more = r.requestLine ++ (crlf ++
      (joined (r.fields.map Field.line) ++ (crlf ++ more))) := by
  simp [head, headLines, joined]

theorem length_requestLine :
    r.requestLine.length = r.method.length + r.target.length + 10 := by
  simp [requestLine, space, ascii, version]
  omega

theorem drop_method (more : List UInt8) :
    (r.head ++ more).drop (r.method.length + 1) = r.behindMethod more := by
  rw [head_split, ← List.drop_drop, List.drop_left]
  rfl

theorem parseHeaderString_fields {more : List UInt8}
    (short : (r.head ++ more).length < 2 ^ 31)
    (enough : r.fields.length + 1 < turns) :
    ∃ length, parseHeaderString turns (r.head ++ more) r.pos =
      .ok (some (length, inserted [] r.fields)) := by
  obtain ⟨turns, rfl⟩ : ∃ fewer, turns = fewer + 1 := ⟨turns - 1, by omega⟩
  have whole := (r.first_blank_line more).1
  have length : r.head.length = r.requestLine.length + 2 +
      (joined (r.fields.map Field.line)).length + 2 := by
    simp [head, headLines, joined_cons, crlf]
    omega
  have total : (r.head ++ more).length = r.head.length + more.length :=
    List.length_append
  have unended := r.requestLine_plain.unended
  have line : (r.head ++ more).drop 0 = r.requestLine ++ (crlf ++
      (joined (r.fields.map Field.line) ++ (crlf ++ more))) := r.head_line more
  cases fields : r.fields with
  | nil =>
      have none : (joined (r.fields.map Field.line)).length = 0 := by
        rw [fields]
        rfl
      refine ⟨2 ^ 64 - 1, ?_⟩
      rw [parseHeaderString, parseHeaderLoop_last unended line (by omega)
        (by omega) (by omega), parseUnlessFirst, if_pos rfl]
      rfl
  | cons field rest =>
      rw [fields, List.length_cons] at enough
      have some : 2 ≤ (joined (r.fields.map Field.line)).length := by
        rw [fields, List.map_cons, joined_cons]
        simp [crlf]
        omega
      have behind : (r.head ++ more).drop (0 + r.requestLine.length + 2) =
          joined ((field :: rest).map Field.line) ++ (crlf ++ more) := by
        rw [Nat.zero_add, head_line, List.drop_length_add_append, ← fields]
        rfl
      rw [fields] at length some
      obtain ⟨count, run⟩ := parseHeaderLoop_fields (2 ^ 64 - 1, []) behind
        (by omega : r.pos + 2 = _) (by omega) (by omega)
        (by omega : rest.length < turns)
      refine ⟨count, ?_⟩
      rw [parseHeaderString, parseHeaderLoop_more unended line (by omega)
        (by omega) (by omega), parseUnlessFirst, if_pos rfl, ok_bind, run]

theorem absoluteURL_ok (sURL more : List UInt8) (request : HttpRequest) :
    ∃ url, absoluteURL (r.head ++ more) r.method.length sURL request =
      .ok url := by
  rw [absoluteURL, drop_method, behindMethod, space, ascii]
  change ∃ url, (do
    if ← access (strncasecmp (ascii "https://") (r.target ++ 32 :: _)) then
      pure sURL
    else if ← access (strncasecmp (ascii "http://") (r.target ++ 32 :: _)) then
      pure sURL
    else
      pure (ascii "http://" ++ request.getHost ++ sURL)) = Except.ok url
  rw [strncasecmp_line _ (by decide), strncasecmp_line _ (by decide)]
  simp only [access_some, ok_bind]
  split
  · exact ⟨_, rfl⟩
  · split
    · exact ⟨_, rfl⟩
    · exact ⟨_, rfl⟩

theorem first_space_target (more : List UInt8) :
    First space (r.behindMethod more) r.target.length := by
  have here : First space (space ++ (version ++ (crlf ++
      (joined (r.fields.map Field.line) ++ (crlf ++ more))))) 0 :=
    ⟨List.prefix_append _ _, fun _ before => absurd before (by omega)⟩
  refine here.behind fun start within => ?_
  rw [List.drop_append_of_le_length within.le,
    List.drop_eq_getElem_cons within]
  rintro ⟨tail, same⟩
  injection same with byte _
  exact ne_of_class (r.targetVisible _ (List.getElem_mem within)) (by decide)
    byte.symm

theorem parseRequestHeader_fields {more : List UInt8} (request : HttpRequest)
    (short : (r.head ++ more).length < 2 ^ 31)
    (enough : r.fields.length + 1 < turns) :
    ∃ parsed, parseRequestHeader turns (r.head ++ more) r.pos request =
        .ok (some parsed) ∧ parsed.headers = inserted [] r.fields := by
  have length := r.length_requestLine
  have fits : r.requestLine.length ≤ (r.head ++ more).length := by
    rw [head_line, List.length_append]
    omega
  have line : strstr crlf (r.head ++ more) =
      some (some r.requestLine.length) := by
    rw [head_line]
    refine strstr_found (by decide)
      (first_of_line _ r.requestLine_plain.unended) ?_
    rw [List.take_left]
    exact r.requestLine_plain.nonzero
  have f1 : strnstr (r.head ++ more) space (toInt r.requestLine.length) =
      some (some r.method.length) := by
    rw [toInt_eq (by omega) (by omega), strnstr_eq (by decide) (by omega),
      find_eq_some_iff.mpr (first_take_iff.mpr ⟨r.first_space more, ?_⟩)]
    change r.method.length + 1 ≤ _
    omega
  have f2 : strnstr ((r.head ++ more).drop (r.method.length + 1)) space
      (toInt ((r.requestLine.length : Int) - r.method.length + 1)) =
        some (some r.target.length) := by
    have room : r.method.length + 1 + (r.behindMethod more).length =
        (r.head ++ more).length := by
      rw [← drop_method, List.length_drop]
      omega
    have enough : r.target.length + 11 ≤ (r.behindMethod more).length := by
      simp [behindMethod, version, ascii, space, crlf]
    rw [toInt_eq (by omega) (by omega), drop_method,
      strnstr_eq (by decide) (by omega),
      find_eq_some_iff.mpr (first_take_iff.mpr
        ⟨r.first_space_target more, ?_⟩)]
    change r.target.length + 1 ≤ _
    omega
  obtain ⟨count, fields⟩ := r.parseHeaderString_fields short enough
  rw [parseRequestHeader, line]
  simp only [access_some, ok_bind, f1]
  rw [if_neg (by omega)]
  simp only [f2, access_some, ok_bind]
  rw [if_neg (by omega), substring_eq (by omega), ok_bind,
    substring_eq (by omega), ok_bind, fields, ok_bind]
  simp only []
  obtain ⟨url, run⟩ := r.absoluteURL_ok _ more _
  rw [run, ok_bind]
  exact ⟨_, rfl, rfl⟩

end Request

theorem caseKey_eq_iff {a b : List UInt8} (whole : (0 : UInt8) ∉ a)
    (whole' : (0 : UInt8) ∉ b) :
    caseKey a = caseKey b ↔ a.map tolower = b.map tolower := by
  have all : ∀ s : List UInt8, 0 ∉ s →
      caseKey s = (s.map tolower).map UInt8.toNat := by
    intro s whole
    have kept : s.takeWhile (· ≠ 0) = s := by
      rw [List.takeWhile_eq_self_iff]
      intro c member
      simpa using fun zero : c = 0 => whole (zero ▸ member)
    rw [caseKey, kept, List.map_map]
    rfl
  rw [all a whole, all b whole']
  exact (List.map_injective_iff.mpr fun _ _ => UInt8.toNat_inj.mp).eq_iff

section Finding

variable {fields : List Field} {name : List UInt8} {request : HttpRequest}
  (headers : request.headers = inserted [] fields)
  (whole : (0 : UInt8) ∉ name)

include headers whole

theorem findHeader_sound {header : Header}
    (found : request.findHeader name = some header) :
    ∃ field ∈ fields, header = field.header ∧ field.Named name := by
  have key := List.find?_some found
  have member := List.mem_of_find?_eq_some found
  rw [headers, mem_inserted] at member
  obtain ⟨field, listed, rfl⟩ :=
    member.resolve_left List.not_mem_nil
  refine ⟨field, listed, rfl, ?_⟩
  have nonzero : (0 : UInt8) ∉ field.name := fun zero =>
    ne_of_class (field.token _ zero) (by decide) rfl
  exact (caseKey_eq_iff nonzero whole).mp (of_decide_eq_true key)

theorem findHeader_none (unnamed : ∀ field ∈ fields, ¬ field.Named name) :
    request.findHeader name = none := by
  cases found : request.findHeader name with
  | none => rfl
  | some header =>
      obtain ⟨field, listed, _, named⟩ := findHeader_sound headers whole found
      exact absurd named (unnamed field listed)

theorem findHeader_only {field : Field} (listed : field ∈ fields)
    (named : field.Named name)
    (only : ∀ other ∈ fields, other.Named name → other = field) :
    request.findHeader name = some field.header := by
  cases found : request.findHeader name with
  | none =>
      have nonzero : (0 : UInt8) ∉ field.name := fun zero =>
        ne_of_class (field.token _ zero) (by decide) rfl
      have member : field.header ∈ request.headers := by
        rw [headers, mem_inserted]
        exact .inr ⟨field, listed, rfl⟩
      have missed := List.find?_eq_none.mp found _ member
      exact absurd (decide_eq_true
        ((caseKey_eq_iff nonzero whole).mpr named)) missed
  | some header =>
      obtain ⟨other, listed', rfl, named'⟩ :=
        findHeader_sound headers whole found
      rw [only other listed' named']

end Finding

/-- The headers say how long the body is, and nothing about chunks. -/
theorem headers_plain {fields : List Field} {body : Body}
    {request : HttpRequest} (framed : Framed fields body)
    (plain : ¬ body.Chunked) (fits : body.bytes.length < 2 ^ 64)
    (headers : request.headers = inserted [] fields) :
    request.findHeader (ascii "Transfer-Encoding") = none ∧
      request.getContentLength = body.bytes.length := by
  cases body with
  | chunked chunks zeros => exact absurd trivial plain
  | none =>
      refine ⟨findHeader_none headers (by decide) fun field listed =>
        (framed field listed).2, ?_⟩
      rw [HttpRequest.getContentLength, HttpRequest.getHeader,
        findHeader_none headers (by decide) fun field listed =>
          (framed field listed).1]
      rfl
  | sized content =>
      obtain ⟨before, field, behind, rfl, named, announced, neutral, neutral'⟩ :=
        framed
      have others : ∀ other ∈ before ++ field :: behind,
          other.Neutral ∨ other = field := by
        intro other member
        rcases List.mem_append.mp member with front | back
        · exact .inl (neutral other front)
        · rcases List.mem_cons.mp back with same | back
          · exact .inr same
          · exact .inl (neutral' other back)
      constructor
      · refine findHeader_none headers (by decide) fun other member => ?_
        rcases others other member with neutral | rfl
        · exact neutral.2
        · intro named'
          have lengths := congrArg List.length (named.symm.trans named')
          exact absurd lengths (by decide)
      · have found := findHeader_only headers (by decide) (by simp) named
          fun other member named' =>
            (others other member).resolve_left fun neutral =>
              neutral.1 named'
        obtain ⟨blanks, word, behind', value, blank, blank', decimal⟩ :=
          announced
        obtain ⟨c, tail, same⟩ :=
          List.exists_cons_of_ne_nil decimal.nonempty
        have digit := decimal.digit c (by rw [same]; exact List.mem_cons_self)
        have other : decide (c = 32) = false := by
          simpa using ne_of_class digit (by decide : isDigit 32 = false)
        have stops := dropWhile_stops (p := fun c => decide (c = 32)) other
          blanks (tail ++ behind')
        rw [HttpRequest.getContentLength, HttpRequest.getHeader, found]
        simp only [Field.header]
        rw [value, same, List.cons_append, stops, ← List.cons_append, ← same]
        refine strto_decimal ?_ blank' decimal fits
        intro c member
        exact blank c ((List.dropWhile_sublist _).subset member)

namespace Request

variable (r : Request)

/-- A well-formed request without chunks is decoded. -/
theorem decode_plain (known : r.Known) (plain : ¬ r.body.Chunked)
    (short : r.bytes.length < 2 ^ 31) (enough : r.fields.length + 1 < turns)
    (request : HttpRequest) :
    ∃ decoded, decode turns r.bytes request = .ok (some (true, decoded)) := by
  have head : HasHead r.bytes r.pos := r.hasHead known short
  have method : strnstr r.bytes space 10 = some (some r.method.length) := by
    obtain ⟨place, first, near, _⟩ := head.method
    rw [first.unique (r.first_space r.body.bytes)] at near
    exact strnstr_method head.long (r.first_space r.body.bytes) near
  have text : r.bytes.take r.method.length = r.method := by
    rw [bytes, head_split, List.take_left]
  obtain ⟨type, listed⟩ := Option.isSome_iff_exists.mp known
  have blank : strnstr r.bytes crlfcrlf (toInt r.bytes.length) =
      some (some r.pos) := by
    rw [strnstr_eq (by decide) (toInt_length_le _), find_eq_some_iff.mpr
      (first_take_iff.mpr ⟨head.blank, ?_⟩)]
    have reached := head.reached
    change r.pos + 4 ≤ _
    omega
  have whole := (r.first_blank_line r.body.bytes).1
  have length : r.bytes.length = r.head.length + r.body.bytes.length :=
    List.length_append
  obtain ⟨parsed, run, headers⟩ := r.parseRequestHeader_fields
    { request with requestType := type } short enough
  obtain ⟨unchunked, announced⟩ :=
    headers_plain r.framed plain (by omega) headers
  rw [decode, method]
  simp only [access_some, ok_bind, text, listed, blank]
  rw [bytes, run, ok_bind]
  simp only [decodeBody]
  rw [if_neg]
  · refine ⟨_, congrArg (fun answer => Except.ok (some (answer, _))) ?_⟩
    rw [decide_eq_true_eq, wholeLength]
    change ((parsed.getContentLength : Int) + (r.pos + 4 : Nat) + 0) % 2 ^ 64 =
      r.bytes.length
    rw [announced]
    omega
  · change ¬ (HttpRequest.checkHeader _ _ parsed) = true
    rw [HttpRequest.checkHeader, unchunked]
    exact Bool.false_ne_true

end Request

end TarsCpp.Http
