import TarsCpp.Http.ResponseOutcomes

/-!
# When both decoders agree

A body without a zero byte is the same for both.  What else can keep them apart
is the header of an empty body, which `decode` writes anew, and a length other
than that of the body, which a field whose name begins like that of the length
announces.
-/

namespace TarsCpp.Http

open CString NetworkBuffer

structure HttpResponse.Same (decoded incremented : HttpResponse) : Prop where
  status : decoded.status = incremented.status
  headers : decoded.headers = incremented.headers
  content : decoded.content = incremented.content

theorem HttpResponse.Same.refl (response : HttpResponse) :
    response.Same response := ⟨rfl, rfl, rfl⟩

/-- Both decoders take the bytes for a complete response, and for the same. -/
def AgreesOn (garbage : Garbage) (net : NetWorkBuffer) (s : List UInt8) :
    Prop :=
  ∃ enough decoded incremented, ∀ turns ≥ enough,
    HttpResponse.decode turns s {} = .ok (some (true, decoded)) ∧
      (∃ next, HttpResponse.incrementDecode garbage turns {} net =
        .ok (some (true, incremented, next))) ∧
      decoded.Same incremented

section Outcomes

variable {garbage : Garbage} {net : NetWorkBuffer} {s : List UInt8}

theorem agreesOn_iff_of_runs {enough : Nat} {whole : Bool × HttpResponse}
    {flag : Bool} {incremented : HttpResponse}
    (runs : ∀ turns ≥ enough,
      HttpResponse.decode turns s {} = .ok (some whole) ∧
        ∃ next, HttpResponse.incrementDecode garbage turns {} net =
          .ok (some (flag, incremented, next))) :
    AgreesOn garbage net s ↔
      whole.1 = true ∧ flag = true ∧ whole.2.Same incremented := by
  constructor
  · rintro ⟨enough', decoded', incremented', agree⟩
    obtain ⟨run, next, run'⟩ := runs (max enough enough') (le_max_left _ _)
    obtain ⟨agreed, ⟨next', agreed'⟩, same⟩ :=
      agree (max enough enough') (le_max_right _ _)
    rw [run] at agreed
    rw [run'] at agreed'
    cases agreed
    cases agreed'
    exact ⟨rfl, rfl, same⟩
  · rintro ⟨complete, complete', same⟩
    refine ⟨enough, whole.2, incremented, fun turns least => ?_⟩
    obtain ⟨run, next, run'⟩ := runs turns least
    refine ⟨?_, ⟨next, complete' ▸ run'⟩, same⟩
    rw [run, ← complete]

theorem not_agreesOn {enough : Nat}
    (run : ∀ turns ≥ enough, ∃ decoded,
      HttpResponse.decode turns s {} = .ok (some (false, decoded))) :
    ¬ AgreesOn garbage net s := by
  rintro ⟨enough', decoded', incremented, agree⟩
  obtain ⟨agreed, _⟩ := agree (max enough enough') (le_max_right _ _)
  obtain ⟨decoded, refused⟩ := run _ (le_max_left enough enough')
  rw [refused] at agreed
  cases agreed

/-- Both make the same of a body that does not come in chunks. -/
def HttpResponse.AgreesWith (body : List UInt8) (response : HttpResponse) :
    Prop :=
  if response.iTmpContentLength = 0 then
    0 ∉ body ∧
      (body = [] → (response.setContentLength 0).headers = response.headers)
  else if response.iTmpContentLength = 2 ^ 64 - 1 then
    response.status = 304 ∨ response.status = 302
  else
    0 ∉ body ∧ response.iTmpContentLength ≤ body.length

/-- Nothing has been received. -/
structure HttpResponse.Fresh (response : HttpResponse) : Prop where
  content : response.content = []
  received : response.iRecvContentLength = 0

variable {response : HttpResponse} {data : Buffer} {body : List UInt8}

theorem HttpResponse.Fresh.addContent (fresh : response.Fresh)
    (body : List UInt8) : (response.addContent body).content = body ∧
      (response.addContent body).iRecvContentLength = body.length := by
  simp [HttpResponse.addContent, fresh.content, fresh.received]

theorem content_zero (represents : Represents data body)
    (fresh : response.Fresh) (zero : response.iTmpContentLength = 0)
    (iLength : Nat) :
    ∃ whole incremented,
      response.decodeAllContent (body ++ [0]) iLength = .ok whole ∧
        response.decodeContent data =
          .ok (some (true, incremented, data.clear)) ∧
        (whole.1 = true ∧ whole.2.Same incremented ↔
          0 ∉ body ∧ (body = [] →
            (response.setContentLength 0).headers = response.headers)) := by
  have string : CString.string (body ++ [0]) =
      some (body.takeWhile (· ≠ 0)) := string_ended body []
  obtain ⟨content, received⟩ := fresh.addContent body
  obtain ⟨seen, counted⟩ := fresh.addContent (body.takeWhile (· ≠ 0))
  have whole : response.decodeAllContent (body ++ [0]) iLength =
      .ok (true, (response.addContent (body.takeWhile (· ≠ 0))).setContentLength
        (body.takeWhile (· ≠ 0)).length) := by
    rw [HttpResponse.decodeAllContent, if_pos zero, string, access_some,
      ok_bind, ← counted]
    rfl
  have incremented : response.decodeContent data = .ok (some (true,
      (response.addContent body).setReceivedLength, data.clear)) := by
    rw [HttpResponse.decodeContent, if_pos zero, represents.content_eq,
      ok_bind]
    rfl
  have nothing : (response.addContent []).setReceivedLength = response := by
    rw [HttpResponse.addContent_nil, HttpResponse.setReceivedLength,
      fresh.received, if_neg (Nat.lt_irrefl 0)]
  refine ⟨_, _, whole, incremented, ?_⟩
  have kept : (response.addContent body).setReceivedLength.content = body := by
    rw [HttpResponse.setReceivedLength]
    split
    · exact content
    · exact content
  constructor
  · rintro ⟨_, same⟩
    have equal : body.takeWhile (· ≠ 0) = body :=
      (seen.symm.trans same.content).trans kept
    refine ⟨takeWhile_eq_self_iff.mp equal, ?_⟩
    rintro rfl
    have headers := same.headers
    rw [nothing] at headers
    exact headers
  · rintro ⟨absent, canonical⟩
    have equal := takeWhile_eq_self_iff.mpr absent
    rw [equal]
    refine ⟨rfl, ?_⟩
    by_cases nonempty : body = []
    · subst nonempty
      rw [nothing, HttpResponse.addContent_nil]
      exact ⟨rfl, canonical rfl, rfl⟩
    · have positive := List.length_pos_of_ne_nil nonempty
      rw [HttpResponse.setReceivedLength, received, if_pos positive]
      exact .refl _

theorem content_unknown (represents : Represents data body)
    (nonzero : response.iTmpContentLength ≠ 0)
    (unknown : response.iTmpContentLength = 2 ^ 64 - 1) (iLength : Nat) :
    ∃ whole flag incremented data',
      response.decodeAllContent (body ++ [0]) iLength = .ok whole ∧
        response.decodeContent data = .ok (some (flag, incremented, data')) ∧
        data'.length ≤ body.length ∧
        (whole.1 = true ∧ flag = true ∧ whole.2.Same incremented ↔
          response.status = 304 ∨ response.status = 302) := by
  have string : CString.string (body ++ [0]) =
      some (body.takeWhile (· ≠ 0)) := string_ended body []
  by_cases final : response.status = 304 ∨ response.status = 302
  · refine ⟨(true, response), true, response, data, ?_, ?_,
      represents.length_eq.le, ?_⟩
    · rw [HttpResponse.decodeAllContent, if_neg nonzero, if_pos unknown,
        if_pos final]
      rfl
    · rw [HttpResponse.decodeContent, if_neg nonzero, if_pos unknown,
        if_pos final]
      rfl
    · exact ⟨fun _ => final, fun _ => ⟨rfl, rfl, .refl _⟩⟩
  · let seen := response.addContent (body.takeWhile (· ≠ 0))
    refine ⟨(true, seen.setContentLength seen.iRecvContentLength), false,
      (response.addContent body).setReceivedLength, data.clear, ?_, ?_,
      Nat.zero_le _, ?_⟩
    · rw [HttpResponse.decodeAllContent, if_neg nonzero, if_pos unknown,
        if_neg final, string, access_some, ok_bind]
      rfl
    · rw [HttpResponse.decodeContent, if_neg nonzero, if_pos unknown,
        if_neg final, represents.content_eq, ok_bind]
      rfl
    · constructor
      · rintro ⟨_, incomplete, _⟩
        cases incomplete
      · intro status
        exact absurd status final

/-- What stands in front of a zero byte is received, and it may be enough. -/
theorem decodeAllContent_counted (fresh : response.Fresh)
    (nonzero : response.iTmpContentLength ≠ 0)
    (known : response.iTmpContentLength ≠ 2 ^ 64 - 1) (iLength : Nat) :
    ∃ complete : Bool,
      response.decodeAllContent (body ++ [0]) iLength =
        .ok (complete, response.addContent (body.takeWhile (· ≠ 0))) ∧
      (response.iTmpContentLength ≤ (body.takeWhile (· ≠ 0)).length →
        complete = true) := by
  have string : CString.string (body ++ [0]) =
      some (body.takeWhile (· ≠ 0)) := string_ended body []
  obtain ⟨_, counted⟩ := fresh.addContent (body.takeWhile (· ≠ 0))
  rw [HttpResponse.decodeAllContent, if_neg nonzero, if_neg known, string,
    access_some, ok_bind, ← counted]
  by_cases reached : response.iTmpContentLength ≤
      (response.addContent (body.takeWhile (· ≠ 0))).iRecvContentLength
  · exact ⟨true, if_pos reached, fun _ => rfl⟩
  · exact ⟨_, if_neg reached, fun least => absurd least reached⟩

theorem content_counted (represents : Represents data body)
    (fresh : response.Fresh) (nonzero : response.iTmpContentLength ≠ 0)
    (known : response.iTmpContentLength ≠ 2 ^ 64 - 1) (iLength : Nat) :
    ∃ whole flag incremented,
      response.decodeAllContent (body ++ [0]) iLength = .ok whole ∧
        response.decodeContent data =
          .ok (some (flag, incremented, data.clear)) ∧
        (whole.1 = true ∧ flag = true ∧ whole.2.Same incremented ↔
          0 ∉ body ∧ response.iTmpContentLength ≤ body.length) := by
  obtain ⟨content, received⟩ := fresh.addContent body
  obtain ⟨seen, _⟩ := fresh.addContent (body.takeWhile (· ≠ 0))
  obtain ⟨complete, whole, reached⟩ :=
    @decodeAllContent_counted response body fresh nonzero known iLength
  have incremented : response.decodeContent data = .ok (some
      (decide (¬ response.iTmpContentLength > body.length),
        response.addContent body, data.clear)) := by
    rw [HttpResponse.decodeContent, if_neg nonzero, if_neg known,
      represents.content_eq, ok_bind, ← received]
    rfl
  refine ⟨_, _, _, whole, incremented, ?_⟩
  constructor
  · rintro ⟨_, arrived, same⟩
    have equal : body.takeWhile (· ≠ 0) = body :=
      (seen.symm.trans same.content).trans content
    exact ⟨takeWhile_eq_self_iff.mp equal,
      Nat.not_lt.mp (of_decide_eq_true arrived)⟩
  · rintro ⟨absent, arrived⟩
    have equal := takeWhile_eq_self_iff.mpr absent
    rw [equal] at reached
    refine ⟨reached arrived, decide_eq_true (Nat.not_lt.mpr arrived), ?_⟩
    rw [equal]
    exact .refl _

/-- What both make of the body, and when it is the same. -/
theorem content_outcome (represents : Represents data body)
    (fresh : response.Fresh) (iLength : Nat) :
    ∃ whole flag incremented data',
      response.decodeAllContent (body ++ [0]) iLength = .ok whole ∧
        response.decodeContent data = .ok (some (flag, incremented, data')) ∧
        data'.length ≤ body.length ∧
        (whole.1 = true ∧ flag = true ∧ whole.2.Same incremented ↔
          response.AgreesWith body) := by
  unfold HttpResponse.AgreesWith
  by_cases zero : response.iTmpContentLength = 0
  · obtain ⟨whole, incremented, run, run', same⟩ :=
      content_zero represents fresh zero iLength
    refine ⟨whole, true, incremented, _, run, run', Nat.zero_le _, ?_⟩
    rw [if_pos zero, ← same]
    simp
  · rw [if_neg zero]
    by_cases unknown : response.iTmpContentLength = 2 ^ 64 - 1
    · obtain ⟨whole, flag, incremented, data', run, run', smaller, same⟩ :=
        content_unknown represents zero unknown iLength
      refine ⟨whole, flag, incremented, data', run, run', smaller, ?_⟩
      rw [if_pos unknown, same]
    · obtain ⟨whole, flag, incremented, run, run', same⟩ :=
        content_counted represents fresh zero unknown iLength
      refine ⟨whole, flag, incremented, _, run, run', Nat.zero_le _, ?_⟩
      rw [if_neg unknown, same]

end Outcomes

theorem HttpResponse.noteChunks_eq (response : HttpResponse) :
    response.noteChunks =
      if response.checkHeader (ascii "Transfer-Encoding") (ascii "chunked") then
        { response.eraseHeader (ascii "Transfer-Encoding") with
          bIsChunked := true }
      else
        { response with bIsChunked := false } := rfl

section Heads

variable {h : Head} {more : List UInt8} {garbage : Garbage}
  {net : NetWorkBuffer}

theorem Head.bytes_ne_nil (more : List UInt8) : h.bytes ++ more ≠ [] := by
  obtain ⟨p, whole, _⟩ := h.first_blank_line more
  apply List.ne_nil_of_length_pos
  rw [List.length_append]
  omega

theorem Head.agreesOn_bodiless (garbage : Garbage)
    (refines : net.Refines (h.bytes ++ more))
    (short : (h.bytes ++ more).length < 2 ^ 31) (bodiless : h.Bodiless) :
    AgreesOn garbage net (h.bytes ++ more) := by
  obtain ⟨headLength, decoded⟩ := decode_bodiless short bodiless
  obtain ⟨data, holds, lift⟩ := incrementDecode_merged garbage refines
    (h.bytes_ne_nil more) (by omega)
  refine ⟨h.fields.length + 3, h.parsed { headLength := headLength },
    h.started, fun turns enough => ?_⟩
  obtain ⟨data', left, smaller⟩ :=
    @leaveHead_bodiless h more turns data garbage holds short bodiless
  refine ⟨decoded turns enough, lift turns {} _ true data' ?_ smaller, rfl, rfl,
    rfl⟩
  rw [incrementDecodeBuffer_head holds short enough, left]

theorem Head.fresh_noteChunks (h : Head) : h.started.noteChunks.Fresh := by
  rw [HttpResponse.noteChunks_eq]
  split
  · exact ⟨rfl, rfl⟩
  · exact ⟨rfl, rfl⟩

theorem Head.headLength_noteChunks (h : Head) :
    h.started.noteChunks.headLength = h.bytes.length := by
  rw [HttpResponse.noteChunks_eq]
  split
  · rfl
  · rfl

theorem Head.agreesOn_content (garbage : Garbage)
    (refines : net.Refines (h.bytes ++ more))
    (short : (h.bytes ++ more).length < 2 ^ 31) (other : ¬ h.Bodiless)
    (plain : h.started.noteChunks.bIsChunked = false) :
    AgreesOn garbage net (h.bytes ++ more) ↔
      h.started.noteChunks.AgreesWith more := by
  obtain ⟨data, holds, lift⟩ := incrementDecode_merged garbage refines
    (h.bytes_ne_nil more) (by omega)
  have total : (h.bytes ++ more).length = h.bytes.length + more.length :=
    List.length_append
  obtain ⟨last, represents, left⟩ :=
    @leaveHead_body h more data garbage holds short other
  obtain ⟨whole, flag, incremented, data', run, run', smaller, same⟩ :=
    content_outcome represents h.fresh_noteChunks (h.bytes ++ more).length
  rw [← same]
  apply @agreesOn_iff_of_runs _ _ _ (h.fields.length + 3)
  intro turns enough
  have behind : (h.bytes ++ (more ++ [0])).drop
      h.started.noteChunks.headLength = more ++ [0] := by
    rw [h.headLength_noteChunks, List.drop_left]
  have body : HttpResponse.decodeBody turns h.started.noteChunks last =
      .ok (some (flag, incremented, data')) := by
    rw [HttpResponse.decodeBody, plain, if_neg Bool.false_ne_true, run']
  constructor
  · rw [decode_body short enough other, HttpResponse.decodeAllBody, plain,
      if_neg Bool.false_ne_true, behind, run]
    rfl
  · apply lift turns {} incremented flag data' _ (by omega)
    rw [incrementDecodeBuffer_head holds short enough, left, body]

theorem Head.agreesOn_chunks (garbage : Garbage) {pieces : List Piece}
    {zeros : Nat} {extension : Extension} {rest : List UInt8}
    (chunks : more = pieces.flatMap Piece.bytes ++
      (lastLine zeros extension ++ rest))
    (refines : net.Refines (h.bytes ++ more))
    (short : (h.bytes ++ more).length < 2 ^ 31) (other : ¬ h.Bodiless)
    (chunked : h.started.noteChunks.bIsChunked = true)
    (bare : ∀ piece ∈ pieces, piece.2.text = []) :
    AgreesOn garbage net (h.bytes ++ more) ↔
      ∀ piece ∈ pieces, 0 ∉ piece.1.data := by
  obtain ⟨data, holds, lift⟩ := incrementDecode_merged garbage refines
    (h.bytes_ne_nil more) (by omega)
  have total : (h.bytes ++ more).length = h.bytes.length + more.length :=
    List.length_append
  obtain ⟨last, represents, left⟩ :=
    @leaveHead_body h more data garbage holds short other
  have nonempty : more ≠ [] := by
    rw [chunks]
    simp [lastLine, crlf]
  have holds' := represents.holds_of_ne_nil nonempty
  rw [chunks] at holds'
  have behind : (h.bytes ++ (more ++ [0])).drop
      h.started.noteChunks.headLength =
        pieces.flatMap Piece.bytes ++ (lastLine zeros extension ++ rest) ++
          [0] := by
    rw [h.headLength_noteChunks, List.drop_left, chunks]
  have whole : h.started.noteChunks.headLength + (pieces.flatMap Piece.bytes ++
      (lastLine zeros extension ++ rest)).length =
        (h.bytes ++ more).length := by
    rw [h.headLength_noteChunks, ← chunks, total]
  have decoded : ∀ turns ≥ h.fields.length + 3 + pieces.length,
      HttpResponse.decode turns (h.bytes ++ more) {} =
        HttpResponse.decodeAllChunks (h.bytes ++ (more ++ [0]))
          (h.bytes ++ more).length turns h.started.noteChunks.headLength
          h.started.noteChunks := by
    intro turns enough
    rw [decode_body short (by omega) other, HttpResponse.decodeAllBody, chunked,
      if_pos rfl]
  by_cases absent : ∀ piece ∈ pieces, 0 ∉ piece.1.data
  · let taken := h.started.noteChunks.addContent
      (pieces.flatMap fun piece => piece.1.data)
    let finished := taken.setContentLength taken.iRecvContentLength
    refine iff_of_true ⟨h.fields.length + 3 + pieces.length, finished, finished,
      fun turns enough => ?_⟩ absent
    obtain ⟨run, run_eq, described⟩ :=
      @HttpResponse.decodeAllChunks_pieces h.started.noteChunks _ _ _ _ turns
        pieces _ _ behind whole short (by omega)
    rw [if_pos absent] at described
    obtain ⟨data', buffered, empty⟩ :=
      @HttpResponse.decodeChunks_pieces h.started.noteChunks _ _ turns pieces
        _ _ bare holds' (by rw [← chunks]; omega) (by omega)
    refine ⟨?_, ?_, .refl _⟩
    · rw [decoded turns enough, run_eq, described]
    · apply lift turns {} _ true data' _ (by omega)
      rw [incrementDecodeBuffer_head holds short (by omega), left,
        HttpResponse.decodeBody, chunked, if_pos rfl, buffered]
  · refine iff_of_false
      (@not_agreesOn _ _ _ (h.fields.length + 3 + pieces.length) ?_) absent
    intro turns enough
    obtain ⟨⟨flag, refused⟩, run, described⟩ :=
      @HttpResponse.decodeAllChunks_pieces h.started.noteChunks _ _ _ _ turns
        pieces _ _ behind whole short (by omega)
    rw [if_neg absent] at described
    obtain rfl : flag = false := described
    exact ⟨refused, by rw [decoded turns enough, run]⟩

end Heads

end TarsCpp.Http
