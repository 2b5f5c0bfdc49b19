import TarsCpp.Http.Delimiting
import TarsCpp.Http.ResponseBodies

/-!
# What the two decoders make of a response

Both read the head, both stop there for some states, and then each reads the
body in its own way.
-/

namespace TarsCpp.Http

open CString NetworkBuffer

namespace Head

variable (h : Head)

/-- The response in front of the body. -/
def started : HttpResponse := h.parsed { headLength := h.bytes.length }

/-- The response is taken for complete without its body. -/
def Bodiless : Prop :=
  (204 = h.started.status ∨ 304 = h.started.status) ∨
    (h.started.status = 301 ∨ h.started.status = 302) ∧
      h.started.hasHeader (ascii "Location")

end Head

section Whole

variable {h : Head} {more : List UInt8} {turns : Nat}

/-- The blank line is found in the string. -/
theorem strnstr_blank_line (short : (h.bytes ++ more).length < 2 ^ 31)
    (rest : List UInt8) :
    ∃ p, h.bytes.length = p + 4 ∧
      strnstr (h.bytes ++ (more ++ rest)) crlfcrlf
        (toInt (h.bytes ++ more).length) = some (some p) := by
  obtain ⟨p, whole, first⟩ := h.first_blank_line (more ++ rest)
  rw [List.length_append] at short
  refine ⟨p, whole, ?_⟩
  rw [List.length_append, toInt_eq (by omega) (by omega),
    strnstr_eq (by decide) (by simp), find_eq_some_iff.mpr
      (first_take_iff.mpr ⟨first, ?_⟩)]
  change p + 4 ≤ _
  omega

theorem decode_head (short : (h.bytes ++ more).length < 2 ^ 31)
    (enough : h.fields.length + 3 ≤ turns) :
    HttpResponse.decode turns (h.bytes ++ more) {} =
      if 204 = h.started.status ∨ 304 = h.started.status then
        .ok (some (true, h.parsed {}))
      else if (h.started.status = 301 ∨ h.started.status = 302) ∧
          h.started.hasHeader (ascii "Location") then
        .ok (some (true, h.started))
      else
        HttpResponse.decodeAllBody turns (h.bytes ++ (more ++ [0]))
          (h.bytes ++ more).length h.started.noteChunks := by
  obtain ⟨p, whole, found⟩ := strnstr_blank_line short [0]
  have total : (h.bytes ++ more).length = h.bytes.length + more.length :=
    List.length_append
  have parsed := @Head.parseResponseHeaderString_head h (more ++ [0]) (p + 2)
    turns {} (.inl (by omega)) (by omega) enough
  rw [HttpResponse.decode, HttpResponse.decodeMemory, List.append_assoc, found]
  simp only [access_some, ok_bind, parsed]
  rw [← whole]
  rfl

theorem decode_bodiless (short : (h.bytes ++ more).length < 2 ^ 31)
    (bodiless : h.Bodiless) :
    ∃ headLength, ∀ turns ≥ h.fields.length + 3,
      HttpResponse.decode turns (h.bytes ++ more) {} =
        .ok (some (true, h.parsed { headLength := headLength })) := by
  by_cases final : 204 = h.started.status ∨ 304 = h.started.status
  · refine ⟨0, fun turns enough => ?_⟩
    rw [decode_head short enough, if_pos final]
  · refine ⟨h.bytes.length, fun turns enough => ?_⟩
    rw [decode_head short enough, if_neg final,
      if_pos (bodiless.resolve_left final)]
    rfl

theorem decode_body (short : (h.bytes ++ more).length < 2 ^ 31)
    (enough : h.fields.length + 3 ≤ turns) (other : ¬ h.Bodiless) :
    HttpResponse.decode turns (h.bytes ++ more) {} =
      HttpResponse.decodeAllBody turns (h.bytes ++ (more ++ [0]))
        (h.bytes ++ more).length h.started.noteChunks := by
  obtain ⟨unfinished, elsewhere⟩ := not_or.mp other
  rw [decode_head short enough, if_neg unfinished, if_neg elsewhere]

/-- A length that is no positive `int`. -/
theorem decode_long {s : List UInt8} (least : 2 ^ 31 ≤ s.length)
    (most : s.length < 2 ^ 32) :
    HttpResponse.decode turns s {} = .ok (some (false, {})) := by
  have negative : toInt s.length < 0 := by
    unfold toInt
    omega
  have nothing : strnstr (s ++ [0]) crlfcrlf (toInt s.length) = some none := by
    rw [strnstr_eq (by decide) (by simp; omega),
      Int.toNat_of_nonpos negative.le, List.take_zero, find,
      if_neg (by decide)]
  rw [HttpResponse.decode, HttpResponse.decodeMemory, nothing]
  rfl

end Whole

section Incremental

variable {h : Head} {more queue : List UInt8} {turns : Nat} {data : Buffer}
  {garbage : Garbage} {net : NetWorkBuffer}

theorem incrementDecodeBuffer_head (holds : Holds data (h.bytes ++ more))
    (short : (h.bytes ++ more).length < 2 ^ 31)
    (enough : h.fields.length + 3 ≤ turns) :
    HttpResponse.incrementDecodeBuffer garbage turns {} data =
      h.started.leaveHead garbage turns data := by
  obtain ⟨spare, memory⟩ := holds.memory
  rw [List.append_assoc] at memory
  obtain ⟨p, whole, found⟩ := strnstr_blank_line short spare
  have total : (h.bytes ++ more).length = h.bytes.length + more.length :=
    List.length_append
  have parsed := @Head.parseResponseHeaderString_head h (more ++ spare) (p + 4)
    turns { headLength := p + 4 } (.inr whole.symm) (by omega) enough
  have live : data.empty = false := by
    have length := holds.length_eq
    rw [Buffer.empty, decide_eq_false_iff_not]
    intro same
    rw [Buffer.length, same] at length
    omega
  rw [HttpResponse.incrementDecodeBuffer, live, if_neg (by decide),
    if_pos rfl, memory, holds.length_eq, found]
  simp only [access_some, ok_bind, parsed]
  rw [← whole]
  rfl

theorem leaveHead_bodiless (holds : Holds data (h.bytes ++ more))
    (short : (h.bytes ++ more).length < 2 ^ 31) (bodiless : h.Bodiless) :
    ∃ data', h.started.leaveHead garbage turns data =
        .ok (some (true, h.started, data')) ∧
      data'.length ≤ (h.bytes ++ more).length := by
  by_cases final : 204 = h.started.status ∨ 304 = h.started.status
  · exact ⟨data, if_pos final, holds.length_eq.le⟩
  · have total : (h.bytes ++ more).length = h.bytes.length + more.length :=
      List.length_append
    have count : (UInt32.ofNat h.bytes.length).toNat = h.bytes.length :=
      UInt32.toNat_ofNat_of_lt' (by
        change _ < 2 ^ 32
        omega)
    obtain ⟨next, run, holds'⟩ := @addReadIdx_holds _ _ (.ofNat h.bytes.length)
      holds (by omega)
    refine ⟨next, ?_, ?_⟩
    · rw [HttpResponse.leaveHead, if_neg final]
      change (data.addReadIdx (.ofNat h.bytes.length) >>= _) = _
      rw [run, ok_bind, if_pos (bodiless.resolve_left final)]
      rfl
    · rw [holds'.length_eq, List.length_drop]
      omega

theorem leaveHead_body (holds : Holds data (h.bytes ++ more))
    (short : (h.bytes ++ more).length < 2 ^ 31) (other : ¬ h.Bodiless) :
    ∃ data', Represents data' more ∧
      ∀ turns, h.started.leaveHead garbage turns data =
        HttpResponse.decodeBody turns h.started.noteChunks data' := by
  obtain ⟨unfinished, elsewhere⟩ := not_or.mp other
  have total : (h.bytes ++ more).length = h.bytes.length + more.length :=
    List.length_append
  have count : (UInt32.ofNat h.bytes.length).toNat = h.bytes.length :=
    UInt32.toNat_ofNat_of_lt' (by
      change _ < 2 ^ 32
      omega)
  obtain ⟨next, run, holds'⟩ := @addReadIdx_holds _ _ (.ofNat h.bytes.length)
    holds (by omega)
  rw [count, List.drop_left] at holds'
  obtain ⟨last, grown, represents⟩ : ∃ last,
      h.started.expand garbage next = .ok last ∧ Represents last more := by
    unfold HttpResponse.expand
    split
    · exact expansion_represents garbage _ holds'.represents
    · exact ⟨next, rfl, holds'.represents⟩
  refine ⟨last, represents, fun turns => ?_⟩
  rw [HttpResponse.leaveHead, if_neg unfinished]
  change (data.addReadIdx (.ofNat h.bytes.length) >>= _) = _
  rw [run, ok_bind, if_neg elsewhere, grown, ok_bind]

/-- What becomes of the merged chunk becomes of the buffer. -/
theorem incrementDecode_merged (garbage : Garbage) (refines : net.Refines queue)
    (nonempty : queue ≠ []) (short : queue.length < 2 ^ 32) :
    ∃ data, Holds data queue ∧
      ∀ turns (response decoded : HttpResponse) flag (data' : Buffer),
        response.incrementDecodeBuffer garbage turns data =
            .ok (some (flag, decoded, data')) →
          data'.length ≤ queue.length →
          ∃ next, response.incrementDecode garbage turns net =
            .ok (some (flag, decoded, next)) := by
  have positive := List.length_pos_of_ne_nil nonempty
  obtain ⟨head, merged, merge, refines', holds⟩ :=
    NetWorkBuffer.mergeBuffers_refines garbage refines
      fun _ => refines.length ▸ short
  rw [NetWorkBuffer.mergeBuffers_head merge] at holds
  cases first : merged.bufferList.head? with
  | none =>
      rw [first] at holds
      exact absurd holds nonempty
  | some id =>
      rw [first] at holds
      refine ⟨merged.buffers id, holds, ?_⟩
      intro turns response decoded flag data' run smaller
      have count : (merged.length + 2 ^ 64 - data'.length) % 2 ^ 64 =
          queue.length - data'.length := by
        rw [refines'.length]
        omega
      have enough : (merged.put id data').length ≥
          queue.length - data'.length := by
        change merged.length ≥ _
        rw [refines'.length]
        omega
      refine ⟨{ merged.put id data' with
        length := (merged.put id data').length -
          (queue.length - data'.length) }, ?_⟩
      have live : ¬ net.length = 0 := by
        rw [refines.length]
        omega
      rw [HttpResponse.incrementDecode, if_neg live, merge, ok_bind]
      have front : merged.getBuffer = some id := first
      dsimp only
      rw [front]
      change (response.incrementDecodeBuffer garbage turns (merged.buffers id)
        >>= _) = _
      rw [run, ok_bind]
      change ((merged.put id data').subLength
        ((merged.length + 2 ^ 64 - data'.length) % 2 ^ 64) >>= _) = _
      rw [count, NetWorkBuffer.subLength, assert, if_pos enough]
      rfl

end Incremental

end TarsCpp.Http
