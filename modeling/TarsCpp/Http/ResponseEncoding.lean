import TarsCpp.Http.AgreeingResponses

/-!
# Decoding what `encode` makes of a response

What `setResponse` builds has one header, the length of the content.
-/

namespace TarsCpp.Http

open CString NetworkBuffer

theorem digits_concat {word : List UInt8} {c : UInt8} {d value : Nat}
    (digit : ∀ c ∈ word, isDigit c) (last : digitValue c = some d)
    (small : d < 10) :
    digits 10 value (word ++ [c]) = digits 10 value word * 10 + d := by
  induction word generalizing value with
  | nil => simp [digits, last, small]
  | cons first word ih =>
      obtain ⟨e, here, small'⟩ := digitValue_digit (digit first List.mem_cons_self)
      have later : ∀ c ∈ word, isDigit c := fun other member =>
        digit other (List.mem_cons_of_mem _ member)
      rw [List.cons_append, digits, digits, here]
      simp only [if_pos small']
      exact ih later

theorem digitChar_digit {d : Nat} (small : d < 10) :
    isDigit d.digitChar.toNat.toUInt8 ∧
      digitValue d.digitChar.toNat.toUInt8 = some d := by
  interval_cases d <;> decide

theorem ascii_ofList (text : List Char) :
    ascii (String.ofList text) = text.map fun c => c.toNat.toUInt8 := by
  rw [ascii, String.toList_ofList]

theorem decimal_toDigits (n : Nat) :
    Decimal n (ascii (String.ofList (Nat.toDigits 10 n))) := by
  rw [ascii_ofList]
  induction n using Nat.strongRecOn with
  | ind n ih =>
      by_cases small : n < 10
      · obtain ⟨digit, value⟩ := digitChar_digit small
        rw [Nat.toDigits_of_lt_base small]
        refine ⟨List.cons_ne_nil _ _, ?_, ?_⟩
        · intro c member
          rw [List.mem_singleton.mp member]
          exact digit
        · simp [digits, value, small]
      · obtain ⟨digit, value⟩ :=
          digitChar_digit (Nat.mod_lt n (by decide : 0 < 10))
        have front := ih (n / 10) (by omega)
        rw [Nat.toDigits_of_base_le (by decide) (by omega), List.map_append]
        refine ⟨by simp, ?_, ?_⟩
        · intro c member
          rcases List.mem_append.mp member with earlier | last
          · exact front.digit c earlier
          · rw [List.mem_singleton.mp last]
            exact digit
        · rw [List.map_singleton,
            digits_concat front.digit value (Nat.mod_lt _ (by decide)),
            front.counts]
          omega

theorem isDigit_isFieldByte {c : UInt8} (digit : isDigit c) :
    isFieldByte c := by
  simp only [isDigit, isFieldByte, Bool.decide_and, Bool.decide_or,
    Bool.and_eq_true, Bool.or_eq_true, decide_eq_true_eq] at *
  grind

theorem strtoInt_tostr {n : Int} (least : -2 ^ 31 ≤ n) (most : n < 2 ^ 31) :
    strtoInt (HttpResponse.tostr n) = n := by
  have decimal := decimal_toDigits n.natAbs
  obtain ⟨positive, negative⟩ := strtoInt_digits decimal.nonempty decimal.digit
    (by rw [decimal.counts]; omega)
  rw [decimal.counts] at positive negative
  rw [HttpResponse.tostr]
  split
  · rw [negative]
    omega
  · rw [positive (by omega)]
    omega

/-- The field of the length, as `genHeader` writes it. -/
def lengthField (n : Nat) : Field where
  name := ascii "Content-Length"
  value := 32 :: ascii (String.ofList (Nat.toDigits 10 n))
  named := by decide +kernel
  token := forall_mem_of_all (by decide +kernel)
  text := by
    intro c member
    rcases List.mem_cons.mp member with rfl | digit
    · rfl
    · exact isDigit_isFieldByte ((decimal_toDigits n).digit c digit)

section Encoded

variable {status : Int} {about body : List UInt8}
  (text : ∀ c ∈ about, isFieldByte c)

end Encoded

namespace Sample

/-- `200 OK` with a body of a known length. -/
def sized (content : List UInt8) : Response where
  major := 49
  minor := 49
  code := ascii "200"
  reason := ascii "OK"
  fields := [lengthField content.length]
  body := .sized content
  versioned := by decide
  three := by decide
  digit := by decide +kernel
  text := forall_mem_of_all (by decide +kernel)
  delimited := by
    have code : digits 10 0 (ascii "200") = 200 := by decide +kernel
    rw [code]
    refine ⟨?_, [], lengthField content.length, [], rfl, rfl, ?_, by simp,
      by simp⟩
    · unfold Bodiless
      omega
    · refine ⟨[32], ascii (String.ofList (Nat.toDigits 10 content.length)), [],
        ?_, by simp [isBlank], by simp, decimal_toDigits _⟩
      rw [List.append_nil]
      rfl

/-- The three bytes `a`, zero and `b`. -/
def broken : List UInt8 := [97, 0, 98]

def bare : Extension where
  text := []
  opens := fun c member => absurd member (Option.not_mem_none c)
  plain := List.forall_mem_nil _

/-- The three bytes in a chunk. -/
def piece : Piece :=
  (⟨ascii "3", broken, by decide +kernel, by decide +kernel,
    by decide +kernel⟩, bare)

theorem only_chunked :
    Only [chunkedField] (ascii "Transfer-Encoding") fun word =>
      word.map tolower = ascii "chunked" :=
  ⟨[], chunkedField, [], rfl, rfl,
    ⟨[], ascii "chunked", [], rfl, by simp, by simp, by decide +kernel⟩,
    by simp, by simp⟩

/-- `200 OK` with the three bytes in one chunk. -/
def chunked : Response where
  major := 49
  minor := 49
  code := ascii "200"
  reason := ascii "OK"
  fields := [chunkedField]
  body := .chunked [piece] 0 bare []
  versioned := by decide
  three := by decide
  digit := by decide +kernel
  text := forall_mem_of_all (by decide +kernel)
  delimited := by
    have code : digits 10 0 (ascii "200") = 200 := by decide +kernel
    rw [code]
    refine ⟨?_, only_chunked⟩
    unfold Bodiless
    omega

end Sample

/-- The answer of `decode`, and the content. -/
def answer (turns : Nat) (s : List UInt8) :
    Except Failure (Option (Bool × List UInt8)) :=
  (HttpResponse.decode turns s {}).map fun decoded =>
    decoded.map fun whole => (whole.1, whole.2.content)

end TarsCpp.Http
