import TarsCpp.Tup.UniPacket

/-!
# Sequences of `put` and `encode`

Whatever storage the stream has got by then, a `put` stores what is written and
an `encode` gives the bytes that the header and the contents of the attributes
determine; it leaves both as they are.
-/

namespace TarsCpp.Tup

open Authentication ByteOrder NetworkBuffer

namespace TWriter

variable (writer : TWriter) {os : writer.State} {written : List UInt8}

theorem holds_writeChunks {chunks : List (Fresh × List UInt8)}
    (holds : writer.Holds os written)
    (small : written.length + (chunks.flatMap Prod.snd).length < 2 ^ 63) :
    ∃ os', writer.writeChunks chunks os = .ok os' ∧
      writer.Holds os' (written ++ chunks.flatMap Prod.snd) := by
  induction chunks generalizing os written with
  | nil =>
      refine ⟨os, rfl, ?_⟩
      rw [List.flatMap_nil, List.append_nil]
      exact holds
  | cons chunk chunks induction =>
      rw [List.flatMap_cons, List.length_append] at small
      obtain ⟨middle, ran, holds'⟩ :=
        @holds_writeBuf writer _ _ chunk.2 holds chunk.1 (by omega)
      obtain ⟨os', ran', holds''⟩ := induction holds'
        (by rw [List.length_append]; omega)
      refine ⟨os', ?_, ?_⟩
      · unfold writeChunks
        rw [List.foldlM_cons, ran]
        exact ran'
      · rw [List.flatMap_cons, ← List.append_assoc]
        exact holds''

/-- The stream holds what is written, or it holds something when that throws. -/
theorem holds_emit (emission : Emission)
    (result : Except TupException (List UInt8))
    (small : ∀ bytes, result = .ok bytes → bytes.length < 2 ^ 62)
    (holds : writer.Holds os written) (few : written.length < 2 ^ 62) :
    ∃ os' written', writer.emit emission result os =
        .ok (result.map fun _ => (), os') ∧ writer.Holds os' written' ∧
      ∀ bytes, result = .ok bytes → written' = written ++ bytes := by
  cases result with
  | error exception =>
      have started := emission.started_lt
      obtain ⟨os', ran, holds'⟩ := @holds_writeChunks writer os written
        (emission.chunks emission.started) holds
        (by rw [emission.whole]; omega)
      refine ⟨os', _, ?_, holds', fun bytes returned => ?_⟩
      · simp only [emit, ran, ok_bind]
        rfl
      · cases returned
  | ok bytes =>
      have bound := small bytes rfl
      obtain ⟨os', ran, holds'⟩ := @holds_writeChunks writer os written
        (emission.chunks bytes) holds (by rw [emission.whole]; omega)
      refine ⟨os', _, ?_, holds', ?_⟩
      · simp only [emit, ran, ok_bind]
        rfl
      · rintro _ ⟨⟩
        rw [emission.whole]

end TWriter

theorem of_bounded {written : Except TarsDecodeException (List UInt8)}
    {bytes : List UInt8} (returned : bounded written = .ok bytes) :
    written = .ok bytes ∧ bytes.length < 2 ^ 62 := by
  unfold bounded at returned
  split at returned
  · cases returned
  · split at returned
    · cases returned
      exact ⟨rfl, ‹_›⟩
    · cases returned

theorem length_of_bounded
    {written : Except TarsDecodeException (List UInt8)} {bytes : List UInt8}
    (returned : bounded written = .ok bytes) : bytes.length < 2 ^ 62 :=
  (of_bounded returned).2

namespace Attributes

variable {data : Attributes}

/-- The storage of every value is sound. -/
def Sound (data : Attributes) : Prop :=
  ∀ entry ∈ data.entries, entry.2.Sized 0

theorem Sound.assign (sound : data.Sound) (name : List UInt8) {v : Container}
    (sized : v.Sized 0) : Attributes.Sound (data.assign name v) := by
  intro entry member
  rcases OrderedMap.mem_entries_assign member with rfl | member
  · exact sized
  · exact sound entry member

theorem Sound.entry (sound : data.Sound) (name : List UInt8) :
    (data.entry name).Sized 0 := by
  unfold Attributes.entry
  cases found : data.find? name with
  | none => exact Nat.le_refl 0
  | some v => exact sound _ (OrderedMap.mem_entries.mpr found)

end Attributes

variable {writer : TWriter}

/-- The stream works, and so does the storage of the attributes. -/
structure UniAttribute.Works (u : UniAttribute writer) : Prop where
  os : ∃ written, writer.Holds u.os written
  data : u.data.Sound

theorem Put.bytes_lt {value : Put} {bytes : List UInt8}
    (returned : value.bytes = .ok bytes) : bytes.length < 2 ^ 62 := by
  cases value with
  | value type t => exact @length_of_bounded (write t 0) _ returned
  | unknown s => exact @length_of_bounded (.ok _) _ returned

namespace UniAttribute

/-- What one call stores. -/
structure Stores (name : List UInt8) (value : Put)
    (u u' : UniAttribute writer) : Prop where
  works : u'.Works
  others : ∀ other, other ≠ name → u'.data.find? other = u.data.find? other
  stored : ∀ bytes, value.bytes = .ok bytes →
    ∃ v, u'.data.find? name = some v ∧ v.content = bytes
  thrown : ∀ exception, value.bytes = .error exception →
    u'.data.find? name = u.data.find? name

theorem put_spec {u : UniAttribute writer} (works : u.Works)
    (emission : Emission) (name : List UInt8) (value : Put) :
    ∃ u', u.put emission name value =
        .ok (value.bytes.map fun _ => (), u') ∧ Stores name value u u' := by
  obtain ⟨before, holds⟩ := works.os
  obtain ⟨os, written, ran, holds', whole⟩ := writer.holds_emit emission
    value.bytes (fun _ => Put.bytes_lt) (writer.holds_reset holds) (by simp)
  cases result : value.bytes with
  | error exception =>
      rw [result] at ran
      refine ⟨{ u with os }, ?_, ⟨⟨written, holds'⟩, works.data⟩, ?_, ?_, ?_⟩
      · simp only [put, result, ran, ok_bind]
        rfl
      · exact fun _ _ => rfl
      · intro bytes returned
        rw [result] at returned
        cases returned
      · exact fun _ _ => rfl
  | ok bytes =>
      rw [result] at ran
      obtain ⟨v, os', written', swapped, content, sized, holds''⟩ :=
        writer.holds_swapVector holds' emission.fresh
          (works.data.entry name)
      refine ⟨{ u with os := os', data := u.data.assign name v }, ?_,
        ⟨⟨written', holds''⟩, works.data.assign name sized⟩, ?_, ?_, ?_⟩
      · simp only [put, result, ran, swapped, ok_bind, Except.map]
        rfl
      · intro other different
        rw [OrderedMap.find?_assign, if_neg (Ne.symm different)]
      · intro bytes' returned
        rw [result] at returned
        cases returned
        refine ⟨v, ?_, ?_⟩
        · rw [OrderedMap.find?_assign, if_pos rfl]
        · rw [content, whole _ result, List.nil_append]
      · intro exception thrown
        rw [result] at thrown
        cases thrown

end UniAttribute

theorem mem_of_lastPut {name : List UInt8} {calls : List PutCall} {put : Put}
    (last : lastPut name calls = some put) :
    ∃ call ∈ calls, call.put = put := by
  induction calls with
  | nil => cases last
  | cons call calls induction =>
      unfold lastPut at last
      split at last
      · cases last
        obtain ⟨found, member, same⟩ := induction ‹_›
        exact ⟨found, .tail _ member, same⟩
      · split at last
        · split at last
          · cases last
            exact ⟨call, .head _, rfl⟩
          · cases last
        · cases last

/-- After any calls, what was last put under a name is found there. -/
theorem putAll_spec (calls : List PutCall) {u : UniAttribute writer}
    (works : u.Works) :
    ∃ u', putAll calls u = .ok u' ∧ u'.Works ∧ ∀ name,
      match lastPut name calls with
      | none => u'.data.find? name = u.data.find? name
      | some put => ∃ v, u'.data.find? name = some v ∧
          put.bytes = .ok v.content := by
  induction calls generalizing u with
  | nil => exact ⟨u, rfl, works, fun _ => rfl⟩
  | cons call calls induction =>
      obtain ⟨middle, ran, stores⟩ :=
        UniAttribute.put_spec works call.emission call.name call.put
      obtain ⟨u', ran', works', found⟩ := induction stores.works
      refine ⟨u', ?_, works', fun name => ?_⟩
      · unfold putAll
        rw [List.foldlM_cons, ran]
        exact ran'
      · have here := found name
        unfold lastPut
        cases last : lastPut name calls with
        | some put =>
            rw [last] at here
            exact here
        | none =>
            rw [last] at here
            cases result : call.put.bytes with
            | error exception =>
                by_cases same : name = call.name
                · rw [here, same]
                  exact stores.thrown exception result
                · rw [here]
                  exact stores.others name same
            | ok bytes =>
                by_cases same : call.name = name
                · simp only [if_pos same]
                  obtain ⟨v, stored, content⟩ := stores.stored bytes result
                  rw [same] at stored
                  refine ⟨v, here.trans stored, ?_⟩
                  rw [result, content]
                · simp only [if_neg same]
                  rw [here]
                  exact stores.others name (Ne.symm same)

theorem works_init : (UniPacket.init writer).attributes.Works :=
  ⟨⟨[], writer.holds_empty⟩, by rintro _ ⟨⟩⟩

namespace UniPacket

structure Works (packet : UniPacket writer) : Prop where
  attributes : packet.attributes.Works
  sBuffer : packet.sBuffer.Sized 0

/-- Header and attributes are the same. -/
structure Keeps (packet packet' : UniPacket writer) : Prop where
  works : packet'.Works
  header : packet'.header = packet.header
  data : packet'.attributes.data = packet.attributes.data

/-- What `doEncode` writes. -/
def written (packet : UniPacket writer) : Except TupException (List UInt8) :=
  bounded (write packet.attributes.data.toValue 0)

/-- What is written behind the length. -/
def body (packet : UniPacket writer) : Except TupException (List UInt8) := do
  let sBuffer ← packet.written
  bounded (writeTo { packet.header with sBuffer }.fields)

def frame (body : List UInt8) : List UInt8 :=
  bigEndian 4 ((4 + body.length) % 2 ^ 32) ++ body

theorem Works.withOs {packet : UniPacket writer} (works : packet.Works)
    {os : writer.State} {bytes : List UInt8} (holds : writer.Holds os bytes) :
    packet.Keeps (packet.withOs os) :=
  ⟨⟨⟨⟨bytes, holds⟩, works.attributes.data⟩, works.sBuffer⟩, rfl, rfl⟩

theorem Keeps.trans {first second third : UniPacket writer}
    (left : first.Keeps second) (right : second.Keeps third) :
    first.Keeps third :=
  ⟨right.works, right.header.trans left.header, right.data.trans left.data⟩

section Calls

variable {packet : UniPacket writer} (works : packet.Works)
  (servant : packet.header.sServantName ≠ [])
  (function : packet.header.sFuncName ≠ [])
include works servant function

theorem doEncode_spec (emission : Emission) :
    ∃ packet', packet.doEncode emission =
        .ok (packet.written.map fun _ => (), packet') ∧
      packet.Keeps packet' ∧
      ∀ bytes, packet.written = .ok bytes →
        packet'.sBuffer.content = bytes := by
  obtain ⟨before, holds⟩ := works.attributes.os
  obtain ⟨os, bytes, ran, holds', whole⟩ := writer.holds_emit emission
    packet.written (fun _ => length_of_bounded) (writer.holds_reset holds)
    (by simp)
  unfold doEncode
  rw [if_neg servant, if_neg function]
  cases result : packet.written with
  | error exception =>
      rw [result] at ran
      refine ⟨packet.withOs os, ?_, works.withOs holds', ?_⟩
      · unfold written at result
        simp only [result, ran, ok_bind]
        rfl
      · intro bytes returned
        cases returned
  | ok data =>
      rw [result] at ran
      obtain ⟨sBuffer, os', bytes', swapped, content, sized, holds''⟩ :=
        writer.holds_swapVector holds' emission.fresh works.sBuffer
      refine ⟨{ packet.withOs (writer.reset os') with sBuffer }, ?_,
        ⟨⟨⟨⟨[], writer.holds_reset holds''⟩, works.attributes.data⟩, sized⟩,
          rfl, rfl⟩, ?_⟩
      · unfold written at result
        simp only [result, ran, swapped, ok_bind, Except.map]
        rfl
      · rintro _ ⟨⟩
        show sBuffer.content = data
        rw [content, whole data result, List.nil_append]

omit works servant function in
theorem patch_spec {terminator : ℕ} {buff : Container} {bytes : List UInt8}
    (sized : buff.Sized terminator)
    (content : buff.content = bigEndian 4 0 ++ bytes) :
    ∃ buff', patch buff = .ok buff' ∧ buff'.content = frame bytes := by
  have size : buff.size = 4 + bytes.length := by
    rw [← sized.content_length, content, List.length_append, length_bigEndian]
  have block : buff.block =
      bigEndian 4 0 ++ (bytes ++ buff.block.drop buff.size) := by
    rw [← List.append_assoc, ← content]
    exact (List.take_append_drop buff.size buff.block).symm
  have stored : store (some buff.block) 0 (bigEndian 4 (buff.size % 2 ^ 32)) =
      .ok (some (bigEndian 4 (buff.size % 2 ^ 32) ++
        (bytes ++ buff.block.drop buff.size))) := by
    have fits : (bigEndian 4 (buff.size % 2 ^ 32)).length ≤
        buff.block.length := by
      rw [length_bigEndian]
      unfold Container.Sized at sized
      omega
    rw [store_front fits, length_bigEndian]
    congr 4
    have dropped : (bigEndian 4 0 ++ (bytes ++ buff.block.drop buff.size)).drop
        4 = bytes ++ buff.block.drop buff.size :=
      List.drop_left' (length_bigEndian 4 0)
    rw [← block] at dropped
    exact dropped
  refine ⟨{ buff with
    block := bigEndian 4 (buff.size % 2 ^ 32) ++
      (bytes ++ buff.block.drop buff.size) }, ?_, ?_⟩
  · unfold patch
    rw [if_pos (by omega), stored]
    rfl
  · unfold Container.content frame
    dsimp only
    rw [size, ← List.append_assoc]
    refine List.take_left' ?_
    rw [List.length_append, length_bigEndian]

/-- Every overload begins with `doEncode`. -/
theorem started_spec (first : Emission) :
    ∃ done middle,
      (packet.withOs (writer.reset packet.attributes.os)).doEncode first =
        .ok (done, middle) ∧ packet.Keeps middle ∧
      match done with
      | .error exception => packet.body = .error exception
      | .ok () => packet.body = bounded (writeTo middle.request.fields) := by
  obtain ⟨before, holds⟩ := works.attributes.os
  have reset := works.withOs (writer.holds_reset holds)
  obtain ⟨middle, ran, keeps, stored⟩ :=
    doEncode_spec reset.works servant function first
  have keeps' := reset.trans keeps
  change _ = Except.ok (packet.written.map fun _ => (), middle) at ran
  unfold body request
  cases result : packet.written with
  | error exception =>
      rw [result] at ran
      exact ⟨_, middle, ran, keeps', rfl⟩
  | ok data =>
      rw [result] at ran
      refine ⟨_, middle, ran, keeps', ?_⟩
      rw [stored data result, keeps'.header]
      rfl

theorem encodeBuff_spec {terminator : ℕ}
    {swap : Fresh → Container → writer.State →
      Except Failure (Container × writer.State)}
    (swaps : ∀ {os : writer.State} {bytes : List UInt8} (fresh : Fresh)
      (v : Container), writer.Holds os bytes → v.Sized terminator →
      HandsOver writer.Holds terminator bytes (swap fresh v os))
    (first second : Emission) {buff : Container}
    (sized : buff.Sized terminator) :
    ∃ result packet', packet.encodeBuff swap first second buff =
        .ok (result, packet') ∧ packet.Keeps packet' ∧
      result.map Container.content = packet.body.map frame := by
  obtain ⟨done, middle, ran, keeps', returned⟩ :=
    started_spec works servant function first
  unfold encodeBuff
  simp only [ran, ok_bind]
  cases done with
  | error exception =>
      refine ⟨_, _, rfl, keeps', ?_⟩
      rw [returned]
      rfl
  | ok _ =>
      dsimp only at returned
      obtain ⟨bytes, holds'⟩ := keeps'.works.attributes.os
      obtain ⟨os₁, wrote, holds₁⟩ := @TWriter.holds_writeBuf writer _ _
        (bigEndian 4 0) (writer.holds_reset holds') second.fresh
        (by rw [length_bigEndian]; simp)
      obtain ⟨os₂, bytes₂, emitted, holds₂, whole⟩ := writer.holds_emit second
        (bounded (writeTo middle.request.fields))
        (fun _ => length_of_bounded) holds₁ (by simp [length_bigEndian])
      simp only [wrote, ok_bind, emitted]
      rw [← returned] at whole ⊢
      cases result : packet.body with
      | error exception =>
          exact ⟨_, _, rfl, keeps'.trans (keeps'.works.withOs holds₂), rfl⟩
      | ok bytes' =>
          rw [whole bytes' result, List.nil_append] at holds₂
          obtain ⟨buff', os₃, bytes₃, swapped, content', sized', holds₃⟩ :=
            swaps second.fresh buff holds₂ sized
          obtain ⟨buff'', patched, framed⟩ := patch_spec sized' content'
          refine ⟨.ok buff'', middle.withOs os₃, ?_,
            keeps'.trans (keeps'.works.withOs holds₃),
            congrArg Except.ok framed⟩
          simp only [Except.map, swapped, ok_bind, patched, pure_ok]

omit works servant function in
/-- The length in front, and what is written behind it. -/
theorem store_frame {buff bytes : List UInt8}
    (fits : 4 + bytes.length ≤ buff.length) :
    ∃ buff', (do
        let stored ← store (some buff) 0
          (bigEndian 4 ((4 + bytes.length) % 2 ^ 32))
        store stored 4 bytes) = .ok (some buff') ∧
      buff'.take (4 + bytes.length) = frame bytes := by
  have length := length_bigEndian 4 ((4 + bytes.length) % 2 ^ 32)
  have first : store (some buff) 0
      (bigEndian 4 ((4 + bytes.length) % 2 ^ 32)) = .ok (some
        (bigEndian 4 ((4 + bytes.length) % 2 ^ 32) ++ buff.drop 4)) := by
    rw [store_front (by rw [length]; omega), length]
  have second := @store_behind
    (bigEndian 4 ((4 + bytes.length) % 2 ^ 32)) (buff.drop 4) bytes
    (by rw [List.length_drop]; omega)
  rw [length] at second
  refine ⟨bigEndian 4 ((4 + bytes.length) % 2 ^ 32) ++
    (bytes ++ (buff.drop 4).drop bytes.length), ?_, ?_⟩
  · rw [first, ok_bind]
    exact second
  · rw [← List.append_assoc]
    refine List.take_left' ?_
    rw [List.length_append, length]

theorem encodeChars_spec (first second : Emission) (buff : List UInt8) :
    ∃ result packet', packet.encodeChars first second buff =
        .ok (result, packet') ∧ packet.Keeps packet' ∧
      ((∀ bytes, packet.body = .ok bytes → 4 + bytes.length ≤ buff.length) →
        result.map (fun given => given.1.take given.2) =
          packet.body.map frame) := by
  obtain ⟨done, middle, ran, keeps', returned⟩ :=
    started_spec works servant function first
  unfold encodeChars
  simp only [ran, ok_bind]
  cases done with
  | error exception =>
      refine ⟨_, _, rfl, keeps', fun _ => ?_⟩
      rw [returned]
      rfl
  | ok _ =>
      dsimp only at returned
      obtain ⟨bytes, holds'⟩ := keeps'.works.attributes.os
      obtain ⟨os₂, bytes₂, emitted, holds₂, whole⟩ := writer.holds_emit second
        (bounded (writeTo middle.request.fields))
        (fun _ => length_of_bounded) (writer.holds_reset holds') (by simp)
      have kept := keeps'.trans (keeps'.works.withOs holds₂)
      simp only [emitted, ok_bind]
      rw [← returned] at whole ⊢
      cases result : packet.body with
      | error exception => exact ⟨_, _, rfl, kept, fun _ => rfl⟩
      | ok bytes' =>
          have wrote : bytes₂ = bytes' := whole bytes' result
          rw [wrote] at holds₂
          simp only [Except.map, writer.holds_getBuffer holds₂, ok_bind]
          by_cases short : buff.length < 4 + bytes'.length
          · rw [if_pos short]
            refine ⟨_, _, rfl, kept, fun roomy => ?_⟩
            exact absurd short (Nat.not_lt.mpr (roomy bytes' rfl))
          · rw [if_neg short]
            obtain ⟨buff', done, framed⟩ :=
              @store_frame buff bytes' (by omega)
            refine ⟨.ok (buff', 4 + bytes'.length), middle.withOs os₂, ?_,
              kept, fun _ => congrArg Except.ok framed⟩
            obtain ⟨stored', head, tail⟩ := bind_eq_ok done
            simp only [head, tail, ok_bind, pure_ok]
            rfl

end Calls

/-- The buffer of the caller is large enough. -/
def Encode.Roomy (size : ℕ) : Encode → Prop
  | .string _ _ => True
  | .vector _ _ => True
  | .chars buff => size ≤ buff.length

/-- Every overload gives the same bytes. -/
theorem encode_spec {packet : UniPacket writer} (works : packet.Works)
    (servant : packet.header.sServantName ≠ [])
    (function : packet.header.sFuncName ≠ []) (first second : Emission)
    (call : Encode) :
    ∃ result packet', packet.encode first second call =
        .ok (result, packet') ∧ packet.Keeps packet' ∧
      ((∀ bytes, packet.body = .ok bytes → call.Roomy (4 + bytes.length)) →
        result = packet.body.map frame) := by
  cases call with
  | string buff sized =>
      obtain ⟨result, packet', ran, keeps, given⟩ := encodeBuff_spec works
        servant function
        (fun fresh _ holds => writer.holds_swapString holds fresh)
        first second sized
      refine ⟨_, packet', ?_, keeps, fun _ => given⟩
      simp only [encode, ran, ok_bind, pure_ok]
  | vector buff sized =>
      obtain ⟨result, packet', ran, keeps, given⟩ := encodeBuff_spec works
        servant function
        (fun fresh _ holds => writer.holds_swapVector holds fresh)
        first second sized
      refine ⟨_, packet', ?_, keeps, fun _ => given⟩
      simp only [encode, ran, ok_bind, pure_ok]
  | chars buff =>
      obtain ⟨result, packet', ran, keeps, given⟩ :=
        encodeChars_spec works servant function first second buff
      refine ⟨_, packet', ?_, keeps, given⟩
      simp only [encode, ran, ok_bind, pure_ok]

end UniPacket

end TarsCpp.Tup
