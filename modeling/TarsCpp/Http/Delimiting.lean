import TarsCpp.Http.Arrival
import TarsCpp.Http.Decoding
import TarsCpp.NetworkBuffer.QueueRefinement

/-!
# The delimiting of requests

`parseHttp` takes everything that the buffer holds as soon as `checkRequest`
says that a request is complete.  It delimits exactly the requests without
chunks that nothing follows.
-/

namespace TarsCpp.NetworkBuffer.NetWorkBuffer

variable {net next : NetWorkBuffer} {queue : List UInt8} {garbage : Garbage}

theorem mergeBuffers_head {head : Option BufferId}
    (run : net.mergeBuffers garbage = .ok (head, next)) :
    head = next.bufferList.head? := by
  unfold mergeBuffers at run
  split at run
  · obtain ⟨data, _, run⟩ := bind_eq_ok run
    obtain ⟨block, _, run⟩ := bind_eq_ok run
    obtain ⟨buff, _, run⟩ := bind_eq_ok run
    cases run
    rfl
  · cases run
    rfl

theorem pointed_eq (refines : net.Refines queue)
    (merged : net.Merged net.bufferList.head? queue) :
    net.pointed = .ok queue := by
  rw [pointed, refines.length]
  split
  · next empty => rw [List.eq_nil_of_length_eq_zero empty]
  · next nonempty =>
      cases head : net.bufferList.head? with
      | none =>
          rw [head] at merged
          obtain rfl : queue = [] := merged
          exact absurd rfl nonempty
      | some id =>
          rw [head] at merged
          have loaded := Holds.load merged queue.length
          rwa [List.take_length, Holds.length_eq merged, Nat.min_self] at loaded

/-- `parseHttp` by the answer of `checkRequest`: what it does to a buffer that
has been merged. -/
def answered (queue out : List UInt8) (merged : NetWorkBuffer) :
    Except Failure (Option Bool) →
      Except Failure (Option (PacketType × List UInt8 × NetWorkBuffer))
  | .error (.thrown _) => .ok (some (.err, out, merged))
  | .error failure => .error failure
  | .ok none => .ok none
  | .ok (some true) => .ok (some (.full, queue, merged.clearBuffers))
  | .ok (some false) => .ok (some (.less, out, merged))

theorem parseHttp_refines (garbage : Garbage) (refines : net.Refines queue)
    (counted : 1 < net.bufferList.length → queue.length < 2 ^ 32) :
    ∃ merged, merged.Refines queue ∧ ∀ turns out,
      net.parseHttp garbage turns out =
        answered queue out merged (Http.checkRequest turns queue) := by
  obtain ⟨head, merged, run, refines', holds⟩ :=
    mergeBuffers_refines garbage refines (refines.length ▸ counted)
  rw [mergeBuffers_head run] at holds
  refine ⟨merged, refines', fun turns out => ?_⟩
  rw [parseHttp, checkHttp, run]
  simp only [pointed_eq refines' holds, ok_bind]
  cases Http.checkRequest turns queue with
  | error failure => cases failure <;> rfl
  | ok complete =>
      cases complete with
      | none => rfl
      | some complete =>
          cases complete with
          | false => rfl
          | true =>
              simp only [httpPacket, ok_bind, getBuffers_eq refines', pure_ok,
                answered]

/-- Any bytes can be in a buffer, in one chunk. -/
theorem exists_refines (queue : List UInt8) :
    ∃ net : NetWorkBuffer, net.Refines queue ∧ net.bufferList.length ≤ 1 := by
  by_cases nonempty : queue = []
  · subst nonempty
    exact ⟨{}, refines_empty, Nat.zero_le _⟩
  · have holds : Holds (Buffer.parts [] queue []) queue := ⟨[], [], rfl⟩
    have refines := @addSharedBuffer_refines {} [] 0 _ _ refines_empty
      List.not_mem_nil holds nonempty
    refine ⟨_, refines, ?_⟩
    rw [addSharedBuffer]
    split
    · exact Nat.zero_le _
    · exact Nat.le_refl _

end TarsCpp.NetworkBuffer.NetWorkBuffer

namespace TarsCpp.Http

open CString NetworkBuffer

variable {garbage : Garbage} {r : Request} {t : List UInt8}

/-- A prefix of `r` is left alone, `r` is taken out of a buffer that holds it
in front of `t`, and what is taken out is decoded. -/
structure Delimits (garbage : Garbage) (r : Request) (t : List UInt8) :
    Prop where
  waits : ∀ s, s <+: r.bytes → s ≠ r.bytes → ∀ (net : NetWorkBuffer) out,
    net.Refines s → ∃ turns next,
      net.parseHttp garbage turns out = .ok (some (.less, out, next)) ∧
        next.Refines s
  takes : ∀ (net : NetWorkBuffer) out, net.Refines (r.bytes ++ t) →
    ∃ turns next,
      net.parseHttp garbage turns out = .ok (some (.full, r.bytes, next)) ∧
        next.Refines t
  decodes : ∀ request, ∃ turns decoded,
    decode turns r.bytes request = .ok (some (true, decoded))

/-- The code knows the method of `r`, its body does not come in chunks, it is
short enough for an `int`, and nothing follows it. -/
structure Delimitable (r : Request) (t : List UInt8) : Prop where
  known : r.Known
  plain : ¬ r.body.Chunked
  short : r.bytes.length < 2 ^ 31
  last : t = []

theorem Delimitable.delimits (delimitable : Delimitable r t) :
    Delimits garbage r t := by
  obtain ⟨known, plain, short, rfl⟩ := delimitable
  obtain ⟨turns, enough⟩ : ∃ turns, r.fields.length + 1 < turns :=
    ⟨_, Nat.lt_succ_self _⟩
  constructor
  · intro s arrived strict net out refines
    have fits := arrived.length_le
    obtain ⟨merged, refines', run⟩ :=
      NetWorkBuffer.parseHttp_refines garbage refines fun _ => by omega
    refine ⟨turns, merged, ?_, refines'⟩
    rw [run, r.checkRequest_plain known plain short arrived enough,
      decide_eq_false strict]
    rfl
  · intro net out refines
    rw [List.append_nil] at refines
    obtain ⟨merged, refines', run⟩ :=
      NetWorkBuffer.parseHttp_refines garbage refines fun _ => by omega
    refine ⟨turns, merged.clearBuffers, ?_,
      NetWorkBuffer.clearBuffers_refines refines'⟩
    rw [run, r.checkRequest_plain known plain short (List.prefix_refl _) enough,
      decide_eq_true rfl]
    rfl
  · intro request
    obtain ⟨decoded, run⟩ := r.decode_plain known plain short enough request
    exact ⟨turns, decoded, run⟩

/-- What a packet that is taken out says about `checkRequest`. -/
theorem Delimits.complete (delimits : Delimits garbage r t) :
    ∃ turns, checkRequest turns (r.bytes ++ t) = .ok (some true) ∧
      t = [] := by
  obtain ⟨net, refines, single⟩ :=
    NetWorkBuffer.exists_refines (r.bytes ++ t)
  obtain ⟨merged, _, run⟩ := NetWorkBuffer.parseHttp_refines garbage refines
    fun several => absurd several (Nat.not_lt.mpr single)
  obtain ⟨turns, next, taken, _⟩ := delimits.takes net [] refines
  rw [run] at taken
  refine ⟨turns, ?_⟩
  cases answer : checkRequest turns (r.bytes ++ t) with
  | error failure =>
      rw [answer] at taken
      cases failure <;> cases taken
  | ok complete =>
      rw [answer] at taken
      rcases complete with _ | _ | _
      · cases taken
      · cases taken
      · injection taken with taken
        injection taken with taken
        injection taken with _ taken
        injection taken with whole _
        exact ⟨rfl, List.append_right_eq_self.mp whole⟩

theorem Delimits.delimitable (delimits : Delimits garbage r t)
    (bounded : r.bytes.length < 2 ^ 32) : Delimitable r t := by
  obtain ⟨turns, complete, last⟩ := delimits.complete
  rw [last, List.append_nil] at complete
  have known : r.Known := by
    by_contra unknown
    have long := r.length_head
    have length : r.bytes.length = r.head.length + r.body.bytes.length :=
      List.length_append
    obtain ⟨what, thrown⟩ := @checkRequest_unknown r.bytes turns (by omega)
      (mt (r.knownMethod_iff r.body.bytes).mp unknown)
    rw [complete] at thrown
    cases thrown
  have short : r.bytes.length < 2 ^ 31 := by
    by_contra long
    -- the length is a negative `int`
    have headless : ∀ pos, ¬ HasHead r.bytes pos := by
      intro pos head
      have reached := head.reached
      unfold toInt at reached
      omega
    rcases @checkRequest_headless r.bytes turns headless with no | ⟨_, thrown⟩
    · rw [complete] at no
      cases no
    · rw [complete] at thrown
      cases thrown
  refine ⟨known, ?_, short, last⟩
  intro chunked
  obtain ⟨s, arrived, strict, early⟩ := r.exists_early known chunked short
  obtain ⟨net, refines, single⟩ := NetWorkBuffer.exists_refines s
  obtain ⟨merged, _, run⟩ := NetWorkBuffer.parseHttp_refines garbage refines
    fun several => absurd several (Nat.not_lt.mpr single)
  obtain ⟨turns, next, waits, _⟩ := delimits.waits s arrived strict net [] refines
  rw [run] at waits
  rcases early turns with unfinished | done
  · rw [unfinished] at waits
    cases waits
  · rw [done] at waits
    cases waits

/-- The requests that `parseHttp` delimits; the converse is about requests of
less than four gigabytes. -/
theorem delimits_iff (garbage : Garbage) (r : Request) (t : List UInt8) :
    (Delimitable r t → Delimits garbage r t) ∧
      (Delimits garbage r t → r.bytes.length < 2 ^ 32 → Delimitable r t) :=
  ⟨Delimitable.delimits, Delimits.delimitable⟩

/-- `GET / HTTP/1.1`. -/
def getRequest : Request where
  method := ascii "GET"
  target := ascii "/"
  fields := []
  body := .none
  methodNonempty := by decide +kernel
  methodToken := by decide +kernel
  targetNonempty := by decide +kernel
  targetVisible := by decide +kernel
  framed := by
    intro field member
    cases member

def chunkedField : Field where
  name := ascii "Transfer-Encoding"
  value := ascii "chunked"
  named := by decide +kernel
  token := by decide +kernel
  text := by decide +kernel

/-- A body of no chunks but the last. -/
def chunkedRequest : Request where
  method := ascii "PUT"
  target := ascii "/"
  fields := [chunkedField]
  body := .chunked [] 0
  methodNonempty := by decide +kernel
  methodToken := by decide +kernel
  targetNonempty := by decide +kernel
  targetVisible := by decide +kernel
  framed := ⟨[], chunkedField, [], rfl, rfl,
    ⟨[], ascii "chunked", [], rfl, by simp, by simp, by decide +kernel⟩,
    by simp, by simp⟩

/-- Two pipelined requests are taken out as one, and a request with chunks is
taken out without its last two bytes. -/
theorem pipelined_merged :
    (checkRequest 3 (getRequest.bytes ++ getRequest.bytes) = .ok (some true) ∧
        ¬ Delimits (fun _ => 0) getRequest getRequest.bytes) ∧
      checkRequest 4 (chunkedRequest.bytes.take
          (chunkedRequest.bytes.length - 2)) = .ok (some true) ∧
        ¬ Delimits (fun _ => 0) chunkedRequest [] := by
  refine ⟨⟨by decide +kernel, fun delimits => ?_⟩, by decide +kernel,
    fun delimits => ?_⟩
  · have last := (delimits.delimitable (by decide)).last
    exact absurd last (by decide)
  · exact (delimits.delimitable (by decide)).plain trivial

end TarsCpp.Http
