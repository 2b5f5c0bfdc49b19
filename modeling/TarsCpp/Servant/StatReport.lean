import TarsCpp.Batching
import TarsCpp.CString

/-!
# Batches of reports

`reportMicMsg` and the loop of `reportPropMsg`, which send the entries of a map
in packets.  The structs of the entries are generated elsewhere, and so is the
order of their heads; a body of call statistics is not looked into.  A sum of
`int`s that is too large wraps around.
-/

namespace TarsCpp.Servant.StatReport

open CString Batching

variable {κ β : Type}

/-- A `map`, which is iterated in the order of the keys. -/
structure Map (less : κ → κ → Bool) (β : Type) where
  entries : List (κ × β)
  ascending : entries.Pairwise fun entry later => less entry.1 later.1 = true

/-- `m[key] = value` -/
def put (less : κ → κ → Bool) (entry : κ × β) : List (κ × β) → List (κ × β)
  | [] => [entry]
  | first :: rest =>
      if less first.1 entry.1 then first :: put less entry rest
      else if less entry.1 first.1 then entry :: first :: rest
      else (first.1, entry.2) :: rest

/-- The variables of a loop, and the packets that have been sent. -/
structure Pending (κ β : Type) where
  iLen : Int := 0
  mTemp : List (κ × β) := []
  sent : List (List (κ × β)) := []

/-- `if (prx) prx->async_report...(mTemp)` -/
def Pending.send (prx : Bool) (pending : Pending κ β) : List (List (κ × β)) :=
  if prx then pending.sent ++ [pending.mTemp] else pending.sent

/-- What is sent behind a loop. -/
def Pending.finish (prx : Bool) (pending : Pending κ β) :
    List (List (κ × β)) :=
  if pending.mTemp.isEmpty then pending.sent else pending.send prx

/-- One turn of a loop, for an entry whose length is estimated by `len`. -/
def turn (less : κ → κ → Bool) (prx : Bool) (_maxReportSize : Int)
    (len : κ × β → Int) (pending : Pending κ β) (entry : κ × β) :
    Pending κ β :=
  let iTemLen := len entry
  let iLen := toInt (pending.iLen + iTemLen)
  if iLen > _maxReportSize then
    { iLen := iTemLen, mTemp := put less entry [], sent := pending.send prx }
  else
    { pending with iLen := iLen, mTemp := put less entry pending.mTemp }

def sendAll (less : κ → κ → Bool) (prx : Bool) (_maxReportSize : Int)
    (len : κ × β → Int) (mStatMsg : Map less β) : List (List (κ × β)) :=
  (mStatMsg.entries.foldl (turn less prx _maxReportSize len) {}).finish prx

structure StatMicMsgHead where
  masterName : List UInt8
  slaveName : List UInt8
  interfaceName : List UInt8
  masterIp : List UInt8
  slaveIp : List UInt8
  slavePort : Int
  returnValue : Int
  slaveSetName : List UInt8
  slaveSetArea : List UInt8
  slaveSetID : List UInt8

structure StatPropMsgHead where
  moduleName : List UInt8
  ip : List UInt8
  propertyName : List UInt8
  setName : List UInt8
  setArea : List UInt8
  setID : List UInt8
  iPropertyVer : Int

structure StatPropInfo where
  policy : List UInt8
  value : List UInt8

structure StatPropMsgBody where
  vInfo : List StatPropInfo

def MAX_REPORT_SIZE : Int := 1400
def MIN_REPORT_SIZE : Int := 500
def STAT_PROTOCOL_LEN : Nat := 100
def PROPERTY_PROTOCOL_LEN : Nat := 50

/-- The proxies, which may be missing, and the limit of a packet. -/
structure Reporter where
  _statPrx : Bool
  _propertyPrx : Bool
  _maxReportSize : Int

/-- What `setReportInfo` makes of the configured limit. -/
def setReportInfo (statPrx propertyPrx : Bool) (iMaxReportSize : Int) :
    Reporter where
  _statPrx := statPrx
  _propertyPrx := propertyPrx
  _maxReportSize :=
    if iMaxReportSize < MIN_REPORT_SIZE ∨ iMaxReportSize > MAX_REPORT_SIZE then
      MAX_REPORT_SIZE
    else iMaxReportSize

/-- The sum of a fixed part and the lengths of strings of a head that
`reportMicMsg` takes. -/
def StatMicMsgHead.estimate (head : StatMicMsgHead) : Nat :=
  STAT_PROTOCOL_LEN + head.masterName.length + head.slaveName.length +
    head.interfaceName.length + head.slaveSetName.length +
    head.slaveSetArea.length + head.slaveSetID.length

def StatPropMsgHead.strings (head : StatPropMsgHead) : Nat :=
  head.moduleName.length + head.ip.length + head.propertyName.length +
    head.setName.length + head.setArea.length + head.setID.length

/-- `iTemLen` in `reportMicMsg` -/
def micLen (entry : StatMicMsgHead × β) : Int := toInt entry.1.estimate

/-- `iTemLen` in `reportPropMsg` -/
def propLen (entry : StatPropMsgHead × StatPropMsgBody) : Int :=
  let iTemLen := entry.2.vInfo.foldl (fun iTemLen info =>
    toInt (toInt (iTemLen + info.policy.length) + info.value.length))
    (toInt entry.1.strings)
  -- The sum is assigned to, not added to.
  let assign (_ : Int) := PROPERTY_PROTOCOL_LEN + entry.2.vInfo.length
  toInt (assign iTemLen : Nat)

/-- What a report returns, what it leaves in the map, and its packets. -/
structure Report (less : StatMicMsgHead → StatMicMsgHead → Bool) (β : Type)
    where
  result : Int
  msg : Map less β
  sent : List (List (StatMicMsgHead × β) × Bool)

def reportMicMsg {less : StatMicMsgHead → StatMicMsgHead → Bool}
    (reporter : Reporter) (msg : Map less β) (bFromClient : Bool) :
    Report less β :=
  if msg.entries.isEmpty then ⟨0, msg, []⟩
  else
    let packets :=
      sendAll less reporter._statPrx reporter._maxReportSize micLen msg
    ⟨0, ⟨[], List.Pairwise.nil⟩, packets.map fun mTemp => (mTemp, bFromClient)⟩

/-- `reportPropMsg` from the map on that it has collected. -/
def reportPropMsg {less : StatPropMsgHead → StatPropMsgHead → Bool}
    (reporter : Reporter) (mStatMsg : Map less StatPropMsgBody) :
    Int × List (List (StatPropMsgHead × StatPropMsgBody)) :=
  (0, sendAll less reporter._propertyPrx reporter._maxReportSize propLen
    mStatMsg)

/-- The fixed part with all strings of the head: the code leaves the addresses
out. -/
def micEstimate (entry : StatMicMsgHead × β) : Nat :=
  entry.1.estimate + entry.1.masterIp.length + entry.1.slaveIp.length

def propEstimate (entry : StatPropMsgHead × StatPropMsgBody) : Nat :=
  PROPERTY_PROTOCOL_LEN + entry.2.vInfo.length + entry.1.strings +
    (entry.2.vInfo.map fun info => info.policy.length + info.value.length).sum

def total (estimate : κ × β → Nat) (packet : List (κ × β)) : Nat :=
  (packet.map estimate).sum

/-- Each entry is in one packet, in the order of the keys, no packet is empty,
and a packet with more than one entry does not exceed the limit. -/
structure Batched (estimate : κ × β → Nat) (_maxReportSize : Int)
    (entries : List (κ × β)) (packets : List (List (κ × β))) : Prop where
  partition : packets.flatten = entries
  filled : ∀ packet ∈ packets, packet ≠ []
  limited : ∀ packet ∈ packets, 1 < packet.length →
    (total estimate packet : Int) ≤ _maxReportSize

def filling (len : κ × β → Int) (_maxReportSize : Int) :
    Filling Int (κ × β) where
  empty := 0
  add iLen entry := toInt (iLen + len entry)
  fits iLen := iLen ≤ _maxReportSize

section Sending

variable {less : κ → κ → Bool} {prx : Bool} {_maxReportSize : Int}
  {len : κ × β → Int}

/-- A key behind all others. -/
theorem put_eq_append {entry : κ × β} {mTemp : List (κ × β)}
    (last : ∀ earlier ∈ mTemp, less earlier.1 entry.1 = true) :
    put less entry mTemp = mTemp ++ [entry] := by
  induction mTemp with
  | nil => rfl
  | cons first rest induction =>
      obtain ⟨here, later⟩ := List.forall_mem_cons.mp last
      rw [put, if_pos here, induction later, List.cons_append]

/-- What is sent from here on. -/
def sentBy (prx : Bool) (packets : List (List (κ × β))) :
    List (List (κ × β)) :=
  if prx then packets else []

theorem foldl_turn {pending : Pending κ β} {entries : List (κ × β)}
    (counted : ∀ entry ∈ entries, toInt (len entry) = len entry)
    (ascending : (pending.mTemp ++ entries).Pairwise fun entry later =>
      less entry.1 later.1 = true) :
    (entries.foldl (turn less prx _maxReportSize len) pending).finish prx =
      pending.sent ++ sentBy prx (batches (filling len _maxReportSize)
        pending.iLen pending.mTemp entries) := by
  induction entries generalizing pending with
  | nil =>
      rw [batches, List.foldl_nil, sentBy, Pending.finish]
      by_cases empty : pending.mTemp = []
      · simp [empty]
      · cases prx <;> simp [empty, Pending.send]
  | cons entry entries induction =>
      obtain ⟨here, later⟩ := List.forall_mem_cons.mp counted
      have last : ∀ earlier ∈ pending.mTemp, less earlier.1 entry.1 = true :=
        fun earlier member => (List.pairwise_append.mp ascending).2.2
          earlier member entry List.mem_cons_self
      have tail := (List.pairwise_append.mp ascending).2.1
      rw [List.foldl_cons, batches]
      by_cases full : toInt (pending.iLen + len entry) > _maxReportSize
      · have turned : turn less prx _maxReportSize len pending entry =
            { iLen := len entry, mTemp := [entry],
              sent := pending.send prx } := by
          rw [turn]
          exact if_pos full
        have alone : (filling len _maxReportSize).add
            (filling len _maxReportSize).empty entry = len entry := by
          change toInt (0 + len entry) = len entry
          rw [Int.zero_add, here]
        rw [turned, induction later (by exact tail), if_neg, alone]
        · cases prx <;> simp [sentBy, Pending.send]
        · simpa [filling] using full
      · have turned : turn less prx _maxReportSize len pending entry =
            { pending with
              iLen := toInt (pending.iLen + len entry)
              mTemp := pending.mTemp ++ [entry] } := by
          rw [turn, put_eq_append last]
          exact if_neg full
        rw [turned, induction later, if_pos]
        · rfl
        · simpa [filling] using full
        · rw [List.append_assoc, List.singleton_append]
          exact ascending

theorem sendAll_eq {mStatMsg : Map less β}
    (counted : ∀ entry ∈ mStatMsg.entries, toInt (len entry) = len entry) :
    sendAll less prx _maxReportSize len mStatMsg =
      sentBy prx
        (batches (filling len _maxReportSize) 0 [] mStatMsg.entries) := by
  rw [sendAll, foldl_turn counted mStatMsg.ascending, List.nil_append]

end Sending

/-- The first entry is not too long for a packet, and entries that are put into
one packet by the estimate of the code are not too long for it together. -/
structure Fitting (len : κ × β → Int) (estimate : κ × β → Nat)
    (_maxReportSize : Int) (entries : List (κ × β)) : Prop where
  first : ∀ entry ∈ entries.head?, len entry ≤ _maxReportSize
  together : ∀ first run later,
    Begins (filling len _maxReportSize) entries (first :: (run ++ later)) →
    Kept (filling len _maxReportSize) (len first) run → run ≠ [] →
    (total estimate (first :: run) : Int) ≤ _maxReportSize

section Sending

variable {less : κ → κ → Bool} {prx : Bool} {_maxReportSize : Int}
  {len : κ × β → Int} {estimate : κ × β → Nat}

theorem total_le {front back : List (κ × β)} (inside : front <+: back) :
    total estimate front ≤ total estimate back := by
  obtain ⟨later, rfl⟩ := inside
  rw [total, total, List.map_append, List.sum_append]
  exact Nat.le_add_right _ _

theorem batched_sendAll_iff {mStatMsg : Map less β}
    (counted : ∀ entry, toInt (len entry) = len entry) :
    Batched estimate _maxReportSize mStatMsg.entries
        (sendAll less prx _maxReportSize len mStatMsg) ↔
      mStatMsg.entries = [] ∨
        prx = true ∧ Fitting len estimate _maxReportSize mStatMsg.entries := by
  rw [sendAll_eq fun entry _ => counted entry]
  cases prx with
  | false =>
      constructor
      · intro batched
        exact .inl batched.partition.symm
      · rintro (empty | ⟨⟨⟩, _⟩)
        rw [empty]
        exact ⟨rfl, nofun, nofun⟩
  | true =>
      have opening : ∀ entry, (filling len _maxReportSize).add
          (filling len _maxReportSize).empty entry = len entry := by
        intro entry
        change toInt (0 + len entry) = len entry
        rw [Int.zero_add, counted]
      have filled := nil_notMem_batches_iff
        (filling len _maxReportSize) mStatMsg.entries
      have limited := forall_batches_iff
        (filling len _maxReportSize) mStatMsg.entries
        fun {front back : List (κ × β)} (inside : front <+: back)
            (fits : (total estimate back : Int) ≤ _maxReportSize) =>
          (Int.ofNat_le.mpr (total_le inside)).trans fits
      simp only [opening] at filled limited
      constructor
      · intro batched
        refine .inr ⟨rfl, ?_, limited.mp batched.limited⟩
        intro entry member
        have fits := filled.mp batched.filled entry member
        simpa [filling] using fits
      · intro fitting
        rcases fitting with empty | ⟨_, fitting⟩
        · rw [empty]
          exact ⟨rfl, nofun, nofun⟩
        · refine ⟨flatten_batches, filled.mpr ?_,
            limited.mpr fitting.together⟩
          intro entry member
          have fits := fitting.first entry member
          simpa [filling] using fits

end Sending

theorem propLen_eq (entry : StatPropMsgHead × StatPropMsgBody) :
    propLen entry =
      toInt (PROPERTY_PROTOCOL_LEN + entry.2.vInfo.length : Nat) := by
  rfl

/-- The packets are as they should be exactly if there is someone to send them
to, and the entries fit. -/
theorem report_batched_iff {β : Type}
    {lessMic : StatMicMsgHead → StatMicMsgHead → Bool}
    {lessProp : StatPropMsgHead → StatPropMsgHead → Bool} :
    (∀ (reporter : Reporter) (msg : Map lessMic β) (bFromClient : Bool),
      Batched micEstimate reporter._maxReportSize msg.entries
          ((reportMicMsg reporter msg bFromClient).sent.map Prod.fst) ↔
        msg.entries = [] ∨ reporter._statPrx = true ∧
          Fitting micLen micEstimate reporter._maxReportSize msg.entries) ∧
    ∀ (reporter : Reporter) (mStatMsg : Map lessProp StatPropMsgBody),
      Batched propEstimate reporter._maxReportSize mStatMsg.entries
          (reportPropMsg reporter mStatMsg).2 ↔
        mStatMsg.entries = [] ∨ reporter._propertyPrx = true ∧
          Fitting propLen propEstimate reporter._maxReportSize
            mStatMsg.entries := by
  refine ⟨fun reporter msg bFromClient => ?_, fun reporter mStatMsg => ?_⟩
  · have counted : ∀ entry : StatMicMsgHead × β,
        toInt (micLen entry) = micLen entry := fun entry => toInt_toInt _
    rw [← batched_sendAll_iff counted, reportMicMsg]
    split
    · next empty =>
        have nothing : msg.entries = [] := List.isEmpty_iff.mp empty
        rw [sendAll_eq fun entry _ => counted entry, nothing]
        cases reporter._statPrx <;> rfl
    · rw [List.map_map]
      change Batched _ _ _ (List.map id _) ↔ _
      rw [List.map_id]
  · refine batched_sendAll_iff fun entry => ?_
    rw [propLen_eq, toInt_toInt]

/-- A property whose value has 700 bytes. -/
def longProperty (name : UInt8) : StatPropMsgHead × StatPropMsgBody :=
  ({ moduleName := [], ip := [], propertyName := [name], setName := [],
     setArea := [], setID := [], iPropertyVer := 2 },
   ⟨[⟨[], List.replicate 700 49⟩]⟩)

/-- Two of them, by their names. -/
def longProperties : Map (fun head other : StatPropMsgHead =>
    decide (head.propertyName < other.propertyName)) StatPropMsgBody where
  entries := [longProperty 97, longProperty 98]
  ascending := by decide

/-- Long values go into one packet. -/
theorem long_values_together :
    ¬ Batched propEstimate (setReportInfo true true 1400)._maxReportSize
      longProperties.entries
      (reportPropMsg (setReportInfo true true 1400) longProperties).2 := by
  intro batched
  have counted : ∀ entry ∈ longProperties.entries,
      toInt (propLen entry) = propLen entry := by
    intro entry _
    rw [propLen_eq, toInt_toInt]
  have short : ∀ name, propLen (longProperty name) = 51 := by
    intro name
    have one : (longProperty name).2.vInfo.length = 1 := rfl
    rw [propLen_eq, one]
    norm_num [toInt, PROPERTY_PROTOCOL_LEN]
  have estimate : ∀ name, propEstimate (longProperty name) = 752 := by
    intro name
    simp [propEstimate, longProperty, StatPropMsgHead.strings,
      PROPERTY_PROTOCOL_LEN, -List.reduceReplicate]
  have together : longProperties.entries ∈
      (reportPropMsg (setReportInfo true true 1400) longProperties).2 := by
    rw [reportPropMsg, sendAll_eq counted]
    simp [sentBy, setReportInfo, batches, filling, longProperties, short,
      MIN_REPORT_SIZE, MAX_REPORT_SIZE, toInt]
  have long := batched.limited _ together (by decide)
  simp [total, longProperties, estimate, setReportInfo, MIN_REPORT_SIZE,
    MAX_REPORT_SIZE] at long

end TarsCpp.Servant.StatReport
