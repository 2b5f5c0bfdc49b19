import TarsCpp.TransitionRun
import TarsCpp.Epoll.ConnectionList

/-!
# Responses of a network thread

`TC_EpollServer::NetThread`: connections come and go, each of them produces
receive contexts, and handler threads turn these into send contexts, at any
later time.  A send context finds its connection by uid.
-/

namespace TarsCpp.Epoll

open TransitionRun

/-- `origin` is the connection that the context was created for. -/
structure RecvContext where
  uid : Uid
  origin : Nat
  isClosed : Bool
deriving DecidableEq, Repr

/-- The `cmd` of a send context: `c` and `s`. -/
inductive Command
  | close
  | send
deriving DecidableEq, Repr

structure SendContext where
  context : RecvContext
  cmd : Command
deriving DecidableEq, Repr

def SendContext.uid (sc : SendContext) : Uid := sc.context.uid

structure NetThread where
  list : ConnectionList
  sbuffer : List SendContext := []
  terminated : Bool := false
  /-- How many connections there have been. -/
  accepted : Nat := 0
  /-- The connections that have a uid and are not in the list yet. -/
  reserved : List Connection := []
  /-- The receive contexts that somebody still holds. -/
  contexts : List RecvContext := []

namespace NetThread

def createEpoll (maxAllConn threadIndex now : Uid) : NetThread where
  list := .init maxAllConn (threadIndex + 1) now

/-- A new connection is initialized with a uid. -/
def getUniqId (isTcp : Bool) (thread : NetThread) : Option NetThread := do
  let (uid, list) ← thread.list.getUniqId
  some { thread with
    list := list
    accepted := thread.accepted + 1
    reserved := thread.reserved ++ [⟨thread.accepted, uid, isTcp⟩] }

def add (cPtr : Connection) (thread : NetThread) : Option NetThread := do
  let list ← thread.list.add cPtr
  some { thread with list := list, reserved := thread.reserved.erase cPtr }

def insertRecvQueue (cPtr : Connection) (isClosed : Bool)
    (thread : NetThread) : NetThread :=
  { thread with
    contexts := thread.contexts ++ [⟨cPtr.uid, cPtr.object, isClosed⟩] }

/-- The handlers are told, and with `bEraseList` the uid becomes free. -/
def delConnection (cPtr : Connection) (bEraseList : Bool)
    (thread : NetThread) : Option NetThread :=
  if cPtr.isTcp then
    let thread := thread.insertRecvQueue cPtr true
    if bEraseList then do
      let list ← thread.list.del cPtr.uid
      some { thread with list := list }
    else
      some thread
  else
    some thread

/-- One turn of `checkTimeout`, for a connection whose time is up. -/
def checkTimeout (cPtr : Connection) (thread : NetThread) :
    Option NetThread :=
  if cPtr.isTcp then do
    let thread ← thread.delConnection cPtr false
    let list ← thread.list.delNoLock (slot cPtr.uid)
    some { thread with list := list }
  else
    some thread

def close (data : RecvContext) (thread : NetThread) : NetThread :=
  if thread.terminated then
    thread
  else
    { thread with sbuffer := thread.sbuffer ++ [⟨data, .close⟩] }

/-- What is handed over, and to which connection. -/
abbrev Delivery := Option (SendContext × Connection)

/-- `sameThread`: the handler runs in the network thread itself. -/
def send (data : SendContext) (sameThread : Bool) (thread : NetThread) :
    Delivery × NetThread :=
  if thread.terminated then
    (none, thread)
  else if sameThread then
    match thread.list.get data.uid with
    | some cPtr => (some (data, cPtr), thread)
    | none => (none, thread)
  else
    (none, { thread with sbuffer := thread.sbuffer ++ [data] })

/-- One turn of the loop of `processPipe`; `finished` is what `setClose`
returns, or whether `send` fails. -/
def processPipe (finished : Bool) (thread : NetThread) :
    Option (Delivery × NetThread) :=
  match thread.sbuffer with
  | [] => none
  | sc :: sbuffer =>
      let thread := { thread with sbuffer := sbuffer }
      match thread.list.get sc.uid with
      | none => some (none, thread)
      | some cPtr =>
          if finished then do
            let thread ← thread.delConnection cPtr true
            some (some (sc, cPtr), thread)
          else
            some (some (sc, cPtr), thread)

/-- The receive contexts from which a response may still come. -/
def outstanding (thread : NetThread) : List RecvContext :=
  thread.contexts ++ thread.sbuffer.map SendContext.context

end NetThread

inductive Event
  | getUniqId (isTcp : Bool)
  | add (cPtr : Connection)
  | recv (cPtr : Connection)
  | release (data : RecvContext)
  | close (data : RecvContext)
  | send (data : RecvContext) (sameThread : Bool)
  | processPipe (finished : Bool)
  | delConnection (cPtr : Connection)
  | checkTimeout (cPtr : Connection)
  | terminate
deriving DecidableEq, Repr

/-- A step, which is possible if its connection is in the list, or its context
is still held. -/
inductive Step : NetThread → Event × NetThread.Delivery → NetThread → Prop
  | getUniqId {thread isTcp next} :
      thread.getUniqId isTcp = some next →
      Step thread (.getUniqId isTcp, none) next
  | add {thread cPtr next} :
      cPtr ∈ thread.reserved → thread.add cPtr = some next →
      Step thread (.add cPtr, none) next
  | recv {thread cPtr} :
      thread.list.get cPtr.uid = some cPtr →
      Step thread (.recv cPtr, none) (thread.insertRecvQueue cPtr false)
  | release {thread data} :
      Step thread (.release data, none)
        { thread with contexts := thread.contexts.erase data }
  | close {thread data} :
      data ∈ thread.contexts →
      Step thread (.close data, none) (thread.close data)
  | send {thread data sameThread delivery next} :
      data ∈ thread.contexts →
      thread.send ⟨data, .send⟩ sameThread = (delivery, next) →
      Step thread (.send data sameThread, delivery) next
  | processPipe {thread finished delivery next} :
      thread.processPipe finished = some (delivery, next) →
      Step thread (.processPipe finished, delivery) next
  | delConnection {thread cPtr next} :
      thread.list.get cPtr.uid = some cPtr →
      thread.delConnection cPtr true = some next →
      Step thread (.delConnection cPtr, none) next
  | checkTimeout {thread cPtr next} :
      thread.list.get cPtr.uid = some cPtr →
      thread.checkTimeout cPtr = some next →
      Step thread (.checkTimeout cPtr, none) next
  | terminate {thread} :
      Step thread (.terminate, none) { thread with terminated := true }

/-- A connection is put under a uid that no outstanding context carries. -/
def Unshared (thread : NetThread) (label : Event × NetThread.Delivery) :
    Prop :=
  match label.1 with
  | .add cPtr => ∀ data ∈ thread.outstanding, data.uid ≠ cPtr.uid
  | _ => True

/-- What is handed over reaches the connection it was created for. -/
def ToOrigin (label : Event × NetThread.Delivery) : Prop :=
  ∀ sc cPtr, label.2 = some (sc, cPtr) → cPtr.object = sc.context.origin

namespace NetThread

variable {thread next : NetThread} {delivery : Delivery}

theorem send_cases {data : SendContext} {sameThread : Bool}
    (run : thread.send data sameThread = (delivery, next)) :
    (delivery = none ∧ (next = thread ∨
      next = { thread with sbuffer := thread.sbuffer ++ [data] })) ∨
    ∃ cPtr, thread.list.get data.uid = some cPtr ∧
      delivery = some (data, cPtr) ∧ next = thread := by
  unfold send at run
  split_ifs at run with terminated same
  · cases run
    exact .inl ⟨rfl, .inl rfl⟩
  · split at run
    · rename_i cPtr found
      cases run
      exact .inr ⟨cPtr, found, rfl, rfl⟩
    · cases run
      exact .inl ⟨rfl, .inl rfl⟩
  · cases run
    exact .inl ⟨rfl, .inr rfl⟩

theorem processPipe_cases {finished : Bool}
    (run : thread.processPipe finished = some (delivery, next)) :
    ∃ sc sbuffer, thread.sbuffer = sc :: sbuffer ∧
      ((delivery = none ∧ next = { thread with sbuffer := sbuffer }) ∨
        ∃ cPtr, thread.list.get sc.uid = some cPtr ∧
          delivery = some (sc, cPtr) ∧
          (next = { thread with sbuffer := sbuffer } ∨
            { thread with sbuffer := sbuffer }.delConnection cPtr true =
              some next)) := by
  unfold processPipe at run
  split at run
  · cases run
  · rename_i sc sbuffer queue
    refine ⟨sc, sbuffer, queue, ?_⟩
    dsimp only at run
    split at run
    · cases run
      exact .inl ⟨rfl, rfl⟩
    · rename_i cPtr found
      right
      refine ⟨cPtr, found, ?_⟩
      split_ifs at run with closes
      · obtain ⟨deleted, run', same⟩ := Option.bind_eq_some_iff.mp run
        cases same
        exact ⟨rfl, .inr run'⟩
      · cases run
        exact ⟨rfl, .inl rfl⟩

end NetThread

namespace NetThread

def reservedObjects (thread : NetThread) : List Nat :=
  thread.reserved.map Connection.object

/-- The connection has been accepted, and is not one that is waiting for its
place in the list. -/
def Placed (thread : NetThread) (object : Nat) : Prop :=
  object < thread.accepted ∧ object ∉ thread.reservedObjects

structure Consistent (thread : NetThread) : Prop where
  stored : ∀ uid cPtr, thread.list.get uid = some cPtr →
    cPtr.uid = uid ∧ thread.Placed cPtr.object
  owned : ∀ data ∈ thread.outstanding, ∀ cPtr,
    thread.list.get data.uid = some cPtr → cPtr.object = data.origin
  origins : ∀ data ∈ thread.outstanding, thread.Placed data.origin
  waiting : ∀ object ∈ thread.reservedObjects, object < thread.accepted
  distinct : thread.reservedObjects.Nodup

/-- Nothing new is in the list, outstanding or waiting. -/
structure Shrinks (thread next : NetThread) : Prop where
  list : ∀ uid cPtr, next.list.get uid = some cPtr →
    thread.list.get uid = some cPtr
  outstanding : ∀ data ∈ next.outstanding, data ∈ thread.outstanding
  reserved : next.reserved = thread.reserved
  accepted : next.accepted = thread.accepted

section Invariant

variable {thread next : NetThread}

theorem Consistent.shrinks (consistent : thread.Consistent)
    (shrinks : Shrinks thread next) : next.Consistent := by
  obtain ⟨list, outstanding, reserved, accepted⟩ := shrinks
  have waiting : next.reservedObjects = thread.reservedObjects := by
    rw [reservedObjects, reserved, reservedObjects]
  have placed (object : Nat) : thread.Placed object → next.Placed object := by
    rw [Placed, Placed, waiting, accepted]
    exact id
  constructor
  · intro uid cPtr found
    obtain ⟨same, place⟩ := consistent.stored uid cPtr (list uid cPtr found)
    exact ⟨same, placed _ place⟩
  · intro data member cPtr found
    exact consistent.owned data (outstanding data member) cPtr
      (list _ _ found)
  · intro data member
    exact placed _ (consistent.origins data (outstanding data member))
  · rw [waiting, accepted]
    exact consistent.waiting
  · rw [waiting]
    exact consistent.distinct

theorem consistent_createEpoll (maxAllConn threadIndex now : Uid) :
    (createEpoll maxAllConn threadIndex now).Consistent where
  stored := by
    intro uid cPtr found
    rw [createEpoll, ConnectionList.get_init] at found
    cases found
  owned := by
    intro data member
    cases member
  origins := by
    intro data member
    cases member
  waiting := by
    intro object member
    cases member
  distinct := List.nodup_nil

theorem consistent_getUniqId {isTcp : Bool} (consistent : thread.Consistent)
    (run : thread.getUniqId isTcp = some next) : next.Consistent := by
  obtain ⟨⟨uid, list⟩, got, same⟩ := Option.bind_eq_some_iff.mp run
  cases same
  obtain ⟨free, rfl⟩ := ConnectionList.getUniqId_cases got
  have waiting : (thread.reserved ++
      [Connection.mk thread.accepted uid isTcp]).map Connection.object =
        thread.reservedObjects ++ [thread.accepted] := by
    rw [List.map_append]
    rfl
  have placed (object : Nat) (place : thread.Placed object) :
      object < thread.accepted + 1 ∧
        object ∉ thread.reservedObjects ++ [thread.accepted] := by
    refine ⟨Nat.lt_succ_of_lt place.1, ?_⟩
    rw [List.mem_append, List.mem_singleton, not_or]
    exact ⟨place.2, Nat.ne_of_lt place.1⟩
  constructor
  · intro uid cPtr found
    obtain ⟨same, place⟩ := consistent.stored uid cPtr found
    rw [Placed, reservedObjects, waiting]
    exact ⟨same, placed _ place⟩
  · exact consistent.owned
  · intro data member
    rw [Placed, reservedObjects, waiting]
    exact placed _ (consistent.origins data member)
  · rw [reservedObjects, waiting]
    intro object member
    cases List.mem_append.mp member with
    | inl earlier => exact Nat.lt_succ_of_lt (consistent.waiting _ earlier)
    | inr last =>
        rw [List.mem_singleton.mp last]
        exact Nat.lt_succ_self _
  · rw [reservedObjects, waiting]
    apply consistent.distinct.append (List.nodup_singleton _)
    intro object member last
    rw [List.mem_singleton.mp last] at member
    exact Nat.lt_irrefl _ (consistent.waiting _ member)

theorem Consistent.erased {cPtr : Connection} (consistent : thread.Consistent)
    (member : cPtr ∈ thread.reserved) (object : Nat) :
    object ∈ (thread.reserved.erase cPtr).map Connection.object ↔
      object ∈ thread.reservedObjects ∧ object ≠ cPtr.object := by
  have order := List.perm_cons_erase member
  have objects := order.map Connection.object
  have distinct := objects.nodup_iff.mp consistent.distinct
  rw [List.map_cons, List.nodup_cons] at distinct
  rw [reservedObjects, objects.mem_iff, List.map_cons, List.mem_cons]
  constructor
  · intro remaining
    refine ⟨.inr remaining, ?_⟩
    intro same
    exact distinct.1 (same ▸ remaining)
  · rintro ⟨same | remaining, different⟩
    · exact absurd same different
    · exact remaining

theorem consistent_add {cPtr : Connection} (consistent : thread.Consistent)
    (member : cPtr ∈ thread.reserved)
    (unshared : ∀ data ∈ thread.outstanding, data.uid ≠ cPtr.uid)
    (run : thread.add cPtr = some next) : next.Consistent := by
  obtain ⟨list, added, same⟩ := Option.bind_eq_some_iff.mp run
  cases same
  have erased := consistent.erased member
  have placed (object : Nat) (place : thread.Placed object) :
      object < thread.accepted ∧
        object ∉ (thread.reserved.erase cPtr).map Connection.object :=
    ⟨place.1, fun waiting => place.2 ((erased object).mp waiting).1⟩
  have waits : cPtr.object ∈ thread.reservedObjects :=
    List.mem_map_of_mem member
  constructor
  · intro uid other found
    rw [ConnectionList.get_add added] at found
    by_cases same : uid = cPtr.uid
    · rw [if_pos same] at found
      cases found
      refine ⟨same.symm, consistent.waiting _ waits, ?_⟩
      intro waiting
      exact ((erased _).mp waiting).2 rfl
    · rw [if_neg same] at found
      obtain ⟨same, place⟩ := consistent.stored uid other found
      exact ⟨same, placed _ place⟩
  · intro data outstanding other found
    rw [ConnectionList.get_add added,
      if_neg (unshared data outstanding)] at found
    exact consistent.owned data outstanding other found
  · intro data outstanding
    exact placed _ (consistent.origins data outstanding)
  · intro object waiting
    exact consistent.waiting _ ((erased object).mp waiting).1
  · exact ((List.erase_sublist).map Connection.object).nodup consistent.distinct

theorem consistent_insertRecvQueue {cPtr : Connection}
    (consistent : thread.Consistent)
    (found : thread.list.get cPtr.uid = some cPtr) (isClosed : Bool) :
    (thread.insertRecvQueue cPtr isClosed).Consistent := by
  have cases_outstanding {data : RecvContext}
      (member : data ∈ (thread.insertRecvQueue cPtr isClosed).outstanding) :
      data ∈ thread.outstanding ∨
        data = ⟨cPtr.uid, cPtr.object, isClosed⟩ := by
    simp only [outstanding, insertRecvQueue, List.mem_append,
      List.mem_singleton] at member ⊢
    tauto
  constructor
  · exact consistent.stored
  · intro data member other present
    cases cases_outstanding member with
    | inl earlier => exact consistent.owned data earlier other present
    | inr last =>
        rw [last] at present ⊢
        rw [show (thread.insertRecvQueue cPtr isClosed).list = thread.list
          from rfl, found] at present
        cases present
        rfl
  · intro data member
    cases cases_outstanding member with
    | inl earlier => exact consistent.origins data earlier
    | inr last =>
        rw [last]
        exact (consistent.stored _ _ found).2
  · exact consistent.waiting
  · exact consistent.distinct

theorem shrinks_list {list : ConnectionList}
    (fewer : ∀ uid cPtr, list.get uid = some cPtr →
      thread.list.get uid = some cPtr) :
    Shrinks thread { thread with list := list } :=
  ⟨fewer, fun _ => id, rfl, rfl⟩

theorem consistent_delConnection {cPtr : Connection} {bEraseList : Bool}
    (consistent : thread.Consistent)
    (found : thread.list.get cPtr.uid = some cPtr)
    (run : thread.delConnection cPtr bEraseList = some next) :
    next.Consistent := by
  have told := consistent_insertRecvQueue consistent found true
  unfold delConnection at run
  split at run
  · cases bEraseList with
    | false =>
        cases run
        exact told
    | true =>
        obtain ⟨list, deleted, same⟩ := Option.bind_eq_some_iff.mp run
        cases same
        exact told.shrinks (shrinks_list fun _ _ =>
          ConnectionList.get_del deleted)
  · cases run
    exact consistent

theorem consistent_checkTimeout {cPtr : Connection}
    (consistent : thread.Consistent)
    (found : thread.list.get cPtr.uid = some cPtr)
    (run : thread.checkTimeout cPtr = some next) : next.Consistent := by
  unfold checkTimeout at run
  split at run
  · obtain ⟨told, run', rest⟩ := Option.bind_eq_some_iff.mp run
    obtain ⟨list, deleted, same⟩ := Option.bind_eq_some_iff.mp rest
    cases same
    exact (consistent_delConnection consistent found run').shrinks
      (shrinks_list fun _ _ => ConnectionList.get_delNoLock deleted)
  · cases run
    exact consistent

/-- Another send context of a receive context that is held. -/
theorem consistent_push {sc : SendContext} (consistent : thread.Consistent)
    (held : sc.context ∈ thread.contexts) :
    { thread with sbuffer := thread.sbuffer ++ [sc] }.Consistent := by
  apply consistent.shrinks
  refine ⟨fun _ _ => id, ?_, rfl, rfl⟩
  intro data member
  simp only [outstanding, List.map_append, List.mem_append, List.map_cons,
    List.map_nil, List.mem_singleton] at member ⊢
  cases member with
  | inl context => exact .inl context
  | inr queued =>
      cases queued with
      | inl earlier => exact .inr earlier
      | inr last => exact .inl (last ▸ held)

theorem shrinks_pop {sc : SendContext} {sbuffer : List SendContext}
    (queue : thread.sbuffer = sc :: sbuffer) :
    Shrinks thread { thread with sbuffer := sbuffer } := by
  refine ⟨fun _ _ => id, ?_, rfl, rfl⟩
  intro data member
  simp only [outstanding, queue, List.map_cons, List.mem_append,
    List.mem_cons] at member ⊢
  tauto

end Invariant

end NetThread

section Runs

variable {thread next : NetThread} {label : Event × NetThread.Delivery}

theorem Step.consistent (consistent : thread.Consistent)
    (step : Guarded Unshared Step thread label next) : next.Consistent := by
  obtain ⟨unshared, step⟩ := step
  cases step with
  | getUniqId run => exact NetThread.consistent_getUniqId consistent run
  | add member run =>
      exact NetThread.consistent_add consistent member unshared run
  | recv found =>
      exact NetThread.consistent_insertRecvQueue consistent found false
  | release =>
      apply consistent.shrinks
      refine ⟨fun _ _ => id, ?_, rfl, rfl⟩
      intro data member
      simp only [NetThread.outstanding, List.mem_append] at member ⊢
      exact member.imp_left List.mem_of_mem_erase
  | close held =>
      unfold NetThread.close
      split
      · exact consistent
      · exact NetThread.consistent_push consistent held
  | send held run =>
      cases NetThread.send_cases run with
      | inl silent =>
          obtain ⟨_, rfl | rfl⟩ := silent
          · exact consistent
          · exact NetThread.consistent_push consistent held
      | inr handed =>
          obtain ⟨cPtr, _, _, rfl⟩ := handed
          exact consistent
  | processPipe run =>
      obtain ⟨sc, sbuffer, queue, outcome⟩ := NetThread.processPipe_cases run
      have popped := consistent.shrinks (NetThread.shrinks_pop queue)
      cases outcome with
      | inl silent =>
          obtain ⟨_, rfl⟩ := silent
          exact popped
      | inr handed =>
          obtain ⟨cPtr, found, _, rfl | deleted⟩ := handed
          · exact popped
          · apply NetThread.consistent_delConnection popped ?_ deleted
            rw [(consistent.stored _ _ found).1]
            exact found
  | delConnection found run =>
      exact NetThread.consistent_delConnection consistent found run
  | checkTimeout found run =>
      exact NetThread.consistent_checkTimeout consistent found run
  | terminate => exact consistent.shrinks ⟨fun _ _ => id, fun _ => id, rfl, rfl⟩

theorem Step.toOrigin (consistent : thread.Consistent)
    (step : Guarded Unshared Step thread label next) : ToOrigin label := by
  obtain ⟨_, step⟩ := step
  intro sc cPtr handed
  cases step with
  | send held run =>
      cases NetThread.send_cases run with
      | inl silent =>
          rw [silent.1] at handed
          cases handed
      | inr found =>
          obtain ⟨cPtr, found, rfl, _⟩ := found
          cases handed
          exact consistent.owned _ (List.mem_append_left _ held) _ found
  | processPipe run =>
      obtain ⟨sc, sbuffer, queue, outcome⟩ := NetThread.processPipe_cases run
      cases outcome with
      | inl silent =>
          rw [silent.1] at handed
          cases handed
      | inr found =>
          obtain ⟨cPtr, found, rfl, _⟩ := found
          cases handed
          apply consistent.owned _ _ _ found
          apply List.mem_append_right
          rw [queue]
          exact List.mem_cons_self
  | _ => cases handed

/-- As long as connections are added under uids that nothing outstanding
carries, everything is handed to the connection it was created for.  As soon as
one is added under a uid that a held context carries, a response to that
context is handed to the wrong connection. -/
theorem runs_deliver_to_origin {maxAllConn threadIndex now : Uid}
    {labels : List (Event × NetThread.Delivery)}
    (run : Run (Guarded Unshared Step)
      (.createEpoll maxAllConn threadIndex now) labels thread) :
    (∀ label ∈ labels, ToOrigin label) ∧
    ∀ cPtr data, Step thread (.add cPtr, none) next →
      data ∈ thread.contexts → data.uid = cPtr.uid →
      thread.terminated = false →
      ∃ label, Step next label next ∧ ¬ ToOrigin label := by
  have initially :=
    NetThread.consistent_createEpoll maxAllConn threadIndex now
  have consistent : thread.Consistent :=
    @Run.preserves _ _ _ NetThread.Consistent Step.consistent _ _ _ run
      initially
  constructor
  · exact @Run.labels _ _ _ NetThread.Consistent ToOrigin Step.consistent
      Step.toOrigin _ _ _ run initially
  · intro cPtr data step held shared alive
    cases step with
    | add member run' =>
        obtain ⟨list, added, same⟩ := Option.bind_eq_some_iff.mp run'
        cases same
        have found := ConnectionList.get_add added data.uid
        rw [if_pos shared] at found
        refine ⟨(.send data true, some (⟨data, .send⟩, cPtr)), .send held ?_, ?_⟩
        · simp [NetThread.send, alive, SendContext.uid, found]
        · intro toOrigin
          have placed := consistent.origins data
            (List.mem_append_left _ held)
          rw [← toOrigin _ _ rfl] at placed
          exact placed.2 (List.mem_map_of_mem member)

private def answered : List (Event × NetThread.Delivery) :=
  [(.getUniqId true, none),
    (.add ⟨0, 0x400001, true⟩, none),
    (.recv ⟨0, 0x400001, true⟩, none),
    (.send ⟨0x400001, 0, false⟩ false, none),
    (.processPipe false, some (⟨⟨0x400001, 0, false⟩, .send⟩,
      ⟨0, 0x400001, true⟩)),
    (.delConnection ⟨0, 0x400001, true⟩, none),
    (.release ⟨0x400001, 0, false⟩, none),
    (.release ⟨0x400001, 0, true⟩, none),
    (.getUniqId true, none),
    (.add ⟨1, 0x400001, true⟩, none)]

/-- A connection gets its answer before its uid is used again. -/
theorem runs_deliver_to_origin_answered :
    ∃ thread,
      Run (Guarded Unshared Step) (.createEpoll 1 0 0) answered thread ∧
      ∀ label ∈ answered, ToOrigin label := by
  have run : ∃ thread,
      Run (Guarded Unshared Step) (.createEpoll 1 0 0) answered thread :=
    ⟨_, .cons ⟨trivial, .getUniqId rfl⟩ <|
      .cons ⟨List.forall_mem_nil _, .add (by decide) rfl⟩ <|
      .cons ⟨trivial, .recv rfl⟩ <|
      .cons ⟨trivial, .send (by decide) rfl⟩ <|
      .cons ⟨trivial, .processPipe rfl⟩ <|
      .cons ⟨trivial, .delConnection rfl rfl⟩ <|
      .cons ⟨trivial, .release⟩ <|
      .cons ⟨trivial, .release⟩ <|
      .cons ⟨trivial, .getUniqId rfl⟩ <|
      .cons ⟨List.forall_mem_nil _, .add (by decide) rfl⟩ <| .nil _⟩
  obtain ⟨thread, run⟩ := run
  exact ⟨thread, run, (@runs_deliver_to_origin thread thread _ _ _ _ run).1⟩

/-- With one slot, the response to a connection that is gone is handed to the
next one. -/
theorem processPipe_reused_uid :
    ∃ thread, Run Step (.createEpoll 1 0 0)
      [(.getUniqId true, none),
        (.add ⟨0, 0x400001, true⟩, none),
        (.recv ⟨0, 0x400001, true⟩, none),
        (.delConnection ⟨0, 0x400001, true⟩, none),
        (.getUniqId true, none),
        (.add ⟨1, 0x400001, true⟩, none),
        (.send ⟨0x400001, 0, false⟩ false, none),
        (.processPipe false, some (⟨⟨0x400001, 0, false⟩, .send⟩,
          ⟨1, 0x400001, true⟩))] thread := by
  refine ⟨_, .cons (.getUniqId rfl) <| .cons (.add (by decide) rfl) <|
    .cons (.recv rfl) <| .cons (.delConnection rfl rfl) <|
    .cons (.getUniqId rfl) <| .cons (.add (by decide) rfl) <|
    .cons (.send (by decide) rfl) <| .cons (.processPipe rfl) <| .nil _⟩

end Runs

end TarsCpp.Epoll
