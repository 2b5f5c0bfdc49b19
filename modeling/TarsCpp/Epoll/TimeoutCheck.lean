import Mathlib.Data.List.TakeWhile
import TarsCpp.TransitionRun
import TarsCpp.Epoll.TimeoutIndex

/-!
# Checking the timeouts

The first loop goes on to the next element before it erases one.  The second
loop erases the element its iterator stands at, and stops at the first empty
connection that is not too old.
-/

namespace TarsCpp.Epoll

open NetworkBuffer TransitionRun

namespace TimeoutList

section Walk

variable {list : TimeoutList} {passed behind : List TlNode} {entry : TlNode}

theorem dropWhile_node {tl : List TlNode} (distinct : (tl.map TlNode.node).Nodup)
    (split : tl = passed ++ entry :: behind) :
    tl.dropWhile (·.node ≠ entry.node) = entry :: behind := by
  subst split
  rw [List.map_append, List.nodup_append] at distinct
  have before : ∀ other ∈ passed,
      decide (other.node ≠ entry.node) = true := by
    intro other member
    exact decide_eq_true (distinct.2.2 _ (List.mem_map_of_mem member) _
      (List.mem_map_of_mem List.mem_cons_self))
  rw [List.dropWhile_append_of_pos before, List.dropWhile_cons_of_neg (by simp)]

theorem filter_node {tl : List TlNode} (distinct : (tl.map TlNode.node).Nodup)
    (split : tl = passed ++ entry :: behind) :
    tl.filter (·.node ≠ entry.node) = passed ++ behind := by
  subst split
  rw [List.map_append, List.nodup_append, List.map_cons,
    List.nodup_cons] at distinct
  obtain ⟨_, ⟨ahead, _⟩, apart⟩ := distinct
  have before : passed.filter (·.node ≠ entry.node) = passed := by
    apply List.filter_eq_self.mpr
    intro other member
    exact decide_eq_true
      (apart _ (List.mem_map_of_mem member) _ List.mem_cons_self)
  have after : behind.filter (·.node ≠ entry.node) = behind := by
    apply List.filter_eq_self.mpr
    intro other member
    exact decide_eq_true fun same => ahead (same ▸ List.mem_map_of_mem member)
  rw [List.filter_append, List.filter_cons_of_neg (by simp), before, after]

theorem Indexed.derefTl (indexed : list.Indexed) (member : entry ∈ list.tl) :
    list.derefTl entry.node = .ok entry := by
  rw [TimeoutList.derefTl]
  cases search : list.tl.find? (·.node = entry.node) with
  | none =>
      have missing := List.find?_eq_none.mp search entry member
      simp at missing
  | some other =>
      have same : other.node = entry.node := by
        simpa using List.find?_some search
      rw [indexed.eq_of_node (List.mem_of_find?_eq_some search) member same]

theorem Indexed.nextTl (indexed : list.Indexed)
    (split : list.tl = passed ++ entry :: behind) :
    list.nextTl entry.node = .ok (behind.head?.map TlNode.node) := by
  rw [TimeoutList.nextTl, dropWhile_node indexed.distinct split]

/-- An iterator whose element has been erased leads nowhere. -/
theorem nextTl_removeEntry :
    (list.removeEntry entry).nextTl entry.node = .error .invalidAccess := by
  have gone : (list.removeEntry entry).tl.dropWhile
      (·.node ≠ entry.node) = [] := by
    apply List.dropWhile_eq_nil_iff.mpr
    intro other member
    exact (List.mem_filter.mp member).2
  rw [TimeoutList.nextTl, gone]

theorem Indexed.first (indexed : list.Indexed) (member : entry ∈ list.tl) :
    ∃ conn, list.vConn entry.uid = some conn ∧
      list.first entry.uid = .ok conn := by
  obtain ⟨conn, found⟩ := Option.isSome_iff_exists.mp (indexed.isSome member)
  exact ⟨conn, found, by rw [TimeoutList.first, found]⟩

end Walk

/-- A TCP connection whose deadline has passed. -/
def Expired (getTimeout : Connection → Int) (iCurTime : Int)
    (entry : TlNode) (conn : Connection) : Prop :=
  conn.isTcp = true ∧ 0 < getTimeout conn ∧ entry.key ≤ iCurTime

/-- An empty TCP connection that is too old. -/
def Empty (list : TimeoutList) (getTimeout : Connection → Int)
    (isEmptyConn : Connection → Bool) (iCurTime : Int) (entry : TlNode)
    (conn : Connection) : Prop :=
  0 < list.emptyCheckTimeout ∧ conn.isTcp = true ∧
    isEmptyConn conn = true ∧
    list.emptyTimeout getTimeout entry conn ≤ iCurTime

/-- No connection that should have been closed is left. -/
def Checked (getTimeout : Connection → Int) (isEmptyConn : Connection → Bool)
    (iCurTime : Int) (list : TimeoutList) : Prop :=
  ∀ entry ∈ list.tl, ∀ conn, list.vConn entry.uid = some conn →
    ¬ Expired getTimeout iCurTime entry conn ∧
      ¬ list.Empty getTimeout isEmptyConn iCurTime entry conn

/-- `next` is `list` without some of the connections. -/
structure Fewer (list next : TimeoutList) : Prop where
  subset : ∀ entry ∈ next.tl, entry ∈ list.tl
  same : ∀ entry ∈ next.tl, next.vConn entry.uid = list.vConn entry.uid
  emptyCheckTimeout : next.emptyCheckTimeout = list.emptyCheckTimeout
  lastTimeoutTime : next.lastTimeoutTime = list.lastTimeoutTime

theorem Fewer.refl (list : TimeoutList) : list.Fewer list :=
  ⟨fun _ member => member, fun _ _ => rfl, rfl, rfl⟩

theorem Fewer.trans {list middle next : TimeoutList}
    (first : list.Fewer middle) (second : middle.Fewer next) :
    list.Fewer next where
  subset := fun entry member => first.subset entry (second.subset entry member)
  same := fun entry member =>
    (second.same entry member).trans
      (first.same entry (second.subset entry member))
  emptyCheckTimeout := second.emptyCheckTimeout.trans first.emptyCheckTimeout
  lastTimeoutTime := second.lastTimeoutTime.trans first.lastTimeoutTime

theorem Indexed.fewer {list : TimeoutList} (indexed : list.Indexed)
    {entry : TlNode} (member : entry ∈ list.tl) :
    list.Fewer (list.removeEntry entry) where
  subset := fun _ present => List.mem_of_mem_filter present
  same := by
    intro other present
    obtain ⟨listed, different⟩ := List.mem_filter.mp present
    have elsewhere : other.uid ≠ entry.uid := fun same =>
      of_decide_eq_true different
        (congrArg TlNode.node (indexed.eq_of_uid listed member same))
    exact Function.update_of_ne elsewhere _ _
  emptyCheckTimeout := rfl
  lastTimeoutTime := rfl

/-- The first loop closes the connections whose deadline has passed, and no
others. -/
structure Expires (getTimeout : Connection → Int) (iCurTime : Int)
    (list next : TimeoutList) : Prop where
  indexed : next.Indexed
  fewer : list.Fewer next
  closed : ∀ entry ∈ next.tl, ∀ conn, next.vConn entry.uid = some conn →
    ¬ Expired getTimeout iCurTime entry conn
  kept : ∀ entry ∈ list.tl, ∀ conn, list.vConn entry.uid = some conn →
    ¬ Expired getTimeout iCurTime entry conn → entry ∈ next.tl

section Loops

variable {getTimeout : Connection → Int} {isEmptyConn : Connection → Bool}
  {iCurTime : Int}

/-- Those that the loop leaves behind it do not have to be closed. -/
theorem Expires.here {list : TimeoutList} (indexed : list.Indexed)
    (closed : ∀ entry ∈ list.tl, ∀ conn, list.vConn entry.uid = some conn →
      ¬ Expired getTimeout iCurTime entry conn) :
    Expires getTimeout iCurTime list list :=
  ⟨indexed, Fewer.refl list, closed, fun _ member _ _ _ => member⟩

theorem Expires.after {list next : TimeoutList} {entry : TlNode}
    {conn : Connection} (indexed : list.Indexed) (member : entry ∈ list.tl)
    (found : list.vConn entry.uid = some conn)
    (expired : Expired getTimeout iCurTime entry conn)
    (expires : Expires getTimeout iCurTime (list.removeEntry entry) next) :
    Expires getTimeout iCurTime list next where
  indexed := expires.indexed
  fewer := (indexed.fewer member).trans expires.fewer
  closed := expires.closed
  kept := by
    intro other present conn' found' alive
    have different : other.node ≠ entry.node := by
      intro same
      rw [indexed.eq_of_node present member same, found] at found'
      cases found'
      rw [indexed.eq_of_node present member same] at alive
      exact alive expired
    have listed : other ∈ (list.removeEntry entry).tl :=
      List.mem_filter.mpr ⟨present, decide_eq_true different⟩
    refine expires.kept other listed conn' ?_ alive
    rw [(indexed.fewer member).same other listed, found']

theorem Indexed.timeoutLoop {behind : List TlNode} :
    ∀ {list : TimeoutList} {passed : List TlNode} {turns : Nat},
      list.Indexed → list.tl = passed ++ behind → behind.length < turns →
      (∀ entry ∈ passed, ∀ conn, list.vConn entry.uid = some conn →
        ¬ Expired getTimeout iCurTime entry conn) →
      ∃ next, timeoutLoop getTimeout iCurTime turns
          (behind.head?.map TlNode.node) list = .ok next ∧
        Expires getTimeout iCurTime list next := by
  induction behind with
  | nil =>
      intro list passed turns indexed split enough checked
      cases turns with
      | zero => cases enough
      | succ turns =>
          rw [List.append_nil] at split
          exact ⟨list, rfl, .here indexed (split ▸ checked)⟩
  | cons entry behind ih =>
      intro list passed turns indexed split enough checked
      have listed : entry ∈ list.tl :=
        split ▸ List.mem_append_right _ List.mem_cons_self
      obtain ⟨conn, found, first⟩ := indexed.first listed
      have split' : list.tl = (passed ++ [entry]) ++ behind := by
        rw [split, List.append_assoc, List.singleton_append]
      have sorted := split ▸ indexed.sorted
      cases turns with
      | zero => cases enough
      | succ turns =>
          have enough' : behind.length < turns := Nat.lt_of_succ_lt_succ enough
          rw [List.head?_cons, Option.map_some, TimeoutList.timeoutLoop,
            indexed.derefTl listed, ok_bind]
          -- the connections up to here, if this one may stay
          have grown : ¬ Expired getTimeout iCurTime entry conn →
              ∀ other ∈ passed ++ [entry], ∀ conn',
                list.vConn other.uid = some conn' →
                ¬ Expired getTimeout iCurTime other conn' := by
            intro alive other member conn' found'
            rcases List.mem_append.mp member with before | here
            · exact checked other before conn' found'
            · rw [List.mem_singleton.mp here, found] at found'
              cases found'
              rw [List.mem_singleton.mp here]
              exact alive
          by_cases early : entry.key > iCurTime
          · rw [if_pos early]
            refine ⟨list, rfl, .here indexed ?_⟩
            intro other member conn' found' expired
            rw [split] at member
            rcases List.mem_append.mp member with before | later
            · exact checked other before conn' found' expired
            · have atLeast : entry.key ≤ other.key := by
                rcases List.mem_cons.mp later with rfl | further
                · exact le_refl _
                · exact sorted.le_of_split other further
              have passes := expired.2.2
              omega
          · rw [if_neg early, indexed.nextTl split, ok_bind, first, ok_bind]
            cases tcp : conn.isTcp with
            | false =>
                refine ih indexed split' enough' (grown fun expired => ?_)
                exact Bool.false_ne_true (tcp.symm.trans expired.1)
            | true =>
                by_cases limited : getTimeout conn > 0
                · have expired : Expired getTimeout iCurTime entry conn :=
                    ⟨tcp, limited, not_lt.mp early⟩
                  have rest : (list.removeEntry entry).tl = passed ++ behind :=
                    filter_node indexed.distinct split
                  have removed := indexed.fewer listed
                  obtain ⟨next, result, expires⟩ := ih
                    (indexed.removeEntry listed) rest enough' (by
                      intro other before conn' found'
                      have still : other ∈ (list.removeEntry entry).tl :=
                        rest ▸ List.mem_append_left _ before
                      rw [removed.same other still] at found'
                      exact checked other before conn' found')
                  refine ⟨next, ?_, .after indexed listed found expired
                    expires⟩
                  simp only [Bool.not_true, Bool.false_eq_true, if_false,
                    limited, if_true, indexed.delNoLock listed, ok_bind]
                  exact result
                · simp only [Bool.not_true, Bool.false_eq_true, if_false,
                    limited]
                  exact ih indexed split' enough'
                    (grown fun expired => limited expired.2.1)

/-- As long as there is no connection to close. -/
theorem Indexed.emptyLoop {list : TimeoutList} (indexed : list.Indexed)
    (checking : 0 < list.emptyCheckTimeout)
    (none : ∀ entry ∈ list.tl, ∀ conn, list.vConn entry.uid = some conn →
      ¬ list.Empty getTimeout isEmptyConn iCurTime entry conn)
    {behind : List TlNode} :
    ∀ {passed : List TlNode} {turns : Nat}, list.tl = passed ++ behind →
      behind.length < turns →
      emptyLoop getTimeout isEmptyConn iCurTime turns
        (behind.head?.map TlNode.node) list = .ok list := by
  induction behind with
  | nil =>
      intro passed turns _ enough
      cases turns with
      | zero => cases enough
      | succ turns => rfl
  | cons entry behind ih =>
      intro passed turns split enough
      have listed : entry ∈ list.tl :=
        split ▸ List.mem_append_right _ List.mem_cons_self
      obtain ⟨conn, found, first⟩ := indexed.first listed
      have split' : list.tl = (passed ++ [entry]) ++ behind := by
        rw [split, List.append_assoc, List.singleton_append]
      cases turns with
      | zero => cases enough
      | succ turns =>
          rw [List.head?_cons, Option.map_some, TimeoutList.emptyLoop,
            indexed.derefTl listed, ok_bind, first, ok_bind]
          cases empty : conn.isTcp && isEmptyConn conn with
          | false =>
              rw [if_neg Bool.false_ne_true, indexed.nextTl split, ok_bind]
              exact ih split' (Nat.lt_of_succ_lt_succ enough)
          | true =>
              obtain ⟨tcp, isEmpty⟩ := Bool.and_eq_true_iff.mp empty
              have early : list.emptyTimeout getTimeout entry conn >
                  iCurTime :=
                not_le.mp fun old =>
                  none entry listed conn found ⟨checking, tcp, isEmpty, old⟩
              rw [if_pos rfl, if_pos early]
              rfl

/-- If it erases an element it goes on from there. -/
theorem Indexed.emptyLoop_cases {list : TimeoutList}
    (indexed : list.Indexed) {behind : List TlNode} :
    ∀ {passed : List TlNode} {turns : Nat}, list.tl = passed ++ behind →
      behind.length < turns →
      TimeoutList.emptyLoop getTimeout isEmptyConn iCurTime turns
          (behind.head?.map TlNode.node) list = .ok list ∨
        TimeoutList.emptyLoop getTimeout isEmptyConn iCurTime turns
          (behind.head?.map TlNode.node) list = .error .invalidAccess := by
  induction behind with
  | nil =>
      intro passed turns _ enough
      cases turns with
      | zero => cases enough
      | succ turns => exact .inl rfl
  | cons entry behind ih =>
      intro passed turns split enough
      have listed : entry ∈ list.tl :=
        split ▸ List.mem_append_right _ List.mem_cons_self
      obtain ⟨conn, found, first⟩ := indexed.first listed
      have split' : list.tl = (passed ++ [entry]) ++ behind := by
        rw [split, List.append_assoc, List.singleton_append]
      cases turns with
      | zero => cases enough
      | succ turns =>
          rw [List.head?_cons, Option.map_some, TimeoutList.emptyLoop,
            indexed.derefTl listed, ok_bind, first, ok_bind]
          cases empty : conn.isTcp && isEmptyConn conn with
          | false =>
              rw [if_neg Bool.false_ne_true, indexed.nextTl split, ok_bind]
              exact ih split' (Nat.lt_of_succ_lt_succ enough)
          | true =>
              rw [if_pos rfl]
              by_cases early : list.emptyTimeout getTimeout entry conn >
                  iCurTime
              · rw [if_pos early]
                exact .inl rfl
              · rw [if_neg early, indexed.delNoLock listed, ok_bind,
                  nextTl_removeEntry]
                exact .inr rfl

/-- Every empty connection that is too old is one that the first loop
closes. -/
def NoneLeft (getTimeout : Connection → Int) (isEmptyConn : Connection → Bool)
    (iCurTime : Int) (list : TimeoutList) : Prop :=
  ∀ entry ∈ list.tl, ∀ conn, list.vConn entry.uid = some conn →
    list.Empty getTimeout isEmptyConn iCurTime entry conn →
    Expired getTimeout iCurTime entry conn

theorem Indexed.firstLoop {list : TimeoutList} (indexed : list.Indexed)
    (getTimeout : Connection → Int) (iCurTime : Int) :
    ∃ next, TimeoutList.timeoutLoop getTimeout iCurTime
        (list.tl.length + 1) list.begin list = .ok next ∧
      Expires getTimeout iCurTime list next :=
  indexed.timeoutLoop (List.nil_append list.tl).symm (Nat.lt_succ_self _)
    (fun _ member => absurd member List.not_mem_nil)

theorem Indexed.checkConnections_iff {list : TimeoutList}
    (indexed : list.Indexed) :
    (∃ next, list.checkConnections getTimeout isEmptyConn iCurTime =
        .ok next ∧ next.Indexed ∧
        Checked getTimeout isEmptyConn iCurTime next) ↔
      NoneLeft getTimeout isEmptyConn iCurTime list := by
  obtain ⟨middle, result, expires⟩ := indexed.firstLoop getTimeout iCurTime
  have same := expires.fewer
  rw [checkConnections, result, ok_bind]
  constructor
  · intro succeeds entry member conn found empty
    obtain ⟨next, second, _, checked⟩ := succeeds
    have isMiddle : next = middle := by
      rw [if_pos (same.emptyCheckTimeout ▸ empty.1)] at second
      rcases expires.indexed.emptyLoop_cases
          (List.nil_append middle.tl).symm (Nat.lt_succ_self _) with ok | failed
      · exact (Except.ok.inj (ok.symm.trans second)).symm
      · exact absurd (failed.symm.trans second) (by simp)
    subst isMiddle
    by_contra alive
    have kept := expires.kept entry member conn found alive
    have found' := (same.same entry kept).trans found
    refine (checked entry kept conn found').2 ?_
    rw [Empty, emptyTimeout, same.emptyCheckTimeout]
    exact empty
  · intro noneLeft
    have none : ∀ entry ∈ middle.tl, ∀ conn,
        middle.vConn entry.uid = some conn →
        ¬ middle.Empty getTimeout isEmptyConn iCurTime entry conn := by
      intro entry member conn found empty
      rw [Empty, emptyTimeout, same.emptyCheckTimeout] at empty
      exact expires.closed entry member conn found
        (noneLeft entry (same.subset entry member) conn
          ((same.same entry member).symm.trans found) empty)
    refine ⟨middle, ?_, expires.indexed, fun entry member conn found =>
      ⟨expires.closed entry member conn found, none entry member conn found⟩⟩
    split_ifs with checking
    · exact expires.indexed.emptyLoop checking none
        (List.nil_append middle.tl).symm (Nat.lt_succ_self _)
    · rfl

end Loops

end TimeoutList

namespace ListEvent

/-- A connection is added with a uid that has been handed out for it. -/
def Allowed (list : TimeoutList) : ListEvent → Prop
  | .add cPtr _ _ => cPtr.uid ∈ list.reserved
  | _ => True

/-- What `checkTimeout` leaves. -/
def Closes (next : TimeoutList) : ListEvent → Prop
  | .checkTimeout iCurTime getTimeout isEmptyConn =>
      TimeoutList.Checked getTimeout isEmptyConn iCurTime next
  | _ => True

def IsCheck : ListEvent → Prop
  | .checkTimeout _ _ _ => True
  | _ => False

/-- The table is in step afterwards; `checkTimeout` has closed what it should,
and what fails elsewhere are the assertions on the caller. -/
structure Sound (list : TimeoutList) (event : ListEvent) : Prop where
  succeeds : ∀ next, event.perform list = .ok next →
    next.Indexed ∧ event.Closes next
  fails : ∀ failure, event.perform list = .error failure →
    (∃ what, failure = .assertion what) ∧ ¬ event.IsCheck

/-- The list is initialized once, its slots fit below the magic number, a check
that comes within a second has nothing to do, and the second loop finds nothing
to close. -/
def Harmless (list : TimeoutList) : ListEvent → Prop
  | .init _ _ _ => list.total = 0
  | .getUniqId => ∀ first ∈ list.free.head?, first.toNat < 2 ^ 22
  | .checkTimeout iCurTime getTimeout isEmptyConn =>
      if iCurTime - list.lastTimeoutTime < 1 then
        TimeoutList.Checked getTimeout isEmptyConn iCurTime list
      else
        TimeoutList.NoneLeft getTimeout isEmptyConn iCurTime list
  | _ => True

end ListEvent

/-- A call, and the list after it. -/
structure ListLabel where
  event : ListEvent
  after : TimeoutList

def ListStep (list : TimeoutList) (label : ListLabel) (next : TimeoutList) :
    Prop :=
  label.event.Allowed list ∧ label.event.perform list = .ok next ∧
    label.after = next

namespace TimeoutList

variable {list next : TimeoutList}

theorem sound_of_cases {event : ListEvent} (noCheck : ¬ event.IsCheck)
    (closes : ∀ next, event.Closes next)
    (cases : (∃ what, event.perform list = .error (.assertion what)) ∨
      ∃ next, event.perform list = .ok next ∧ next.Indexed) :
    event.Sound list where
  succeeds := by
    intro next result
    rcases cases with ⟨what, failed⟩ | ⟨other, succeeded, indexed⟩
    · cases failed.symm.trans result
    · cases succeeded.symm.trans result
      exact ⟨indexed, closes _⟩
  fails := by
    intro failure result
    rcases cases with ⟨what, failed⟩ | ⟨other, succeeded, _⟩
    · cases failed.symm.trans result
      exact ⟨⟨what, rfl⟩, noCheck⟩
    · cases succeeded.symm.trans result

theorem Indexed.add_cases {cPtr : Connection} {last stamp : Int}
    (indexed : list.Indexed) (reserved : cPtr.uid ∈ list.reserved) :
    (∃ what, list.add cPtr last stamp = .error (.assertion what)) ∨
      ∃ next, list.add cPtr last stamp = .ok next ∧ next.Indexed := by
  cases result : list.add cPtr last stamp with
  | ok next => exact .inr ⟨next, rfl, indexed.add reserved result⟩
  | error failure =>
      rw [TimeoutList.add] at result
      cases added : list.toConnectionList.add cPtr with
      | none =>
          rw [added] at result
          cases result
          exact .inl ⟨_, rfl⟩
      | some connections =>
          rw [added] at result
          cases result

theorem Indexed.getUniqId_sound (indexed : list.Indexed) :
    ListEvent.getUniqId.Sound list ↔ ListEvent.getUniqId.Harmless list := by
  cases result : list.getUniqId with
  | ok given =>
      obtain ⟨uid, next⟩ := given
      have performed : ListEvent.getUniqId.perform list = .ok next := by
        rw [ListEvent.perform, result]
        rfl
      rw [ListEvent.Harmless, ← indexed.getUniqId result]
      constructor
      · intro sound
        exact (sound.succeeds next performed).1
      · intro after
        exact sound_of_cases id (fun _ => trivial)
          (.inr ⟨next, performed, after⟩)
  | error failure =>
      rw [TimeoutList.getUniqId, ConnectionList.getUniqId] at result
      cases free : list.free with
      | nil =>
          have performed : ListEvent.getUniqId.perform list =
              .error (.assertion "!_free.empty() && uid <= _total") := by
            rw [ListEvent.perform, TimeoutList.getUniqId,
              ConnectionList.getUniqId, free]
            rfl
          have harmless : ListEvent.getUniqId.Harmless list := by
            simp [ListEvent.Harmless, free]
          exact ⟨fun _ => harmless, fun _ => sound_of_cases id
            (fun _ => trivial) (.inl ⟨_, performed⟩)⟩
      | cons first later =>
          have inside : first > 0 ∧ first ≤ list.total := by
            apply mem_slotsUpTo.mp
            apply indexed.slots.mem_iff.mp
            rw [free]
            exact List.mem_cons_self
          rw [free] at result
          simp only [inside, and_self, if_true] at result
          cases result

theorem Indexed.checkTimeout_sound (indexed : list.Indexed) (iCurTime : Int)
    (getTimeout : Connection → Int) (isEmptyConn : Connection → Bool) :
    (ListEvent.checkTimeout iCurTime getTimeout isEmptyConn).Sound list ↔
      (ListEvent.checkTimeout iCurTime getTimeout isEmptyConn).Harmless
        list := by
  have returns :
      (ListEvent.checkTimeout iCurTime getTimeout isEmptyConn).Sound list ↔
        ∃ next, list.checkTimeout getTimeout isEmptyConn iCurTime = .ok next ∧
          next.Indexed ∧ Checked getTimeout isEmptyConn iCurTime next := by
    constructor
    · intro sound
      cases result : list.checkTimeout getTimeout isEmptyConn iCurTime with
      | ok next => exact ⟨next, rfl, sound.succeeds next result⟩
      | error failure =>
          exact absurd trivial (sound.fails failure result).2
    · intro succeeds
      obtain ⟨next, result, after, checked⟩ := succeeds
      constructor
      · intro other performed
        cases result.symm.trans performed
        exact ⟨after, checked⟩
      · intro failure performed
        cases result.symm.trans performed
  rw [returns, ListEvent.Harmless, TimeoutList.checkTimeout]
  split_ifs with recent
  · constructor
    · intro succeeds
      obtain ⟨next, result, _, checked⟩ := succeeds
      cases result
      exact checked
    · intro checked
      exact ⟨list, rfl, indexed, checked⟩
  · have stamped : { list with lastTimeoutTime := iCurTime }.Indexed := {
      iter := indexed.iter
      distinct := indexed.distinct
      nodes := indexed.nodes
      sorted := indexed.sorted
      slots := indexed.slots
      used := indexed.used
      magic := indexed.magic }
    exact stamped.checkConnections_iff

/-- A call does what it should exactly if it is harmless. -/
theorem Indexed.sound_iff (indexed : list.Indexed) {event : ListEvent}
    (allowed : event.Allowed list) :
    event.Sound list ↔ event.Harmless list := by
  cases event with
  | init size iIndex tnow =>
      rw [ListEvent.Harmless, ← indexed.init_iff size iIndex tnow]
      constructor
      · intro sound
        exact (sound.succeeds _ rfl).1
      · intro after
        exact sound_of_cases id (fun _ => trivial) (.inr ⟨_, rfl, after⟩)
  | getUniqId => exact indexed.getUniqId_sound
  | add cPtr iLastRefreshTime iTimeOutStamp =>
      exact ⟨fun _ => trivial, fun _ => sound_of_cases id (fun _ => trivial)
        (indexed.add_cases allowed)⟩
  | refresh uid iTimeOutStamp =>
      exact ⟨fun _ => trivial, fun _ => sound_of_cases id (fun _ => trivial)
        indexed.refresh⟩
  | del uid =>
      exact ⟨fun _ => trivial, fun _ => sound_of_cases id (fun _ => trivial)
        indexed.del⟩
  | setEmptyConnTimeout timeout =>
      have unchanged : { list with emptyCheckTimeout := timeout }.Indexed := {
        iter := indexed.iter
        distinct := indexed.distinct
        nodes := indexed.nodes
        sorted := indexed.sorted
        slots := indexed.slots
        used := indexed.used
        magic := indexed.magic }
      exact ⟨fun _ => trivial, fun _ => sound_of_cases id (fun _ => trivial)
        (.inr ⟨_, rfl, unchanged⟩)⟩
  | checkTimeout iCurTime getTimeout isEmptyConn =>
      exact indexed.checkTimeout_sound iCurTime getTimeout isEmptyConn

end TimeoutList

/-- In every run of harmless calls every slot is free, reserved or used, the
time index is in step with the slots, and every check returns with all
connections closed that are due. -/
theorem runs_keep_index {labels : List ListLabel} {list : TimeoutList}
    (run : Run (Guarded (fun list label => label.event.Harmless list)
      ListStep) .new labels list) :
    list.Indexed ∧ (∀ label ∈ labels, label.event.Closes label.after) ∧
      ∀ event : ListEvent, event.Allowed list →
        (event.Sound list ↔ event.Harmless list) := by
  have keeps : ∀ {list : TimeoutList} {label : ListLabel} {next : TimeoutList},
      list.Indexed → Guarded (fun list label => label.event.Harmless list)
        ListStep list label next →
      next.Indexed ∧ label.event.Closes label.after := by
    intro list label next indexed step
    obtain ⟨harmless, allowed, result, after⟩ := step
    rw [after]
    exact ((indexed.sound_iff allowed).mpr harmless).succeeds next result
  have indexed := @Run.preserves _ _ _ TimeoutList.Indexed
    (fun indexed step => (keeps indexed step).1) _ _ _ run
    TimeoutList.indexed_new
  refine ⟨indexed, ?_, fun event allowed => indexed.sound_iff allowed⟩
  exact @Run.labels _ _ _ TimeoutList.Indexed
    (fun label : ListLabel => label.event.Closes label.after)
    (fun indexed step => (keeps indexed step).1)
    (fun indexed step => (keeps indexed step).2) _ _ _ run
    TimeoutList.indexed_new

theorem step_of_perform {list next : TimeoutList} {event : ListEvent}
    (result : event.perform list = .ok next) (allowed : event.Allowed list) :
    ListStep list ⟨event, next⟩ next :=
  ⟨allowed, result, rfl⟩

theorem guarded_of_perform {list next : TimeoutList} {event : ListEvent}
    (result : event.perform list = .ok next) (allowed : event.Allowed list)
    (harmless : event.Harmless list) :
    Guarded (fun list label => label.event.Harmless list) ListStep list
      ⟨event, next⟩ next :=
  ⟨harmless, step_of_perform result allowed⟩

namespace Sample

/-- It gets the first slot, in a thread with index 1 at the time 100. -/
def conn : Connection := ⟨0, 0x90400001, true⟩

def initialized : TimeoutList := TimeoutList.new.init 2 1 100

def reserving : TimeoutList :=
  { initialized with
    free := [2]
    reserved := [0x90400001] }

/-- The deadline is ten seconds after the last refresh. -/
def holding : TimeoutList :=
  { reserving with
    vConn := Function.update (fun _ => none) 1 (some conn)
    iLastRefreshTime := Function.update (fun _ => 0) 1 100
    reserved := [] }.insertTl 110 1

def expired : TimeoutList :=
  { holding with lastTimeoutTime := 111 }.removeEntry ⟨0, 110, 1⟩

theorem init_initialized :
    (ListEvent.init 2 1 100).perform .new = .ok initialized := rfl

theorem getUniqId_reserving :
    ListEvent.getUniqId.perform initialized = .ok reserving := rfl

theorem add_holding :
    (ListEvent.add conn 100 110).perform reserving = .ok holding := rfl

end Sample

/-- After its deadline the connection is closed and its slot is free again. -/
theorem runs_keep_index_expired :
    Sample.expired.Indexed ∧ Sample.expired.tl = [] ∧
      Sample.expired.free = [2, 1] := by
  have given : ∀ first ∈ some (1 : Uid), first.toNat < 2 ^ 22 := by simp
  have noCheck : TimeoutList.NoneLeft (fun _ => 10) (fun _ => true) 111
      Sample.holding :=
    fun _ _ _ _ empty => absurd empty.1 (by decide)
  have checked : (ListEvent.checkTimeout 111 (fun _ => 10)
      fun _ => true).perform Sample.holding = .ok Sample.expired := rfl
  have run := Run.cons
    (guarded_of_perform Sample.init_initialized trivial rfl)
    (.cons (guarded_of_perform Sample.getUniqId_reserving trivial given)
      (.cons (guarded_of_perform Sample.add_holding
          (List.mem_singleton_self _) trivial)
        (.cons (guarded_of_perform checked trivial noCheck) (.nil _))))
  exact ⟨(runs_keep_index run).1, rfl, rfl⟩

/-- An empty connection is closed six seconds after it has been added, and the
second loop goes on from the element that it has erased. -/
theorem emptyLoop_goes_astray :
    ∃ labels list, Run ListStep .new labels list ∧
      (ListEvent.checkTimeout 106 (fun _ => 10) fun _ => true).perform list =
        .error .invalidAccess := by
  have set : (ListEvent.setEmptyConnTimeout 5000).perform Sample.holding =
      .ok { Sample.holding with emptyCheckTimeout := 5000 } := rfl
  have run := Run.cons (step_of_perform Sample.init_initialized trivial)
    (.cons (step_of_perform Sample.getUniqId_reserving trivial)
      (.cons (step_of_perform Sample.add_holding (List.mem_singleton_self _))
        (.cons (step_of_perform set trivial) (.nil _))))
  exact ⟨_, _, run, rfl⟩

end TarsCpp.Epoll
