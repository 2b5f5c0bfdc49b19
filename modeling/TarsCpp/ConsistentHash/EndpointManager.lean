import TarsCpp.OrderedMap
import TarsCpp.ConsistentHash.Ring

/-!
# Selecting by consistent hashing

The part of `EndpointManager` that consistent hashing uses.  An `AdapterProxy`
is an identity; what the calls on it answer, its state in the registry
included, is given from outside.
-/

namespace TarsCpp.ConsistentHash

structure EndpointInfo where
  host : List UInt8
  cmpDesc : List UInt8
  weight : Int
deriving DecidableEq, Repr

abbrev AdapterId := Nat

structure AdapterProxy where
  endpoint : EndpointInfo
  staticWeight : Int
  staticWeightChanged : Bool

namespace AdapterProxy

def setWeight (iWeight : Int) (adapter : AdapterProxy) : AdapterProxy :=
  { adapter with
    staticWeightChanged :=
      adapter.staticWeight ≠ iWeight ∨ adapter.staticWeightChanged
    staticWeight := iWeight }

def resetWeightChanged (adapter : AdapterProxy) : AdapterProxy :=
  { adapter with staticWeightChanged := false }

end AdapterProxy

/-- A map to adapters by host, or by `cmpDesc`. -/
abbrev Adapters := OrderedMap (List UInt8) AdapterId

structure EndpointManager where
  direct : Bool
  /-- `_weightType == E_STATIC_WEIGHT` -/
  staticWeight : Bool
  adapters : AdapterId → AdapterProxy
  /-- The identities from here on have never been used. -/
  fresh : AdapterId := 0
  allProxys : Adapters := .empty
  activeProxys : List AdapterId := []
  regProxys : Adapters := .empty
  vRegProxys : List AdapterId := []
  indexActiveProxys : Adapters := .empty
  sortActivProxys : Adapters := .empty
  lastConHashProxys : Adapters := .empty
  consistentHash : TcConsistentHashNew := ⟨.ketamaHash, []⟩
  lastConHashWeightProxys : Adapters := .empty
  consistentHashWeight : TcConsistentHashNew := ⟨.ketamaHash, []⟩

namespace EndpointManager

def change (id : AdapterId) (adapter : AdapterProxy) (m : EndpointManager) :
    EndpointManager :=
  { m with adapters := Function.update m.adapters id adapter }

@[simp] theorem adapters_change (id : AdapterId) (adapter : AdapterProxy)
    (m : EndpointManager) : (m.change id adapter).adapters id = adapter :=
  Function.update_self _ _ _

theorem adapters_change_ne {id other : AdapterId} (different : other ≠ id)
    (adapter : AdapterProxy) (m : EndpointManager) :
    (m.change id adapter).adapters other = m.adapters other :=
  Function.update_of_ne different _ _

/-- The adapter of an endpoint.  What stands for an unused identity is what the
constructor leaves in the members that it does not set. -/
def adapterOf (endpoint : EndpointInfo) (m : EndpointManager) :
    AdapterId × EndpointManager :=
  match m.allProxys.find? endpoint.cmpDesc with
  | some id => (id, m)
  | none =>
      let adapter := { m.adapters m.fresh with endpoint := endpoint }
      (m.fresh, { m.change m.fresh adapter with
        fresh := m.fresh + 1
        allProxys := m.allProxys.emplace endpoint.cmpDesc m.fresh })

/-- `!_direct && _weightType == E_STATIC_WEIGHT && iter->weight() <= 0` -/
def skips (endpoint : EndpointInfo) (m : EndpointManager) : Bool :=
  ¬ m.direct ∧ m.staticWeight ∧ endpoint.weight ≤ 0

def addActive (m : EndpointManager) (endpoint : EndpointInfo) :
    EndpointManager :=
  if m.skips endpoint then
    m
  else
    let (id, m) := m.adapterOf endpoint
    let host := (m.adapters id).endpoint.host
    { m.change id ((m.adapters id).setWeight endpoint.weight) with
      activeProxys := m.activeProxys ++ [id]
      regProxys := m.regProxys.emplace endpoint.cmpDesc id
      indexActiveProxys := m.indexActiveProxys.emplace host id
      sortActivProxys := m.sortActivProxys.emplace host id }

def addInactive (m : EndpointManager) (endpoint : EndpointInfo) :
    EndpointManager :=
  if m.skips endpoint then
    m
  else
    let (id, m) := m.adapterOf endpoint
    { m.change id ((m.adapters id).setWeight endpoint.weight) with
      regProxys := m.regProxys.emplace endpoint.cmpDesc id }

def updateEndpoints (active inactive : List EndpointInfo)
    (m : EndpointManager) : EndpointManager :=
  let m := { m with
    activeProxys := []
    regProxys := .empty
    indexActiveProxys := .empty
    sortActivProxys := .empty }
  let m := inactive.foldl addInactive (active.foldl addActive m)
  { m with vRegProxys := m.regProxys.entries.map Prod.snd }

/-- `getConHashProxyForNormal`, or `getConHashProxyForWeight`. -/
inductive Way
  | normal
  | weight (bStatic : Bool)
deriving DecidableEq, Repr

def Way.bStatic : Way → Bool
  | normal => false
  | weight bStatic => bStatic

def lastProxys (way : Way) (m : EndpointManager) : Adapters :=
  match way with
  | .normal => m.lastConHashProxys
  | .weight _ => m.lastConHashWeightProxys

def ring (way : Way) (m : EndpointManager) : TcConsistentHashNew :=
  match way with
  | .normal => m.consistentHash
  | .weight _ => m.consistentHashWeight

def setLastProxys (way : Way) (proxys : Adapters) (m : EndpointManager) :
    EndpointManager :=
  match way with
  | .normal => { m with lastConHashProxys := proxys }
  | .weight _ => { m with lastConHashWeightProxys := proxys }

def setRing (way : Way) (conHash : TcConsistentHashNew) (m : EndpointManager) :
    EndpointManager :=
  match way with
  | .normal => { m with consistentHash := conHash }
  | .weight _ => { m with consistentHashWeight := conHash }

/-- The loop of `checkConHashChange` over both maps; `checkWeightChanged(true)`
resets the change that it tells of. -/
def comparesDifferent (bStatic : Bool) :
    List (List UInt8 × AdapterId) → List (List UInt8 × AdapterId) →
      EndpointManager → Bool × EndpointManager
  | last :: lasts, sort :: sorts, m =>
      if last.1 ≠ sort.1 then
        (true, m)
      else if bStatic ∧ (m.adapters sort.2).staticWeightChanged then
        (true, m.change sort.2 (m.adapters sort.2).resetWeightChanged)
      else
        comparesDifferent bStatic lasts sorts m
  | _, _, m => (false, m)

/-- What was put out for the time being comes back. -/
def restore (m : EndpointManager) : EndpointManager :=
  if m.indexActiveProxys.entries.length ≠ m.sortActivProxys.entries.length then
    { m with
      sortActivProxys := m.indexActiveProxys.entries.foldl
        (fun sort entry => sort.assign entry.1 entry.2) m.sortActivProxys }
  else
    m

def checkConHashChange (way : Way) (m : EndpointManager) :
    Bool × EndpointManager :=
  let m := m.restore
  if (m.lastProxys way).entries.length ≠ m.sortActivProxys.entries.length then
    (true, m)
  else
    comparesDifferent way.bStatic (m.lastProxys way).entries
      m.sortActivProxys.entries m

/-- `addNode` for a host, if it has a weight. -/
def addHost (md5bin : Digest) (bStatic : Bool) (conHash : TcConsistentHashNew)
    (adapter : AdapterProxy) : TcConsistentHashNew :=
  let iWeight := if bStatic then adapter.staticWeight else 100
  if iWeight > 0 then
    let iWeight := if iWeight / 4 ≤ 0 then 1 else iWeight / 4
    conHash.addNode md5bin ⟨adapter.endpoint.host, 0, iWeight⟩
  else
    conHash

/-- The turn of `updateConHashProxyWeighted` for one host. -/
def addProxy (md5bin : Digest) (bStatic : Bool)
    (state : TcConsistentHashNew × EndpointManager)
    (entry : List UInt8 × AdapterId) :
    TcConsistentHashNew × EndpointManager :=
  let adapter := state.2.adapters entry.2
  (addHost md5bin bStatic state.1 adapter,
    state.2.change entry.2 adapter.resetWeightChanged)

def updateConHashProxyWeighted (md5bin : Digest) (way : Way)
    (m : EndpointManager) : EndpointManager :=
  let cleared := { m.ring way with vHashList := [] }
  if m.sortActivProxys.entries = [] then
    m.setRing way cleared
  else
    let m := m.setLastProxys way m.sortActivProxys
    let (conHash, m) := m.sortActivProxys.entries.foldl
      (addProxy md5bin way.bStatic) (cleared, m)
    m.setRing way conHash.sortNode

/-- What a round is told: what `isActiveInReg` and `checkActive` answer, what
`isActiveInReg` answers when it is asked again, and, should `getNodeName` read
behind the vector, the string that it finds there. -/
structure Outcome where
  isActiveInReg : Bool
  checkActive : Bool
  stillActiveInReg : Bool
  behind : List UInt8

inductive Progress
  | returns (proxy : Option AdapterId)
  | again
deriving DecidableEq, Repr

/-- The name that `getNodeName` stores. -/
def nodeName (way : Way) (hashCode : UInt32) (outcome : Outcome)
    (m : EndpointManager) : List UInt8 :=
  match (m.ring way).getNodeName hashCode with
  | some (_, sNode) => sNode
  | none => outcome.behind

/-- The node is put out, for good if the registry says so. -/
def dismiss (md5bin : Digest) (way : Way) (sNode : List UInt8)
    (outcome : Outcome) (m : EndpointManager) : EndpointManager :=
  let m := if outcome.stillActiveInReg then m else
    { m with indexActiveProxys := m.indexActiveProxys.erase sNode }
  let m := { m with sortActivProxys := m.sortActivProxys.erase sNode }
  m.updateConHashProxyWeighted md5bin way

/-- The body of the `while` loop. -/
def round (md5bin : Digest) (way : Way) (hashCode : UInt32)
    (outcome : Outcome) (m : EndpointManager) : Progress × EndpointManager :=
  let sNode := m.nodeName way hashCode outcome
  match m.indexActiveProxys.find? sNode with
  | none => (.again, m.updateConHashProxyWeighted md5bin way)
  | some id =>
      if outcome.isActiveInReg ∧ outcome.checkActive then
        (.returns (some id), m)
      else
        let m := m.dismiss md5bin way sNode outcome
        if m.indexActiveProxys.entries = [] then
          (.returns none, m)
        else
          (.again, m)

/-- What is done before the loop. -/
def refresh (md5bin : Digest) (way : Way) (m : EndpointManager) :
    EndpointManager :=
  let (changed, m) := m.checkConHashChange way
  if changed then m.updateConHashProxyWeighted md5bin way else m

/-- What the calls on the adapters answer, the `n`-th of `checkActive` on the
way, and `rand()`. -/
structure Answers where
  isActiveInReg : Bool
  checkActive : Nat → Bool
  /-- `!isConnTimeout() && !isConnExc()` -/
  fine : Nat → Bool
  rand : Nat

/-- The loop over the adapters that are left; none of them, and those whose
connections are fine. -/
def hashAmong (hashCode : UInt32) (answers : Answers) (n : Nat)
    (thisHash conn : List AdapterId) : AdapterId ⊕ List AdapterId :=
  match _inside : thisHash[hashCode.toNat % thisHash.length]? with
  | none => .inr conn
  | some id =>
      if answers.checkActive n then
        .inl id
      else
        hashAmong hashCode answers (n + 1)
          (thisHash.eraseIdx (hashCode.toNat % thisHash.length))
          (if answers.fine n then conn ++ [id] else conn)
termination_by thisHash.length
decreasing_by
  have within := (List.getElem?_eq_some_iff.mp _inside).1
  rw [List.length_eraseIdx_of_lt within]
  omega

def getHashProxyForNormal (hashCode : UInt32) (answers : Answers)
    (m : EndpointManager) : Option AdapterId :=
  match m.vRegProxys[hashCode.toNat % m.vRegProxys.length]? with
  | none => none
  | some id =>
      if answers.isActiveInReg ∧ answers.checkActive 0 then
        some id
      else
        match hashAmong hashCode answers 1 m.activeProxys [] with
        | .inl id => some id
        | .inr conn =>
            if conn ≠ [] then
              conn[hashCode.toNat % conn.length]?
            else
              m.activeProxys[answers.rand % m.activeProxys.length]?

end EndpointManager

end TarsCpp.ConsistentHash
