import TarsCpp.Tup.RoundTrip
import TarsCpp.KeyedInsertion

/-!
# Reading into a used variable

`WireType` once more, with the unordered containers beside the ordered ones.
The elements of an unordered container are kept in some order here as well, so
that equal containers are equal values; the order in which they are written is
another one, which nothing fixes.

Where `write` has left a value of the type of the variable, `read` puts the
value there, and with it what it does not remove: the old elements of a set.
-/

namespace TarsCpp.Tup

open PrefixDecoding

/-- The template argument `Cmp`.  For an unordered container two keys are the
same to it if neither comes before the other. -/
structure KeyOrder where
  less : Less
  asymm : ∀ a b, less a b → ¬ less b a

/-- The overloads of `read` that have containers in them. -/
def WireType.IsContainer : WireType → Prop
  | .vector _ | .set _ _ | .map _ _ _ => True
  | _ => False

/-- The static type of a target. -/
inductive ContainerType
  | leaf (type : WireType) (single : ¬ type.IsContainer)
  | vector (elem : ContainerType)
  | set (order : KeyOrder) (elem : ContainerType)
  | unorderedSet (order : KeyOrder) (elem : ContainerType)
  | map (order : KeyOrder) (key value : ContainerType)
  | unorderedMap (order : KeyOrder) (key value : ContainerType)

namespace ContainerType

def default : ContainerType → Value
  | .leaf type _ => type.default
  | .vector _ => .vector []
  | .set _ _ | .unorderedSet _ _ => .set []
  | .map _ _ _ | .unorderedMap _ _ _ => .map []

def missingField (type : ContainerType) (tag : UInt8) : TarsDecodeException :=
  match type with
  | .leaf type _ => Tup.missingField type tag
  | .set _ _ | .unorderedSet _ _ | .unorderedMap _ _ _ =>
      .requireNotExist (snprintf 64 s!"require field not exist, tag: {tag}")
  | .vector _ | .map _ _ _ => requireNotExist 64 tag 0

def readUnorderedMapBody (less : Less) (readKey readValue : Decode Value)
    (tag : UInt8) (headType : HeadType) (headTag : UInt8) :
    Decode (List (Value × Value)) :=
  match headType with
  | .map => do
      let size ← readCount fun size =>
        s!"invalid unordered_map, tag: {tag}, size: {signedCount size}, " ++
          s!"headTag: {headTag}"
      forCount (readMapEntry less readKey readValue) size []
  | _ => throw (.throws (typeMismatch 64 "map" tag headType))

/-- `read(target, tag, isRequire)` behind the choice of the overload. -/
def readWith (type : ContainerType)
    (body : Value → UInt8 → HeadType → UInt8 → Decode Value) (target : Value)
    (tag : UInt8) (isRequire : Bool) : Decode Value :=
  readVia (tarsSkipToTag tag) (type.missingField tag) (body target tag) target
    isRequire

/-- What `read` does behind the head of a field it has found. -/
def readBody :
    ContainerType → Value → UInt8 → HeadType → UInt8 → Decode Value
  | .leaf type _, target, tag, headType, headTag =>
      Tup.readBody type target tag headType headTag
  | .vector elem, target, tag, headType, headTag =>
      .vector <$> readVectorBody
        (fun old => elem.readWith elem.readBody old 0 true)
        elem.default target.items tag headType headTag
  | .set order elem, target, tag, headType, headTag
  | .unorderedSet order elem, target, tag, headType, headTag =>
      .set <$> readSetBody order.less
        (elem.readWith elem.readBody elem.default 0 true)
        target.items tag headType headTag
  | .map order key value, _, tag, headType, headTag =>
      .map <$> readMapBody order.less
        (key.readWith key.readBody key.default 0 true)
        (value.readWith value.readBody value.default 1 true)
        tag headType headTag
  | .unorderedMap order key value, _, tag, headType, headTag =>
      .map <$> readUnorderedMapBody order.less
        (key.readWith key.readBody key.default 0 true)
        (value.readWith value.readBody value.default 1 true)
        tag headType headTag

def read (type : ContainerType) (target : Value) (tag : UInt8)
    (isRequire : Bool) : Decode Value :=
  type.readWith type.readBody target tag isRequire

end ContainerType

/-- `write` of a container: the head, the count, and what is listed. -/
def WritesAll {ι : Type} (headType : HeadType)
    (each : ι → List UInt8 → Prop) (listed : List ι) (tag : UInt8)
    (bytes : List UInt8) : Prop :=
  listed.length < 2 ^ 32 ∧ ∃ parts, List.Forall₂ each listed parts ∧
    bytes = writeToHead headType tag ++
      (writeCount listed.length ++ parts.flatten)

/-- An entry of a map, the key under tag 0 and the value under tag 1. -/
def WritesEntry (key value : Value → UInt8 → List UInt8 → Prop)
    (entry : Value × Value) (bytes : List UInt8) : Prop :=
  ∃ first second, key entry.1 0 first ∧ value entry.2 1 second ∧
    bytes = first ++ second

namespace ContainerType

/-- `write(value, tag)` may append `bytes`; an unordered container is written
in any order. -/
def Writes : ContainerType → Value → UInt8 → List UInt8 → Prop
  | .leaf type _, value, tag, bytes =>
      type.HasType value ∧ write value tag = .ok bytes
  | .vector elem, value, tag, bytes =>
      ∃ items, value = .vector items ∧
        WritesAll .list (elem.Writes · 0) items tag bytes
  | .set order elem, value, tag, bytes =>
      ∃ items, value = .set items ∧
        items.Pairwise (fun a b => order.less a b) ∧
        WritesAll .list (elem.Writes · 0) items tag bytes
  | .unorderedSet order elem, value, tag, bytes =>
      ∃ items listed, value = .set items ∧
        items.Pairwise (fun a b => order.less a b) ∧ listed.Perm items ∧
        WritesAll .list (elem.Writes · 0) listed tag bytes
  | .map order key value', value, tag, bytes =>
      ∃ entries, value = .map entries ∧
        entries.Pairwise (fun a b => order.less a.1 b.1) ∧
        WritesAll .map (WritesEntry key.Writes value'.Writes) entries tag
          bytes
  | .unorderedMap order key value', value, tag, bytes =>
      ∃ entries listed, value = .map entries ∧
        entries.Pairwise (fun a b => order.less a.1 b.1) ∧
        listed.Perm entries ∧
        WritesAll .map (WritesEntry key.Writes value'.Writes) listed tag bytes

/-- What a variable of the type may hold, as far as `read` looks at it. -/
def Stores : ContainerType → Value → Prop
  | .vector elem, target => ∀ item ∈ target.items, elem.Stores item
  | .set order _, target | .unorderedSet order _, target =>
      target.items.Pairwise (fun a b => order.less a b)
  | _, _ => True

/-- Nothing of `target` is left where `value` is read into it: a set holds
only elements that come again, and a vector only such items at the places that
stay. -/
def Absorbs : ContainerType → Value → Value → Prop
  | .vector elem, target, value =>
      ∀ (i : Nat) old item, target.items[i]? = some old →
        value.items[i]? = some item → elem.Absorbs old item
  | .set _ _, target, value | .unorderedSet _ _, target, value =>
      target.items ⊆ value.items
  | _, _, _ => True

end ContainerType

open KeyedInsertion

theorem insertItem_eq (less : Less) (item : Value) :
    insertItem less item = insertOnce less item := by
  funext items
  induction items with
  | nil => rfl
  | cons first rest induction =>
      rw [insertItem, insertOnce, induction]

theorem insertEntry_eq (less : Less) (entry : Value × Value) :
    insertEntry less entry =
      insertOnce (fun a b => less a.1 b.1) entry := by
  funext entries
  induction entries with
  | nil => rfl
  | cons first rest induction =>
      rw [insertEntry, insertOnce, induction]

theorem length_le_flatten {ι : Type} {each : ι → List UInt8 → Prop}
    {listed : List ι} {parts : List (List UInt8)}
    (positive : ∀ item part, each item part → 0 < part.length)
    (aligned : List.Forall₂ each listed parts) :
    listed.length ≤ parts.flatten.length := by
  induction aligned with
  | nil => exact Nat.le_refl 0
  | @cons item part listed parts here aligned induction =>
      have first := positive item part here
      rw [List.flatten_cons, List.length_append, List.length_cons]
      omega

namespace ContainerType

variable {type : ContainerType} {value target : Value} {tag : UInt8}
  {bytes : List UInt8}

theorem WritesAll.length_pos {ι : Type} {headType : HeadType}
    {each : ι → List UInt8 → Prop} {listed : List ι}
    (writes : WritesAll headType each listed tag bytes) :
    0 < bytes.length := by
  obtain ⟨_, parts, _, rfl⟩ := writes
  rw [List.length_append]
  exact Nat.add_pos_left (writeToHead_length_pos _ _) _

theorem Writes.length_pos (writes : type.Writes value tag bytes) :
    0 < bytes.length := by
  cases type with
  | leaf type single =>
      obtain ⟨typed, written⟩ := writes
      rw [write_eq_encode typed] at written
      cases written
      exact encode_length_pos value tag
  | vector elem =>
      obtain ⟨items, _, all⟩ := writes
      exact WritesAll.length_pos all
  | set order elem =>
      obtain ⟨items, _, _, all⟩ := writes
      exact WritesAll.length_pos all
  | unorderedSet order elem =>
      obtain ⟨items, listed, _, _, _, all⟩ := writes
      exact WritesAll.length_pos all
  | map order key value =>
      obtain ⟨entries, _, _, all⟩ := writes
      exact WritesAll.length_pos all
  | unorderedMap order key value =>
      obtain ⟨entries, listed, _, _, _, all⟩ := writes
      exact WritesAll.length_pos all

theorem stores_default (type : ContainerType) : type.Stores type.default := by
  cases type with
  | vector elem =>
      intro item member
      cases member
  | set order elem => exact .nil
  | unorderedSet order elem => exact .nil
  | leaf type single => trivial
  | map order key value => trivial
  | unorderedMap order key value => trivial

theorem absorbs_default (type : ContainerType) (value : Value) :
    type.Absorbs type.default value := by
  cases type with
  | vector elem =>
      intro i old item found
      cases found
  | set order elem => exact List.nil_subset _
  | unorderedSet order elem => exact List.nil_subset _
  | leaf type single => trivial
  | map order key value => trivial
  | unorderedMap order key value => trivial

theorem fresh_of_single {type : WireType} (single : ¬ type.IsContainer)
    (target : Value) : type.Fresh target := by
  cases type with
  | vector elem => exact absurd trivial single
  | set less elem => exact absurd trivial single
  | _ => trivial

/-- Reading into any variable of a type leaves its value there exactly if it
is absorbed. -/
def Reader (type : ContainerType) : Prop :=
  ∀ {value target : Value} {tag : UInt8} {bytes : List UInt8}
    (isRequire : Bool), type.Writes value tag bytes → type.Stores target →
      Yields (fun _ => True) (type.read target tag isRequire) bytes
        fun result => result = value ↔ type.Absorbs target value

/-- A variable of its own is overwritten. -/
theorem Reader.fresh (reader : type.Reader)
    (writes : type.Writes value tag bytes) :
    Reads (type.read type.default tag true) bytes value := by
  apply Yields.reads
  apply (reader true writes type.stores_default).mono
  intro result iff
  exact iff.mpr (type.absorbs_default value)

/-- Behind the head the overload looks for, its body goes on. -/
theorem yields_readWith {body : Value → UInt8 → HeadType → UInt8 →
      Decode Value} {headType : HeadType} (opens : headType.Opens)
    {payload : List UInt8} {post : Value → Prop} (isRequire : Bool)
    (bodyYields : Yields (fun _ => True) (body target tag headType tag)
      payload post) :
    Yields (fun _ => True) (type.readWith body target tag isRequire)
      (writeToHead headType tag ++ payload) post :=
  Reads.bindYields (reads_catchDecode (reads_tarsSkipToTag opens tag))
    bodyYields

/-- The loop of a container behind its count. -/
theorem yields_counted {ι α : Type} {each : ι → List UInt8 → Prop}
    {listed : List ι} {parts : List (List UInt8)} {turn : α → Decode α}
    {acc : α} (invariant : List ι → α → Prop) (invalid : Nat → String)
    (few : listed.length < 2 ^ 32)
    (positive : ∀ item part, each item part → 0 < part.length)
    (aligned : List.Forall₂ each listed parts)
    (turns : ∀ done item part acc, each item part → invariant done acc →
      Yields (fun _ => True) (turn acc) part (invariant (done ++ [item])))
    (start : invariant [] acc) :
    Yields (fun _ => True)
      (do let size ← readCount invalid
          forCount turn size acc)
      (writeCount listed.length ++ parts.flatten) (invariant listed) := by
  have enough := length_le_flatten positive aligned
  apply (reads_readCount invalid few enough).bindYields
  exact Yields.forCount invariant aligned turns start

/-- What is there after `done` has been read into `old`: as many items, and
the right ones if those at their places absorb them. -/
def ItemsRead (elem : ContainerType) (old done acc : List Value) : Prop :=
  acc.length = done.length ∧ (acc = done ↔
    ∀ (i : Nat) stale item, old[i]? = some stale → done[i]? = some item →
      elem.Absorbs stale item)

theorem ItemsRead.step {elem : ContainerType}
    {old done acc : List Value} {item result : Value}
    (read : elem.ItemsRead old done acc)
    (iff : result = item ↔ elem.Absorbs (old.getD done.length elem.default)
      item) :
    elem.ItemsRead old (done ++ [item]) (acc ++ [result]) := by
  obtain ⟨length, same⟩ := read
  refine ⟨by rw [List.length_append, List.length_append, length]; rfl, ?_⟩
  have split : acc ++ [result] = done ++ [item] ↔
      acc = done ∧ result = item := by
    constructor
    · intro equal
      obtain ⟨front, back⟩ := List.append_inj equal length
      exact ⟨front, (List.cons.inj back).1⟩
    · rintro ⟨rfl, rfl⟩
      rfl
  rw [split, same, iff]
  constructor
  · rintro ⟨before, last⟩ i stale item' found found'
    rcases Nat.lt_trichotomy i done.length with inside | rfl | behind
    · rw [List.getElem?_append_left inside] at found'
      exact before i stale item' found found'
    · rw [List.getElem?_concat_length] at found'
      cases found'
      rwa [List.getD_eq_getElem?_getD, found] at last
    · rw [List.getElem?_eq_none (by
        rw [List.length_append, List.length_singleton]
        omega)] at found'
      cases found'
  · intro all
    constructor
    · intro i stale item' found found'
      apply all i stale item' found
      have inside := (List.getElem?_eq_some_iff.mp found').1
      rwa [List.getElem?_append_left inside]
    · rw [List.getD_eq_getElem?_getD]
      cases found : old[done.length]? with
      | none => exact elem.absorbs_default item
      | some stale =>
          exact all _ stale item found List.getElem?_concat_length

theorem yields_readVectorBody {elem : ContainerType} {old items : List Value}
    (reader : elem.Reader) (stores : ∀ item ∈ old, elem.Stores item)
    {parts : List (List UInt8)} (few : items.length < 2 ^ 32)
    (aligned : List.Forall₂ (elem.Writes · 0) items parts)
    (tag headTag : UInt8) :
    Yields (fun _ => True)
      (readVectorBody (fun old => elem.readWith elem.readBody old 0 true)
        elem.default old tag .list headTag)
      (writeCount items.length ++ parts.flatten)
      (elem.ItemsRead old items) := by
  apply yields_counted (elem.ItemsRead old) _ few
    (fun _ _ writes => writes.length_pos) aligned
  · intro done item part acc writes read
    have stored : elem.Stores (old.getD acc.length elem.default) := by
      rw [List.getD_eq_getElem?_getD]
      cases found : old[acc.length]? with
      | none => exact elem.stores_default
      | some stale => exact stores stale (List.mem_of_getElem? found)
    have yields := reader true writes stored
    rw [read.1] at yields
    unfold readVectorItem
    rw [read.1, ← List.append_nil part]
    apply yields.bind (fun _ _ => trivial)
    intro result iff
    exact Yields.pure (read.step iff)
  · refine ⟨rfl, iff_of_true rfl ?_⟩
    intro i stale item _ found
    cases found

/-- Every element is read into a variable of its own and inserted. -/
theorem yields_readSetBody {elem : ContainerType} {old listed : List Value}
    (order : KeyOrder) (reader : elem.Reader) {parts : List (List UInt8)}
    (few : listed.length < 2 ^ 32)
    (aligned : List.Forall₂ (elem.Writes · 0) listed parts)
    (tag headTag : UInt8) :
    Yields (fun _ => True)
      (readSetBody order.less (elem.readWith elem.readBody elem.default 0 true)
        old tag .list headTag)
      (writeCount listed.length ++ parts.flatten)
      (· = insertAll order.less old listed) := by
  apply yields_counted (fun done acc => acc = insertAll order.less old done) _
    few (fun _ _ writes => writes.length_pos) aligned
  · rintro done item part acc writes rfl
    have reads : Reads (readSetItem order.less
        (elem.readWith elem.readBody elem.default 0 true)
        (insertAll order.less old done)) part _ :=
      (reader.fresh writes).bind_pure (Reads.pure _)
    apply reads.yields
    rw [insertItem_eq, insertAll_append]
    rfl
  · rfl

theorem WritesEntry.length_pos {key value : ContainerType}
    {entry : Value × Value} {part : List UInt8}
    (writes : WritesEntry key.Writes value.Writes entry part) :
    0 < part.length := by
  obtain ⟨first, second, writesKey, _, rfl⟩ := writes
  rw [List.length_append]
  exact Nat.add_pos_left writesKey.length_pos _

/-- A map is cleared before its entries are inserted. -/
theorem yields_entries {key value : ContainerType} (order : KeyOrder)
    (keyReader : key.Reader) (valueReader : value.Reader)
    {listed : List (Value × Value)} {parts : List (List UInt8)}
    (invalid : Nat → String) (few : listed.length < 2 ^ 32)
    (aligned : List.Forall₂ (WritesEntry key.Writes value.Writes) listed
      parts) :
    Yields (fun _ => True)
      (do let size ← readCount invalid
          forCount (readMapEntry order.less
            (key.readWith key.readBody key.default 0 true)
            (value.readWith value.readBody value.default 1 true)) size [])
      (writeCount listed.length ++ parts.flatten)
      (· = insertAll (fun a b => order.less a.1 b.1) [] listed) := by
  apply yields_counted
    (fun done acc => acc = insertAll (fun a b => order.less a.1 b.1) [] done)
    invalid few (fun _ _ writes => WritesEntry.length_pos writes) aligned
  · rintro done entry part acc ⟨first, second, writesKey, writesValue, rfl⟩
      rfl
    have reads : Reads (readMapEntry order.less
        (key.readWith key.readBody key.default 0 true)
        (value.readWith value.readBody value.default 1 true)
        (insertAll (fun a b => order.less a.1 b.1) [] done))
        (first ++ second) _ :=
      (keyReader.fresh writesKey).bind
        ((valueReader.fresh writesValue).bind_pure (Reads.pure _))
    apply reads.yields
    rw [insertEntry_eq, insertAll_append]
    rfl
  · rfl

theorem insertAll_items_iff (order : KeyOrder) {old items listed : List Value}
    (sortedOld : old.Pairwise fun a b => order.less a b)
    (sorted : items.Pairwise fun a b => order.less a b)
    (listing : listed.Perm items) :
    Value.set (insertAll order.less old listed) = .set items ↔
      old ⊆ items := by
  rw [Value.set.injEq]
  exact insertAll_eq_iff order.asymm sortedOld sorted listing

theorem insertAll_entries (order : KeyOrder)
    {entries listed : List (Value × Value)}
    (sorted : entries.Pairwise fun a b => order.less a.1 b.1)
    (listing : listed.Perm entries) :
    insertAll (fun a b => order.less a.1 b.1) [] listed = entries := by
  have asymm : ∀ a b : Value × Value, order.less a.1 b.1 →
      ¬ order.less b.1 a.1 := fun a b => order.asymm a.1 b.1
  exact (insertAll_eq_iff asymm .nil sorted listing).mpr (List.nil_subset _)

theorem reader (type : ContainerType) : type.Reader := by
  have opensList : HeadType.list.Opens := trivial
  have opensMap : HeadType.map.Opens := trivial
  induction type with
  | leaf type single =>
      rintro value target tag bytes isRequire ⟨typed, written⟩ _
      rw [write_eq_encode typed] at written
      cases written
      have reads : Reads ((leaf type single).read target tag isRequire)
          (encode value tag) value :=
        reads_readVia (reads_tarsSkipToTag value.head_opens tag)
          (reads_readBody typed (fresh_of_single single target) tag tag)
      exact reads.yields (iff_of_true rfl trivial)
  | vector elem elemReader =>
      rintro value target tag bytes isRequire
        ⟨items, rfl, few, parts, aligned, rfl⟩ stores
      apply yields_readWith opensList
      apply (yields_readVectorBody elemReader stores few aligned tag tag).map
      rintro result ⟨_, iff⟩
      rw [Value.vector.injEq]
      exact iff
  | set order elem elemReader =>
      rintro value target tag bytes isRequire
        ⟨items, rfl, sorted, few, parts, aligned, rfl⟩ stores
      apply yields_readWith opensList
      apply (yields_readSetBody order elemReader few aligned tag tag).map
      rintro result rfl
      exact insertAll_items_iff order stores sorted (List.Perm.refl _)
  | unorderedSet order elem elemReader =>
      rintro value target tag bytes isRequire
        ⟨items, listed, rfl, sorted, listing, few, parts, aligned, rfl⟩ stores
      apply yields_readWith opensList
      apply (yields_readSetBody order elemReader few aligned tag tag).map
      rintro result rfl
      exact insertAll_items_iff order stores sorted listing
  | map order key value' keyReader valueReader =>
      rintro value target tag bytes isRequire
        ⟨entries, rfl, sorted, few, parts, aligned, rfl⟩ _
      apply yields_readWith opensMap
      apply (yields_entries order keyReader valueReader _ few aligned).map
      rintro result rfl
      rw [insertAll_entries order sorted (List.Perm.refl _)]
      exact iff_of_true rfl trivial
  | unorderedMap order key value' keyReader valueReader =>
      rintro value target tag bytes isRequire
        ⟨entries, listed, rfl, sorted, listing, few, parts, aligned, rfl⟩ _
      apply yields_readWith opensMap
      apply (yields_entries order keyReader valueReader _ few aligned).map
      rintro result rfl
      rw [insertAll_entries order sorted listing]
      exact iff_of_true rfl trivial

/-- Reading a value into a variable leaves exactly that value there if and
only if what the variable held is absorbed. -/
theorem read_overwrites_iff {stream : BufferReader} {suffix : List UInt8}
    (writes : type.Writes value tag bytes) (stores : type.Stores target)
    (isRequire : Bool) (facing : stream.Facing (bytes ++ suffix)) :
    (type.read target tag isRequire).run stream =
        .ok value (stream.moveTo (stream.cur + bytes.length)) ↔
      type.Absorbs target value := by
  obtain ⟨result, iff, run⟩ :=
    type.reader isRequire writes stores stream suffix trivial facing
  rw [run, ← iff]
  constructor
  · intro same
    cases same
    rfl
  · rintro rfl
    rfl

/-- `std::less<int>`. -/
private def ascending : KeyOrder where
  less
    | .int32 m, .int32 n => decide (m.toInt < n.toInt)
    | _, _ => false
  asymm := by
    intro a b
    cases a with
    | int32 m =>
        cases b with
        | int32 n =>
            intro below above
            rw [decide_eq_true_eq] at below above
            omega
        | _ => exact fun below => absurd below Bool.false_ne_true
    | _ => exact fun below => absurd below Bool.false_ne_true

private def int : ContainerType := .leaf .int32 id

private theorem writes_int (n : BitVec 32) :
    int.Writes (.int32 n) 0 (writeInt32 n 0) :=
  ⟨.int32 n, rfl⟩

/-- A vector with a set in it, of which the old element comes again; the set
is written the other way round. -/
theorem read_overwrites_iff_again :
    let type := vector (.unorderedSet ascending int)
    let value := Value.vector [.set [.int32 1, .int32 2]]
    let stream := BufferReader.setBuffer
      [57, 0, 1, 9, 0, 2, 0, 2, 0, 1, 42] (by decide)
    (type.read (.vector [.set [.int32 2]]) 3 true).run stream =
      .ok value (stream.moveTo 10) := by
  intro type value stream
  have listed : (unorderedSet ascending int).Writes
      (.set [.int32 1, .int32 2]) 0 [9, 0, 2, 0, 2, 0, 1] := by
    refine ⟨_, [.int32 2, .int32 1], rfl, ?_, .swap _ _ _, by decide, _,
      .cons (writes_int 2) (.cons (writes_int 1) .nil), rfl⟩
    apply List.pairwise_pair.mpr
    decide
  have writes : type.Writes value 3 [57, 0, 1, 9, 0, 2, 0, 2, 0, 1] :=
    ⟨_, rfl, by decide, _, .cons listed .nil, rfl⟩
  have stores : type.Stores (.vector [.set [.int32 2]]) := by
    intro item member
    rw [List.mem_singleton.mp member]
    exact List.pairwise_singleton _ _
  have facing : stream.Facing ([57, 0, 1, 9, 0, 2, 0, 2, 0, 1] ++ [42]) :=
    ⟨Nat.zero_le _, rfl⟩
  apply (read_overwrites_iff writes stores true facing).mpr
  intro i old item found found'
  cases i with
  | zero =>
      cases found
      cases found'
      exact List.subset_cons_self _ _
  | succ i => cases found

/-- An element that does not come again stays: `1` is still there where the
set of `2` alone has been read. -/
theorem read_set_keeps :
    let type := set ascending int
    let stream := BufferReader.setBuffer [9, 0, 1, 0, 2] (by decide)
    type.Writes (.set [.int32 2]) 0 [9, 0, 1, 0, 2] ∧
      (type.read (.set [.int32 1]) 0 true).run stream =
        .ok (.set [.int32 1, .int32 2]) (stream.moveTo 5) ∧
      Value.set [.int32 1, .int32 2] ≠ .set [.int32 2] := by
  refine ⟨⟨_, rfl, List.pairwise_singleton _ _, by decide, _,
    .cons (writes_int 2) .nil, rfl⟩, rfl, ?_⟩
  intro same
  cases same

end ContainerType

end TarsCpp.Tup
