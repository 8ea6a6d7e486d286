import KwaaiNet.Foundation.MachineNumber
import KwaaiNet.Foundation.Table
import KwaaiNet.Identity.PeerId

/-! # The DHT storage of a node

A node keeps what STORE requests bring it and answers FIND requests from it. An accepted entry
replaces whatever is stored under its key: the subkey is not looked at, and neither is the
expiration time of the entry that is replaced. So a FIND is answered by the entry accepted last
(`KwaaiNet.Dht.find_run`). Announcements of several servers under one key hide each other
(`KwaaiNet.Dht.discoverable_iff`), and a late one hides a newer one
(`KwaaiNet.Dht.prefersHighest_iff`).
-/

namespace KwaaiNet.Dht

open Foundation List

abbrev Bytes := List UInt8

/-- What a node reads of a `StoreRequest`: parallel lists, as they come from the wire. -/
structure StoreRequest where
  keys : List Bytes
  subkeys : List Bytes
  values : List Bytes
  expirationTime : List FloatValue
  inCache : List Bool
  deriving DecidableEq

structure StoreResponse where
  storeOk : List Bool
  peer : Bytes
  deriving DecidableEq

inductive ResultType where
  | notFound
  | foundRegular
  | foundDictionary
  deriving DecidableEq

structure FindResult where
  resultType : ResultType
  value : Bytes
  expirationTime : FloatValue
  nearestNodeIds : List Bytes
  nearestPeerIds : List Bytes
  deriving DecidableEq

structure FindResponse where
  results : List FindResult
  peer : Bytes
  deriving DecidableEq

structure StoredValue where
  value : Bytes
  expirationTime : FloatValue
  inCache : Bool
  deriving DecidableEq

structure DhtStorage where
  storage : Table Bytes StoredValue
  localPeerId : PeerId
  peers : List PeerId

/-- One key of a STORE request with what the request says about it. -/
structure Entry where
  key : Bytes
  subkey : Bytes
  stored : StoredValue
  deriving DecidableEq

/-- The entries of a request. Missing values are empty and missing expiration times are an hour
away. -/
def StoreRequest.entries (request : StoreRequest) (now : ℚ) : List Entry :=
  request.keys.zipIdx.map fun (key, index) =>
    { key
      subkey := request.subkeys.getD index []
      stored :=
        { value := request.values.getD index []
          expirationTime := request.expirationTime.getD index (.finite (now + 3600))
          inCache := request.inCache.getD index false } }

/-- Not expired. -/
def StoredValue.valid (stored : StoredValue) (now : ℚ) : Bool :=
  (FloatValue.finite now).below stored.expirationTime

namespace DhtStorage

/-- `DHTStorage::new`. -/
def new (localPeerId : PeerId) : DhtStorage := ⟨∅, localPeerId, []⟩

def storeEntry (now : ℚ) (storage : DhtStorage) (entry : Entry) : DhtStorage :=
  if entry.stored.valid now then
    { storage with storage := storage.storage.insert entry.key entry.stored }
  else storage

/-- `handle_store`. The clock is read once for a request. -/
def handleStore (storage : DhtStorage) (now : ℚ) (request : StoreRequest) :
    DhtStorage × StoreResponse :=
  let entries := request.entries now
  (entries.foldl (storeEntry now) storage,
    ⟨entries.map fun entry => entry.stored.valid now, storage.localPeerId.toBytes⟩)

def find (storage : DhtStorage) (now : ℚ) (key : Bytes) : FindResult :=
  let nearest := (storage.peers.take 20).map PeerId.toBytes
  match storage.storage.lookup key with
  | some stored =>
    if stored.valid now then
      ⟨.foundRegular, stored.value, stored.expirationTime, nearest, nearest⟩
    else ⟨.notFound, [], .finite 0, nearest, nearest⟩
  | none => ⟨.notFound, [], .finite 0, nearest, nearest⟩

/-- `handle_find`. -/
def handleFind (storage : DhtStorage) (now : ℚ) (keys : List Bytes) : FindResponse :=
  ⟨keys.map (storage.find now), storage.localPeerId.toBytes⟩

def run (storage : DhtStorage) (requests : List (ℚ × StoreRequest)) : DhtStorage :=
  requests.foldl (fun storage request => (storage.handleStore request.1 request.2).1) storage

end DhtStorage

/-- The entries of a history that were stored, in the order in which they were. -/
def accepted (requests : List (ℚ × StoreRequest)) : List Entry :=
  requests.flatMap fun request =>
    (request.2.entries request.1).filter fun entry => entry.stored.valid request.1

def acceptedFor (requests : List (ℚ × StoreRequest)) (key : Bytes) : List Entry :=
  (accepted requests).filter fun entry => entry.key = key

/-! ## What is stored -/

def Entry.change (entry : Entry) : Bytes × Option StoredValue := (entry.key, some entry.stored)

def lastStored (entries : List Entry) (key : Bytes) : Option StoredValue :=
  (entries.filter fun entry => entry.key = key).getLast?.map Entry.stored

theorem overlay_change (entries : List Entry) (base : Bytes → Option StoredValue) (key : Bytes) :
    overlay (entries.map Entry.change) base key = (lastStored entries key).or (base key) := by
  have last : (entries.map Entry.change).filter (fun change => change.1 = key) =
      (entries.filter fun entry => entry.key = key).map Entry.change := by
    rw [filter_map]
    rfl
  rw [overlay_eq_last, last, List.getLast?_map, lastStored]
  cases (entries.filter fun entry => entry.key = key).getLast? <;> rfl

theorem storage_storeEntries (now : ℚ) (storage : DhtStorage) (entries : List Entry) :
    (entries.foldl (DhtStorage.storeEntry now) storage).storage =
      storage.storage.putAll
        ((entries.filter fun entry => entry.stored.valid now).map Entry.change) := by
  induction entries generalizing storage with
  | nil => rfl
  | cons entry entries ih =>
    rw [foldl_cons, ih, DhtStorage.storeEntry]
    cases valid : entry.stored.valid now with
    | false => simp [valid]
    | true =>
      rw [filter_cons, if_pos valid]
      rfl

theorem storage_run (storage : DhtStorage) (requests : List (ℚ × StoreRequest)) :
    (storage.run requests).storage =
      storage.storage.putAll ((accepted requests).map Entry.change) := by
  induction requests generalizing storage with
  | nil => rfl
  | cons request requests ih =>
    change ((storage.handleStore request.1 request.2).1.run requests).storage = _
    rw [ih, DhtStorage.handleStore, storage_storeEntries, ← Table.putAll_append,
      ← map_append]
    rfl

/-- **Stored values.** A key holds what was accepted for it last. -/
theorem lookup_run (localPeer : PeerId) (requests : List (ℚ × StoreRequest)) (key : Bytes) :
    ((DhtStorage.new localPeer).run requests).storage.lookup key =
      (acceptedFor requests key).getLast?.map Entry.stored := by
  rw [storage_run]
  refine (congrFun (Table.lookup_putAll _ _) key).trans ?_
  rw [overlay_change]
  exact Option.or_none

/-- **Answers.** While no accepted entry of a key has expired, a FIND for it is answered with the
entry accepted last. -/
theorem find_run (localPeer : PeerId) {requests : List (ℚ × StoreRequest)} {time : ℚ}
    {key : Bytes} (alive : ∀ entry ∈ acceptedFor requests key, entry.stored.valid time = true)
    {last : Entry} (final : (acceptedFor requests key).getLast? = some last) :
    (((DhtStorage.new localPeer).run requests).find time key).resultType = .foundRegular ∧
      (((DhtStorage.new localPeer).run requests).find time key).value = last.stored.value := by
  have valid : last.stored.valid time = true := alive last (mem_of_getLast? final)
  simp only [DhtStorage.find, lookup_run, final, Option.map_some, valid, ↓reduceIte, and_self]

/-! ## Announcements under one key -/

def FindResult.Gives (readDictionary : Bytes → List (Bytes × Bytes)) (result : FindResult)
    (subkey value : Bytes) : Prop :=
  result.resultType = .foundRegular ∧ result.value = value ∨
    result.resultType = .foundDictionary ∧ (subkey, value) ∈ readDictionary result.value

def Announced (requests : List (ℚ × StoreRequest)) (key subkey value : Bytes) : Prop :=
  ∃ entry, ((acceptedFor requests key).filter fun entry => entry.subkey = subkey).getLast? =
    some entry ∧ entry.stored.value = value

/-- **Discoverable.** A FIND for the key gives the value announced under each of its subkeys. -/
def Discoverable (readDictionary : Bytes → List (Bytes × Bytes)) (localPeer : PeerId)
    (requests : List (ℚ × StoreRequest)) (time : ℚ) (key : Bytes) : Prop :=
  ∀ subkey value, Announced requests key subkey value →
    ∃ result, (((DhtStorage.new localPeer).run requests).handleFind time [key]).results = [result] ∧
      result.Gives readDictionary subkey value

def Unanimous (requests : List (ℚ × StoreRequest)) (key : Bytes) : Prop :=
  ∀ subkey value, Announced requests key subkey value →
    ∀ last, (acceptedFor requests key).getLast? = some last → last.stored.value = value

/-- **Discovery.** While nothing accepted for a key has expired, all its announcements can be
found exactly if they agree with the one accepted last. -/
theorem discoverable_iff (readDictionary : Bytes → List (Bytes × Bytes)) (localPeer : PeerId)
    (requests : List (ℚ × StoreRequest)) (time : ℚ) (key : Bytes)
    (alive : ∀ entry ∈ acceptedFor requests key, entry.stored.valid time = true) :
    Discoverable readDictionary localPeer requests time key ↔ Unanimous requests key := by
  constructor
  · intro discoverable subkey value announced last final
    obtain ⟨result, answered, gives⟩ := discoverable subkey value announced
    obtain rfl := (singleton_inj.mp answered).symm
    obtain ⟨regular, found⟩ := find_run localPeer alive final
    rcases gives with ⟨_, read⟩ | ⟨dictionary, _⟩
    · exact found.symm.trans read
    · exact absurd (regular.symm.trans dictionary) (by decide)
  · intro unanimous subkey value announced
    have ⟨entry, current, _⟩ := announced
    have member := mem_of_mem_filter (mem_of_getLast? current)
    have final := List.getLast?_eq_some_getLast (ne_nil_of_mem member)
    obtain ⟨regular, found⟩ := find_run localPeer alive final
    refine ⟨_, rfl, .inl ⟨regular, found.trans ?_⟩⟩
    exact unanimous subkey value announced _ final

theorem unanimous_of_one_subkey {requests : List (ℚ × StoreRequest)} {key : Bytes} (subkey : Bytes)
    (only : ∀ entry ∈ acceptedFor requests key, entry.subkey = subkey) :
    Unanimous requests key := by
  rintro other value ⟨entry, current, rfl⟩ last final
  have member := mem_of_getLast? current
  have same : other = subkey :=
    (of_decide_eq_true (mem_filter.mp member).2).symm.trans
      (only entry (mem_of_mem_filter member))
  have whole : (acceptedFor requests key).filter (fun entry => entry.subkey = other) =
      acceptedFor requests key := by
    rw [filter_eq_self, same]
    exact fun entry stored => decide_eq_true (only entry stored)
  rw [whole] at current
  rw [Option.some.inj (final.symm.trans current)]

def blockKey : Bytes := [1]

/-- An announcement under the block key: who announces, what, and until when. -/
def announcement (subkey value : Bytes) (expirationTime : ℚ) : StoreRequest :=
  ⟨[blockKey], [subkey], [value], [.finite expirationTime], [false]⟩

/-- A server that announces twice stays discoverable. -/
theorem reannounced_discoverable :
    Discoverable (fun _ => []) ⟨0x00, [9], by decide⟩
      [(0, announcement [7] [70] 360), (300, announcement [7] [71] 660)] 301 blockKey := by
  refine (discoverable_iff _ _ _ _ _ (by decide +kernel)).mpr ?_
  apply unanimous_of_one_subkey [7]
  decide +kernel

/-- **Two servers of one block.** The second announcement hides the first one. -/
theorem twoServers_not_discoverable :
    (∀ entry ∈ acceptedFor [(0, announcement [7] [70] 360), (1, announcement [8] [80] 361)]
        blockKey, entry.stored.valid 2 = true) ∧
      ∀ readDictionary, ¬ Discoverable readDictionary ⟨0x00, [9], by decide⟩
        [(0, announcement [7] [70] 360), (1, announcement [8] [80] 361)] 2 blockKey := by
  have alive : ∀ entry ∈ acceptedFor
      [(0, announcement [7] [70] 360), (1, announcement [8] [80] 361)] blockKey,
      entry.stored.valid 2 = true := by decide +kernel
  refine ⟨alive, fun readDictionary discoverable => ?_⟩
  obtain ⟨result, answered, gives⟩ := discoverable [7] [70]
    ⟨⟨blockKey, [7], [70], .finite 360, false⟩, by decide +kernel, rfl⟩
  obtain rfl := (singleton_inj.mp answered).symm
  rcases gives with ⟨_, read⟩ | ⟨dictionary, _⟩
  · exact absurd read (by decide +kernel)
  · exact absurd dictionary (by decide +kernel)

/-! ## Late announcements -/

def Highest (requests : List (ℚ × StoreRequest)) (key : Bytes) (entry : Entry) : Prop :=
  entry ∈ acceptedFor requests key ∧
    ∀ other ∈ acceptedFor requests key,
      entry.stored.expirationTime.below other.stored.expirationTime = false

/-- **Preference.** A FIND for the key is answered with the value that expires last. -/
def PrefersHighest (localPeer : PeerId) (requests : List (ℚ × StoreRequest)) (time : ℚ)
    (key : Bytes) : Prop :=
  ∀ entry, Highest requests key entry →
    ∃ result, (((DhtStorage.new localPeer).run requests).handleFind time [key]).results = [result] ∧
      result.resultType = .foundRegular ∧ result.value = entry.stored.value

/-- The entry accepted last carries the value that expires last. -/
def EndsWithHighest (requests : List (ℚ × StoreRequest)) (key : Bytes) : Prop :=
  ∀ entry, Highest requests key entry →
    ∀ last, (acceptedFor requests key).getLast? = some last →
      last.stored.value = entry.stored.value

/-- **Order of stores.** While nothing accepted for a key has expired, a FIND gives the value that
expires last exactly if the entry accepted last carries it. -/
theorem prefersHighest_iff (localPeer : PeerId) (requests : List (ℚ × StoreRequest)) (time : ℚ)
    (key : Bytes) (alive : ∀ entry ∈ acceptedFor requests key, entry.stored.valid time = true) :
    PrefersHighest localPeer requests time key ↔ EndsWithHighest requests key := by
  constructor
  · intro prefers entry highest last final
    obtain ⟨result, answered, _, read⟩ := prefers entry highest
    obtain rfl := (singleton_inj.mp answered).symm
    exact (find_run localPeer alive final).2.symm.trans read
  · intro ends entry highest
    have final := List.getLast?_eq_some_getLast (ne_nil_of_mem highest.1)
    obtain ⟨regular, found⟩ := find_run localPeer alive final
    exact ⟨_, rfl, regular, found.trans (ends entry highest _ final)⟩

theorem inOrder_prefersHighest :
    PrefersHighest ⟨0x00, [9], by decide⟩
      [(0, announcement [7] [70] 360), (300, announcement [7] [71] 660)] 301 blockKey := by
  refine (prefersHighest_iff _ _ _ _ (by decide +kernel)).mpr ?_
  rintro entry ⟨member, highest⟩ last final
  have accepted : acceptedFor
      [(0, announcement [7] [70] 360), (300, announcement [7] [71] 660)] blockKey =
      [⟨blockKey, [7], [70], .finite 360, false⟩, ⟨blockKey, [7], [71], .finite 660, false⟩] := by
    decide +kernel
  rw [accepted] at member highest final
  obtain rfl := Option.some.inj final
  rcases mem_pair.mp member with rfl | rfl
  · exact absurd (highest _ (mem_cons_of_mem _ mem_cons_self)) (by decide +kernel)
  · rfl

/-- **A delayed announcement.** The older announcement arrives last and hides the newer one. -/
theorem delayed_not_prefersHighest :
    (∀ entry ∈ acceptedFor [(0, announcement [7] [71] 660), (1, announcement [7] [70] 360)]
        blockKey, entry.stored.valid 2 = true) ∧
      ¬ PrefersHighest ⟨0x00, [9], by decide⟩
        [(0, announcement [7] [71] 660), (1, announcement [7] [70] 360)] 2 blockKey := by
  refine ⟨by decide +kernel, fun prefers => ?_⟩
  obtain ⟨result, answered, _, read⟩ :=
    prefers ⟨blockKey, [7], [71], .finite 660, false⟩ ⟨by decide +kernel, by decide +kernel⟩
  obtain rfl := (singleton_inj.mp answered).symm
  exact absurd read (by decide +kernel)

end KwaaiNet.Dht
