import Mathlib
import KwaaiNet.Dht.Storage
import KwaaiNet.Foundation.Expiry

/-! # What the DHT store answers

The store against its history: a key is found exactly if the last entry accepted for it has not
expired, and cleaning up changes no answer (`KwaaiNet.Dht.sequentialSpec`). The clock is read anew
for every key of a request, so a request can meet several times.
-/

namespace KwaaiNet.Dht

open Foundation List

/-- An operation of the store. -/
inductive Operation where
  | store (request : StoreRequest)
  | find (keys : List Bytes)
  | cleanup

/-- A call of the store, with the readings of the clock while it is handled. -/
structure Call where
  operation : Operation
  clock : ℕ → ℚ

def StoreRequest.timedEntries (request : StoreRequest) (clock : ℕ → ℚ) : List (ℚ × Entry) :=
  request.keys.zipIdx.map fun (key, index) =>
    (clock (2 * index + 1),
      { key
        subkey := request.subkeys.getD index []
        stored :=
          { value := request.values.getD index []
            expirationTime :=
              request.expirationTime.getD index (.finite (clock (2 * index) + 3600))
            inCache := request.inCache.getD index false } })

namespace DhtStorage

/-- `handle_store`. -/
def handleStoreAt (storage : DhtStorage) (clock : ℕ → ℚ) (request : StoreRequest) :
    DhtStorage × StoreResponse :=
  let entries := request.timedEntries clock
  (entries.foldl (fun storage entry => storage.storeEntry entry.1 entry.2) storage,
    ⟨entries.map fun entry => entry.2.stored.valid entry.1, storage.localPeerId.toBytes⟩)

/-- `handle_find`. -/
def handleFindAt (storage : DhtStorage) (clock : ℕ → ℚ) (keys : List Bytes) : FindResponse :=
  ⟨keys.zipIdx.map fun (key, index) => storage.find (clock index) key,
    storage.localPeerId.toBytes⟩

/-- `cleanup_expired`. -/
def cleanupExpired (storage : DhtStorage) (now : ℚ) : DhtStorage :=
  { storage with storage := storage.storage.purge StoredValue.valid now }

def next (storage : DhtStorage) (call : Call) : DhtStorage :=
  match call.operation with
  | .store request => (storage.handleStoreAt call.clock request).1
  | .find _ => storage
  | .cleanup => storage.cleanupExpired (call.clock 0)

def after (storage : DhtStorage) (calls : List Call) : DhtStorage := calls.foldl next storage

end DhtStorage

/-- The response to a call; a cleanup has none. -/
inductive CallResponse where
  | store (response : StoreResponse)
  | find (response : FindResponse)
  deriving DecidableEq

def DhtStorage.respond (storage : DhtStorage) (call : Call) : Option CallResponse :=
  match call.operation with
  | .store request => some (.store (storage.handleStoreAt call.clock request).2)
  | .find keys => some (.find (storage.handleFindAt call.clock keys))
  | .cleanup => none

/-! ## The history -/

def Call.accepted (call : Call) : List Entry :=
  match call.operation with
  | .store request =>
    ((request.timedEntries call.clock).filter fun entry =>
      entry.2.stored.valid entry.1).map Prod.snd
  | .find _ => []
  | .cleanup => []

def lastAccepted (calls : List Call) (key : Bytes) : Option StoredValue :=
  lastStored (calls.flatMap Call.accepted) key

def answerOf (nearest : List Bytes) (last : Option StoredValue) (time : ℚ) : FindResult :=
  match last.filter fun stored => stored.valid time with
  | some stored => ⟨.foundRegular, stored.value, stored.expirationTime, nearest, nearest⟩
  | none => ⟨.notFound, [], .finite 0, nearest, nearest⟩

/-- The clock does not go back from one call to a later one. -/
def InOrder (calls : List Call) : Prop :=
  calls.Pairwise fun early late => ∀ first second, early.clock first ≤ late.clock second

/-- **The response to a call after a history.** A STORE has one answer for each key: whether its
expiration time, the given one or an hour from now, lies in the future. A FIND has one answer for
each key, in order: what the history accepted last for it, unless that has expired. -/
def CallMeets (storage : DhtStorage) (history : List Call) (call : Call) : Prop :=
  match call.operation with
  | .store request =>
    let storeOk := (storage.handleStoreAt call.clock request).2.storeOk
    storeOk.length = request.keys.length ∧ ∀ index (within : index < storeOk.length),
      storeOk[index] = (FloatValue.finite (call.clock (2 * index + 1))).below
        (request.expirationTime.getD index (.finite (call.clock (2 * index) + 3600)))
  | .find keys =>
    (storage.handleFindAt call.clock keys).results = keys.zipIdx.map fun (key, index) =>
      answerOf ((storage.peers.take 20).map PeerId.toBytes) (lastAccepted history key)
        (call.clock index)
  | .cleanup => True

def withoutCleanups (calls : List Call) : List Call :=
  calls.filter fun call => match call.operation with
    | .cleanup => false
    | _ => true

/-! ## The store follows its history -/

theorem expires_valid : Expires StoredValue.valid := by
  intro stored early late le valid
  rw [StoredValue.valid] at valid ⊢
  cases expires : stored.expirationTime with
  | nan => rw [expires] at valid; exact valid
  | negInf => rw [expires] at valid; exact valid
  | posInf => rfl
  | finite time =>
    rw [expires] at valid
    exact decide_eq_true (le.trans_lt (of_decide_eq_true valid))

theorem lastStored_append (first second : List Entry) (key : Bytes) :
    lastStored (first ++ second) key = (lastStored second key).or (lastStored first key) := by
  rw [lastStored, filter_append, List.getLast?_append]
  cases held : (second.filter fun entry => entry.key = key).getLast? with
  | none => simp [lastStored, held]
  | some entry => simp [lastStored, held]

theorem storeEntry_timedEntries (storage : DhtStorage) (entries : List (ℚ × Entry)) :
    entries.foldl (fun storage entry => storage.storeEntry entry.1 entry.2) storage =
      { storage with
        storage := storage.storage.putAll (((entries.filter fun entry =>
          entry.2.stored.valid entry.1).map Prod.snd).map Entry.change) } := by
  induction entries generalizing storage with
  | nil => rfl
  | cons entry entries ih =>
    rw [foldl_cons, ih, DhtStorage.storeEntry]
    cases valid : entry.2.stored.valid entry.1 with
    | false => simp [valid]
    | true =>
      rw [filter_cons, if_pos valid]
      rfl

theorem lookup_handleStoreAt (storage : DhtStorage) (clock : ℕ → ℚ) (request : StoreRequest)
    (key : Bytes) :
    (storage.handleStoreAt clock request).1.storage.lookup key =
      (lastStored (Call.accepted ⟨.store request, clock⟩) key).or
        (storage.storage.lookup key) := by
  rw [DhtStorage.handleStoreAt, storeEntry_timedEntries]
  refine (congrFun (Table.lookup_putAll _ _) key).trans ?_
  rw [overlay_change]
  rfl

/-- **The store follows its history.** From a time on, what can be seen in the store is what the
history accepted last, as far as it has not expired. -/
def Follows (storage : DhtStorage) (history : List Call) (time : ℚ) : Prop :=
  ∀ key, storage.storage.visible StoredValue.valid time key =
    (lastAccepted history key).filter fun stored => stored.valid time

theorem lastAccepted_concat (history : List Call) (call : Call) (key : Bytes) :
    lastAccepted (history ++ [call]) key =
      (lastStored call.accepted key).or (lastAccepted history key) := by
  rw [lastAccepted, flatMap_append, flatMap_singleton, lastStored_append, lastAccepted]

theorem follows_next {storage : DhtStorage} {history : List Call} {call : Call} {time : ℚ}
    (past : ∀ index, call.clock index ≤ time) (follows : Follows storage history time) :
    Follows (storage.next call) (history ++ [call]) time := by
  intro key
  rw [lastAccepted_concat]
  obtain ⟨operation, clock⟩ := call
  cases operation with
  | store request =>
    rw [Table.visible, DhtStorage.next, lookup_handleStoreAt]
    cases lastStored (Call.accepted ⟨.store request, clock⟩) key with
    | none => exact follows key
    | some stored => rfl
  | find keys => exact follows key
  | cleanup => exact (Table.visible_purge expires_valid _ (past 0) key).trans (follows key)

variable (localPeer : PeerId) (peers : List PeerId)

theorem follows_after {history : List Call} {time : ℚ}
    (past : ∀ call ∈ history, ∀ index, call.clock index ≤ time) :
    Follows (DhtStorage.after ⟨∅, localPeer, peers⟩ history) history time := by
  induction history using List.reverseRecOn with
  | nil => exact fun key => rfl
  | append_singleton history call ih =>
    rw [DhtStorage.after, foldl_append]
    refine follows_next (past call (mem_append_right _ mem_cons_self)) ?_
    exact ih fun earlier member => past earlier (mem_append_left _ member)

theorem identity_next (storage : DhtStorage) (call : Call) :
    (storage.next call).localPeerId = storage.localPeerId ∧
      (storage.next call).peers = storage.peers := by
  obtain ⟨operation, clock⟩ := call
  cases operation with
  | store request =>
    have stored := storeEntry_timedEntries storage (request.timedEntries clock)
    exact ⟨(congrArg DhtStorage.localPeerId stored :), (congrArg DhtStorage.peers stored :)⟩
  | find keys => exact ⟨rfl, rfl⟩
  | cleanup => exact ⟨rfl, rfl⟩

theorem identity_after (storage : DhtStorage) (history : List Call) :
    (storage.after history).localPeerId = storage.localPeerId ∧
      (storage.after history).peers = storage.peers := by
  induction history generalizing storage with
  | nil => exact ⟨rfl, rfl⟩
  | cons call history ih =>
    obtain ⟨sameId, samePeers⟩ := identity_next storage call
    exact ⟨(ih _).1.trans sameId, (ih _).2.trans samePeers⟩

theorem find_eq_answerOf {storage : DhtStorage} {history : List Call} {time : ℚ}
    (follows : Follows storage history time) (key : Bytes) :
    storage.find time key =
      answerOf ((storage.peers.take 20).map PeerId.toBytes) (lastAccepted history key) time := by
  rw [answerOf, ← follows key, Table.visible, DhtStorage.find]
  cases storage.storage.lookup key with
  | none => rfl
  | some stored =>
    cases valid : stored.valid time with
    | false => simp [valid, Option.filter_some]
    | true => simp [valid, Option.filter_some]

theorem results_handleFindAt {storage : DhtStorage} {history : List Call} {clock : ℕ → ℚ}
    (follows : ∀ index, Follows storage history (clock index)) (keys : List Bytes) :
    (storage.handleFindAt clock keys).results = keys.zipIdx.map fun (key, index) =>
      answerOf ((storage.peers.take 20).map PeerId.toBytes) (lastAccepted history key)
        (clock index) :=
  map_congr_left fun pair _ => find_eq_answerOf (follows pair.2) pair.1

theorem storeOk_handleStoreAt (storage : DhtStorage) (clock : ℕ → ℚ) (request : StoreRequest) :
    let storeOk := (storage.handleStoreAt clock request).2.storeOk
    storeOk.length = request.keys.length ∧ ∀ index (within : index < storeOk.length),
      storeOk[index] = (FloatValue.finite (clock (2 * index + 1))).below
        (request.expirationTime.getD index (.finite (clock (2 * index) + 3600))) := by
  constructor
  · simp [DhtStorage.handleStoreAt, StoreRequest.timedEntries]
  · intro index within
    simp [DhtStorage.handleStoreAt, StoreRequest.timedEntries, StoredValue.valid]

theorem lastAccepted_withoutCleanups (history : List Call) (key : Bytes) :
    lastAccepted (withoutCleanups history) key = lastAccepted history key := by
  induction history using List.reverseRecOn with
  | nil => rfl
  | append_singleton history call ih =>
    rw [lastAccepted_concat, ← ih, withoutCleanups, filter_append, ← withoutCleanups]
    obtain ⟨operation, clock⟩ := call
    cases operation with
    | store request => exact lastAccepted_concat _ _ key
    | find keys => exact lastAccepted_concat _ _ key
    | cleanup => rw [filter_cons_of_neg (by simp), filter_nil, append_nil]; rfl

theorem InOrder.past {history : List Call} {call : Call} (ordered : InOrder (history ++ [call]))
    (index : ℕ) : ∀ earlier ∈ history, ∀ first, earlier.clock first ≤ call.clock index :=
  fun earlier member first =>
    (pairwise_append.mp ordered).2.2 earlier member call mem_cons_self first index

theorem respond_after_congr {history other : List Call} {call : Call}
    (ordered : InOrder (history ++ [call])) (alsoOrdered : InOrder (other ++ [call]))
    (same : ∀ key, lastAccepted other key = lastAccepted history key) :
    (DhtStorage.after ⟨∅, localPeer, peers⟩ other).respond call =
      (DhtStorage.after ⟨∅, localPeer, peers⟩ history).respond call := by
  have sameId := (identity_after ⟨∅, localPeer, peers⟩ other).1.trans
    (identity_after ⟨∅, localPeer, peers⟩ history).1.symm
  have samePeers := (identity_after ⟨∅, localPeer, peers⟩ other).2.trans
    (identity_after ⟨∅, localPeer, peers⟩ history).2.symm
  have before := fun index => follows_after localPeer peers (ordered.past index)
  have also := fun index => follows_after localPeer peers (alsoOrdered.past index)
  obtain ⟨operation, clock⟩ := call
  cases operation with
  | store request =>
    exact congrArg (fun peer => some (CallResponse.store ⟨_, PeerId.toBytes peer⟩)) sameId
  | find keys =>
    have results := (results_handleFindAt also keys).trans
      (Eq.trans (by simp only [same, samePeers]) (results_handleFindAt before keys).symm)
    exact congrArg (fun response => some (CallResponse.find response))
      (congrArg₂ FindResponse.mk results (congrArg PeerId.toBytes sameId))
  | cleanup => rfl

/-- **Sequential specification.** In every sequence of calls under a clock that does not go back,
every call is answered as its history says, and the same if cleanups are inserted into the history
or left out of it. -/
theorem sequentialSpec {history : List Call} {call : Call}
    (ordered : InOrder (history ++ [call])) :
    CallMeets (DhtStorage.after ⟨∅, localPeer, peers⟩ history) history call ∧
      ∀ other, InOrder (other ++ [call]) → withoutCleanups other = withoutCleanups history →
        (DhtStorage.after ⟨∅, localPeer, peers⟩ other).respond call =
          (DhtStorage.after ⟨∅, localPeer, peers⟩ history).respond call := by
  constructor
  · have follows := fun index => follows_after localPeer peers (ordered.past index)
    obtain ⟨operation, clock⟩ := call
    cases operation with
    | store request => exact storeOk_handleStoreAt _ clock request
    | find keys => exact results_handleFindAt follows keys
    | cleanup => trivial
  · intro other alsoOrdered sameCalls
    refine respond_after_congr localPeer peers ordered alsoOrdered fun key => ?_
    rw [← lastAccepted_withoutCleanups other, sameCalls, lastAccepted_withoutCleanups]

/-- A value is stored, cleaned up and stored again without an expiration time. -/
def expiringCalls : List Call :=
  [⟨.store (announcement [7] [70] 360), fun _ => 0⟩, ⟨.cleanup, fun _ => 360⟩,
    ⟨.store ⟨[blockKey, blockKey], [], [[71], [72]], [], []⟩, fun _ => 400⟩]

theorem expiringCalls_sequentialSpec :
    CallMeets (DhtStorage.after ⟨∅, .ofByte 9, []⟩ expiringCalls) expiringCalls
      ⟨.find [blockKey, [2]], fun _ => 3999⟩ ∧
    lastAccepted expiringCalls blockKey = some ⟨[72], .finite 4000, false⟩ := by
  refine ⟨(sequentialSpec _ _ ?_).1, by decide +kernel⟩
  simp only [expiringCalls, InOrder, cons_append, nil_append, pairwise_cons]
  norm_num

end KwaaiNet.Dht
