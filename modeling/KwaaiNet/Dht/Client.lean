import Mathlib
import KwaaiNet.Dht.Codec
import KwaaiNet.Dht.Storage

/-! # The DHT client

A client remembers the keys of every request it sends. The answers in a response have no keys: they
are matched with the remembered keys by position, and a list that is too short takes the keys after
its end with it. So every key is accounted for exactly if the peer sends at least one answer for
each (`KwaaiNet.Dht.accountsForKeys_iff`).
-/

namespace KwaaiNet.Dht

open Foundation List

/-- `DHTValue`. -/
structure DhtValue where
  value : Bytes
  expirationTime : FloatValue
  inCache : Bool
  deriving DecidableEq

/-- `DHTValue::is_expired`: a time that is not a number never expires. -/
def DhtValue.isExpired (value : DhtValue) (now : ℚ) : Bool :=
  value.expirationTime.below (.finite now)

/-- `ResultType::from_i32`. -/
def ResultType.fromI32 (value : Int) : Option ResultType :=
  if value = 0 then some .notFound
  else if value = 1 then some .foundRegular
  else if value = 2 then some .foundDictionary
  else none

def ResultType.toI32 : ResultType → Int
  | .notFound => 0
  | .foundRegular => 1
  | .foundDictionary => 2

/-- A `FindResult` as a peer sends it: its type may be any number. -/
structure FindResultMessage where
  resultType : Int
  value : Bytes
  expirationTime : FloatValue
  nearestPeerIds : List Bytes
  deriving DecidableEq

structure FindResponseMessage where
  results : List FindResultMessage
  deriving DecidableEq

/-- A `DHTResponse`. The client does not read responses to a ping. -/
abbrev DhtResponse (PingResponse : Type*) := Message PingResponse StoreResponse FindResponseMessage

inductive PendingRequest where
  | get (keys : List Bytes)
  | store (keys : List Bytes)
  deriving DecidableEq

structure StoreResult where
  key : Bytes
  stored : Bool
  deriving DecidableEq

structure GetResult where
  key : Bytes
  value : Option DhtValue
  deriving DecidableEq

structure FindResponseData where
  results : List GetResult
  nearestPeers : List PeerId
  deriving DecidableEq

inductive ResponseData where
  | store (results : List StoreResult)
  | find (data : FindResponseData)
  deriving DecidableEq

/-- `Error::Network`, the only error of the client. -/
inductive ClientError where
  | network (text : String)
  deriving DecidableEq

/-- The client. The request-response behaviour gives every request its id. -/
structure HivemindDht where
  pendingRequests : Table Nat PendingRequest

namespace HivemindDht

/-- `store_many`: the request that is sent, and the client that waits for the response. -/
def storeMany (client : HivemindDht) (requestId : Nat) (entries : List (Bytes × DhtValue)) :
    HivemindDht × StoreRequest :=
  let keys := entries.map Prod.fst
  (⟨client.pendingRequests.insert requestId (.store keys)⟩,
    { keys
      subkeys := List.replicate keys.length []
      values := entries.map fun entry => entry.2.value
      expirationTime := entries.map fun entry => entry.2.expirationTime
      inCache := entries.map fun entry => entry.2.inCache })

/-- `get_many`: the keys of the request that is sent, and the client that waits for the response. -/
def getMany (client : HivemindDht) (requestId : Nat) (keys : List Bytes) :
    HivemindDht × List Bytes :=
  (⟨client.pendingRequests.insert requestId (.get keys)⟩, keys)

end HivemindDht

def FindResultMessage.valueAt (now : ℚ) (result : FindResultMessage) : Option DhtValue :=
  match (ResultType.fromI32 result.resultType).getD .notFound with
  | .notFound => none
  | .foundRegular | .foundDictionary =>
    let dhtValue : DhtValue := ⟨result.value, result.expirationTime, false⟩
    if dhtValue.isExpired now then none else some dhtValue

def FindResultMessage.peers (result : FindResultMessage) : List PeerId :=
  result.nearestPeerIds.filterMap PeerId.fromBytes

section Response

variable {PingResponse : Type*}

def PendingRequest.answer (clock : ℕ → ℚ) (pending : PendingRequest)
    (response : DhtResponse PingResponse) : Except ClientError ResponseData :=
  match pending, response with
  | .store keys, .store storeRes =>
    .ok (.store ((keys.zip storeRes.storeOk).map fun (key, stored) => ⟨key, stored⟩))
  | .get keys, .find findRes =>
    let zipped := keys.zip findRes.results
    .ok (.find
      { results := zipped.zipIdx.map fun ((key, findResult), index) =>
          ⟨key, findResult.valueAt (clock index)⟩
        nearestPeers := zipped.flatMap fun (_, findResult) => findResult.peers })
  | _, _ => .error (.network "Response type mismatch with request")

/-- `handle_response`. The request is forgotten before anything else is looked at. -/
def HivemindDht.handleResponse (client : HivemindDht) (clock : ℕ → ℚ) (requestId : Nat)
    (response : DhtResponse PingResponse) :
    HivemindDht × Except ClientError ResponseData :=
  match client.pendingRequests.lookup requestId with
  | none => (client, .error (.network "Unknown request ID"))
  | some pending =>
    (⟨client.pendingRequests.erase requestId⟩, pending.answer clock response)

/-! ## Accounting for the keys -/

def storeResults (keys : List Bytes) (storeOk : List Bool) : List StoreResult :=
  keys.zipIdx.map fun (key, index) => ⟨key, storeOk.getD index false⟩

def getResults (clock : ℕ → ℚ) (keys : List Bytes) (answers : List FindResultMessage) :
    List GetResult :=
  keys.zipIdx.map fun (key, index) =>
    ⟨key, (answers[index]?).bind fun answer => answer.valueAt (clock index)⟩

/-- **Accounted for.** The outcome is an error, or a result for every key of the request. -/
def Accounted (clock : ℕ → ℚ) (pending : PendingRequest)
    (response : DhtResponse PingResponse) :
    Except ClientError ResponseData → Prop
  | .error _ => True
  | .ok (.store results) => ∃ keys storeRes, pending = .store keys ∧ response = .store storeRes ∧
      results = storeResults keys storeRes.storeOk
  | .ok (.find data) => ∃ keys findRes, pending = .get keys ∧ response = .find findRes ∧
      data.results = getResults clock keys findRes.results

def AccountsForKeys (client : HivemindDht) (clock : ℕ → ℚ) (requestId : Nat)
    (pending : PendingRequest) (response : DhtResponse PingResponse) : Prop :=
  let (after, outcome) := client.handleResponse clock requestId response
  Accounted clock pending response outcome ∧ after.pendingRequests.lookup requestId = none

def EnoughAnswers (pending : PendingRequest) (response : DhtResponse PingResponse) : Prop :=
  match pending, response with
  | .store keys, .store storeRes => keys.length ≤ storeRes.storeOk.length
  | .get keys, .find findRes => keys.length ≤ findRes.results.length
  | _, _ => True

theorem map_zip_eq_iff {K A R : Type*} (keys : List K) (answers : List A)
    (read : ℕ → K → A → R) (lookUp : ℕ → K → Option A → R)
    (reads : ∀ index key answer, lookUp index key (some answer) = read index key answer) :
    ((keys.zip answers).zipIdx.map fun pair => read pair.2 pair.1.1 pair.1.2) =
      (keys.zipIdx.map fun pair => lookUp pair.2 pair.1 answers[pair.2]?) ↔
      keys.length ≤ answers.length := by
  constructor
  · intro same
    have lengths := congrArg List.length same
    simp only [length_map, length_zipIdx, length_zip] at lengths
    omega
  · intro enough
    apply ext_getElem
    · simp only [length_map, length_zipIdx, length_zip]
      omega
    · intro index first second
      have within : index < answers.length := by
        simp only [length_map, length_zipIdx] at second
        omega
      simp [within, reads]

theorem store_accounted_iff (keys : List Bytes) (storeOk : List Bool) :
    ((keys.zip storeOk).map fun (key, stored) => (⟨key, stored⟩ : StoreResult)) =
      storeResults keys storeOk ↔ keys.length ≤ storeOk.length := by
  have paired := map_zip_eq_iff keys storeOk (fun _ key stored => (⟨key, stored⟩ : StoreResult))
    (fun _ key stored => ⟨key, stored.getD false⟩) fun _ _ _ => rfl
  have unindexed : ((keys.zip storeOk).zipIdx.map fun pair =>
      (⟨pair.1.1, pair.1.2⟩ : StoreResult)) = (keys.zip storeOk).map fun pair =>
        ⟨pair.1, pair.2⟩ := by
    conv_rhs => rw [← zipIdx_map_fst 0 (keys.zip storeOk), map_map]
    rfl
  rw [unindexed] at paired
  simpa only [storeResults, getD_eq_getElem?_getD] using paired

theorem accounted_answer_iff (clock : ℕ → ℚ) (pending : PendingRequest)
    (response : DhtResponse PingResponse) :
    Accounted clock pending response (pending.answer clock response) ↔
      EnoughAnswers pending response := by
  cases pending with
  | store keys =>
    cases response with
    | ping message => exact Iff.rfl
    | find findRes => exact Iff.rfl
    | store storeRes =>
      refine Iff.trans ⟨?_, ?_⟩ (store_accounted_iff keys storeRes.storeOk)
      · rintro ⟨_, _, ⟨⟩, ⟨⟩, same⟩
        exact same
      · exact fun same => ⟨keys, storeRes, rfl, rfl, same⟩
  | get keys =>
    cases response with
    | ping message => exact Iff.rfl
    | store storeRes => exact Iff.rfl
    | find findRes =>
      have paired := map_zip_eq_iff keys findRes.results
        (fun index key answer => (⟨key, answer.valueAt (clock index)⟩ : GetResult))
        (fun index key answer => ⟨key, answer.bind fun found => found.valueAt (clock index)⟩)
        fun _ _ _ => rfl
      refine Iff.trans ⟨?_, ?_⟩ paired
      · rintro ⟨_, _, ⟨⟩, ⟨⟩, same⟩
        exact same
      · exact fun same => ⟨keys, findRes, rfl, rfl, same⟩

theorem accountsForKeys_iff_accounted {client : HivemindDht} {requestId : Nat}
    {pending : PendingRequest}
    (waiting : client.pendingRequests.lookup requestId = some pending) (clock : ℕ → ℚ)
    (response : DhtResponse PingResponse) :
    AccountsForKeys client clock requestId pending response ↔
      Accounted clock pending response (pending.answer clock response) := by
  rw [AccountsForKeys, HivemindDht.handleResponse, waiting]
  exact and_iff_left (AList.lookup_erase _ _)

/-- **Every key.** A response to a pending request accounts for its keys exactly if it has another
type, which is an error, or at least as many answers as the request has keys. -/
theorem accountsForKeys_iff {client : HivemindDht} {requestId : Nat} {pending : PendingRequest}
    (waiting : client.pendingRequests.lookup requestId = some pending) (clock : ℕ → ℚ)
    (response : DhtResponse PingResponse) :
    AccountsForKeys client clock requestId pending response ↔ EnoughAnswers pending response :=
  (accountsForKeys_iff_accounted waiting clock response).trans
    (accounted_answer_iff clock pending response)

end Response

def firstTwoKeys : HivemindDht := (HivemindDht.storeMany ⟨∅⟩ 0
  [([1], ⟨[10], .finite 360, false⟩), ([2], ⟨[20], .finite 360, false⟩)]).1

def storeReply (storeOk : List Bool) : DhtResponse Unit := .store ⟨storeOk, []⟩

/-- A client that stores two keys hears about both if the peer answers for both. -/
theorem fullReply_accountsForKeys :
    AccountsForKeys firstTwoKeys (fun _ => 0) 0 (.store [[1], [2]]) (storeReply [true, false]) :=
  (accountsForKeys_iff rfl _ _).mpr le_rfl

/-- **A short reply.** The peer answers for the first of two keys; the client returns one result and
no error. -/
theorem shortReply_drops_key :
    (firstTwoKeys.handleResponse (fun _ => 0) 0 (storeReply [true])).2 =
        .ok (.store [⟨[1], true⟩]) ∧
      ¬ AccountsForKeys firstTwoKeys (fun _ => 0) 0 (.store [[1], [2]]) (storeReply [true]) := by
  refine ⟨rfl, fun accounts => ?_⟩
  obtain ⟨⟨keys, storeRes, sent, received, same⟩, _⟩ := accounts
  cases sent
  cases received
  exact absurd same (by decide)

end KwaaiNet.Dht
