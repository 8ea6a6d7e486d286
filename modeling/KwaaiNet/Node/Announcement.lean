import Mathlib
import KwaaiNet.Dht.History
import KwaaiNet.Foundation.Text
import KwaaiNet.Routing.ValueBytes

/-! # Announcing a node and taking it back

A node announces itself under the keys of its blocks, in the registries of models and of inference
nodes and, with storage enabled, in the registry of storage nodes. When it shuts down it overwrites
the records of the blocks that it announced last with offline ones and repeats its storage record;
the other records are left alone. `KwaaiNet.goneEverywhere_iff` says when no store that received all
of this shows the node as online.
-/

namespace KwaaiNet

open Foundation List

/-! ## Records -/

def textValue (text : String) : Value := .string (some text)

structure VpkInfo where
  mode : String
  /-- The bits of a float. -/
  capacityGb : UInt64
  tenantCount : UInt32
  vpkVersion : String
  publicName : String

namespace VpkInfo

/-- `to_msgpack_value`. -/
def toMsgpackValue (vpk : VpkInfo) : Value :=
  .map [
    (textValue "mode", textValue vpk.mode),
    (textValue "capacity_gb", .f64 vpk.capacityGb),
    (textValue "tenant_count", .integer vpk.tenantCount.toNat),
    (textValue "vpk_version", textValue vpk.vpkVersion),
    (textValue "public_name", textValue vpk.publicName)]

/-- `to_msgpack_bytes`. -/
def toMsgpackBytes (vpk : VpkInfo) : List UInt8 := vpk.toMsgpackValue.write

end VpkInfo

/-- `DHTServerInfo`. Its pings and adapters are written as empty whatever they are. -/
structure DhtServerInfo where
  state : Int32
  /-- The bits of a float. -/
  throughput : UInt64
  startBlock : Int32
  endBlock : Int32
  publicName : String
  version : String
  torchDtype : String
  usingRelay : Bool
  cacheTokensLeft : Int64
  trustAttestations : List String
  vpkInfo : Option VpkInfo
  peerIdB58 : String

namespace DhtServerInfo

variable (info : DhtServerInfo)

def fields : List (Value × Value) :=
  [(textValue "start_block", .integer info.startBlock.toInt),
    (textValue "end_block", .integer info.endBlock.toInt),
    (textValue "public_name", textValue info.publicName),
    (textValue "version", textValue info.version),
    (textValue "torch_dtype", textValue info.torchDtype),
    (textValue "using_relay", .boolean info.usingRelay),
    (textValue "cache_tokens_left", .integer info.cacheTokensLeft.toInt),
    (textValue "adapters", .array []),
    (textValue "next_pings", .map []),
    (textValue "peer_id", textValue info.peerIdB58)] ++
  (if info.trustAttestations = [] then []
    else [(textValue "trust_attestations", .array (info.trustAttestations.map textValue))]) ++
  info.vpkInfo.toList.map fun vpk => (textValue "vpk", vpk.toMsgpackValue)

def inner : Value :=
  .array [.integer info.state.toInt, .f64 info.throughput, .map info.fields]

/-- `to_msgpack`. -/
def toMsgpack : List UInt8 := (Value.ext 64 info.inner.write).write

/-- The record that `unannounce` makes of the last one. -/
def offline : DhtServerInfo where
  state := -1
  throughput := 0
  startBlock := info.startBlock
  endBlock := info.endBlock
  publicName := info.publicName
  version := info.version
  torchDtype := info.torchDtype
  usingRelay := info.usingRelay
  cacheTokensLeft := 0
  trustAttestations := []
  vpkInfo := none
  peerIdB58 := info.peerIdB58

end DhtServerInfo

structure ModelInfo where
  numBlocks : Int32
  repository : String

/-- `to_msgpack`. -/
def ModelInfo.toMsgpack (model : ModelInfo) : List UInt8 :=
  (Value.map [(textValue "repository", textValue model.repository),
    (textValue "num_blocks", .integer model.numBlocks.toInt)]).write

def SaysOffline (bytes : List UInt8) : Prop :=
  (decodeServerInfoExt Value.read bytes).map ServerInfo.state = some (-1)

/-! ### Reading records -/

theorem fits_textValue {depth : Nat} (text : String) : (textValue text).Fits (depth + 1) :=
  .string text

theorem fits_toMsgpackValue (vpk : VpkInfo) : vpk.toMsgpackValue.Fits 1022 := by
  have tenants := vpk.tenantCount.toNat_lt
  refine .map ?_ ?_
  · simp only [forall_mem_cons, not_mem_nil, false_imp_iff, implies_true, and_true]
    exact ⟨fits_textValue _, fits_textValue _, fits_textValue _, fits_textValue _,
      fits_textValue _⟩
  · simp only [forall_mem_cons, not_mem_nil, false_imp_iff, implies_true, and_true]
    exact ⟨fits_textValue _, .f64 _, .integer (by omega) (by omega), fits_textValue _,
      fits_textValue _⟩

theorem fits_i32 {depth : Nat} (number : Int32) :
    (Value.integer number.toInt).Fits (depth + 1) := by
  have low := number.le_toInt
  have high := number.toInt_lt
  exact .integer (by omega) (by omega)

namespace DhtServerInfo

variable (info : DhtServerInfo)

theorem fits_fields : ∀ field ∈ info.fields, field.1.Fits 1022 ∧ field.2.Fits 1022 := by
  have low := info.cacheTokensLeft.le_toInt
  have high := info.cacheTokensLeft.toInt_lt
  intro field member
  rw [fields, mem_append, mem_append] at member
  rcases member with (fixed | attested) | storage
  · revert field
    simp only [forall_mem_cons, not_mem_nil, false_imp_iff, implies_true, and_true]
    exact ⟨⟨fits_textValue _, fits_i32 _⟩, ⟨fits_textValue _, fits_i32 _⟩,
      ⟨fits_textValue _, fits_textValue _⟩, ⟨fits_textValue _, fits_textValue _⟩,
      ⟨fits_textValue _, fits_textValue _⟩, ⟨fits_textValue _, .boolean _⟩,
      ⟨fits_textValue _, .integer (by omega) (by omega)⟩,
      ⟨fits_textValue _, .array fun _ none => absurd none not_mem_nil⟩,
      ⟨fits_textValue _, .map (fun _ none => absurd none not_mem_nil)
        fun _ none => absurd none not_mem_nil⟩,
      ⟨fits_textValue _, fits_textValue _⟩⟩
  · split_ifs at attested with without
    · cases attested
    · obtain rfl := mem_singleton.mp attested
      refine ⟨fits_textValue _, .array fun item listed => ?_⟩
      obtain ⟨text, _, rfl⟩ := mem_map.mp listed
      exact fits_textValue text
  · obtain ⟨vpk, _, rfl⟩ := mem_map.mp storage
    exact ⟨fits_textValue _, fits_toMsgpackValue vpk⟩

theorem fits_inner : info.inner.Fits 1024 := by
  refine .array ?_
  simp only [forall_mem_cons, not_mem_nil, false_imp_iff, implies_true, and_true]
  exact ⟨fits_i32 _, .f64 _, .map (fun field member => (info.fits_fields field member).1)
    fun field member => (info.fits_fields field member).2⟩

theorem lookup_startBlock :
    Value.lookup info.fields "start_block" = some (.integer info.startBlock.toInt) := by
  rw [Value.lookup, fields]
  rfl

theorem lookup_endBlock :
    Value.lookup info.fields "end_block" = some (.integer info.endBlock.toInt) := by
  rw [Value.lookup, fields]
  rfl

end DhtServerInfo

theorem asI64_i32 (number : Int32) :
    (Value.integer number.toInt).asI64 = some number.toInt := by
  have low := number.le_toInt
  have high := number.toInt_lt
  rw [Value.asI64, if_pos ⟨by omega, by omega⟩]

/-- **State of a record.** Who reads a record sees the state that was written. -/
theorem DhtServerInfo.state_decoded {info : DhtServerInfo}
    (short : info.toMsgpack.length < 2 ^ 32) :
    (decodeServerInfoExt Value.read info.toMsgpack).map ServerInfo.state =
      some info.state.toInt := by
  have outer : Value.read info.toMsgpack = some (.ext 64 info.inner.write) :=
    Value.read_write (.ext (by decide) (by decide) _) short
  have innerShort : info.inner.write.length < 2 ^ 32 := by
    rw [toMsgpack, Value.write, length_append] at short
    omega
  have state : i32OfI64 info.state.toInt = info.state.toInt := by
    have low := info.state.le_toInt
    have high := info.state.toInt_lt
    rw [i32OfI64, Int.bmod_eq_of_le (by omega) (by omega)]
  have array : info.inner.asArray =
      some [.integer info.state.toInt, .f64 info.throughput, .map info.fields] := rfl
  rw [decodeServerInfoExt, outer]
  simp only [Option.bind_eq_bind, Option.bind_some, Value.read_write info.fits_inner innerShort,
    array, length_cons, length_nil, Nat.reduceAdd, lt_self_iff_false, ↓reduceIte,
    getD_cons_zero, getD_cons_succ, Value.asMap, lookup_startBlock, lookup_endBlock,
    asI64_i32, Option.map_some, Option.getD_some, state]

theorem saysOffline_toMsgpack_iff {info : DhtServerInfo}
    (short : info.toMsgpack.length < 2 ^ 32) :
    SaysOffline info.toMsgpack ↔ info.state = -1 := by
  rw [SaysOffline, DhtServerInfo.state_decoded short, Option.some_inj, ← Int32.toInt_inj]
  rfl

theorem read_write_map {entries : List (Value × Value)} {value : Value}
    (read : Value.read (Value.map entries).write = some value) :
    ∃ others, value = .map others := by
  rw [Value.read, Value.write, Value.readAt_mapHeader (Value.lengthU32_lt _), Value.readEntries,
    Option.map_map] at read
  obtain ⟨taken, _, rfl⟩ := Option.map_eq_some_iff.mp read
  exact ⟨taken.1, rfl⟩

theorem not_saysOffline_map (entries : List (Value × Value)) :
    ¬ SaysOffline (Value.map entries).write := by
  have dropped : decodeServerInfoExt Value.read (Value.map entries).write = none := by
    rw [decodeServerInfoExt]
    cases read : Value.read (Value.map entries).write with
    | none => rfl
    | some value =>
      obtain ⟨others, rfl⟩ := read_write_map read
      rfl
  rw [SaysOffline, dropped]
  exact Option.some_ne_none _ ∘ Eq.symm

/-! ## Keys -/

/-- What a node announces itself under. -/
inductive NodeKey where
  | block (number : Int32)
  | models
  | inferenceNodes
  | vpkNodes
  deriving DecidableEq

def NodeKey.name (dhtPrefix : String) : NodeKey → String
  | .block number => s!"{dhtPrefix}.{number}"
  | .models => "_petals.models"
  | .inferenceNodes => "_kwaai.inference.nodes"
  | .vpkNodes => "_kwaai.vpk.nodes"

theorem repr_endsInDigit (number : Int) :
    ∃ digit, number.repr.toList.getLast? = some digit ∧ digit.isDigit = true := by
  have natural : ∀ n : Nat,
      ∃ digit, n.repr.toList.getLast? = some digit ∧ digit.isDigit = true := by
    intro n
    rw [Nat.repr, String.toList_ofList]
    exact ⟨_, List.getLast?_eq_some_getLast Nat.toDigits_ne_nil,
      Text.isDigit_of_mem_numeral (getLast_mem _)⟩
  cases number with
  | ofNat n => exact natural n
  | negSucc n =>
    obtain ⟨digit, last, numeric⟩ := natural (n + 1)
    refine ⟨digit, ?_, numeric⟩
    rw [Int.repr, String.toList_append, List.getLast?_append, last]
    rfl

theorem NodeKey.block_name_ne (dhtPrefix : String) (number : Int32) {name : String}
    (letter : name.toList.getLast? = some 's') : (NodeKey.block number).name dhtPrefix ≠ name := by
  rintro rfl
  obtain ⟨digit, last, numeric⟩ := repr_endsInDigit number.toInt
  have written : ((NodeKey.block number).name dhtPrefix).toList =
      (dhtPrefix ++ ".").toList ++ number.toInt.repr.toList := String.toList_append
  rw [written, List.getLast?_append, last, Option.some_or, Option.some_inj] at letter
  rw [letter] at numeric
  cases numeric

theorem NodeKey.eq_block_of_name {dhtPrefix : String} {key : NodeKey} {number : Int32}
    (same : key.name dhtPrefix = (NodeKey.block number).name dhtPrefix) : key = .block number := by
  cases key with
  | block other =>
    have numerals := (String.append_right_inj (dhtPrefix ++ ".")).mp same
    exact congrArg block (Int32.toInt_inj.mp (Int.repr_inj.mp numerals))
  | models =>
    have letter : "_petals.models".toList.getLast? = some 's' := by decide +kernel
    exact absurd same.symm (block_name_ne _ _ letter)
  | inferenceNodes =>
    have letter : "_kwaai.inference.nodes".toList.getLast? = some 's' := by decide +kernel
    exact absurd same.symm (block_name_ne _ _ letter)
  | vpkNodes =>
    have letter : "_kwaai.vpk.nodes".toList.getLast? = some 's' := by decide +kernel
    exact absurd same.symm (block_name_ne _ _ letter)

theorem NodeKey.name_injective (dhtPrefix : String) : Function.Injective (name dhtPrefix) := by
  intro first second same
  cases first with
  | block number => exact (eq_block_of_name same.symm).symm
  | models | inferenceNodes | vpkNodes =>
    cases second with
    | block number => exact eq_block_of_name same
    | models | inferenceNodes | vpkNodes => first | rfl | simp [name] at same

/-! ## Requests -/

/-- A node, as far as its announcements go; SHA-1 must not collide on the names of its keys. -/
structure AnnouncingNode where
  peerId : PeerId
  dhtPrefix : String
  repository : String
  sha1 : List UInt8 → List UInt8
  collisionFree : ∀ first second : NodeKey,
    sha1 (textValue (first.name dhtPrefix)).write =
      sha1 (textValue (second.name dhtPrefix)).write →
    first.name dhtPrefix = second.name dhtPrefix

def blockRange (startBlock endBlock : Int32) : List Int32 :=
  (List.range (endBlock.toInt - startBlock.toInt).toNat).map fun offset : Nat =>
    Int32.ofInt (startBlock.toInt + offset)

/-- A call of `announce`, with what the clock shows whenever it is read. -/
structure AnnounceCall where
  totalBlocks : Int32
  startBlock : Int32
  endBlock : Int32
  info : DhtServerInfo
  blockTime : Int32 → ℚ
  registryTime : ℚ
  inferenceTime : ℚ
  vpkTime : ℚ
  /-- Longer records are written with a wrong length. -/
  short : info.toMsgpack.length < 2 ^ 32

/-- A call of `unannounce`, which reads the clock once. -/
structure UnannounceCall where
  info : DhtServerInfo
  time : ℚ
  short : info.offline.toMsgpack.length < 2 ^ 32

/-- What a request says about one key, with the time from which it is valid for 360 seconds. -/
structure NodeRecord where
  key : NodeKey
  value : List UInt8
  time : ℚ

def AnnounceCall.blocks (call : AnnounceCall) : List Int32 :=
  blockRange call.startBlock call.endBlock

def UnannounceCall.blocks (call : UnannounceCall) : List Int32 :=
  blockRange call.info.startBlock call.info.endBlock

def blockRecords (blocks : List Int32) (value : List UInt8) (time : Int32 → ℚ) : List NodeRecord :=
  blocks.map fun block => ⟨.block block, value, time block⟩

def vpkRequests (vpkInfo : Option VpkInfo) (time : ℚ) : List (List NodeRecord) :=
  vpkInfo.toList.map fun vpk => [⟨.vpkNodes, vpk.toMsgpackBytes, time⟩]

/-- The records that `announce` sends, request by request. -/
def AnnounceCall.requests (repository : String) (call : AnnounceCall) : List (List NodeRecord) :=
  [blockRecords call.blocks call.info.toMsgpack call.blockTime,
    [⟨.models, ModelInfo.toMsgpack ⟨call.totalBlocks, repository⟩, call.registryTime⟩],
    [⟨.inferenceNodes, call.info.toMsgpack, call.inferenceTime⟩]] ++
  vpkRequests call.info.vpkInfo call.vpkTime

/-- The records that `unannounce` sends, request by request. -/
def UnannounceCall.requests (call : UnannounceCall) : List (List NodeRecord) :=
  [blockRecords call.blocks call.info.offline.toMsgpack fun _ => call.time] ++
  vpkRequests call.info.vpkInfo call.time

def storeRequest (entries : List Dht.Entry) : Dht.StoreRequest where
  keys := entries.map Dht.Entry.key
  subkeys := entries.map Dht.Entry.subkey
  values := entries.map fun entry => entry.stored.value
  expirationTime := entries.map fun entry => entry.stored.expirationTime
  inCache := entries.map fun entry => entry.stored.inCache

namespace AnnouncingNode

variable (node : AnnouncingNode)

/-- `dht_id`. -/
def dhtId (rawKey : String) : List UInt8 := node.sha1 (textValue rawKey).write

def subkey : List UInt8 := (textValue node.peerId.toBase58).write

/-- A model is registered under its own name, and everything else under the peer. -/
def subkeyOf : NodeKey → List UInt8
  | .models => (textValue node.dhtPrefix).write
  | _ => node.subkey

def entry (record : NodeRecord) : Dht.Entry where
  key := node.dhtId (record.key.name node.dhtPrefix)
  subkey := node.subkeyOf record.key
  stored := ⟨record.value, .finite (record.time + 360), false⟩

/-- `announce`: the requests that it hands to the own store and to the bootstrap peers. -/
def announce (call : AnnounceCall) : List Dht.StoreRequest :=
  (call.requests node.repository).map fun records => storeRequest (records.map node.entry)

/-- `unannounce`. -/
def unannounce (call : UnannounceCall) : List Dht.StoreRequest :=
  call.requests.map fun records => storeRequest (records.map node.entry)

end AnnouncingNode

/-! ## Stores -/

/-- A call that a store handles, and whether the node made it. -/
structure HandledCall where
  call : Dht.Call
  fromNode : Bool

/-- A store received the requests of the node by some time: all of them in order, and nothing from
elsewhere is stored under the subkey of the node. -/
structure Received (subkey : List UInt8) (requests : List Dht.StoreRequest) (time : ℚ)
    (handled : List HandledCall) : Prop where
  all : (handled.filter HandledCall.fromNode).map (fun handled => handled.call.operation) =
    requests.map .store
  foreign : ∀ other ∈ handled, other.fromNode = false →
    ∀ entry ∈ other.call.accepted, entry.subkey ≠ subkey
  past : ∀ other ∈ handled, ∀ index, other.call.clock index ≤ time

def storedFor (handled : List HandledCall) (key : List UInt8) : List Dht.Entry :=
  (handled.flatMap fun handled => handled.call.accepted).filter fun entry => entry.key = key

/-- **Gone.** Whatever a store shows under a subkey says that its node is offline. -/
def Gone (subkey : List UInt8) (localPeer : PeerId) (peers : List PeerId)
    (handled : List HandledCall) (time : ℚ) : Prop :=
  ∀ key stored,
    (Dht.DhtStorage.after ⟨∅, localPeer, peers⟩
      (handled.map HandledCall.call)).storage.visible Dht.StoredValue.valid time key =
        some stored →
    (storedFor handled key).getLast?.map Dht.Entry.subkey = some subkey →
    SaysOffline stored.value

/-- **Gone everywhere.** Every store that received all requests of the node shows it offline. -/
def AnnouncingNode.GoneEverywhere (node : AnnouncingNode) (calls : List AnnounceCall)
    (last : UnannounceCall) (time : ℚ) : Prop :=
  ∀ localPeer peers handled,
    Received node.subkey (calls.flatMap node.announce ++ node.unannounce last) time handled →
      Gone node.subkey localPeer peers handled time

/-- **Cleared.** What `unannounce` does not overwrite is offline or has expired. -/
structure AnnouncingNode.Cleared (node : AnnouncingNode) (calls : List AnnounceCall)
    (last : UnannounceCall) (time : ℚ) : Prop where
  blocks : ∀ block, (block ∈ last.blocks → last.time + 360 ≤ time) →
    ∀ call, (calls.filter fun call =>
      block ∈ call.blocks ∧ time < call.blockTime block + 360).getLast? = some call →
    call.info.state = -1
  inference : ∀ call, (calls.filter fun call => time < call.inferenceTime + 360).getLast? =
    some call → call.info.state = -1
  vpk : ∀ call ∈ calls, call.info.vpkInfo.isSome → call.vpkTime + 360 ≤ time
  lastVpk : last.info.vpkInfo.isSome → last.time + 360 ≤ time
  models : node.dhtPrefix = node.peerId.toBase58 →
    ∀ call ∈ calls, call.registryTime + 360 ≤ time

/-! ### What a store accepts -/

theorem snd_timedEntries (entries : List Dht.Entry) (clock : ℕ → ℚ) :
    ((storeRequest entries).timedEntries clock).map Prod.snd = entries := by
  refine ext_getElem (by simp [Dht.StoreRequest.timedEntries, storeRequest]) ?_
  intro index within inside
  simp [Dht.StoreRequest.timedEntries, storeRequest, inside]

theorem exists_clock {request : Dht.StoreRequest} {clock : ℕ → ℚ} {timed : ℚ × Dht.Entry}
    (member : timed ∈ request.timedEntries clock) : ∃ index, timed.1 = clock index := by
  obtain ⟨pair, _, rfl⟩ := mem_map.mp member
  exact ⟨_, rfl⟩

theorem filter_accepted {entries : List Dht.Entry} {clock : ℕ → ℚ} {chosen : Dht.Entry → Bool}
    (valid : ∀ entry ∈ entries, chosen entry = true →
      ∀ index, entry.stored.valid (clock index) = true) :
    (Dht.Call.accepted ⟨.store (storeRequest entries), clock⟩).filter chosen =
      entries.filter chosen := by
  have kept : ((storeRequest entries).timedEntries clock).filter
        (fun timed => chosen timed.2 && timed.2.stored.valid timed.1) =
      ((storeRequest entries).timedEntries clock).filter fun timed => chosen timed.2 := by
    apply filter_congr
    intro timed member
    obtain ⟨index, read⟩ := exists_clock member
    have listed : timed.2 ∈ entries := by
      rw [← snd_timedEntries entries clock]
      exact mem_map_of_mem member
    cases selected : chosen timed.2 with
    | false => rfl
    | true => rw [read, valid timed.2 listed selected index, Bool.and_true]
  conv_rhs => rw [← snd_timedEntries entries clock, filter_map]
  rw [Dht.Call.accepted, filter_map, filter_filter]
  exact congrArg (List.map Prod.snd) kept

def shows (subkey : List UInt8) (time : ℚ) (entry : Dht.Entry) : Bool :=
  decide (entry.subkey = subkey) && entry.stored.valid time

theorem filter_stored {subkey : List UInt8} {time : ℚ} {handled : List HandledCall}
    {groups : List (List Dht.Entry)}
    (received : Received subkey (groups.map storeRequest) time handled) :
    (handled.flatMap fun handled => handled.call.accepted).filter (shows subkey time) =
      groups.flatten.filter (shows subkey time) := by
  induction handled generalizing groups with
  | nil =>
    have none : groups = [] := by
      simpa only [filter_nil, map_nil, map_map, nil_eq, map_eq_nil_iff]
        using received.all
    rw [none]
    rfl
  | cons first rest ih =>
    have all := received.all
    have foreign := forall_mem_cons.mp received.foreign
    have past := forall_mem_cons.mp received.past
    rw [flatMap_cons, filter_append]
    cases made : first.fromNode with
    | false =>
      rw [filter_cons, made, if_neg Bool.false_ne_true] at all
      have nothing : first.call.accepted.filter (shows subkey time) = [] := by
        rw [filter_eq_nil_iff]
        intro entry member shown
        exact foreign.1 made entry member
          (of_decide_eq_true (Bool.and_eq_true_iff.mp shown).1)
      rw [nothing, nil_append]
      exact ih ⟨all, foreign.2, past.2⟩
    | true =>
      rw [filter_cons, if_pos made, map_cons] at all
      cases groups with
      | nil => cases all
      | cons entries groups =>
        obtain ⟨operation, others⟩ := List.cons.inj all
        have call : first.call =
            ⟨.store (storeRequest entries), first.call.clock⟩ := by rw [← operation]
        have own : first.call.accepted.filter (shows subkey time) =
            entries.filter (shows subkey time) := by
          rw [call]
          refine filter_accepted fun entry _ shown index => ?_
          exact Dht.expires_valid _ _ _ (past.1 index) (Bool.and_eq_true_iff.mp shown).2
        rw [flatten_cons, filter_append, own, ih ⟨others, foreign.2, past.2⟩]

theorem getLast?_filter_of_last {α : Type} {items : List α} {item : α} {chosen : α → Bool}
    (last : items.getLast? = some item) (selected : chosen item = true) :
    (items.filter chosen).getLast? = some item := by
  obtain ⟨before, rfl⟩ := List.getLast?_eq_some_iff.mp last
  rw [filter_append, filter_singleton, selected, cond_true, List.getLast?_append]
  rfl

def lastShown (subkey : List UInt8) (time : ℚ) (entries : List Dht.Entry) (key : List UInt8) :
    Option Dht.Entry :=
  ((entries.filter (shows subkey time)).filter fun entry => entry.key = key).getLast?

theorem lastAccepted_of_last {handled : List HandledCall} {key : List UInt8} {entry : Dht.Entry}
    (last : (storedFor handled key).getLast? = some entry) :
    Dht.lastAccepted (handled.map HandledCall.call) key = some entry.stored := by
  rw [Dht.lastAccepted, Dht.lastStored, flatMap_map]
  exact Option.map_eq_some_iff.mpr ⟨entry, last, rfl⟩

theorem Received.past_calls {subkey : List UInt8} {requests : List Dht.StoreRequest} {time : ℚ}
    {handled : List HandledCall} (received : Received subkey requests time handled) :
    ∀ call ∈ handled.map HandledCall.call, ∀ index, call.clock index ≤ time := by
  intro call member
  obtain ⟨other, listed, rfl⟩ := mem_map.mp member
  exact received.past other listed

theorem gone_of_lastShown {subkey : List UInt8} {time : ℚ} {handled : List HandledCall}
    {groups : List (List Dht.Entry)}
    (received : Received subkey (groups.map storeRequest) time handled)
    (offline : ∀ key entry, lastShown subkey time groups.flatten key = some entry →
      SaysOffline entry.stored.value) (localPeer : PeerId) (peers : List PeerId) :
    Gone subkey localPeer peers handled time := by
  intro key stored visible writer
  obtain ⟨entry, last, own⟩ := Option.map_eq_some_iff.mp writer
  rw [Dht.follows_after localPeer peers received.past_calls key, lastAccepted_of_last last,
    Option.filter_some] at visible
  split_ifs at visible with valid
  obtain rfl := Option.some.inj visible
  apply offline key entry
  rw [lastShown, ← filter_stored received, filter_comm]
  exact getLast?_filter_of_last last (Bool.and_eq_true_iff.mpr ⟨decide_eq_true own, valid⟩)

def handledAt (time : ℚ) (groups : List (List Dht.Entry)) : List HandledCall :=
  groups.map fun entries => ⟨⟨.store (storeRequest entries), fun _ => time⟩, true⟩

theorem received_handledAt (subkey : List UInt8) (time : ℚ) (groups : List (List Dht.Entry)) :
    Received subkey (groups.map storeRequest) time (handledAt time groups) := by
  have own : ∀ other ∈ handledAt time groups,
      other.fromNode = true ∧ other.call.clock = fun _ => time := by
    intro other member
    obtain ⟨entries, _, rfl⟩ := mem_map.mp member
    exact ⟨rfl, rfl⟩
  refine ⟨?_, ?_, ?_⟩
  · rw [filter_eq_self.mpr fun other member => (own other member).1, handledAt, map_map,
      map_map]
    rfl
  · intro other member foreign
    rw [(own other member).1] at foreign
    cases foreign
  · intro other member index
    rw [(own other member).2]

theorem accepted_storeRequest (entries : List Dht.Entry) (time : ℚ) :
    Dht.Call.accepted ⟨.store (storeRequest entries), fun _ => time⟩ =
      entries.filter fun entry => entry.stored.valid time := by
  rw [← filter_accepted fun entry _ valid _ => valid]
  refine (filter_eq_self.mpr fun entry member => ?_).symm
  obtain ⟨timed, kept, rfl⟩ := mem_map.mp member
  obtain ⟨listed, valid⟩ := mem_filter.mp kept
  obtain ⟨_, read⟩ := exists_clock listed
  rwa [read] at valid

theorem accepted_handledAt (time : ℚ) (groups : List (List Dht.Entry)) :
    ((handledAt time groups).flatMap fun handled => handled.call.accepted) =
      groups.flatten.filter fun entry => entry.stored.valid time := by
  induction groups with
  | nil => rfl
  | cons entries groups ih =>
    rw [flatten_cons, filter_append, ← ih, ← accepted_storeRequest]
    rfl

theorem saysOffline_of_gone {subkey : List UInt8} {time : ℚ} {groups : List (List Dht.Entry)}
    {localPeer : PeerId} {peers : List PeerId}
    (gone : Gone subkey localPeer peers (handledAt time groups) time)
    (alone : ∀ first ∈ groups.flatten, ∀ second ∈ groups.flatten, first.key = second.key →
      first.subkey = second.subkey)
    {key : List UInt8} {entry : Dht.Entry}
    (last : lastShown subkey time groups.flatten key = some entry) :
    SaysOffline entry.stored.value := by
  obtain ⟨shown, keyed⟩ := mem_filter.mp (mem_of_getLast? last)
  obtain ⟨listed, shown⟩ := mem_filter.mp shown
  obtain ⟨own, valid⟩ := Bool.and_eq_true_iff.mp shown
  have stored : storedFor (handledAt time groups) key =
      (groups.flatten.filter (shows subkey time)).filter fun entry => entry.key = key := by
    rw [storedFor, accepted_handledAt, filter_comm, filter_comm _ (shows subkey time)]
    apply filter_congr
    intro other member
    obtain ⟨among, same⟩ := mem_filter.mp member
    have subkeys := alone other among entry listed
      ((of_decide_eq_true same).trans (of_decide_eq_true keyed).symm)
    rw [shows, subkeys, own, Bool.true_and]
  have final : (storedFor (handledAt time groups) key).getLast? = some entry := by
    rw [stored]
    exact last
  have past := (received_handledAt subkey time groups).past_calls
  refine gone key entry.stored ?_ ?_
  · rw [Dht.follows_after localPeer peers past key, lastAccepted_of_last final, Option.filter_some,
      if_pos valid]
  · rw [final, Option.map_some, of_decide_eq_true own]

/-! ### What a node sends -/

theorem nodup_blockRange (startBlock endBlock : Int32) :
    (blockRange startBlock endBlock).Nodup := by
  have low := startBlock.le_toInt
  have high := endBlock.toInt_lt
  refine List.Nodup.map_on ?_ nodup_range
  intro first member second also same
  rw [mem_range] at member also
  have values := congrArg Int32.toInt same
  rw [Int32.toInt_ofInt_of_le (by omega) (by omega),
    Int32.toInt_ofInt_of_le (by omega) (by omega)] at values
  omega

def blockRecordsAt (blocks : List Int32) (value : List UInt8) (time : Int32 → ℚ) :
    NodeKey → List NodeRecord
  | .block block => if block ∈ blocks then [⟨.block block, value, time block⟩] else []
  | _ => []

theorem filter_blockRecords {blocks : List Int32} (distinct : blocks.Nodup) (value : List UInt8)
    (time : Int32 → ℚ) (key : NodeKey) :
    (blockRecords blocks value time).filter (fun record => record.key = key) =
      blockRecordsAt blocks value time key := by
  rw [blockRecords, filter_map, Function.comp_def]
  cases key with
  | block block =>
    simp only [NodeKey.block.injEq, filter_eq, blockRecordsAt]
    split_ifs with member
    · rw [count_eq_one_of_mem distinct member]
      rfl
    · rw [count_eq_zero_of_not_mem member]
      rfl
  | models | inferenceNodes | vpkNodes => simp [blockRecordsAt]

def vpkRecordsAt (vpkInfo : Option VpkInfo) (time : ℚ) : NodeKey → List NodeRecord
  | .vpkNodes => vpkInfo.toList.map fun vpk => ⟨.vpkNodes, vpk.toMsgpackBytes, time⟩
  | _ => []

theorem filter_vpkRequests (vpkInfo : Option VpkInfo) (time : ℚ) (key : NodeKey) :
    (vpkRequests vpkInfo time).flatten.filter (fun record => record.key = key) =
      vpkRecordsAt vpkInfo time key := by
  cases vpkInfo <;> cases key <;> rfl

/-- What an `announce` call says about a key. -/
def AnnounceCall.recordsAt (repository : String) (call : AnnounceCall) (key : NodeKey) :
    List NodeRecord :=
  blockRecordsAt call.blocks call.info.toMsgpack call.blockTime key ++
    (match key with
      | .models =>
        [⟨.models, ModelInfo.toMsgpack ⟨call.totalBlocks, repository⟩, call.registryTime⟩]
      | .inferenceNodes => [⟨.inferenceNodes, call.info.toMsgpack, call.inferenceTime⟩]
      | _ => []) ++
    vpkRecordsAt call.info.vpkInfo call.vpkTime key

theorem AnnounceCall.filter_requests (repository : String) (call : AnnounceCall) (key : NodeKey) :
    (call.requests repository).flatten.filter (fun record => record.key = key) =
      call.recordsAt repository key := by
  have distinct : call.blocks.Nodup := nodup_blockRange _ _
  rw [requests, flatten_append, flatten_cons, filter_append, filter_append,
    filter_blockRecords distinct, filter_vpkRequests]
  cases key <;> rfl

/-- What an `unannounce` call says about a key. -/
def UnannounceCall.recordsAt (call : UnannounceCall) (key : NodeKey) : List NodeRecord :=
  blockRecordsAt call.blocks call.info.offline.toMsgpack (fun _ => call.time) key ++
    vpkRecordsAt call.info.vpkInfo call.time key

theorem UnannounceCall.filter_requests (call : UnannounceCall) (key : NodeKey) :
    call.requests.flatten.filter (fun record => record.key = key) = call.recordsAt key := by
  have distinct : call.blocks.Nodup := nodup_blockRange _ _
  rw [requests, flatten_append, flatten_singleton, filter_append,
    filter_blockRecords distinct, filter_vpkRequests]
  rfl

namespace AnnouncingNode

variable {node : AnnouncingNode} {calls : List AnnounceCall} {last : UnannounceCall} {time : ℚ}

variable (node time) in
def shown (record : NodeRecord) : Bool :=
  decide (node.subkeyOf record.key = node.subkey) && decide (time < record.time + 360)

theorem key_inj {first second : NodeRecord}
    (same : (node.entry first).key = (node.entry second).key) : first.key = second.key :=
  NodeKey.name_injective _ (node.collisionFree _ _ same)

theorem entry_key_eq_iff {record other : NodeRecord} :
    (node.entry record).key = (node.entry other).key ↔ record.key = other.key := by
  refine ⟨key_inj, fun same => ?_⟩
  rw [entry, entry, same]

theorem lastShown_entries (records : List NodeRecord) (record : NodeRecord) :
    lastShown node.subkey time (records.map node.entry) (node.entry record).key =
      ((records.filter (node.shown time)).filter fun other =>
        other.key = record.key).getLast?.map node.entry := by
  have keys : (fun other => decide ((node.entry other).key = (node.entry record).key)) =
      fun other => decide (other.key = record.key) := by
    funext other
    rw [decide_eq_decide, entry_key_eq_iff]
  rw [lastShown, filter_map, filter_map, List.getLast?_map, Function.comp_def,
    Function.comp_def, keys]
  rfl

variable (node calls last) in
def lifetime : List (List NodeRecord) :=
  calls.flatMap (AnnounceCall.requests node.repository) ++ last.requests

theorem requests_lifetime :
    calls.flatMap node.announce ++ node.unannounce last =
      ((node.lifetime calls last).map (List.map node.entry)).map storeRequest := by
  rw [lifetime, map_map, map_append, map_flatMap]
  rfl

theorem goneEverywhere_iff_last :
    node.GoneEverywhere calls last time ↔ ∀ key record,
      (((node.lifetime calls last).flatten.filter (node.shown time)).filter fun other =>
        other.key = key).getLast? = some record → SaysOffline record.value := by
  have flat : ((node.lifetime calls last).map (List.map node.entry)).flatten =
      (node.lifetime calls last).flatten.map node.entry := map_flatten.symm
  constructor
  · intro everywhere key record final
    have member := mem_of_getLast? final
    have keyed : record.key = key := of_decide_eq_true (mem_filter.mp member).2
    have gone := everywhere node.peerId [] _ (requests_lifetime ▸ received_handledAt _ _ _)
    have shown : lastShown node.subkey time
        ((node.lifetime calls last).map (List.map node.entry)).flatten (node.entry record).key =
        some (node.entry record) := by
      rw [flat, lastShown_entries, keyed, final, Option.map_some]
    refine saysOffline_of_gone gone ?_ shown
    rw [flat]
    intro first among second also same
    obtain ⟨one, _, rfl⟩ := mem_map.mp among
    obtain ⟨two, _, rfl⟩ := mem_map.mp also
    rw [entry, entry, key_inj same]
  · intro offline localPeer peers handled received
    rw [requests_lifetime] at received
    refine gone_of_lastShown received ?_ localPeer peers
    intro key entry final
    rw [flat] at final
    obtain ⟨among, keyed⟩ := mem_filter.mp (mem_of_getLast? final)
    obtain ⟨record, _, rfl⟩ := mem_map.mp (mem_of_mem_filter among)
    rw [← of_decide_eq_true keyed, lastShown_entries] at final
    obtain ⟨other, final, same⟩ := Option.map_eq_some_iff.mp final
    rw [← same]
    exact offline _ other final

theorem filter_lifetime (key : NodeKey) :
    ((node.lifetime calls last).flatten.filter (node.shown time)).filter
        (fun record => record.key = key) =
      (calls.flatMap fun call => (call.recordsAt node.repository key).filter (node.shown time)) ++
        (last.recordsAt key).filter (node.shown time) := by
  rw [filter_comm, lifetime, flatten_append, filter_append, filter_append,
    UnannounceCall.filter_requests, ← flatMap_id, flatMap_assoc, filter_flatMap,
    filter_flatMap]
  simp only [flatMap_id, AnnounceCall.filter_requests]

theorem filter_shown {record : NodeRecord} (own : node.subkeyOf record.key = node.subkey)
    (present : Prop) [Decidable present] :
    (if present then [record] else []).filter (node.shown time) =
      if present ∧ time < record.time + 360 then [record] else [] := by
  by_cases there : present <;> by_cases valid : time < record.time + 360 <;>
    simp [there, valid, shown, own]

end AnnouncingNode

theorem forall_last_iff {α β : Type} {calls : List α} {made : α → Prop} [DecidablePred made]
    {record : α → β} {ends : Prop} [Decidable ends] {final : β} {good : β → Prop} :
    (∀ item, ((calls.flatMap fun call => if made call then [record call] else []) ++
        if ends then [final] else []).getLast? = some item → good item) ↔
      (ends → good final) ∧ (¬ ends → ∀ call,
        (calls.filter fun call => made call).getLast? = some call → good (record call)) := by
  have flat : (calls.flatMap fun call => if made call then [record call] else []) =
      (calls.filter fun call => made call).map record := by
    induction calls with
    | nil => rfl
    | cons call calls ih =>
      rw [flatMap_cons, ih]
      by_cases now : made call <;> simp [now]
  rw [flat, List.getLast?_append, List.getLast?_map]
  by_cases stop : ends
  · simp [stop]
  · simp [stop]

theorem forall_last_iff_nil {β : Type} {items : List β} {good : β → Prop}
    (bad : ∀ item ∈ items, ¬ good item) :
    (∀ item, items.getLast? = some item → good item) ↔ items = [] := by
  constructor
  · intro fine
    by_contra some
    have last := List.getLast?_eq_some_getLast some
    exact bad _ (getLast_mem some) (fine _ last)
  · rintro rfl item last
    cases last

namespace AnnouncingNode

variable {node : AnnouncingNode} {calls : List AnnounceCall} {last : UnannounceCall} {time : ℚ}

def ClearedAt (node : AnnouncingNode) (calls : List AnnounceCall) (last : UnannounceCall)
    (time : ℚ) (key : NodeKey) : Prop :=
  ∀ record, ((calls.flatMap fun call =>
      (call.recordsAt node.repository key).filter (node.shown time)) ++
    (last.recordsAt key).filter (node.shown time)).getLast? = some record →
  SaysOffline record.value

theorem clearedAt_block_iff (block : Int32) :
    node.ClearedAt calls last time (.block block) ↔
      ((block ∈ last.blocks → last.time + 360 ≤ time) → ∀ call, (calls.filter fun call =>
        block ∈ call.blocks ∧ time < call.blockTime block + 360).getLast? = some call →
      call.info.state = -1) := by
  have announced : ∀ call : AnnounceCall,
      (call.recordsAt node.repository (.block block)).filter (node.shown time) =
        if block ∈ call.blocks ∧ time < call.blockTime block + 360 then
          [⟨.block block, call.info.toMsgpack, call.blockTime block⟩] else [] := by
    intro call
    simp only [AnnounceCall.recordsAt, blockRecordsAt, vpkRecordsAt, append_nil]
    apply filter_shown
    rfl
  have withdrawn : (last.recordsAt (.block block)).filter (node.shown time) =
      if block ∈ last.blocks ∧ time < last.time + 360 then
        [⟨.block block, last.info.offline.toMsgpack, last.time⟩] else [] := by
    simp only [UnannounceCall.recordsAt, blockRecordsAt, vpkRecordsAt, append_nil]
    apply filter_shown
    rfl
  simp only [ClearedAt, announced, withdrawn, forall_last_iff, AnnounceCall.short,
    saysOffline_toMsgpack_iff]
  have offline : SaysOffline last.info.offline.toMsgpack :=
    (saysOffline_toMsgpack_iff last.short).mpr rfl
  simp only [offline, implies_true, true_and, not_and, not_lt]

theorem clearedAt_inferenceNodes_iff :
    node.ClearedAt calls last time .inferenceNodes ↔ ∀ call,
      (calls.filter fun call => time < call.inferenceTime + 360).getLast? = some call →
      call.info.state = -1 := by
  have announced : ∀ call : AnnounceCall,
      (call.recordsAt node.repository .inferenceNodes).filter (node.shown time) =
        if time < call.inferenceTime + 360 then
          [⟨.inferenceNodes, call.info.toMsgpack, call.inferenceTime⟩] else [] := by
    intro call
    by_cases valid : time < call.inferenceTime + 360 <;>
      simp [AnnounceCall.recordsAt, blockRecordsAt, vpkRecordsAt, shown, subkeyOf, valid]
  have untouched : (last.recordsAt .inferenceNodes).filter (node.shown time) =
      if False then [(⟨.inferenceNodes, [], 0⟩ : NodeRecord)] else [] := rfl
  simp only [ClearedAt, announced, untouched, forall_last_iff, AnnounceCall.short,
    saysOffline_toMsgpack_iff, false_imp_iff, true_and, not_false_eq_true, true_imp_iff]

theorem filter_vpkRecordsAt_eq_nil_iff {vpkInfo : Option VpkInfo} {written : ℚ} :
    (vpkRecordsAt vpkInfo written .vpkNodes).filter (node.shown time) = [] ↔
      (vpkInfo.isSome → written + 360 ≤ time) := by
  cases vpkInfo <;> simp [vpkRecordsAt, shown, subkeyOf]

theorem clearedAt_vpkNodes_iff :
    node.ClearedAt calls last time .vpkNodes ↔
      (∀ call ∈ calls, call.info.vpkInfo.isSome → call.vpkTime + 360 ≤ time) ∧
        (last.info.vpkInfo.isSome → last.time + 360 ≤ time) := by
  have online : ∀ {vpkInfo written}, ∀ record ∈ vpkRecordsAt vpkInfo written .vpkNodes,
      ¬ SaysOffline record.value := by
    intro vpkInfo written record member
    obtain ⟨vpk, _, rfl⟩ := mem_map.mp member
    exact not_saysOffline_map _
  have announced : ∀ call : AnnounceCall, call.recordsAt node.repository .vpkNodes =
      vpkRecordsAt call.info.vpkInfo call.vpkTime .vpkNodes := fun _ => rfl
  have repeated : last.recordsAt .vpkNodes =
      vpkRecordsAt last.info.vpkInfo last.time .vpkNodes := rfl
  rw [ClearedAt, forall_last_iff_nil, append_eq_nil_iff, flatMap_eq_nil_iff]
  · simp only [announced, repeated, filter_vpkRecordsAt_eq_nil_iff]
  · intro record member
    rcases mem_append.mp member with early | late
    · obtain ⟨call, _, early⟩ := mem_flatMap.mp early
      rw [announced] at early
      exact online record (mem_of_mem_filter early)
    · rw [repeated] at late
      exact online record (mem_of_mem_filter late)

theorem subkeyOf_models_eq_iff :
    node.subkeyOf .models = node.subkey ↔ node.dhtPrefix = node.peerId.toBase58 :=
  ⟨Value.write_string_injective, fun same => congrArg (fun text => (textValue text).write) same⟩

theorem clearedAt_models_iff :
    node.ClearedAt calls last time .models ↔
      (node.dhtPrefix = node.peerId.toBase58 →
        ∀ call ∈ calls, call.registryTime + 360 ≤ time) := by
  have announced : ∀ call : AnnounceCall,
      (call.recordsAt node.repository .models).filter (node.shown time) = [] ↔
        (node.dhtPrefix = node.peerId.toBase58 → call.registryTime + 360 ≤ time) := by
    intro call
    by_cases own : node.dhtPrefix = node.peerId.toBase58 <;>
      simp [AnnounceCall.recordsAt, blockRecordsAt, vpkRecordsAt, shown, subkeyOf_models_eq_iff,
        own]
  have untouched : (last.recordsAt .models).filter (node.shown time) = [] := rfl
  rw [ClearedAt, untouched, append_nil, forall_last_iff_nil, flatMap_eq_nil_iff]
  · simp only [announced]
    exact ⟨fun each own call member => each call member own,
      fun each call member own => each own call member⟩
  · intro record member
    obtain ⟨call, _, among⟩ := mem_flatMap.mp member
    obtain rfl := mem_singleton.mp (mem_of_mem_filter among)
    exact not_saysOffline_map _

theorem goneEverywhere_iff_clearedAt :
    node.GoneEverywhere calls last time ↔ ∀ key, node.ClearedAt calls last time key := by
  rw [goneEverywhere_iff_last]
  simp only [filter_lifetime]
  rfl

end AnnouncingNode

/-- **Shutdown.** Every store that received the announcements of a node and its `unannounce` shows
the node as offline exactly if nothing that `unannounce` does not overwrite is left: no storage
record, and no online record of the inference registry or of a block outside the last range. -/
theorem goneEverywhere_iff (node : AnnouncingNode) (calls : List AnnounceCall)
    (last : UnannounceCall) (time : ℚ) :
    node.GoneEverywhere calls last time ↔ node.Cleared calls last time := by
  rw [AnnouncingNode.goneEverywhere_iff_clearedAt]
  constructor
  · intro cleared
    have storage := AnnouncingNode.clearedAt_vpkNodes_iff.mp (cleared .vpkNodes)
    exact ⟨fun block => (AnnouncingNode.clearedAt_block_iff block).mp (cleared (.block block)),
      AnnouncingNode.clearedAt_inferenceNodes_iff.mp (cleared .inferenceNodes), storage.1,
      storage.2, AnnouncingNode.clearedAt_models_iff.mp (cleared .models)⟩
  · intro cleared key
    cases key with
    | block block => exact (AnnouncingNode.clearedAt_block_iff block).mpr (cleared.blocks block)
    | models => exact AnnouncingNode.clearedAt_models_iff.mpr cleared.models
    | inferenceNodes => exact AnnouncingNode.clearedAt_inferenceNodes_iff.mpr cleared.inference
    | vpkNodes =>
      exact AnnouncingNode.clearedAt_vpkNodes_iff.mpr ⟨cleared.vpk, cleared.lastVpk⟩

/-! ## A node that moves and shuts down -/

def movingNode : AnnouncingNode where
  peerId := .ofByte 9
  dhtPrefix := "llama"
  repository := "llama"
  sha1 := id
  collisionFree := fun _ _ same => Value.write_string_injective same

def storageInfo : VpkInfo := ⟨"both", 0, 0, "1", "n"⟩

def onlineInfo (startBlock endBlock : Int32) : DhtServerInfo where
  state := 2
  throughput := 0
  startBlock := startBlock
  endBlock := endBlock
  publicName := "n"
  version := "kwaai-0.3.15"
  torchDtype := "float16"
  usingRelay := false
  cacheTokensLeft := 100000
  trustAttestations := []
  vpkInfo := some storageInfo
  peerIdB58 := "n"

/-- The node serves block 0. -/
def firstCall : AnnounceCall :=
  ⟨2, 0, 1, onlineInfo 0 1, fun _ => 0, 0, 0, 0, by decide +kernel⟩

/-- It has moved to block 1. -/
def secondCall : AnnounceCall :=
  ⟨2, 1, 2, onlineInfo 1 2, fun _ => 300, 300, 300, 300, by decide +kernel⟩

def movingShutdown : UnannounceCall := ⟨onlineInfo 1 2, 310, by decide +kernel⟩

/-- **Left behind.** Block 1 is offline at once. The old record of block 0, the inference record
and the storage record stay. -/
theorem movingNode_not_goneEverywhere :
    ¬ movingNode.GoneEverywhere [firstCall, secondCall] movingShutdown 320 ∧
      movingNode.ClearedAt [firstCall, secondCall] movingShutdown 320 (.block 1) ∧
      ¬ movingNode.ClearedAt [firstCall, secondCall] movingShutdown 320 (.block 0) ∧
      ¬ movingNode.ClearedAt [firstCall, secondCall] movingShutdown 320 .inferenceNodes ∧
      ¬ movingNode.ClearedAt [firstCall, secondCall] movingShutdown 320 .vpkNodes := by
  have inference :
      ¬ movingNode.ClearedAt [firstCall, secondCall] movingShutdown 320 .inferenceNodes := by
    rw [AnnouncingNode.clearedAt_inferenceNodes_iff, filter_cons_of_pos (by decide +kernel),
      filter_cons_of_pos (by decide +kernel)]
    intro offline
    exact absurd (offline secondCall rfl) (by decide)
  refine ⟨fun gone => inference (AnnouncingNode.goneEverywhere_iff_clearedAt.mp gone _), ?_, ?_,
    inference, ?_⟩
  · rw [AnnouncingNode.clearedAt_block_iff]
    intro expired
    exact absurd (expired (by decide +kernel)) (by decide +kernel)
  · rw [AnnouncingNode.clearedAt_block_iff, filter_cons_of_pos (by decide +kernel),
      filter_cons_of_neg (by decide +kernel)]
    intro offline
    have elsewhere : 0 ∈ movingShutdown.blocks → movingShutdown.time + 360 ≤ 320 := by
      decide +kernel
    exact absurd (offline elsewhere firstCall rfl) (by decide)
  · rw [AnnouncingNode.clearedAt_vpkNodes_iff]
    intro expired
    exact absurd (expired.2 rfl) (by decide +kernel)

end KwaaiNet
