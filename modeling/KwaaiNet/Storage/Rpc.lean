import Mathlib
import KwaaiNet.Foundation.MachineNumber
import KwaaiNet.Storage.Concurrency

/-! # The storage RPC

`dispatch`, which serves the requests of peers one after another. An upload is admitted by an
estimate: its vectors count as long as the first of them, and the vectors already stored count
as long as the tenant's declared dimension. Longer vectors get in for less than they take.
`KwaaiNet.StorageNode.quotaSound_of_measured` says that the limits hold after every accepted
upload as long as no vector is longer than it counts.
-/

namespace KwaaiNet

open Foundation List

/-- `CreateTenantPayload`. -/
structure CreateTenantPayload where
  peerId : String
  capacityLimitMb : Option Int
  displayName : Option String
  vectorDimension : Option Nat

/-- `default_capacity`. -/
def defaultCapacity : Int := 1024

/-- `default_dimension`. -/
def defaultDimension : Nat := 384

/-- `StorageRequest`, by its operation. The tenant id is the one that parses, and a payload that
does not decode comes with the reason. -/
inductive StorageRequest where
  | undecodable (reason : String)
  | health
  | createTenant (payload : Except String CreateTenantPayload)
  | getTenant (tenant : Option TenantId)
  | listTenants
  | deleteTenant (tenant : Option TenantId)
  | uploadVectors (tenant : Option TenantId)
      (payload : Except String (List (DocId × Embedding)))
  | searchVectors (tenant : Option TenantId) (payload : Except String (Embedding × Nat))
  | deleteVectors (tenant : Option TenantId) (payload : Except String (List DocId))

/-- The errors of the responses, by their texts. -/
inductive StorageError where
  /-- "deserialise request: …" -/
  | deserialiseRequest (reason : String)
  /-- "payload: …" -/
  | payload (reason : String)
  /-- "missing tenant_id" -/
  | missingTenantId
  /-- "tenant not found" -/
  | tenantNotFound
  /-- "tenant quota exceeded: …/… MB used" -/
  | quotaExceeded (usedMb limitMb : Int)
  /-- "Eve storage full: only … MB available, … MB requested" -/
  | noRoom (availableMb requestedMb : Int)
  /-- "Eve storage full: …/… GB used" -/
  | storageFull (usedBytes : Int)

/-- `TenantInfo`. -/
structure TenantInfo where
  tenantId : TenantId
  peerId : String
  displayName : Option String
  capacityLimitMb : Int
  status : TenantStatus
  createdAt : String
  vectorDimension : UInt32

/-- `record_to_info`. -/
def recordToInfo (tenant : TenantId) (record : TenantRecord) : TenantInfo :=
  ⟨tenant, record.peerId, record.displayName, record.capacityLimitMb, record.status,
    record.createdAt, .ofNat record.vectorDimension⟩

/-- The payload of a successful response. -/
inductive StorageReply where
  | health (tenantCount totalVectors : Int)
  | tenant (info : TenantInfo)
  | tenants (list : List TenantInfo)
  | deleted
  | count (n : Nat)
  | results (list : List (DocId × UInt64))

abbrev StorageResponse := Except StorageError StorageReply

/-- The settings of a node that serves storage, and the search of its indices. -/
structure StorageNode where
  capacityGb : FloatValue
  search : TenantIndex → Embedding → Nat → List (DocId × UInt64)

/-- A request, with the id and the time that the creation of a tenant reads. -/
structure StorageArrival where
  request : StorageRequest
  fresh : TenantId
  now : String

namespace StorageDb

variable (db : StorageDb)

/-- `TenantManager::get`. -/
def getTenant (tenant : TenantId) : Option TenantInfo :=
  (db.tenants.lookup tenant).bind fun record =>
    if record.status = .deleted then none else some (recordToInfo tenant record)

/-- `TenantManager::list`: the table is read in the order of its keys. -/
def listTenants : List TenantInfo :=
  let rows := db.tenants.entries.mergeSort fun first second => first.1 ≤ second.1
  let active := rows.filter fun row => row.2.status ≠ .deleted
  (active.map fun row => recordToInfo row.1 row.2).mergeSort fun first second =>
    first.createdAt ≤ second.createdAt

def declaredBytes (index : TenantIndex) : Nat := index.liveCount * (4 * index.dimension + 24)

def countedBytes (tenant : TenantId) : Nat := (db.index? tenant).elim 0 declaredBytes

/-- `TenantManager::stats`, for the bytes. -/
def storageBytes (tenant : TenantId) : Int := wrap64 (db.countedBytes tenant)

def totalDeclaredBytes : Nat := ∑ tenant ∈ db.indices, db.countedBytes tenant

/-- `TenantManager::total_storage_bytes`. -/
def totalStorageBytes : Int := wrap64 db.totalDeclaredBytes

/-- `TenantManager::total_vectors`. -/
def totalVectors : Nat := ∑ tenant ∈ db.indices, ((db.index? tenant).elim 0 TenantIndex.liveCount)

/-- `TenantManager::create`. -/
def create (tenant : TenantId) (new : NewTenant) : StorageDb :=
  (db.insertTenant tenant new).insertIndex tenant new.vectorDimension

/-- `TenantManager::delete`. -/
def deleteTenant (tenant : TenantId) : Option StorageDb :=
  (db.deleteTenant? tenant).map fun after => after.removeIndex tenant

/-- What `VectorStore::upload` and `VectorStore::delete` return. -/
def callCount (index : TenantIndex) : VectorCall → Nat
  | .upload vectors => vectors.length
  | .delete ids => index.tombstonedCount ids

/-- `VectorStore::upload` and `VectorStore::delete`. -/
def writeCall (tenant : TenantId) (call : VectorCall) : StorageDb × StorageResponse :=
  if call.changes = [] then (db, .ok (.count 0))
  else
    match db.index? tenant with
    | some index =>
      ((db.writeVectors tenant call).updateIndex tenant call,
        .ok (.count (callCount index call)))
    | none => (db, .error .tenantNotFound)

/-- `VectorStore::search`. -/
def searchVectors (node : StorageNode) (tenant : TenantId) (query : Embedding) (topK : Nat) :
    StorageResponse :=
  match db.index? tenant with
  | some index => .ok (.results (node.search index query topK))
  | none => .error .tenantNotFound

end StorageDb

def incomingBytes (vectors : List (DocId × Embedding)) : Nat :=
  vectors.length * (4 * (vectors.head?.elim 384 fun entry => entry.2.length) + 24)

namespace StorageNode

variable (node : StorageNode) (db : StorageDb)

def eveCapacityBytes : Int := (node.capacityGb.scale (2 ^ 30)).toI64

/-- The quota of a tenant admits an upload. The operations wrap, so the remainder is taken once. -/
def admitsTenant (info : TenantInfo) (vectors : List (DocId × Embedding)) : Bool :=
  info.capacityLimitMb ≤ 0 ||
    wrap64 (db.storageBytes info.tenantId + incomingBytes vectors) ≤
      wrap64 (info.capacityLimitMb * 1024 * 1024)

def admitsNode (vectors : List (DocId × Embedding)) : Bool :=
  node.eveCapacityBytes ≤ 0 ||
    wrap64 (db.totalStorageBytes + incomingBytes vectors) ≤ node.eveCapacityBytes

/-- `StorageOp::CreateTenant`. -/
def createTenant (fresh : TenantId) (now : String) (input : CreateTenantPayload) :
    StorageDb × StorageResponse :=
  let capacityLimitMb := input.capacityLimitMb.getD defaultCapacity
  let usedBytes := db.totalStorageBytes
  let requestedBytes := wrap64 (capacityLimitMb * 1024 * 1024)
  if 0 < node.eveCapacityBytes ∧ node.eveCapacityBytes < wrap64 (usedBytes + requestedBytes) then
    let availableMb := max (wrap64 (node.eveCapacityBytes - usedBytes)) 0 / (1024 * 1024)
    (db, .error (.noRoom availableMb capacityLimitMb))
  else
    let new : NewTenant := ⟨input.peerId, capacityLimitMb, input.displayName,
      input.vectorDimension.getD defaultDimension, now⟩
    (db.create fresh new, .ok (.tenant (recordToInfo fresh new.record)))

/-- `StorageOp::UploadVectors`, for a tenant id that parses and a payload that decodes. -/
def uploadVectors (tenant : TenantId) (vectors : List (DocId × Embedding)) :
    StorageDb × StorageResponse :=
  match db.getTenant tenant with
  | none => (db, .error .tenantNotFound)
  | some info =>
    if admitsTenant db info vectors then
      if node.admitsNode db vectors then db.writeCall tenant (.upload vectors)
      else (db, .error (.storageFull db.totalStorageBytes))
    else
      let usedBytes := wrap64 (db.storageBytes tenant + incomingBytes vectors)
      (db, .error (.quotaExceeded (usedBytes.tdiv (1024 * 1024)) info.capacityLimitMb))

def withTenant (tenant : Option TenantId) (act : TenantId → StorageDb × StorageResponse) :
    StorageDb × StorageResponse :=
  match tenant with
  | some tenant => act tenant
  | none => (db, .error .missingTenantId)

def withPayload {α : Type} (payload : Except String α) (act : α → StorageDb × StorageResponse) :
    StorageDb × StorageResponse :=
  match payload with
  | .ok input => act input
  | .error reason => (db, .error (.payload reason))

/-- `dispatch`. -/
def dispatch (arrival : StorageArrival) : StorageDb × StorageResponse :=
  match arrival.request with
  | .undecodable reason => (db, .error (.deserialiseRequest reason))
  | .health => (db, .ok (.health db.indices.card db.totalVectors))
  | .createTenant payload =>
    withPayload db payload (node.createTenant db arrival.fresh arrival.now)
  | .getTenant tenant => withTenant db tenant fun tenant =>
    (db, (db.getTenant tenant).elim (.error .tenantNotFound) fun info => .ok (.tenant info))
  | .listTenants => (db, .ok (.tenants db.listTenants))
  | .deleteTenant tenant => withTenant db tenant fun tenant =>
    match db.deleteTenant tenant with
    | some after => (after, .ok .deleted)
    | none => (db, .error .tenantNotFound)
  | .uploadVectors tenant payload => withTenant db tenant fun tenant =>
    withPayload db payload (node.uploadVectors db tenant)
  | .searchVectors tenant payload => withTenant db tenant fun tenant =>
    withPayload db payload fun input => (db, db.searchVectors node tenant input.1 input.2)
  | .deleteVectors tenant payload => withTenant db tenant fun tenant =>
    withPayload db payload fun ids => db.writeCall tenant (.delete ids)

/-- The store after a request. The id drawn for a tenant is a new one. -/
def step (db : StorageDb) (arrival : StorageArrival) : StorageDb :=
  if arrival.fresh ∈ db.tenants then db else (node.dispatch db arrival).1

/-- The store after a sequence of requests, from an empty one. -/
def serve (arrivals : List StorageArrival) : StorageDb := arrivals.foldl node.step (.openDb ∅ ∅)

end StorageNode

namespace StorageDb

variable (db : StorageDb)

def rowBytes (embedding : Embedding) : Nat := 4 * embedding.length + 24

def tenantBytes (tenant : TenantId) : Nat :=
  Table.weight (fun key embedding => if key.1 = tenant then rowBytes embedding else 0) db.vectors

def totalBytes : Nat := Table.weight (fun _ embedding => rowBytes embedding) db.vectors

end StorageDb

namespace StorageNode

variable (node : StorageNode) (db : StorageDb)

/-- **Quota soundness** of a request: after an accepted upload, the bytes stored for the tenant
are within its limit, and the bytes stored for all tenants are within the capacity of the node. -/
def QuotaSound (arrival : StorageArrival) : Prop :=
  ∀ tenant vectors reply, arrival.request = .uploadVectors (some tenant) (.ok vectors) →
    (node.dispatch db arrival).2 = .ok reply →
    (∀ record, (node.dispatch db arrival).1.tenants.lookup tenant = some record →
      0 < record.capacityLimitMb →
      ((node.dispatch db arrival).1.tenantBytes tenant : Int) ≤ record.capacityLimitMb * 2 ^ 20) ∧
    ∀ capacity, node.capacityGb = .finite capacity → 0 < capacity →
      ((node.dispatch db arrival).1.totalBytes : ℚ) ≤ capacity * 2 ^ 30

/-- An upload is counted for what it takes: no vector is longer than the declared dimension of
the tenant or than the first vector of the upload, and the counts stay below `2 ^ 63`. -/
def Measured (arrival : StorageArrival) : Prop :=
  ∀ tenant vectors, arrival.request = .uploadVectors (some tenant) (.ok vectors) →
    (∀ entry ∈ vectors, (∀ index, db.index? tenant = some index →
        entry.2.length ≤ index.dimension) ∧
      ∀ first, vectors.head? = some first → entry.2.length ≤ first.2.length) ∧
    db.totalDeclaredBytes + incomingBytes vectors < 2 ^ 63

end StorageNode

/-! ### Calls one after another -/

namespace StorageSystem

variable {db : StorageDb}

theorem Accounted.alone (accounted : Accounted ⟨db, []⟩) (call : StorageCall) :
    Accounted ⟨db, [call.start]⟩ := accounted.arrive call

theorem Accounted.next {task : StorageTask} {rest : List StorageTask} {after : StorageDb}
    (accounted : Accounted ⟨db, [task]⟩) (fresh : TenantId)
    (drawn : ∀ new, task = .insertTenant new → fresh ∉ db.tenants) (inOrder : task.InOrder db [])
    (executed : task.exec fresh db = (after, rest)) : Accounted ⟨after, rest⟩ := by
  have advanced := accounted.advance (n := 0) rfl fresh drawn inOrder
  simp only [executed] at advanced
  exact advanced

theorem Accounted.create (accounted : Accounted ⟨db, []⟩) {fresh : TenantId}
    (drawn : fresh ∉ db.tenants) (new : NewTenant) : Accounted ⟨db.create fresh new, []⟩ := by
  have inserted := (accounted.alone (.create new)).next fresh (fun _ _ => drawn) trivial rfl
  exact inserted.next fresh (by simp) trivial rfl

theorem Accounted.deleteTenant (accounted : Accounted ⟨db, []⟩) {tenant : TenantId}
    {after : StorageDb} (removed : db.deleteTenant? tenant = some after) :
    Accounted ⟨after.removeIndex tenant, []⟩ := by
  have committed :
      (StorageTask.deleteTenant tenant).exec 0 db = (after, [.removeIndex tenant]) := by
    rw [StorageTask.exec, removed]
  have marked := (accounted.alone (.delete tenant)).next 0 (by simp [StorageCall.start]) trivial
    committed
  exact marked.next 0 (by simp) trivial rfl

theorem Accounted.vectors (accounted : Accounted ⟨db, []⟩) {tenant : TenantId} {call : VectorCall}
    (filled : call.changes ≠ []) (registered : tenant ∈ db.indices)
    (inOrder : (StorageTask.writeVectors tenant call).InOrder db []) :
    Accounted ⟨(db.writeVectors tenant call).updateIndex tenant call, []⟩ := by
  have found : (StorageTask.lookUp tenant call).exec 0 db = (db, [.writeVectors tenant call]) := by
    rw [StorageTask.exec, if_neg filled, if_pos registered]
  have looked := (accounted.alone (.vectors tenant call)).next 0 (by simp [StorageCall.start])
    trivial found
  have written := looked.next 0 (by simp) inOrder rfl
  exact written.next 0 (by simp) (fun _ member => absurd member not_mem_nil) rfl

end StorageSystem

/-! ### What the store counts and what it takes -/

namespace StorageDb

variable {db : StorageDb}

/-- No stored vector is longer than the declared dimension of its tenant. -/
def Bounded (db : StorageDb) : Prop :=
  ∀ tenant index, db.heap.lookup tenant = some index →
    ∀ doc embedding, index.live doc = some embedding → embedding.length ≤ index.dimension

theorem live_of_row {tenant : TenantId} (ledger : Ledger (db.view tenant) []) {doc : DocId}
    {embedding : Embedding} (row : db.vectors.lookup (tenant, doc) = some embedding) :
    ∃ index, tenant ∈ db.indices ∧ db.heap.lookup tenant = some index ∧
      index.live doc = some embedding := by
  have written : (db.view tenant).rows ≠ fun _ => none := by
    intro empty
    have absent : db.vectors.lookup (tenant, doc) = none := congrFun empty doc
    rw [row] at absent
    cases absent
  obtain ⟨index, indexed⟩ : ∃ index, (db.view tenant).index = some index :=
    Option.ne_none_iff_exists'.mp fun missing => written (ledger.unwritten missing)
  cases held : (db.view tenant).record with
  | none =>
    have made := ledger.made
    rw [indexed, held] at made
    simp at made
  | some record =>
    cases status : record.status with
    | active =>
      obtain ⟨registered, agree⟩ := ledger.active record index held status indexed
      exact ⟨index, registered, indexed, (congrFun agree doc).trans row⟩
    | deleted => exact absurd (ledger.deleted record held status).1 written

theorem mem_revMap_of_live {index : TenantIndex} {doc : DocId} {embedding : Embedding}
    (live : index.live doc = some embedding) : doc ∈ index.revMap := by
  by_contra absent
  rw [TenantIndex.live, if_neg absent] at live
  cases live

theorem index?_of_key {tenant : TenantId} (ledger : Ledger (db.view tenant) [])
    {key : TenantId × DocId} (member : key ∈ db.keysOf tenant) :
    ∃ index, db.index? tenant = some index ∧ key.2 ∈ index.revMap := by
  obtain ⟨present, rfl⟩ := (db.mem_keysOf tenant key).mp member
  obtain ⟨embedding, row⟩ := Option.isSome_iff_exists.mp (AList.lookup_isSome.mpr present)
  obtain ⟨index, registered, held, live⟩ := live_of_row ledger row
  refine ⟨index, ?_, mem_revMap_of_live live⟩
  rw [index?, if_pos registered, held]

theorem length_keysOf_le {tenant : TenantId} (ledger : Ledger (db.view tenant) [])
    {index : TenantIndex} (indexed : db.index? tenant = some index) :
    (db.keysOf tenant).length ≤ index.liveCount := by
  have distinct : ((db.keysOf tenant).map Prod.snd).Nodup := by
    apply List.Nodup.map_on _ (db.vectors.keys_nodup.filter _)
    intro first here second there same
    have firstTenant := ((db.mem_keysOf tenant first).mp here).2
    have secondTenant := ((db.mem_keysOf tenant second).mp there).2
    exact Prod.ext (firstTenant.trans secondTenant.symm) same
  have live : (db.keysOf tenant).map Prod.snd ⊆ index.revMap.keys := by
    intro doc member
    obtain ⟨key, present, rfl⟩ := mem_map.mp member
    obtain ⟨other, held, alive⟩ := index?_of_key ledger present
    obtain rfl := Option.some.inj (indexed.symm.trans held)
    exact AList.mem_keys.mp alive
  have fewer := (subperm_of_subset distinct live).length_le
  rwa [length_map] at fewer

theorem tenantBytes_le {tenant : TenantId} (ledger : Ledger (db.view tenant) [])
    (bounded : db.Bounded) : db.tenantBytes tenant ≤ db.countedBytes tenant := by
  rw [countedBytes]
  cases indexed : db.index? tenant with
  | none =>
    have rowless : db.keysOf tenant = [] := by
      apply eq_nil_iff_forall_not_mem.mpr
      intro key member
      obtain ⟨index, held, _⟩ := index?_of_key ledger member
      rw [indexed] at held
      cases held
    apply (Table.weight_le_card_mul (fun _ => rowBytes) db.vectors (b := 0) ?_).trans
    · rw [Nat.mul_zero]
      exact le_rfl
    · intro row member same
      have key : row.1 ∈ db.keysOf tenant :=
        (db.mem_keysOf tenant row.1).mpr ⟨mem_map_of_mem member, same⟩
      rw [rowless] at key
      cases key
  | some index =>
    apply (Table.weight_le_card_mul (fun _ => rowBytes) db.vectors
      (b := 4 * index.dimension + 24) ?_).trans
    · exact Nat.mul_le_mul_right _ (length_keysOf_le ledger indexed)
    · rintro ⟨⟨_, doc⟩, embedding⟩ member rfl
      obtain ⟨other, registered, held, live⟩ :=
        live_of_row ledger (AList.mem_lookup_iff.mpr member)
      rw [index?, if_pos registered, held] at indexed
      obtain rfl := Option.some.inj indexed
      have short := bounded _ _ held doc embedding live
      exact Nat.add_le_add_right (Nat.mul_le_mul_left 4 short) 24

/-- What is stored for all tenants is at most what they count for. -/
theorem totalBytes_le (accounted : StorageSystem.Accounted ⟨db, []⟩) (bounded : db.Bounded) :
    db.totalBytes ≤ db.totalDeclaredBytes := by
  have covered : ∀ key ∈ db.vectors, key.1 ∈ db.indices := by
    intro key present
    obtain ⟨embedding, row⟩ := Option.isSome_iff_exists.mp (AList.lookup_isSome.mpr present)
    obtain ⟨_, registered, _⟩ := live_of_row (accounted key.1) row
    exact registered
  rw [totalBytes, Table.weight_eq_sum _ Prod.fst db.indices db.vectors covered]
  exact Finset.sum_le_sum fun tenant _ => tenantBytes_le (accounted tenant) bounded

theorem countedBytes_le (tenant : TenantId) : db.countedBytes tenant ≤ db.totalDeclaredBytes := by
  by_cases registered : tenant ∈ db.indices
  · exact Finset.single_le_sum (f := db.countedBytes) (fun _ _ => Nat.zero_le _) registered
  · rw [countedBytes, index?, if_neg registered]
    exact Nat.zero_le _

def uploadBytes (vectors : List (DocId × Embedding)) : Nat :=
  (vectors.map fun entry => rowBytes entry.2).sum

theorem uploadBytes_le {vectors : List (DocId × Embedding)}
    (short : ∀ entry ∈ vectors, ∀ first, vectors.head? = some first →
      entry.2.length ≤ first.2.length) : uploadBytes vectors ≤ incomingBytes vectors := by
  cases vectors with
  | nil => exact le_rfl
  | cons first rest =>
    have each : ∀ bytes ∈ ((first :: rest).map fun entry => rowBytes entry.2),
        bytes ≤ 4 * first.2.length + 24 := by
      intro bytes member
      obtain ⟨entry, present, rfl⟩ := mem_map.mp member
      have := short entry present first rfl
      rw [rowBytes]
      omega
    have total := sum_le_card_nsmul _ _ each
    rw [length_map] at total
    exact total

theorem tenantBytes_writeVectors_le (tenant : TenantId) (vectors : List (DocId × Embedding)) :
    (db.writeVectors tenant (.upload vectors)).tenantBytes tenant ≤
      db.tenantBytes tenant + uploadBytes vectors := by
  refine (Table.weight_putAll_le _ db.vectors _).trans (Nat.add_le_add_left (le_of_eq ?_) _)
  simp [VectorCall.changes, Table.changeWeight, uploadBytes, Function.comp_def]

theorem totalBytes_writeVectors_le (tenant : TenantId) (vectors : List (DocId × Embedding)) :
    (db.writeVectors tenant (.upload vectors)).totalBytes ≤
      db.totalBytes + uploadBytes vectors := by
  refine (Table.weight_putAll_le _ db.vectors _).trans (Nat.add_le_add_left (le_of_eq ?_) _)
  simp [VectorCall.changes, Table.changeWeight, uploadBytes, Function.comp_def]

end StorageDb

/-! ### Requests -/

/-- What a request can do to the store. -/
inductive StorageEffect (node : StorageNode) (db : StorageDb) (arrival : StorageArrival) :
    StorageDb → Prop
  | nothing : StorageEffect node db arrival db
  | created (new : NewTenant) : StorageEffect node db arrival (db.create arrival.fresh new)
  | deleted {tenant : TenantId} {after : StorageDb}
      (removed : db.deleteTenant? tenant = some after) :
      StorageEffect node db arrival (after.removeIndex tenant)
  | uploaded {tenant : TenantId} {vectors : List (DocId × Embedding)}
      (asked : arrival.request = .uploadVectors (some tenant) (.ok vectors))
      (active : (db.getTenant tenant).isSome) (filled : (VectorCall.upload vectors).changes ≠ [])
      (registered : tenant ∈ db.indices) :
      StorageEffect node db arrival
        ((db.writeVectors tenant (.upload vectors)).updateIndex tenant (.upload vectors))
  | erased {tenant : TenantId} {ids : List DocId} (filled : (VectorCall.delete ids).changes ≠ [])
      (registered : tenant ∈ db.indices) :
      StorageEffect node db arrival
        ((db.writeVectors tenant (.delete ids)).updateIndex tenant (.delete ids))

namespace StorageDb

variable (db : StorageDb)

theorem mem_indices_of_index? {tenant : TenantId} {index : TenantIndex}
    (indexed : db.index? tenant = some index) :
    tenant ∈ db.indices ∧ db.heap.lookup tenant = some index := by
  rw [index?] at indexed
  split_ifs at indexed with registered
  exact ⟨registered, indexed⟩

theorem writeCall_cases (tenant : TenantId) (call : VectorCall) :
    (db.writeCall tenant call).1 = db ∨ call.changes ≠ [] ∧ tenant ∈ db.indices ∧
      (db.writeCall tenant call).1 = (db.writeVectors tenant call).updateIndex tenant call := by
  rw [writeCall]
  split_ifs with empty
  · exact .inl rfl
  · cases indexed : db.index? tenant with
    | none => exact .inl rfl
    | some index => exact .inr ⟨empty, (db.mem_indices_of_index? indexed).1, rfl⟩

end StorageDb

namespace StorageNode

variable (node : StorageNode) (db : StorageDb)

theorem uploadVectors_cases (tenant : TenantId) (vectors : List (DocId × Embedding)) :
    (node.uploadVectors db tenant vectors).1 = db ∨
      (db.getTenant tenant).isSome ∧ (VectorCall.upload vectors).changes ≠ [] ∧
        tenant ∈ db.indices ∧ (node.uploadVectors db tenant vectors).1 =
          (db.writeVectors tenant (.upload vectors)).updateIndex tenant (.upload vectors) := by
  rw [uploadVectors]
  cases db.getTenant tenant with
  | none => exact .inl rfl
  | some info =>
    dsimp only
    split_ifs
    · exact (db.writeCall_cases tenant (.upload vectors)).imp_right fun changed => ⟨rfl, changed⟩
    · exact .inl rfl
    · exact .inl rfl

theorem dispatch_uploadVectors {arrival : StorageArrival} {tenant : TenantId}
    {vectors : List (DocId × Embedding)}
    (asked : arrival.request = .uploadVectors (some tenant) (.ok vectors)) :
    node.dispatch db arrival = node.uploadVectors db tenant vectors := by
  rw [dispatch, asked]
  rfl

theorem dispatch_effect (arrival : StorageArrival) :
    StorageEffect node db arrival (node.dispatch db arrival).1 := by
  obtain ⟨request, fresh, now⟩ := arrival
  cases request with
  | undecodable | health | listTenants => exact .nothing
  | createTenant payload =>
    cases payload with
    | error reason => exact .nothing
    | ok input =>
      simp only [dispatch, withPayload, createTenant]
      split_ifs
      · exact .nothing
      · exact .created _
  | getTenant tenant => cases tenant <;> exact .nothing
  | deleteTenant tenant =>
    cases tenant with
    | none => exact .nothing
    | some tenant =>
      simp only [dispatch, withTenant, StorageDb.deleteTenant]
      cases removed : db.deleteTenant? tenant with
      | none => exact .nothing
      | some after => exact .deleted removed
  | uploadVectors tenant payload =>
    cases tenant with
    | none => exact .nothing
    | some tenant =>
      cases payload with
      | error reason => exact .nothing
      | ok vectors =>
        simp only [dispatch, withTenant, withPayload]
        rcases node.uploadVectors_cases db tenant vectors with
          same | ⟨active, filled, registered, changed⟩
        · rw [same]
          exact .nothing
        · rw [changed]
          exact .uploaded rfl active filled registered
  | searchVectors tenant payload => cases tenant <;> cases payload <;> exact .nothing
  | deleteVectors tenant payload =>
    cases tenant with
    | none => exact .nothing
    | some tenant =>
      cases payload with
      | error reason => exact .nothing
      | ok ids =>
        simp only [dispatch, withTenant, withPayload]
        rcases db.writeCall_cases tenant (.delete ids) with
          same | ⟨filled, registered, changed⟩
        · rw [same]
          exact .nothing
        · rw [changed]
          exact .erased filled registered

end StorageNode

namespace StorageDb

variable {db : StorageDb}

theorem Bounded.create (bounded : db.Bounded) (fresh : TenantId) (new : NewTenant) :
    (db.create fresh new).Bounded := by
  intro tenant index held doc embedding live
  simp only [StorageDb.create, insertIndex, insertTenant] at held
  by_cases same : tenant = fresh
  · subst same
    rw [AList.lookup_insert] at held
    obtain rfl := Option.some.inj held
    cases live
  · rw [AList.lookup_insert_ne same] at held
    exact bounded tenant index held doc embedding live

theorem Bounded.removeIndex {tenant : TenantId} {after : StorageDb} (bounded : db.Bounded)
    (removed : db.deleteTenant? tenant = some after) : (after.removeIndex tenant).Bounded := by
  obtain ⟨_, _, _, marked, frame⟩ := deleteTenant?_eq_some removed
  intro other index held
  have kept : (after.view other).index = (db.view other).index := by
    by_cases same : other = tenant
    · subst same
      rw [marked]
    · rw [frame other same]
  exact bounded other index (kept.symm.trans held)

theorem Bounded.call {tenant : TenantId} {call : VectorCall} (bounded : db.Bounded)
    (short : ∀ index, db.heap.lookup tenant = some index → ∀ doc embedding,
      (doc, some embedding) ∈ call.changes → embedding.length ≤ index.dimension) :
    ((db.writeVectors tenant call).updateIndex tenant call).Bounded := by
  have heap : (db.writeVectors tenant call).heap = db.heap := rfl
  rw [updateIndex, heap]
  cases held : db.heap.lookup tenant with
  | none => exact bounded
  | some index =>
    intro other changed found doc embedding live
    dsimp only at found
    by_cases same : other = tenant
    · subst same
      rw [AList.lookup_insert] at found
      obtain rfl := Option.some.inj found
      rw [index.live_putAll] at live
      rw [index.dimension_putAll]
      rcases overlay_eq_some live with put | stood
      · exact short index held doc embedding put
      · exact bounded _ index held doc embedding stood
    · rw [AList.lookup_insert_ne same] at found
      exact bounded other changed found doc embedding live

theorem status_of_getTenant {tenant : TenantId} {info : TenantInfo}
    (active : db.getTenant tenant = some info) :
    ∃ record, db.tenants.lookup tenant = some record ∧ record.status ≠ .deleted ∧
      info = recordToInfo tenant record := by
  obtain ⟨record, held, shown⟩ := Option.bind_eq_some_iff.mp active
  split_ifs at shown with gone
  exact ⟨record, held, gone, (Option.some.inj shown).symm⟩

end StorageDb

namespace StorageNode

variable {node : StorageNode} {db : StorageDb}

open StorageSystem (Accounted)

/-- What measured requests keep: the accounts of the tenants, and no vector longer than its
tenant declares. -/
structure Served (db : StorageDb) : Prop where
  accounted : Accounted ⟨db, []⟩
  bounded : db.Bounded

theorem served_empty : Served (.openDb ∅ ∅) := by
  refine ⟨StorageSystem.accounted_openDb nofun, ?_⟩
  intro tenant index held
  cases held

theorem Served.step (served : Served db) (arrival : StorageArrival)
    (measured : Measured db arrival) : Served (node.step db arrival) := by
  rw [StorageNode.step]
  split_ifs with drawn
  · exact served
  · have effect := node.dispatch_effect db arrival
    generalize (node.dispatch db arrival).1 = after at effect ⊢
    cases effect with
    | nothing => exact served
    | created new => exact ⟨served.accounted.create drawn new, served.bounded.create _ new⟩
    | deleted removed =>
      exact ⟨served.accounted.deleteTenant removed, served.bounded.removeIndex removed⟩
    | uploaded asked active filled registered =>
      obtain ⟨info, found⟩ := Option.isSome_iff_exists.mp active
      obtain ⟨record, held, alive, _⟩ := StorageDb.status_of_getTenant found
      refine ⟨served.accounted.vectors filled registered ?_, served.bounded.call ?_⟩
      · intro other same
        rwa [Option.some.inj (same.symm.trans held)]
      · intro index indexed doc embedding member
        obtain ⟨entry, present, same⟩ := mem_map.mp member
        cases same
        refine ((measured _ _ asked).1 entry present).1 index ?_
        rw [StorageDb.index?, if_pos registered, indexed]
    | erased filled registered =>
      refine ⟨served.accounted.vectors filled registered trivial, served.bounded.call ?_⟩
      intro index indexed doc embedding member
      obtain ⟨_, _, same⟩ := mem_map.mp member
      cases same

theorem served_serve {arrivals : List StorageArrival}
    (measured : Meets node.step Measured (.openDb ∅ ∅) arrivals) : Served (node.serve arrivals) :=
  (run_of_meets measured).invariant
    (fun _ arrival _ served taken => taken.2 ▸ served.step arrival taken.1) served_empty

theorem uploadVectors_ok {tenant : TenantId} {vectors : List (DocId × Embedding)}
    {reply : StorageReply} (accepted : (node.uploadVectors db tenant vectors).2 = .ok reply) :
    ∃ info, db.getTenant tenant = some info ∧ admitsTenant db info vectors ∧
      node.admitsNode db vectors ∧
      (node.uploadVectors db tenant vectors).1 = (db.writeCall tenant (.upload vectors)).1 := by
  rw [uploadVectors] at accepted ⊢
  cases found : db.getTenant tenant with
  | none =>
    rw [found] at accepted
    cases accepted
  | some info =>
    rw [found] at accepted
    dsimp only at accepted ⊢
    by_cases tenantAdmits : admitsTenant db info vectors
    · by_cases nodeAdmits : node.admitsNode db vectors
      · rw [if_pos tenantAdmits, if_pos nodeAdmits]
        exact ⟨info, rfl, tenantAdmits, nodeAdmits, rfl⟩
      · rw [if_pos tenantAdmits, if_neg nodeAdmits] at accepted
        cases accepted
    · rw [if_neg tenantAdmits] at accepted
      cases accepted

end StorageNode

namespace StorageDb

variable {db : StorageDb}

theorem vectors_updateIndex (tenant : TenantId) (call : VectorCall) :
    (db.updateIndex tenant call).vectors = db.vectors := by
  rw [updateIndex]
  cases db.heap.lookup tenant <;> rfl

theorem tenants_updateIndex (tenant : TenantId) (call : VectorCall) :
    (db.updateIndex tenant call).tenants = db.tenants := by
  rw [updateIndex]
  cases db.heap.lookup tenant <;> rfl

theorem writeCall_upload (tenant : TenantId) (vectors : List (DocId × Embedding)) :
    (db.writeCall tenant (.upload vectors)).1.tenants = db.tenants ∧
      (db.writeCall tenant (.upload vectors)).1.tenantBytes tenant ≤
        db.tenantBytes tenant + uploadBytes vectors ∧
      (db.writeCall tenant (.upload vectors)).1.totalBytes ≤
        db.totalBytes + uploadBytes vectors := by
  rcases db.writeCall_cases tenant (.upload vectors) with same | ⟨_, _, changed⟩
  · rw [same]
    exact ⟨rfl, Nat.le_add_right _ _, Nat.le_add_right _ _⟩
  · rw [changed, tenants_updateIndex, tenantBytes, totalBytes, vectors_updateIndex]
    exact ⟨rfl, tenantBytes_writeVectors_le tenant vectors,
      totalBytes_writeVectors_le tenant vectors⟩

end StorageDb

namespace StorageNode

variable {node : StorageNode} {db : StorageDb}

theorem admitsTenant_le {info : TenantInfo} {vectors : List (DocId × Embedding)}
    (admits : admitsTenant db info vectors) (limited : 0 < info.capacityLimitMb)
    (small : db.totalDeclaredBytes + incomingBytes vectors < 2 ^ 63) :
    (db.countedBytes info.tenantId + incomingBytes vectors : Int) ≤
      info.capacityLimitMb * 2 ^ 20 := by
  have counted := db.countedBytes_le info.tenantId
  rw [admitsTenant, Bool.or_eq_true, decide_eq_true_iff, decide_eq_true_iff,
    StorageDb.storageBytes] at admits
  have within := admits.resolve_left (by omega)
  rw [wrap64_add (by omega)] at within
  have limit : wrap64 (info.capacityLimitMb * 1024 * 1024) ≤ info.capacityLimitMb * 1024 * 1024 :=
    wrap64_le (by omega)
  omega

theorem admitsNode_le {vectors : List (DocId × Embedding)} {capacity : ℚ}
    (admits : node.admitsNode db vectors) (finite : node.capacityGb = .finite capacity)
    (sizable : 1 ≤ capacity * 2 ^ 30)
    (small : db.totalDeclaredBytes + incomingBytes vectors < 2 ^ 63) :
    (db.totalDeclaredBytes + incomingBytes vectors : ℚ) ≤ capacity * 2 ^ 30 := by
  have bytes : node.eveCapacityBytes = (FloatValue.finite (capacity * 2 ^ 30)).toI64 := by
    rw [eveCapacityBytes, finite, FloatValue.scale]
  have positive := FloatValue.toI64_pos sizable
  rw [admitsNode, Bool.or_eq_true, decide_eq_true_iff, decide_eq_true_iff, bytes,
    StorageDb.totalStorageBytes] at admits
  have within := admits.resolve_left (by omega)
  rw [wrap64_add small] at within
  calc (db.totalDeclaredBytes + incomingBytes vectors : ℚ)
      = ((db.totalDeclaredBytes + incomingBytes vectors : Int) : ℚ) := by push_cast; rfl
    _ ≤ ((FloatValue.finite (capacity * 2 ^ 30)).toI64 : ℚ) := Int.cast_le.mpr within
    _ ≤ capacity * 2 ^ 30 := FloatValue.toI64_le (zero_le_one.trans sizable)

theorem Served.quotaSound (served : Served db) {arrival : StorageArrival}
    (measured : Measured db arrival)
    (sizable : ∀ capacity, node.capacityGb = .finite capacity → 0 < capacity →
      1 ≤ capacity * 2 ^ 30) : node.QuotaSound db arrival := by
  intro tenant vectors reply asked accepted
  obtain ⟨lengths, small⟩ := measured tenant vectors asked
  rw [dispatch_uploadVectors node db asked] at accepted ⊢
  obtain ⟨info, found, tenantAdmits, nodeAdmits, stored⟩ := uploadVectors_ok accepted
  obtain ⟨kept, forTenant, forAll⟩ := db.writeCall_upload tenant vectors
  have incoming := StorageDb.uploadBytes_le fun entry member => (lengths entry member).2
  have counted : db.tenantBytes tenant ≤ db.countedBytes tenant :=
    StorageDb.tenantBytes_le (served.accounted tenant) served.bounded
  have total := StorageDb.totalBytes_le served.accounted served.bounded
  rw [stored]
  constructor
  · intro record held limited
    obtain ⟨active, same, _, rfl⟩ := StorageDb.status_of_getTenant found
    rw [kept, same] at held
    obtain rfl := Option.some.inj held
    have within := admitsTenant_le tenantAdmits limited small
    have owner : (recordToInfo tenant active).tenantId = tenant := rfl
    have limit : (recordToInfo tenant active).capacityLimitMb = active.capacityLimitMb := rfl
    rw [owner, limit] at within
    omega
  · intro capacity finite positive
    have within := admitsNode_le nodeAdmits finite (sizable capacity finite positive) small
    refine le_trans ?_ within
    exact_mod_cast forAll.trans (Nat.add_le_add total incoming)

def tenGigabytes : StorageNode := ⟨.finite 10, fun _ _ _ => []⟩

def smallTenant : NewTenant := ⟨"bob", 1, none, 2, "2026-01-01T00:00:00+00:00"⟩

/-- A peer creates that tenant. -/
def createSmall : StorageArrival :=
  ⟨.createTenant (.ok ⟨"bob", some 1, none, some 2⟩), 1, smallTenant.createdAt⟩

def uploadTo (vectors : List (DocId × Embedding)) : StorageArrival :=
  ⟨.uploadVectors (some 1) (.ok vectors), 2, smallTenant.createdAt⟩

theorem serve_createSmall :
    tenGigabytes.serve [createSmall] = (StorageDb.openDb ∅ ∅).create 1 smallTenant := by
  have room : ¬ (0 < tenGigabytes.eveCapacityBytes ∧ tenGigabytes.eveCapacityBytes <
      wrap64 ((StorageDb.openDb ∅ ∅).totalStorageBytes + wrap64 (1 * 1024 * 1024))) := by
    decide +kernel
  have served : tenGigabytes.serve [createSmall] =
      (tenGigabytes.createTenant (.openDb ∅ ∅) 1 smallTenant.createdAt
        ⟨"bob", some 1, none, some 2⟩).1 := rfl
  rw [served, createTenant]
  simp only [Option.getD_some]
  rw [if_neg room]
  rfl

theorem dispatch_uneven (long : Embedding) :
    tenGigabytes.dispatch (tenGigabytes.serve [createSmall]) (uploadTo [(1, []), (2, long)]) =
      ((StorageDb.openDb ∅ ∅).create 1 smallTenant).writeCall 1
        (.upload [(1, []), (2, long)]) := by
  have incoming : incomingBytes [(1, []), (2, long)] = 48 := rfl
  rw [serve_createSmall]
  have found : ((StorageDb.openDb ∅ ∅).create 1 smallTenant).getTenant 1 =
      some (recordToInfo 1 smallTenant.record) := rfl
  have tenantAdmits : admitsTenant ((StorageDb.openDb ∅ ∅).create 1 smallTenant)
      (recordToInfo 1 smallTenant.record) [(1, []), (2, long)] = true := by
    rw [admitsTenant, incoming]
    decide +kernel
  have nodeAdmits : tenGigabytes.admitsNode ((StorageDb.openDb ∅ ∅).create 1 smallTenant)
      [(1, []), (2, long)] = true := by
    rw [admitsNode, incoming]
    decide +kernel
  rw [dispatch_uploadVectors _ _ rfl, uploadVectors, found]
  simp only [tenantAdmits, nodeAdmits, if_true]

/-- A vector of 1 MB after an empty one is accepted for a tenant of 1 MB, which then has more. -/
theorem not_quotaSound_of_long {long : Embedding} (large : 2 ^ 18 ≤ long.length) :
    ¬ tenGigabytes.QuotaSound (tenGigabytes.serve [createSmall])
      (uploadTo [(1, []), (2, long)]) := by
  intro sound
  have stored : (((StorageDb.openDb ∅ ∅).create 1 smallTenant).writeCall 1
      (.upload [(1, []), (2, long)])).1.tenantBytes 1 = 4 * long.length + 24 + 24 := rfl
  have accepted : (((StorageDb.openDb ∅ ∅).create 1 smallTenant).writeCall 1
      (.upload [(1, []), (2, long)])).2 = .ok (.count 2) := rfl
  have limits := (sound 1 [(1, []), (2, long)] (.count 2) rfl
    (by rw [dispatch_uneven, accepted])).1 smallTenant.record
    (by rw [dispatch_uneven]; rfl) (by decide)
  have limit : smallTenant.record.capacityLimitMb = 1 := rfl
  rw [dispatch_uneven, stored, limit] at limits
  omega

end StorageNode

end KwaaiNet
