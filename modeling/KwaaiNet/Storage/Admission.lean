import Mathlib
import KwaaiNet.Storage.Rpc

/-! # Admission of tenants

`dispatch` admits a tenant by the bytes that are stored when it asks, not by the quotas that were
promised before, and its arithmetic on the numbers of the request is not checked. A node can
promise more than it has, and a large number can overflow.
`KwaaiNet.StorageNode.not_overcommitted_of_affordable` says that neither happens in a sequence of
requests that the node can afford (`KwaaiNet.StorageNode.Affordable`), and that every tenant can
then fill its quota.
-/

namespace KwaaiNet

open Foundation

/-! ### What is promised -/

def TenantRecord.quotaBytes (record : TenantRecord) : Nat :=
  if record.status = .deleted then 0 else (record.capacityLimitMb * 2 ^ 20).toNat

/-- The sum of the positive quotas of the active tenants, in bytes. -/
def StorageDb.promisedBytes (db : StorageDb) : Nat :=
  Table.weight (fun _ record => TenantRecord.quotaBytes record) db.tenants

/-! ### Overflow -/

/-- The results of the arithmetic that counts the bytes of `count` vectors of a dimension. -/
def countingResults (count : Nat) (dimension : Int) : List Int :=
  [4 * dimension, 4 * dimension + 24, count * (4 * dimension + 24)]

namespace StorageDb

variable (db : StorageDb)

/-- The results of the arithmetic of `TenantManager::stats`. -/
def statsResults (tenant : TenantId) : List Int :=
  match db.index? tenant with
  | some index => countingResults index.liveCount (wrap64 index.dimension)
  | none => countingResults 0 384

/-- `TenantManager::total_storage_bytes` does not overflow, in whatever order it reads the
indices. -/
def TotalFits : Prop :=
  (∀ tenant ∈ db.indices, ∀ result ∈ db.statsResults tenant, FitsI64 result) ∧
    ∀ part ⊆ db.indices, FitsI64 (∑ tenant ∈ part, db.countedBytes tenant : Nat)

end StorageDb

namespace StorageNode

variable (node : StorageNode) (db : StorageDb)

/-- The arithmetic of a request does not overflow: the exact result of each operation that
`dispatch` carries out is an `i64`. -/
def ArithmeticFits : StorageRequest → Prop
  | .createTenant (.ok input) =>
    let capacityLimitMb := input.capacityLimitMb.getD defaultCapacity
    let requested := capacityLimitMb * 1024 * 1024
    db.TotalFits ∧ FitsI64 (capacityLimitMb * 1024) ∧ FitsI64 requested ∧
      (0 < node.eveCapacityBytes → FitsI64 (db.totalDeclaredBytes + requested) ∧
        (node.eveCapacityBytes < db.totalDeclaredBytes + requested →
          FitsI64 (node.eveCapacityBytes - db.totalDeclaredBytes)))
  | .uploadVectors (some tenant) (.ok vectors) =>
    let dim := vectors.head?.elim 384 fun entry => entry.2.length
    (∀ result ∈ countingResults vectors.length dim, FitsI64 result) ∧
      ∀ info, db.getTenant tenant = some info →
        (0 < info.capacityLimitMb →
          (∀ result ∈ db.statsResults tenant, FitsI64 result) ∧
          FitsI64 (info.capacityLimitMb * 1024) ∧ FitsI64 (info.capacityLimitMb * 1024 * 1024) ∧
          FitsI64 (db.countedBytes tenant + incomingBytes vectors)) ∧
        (admitsTenant db info vectors → 0 < node.eveCapacityBytes →
          db.TotalFits ∧ FitsI64 (db.totalDeclaredBytes + incomingBytes vectors))
  | _ => True

/-- **No over-commitment**: the promised quotas are within the capacity of the node, and an upload
within the quota of its tenant is not refused for lack of space on the node. -/
structure NotOvercommitted : Prop where
  promised : 0 < node.eveCapacityBytes → (db.promisedBytes : Int) ≤ node.eveCapacityBytes
  fillable : ∀ tenant info vectors, db.getTenant tenant = some info → 0 < info.capacityLimitMb →
    (db.countedBytes tenant + incomingBytes vectors : Int) ≤ info.capacityLimitMb * 2 ^ 20 →
    node.admitsNode db vectors

/-- The node can afford a request. A tenant asks for numbers of a sensible size and, if the
capacity of the node is limited, for a positive quota within what is not promised yet. An upload
has vectors of at least the declared dimension, and the counts stay below `2 ^ 63`. -/
def Affordable (arrival : StorageArrival) : Prop :=
  match arrival.request with
  | .createTenant (.ok input) =>
    let capacityLimitMb := input.capacityLimitMb.getD defaultCapacity
    capacityLimitMb < 2 ^ 43 ∧ -2 ^ 43 ≤ capacityLimitMb ∧
      input.vectorDimension.getD defaultDimension < 2 ^ 60 ∧
      (0 < node.eveCapacityBytes → 0 < capacityLimitMb ∧
        db.promisedBytes + capacityLimitMb * 2 ^ 20 ≤ node.eveCapacityBytes)
  | .uploadVectors (some tenant) (.ok vectors) =>
    (∀ index, db.index? tenant = some index → ∀ first, vectors.head? = some first →
      index.dimension ≤ first.2.length) ∧
    db.totalDeclaredBytes + incomingBytes vectors < 2 ^ 63
  | _ => True

end StorageNode

/-! ### What a request changes -/

namespace StorageDb

variable {db : StorageDb}

theorem index?_create (tenant other : TenantId) (new : NewTenant) :
    (db.create tenant new).index? other =
      if other = tenant then some (.new new.vectorDimension) else db.index? other := by
  simp only [index?, create, insertIndex, insertTenant, Finset.mem_insert]
  by_cases same : other = tenant
  · subst same
    simp
  · simp only [same, false_or, if_false, AList.lookup_insert_ne same]

theorem countedBytes_create (tenant other : TenantId) (new : NewTenant) :
    (db.create tenant new).countedBytes other =
      if other = tenant then 0 else db.countedBytes other := by
  rw [countedBytes, index?_create]
  split_ifs
  · exact Nat.zero_mul _
  · rfl

theorem index?_call (tenant other : TenantId) (call : VectorCall) :
    ((db.writeVectors tenant call).updateIndex tenant call).index? other =
      if other = tenant then (db.index? tenant).map fun index => index.putAll call.changes
      else db.index? other := by
  have heap : (db.writeVectors tenant call).heap = db.heap := rfl
  have indices : (db.writeVectors tenant call).indices = db.indices := rfl
  rw [index?, index?, index?, updateIndex, heap]
  cases held : db.heap.lookup tenant with
  | none =>
    by_cases same : other = tenant
    · subst same
      simp [heap, indices, held]
    · simp [heap, indices, same]
  | some index =>
    by_cases same : other = tenant
    · subst same
      by_cases registered : other ∈ db.indices <;> simp [indices, registered]
    · simp [indices, same, AList.lookup_insert_ne same]

theorem indices_call (tenant : TenantId) (call : VectorCall) :
    ((db.writeVectors tenant call).updateIndex tenant call).indices = db.indices := by
  rw [updateIndex]
  cases (db.writeVectors tenant call).heap.lookup tenant <;> rfl

theorem tenants_call (tenant : TenantId) (call : VectorCall) :
    ((db.writeVectors tenant call).updateIndex tenant call).tenants = db.tenants :=
  tenants_updateIndex tenant call

def addedCount (call : VectorCall) : Nat :=
  (call.changes.map fun change => change.2.toList.length).sum

@[simp] theorem addedCount_upload (vectors : List (DocId × Embedding)) :
    addedCount (.upload vectors) = vectors.length := by
  simp [addedCount, VectorCall.changes, Function.comp_def]

@[simp] theorem addedCount_delete (ids : List DocId) : addedCount (.delete ids) = 0 := by
  simp [addedCount, VectorCall.changes, Function.comp_def]

theorem countedBytes_call_le (tenant other : TenantId) (call : VectorCall) {added : Nat}
    (bounded : ∀ index, db.index? tenant = some index →
      addedCount call * (4 * index.dimension + 24) ≤ added) :
    ((db.writeVectors tenant call).updateIndex tenant call).countedBytes other ≤
      db.countedBytes other + if other = tenant then added else 0 := by
  rw [countedBytes, index?_call]
  split_ifs with same
  · subst same
    rw [countedBytes]
    cases held : db.index? other with
    | none => exact Nat.zero_le _
    | some index =>
      have room := bounded index held
      have more := index.liveCount_putAll_le call.changes
      simp only [Option.map_some, Option.elim_some, declaredBytes, index.dimension_putAll]
      calc (index.putAll call.changes).liveCount * (4 * index.dimension + 24)
          ≤ (index.liveCount + addedCount call) * (4 * index.dimension + 24) :=
            Nat.mul_le_mul_right _ more
        _ = index.liveCount * (4 * index.dimension + 24) +
              addedCount call * (4 * index.dimension + 24) := Nat.add_mul _ _ _
        _ ≤ index.liveCount * (4 * index.dimension + 24) + added := Nat.add_le_add_left room _
  · exact Nat.le_add_right _ _

theorem totalDeclaredBytes_call_le (tenant : TenantId) (call : VectorCall) {added : Nat}
    (bounded : ∀ index, db.index? tenant = some index →
      addedCount call * (4 * index.dimension + 24) ≤ added) :
    ((db.writeVectors tenant call).updateIndex tenant call).totalDeclaredBytes ≤
      db.totalDeclaredBytes + added := by
  rw [totalDeclaredBytes, indices_call]
  calc ∑ other ∈ db.indices,
        ((db.writeVectors tenant call).updateIndex tenant call).countedBytes other
      ≤ ∑ other ∈ db.indices, (db.countedBytes other + if other = tenant then added else 0) :=
        Finset.sum_le_sum fun other _ => countedBytes_call_le tenant other call bounded
    _ = db.totalDeclaredBytes + ∑ other ∈ db.indices, if other = tenant then added else 0 :=
        Finset.sum_add_distrib
    _ ≤ db.totalDeclaredBytes + added := by
        rw [Finset.sum_ite_eq']
        split_ifs <;> omega

theorem promisedBytes_create_le (tenant : TenantId) (new : NewTenant) :
    (db.create tenant new).promisedBytes ≤ db.promisedBytes + new.record.quotaBytes :=
  Table.weight_insert_le _ db.tenants tenant new.record

theorem deleteTenant?_frame {tenant : TenantId} {after : StorageDb}
    (removed : db.deleteTenant? tenant = some after) :
    after.heap = db.heap ∧ after.indices = db.indices ∧ ∃ record : TenantRecord,
      after.tenants = db.tenants.insert tenant { record with status := .deleted } := by
  rw [deleteTenant?] at removed
  cases held : db.tenants.lookup tenant with
  | none =>
    rw [held] at removed
    cases removed
  | some record =>
    rw [held] at removed
    dsimp only at removed
    split_ifs at removed
    obtain rfl := Option.some.inj removed
    exact ⟨rfl, rfl, record, rfl⟩

theorem promisedBytes_delete_le {tenant : TenantId} {after : StorageDb}
    (removed : db.deleteTenant? tenant = some after) :
    (after.removeIndex tenant).promisedBytes ≤ db.promisedBytes := by
  obtain ⟨_, _, record, marked⟩ := deleteTenant?_frame removed
  have tenants : (after.removeIndex tenant).tenants = after.tenants := rfl
  rw [promisedBytes, tenants, marked]
  exact Table.weight_insert_le _ db.tenants tenant { record with status := .deleted }

theorem index?_delete {tenant other : TenantId} {after : StorageDb}
    (removed : db.deleteTenant? tenant = some after) :
    (after.removeIndex tenant).index? other = if other = tenant then none else db.index? other := by
  obtain ⟨heap, indices, _⟩ := deleteTenant?_frame removed
  have kept : (after.removeIndex tenant).heap = after.heap := rfl
  have erased : (after.removeIndex tenant).indices = after.indices.erase tenant := rfl
  rw [index?, index?, kept, erased, heap, indices]
  by_cases same : other = tenant <;> simp [same]

end StorageDb

namespace StorageNode

variable (node : StorageNode) (db : StorageDb)

def newTenant (now : String) (input : CreateTenantPayload) : NewTenant :=
  ⟨input.peerId, input.capacityLimitMb.getD defaultCapacity, input.displayName,
    input.vectorDimension.getD defaultDimension, now⟩

theorem createTenant_cases (fresh : TenantId) (now : String) (input : CreateTenantPayload) :
    (node.createTenant db fresh now input).1 = db ∨
      (node.createTenant db fresh now input).1 = db.create fresh (newTenant now input) := by
  simp only [createTenant]
  split_ifs
  · exact .inl rfl
  · exact .inr rfl

theorem uploadVectors_admitted (tenant : TenantId) (vectors : List (DocId × Embedding)) :
    (node.uploadVectors db tenant vectors).1 = db ∨
      ∃ info, db.getTenant tenant = some info ∧ admitsTenant db info vectors ∧
        (node.uploadVectors db tenant vectors).1 =
          (db.writeVectors tenant (.upload vectors)).updateIndex tenant (.upload vectors) := by
  rw [uploadVectors]
  cases db.getTenant tenant with
  | none => exact .inl rfl
  | some info =>
    dsimp only
    split_ifs with admitted
    · rcases db.writeCall_cases tenant (.upload vectors) with same | ⟨_, _, changed⟩
      · exact .inl same
      · exact .inr ⟨info, rfl, admitted, changed⟩
    · exact .inl rfl
    · exact .inl rfl

/-! ### Affordable requests -/

/-- What affordable requests keep. The tenants of the indices are active. If the capacity of the
node is limited, every active tenant has a positive quota and counts for at most that, and the
quotas are within the capacity. -/
structure Funded : Prop where
  active : ∀ tenant ∈ db.indices, ∃ record, db.tenants.lookup tenant = some record ∧
    record.status ≠ .deleted ∧ (0 < node.eveCapacityBytes →
      db.countedBytes tenant ≤ record.quotaBytes)
  limits : ∀ tenant record, db.tenants.lookup tenant = some record → record.status ≠ .deleted →
    record.capacityLimitMb < 2 ^ 43 ∧ -2 ^ 43 ≤ record.capacityLimitMb ∧
      (0 < node.eveCapacityBytes → 0 < record.capacityLimitMb)
  dimensions : ∀ tenant index, db.index? tenant = some index → index.dimension < 2 ^ 60
  counted : db.totalDeclaredBytes < 2 ^ 63
  promised : 0 < node.eveCapacityBytes → (db.promisedBytes : Int) ≤ node.eveCapacityBytes

variable {node db}

theorem funded_empty : node.Funded (.openDb ∅ ∅) := by
  refine ⟨?_, ?_, ?_, ?_, ?_⟩
  · intro tenant member
    cases Finset.notMem_empty tenant member
  · intro tenant record held
    cases held
  · intro tenant index held
    cases held
  · exact Nat.two_pow_pos 63
  · exact fun limited => limited.le

theorem quotaBytes_newTenant {now : String} {input : CreateTenantPayload}
    (positive : 0 < input.capacityLimitMb.getD defaultCapacity) :
    ((newTenant now input).record.quotaBytes : Int) =
      input.capacityLimitMb.getD defaultCapacity * 2 ^ 20 := by
  have limit : (newTenant now input).record.capacityLimitMb =
      input.capacityLimitMb.getD defaultCapacity := rfl
  rw [TenantRecord.quotaBytes, if_neg nofun, limit]
  exact Int.toNat_of_nonneg (by omega)

theorem Funded.create (funded : node.Funded db) {fresh : TenantId} (drawn : fresh ∉ db.tenants)
    {now : String} {input : CreateTenantPayload}
    (affordable : node.Affordable db ⟨.createTenant (.ok input), fresh, now⟩) :
    node.Funded (db.create fresh (newTenant now input)) := by
  obtain ⟨below, above, narrow, afford⟩ := affordable
  have tenants : (db.create fresh (newTenant now input)).tenants =
      db.tenants.insert fresh (newTenant now input).record := rfl
  have indices : (db.create fresh (newTenant now input)).indices = insert fresh db.indices := rfl
  have unregistered : fresh ∉ db.indices := by
    intro registered
    obtain ⟨record, held, _⟩ := funded.active fresh registered
    exact drawn (AList.lookup_isSome.mp (Option.isSome_of_eq_some held))
  refine ⟨?_, ?_, ?_, ?_, ?_⟩
  · intro tenant member
    rw [tenants, StorageDb.countedBytes_create]
    by_cases same : tenant = fresh
    · subst same
      rw [AList.lookup_insert, if_pos rfl]
      exact ⟨_, rfl, nofun, fun _ => Nat.zero_le _⟩
    · rw [AList.lookup_insert_ne same, if_neg same]
      exact funded.active tenant ((Finset.mem_insert.mp (indices ▸ member)).resolve_left same)
  · intro tenant record held alive
    rw [tenants] at held
    by_cases same : tenant = fresh
    · subst same
      rw [AList.lookup_insert] at held
      obtain rfl := Option.some.inj held
      exact ⟨below, above, fun limited => (afford limited).1⟩
    · rw [AList.lookup_insert_ne same] at held
      exact funded.limits tenant record held alive
  · intro tenant index held
    rw [StorageDb.index?_create] at held
    split_ifs at held
    · obtain rfl := Option.some.inj held
      exact narrow
    · exact funded.dimensions tenant index held
  · have total : (db.create fresh (newTenant now input)).totalDeclaredBytes =
        db.totalDeclaredBytes := by
      rw [StorageDb.totalDeclaredBytes, indices, Finset.sum_insert unregistered,
        StorageDb.countedBytes_create, if_pos rfl, Nat.zero_add]
      refine Finset.sum_congr rfl fun tenant member => ?_
      rw [StorageDb.countedBytes_create, if_neg (ne_of_mem_of_not_mem member unregistered)]
    rw [total]
    exact funded.counted
  · intro limited
    obtain ⟨positive, room⟩ := afford limited
    have added := @StorageDb.promisedBytes_create_le db fresh (newTenant now input)
    have quota := @quotaBytes_newTenant now input positive
    omega

theorem Funded.call (funded : node.Funded db) {tenant : TenantId} {call : VectorCall} {added : Nat}
    (bounded : ∀ index, db.index? tenant = some index →
      StorageDb.addedCount call * (4 * index.dimension + 24) ≤ added)
    (small : db.totalDeclaredBytes + added < 2 ^ 63)
    (within : ∀ record, db.tenants.lookup tenant = some record → record.status ≠ .deleted →
      0 < node.eveCapacityBytes → db.countedBytes tenant ≤ record.quotaBytes →
      db.countedBytes tenant + added ≤ record.quotaBytes) :
    node.Funded ((db.writeVectors tenant call).updateIndex tenant call) := by
  refine ⟨?_, ?_, ?_, ?_, ?_⟩
  · intro other member
    rw [StorageDb.indices_call] at member
    obtain ⟨record, held, alive, covered⟩ := funded.active other member
    rw [StorageDb.tenants_call]
    refine ⟨record, held, alive, fun limited => ?_⟩
    refine (StorageDb.countedBytes_call_le tenant other call bounded).trans ?_
    split_ifs with same
    · subst same
      exact within record held alive limited (covered limited)
    · exact covered limited
  · rw [StorageDb.tenants_call]
    exact funded.limits
  · intro other index held
    rw [StorageDb.index?_call] at held
    split_ifs at held
    · obtain ⟨earlier, stood, rfl⟩ := Option.map_eq_some_iff.mp held
      rw [earlier.dimension_putAll]
      exact funded.dimensions tenant earlier stood
    · exact funded.dimensions other index held
  · exact (StorageDb.totalDeclaredBytes_call_le tenant call bounded).trans_lt small
  · rw [StorageDb.promisedBytes, StorageDb.tenants_call]
    exact funded.promised

theorem Funded.deleteTenant (funded : node.Funded db) {tenant : TenantId} {after : StorageDb}
    (removed : db.deleteTenant? tenant = some after) :
    node.Funded (after.removeIndex tenant) := by
  obtain ⟨_, indices, record, marked⟩ := StorageDb.deleteTenant?_frame removed
  have tenants : (after.removeIndex tenant).tenants = after.tenants := rfl
  have erased : (after.removeIndex tenant).indices = db.indices.erase tenant :=
    congrArg (Finset.erase · tenant) indices
  have counted (other : TenantId) (different : other ≠ tenant) :
      (after.removeIndex tenant).countedBytes other = db.countedBytes other := by
    rw [StorageDb.countedBytes, StorageDb.index?_delete removed, if_neg different]
    rfl
  refine ⟨?_, ?_, ?_, ?_, ?_⟩
  · intro other member
    rw [erased] at member
    have different := Finset.ne_of_mem_erase member
    rw [tenants, marked, AList.lookup_insert_ne different, counted other different]
    exact funded.active other (Finset.mem_of_mem_erase member)
  · intro other held found alive
    rw [tenants, marked] at found
    by_cases same : other = tenant
    · subst same
      rw [AList.lookup_insert] at found
      obtain rfl := Option.some.inj found
      exact absurd rfl alive
    · rw [AList.lookup_insert_ne same] at found
      exact funded.limits other held found alive
  · intro other index held
    rw [StorageDb.index?_delete removed] at held
    split_ifs at held
    exact funded.dimensions other index held
  · refine lt_of_le_of_lt ?_ funded.counted
    rw [StorageDb.totalDeclaredBytes, erased]
    calc ∑ other ∈ db.indices.erase tenant, (after.removeIndex tenant).countedBytes other
        = ∑ other ∈ db.indices.erase tenant, db.countedBytes other :=
          Finset.sum_congr rfl fun other member => counted other (Finset.ne_of_mem_erase member)
      _ ≤ db.totalDeclaredBytes := Finset.sum_le_sum_of_subset (Finset.erase_subset _ _)
  · intro limited
    have fewer := StorageDb.promisedBytes_delete_le removed
    have room := funded.promised limited
    omega

theorem addedCount_upload_mul_le {index : TenantIndex} {vectors : List (DocId × Embedding)}
    (wide : ∀ first, vectors.head? = some first → index.dimension ≤ first.2.length) :
    StorageDb.addedCount (.upload vectors) * (4 * index.dimension + 24) ≤
      incomingBytes vectors := by
  rw [StorageDb.addedCount_upload, incomingBytes]
  cases vectors with
  | nil => simp
  | cons first rest =>
    have longer := wide first rfl
    apply Nat.mul_le_mul_left
    simp only [List.head?_cons, Option.elim_some]
    omega

theorem Funded.upload (funded : node.Funded db) {tenant : TenantId} {info : TenantInfo}
    {vectors : List (DocId × Embedding)} (found : db.getTenant tenant = some info)
    (admitted : admitsTenant db info vectors)
    (wide : ∀ index, db.index? tenant = some index → ∀ first, vectors.head? = some first →
      index.dimension ≤ first.2.length)
    (small : db.totalDeclaredBytes + incomingBytes vectors < 2 ^ 63) :
    node.Funded
      ((db.writeVectors tenant (.upload vectors)).updateIndex tenant (.upload vectors)) := by
  refine funded.call (fun index held => addedCount_upload_mul_le (wide index held)) small ?_
  intro record held alive limited _
  obtain ⟨same, stood, _, rfl⟩ := StorageDb.status_of_getTenant found
  obtain rfl := Option.some.inj (held.symm.trans stood)
  have positive := (funded.limits tenant record held alive).2.2 limited
  have within := admitsTenant_le admitted positive small
  have owner : (recordToInfo tenant record).tenantId = tenant := rfl
  have limit : (recordToInfo tenant record).capacityLimitMb = record.capacityLimitMb := rfl
  rw [owner, limit] at within
  rw [TenantRecord.quotaBytes, if_neg alive]
  omega

theorem Funded.step (funded : node.Funded db) (arrival : StorageArrival)
    (affordable : node.Affordable db arrival) : node.Funded (node.step db arrival) := by
  rw [StorageNode.step]
  split_ifs with drawn
  · exact funded
  obtain ⟨request, fresh, now⟩ := arrival
  cases request with
  | undecodable | health | listTenants => exact funded
  | getTenant tenant => cases tenant <;> exact funded
  | searchVectors tenant payload => cases tenant <;> cases payload <;> exact funded
  | createTenant payload =>
    cases payload with
    | error reason => exact funded
    | ok input =>
      change node.Funded (node.createTenant db fresh now input).1
      rcases node.createTenant_cases db fresh now input with same | created
      · rwa [same]
      · rw [created]
        exact funded.create drawn affordable
  | deleteTenant tenant =>
    cases tenant with
    | none => exact funded
    | some tenant =>
      simp only [dispatch, withTenant, StorageDb.deleteTenant]
      cases removed : db.deleteTenant? tenant with
      | none => exact funded
      | some after => exact funded.deleteTenant removed
  | uploadVectors tenant payload =>
    cases tenant with
    | none => exact funded
    | some tenant =>
      cases payload with
      | error reason => exact funded
      | ok vectors =>
        change node.Funded (node.uploadVectors db tenant vectors).1
        rcases node.uploadVectors_admitted db tenant vectors with
          same | ⟨info, found, admitted, changed⟩
        · rwa [same]
        · rw [changed]
          exact funded.upload found admitted affordable.1 affordable.2
  | deleteVectors tenant payload =>
    cases tenant with
    | none => exact funded
    | some tenant =>
      cases payload with
      | error reason => exact funded
      | ok ids =>
        change node.Funded (db.writeCall tenant (.delete ids)).1
        rcases db.writeCall_cases tenant (.delete ids) with same | ⟨_, _, changed⟩
        · rwa [same]
        · rw [changed]
          have nothing : ∀ index, db.index? tenant = some index →
              StorageDb.addedCount (.delete ids) * (4 * index.dimension + 24) ≤ 0 := by
            intro index _
            rw [StorageDb.addedCount_delete, Nat.zero_mul]
          exact funded.call nothing funded.counted fun _ _ _ _ covered => covered

theorem funded_serve {arrivals : List StorageArrival}
    (affordable : Meets node.step node.Affordable (.openDb ∅ ∅) arrivals) :
    node.Funded (node.serve arrivals) :=
  (run_of_meets affordable).invariant
    (fun _ arrival _ funded taken => taken.2 ▸ funded.step arrival taken.1) funded_empty

/-! ### What a funded node can promise -/

theorem Funded.total_add_le (funded : node.Funded db) (limited : 0 < node.eveCapacityBytes)
    {tenant : TenantId} {record : TenantRecord} (held : db.tenants.lookup tenant = some record)
    {more : Nat} (within : db.countedBytes tenant + more ≤ record.quotaBytes) :
    db.totalDeclaredBytes + more ≤ db.promisedBytes := by
  have shares : ∀ other ∈ insert tenant db.indices, ∃ owned,
      db.tenants.lookup other = some owned ∧
        (db.countedBytes other + if other = tenant then more else 0) ≤ owned.quotaBytes := by
    intro other member
    by_cases same : other = tenant
    · subst same
      exact ⟨record, held, by rwa [if_pos rfl]⟩
    · obtain ⟨owned, found, _, covered⟩ :=
        funded.active other ((Finset.mem_insert.mp member).resolve_left same)
      exact ⟨owned, found, by rw [if_neg same]; exact covered limited⟩
  refine le_trans ?_ (Table.sum_le_weight _ db.tenants _ _ shares)
  rw [Finset.sum_add_distrib, Finset.sum_ite_eq', if_pos (Finset.mem_insert_self _ _)]
  exact Nat.add_le_add_right (Finset.sum_le_sum_of_subset (Finset.subset_insert _ _)) _

theorem Funded.total_le (funded : node.Funded db) (limited : 0 < node.eveCapacityBytes) :
    db.totalDeclaredBytes ≤ db.promisedBytes := by
  refine Table.sum_le_weight _ db.tenants _ _ fun tenant member => ?_
  obtain ⟨record, held, _, covered⟩ := funded.active tenant member
  exact ⟨record, held, covered limited⟩

theorem Funded.notOvercommitted (funded : node.Funded db) : node.NotOvercommitted db := by
  refine ⟨funded.promised, ?_⟩
  intro tenant info vectors found positive within
  obtain ⟨record, held, alive, rfl⟩ := StorageDb.status_of_getTenant found
  rw [admitsNode, Bool.or_eq_true, decide_eq_true_iff, decide_eq_true_iff]
  by_cases limited : 0 < node.eveCapacityBytes
  · right
    have limit : (recordToInfo tenant record).capacityLimitMb = record.capacityLimitMb := rfl
    rw [limit] at within
    have fits : db.countedBytes tenant + incomingBytes vectors ≤ record.quotaBytes := by
      rw [TenantRecord.quotaBytes, if_neg alive]
      omega
    have total := funded.total_add_le limited held fits
    have room := funded.promised limited
    have range : node.eveCapacityBytes < 2 ^ 63 := FloatValue.toI64_lt _
    rw [StorageDb.totalStorageBytes, wrap64_add (by omega)]
    omega
  · exact .inl (by omega)

/-- Counting at most `2 ^ 63` bytes does not overflow. -/
theorem fits_countingResults {count dimension : Nat} (narrow : 4 * dimension + 24 < 2 ^ 63)
    (small : count * (4 * dimension + 24) < 2 ^ 63) :
    ∀ result ∈ countingResults count dimension, FitsI64 result := by
  intro result member
  simp only [countingResults, List.mem_cons, List.not_mem_nil, or_false] at member
  rcases member with rfl | rfl | rfl
  · exact fitsI64_of_nonneg (by omega) (by omega)
  · exact fitsI64_of_nonneg (by omega) (by omega)
  · exact fitsI64_of_nonneg (by positivity) (by exact_mod_cast small)

theorem Funded.fits_statsResults (funded : node.Funded db) (tenant : TenantId) :
    ∀ result ∈ db.statsResults tenant, FitsI64 result := by
  have counted := (db.countedBytes_le tenant).trans_lt funded.counted
  rw [StorageDb.statsResults]
  rw [StorageDb.countedBytes] at counted
  cases held : db.index? tenant with
  | none => decide
  | some index =>
    rw [held] at counted
    have narrow := funded.dimensions tenant index held
    have cast : wrap64 (index.dimension : Int) = index.dimension :=
      wrap64_of_lt (by omega) (by omega)
    dsimp only
    rw [cast]
    exact fits_countingResults (by omega) counted

theorem Funded.totalFits (funded : node.Funded db) : db.TotalFits := by
  refine ⟨fun tenant _ => funded.fits_statsResults tenant, fun part inside => ?_⟩
  have less : ∑ tenant ∈ part, db.countedBytes tenant ≤ db.totalDeclaredBytes :=
    Finset.sum_le_sum_of_subset inside
  have small := funded.counted
  exact fitsI64_of_nonneg (by omega) (by omega)

theorem Funded.arithmeticFits (funded : node.Funded db) {arrival : StorageArrival}
    (affordable : node.Affordable db arrival) : node.ArithmeticFits db arrival.request := by
  obtain ⟨request, fresh, now⟩ := arrival
  have range : node.eveCapacityBytes < 2 ^ 63 := FloatValue.toI64_lt _
  cases request with
  | undecodable | health | listTenants | getTenant | searchVectors | deleteTenant
  | deleteVectors => trivial
  | createTenant payload =>
    cases payload with
    | error reason => trivial
    | ok input =>
      obtain ⟨below, above, _, afford⟩ := affordable
      refine ⟨funded.totalFits, ⟨by omega, by omega⟩, ⟨by omega, by omega⟩, fun limited => ?_⟩
      obtain ⟨positive, room⟩ := afford limited
      have used := funded.total_le limited
      exact ⟨fitsI64_of_nonneg (by omega) (by omega), fun full => by omega⟩
  | uploadVectors tenant payload =>
    cases tenant with
    | none => trivial
    | some tenant =>
      cases payload with
      | error reason => trivial
      | ok vectors =>
        obtain ⟨_, small⟩ := affordable
        refine ⟨?_, fun info found => ⟨fun positive => ?_, fun _ _ => ?_⟩⟩
        · apply fits_countingResults
          · cases vectors with
            | nil => decide
            | cons first rest =>
              have incoming : 1 * (4 * first.2.length + 24) ≤
                  incomingBytes (first :: rest) :=
                Nat.mul_le_mul_right _ (Nat.succ_le_succ (Nat.zero_le _))
              simp only [List.head?_cons, Option.elim_some]
              omega
          · exact lt_of_le_of_lt (Nat.le_add_left _ _) small
        · obtain ⟨record, held, alive, rfl⟩ := StorageDb.status_of_getTenant found
          have limit : (recordToInfo tenant record).capacityLimitMb =
              record.capacityLimitMb := rfl
          obtain ⟨below, above, _⟩ := funded.limits tenant record held alive
          have counted := db.countedBytes_le tenant
          rw [limit] at positive ⊢
          exact ⟨funded.fits_statsResults tenant, ⟨by omega, by omega⟩,
            ⟨by omega, by omega⟩, fitsI64_of_nonneg (by omega) (by omega)⟩
        · exact ⟨funded.totalFits, fitsI64_of_nonneg (by omega) (by omega)⟩

/-- **Admission.** In every sequence of requests that the node can afford when they arrive, the
arithmetic of no request overflows, and after every request the node has promised no more than its
capacity, so that every tenant can fill its quota. -/
theorem not_overcommitted_of_affordable (node : StorageNode) (before : List StorageArrival)
    (arrival : StorageArrival)
    (affordable : Meets node.step node.Affordable (.openDb ∅ ∅) (before ++ [arrival])) :
    node.ArithmeticFits (node.serve before) arrival.request ∧
      node.NotOvercommitted (node.serve (before ++ [arrival])) := by
  obtain ⟨earlier, last, _⟩ := meets_append.mp affordable
  exact ⟨(funded_serve earlier).arithmeticFits last, (funded_serve affordable).notOvercommitted⟩

def askFor (capacityLimitMb : Int) (fresh : TenantId) : StorageArrival :=
  ⟨.createTenant (.ok ⟨"bob", some capacityLimitMb, none, some 2⟩), fresh, smallTenant.createdAt⟩

theorem twoTenants_not_overcommitted :
    tenGigabytes.ArithmeticFits (tenGigabytes.serve [askFor 4096 1]) (askFor 4096 2).request ∧
      tenGigabytes.NotOvercommitted (tenGigabytes.serve ([askFor 4096 1] ++ [askFor 4096 2])) := by
  apply not_overcommitted_of_affordable
  refine ⟨?_, ?_, trivial⟩
  · refine ⟨by decide, by decide, by decide, fun _ => ⟨by decide, by decide +kernel⟩⟩
  · refine ⟨by decide, by decide, by decide, fun _ => ⟨by decide, by decide +kernel⟩⟩

/-- Two tenants of 10 GB each are admitted to a node of 10 GB, and the arithmetic of a request for
`2 ^ 43` MB overflows. -/
theorem secondTenant_overcommits :
    ¬ tenGigabytes.NotOvercommitted
        (tenGigabytes.serve ([askFor 10240 1] ++ [askFor 10240 2])) ∧
      ¬ tenGigabytes.ArithmeticFits (tenGigabytes.serve []) (askFor (2 ^ 43) 1).request := by
  constructor
  · intro sound
    have promised : ¬ ((tenGigabytes.serve ([askFor 10240 1] ++ [askFor 10240 2])).promisedBytes
        : Int) ≤ tenGigabytes.eveCapacityBytes := by decide +kernel
    exact promised (sound.promised (by decide +kernel))
  · intro fits
    have requested : ¬ FitsI64 ((2 : Int) ^ 43 * 1024 * 1024) := by decide
    exact requested fits.2.2.1

end StorageNode

end KwaaiNet
