import Mathlib
import KwaaiNet.Storage.Rpc

/-! # The HTTP API of the store

`create_tenant` and `upload_vectors` serve over HTTP what `dispatch` serves to peers, on the same
store. They have none of the checks against the quota of the tenant and the capacity of the node.
`KwaaiNet.StorageNode.frontEndsAgree_iff` says for which requests the two agree: those that pass
the checks, and those that both refuse for another reason.
-/

namespace KwaaiNet

open Foundation

/-- A request that both front ends serve. `CreateTenantRequest` has the fields and the defaults of
`CreateTenantPayload`, and `UploadRequest` those of `UploadPayload`. -/
inductive ApiRequest where
  | createTenant (input : CreateTenantPayload)
  | uploadVectors (tenant : TenantId) (vectors : List (DocId × Embedding))

/-- A request, with the id and the time that the creation of a tenant reads. -/
structure ApiArrival where
  request : ApiRequest
  fresh : TenantId
  now : String

/-- The status codes of the two handlers. -/
inductive StatusCode where
  | ok
  | created
  | notFound
  | internalServerError
  deriving DecidableEq

/-- What a handler answers: a status code, with the body of the response or with the error. -/
abbrev ApiResponse := Except (StatusCode × StorageError) (StatusCode × StorageReply)

def ApiArrival.toRpc (arrival : ApiArrival) : StorageArrival where
  request :=
    match arrival.request with
    | .createTenant input => .createTenant (.ok input)
    | .uploadVectors tenant vectors => .uploadVectors (some tenant) (.ok vectors)
  fresh := arrival.fresh
  now := arrival.now

namespace StorageApi

/-- `create_tenant`. -/
def createTenant (db : StorageDb) (fresh : TenantId) (now : String) (req : CreateTenantPayload) :
    StorageDb × ApiResponse :=
  let new : NewTenant := ⟨req.peerId, req.capacityLimitMb.getD defaultCapacity, req.displayName,
    req.vectorDimension.getD defaultDimension, now⟩
  (db.create fresh new, .ok (.created, .tenant (recordToInfo fresh new.record)))

/-- `upload_vectors`. -/
def uploadVectors (db : StorageDb) (tenant : TenantId) (vectors : List (DocId × Embedding)) :
    StorageDb × ApiResponse :=
  match db.getTenant tenant with
  | none => (db, .error (.notFound, .tenantNotFound))
  | some _ =>
    match db.writeCall tenant (.upload vectors) with
    | (after, .ok uploaded) => (after, .ok (.ok, uploaded))
    | (after, .error reason) => (after, .error (.internalServerError, reason))

/-- The two handlers. -/
def handle (db : StorageDb) (arrival : ApiArrival) : StorageDb × ApiResponse :=
  match arrival.request with
  | .createTenant req => createTenant db arrival.fresh arrival.now req
  | .uploadVectors tenant vectors => uploadVectors db tenant vectors

end StorageApi

namespace StorageNode

variable (node : StorageNode) (db : StorageDb)

/-- The front ends **agree** on a request: both accept it and leave the same store, or both
refuse it. -/
def FrontEndsAgree (arrival : ApiArrival) : Prop :=
  ((StorageApi.handle db arrival).2.isOk ↔ (node.dispatch db arrival.toRpc).2.isOk) ∧
    ((StorageApi.handle db arrival).2.isOk →
      (StorageApi.handle db arrival).1 = (node.dispatch db arrival.toRpc).1)

def admitsNew (input : CreateTenantPayload) : Prop :=
  0 < node.eveCapacityBytes →
    wrap64 (db.totalStorageBytes +
      wrap64 (input.capacityLimitMb.getD defaultCapacity * 1024 * 1024)) ≤ node.eveCapacityBytes

def ChecksPass : ApiRequest → Prop
  | .createTenant input => node.admitsNew db input
  | .uploadVectors tenant vectors =>
    ∀ info, db.getTenant tenant = some info → (vectors = [] ∨ (db.index? tenant).isSome) →
      admitsTenant db info vectors ∧ node.admitsNode db vectors

variable {db}

theorem isOk_writeCall_upload {tenant : TenantId} {vectors : List (DocId × Embedding)} :
    (db.writeCall tenant (.upload vectors)).2.isOk ↔
      vectors = [] ∨ (db.index? tenant).isSome := by
  have empty : (VectorCall.upload vectors).changes = [] ↔ vectors = [] := List.map_eq_nil_iff
  rw [StorageDb.writeCall]
  split_ifs with nothing
  · exact iff_of_true rfl (.inl (empty.mp nothing))
  · cases db.index? tenant with
    | none =>
      refine iff_of_false Bool.false_ne_true fun done => nothing (empty.mpr ?_)
      exact done.resolve_right Bool.false_ne_true
    | some index => exact iff_of_true rfl (.inr rfl)

theorem handle_uploadVectors {tenant : TenantId} {info : TenantInfo}
    (found : db.getTenant tenant = some info) (vectors : List (DocId × Embedding)) :
    (StorageApi.uploadVectors db tenant vectors).1 = (db.writeCall tenant (.upload vectors)).1 ∧
      (StorageApi.uploadVectors db tenant vectors).2.isOk =
        (db.writeCall tenant (.upload vectors)).2.isOk := by
  rw [StorageApi.uploadVectors, found]
  obtain ⟨after, reason | uploaded⟩ := db.writeCall tenant (.upload vectors) <;> exact ⟨rfl, rfl⟩

theorem uploadVectors_of_active {tenant : TenantId} {info : TenantInfo}
    (found : db.getTenant tenant = some info) (vectors : List (DocId × Embedding)) :
    if admitsTenant db info vectors ∧ node.admitsNode db vectors then
      node.uploadVectors db tenant vectors = db.writeCall tenant (.upload vectors)
    else (node.uploadVectors db tenant vectors).2.isOk = false := by
  rw [uploadVectors, found]
  dsimp only
  by_cases tenantAdmits : admitsTenant db info vectors
  · by_cases nodeAdmits : node.admitsNode db vectors
    · rw [if_pos ⟨tenantAdmits, nodeAdmits⟩, if_pos tenantAdmits, if_pos nodeAdmits]
    · rw [if_neg fun both => nodeAdmits both.2, if_pos tenantAdmits, if_neg nodeAdmits]
      rfl
  · rw [if_neg fun both => tenantAdmits both.1, if_neg tenantAdmits]
    rfl

theorem frontEndsAgree_createTenant (fresh : TenantId) (now : String)
    (input : CreateTenantPayload) :
    node.FrontEndsAgree db ⟨.createTenant input, fresh, now⟩ ↔ node.admitsNew db input := by
  have rpc : node.dispatch db (ApiArrival.toRpc ⟨.createTenant input, fresh, now⟩) =
      node.createTenant db fresh now input := rfl
  rw [FrontEndsAgree, rpc, createTenant, admitsNew]
  dsimp only
  by_cases admitted : 0 < node.eveCapacityBytes ∧ node.eveCapacityBytes <
      wrap64 (db.totalStorageBytes +
        wrap64 (input.capacityLimitMb.getD defaultCapacity * 1024 * 1024))
  · rw [if_pos admitted]
    refine iff_of_false (fun agree => ?_) fun passes => ?_
    · cases agree.1.mp rfl
    · exact absurd (passes admitted.1) (not_le.mpr admitted.2)
  · rw [if_neg admitted]
    exact iff_of_true ⟨Iff.rfl, fun _ => rfl⟩ fun limited => le_of_not_gt fun exceeded =>
      admitted ⟨limited, exceeded⟩

theorem frontEndsAgree_uploadVectors (fresh : TenantId) (now : String) (tenant : TenantId)
    (vectors : List (DocId × Embedding)) :
    node.FrontEndsAgree db ⟨.uploadVectors tenant vectors, fresh, now⟩ ↔
      node.ChecksPass db (.uploadVectors tenant vectors) := by
  have rpc : node.dispatch db (ApiArrival.toRpc ⟨.uploadVectors tenant vectors, fresh, now⟩) =
      node.uploadVectors db tenant vectors := rfl
  have http : StorageApi.handle db ⟨.uploadVectors tenant vectors, fresh, now⟩ =
      StorageApi.uploadVectors db tenant vectors := rfl
  rw [FrontEndsAgree, rpc, http, ChecksPass]
  cases found : db.getTenant tenant with
  | none =>
    rw [uploadVectors, StorageApi.uploadVectors, found]
    refine iff_of_true ⟨Iff.rfl, fun _ => rfl⟩ fun info same => ?_
    cases same
  | some info =>
    obtain ⟨stored, accepted⟩ := handle_uploadVectors found vectors
    have served := node.uploadVectors_of_active found vectors
    rw [stored, accepted, isOk_writeCall_upload]
    split_ifs at served with admitted
    · rw [served, isOk_writeCall_upload]
      refine iff_of_true ⟨Iff.rfl, fun _ => rfl⟩ ?_
      intro other same _
      obtain rfl := Option.some.inj same
      exact admitted
    · rw [served]
      constructor
      · intro agree other same writable
        cases agree.1.mp writable
      · intro passes
        have unwritable := fun writable => admitted (passes info rfl writable)
        refine ⟨iff_of_false unwritable Bool.false_ne_true, fun writable => ?_⟩
        exact absurd writable unwritable

end StorageNode

end KwaaiNet
