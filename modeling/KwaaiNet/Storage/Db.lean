import Mathlib
import KwaaiNet.Storage.Index

/-! # The vector store

The tables of the embedded database, the indices in memory, and the atomic statements from which
`VectorStore` and `TenantManager` are made: a transaction on the tables, or a change of the map
of indices or of one index. What a statement does to a tenant is a step of that tenant alone
(`KwaaiNet.StorageDb.view`), and reopening the store reads the rows of the active tenants
(`KwaaiNet.StorageDb.onDisk_eq`).
-/

namespace KwaaiNet

open Foundation List

abbrev TenantId := Nat

inductive TenantStatus where
  | active
  | deleted
  deriving DecidableEq

structure TenantRecord where
  peerId : String
  displayName : Option String
  capacityLimitMb : Int
  status : TenantStatus
  createdAt : String
  vectorDimension : Nat
  deriving DecidableEq

/-- The arguments of `TenantManager::create`, and the time it reads. -/
structure NewTenant where
  peerId : String
  capacityLimitMb : Int
  displayName : Option String
  vectorDimension : Nat
  createdAt : String
  deriving DecidableEq

def NewTenant.record (new : NewTenant) : TenantRecord :=
  ⟨new.peerId, new.displayName, new.capacityLimitMb, .active, new.createdAt, new.vectorDimension⟩

/-- `StorageDb`: the rows of the two tables, by their decoded keys, and the indices in memory.
The ids of tenants are never drawn twice, so the index objects are named by the tenant they were
made for; `indices` says which of them the map of indices still holds, and a running call may
hold others. -/
structure StorageDb where
  tenants : Table TenantId TenantRecord
  vectors : Table (TenantId × DocId) Embedding
  heap : Table TenantId TenantIndex
  indices : Finset TenantId

/-- A call that writes vectors of a tenant. -/
inductive VectorCall where
  | upload (vectors : List (DocId × Embedding))
  | delete (ids : List DocId)
  deriving DecidableEq

def VectorCall.changes : VectorCall → List (DocId × Option Embedding)
  | .upload vectors => vectors.map fun entry => (entry.1, some entry.2)
  | .delete ids => ids.map fun doc => (doc, none)

def loadRow (indices : Table TenantId TenantIndex)
    (row : Sigma fun _ : TenantId × DocId => Embedding) : Table TenantId TenantIndex :=
  match indices.lookup row.1.1 with
  | some index => indices.insert row.1.1 (index.insert row.1.2 row.2)
  | none => indices

def emptyIndex (_ : TenantId) (record : TenantRecord) : Option TenantIndex :=
  if record.status = .deleted then none else some (.new record.vectorDimension)

/-- `StorageDb::rebuild_indices`. -/
def rebuildIndices (tenants : Table TenantId TenantRecord)
    (vectors : Table (TenantId × DocId) Embedding) : Table TenantId TenantIndex :=
  vectors.entries.foldl loadRow (Table.filterMap emptyIndex tenants)

namespace StorageDb

/-- `StorageDb::open` on the tables of a database. -/
def openDb (tenants : Table TenantId TenantRecord)
    (vectors : Table (TenantId × DocId) Embedding) : StorageDb :=
  let indices := rebuildIndices tenants vectors
  ⟨tenants, vectors, indices, indices.keys.toFinset⟩

variable (db : StorageDb)

def index? (tenant : TenantId) : Option TenantIndex :=
  if tenant ∈ db.indices then db.heap.lookup tenant else none

/-- The transaction of `TenantManager::create`. -/
def insertTenant (tenant : TenantId) (new : NewTenant) : StorageDb :=
  { db with tenants := db.tenants.insert tenant new.record }

/-- `TenantManager::create` puts an empty index into the map. -/
def insertIndex (tenant : TenantId) (dimension : Nat) : StorageDb :=
  { db with
    heap := db.heap.insert tenant (.new dimension)
    indices := insert tenant db.indices }

/-- The transaction of `VectorStore::upload` and `VectorStore::delete`. -/
def writeVectors (tenant : TenantId) (call : VectorCall) : StorageDb :=
  { db with
    vectors := db.vectors.putAll (call.changes.map fun change => ((tenant, change.1), change.2)) }

/-- `VectorStore::upload` and `VectorStore::delete` change the index they looked up. -/
def updateIndex (tenant : TenantId) (call : VectorCall) : StorageDb :=
  match db.heap.lookup tenant with
  | some index => { db with heap := db.heap.insert tenant (index.putAll call.changes) }
  | none => db

def keysOf (tenant : TenantId) : List (TenantId × DocId) :=
  db.vectors.keys.filter fun key => key.1 = tenant

/-- The transaction of `TenantManager::delete`; `none` is the error "tenant not found". -/
def deleteTenant? (tenant : TenantId) : Option StorageDb :=
  match db.tenants.lookup tenant with
  | none => none
  | some record =>
    if record.status = .deleted then none
    else some { db with
      tenants := db.tenants.insert tenant { record with status := .deleted }
      vectors := db.vectors.putAll ((db.keysOf tenant).map fun key => (key, none)) }

/-- `TenantManager::delete` takes the index out of the map. -/
def removeIndex (tenant : TenantId) : StorageDb :=
  { db with indices := db.indices.erase tenant }

def inMemory (tenant : TenantId) (doc : DocId) : Option Embedding :=
  (db.index? tenant).bind fun index => index.live doc

/-- The vectors of a tenant that reopening the store reads. -/
def onDisk (tenant : TenantId) (doc : DocId) : Option Embedding :=
  ((rebuildIndices db.tenants db.vectors).lookup tenant).bind fun index => index.live doc

/-- **Agreement** of memory and disk: every tenant has the same vectors in memory and after
reopening the store, and no row of a deleted tenant is left. -/
def Agrees : Prop :=
  (∀ tenant doc, db.inMemory tenant doc = db.onDisk tenant doc) ∧
    ∀ tenant record doc, db.tenants.lookup tenant = some record → record.status = .deleted →
      db.vectors.lookup (tenant, doc) = none

/-- What the store holds of one tenant. -/
structure TenantView where
  record : Option TenantRecord
  rows : DocId → Option Embedding
  index : Option TenantIndex
  registered : Prop

def view (tenant : TenantId) : TenantView :=
  ⟨db.tenants.lookup tenant, fun doc => db.vectors.lookup (tenant, doc), db.heap.lookup tenant,
    tenant ∈ db.indices⟩

end StorageDb

/-! ### Reopening -/

section Rebuild

def rowsOf (tenant : TenantId) (rows : List (Sigma fun _ : TenantId × DocId => Embedding)) :
    List (DocId × Option Embedding) :=
  rows.filterMap fun row => if row.1.1 = tenant then some (row.1.2, some row.2) else none

theorem lookup_loadRows (rows : List (Sigma fun _ : TenantId × DocId => Embedding))
    (indices : Table TenantId TenantIndex) (tenant : TenantId) :
    (rows.foldl loadRow indices).lookup tenant =
      (indices.lookup tenant).map fun index => index.putAll (rowsOf tenant rows) := by
  induction rows generalizing indices with
  | nil => exact Option.map_id'.symm
  | cons row rows ih =>
    rw [foldl_cons, ih, loadRow, rowsOf, rowsOf, filterMap_cons]
    by_cases same : row.1.1 = tenant
    · subst same
      cases held : indices.lookup row.1.1 with
      | none => simp [held]
      | some index => simp [TenantIndex.putAll, TenantIndex.put]
    · rw [if_neg same]
      cases held : indices.lookup row.1.1 with
      | none => rfl
      | some index => rw [AList.lookup_insert_ne (Ne.symm same)]

theorem overlay_rowsOf (vectors : Table (TenantId × DocId) Embedding) (tenant : TenantId)
    (doc : DocId) :
    overlay (rowsOf tenant vectors.entries) (fun _ => none) doc = vectors.lookup (tenant, doc) := by
  have rows : ∀ change ∈ rowsOf tenant vectors.entries, change.1 = doc →
      change.2 = vectors.lookup (tenant, doc) := by
    rintro change member rfl
    obtain ⟨row, present, named⟩ := mem_filterMap.mp member
    split_ifs at named with same
    cases named
    subst same
    exact (AList.mem_lookup_iff.mpr present).symm
  cases held : vectors.lookup (tenant, doc) with
  | none =>
    apply overlay_of_notMem
    intro touched
    obtain ⟨change, member, same⟩ := mem_map.mp touched
    obtain ⟨row, present, named⟩ := mem_filterMap.mp member
    have value := rows change member same
    split_ifs at named
    cases named
    rw [held] at value
    cases value
  | some embedding =>
    refine overlay_of_forall ?_ (fun change member same => (rows change member same).trans held) _
    apply mem_map.mpr
    have present := AList.mem_lookup_iff.mp held
    exact ⟨(doc, some embedding), mem_filterMap.mpr ⟨_, present, if_pos rfl⟩, rfl⟩

/-- **Reopening** reads the rows of the tenants that are not deleted. -/
theorem lookup_rebuildIndices (tenants : Table TenantId TenantRecord)
    (vectors : Table (TenantId × DocId) Embedding) (tenant : TenantId) :
    ((rebuildIndices tenants vectors).lookup tenant).map TenantIndex.live =
      ((tenants.lookup tenant).bind (emptyIndex tenant)).map fun _ doc =>
        vectors.lookup (tenant, doc) := by
  rw [rebuildIndices, lookup_loadRows, Table.lookup_filterMap, Option.map_map]
  cases tenants.lookup tenant with
  | none => rfl
  | some record =>
    by_cases gone : record.status = .deleted
    · simp [emptyIndex, gone]
    · simp only [Option.bind_some, emptyIndex, if_neg gone, Option.map_some, Function.comp,
        TenantIndex.live_putAll, TenantIndex.live_new]
      exact congrArg some (funext (overlay_rowsOf vectors tenant))

end Rebuild

namespace StorageDb

variable (db : StorageDb)

theorem onDisk_eq (tenant : TenantId) (doc : DocId) :
    db.onDisk tenant doc = ((db.tenants.lookup tenant).bind (emptyIndex tenant)).bind fun _ =>
      db.vectors.lookup (tenant, doc) := by
  have rebuilt := lookup_rebuildIndices db.tenants db.vectors tenant
  rw [onDisk]
  revert rebuilt
  cases (rebuildIndices db.tenants db.vectors).lookup tenant <;>
    cases (db.tenants.lookup tenant).bind (emptyIndex tenant) <;> intro rebuilt
  · rfl
  · cases rebuilt
  · cases rebuilt
  · exact congrFun (Option.some.inj rebuilt) doc

/-! ### What a statement does to one tenant -/

section View

variable {tenant other : TenantId}

theorem inMemory_of_registered {index : TenantIndex} (registered : (db.view tenant).registered)
    (held : (db.view tenant).index = some index) (doc : DocId) :
    db.inMemory tenant doc = index.live doc := by
  have present : tenant ∈ db.indices := registered
  have found : db.heap.lookup tenant = some index := held
  rw [inMemory, index?, if_pos present, found]
  rfl

theorem inMemory_of_unregistered (unregistered : ¬ (db.view tenant).registered) (doc : DocId) :
    db.inMemory tenant doc = none := by
  have absent : tenant ∉ db.indices := unregistered
  rw [inMemory, index?, if_neg absent]
  rfl

theorem view_insertTenant (tenant : TenantId) (new : NewTenant) :
    (db.insertTenant tenant new).view tenant =
      { db.view tenant with record := some new.record } := by
  simp [view, insertTenant]

theorem view_insertTenant_of_ne (new : NewTenant) (different : other ≠ tenant) :
    (db.insertTenant tenant new).view other = db.view other := by
  simp [view, insertTenant, AList.lookup_insert_ne different]

theorem view_insertIndex (tenant : TenantId) (dimension : Nat) :
    (db.insertIndex tenant dimension).view tenant =
      { db.view tenant with index := some (.new dimension), registered := True } := by
  simp [view, insertIndex]

theorem view_insertIndex_of_ne (dimension : Nat) (different : other ≠ tenant) :
    (db.insertIndex tenant dimension).view other = db.view other := by
  simp [view, insertIndex, AList.lookup_insert_ne different, different]

theorem view_removeIndex (tenant : TenantId) :
    (db.removeIndex tenant).view tenant = { db.view tenant with registered := False } := by
  simp [view, removeIndex]

theorem view_removeIndex_of_ne (different : other ≠ tenant) :
    (db.removeIndex tenant).view other = db.view other := by
  simp [view, removeIndex, different]

theorem view_updateIndex (tenant : TenantId) (call : VectorCall) :
    (db.updateIndex tenant call).view tenant =
      { db.view tenant with
        index := (db.view tenant).index.map fun index => index.putAll call.changes } := by
  rw [updateIndex]
  cases held : db.heap.lookup tenant with
  | none => simp [view, held]
  | some index => simp [view, held]

theorem view_updateIndex_of_ne (call : VectorCall) (different : other ≠ tenant) :
    (db.updateIndex tenant call).view other = db.view other := by
  rw [updateIndex]
  cases db.heap.lookup tenant with
  | none => rfl
  | some index => simp [view, AList.lookup_insert_ne different]

theorem lookup_writeVectors (tenant : TenantId) (call : VectorCall) :
    (fun doc => (db.writeVectors tenant call).vectors.lookup (tenant, doc)) =
      overlay call.changes fun doc => db.vectors.lookup (tenant, doc) := by
  have injective : Function.Injective (Prod.mk tenant : DocId → TenantId × DocId) :=
    Prod.mk_right_injective tenant
  rw [← overlay_map_injective injective call.changes fun key => db.vectors.lookup key]
  funext doc
  exact congrFun (db.vectors.lookup_putAll _) (tenant, doc)

theorem lookup_writeVectors_of_ne (call : VectorCall) (different : other ≠ tenant) (doc : DocId) :
    (db.writeVectors tenant call).vectors.lookup (other, doc) = db.vectors.lookup (other, doc) := by
  refine (congrFun (db.vectors.lookup_putAll _) (other, doc)).trans (overlay_of_notMem ?_ _)
  intro touched
  simp only [map_map, mem_map, Function.comp] at touched
  obtain ⟨change, _, same⟩ := touched
  exact different (congrArg Prod.fst same).symm

theorem view_writeVectors (tenant : TenantId) (call : VectorCall) :
    (db.writeVectors tenant call).view tenant =
      { db.view tenant with rows := overlay call.changes (db.view tenant).rows } := by
  rw [view, lookup_writeVectors]
  rfl

theorem view_writeVectors_of_ne (call : VectorCall) (different : other ≠ tenant) :
    (db.writeVectors tenant call).view other = db.view other := by
  simp only [view, db.lookup_writeVectors_of_ne call different]
  rfl

theorem mem_keysOf (tenant : TenantId) (key : TenantId × DocId) :
    key ∈ db.keysOf tenant ↔ key ∈ db.vectors ∧ key.1 = tenant := by
  rw [keysOf, mem_filter, AList.mem_keys, decide_eq_true_iff]

variable {db}

theorem deleteTenant?_eq_some {after : StorageDb} (removed : db.deleteTenant? tenant = some after) :
    ∃ record, db.tenants.lookup tenant = some record ∧ record.status = .active ∧
      after.view tenant = { db.view tenant with
        record := some { record with status := .deleted }, rows := fun _ => none } ∧
      ∀ other, other ≠ tenant → after.view other = db.view other := by
  rw [deleteTenant?] at removed
  cases held : db.tenants.lookup tenant with
  | none =>
    rw [held] at removed
    cases removed
  | some record =>
    rw [held] at removed
    dsimp only at removed
    split_ifs at removed with gone
    obtain rfl := Option.some.inj removed
    have active : record.status = .active := by
      cases status : record.status with
      | active => rfl
      | deleted => exact absurd status gone
    have rows (key : TenantId × DocId) :
        (db.vectors.putAll ((db.keysOf tenant).map fun key => (key, none))).lookup key =
          if key.1 = tenant then none else db.vectors.lookup key := by
      refine (congrFun (db.vectors.lookup_putAll _) key).trans ?_
      have changed : (((db.keysOf tenant).map fun key =>
          ((key, none) : _ × Option Embedding)).map Prod.fst) = db.keysOf tenant :=
        map_map.trans (map_id _)
      by_cases touched : key ∈ db.keysOf tenant
      · rw [if_pos ((db.mem_keysOf tenant key).mp touched).2]
        apply overlay_of_forall (by rwa [changed])
        intro change member _
        obtain ⟨_, _, rfl⟩ := mem_map.mp member
        rfl
      · rw [overlay_of_notMem (by rwa [changed])]
        split_ifs with same
        · rw [mem_keysOf, not_and'] at touched
          exact AList.lookup_eq_none.mpr (touched same)
        · rfl
    refine ⟨record, rfl, active, ?_, ?_⟩
    · simp [view, rows]
    · intro other different
      simp [view, rows, different, AList.lookup_insert_ne different]

end View

end StorageDb

end KwaaiNet
