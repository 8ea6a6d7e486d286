import KwaaiNet.Foundation.Bytes
import KwaaiNet.Foundation.Independence
import KwaaiNet.Foundation.MachineNumber
import KwaaiNet.Foundation.Scan
import KwaaiNet.Storage.Db
import KwaaiNet.Storage.Search

/-! # Tenants in one table

The vectors of all tenants are rows of one table, whose keys are the bytes of the tenant and of
the document. The operations of `VectorStore` and `TenantManager` are modelled on these bytes,
and seen through the part of the store that belongs to a tenant. The shared store behaves as a
store of their own for each tenant (`KwaaiNet.ByteStorage.independent`).
-/

namespace KwaaiNet

open Foundation List

/-! ## Keys -/

/-- `[u8; N]`. -/
abbrev ByteVec (length : Nat) := { bytes : List UInt8 // bytes.length = length }

abbrev TenantUuid := ByteVec 16

/-- `i64::to_be_bytes`, in two's complement. -/
def beBytes (doc : Int64) : List UInt8 := toBE 8 doc.toBitVec.toNat

theorem length_beBytes (doc : Int64) : (beBytes doc).length = 8 := length_toBE _ _

theorem length_vectorKey (tenant : TenantUuid) (doc : Int64) :
    (tenant.1 ++ beBytes doc).length = 24 := by
  rw [length_append, length_beBytes, tenant.2]

/-- `vector_key`. -/
def vectorKey (tenant : TenantUuid) (doc : Int64) : ByteVec 24 :=
  ⟨tenant.1 ++ beBytes doc, length_vectorKey tenant doc⟩

theorem beBytes_injective : Function.Injective beBytes := by
  intro first second same
  have numbers : first.toBitVec.toNat % 256 ^ 8 = second.toBitVec.toNat % 256 ^ 8 := by
    rw [← ofBE_toBE, ← ofBE_toBE]
    exact congrArg ofBE same
  have low := first.toBitVec.isLt
  have high := second.toBitVec.isLt
  apply Int64.toBitVec_inj.mp
  apply BitVec.eq_of_toNat_eq
  omega

theorem vectorKey_inj {tenant other : TenantUuid} {doc otherDoc : Int64} :
    (vectorKey tenant doc).1 = (vectorKey other otherDoc).1 ↔ tenant = other ∧ doc = otherDoc := by
  refine ⟨fun same => ?_, fun ⟨sameTenant, sameDoc⟩ => by rw [sameTenant, sameDoc]⟩
  obtain ⟨tenants, docs⟩ := append_inj same (tenant.2.trans other.2.symm)
  exact ⟨Subtype.ext tenants, beBytes_injective docs⟩

theorem startsWith_vectorKey {tenant other : TenantUuid} {doc : Int64} :
    tenant.1 <+: (vectorKey other doc).1 ↔ tenant = other := by
  constructor
  · rintro ⟨rest, whole⟩
    exact Subtype.ext (append_inj whole (tenant.2.trans other.2.symm)).1
  · rintro rfl
    exact List.prefix_append _ _

/-! ## The operations -/

/-- `f32s_to_bytes`. -/
def f32sToBytes (embedding : Embedding) : List UInt8 :=
  embedding.flatMap fun bits => toLE 4 bits.toNat

/-- The libraries that the store calls: similarities, the sort of the exact search, the search
graph and whether it takes a vector without a panic, and the JSON text of a record. -/
structure StorageLibraries (S : Type) [LinearOrder S] [Zero S] [One S] where
  similarity : Embedding → Embedding → S
  sorter : Sorter (DocId × S)
  hnsw : SearchIndex.Hnsw similarity
  accepts : SearchIndex → Embedding → Bool
  encode : TenantRecord → List UInt8
  decode : List UInt8 → Option TenantRecord

inductive StoreError where
  /-- "tenant not found" -/
  | tenantNotFound
  /-- "tenant not found: …" of a deleted tenant -/
  | tenantDeleted (tenant : TenantUuid)
  /-- the record is no JSON text of a record -/
  | corruptRecord
  /-- a transaction fails and is rolled back -/
  | transaction
  /-- the call does not return -/
  | panicked
  deriving DecidableEq

/-- `TenantStats`. -/
structure TenantStats where
  tenantId : TenantUuid
  vectorCount : Int
  storageBytes : Int
  deriving DecidableEq

inductive TenantReply (S : Type) where
  | uploaded (count : Nat)
  | deleted (count : Nat)
  | found (results : List (DocId × S))
  | stats (stats : TenantStats)
  | removed
  deriving DecidableEq

/-- `Arc<Mutex<TenantIndex>>`. A call that panics while it holds the lock poisons it. -/
structure IndexCell where
  index : SearchIndex
  poisoned : Bool

namespace IndexCell

/-- `lock().unwrap()` and what is done with the index; `none` is a panic. The index of a poisoned
lock is never read again. -/
def lock {A : Type} (cell : IndexCell) (body : SearchIndex → Option (SearchIndex × A)) :
    IndexCell × Except StoreError A :=
  if cell.poisoned then (cell, .error .panicked)
  else
    match body cell.index with
    | some (index, answer) => (⟨index, false⟩, .ok answer)
    | none => (⟨cell.index, true⟩, .error .panicked)

end IndexCell

/-- The loop of `upload` over the index. -/
def insertVectors (accepts : SearchIndex → Embedding → Bool) :
    SearchIndex → List (Int64 × Embedding) → Option SearchIndex
  | index, [] => some index
  | index, (doc, embedding) :: vectors =>
    if accepts index embedding then
      insertVectors accepts (index.insert doc.toInt embedding) vectors
    else none

/-- The loop of `delete` over the index, with the number of documents it finds. -/
def tombstoneVectors : SearchIndex → List Int64 → SearchIndex × Nat
  | index, [] => (index, 0)
  | index, doc :: ids =>
    let rest := tombstoneVectors (index.tombstone doc.toInt) ids
    (rest.1, rest.2 + if doc.toInt ∈ index.index.revMap then 1 else 0)

section Calls

variable {S : Type} [LinearOrder S] [Zero S] [One S]

/-- `upload` on the index. -/
def uploadVectors (libraries : StorageLibraries S) (vectors : List (Int64 × Embedding))
    (index : SearchIndex) : Option (SearchIndex × TenantReply S) :=
  (insertVectors libraries.accepts index vectors).map fun index =>
    (index, .uploaded vectors.length)

/-- `delete` on the index. -/
def deleteVectors (ids : List Int64) (index : SearchIndex) :
    Option (SearchIndex × TenantReply S) :=
  some ((tombstoneVectors index ids).1, .deleted (tombstoneVectors index ids).2)

/-- `search` on the index, which may panic. -/
def searchVectors (libraries : StorageLibraries S) (query : Embedding) (topK : Nat)
    (index : SearchIndex) : Option (SearchIndex × TenantReply S) :=
  match index.search libraries.similarity libraries.sorter libraries.hnsw query topK with
  | .ok results => some (index, .found results)
  | .error _ => none

/-- The numbers of `stats`, in `i64`. -/
def tenantStats (tenant : TenantUuid) (liveCount dimension : Nat) : TenantStats where
  tenantId := tenant
  vectorCount := wrap64 liveCount
  storageBytes := wrap64 (wrap64 liveCount * wrap64 (wrap64 (4 * wrap64 dimension) + 24))

/-- `stats` on the index. -/
def statsVectors (tenant : TenantUuid) (index : SearchIndex) :
    Option (SearchIndex × TenantReply S) :=
  some (index, .stats (tenantStats tenant index.index.liveCount index.index.dimension))

end Calls

/-- A call for a tenant. The flag of a call that writes says whether its transaction goes
through. -/
inductive TenantCall where
  | upload (vectors : List (Int64 × Embedding)) (commits : Bool)
  | delete (ids : List Int64) (commits : Bool)
  | search (query : Embedding) (topK : Nat)
  | stats
  | deleteTenant (commits : Bool)

/-- `StorageDb`: the tables by their keys in bytes, and the map of indices. -/
structure ByteStorage where
  tenants : Table TenantUuid (List UInt8)
  vectors : Table (List UInt8) (List UInt8)
  indices : Table TenantUuid IndexCell
  keyed : ∀ key ∈ vectors, key.length = 24

namespace ByteStorage

def keyChanges (tenant : TenantUuid) (changes : List (Int64 × Option (List UInt8))) :
    List (List UInt8 × Option (List UInt8)) :=
  changes.map fun change => ((vectorKey tenant change.1).1, change.2)

variable (db : ByteStorage)

theorem keyed_writeVectors (tenant : TenantUuid) (changes : List (Int64 × Option (List UInt8)))
    (key : List UInt8) (member : key ∈ db.vectors.putAll (keyChanges tenant changes)) :
    key.length = 24 := by
  obtain ⟨row, held⟩ := Option.isSome_iff_exists.mp (AList.lookup_isSome.mpr member)
  rw [congrFun (db.vectors.lookup_putAll _) key] at held
  rcases overlay_eq_some held with written | before
  · obtain ⟨change, _, same⟩ := mem_map.mp written
    have named : (vectorKey tenant change.1).1 = key := congrArg Prod.fst same
    rw [← named]
    exact (vectorKey tenant change.1).2
  · exact db.keyed key (AList.lookup_isSome.mp (by rw [before]; rfl))

/-- The transaction of `upload` and `delete`. -/
def writeVectors (tenant : TenantUuid) (changes : List (Int64 × Option (List UInt8))) :
    ByteStorage where
  tenants := db.tenants
  vectors := db.vectors.putAll (keyChanges tenant changes)
  indices := db.indices
  keyed := db.keyed_writeVectors tenant changes

def withLock {A : Type} (tenant : TenantUuid) (cell : IndexCell)
    (body : SearchIndex → Option (SearchIndex × A)) : ByteStorage × Except StoreError A :=
  ({ db with indices := db.indices.insert tenant (cell.lock body).1 }, (cell.lock body).2)

/-- The loop of `TenantManager::delete` over the rows from the first possible key of the tenant
on; `none` is the panic of `copy_from_slice` on a key of another length. -/
def collectKeys (tenant : TenantUuid) : List (List UInt8) → Option (List (ByteVec 24))
  | [] => some []
  | key :: keys =>
    if key.length < 16 ∨ key.take 16 ≠ tenant.1 then some []
    else if fits : key.length = 24 then (collectKeys tenant keys).map (⟨key, fits⟩ :: ·)
    else none

/-- The keys that `TenantManager::delete` removes. -/
def keysToDelete (tenant : TenantUuid) : Option (List (ByteVec 24)) :=
  collectKeys tenant (db.vectors.keysFrom (tenant.1 ++ List.replicate 8 0))

theorem keyed_removeTenant (keys : List (ByteVec 24)) (key : List UInt8)
    (member : key ∈ db.vectors.putAll ((keys.map Subtype.val).map fun key => (key, none))) :
    key.length = 24 := by
  obtain ⟨row, held⟩ := Option.isSome_iff_exists.mp (AList.lookup_isSome.mpr member)
  rw [Table.lookup_putAll_none] at held
  split_ifs at held
  exact db.keyed key (AList.lookup_isSome.mp (by rw [held]; rfl))

/-- The transaction of `TenantManager::delete`, after which the index leaves the map. -/
def removeTenant (tenant : TenantUuid) (record : List UInt8) (keys : List (ByteVec 24)) :
    ByteStorage where
  tenants := db.tenants.insert tenant record
  vectors := db.vectors.putAll ((keys.map Subtype.val).map fun key => (key, none))
  indices := db.indices.erase tenant
  keyed := db.keyed_removeTenant keys

section Calls

variable {S : Type} (tenant : TenantUuid)

/-- The common course of `upload` and `delete` for a batch that is not empty. -/
def write (changes : List (Int64 × Option (List UInt8))) (commits : Bool)
    (body : SearchIndex → Option (SearchIndex × TenantReply S)) :
    ByteStorage × Except StoreError (TenantReply S) :=
  match db.indices.lookup tenant with
  | none => (db, .error .tenantNotFound)
  | some cell =>
    if commits then (db.writeVectors tenant changes).withLock tenant cell body
    else (db, .error .transaction)

variable [LinearOrder S] [Zero S] [One S] (libraries : StorageLibraries S)

/-- `VectorStore::upload`. -/
def upload (vectors : List (Int64 × Embedding)) (commits : Bool) :
    ByteStorage × Except StoreError (TenantReply S) :=
  if vectors = [] then (db, .ok (.uploaded 0))
  else
    db.write tenant (vectors.map fun entry => (entry.1, some (f32sToBytes entry.2))) commits
      (uploadVectors libraries vectors)

/-- `VectorStore::delete`. -/
def delete (ids : List Int64) (commits : Bool) :
    ByteStorage × Except StoreError (TenantReply S) :=
  if ids = [] then (db, .ok (.deleted 0))
  else db.write tenant (ids.map fun doc => (doc, none)) commits (deleteVectors ids)

/-- `VectorStore::search`. -/
def search (query : Embedding) (topK : Nat) : ByteStorage × Except StoreError (TenantReply S) :=
  match db.indices.lookup tenant with
  | none => (db, .error .tenantNotFound)
  | some cell => db.withLock tenant cell (searchVectors libraries query topK)

/-- `TenantManager::stats`. -/
def stats : ByteStorage × Except StoreError (TenantReply S) :=
  match db.indices.lookup tenant with
  | none => (db, .ok (.stats (tenantStats tenant 0 384)))
  | some cell => db.withLock tenant cell (statsVectors tenant)

/-- `TenantManager::delete`. -/
def deleteTenant (commits : Bool) : ByteStorage × Except StoreError (TenantReply S) :=
  match db.tenants.lookup tenant with
  | none => (db, .error .tenantNotFound)
  | some bytes =>
    match libraries.decode bytes with
    | none => (db, .error .corruptRecord)
    | some record =>
      if record.status = .deleted then (db, .error (.tenantDeleted tenant))
      else
        match db.keysToDelete tenant with
        | none => (db, .error .panicked)
        | some keys =>
          if commits then
            let marked := libraries.encode { record with status := .deleted }
            (db.removeTenant tenant marked keys, .ok .removed)
          else (db, .error .transaction)

def step (call : TenantCall) : ByteStorage × Except StoreError (TenantReply S) :=
  match call with
  | .upload vectors commits => db.upload tenant libraries vectors commits
  | .delete ids commits => db.delete tenant ids commits
  | .search query topK => db.search tenant libraries query topK
  | .stats => db.stats tenant
  | .deleteTenant commits => db.deleteTenant tenant libraries commits

end Calls

end ByteStorage

/-! ## A store for each tenant -/

/-- What the store holds of a tenant: its record, its rows by document, and its index. -/
structure TenantPart where
  record : Option (List UInt8)
  rows : Int64 → Option (List UInt8)
  cell : Option IndexCell

namespace TenantPart

variable {S : Type} (part : TenantPart)

def withLock {A : Type} (cell : IndexCell) (body : SearchIndex → Option (SearchIndex × A)) :
    TenantPart × Except StoreError A :=
  ({ part with cell := some (cell.lock body).1 }, (cell.lock body).2)

def write (changes : List (Int64 × Option (List UInt8))) (commits : Bool)
    (body : SearchIndex → Option (SearchIndex × TenantReply S)) :
    TenantPart × Except StoreError (TenantReply S) :=
  match part.cell with
  | none => (part, .error .tenantNotFound)
  | some cell =>
    if commits then { part with rows := overlay changes part.rows }.withLock cell body
    else (part, .error .transaction)

variable [LinearOrder S] [Zero S] [One S] (tenant : TenantUuid) (libraries : StorageLibraries S)

/-- Deletes an active tenant: its record is marked, and nothing else is left. -/
def remove (commits : Bool) : TenantPart × Except StoreError (TenantReply S) :=
  match part.record with
  | none => (part, .error .tenantNotFound)
  | some bytes =>
    match libraries.decode bytes with
    | none => (part, .error .corruptRecord)
    | some record =>
      if record.status = .deleted then (part, .error (.tenantDeleted tenant))
      else if commits then
        (⟨some (libraries.encode { record with status := .deleted }), fun _ => none, none⟩,
          .ok .removed)
      else (part, .error .transaction)

def step (call : TenantCall) : TenantPart × Except StoreError (TenantReply S) :=
  match call with
  | .upload vectors commits =>
    if vectors = [] then (part, .ok (.uploaded 0))
    else part.write (vectors.map fun entry => (entry.1, some (f32sToBytes entry.2))) commits
      (uploadVectors libraries vectors)
  | .delete ids commits =>
    if ids = [] then (part, .ok (.deleted 0))
    else part.write (ids.map fun doc => (doc, none)) commits (deleteVectors ids)
  | .search query topK =>
    match part.cell with
    | none => (part, .error .tenantNotFound)
    | some cell => part.withLock cell (searchVectors libraries query topK)
  | .stats =>
    match part.cell with
    | none => (part, .ok (.stats (tenantStats tenant 0 384)))
    | some cell => part.withLock cell (statsVectors tenant)
  | .deleteTenant commits => part.remove tenant libraries commits

end TenantPart

namespace ByteStorage

def part (db : ByteStorage) (tenant : TenantUuid) : TenantPart :=
  ⟨db.tenants.lookup tenant, fun doc => db.vectors.lookup (vectorKey tenant doc).1,
    db.indices.lookup tenant⟩

section Parts

variable (db : ByteStorage) (tenant : TenantUuid)

theorem part_writeVectors (changes : List (Int64 × Option (List UInt8))) :
    (db.writeVectors tenant changes).part = Function.update db.part tenant
      { db.part tenant with rows := overlay changes (db.part tenant).rows } := by
  have written (key : List UInt8) :
      (db.writeVectors tenant changes).vectors.lookup key =
        overlay (keyChanges tenant changes) (fun key => db.vectors.lookup key) key :=
    congrFun (db.vectors.lookup_putAll _) key
  funext other
  by_cases same : other = tenant
  · subst same
    rw [Function.update_self]
    have injective : Function.Injective fun doc => (vectorKey other doc).1 :=
      fun _ _ keys => (vectorKey_inj.mp keys).2
    have rows := overlay_map_injective injective changes fun key => db.vectors.lookup key
    simp only [part, written]
    rw [← rows]
    rfl
  · rw [Function.update_of_ne same]
    have rows (doc : Int64) : (db.writeVectors tenant changes).vectors.lookup
        (vectorKey other doc).1 = db.vectors.lookup (vectorKey other doc).1 := by
      rw [written]
      apply overlay_of_notMem
      intro touched
      obtain ⟨_, member, named⟩ := mem_map.mp touched
      obtain ⟨change, _, rfl⟩ := mem_map.mp member
      exact same (vectorKey_inj.mp named).1.symm
    simp only [part, rows]
    rfl

theorem part_withLock {A : Type} (cell : IndexCell)
    (body : SearchIndex → Option (SearchIndex × A)) :
    (db.withLock tenant cell body).1.part = Function.update db.part tenant
      ((db.part tenant).withLock cell body).1 := by
  funext other
  by_cases same : other = tenant
  · subst same
    rw [Function.update_self]
    simp only [part, withLock, TenantPart.withLock, AList.lookup_insert]
  · rw [Function.update_of_ne same]
    simp only [part, withLock, AList.lookup_insert_ne same]

/-! ### The scan -/

theorem startsWith_iff {key : List UInt8} :
    tenant.1 <+: key ↔ ¬ (key.length < 16 ∨ key.take 16 ≠ tenant.1) := by
  rw [List.prefix_iff_eq_take, tenant.2, not_or, not_lt, not_not]
  constructor
  · intro same
    have length := congrArg List.length same
    rw [tenant.2, length_take] at length
    exact ⟨by omega, same.symm⟩
  · exact fun both => both.2.symm

theorem collectKeys_eq {keys : List (List UInt8)} (keyed : ∀ key ∈ keys, key.length = 24) :
    ∃ collected, collectKeys tenant keys = some collected ∧
      collected.map Subtype.val = keys.takeWhile (tenant.1 <+: ·) := by
  induction keys with
  | nil => exact ⟨[], rfl, rfl⟩
  | cons key keys ih =>
    obtain ⟨collected, found, names⟩ := ih fun other later =>
      keyed other (mem_cons_of_mem _ later)
    by_cases starts : tenant.1 <+: key
    · refine ⟨⟨key, keyed key mem_cons_self⟩ :: collected, ?_, ?_⟩
      · rw [collectKeys, if_neg (startsWith_iff tenant |>.mp starts),
          dif_pos (keyed key mem_cons_self), found]
        rfl
      · rw [takeWhile_cons_of_pos (by simpa using starts)]
        exact congrArg (key :: ·) names
    · refine ⟨[], ?_, ?_⟩
      · rw [collectKeys, if_pos (not_not.mp (mt (startsWith_iff tenant).mpr starts))]
      · rw [takeWhile_cons_of_neg (by simpa using starts)]
        rfl

/-- **The scan finds the keys of the tenant**, all of them and no others. -/
theorem keysToDelete_eq :
    ∃ keys, db.keysToDelete tenant = some keys ∧
      ∀ key, key ∈ keys.map Subtype.val ↔ key ∈ db.vectors ∧ tenant.1 <+: key := by
  have keyed : ∀ key ∈ db.vectors.keysFrom (tenant.1 ++ List.replicate 8 0), key.length = 24 :=
    fun key member => db.keyed key (Table.mem_keysFrom.mp member).1
  obtain ⟨keys, collected, names⟩ := collectKeys_eq tenant keyed
  refine ⟨keys, collected, fun key => ?_⟩
  rw [names]
  refine Table.mem_takeWhile_keysFrom (contiguous_startingWith tenant.1)
    (List.prefix_append _ _) ?_
  -- a key of the tenant goes on with eight bytes
  rintro _ member ⟨rest, rfl⟩
  have length := db.keyed _ member
  rw [length_append, tenant.2] at length
  have eight : rest.length = 8 := by omega
  rw [← eight]
  exact append_replicate_le (fun _ => UInt8.zero_le) tenant.1 rest

variable {db tenant}

theorem lookup_removeTenant {record : List UInt8} {keys : List (ByteVec 24)}
    (found : db.keysToDelete tenant = some keys) (key : List UInt8) :
    (db.removeTenant tenant record keys).vectors.lookup key =
      if tenant.1 <+: key then none else db.vectors.lookup key := by
  obtain ⟨_, same, members⟩ := db.keysToDelete_eq tenant
  obtain rfl := Option.some.inj (found.symm.trans same)
  refine (db.vectors.lookup_putAll_none _ key).trans ?_
  by_cases starts : tenant.1 <+: key
  · rw [if_pos starts]
    split_ifs with listed
    · rfl
    · exact AList.lookup_eq_none.mpr fun member => listed ((members key).mpr ⟨member, starts⟩)
  · rw [if_neg starts, if_neg fun listed => starts ((members key).mp listed).2]

theorem part_removeTenant {record : List UInt8} {keys : List (ByteVec 24)}
    (found : db.keysToDelete tenant = some keys) :
    (db.removeTenant tenant record keys).part =
      Function.update db.part tenant ⟨some record, fun _ => none, none⟩ := by
  funext other
  by_cases same : other = tenant
  · subst same
    rw [Function.update_self]
    simp only [part, lookup_removeTenant found, startsWith_vectorKey, if_true]
    simp only [removeTenant, AList.lookup_insert, AList.lookup_erase]
  · rw [Function.update_of_ne same]
    simp only [part, lookup_removeTenant found, startsWith_vectorKey, if_neg (Ne.symm same)]
    simp only [removeTenant, AList.lookup_insert_ne same, AList.lookup_erase_ne same]

end Parts

/-! ### Isolation -/

section Isolation

variable {S : Type} (db : ByteStorage) (tenant : TenantUuid)

def Mirrors (outcome : ByteStorage × Except StoreError (TenantReply S))
    (own : TenantPart × Except StoreError (TenantReply S)) : Prop :=
  outcome.2 = own.2 ∧ outcome.1.part = Function.update db.part tenant own.1

theorem mirrors_unchanged (reply : Except StoreError (TenantReply S)) :
    db.Mirrors tenant (db, reply) (db.part tenant, reply) :=
  ⟨rfl, (Function.update_eq_self tenant db.part).symm⟩

theorem mirrors_withLock (cell : IndexCell)
    (body : SearchIndex → Option (SearchIndex × TenantReply S)) :
    db.Mirrors tenant (db.withLock tenant cell body) ((db.part tenant).withLock cell body) :=
  ⟨rfl, db.part_withLock tenant cell body⟩

theorem mirrors_write (changes : List (Int64 × Option (List UInt8))) (commits : Bool)
    (body : SearchIndex → Option (SearchIndex × TenantReply S)) :
    db.Mirrors tenant (db.write tenant changes commits body)
      ((db.part tenant).write changes commits body) := by
  rw [write, TenantPart.write]
  change Mirrors _ _ _ (match db.indices.lookup tenant with | none => _ | some cell => _)
  cases db.indices.lookup tenant with
  | none => exact db.mirrors_unchanged tenant _
  | some cell =>
    dsimp only
    split_ifs with goes
    · refine ⟨rfl, ?_⟩
      rw [part_withLock, part_writeVectors, Function.update_self, Function.update_idem]
    · exact db.mirrors_unchanged tenant _

variable [LinearOrder S] [Zero S] [One S] (libraries : StorageLibraries S)

theorem mirrors_deleteTenant (commits : Bool) :
    db.Mirrors tenant (db.deleteTenant tenant libraries commits)
      ((db.part tenant).remove tenant libraries commits) := by
  rw [deleteTenant, TenantPart.remove]
  change Mirrors _ _ _ (match db.tenants.lookup tenant with | none => _ | some bytes => _)
  cases db.tenants.lookup tenant with
  | none => exact db.mirrors_unchanged tenant _
  | some bytes =>
    dsimp only
    cases libraries.decode bytes with
    | none => exact db.mirrors_unchanged tenant _
    | some record =>
      dsimp only
      split_ifs with gone goes
      · exact db.mirrors_unchanged tenant _
      · obtain ⟨keys, found, _⟩ := db.keysToDelete_eq tenant
        rw [found]
        exact ⟨rfl, part_removeTenant found⟩
      · obtain ⟨keys, found, _⟩ := db.keysToDelete_eq tenant
        rw [found]
        exact db.mirrors_unchanged tenant _

theorem mirrors_step (call : TenantCall) :
    db.Mirrors tenant (db.step tenant libraries call)
      ((db.part tenant).step tenant libraries call) := by
  cases call with
  | upload vectors commits =>
    rw [step, TenantPart.step, upload]
    split_ifs with empty
    · exact db.mirrors_unchanged tenant _
    · exact db.mirrors_write tenant _ commits _
  | delete ids commits =>
    rw [step, TenantPart.step, delete]
    split_ifs with empty
    · exact db.mirrors_unchanged tenant _
    · exact db.mirrors_write tenant _ commits _
  | search query topK =>
    rw [step, TenantPart.step, search]
    change Mirrors _ _ _ (match db.indices.lookup tenant with | none => _ | some cell => _)
    cases db.indices.lookup tenant with
    | none => exact db.mirrors_unchanged tenant _
    | some cell => exact db.mirrors_withLock tenant cell _
  | stats =>
    rw [step, TenantPart.step, stats]
    change Mirrors _ _ _ (match db.indices.lookup tenant with | none => _ | some cell => _)
    cases db.indices.lookup tenant with
    | none => exact db.mirrors_unchanged tenant _
    | some cell => exact db.mirrors_withLock tenant cell _
  | deleteTenant commits => exact db.mirrors_deleteTenant tenant libraries commits

/-- **The shared store is a store for each tenant.** -/
theorem independent : Independent part
    (fun tenant call db => step db tenant libraries call)
    (fun tenant call part => part.step tenant libraries call) where
  answer tenant call db := (db.mirrors_step tenant libraries call).1
  change tenant call db := (db.mirrors_step tenant libraries call).2

def ActiveTenant : Prop :=
  ∃ bytes record, db.tenants.lookup tenant = some bytes ∧ libraries.decode bytes = some record ∧
    record.status = .active

theorem deleteTenant_cases (commits : Bool) :
    (commits = true ∧ db.ActiveTenant tenant libraries ∧ ∃ record keys,
      db.keysToDelete tenant = some keys ∧
      db.deleteTenant tenant libraries commits =
        (db.removeTenant tenant record keys, .ok .removed)) ∨
    ¬ (commits = true ∧ db.ActiveTenant tenant libraries) ∧
      ∃ error, db.deleteTenant tenant libraries commits = (db, .error error) := by
  rw [deleteTenant]
  cases held : db.tenants.lookup tenant with
  | none =>
    refine .inr ⟨?_, _, rfl⟩
    rintro ⟨_, bytes, record, found, _⟩
    cases held.symm.trans found
  | some bytes =>
    dsimp only
    cases decoded : libraries.decode bytes with
    | none =>
      refine .inr ⟨?_, _, rfl⟩
      rintro ⟨_, other, record, found, readable, _⟩
      obtain rfl := Option.some.inj (held.symm.trans found)
      cases decoded.symm.trans readable
    | some record =>
      dsimp only
      split_ifs with gone goes
      · refine .inr ⟨?_, _, rfl⟩
        rintro ⟨_, other, also, found, readable, active⟩
        obtain rfl := Option.some.inj (held.symm.trans found)
        obtain rfl := Option.some.inj (decoded.symm.trans readable)
        cases gone.symm.trans active
      · obtain ⟨keys, found, _⟩ := db.keysToDelete_eq tenant
        have active : record.status = .active := by
          cases status : record.status with
          | active => rfl
          | deleted => exact absurd status gone
        rw [found]
        exact .inl ⟨goes, ⟨bytes, record, held, decoded, active⟩, _, keys, rfl, rfl⟩
      · obtain ⟨keys, found, _⟩ := db.keysToDelete_eq tenant
        rw [found]
        exact .inr ⟨fun both => goes both.1, _, rfl⟩

/-- **Tenant isolation.** In every state of the store, a call for a tenant leaves the record, the
rows and the index of every other tenant as they are, and its answer depends on the part of its
own tenant alone. Deleting a tenant succeeds exactly for an active one, and then removes exactly
the rows whose key starts with the bytes of the tenant. -/
theorem tenants_isolated {other : TenantUuid} (different : other ≠ tenant) :
    (∀ call, (db.step tenant libraries call).1.part other = db.part other) ∧
    (∀ call, ∀ elsewhere : ByteStorage, elsewhere.part tenant = db.part tenant →
      (elsewhere.step tenant libraries call).2 = (db.step tenant libraries call).2) ∧
    ∀ commits,
      ((db.step tenant libraries (.deleteTenant commits)).2 = .ok .removed ↔
        commits = true ∧ db.ActiveTenant tenant libraries) ∧
      ((db.step tenant libraries (.deleteTenant commits)).2 = .ok .removed →
        ∀ key, (db.step tenant libraries (.deleteTenant commits)).1.vectors.lookup key =
          if tenant.1 <+: key then none else db.vectors.lookup key) ∧
      ((db.step tenant libraries (.deleteTenant commits)).2 ≠ .ok .removed →
        (db.step tenant libraries (.deleteTenant commits)).1 = db) := by
  refine ⟨fun call => ?_, fun call elsewhere same => ?_, fun commits => ?_⟩
  · exact (independent libraries).unchanged different call db
  · exact (independent libraries).answer_congr call same
  · rw [step]
    rcases db.deleteTenant_cases tenant libraries commits with
      ⟨goes, active, record, keys, found, removed⟩ | ⟨stays, error, refused⟩
    · rw [removed]
      exact ⟨iff_of_true rfl ⟨goes, active⟩, fun _ => lookup_removeTenant found,
        fun failed => absurd rfl failed⟩
    · rw [refused]
      have failed : (Except.error error : Except StoreError (TenantReply S)) ≠ .ok .removed := by
        intro same
        cases same
      exact ⟨iff_of_false failed stays, fun ok => absurd ok failed, fun _ => rfl⟩

/-! ### Two tenants -/

/-- Libraries with the dot product, a graph that compares all slots and takes every vector, and
records of one byte. -/
def plainLibraries : StorageLibraries ℚ where
  similarity := SearchIndex.dotProduct
  sorter := .insertion
  hnsw := .exact SearchIndex.dotProduct
  accepts _ _ := true
  encode record := if record.status = .active then [1] else [0]
  decode bytes := some ⟨"", none, 0, if bytes = [1] then .active else .deleted, "", 2⟩

def uuidOf (byte : UInt8) : TenantUuid := ⟨List.replicate 16 byte, length_replicate⟩

def lowTenant : TenantUuid := uuidOf 1

def highTenant : TenantUuid := uuidOf 2

theorem keyed_empty (key : List UInt8) (member : key ∈ (∅ : Table (List UInt8) (List UInt8))) :
    key.length = 24 :=
  absurd member (AList.notMem_empty key)

def twoTenants : ByteStorage :=
  (ByteStorage.mk ((AList.singleton highTenant [1]).insert lowTenant [1]) ∅ ∅ keyed_empty
    |>.writeVectors lowTenant [(-1, some [7])]).writeVectors highTenant [(5, some [8])]

/-- Deleting one of them removes its row and leaves the other tenant as it is. -/
theorem twoTenants_isolated :
    (twoTenants.step lowTenant plainLibraries (.deleteTenant true)).2 = .ok .removed ∧
    (twoTenants.step lowTenant plainLibraries (.deleteTenant true)).1.vectors.lookup
      (vectorKey lowTenant (-1)).1 = none ∧
    (twoTenants.step lowTenant plainLibraries (.deleteTenant true)).1.part highTenant =
      twoTenants.part highTenant := by
  have different : highTenant ≠ lowTenant := by decide
  obtain ⟨frame, _, removal⟩ := tenants_isolated twoTenants lowTenant plainLibraries different
  have removed := (removal true).1.mpr ⟨rfl, [1], _, rfl, rfl, rfl⟩
  refine ⟨removed, ?_, frame _⟩
  rw [(removal true).2.1 removed, if_pos (startsWith_vectorKey.mpr rfl)]

end Isolation

end ByteStorage

end KwaaiNet
