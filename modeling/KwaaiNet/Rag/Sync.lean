import KwaaiNet.Foundation.Execution
import KwaaiNet.Foundation.Slices
import KwaaiNet.Foundation.Staged
import KwaaiNet.Foundation.Table

/-! # Keeping a knowledge base in step with a folder

A sync pass compares a folder with the records of earlier passes, forgets and ingests documents,
and at the end drops the documents whose files are gone. What it stores is split over the rows
of the chunks, the index of the documents, the records of the files and the vector store, which
are updated one after another, and a pass may stop after any of these operations. The stores are
seen as one map from documents to the files they were read from; forgetting and ingesting a
document are the two changes of that map, as long as they are not cut in half.
-/

namespace KwaaiNet.Rag

open Foundation List

abbrev DocName := String

/-- An `i64` chunk id. -/
abbrev ChunkId := Int

/-- `ChunkMeta`, without the time of the ingestion and the tags of its section. -/
structure ChunkMeta where
  docName : DocName
  chunkIndex : Nat
  text : String
  surrounding : String
  deriving DecidableEq

structure Chunk where
  id : ChunkId
  row : ChunkMeta
  deriving DecidableEq

/-- `SyncMeta`. -/
structure SyncMeta where
  filePath : String
  mtimeSecs : Nat
  fileSize : Nat
  deriving DecidableEq

/-- A file that a pass finds, with the text that is extracted from it, if that succeeds. -/
structure SourceFile where
  docName : DocName
  path : String
  mtimeSecs : Nat
  fileSize : Nat
  text : Option String
  deriving DecidableEq

def SourceFile.syncMeta (file : SourceFile) : SyncMeta :=
  ⟨file.path, file.mtimeSecs, file.fileSize⟩

/-- `split_text` with the settings of the sync; the chunks of a document carry its name. -/
structure Chunker where
  split : DocName → String → List Chunk
  named : ∀ docName text, ∀ chunk ∈ split docName text, chunk.row.docName = docName

def Chunker.chunks (chunker : Chunker) (file : SourceFile) : List Chunk :=
  match file.text with
  | some text => chunker.split file.docName text
  | none => []

theorem Chunker.docName_of_mem (chunker : Chunker) {file : SourceFile} {chunk : Chunk}
    (member : chunk ∈ chunker.chunks file) : chunk.row.docName = file.docName := by
  rw [Chunker.chunks] at member
  split at member
  · exact chunker.named _ _ chunk member
  · cases member

/-! ## The stores -/

/-- The tables of the `MetaStore`, and the ids in the vector store. -/
structure RagStore where
  chunks : Table ChunkId ChunkMeta
  docs : Table DocName (List ChunkId)
  sync : Table DocName SyncMeta
  vectors : Finset ChunkId

namespace RagStore

def empty : RagStore := ⟨∅, ∅, ∅, ∅⟩

variable (store : RagStore)

def idsOf (docName : DocName) : List ChunkId := (store.docs.lookup docName).getD []

def mergeIds (existing new : List ChunkId) : List ChunkId :=
  ((existing ++ new).insertionSort (· ≤ ·)).dedup

/-- `MetaStore::put_chunks`. -/
def putChunks (chunks : List Chunk) : RagStore :=
  { store with
    chunks := store.chunks.putAll (chunks.map fun chunk => (chunk.id, some chunk.row))
    docs := (chunks.map fun chunk => chunk.row.docName).dedup.foldl (fun docs docName =>
      docs.insert docName (mergeIds ((docs.lookup docName).getD [])
        ((chunks.filter fun chunk => chunk.row.docName = docName).map Chunk.id))) store.docs }

/-- `MetaStore::delete_doc`, for the store it leaves. -/
def deleteDoc (docName : DocName) : RagStore :=
  match store.docs.lookup docName with
  | none => store
  | some ids =>
    { store with
      chunks := store.chunks.putAll (ids.map fun id => (id, none))
      docs := store.docs.erase docName }

end RagStore

/-- The store operations of a pass. -/
inductive StoreOp where
  | deleteDoc (docName : DocName)
  | deleteVectors (ids : List ChunkId)
  | deleteSyncMeta (docName : DocName)
  | upload (ids : List ChunkId)
  | putChunks (chunks : List Chunk)
  | putSyncMeta (docName : DocName) (sync : SyncMeta)

namespace RagStore

def apply (store : RagStore) : StoreOp → RagStore
  | .deleteDoc docName => store.deleteDoc docName
  | .deleteVectors ids => { store with vectors := store.vectors \ ids.toFinset }
  | .deleteSyncMeta docName => { store with sync := store.sync.erase docName }
  | .upload ids => { store with vectors := store.vectors ∪ ids.toFinset }
  | .putChunks chunks => store.putChunks chunks
  | .putSyncMeta docName sync => { store with sync := store.sync.insert docName sync }

def run (store : RagStore) (operations : List StoreOp) : RagStore := operations.foldl apply store

end RagStore

/-! ## The pass -/

section Pass

variable (chunker : Chunker)

def vectorOps (ids : List ChunkId) : List StoreOp := if ids = [] then [] else [.deleteVectors ids]

/-- Before a changed file is read, its old version is forgotten. -/
def forgetOps (store : RagStore) (docName : DocName) : List StoreOp :=
  .deleteDoc docName :: vectorOps (store.idsOf docName) ++ [.deleteSyncMeta docName]

/-- A document whose file is gone is dropped; here the record goes before the vectors. -/
def dropOps (store : RagStore) (docName : DocName) : List StoreOp :=
  .deleteDoc docName :: .deleteSyncMeta docName :: vectorOps (store.idsOf docName)

/-- `ingest_text`: batches of vectors, and then the chunks. -/
def ingestOps (chunks : List Chunk) : List StoreOp :=
  if chunks = [] then []
  else
    ((batches 64 chunks).map fun batch => .upload (batch.map Chunk.id)) ++ [.putChunks chunks]

def readOps (file : SourceFile) : List StoreOp :=
  ingestOps (chunker.chunks file) ++ [.putSyncMeta file.docName file.syncMeta]

def readStages (file : SourceFile) : List (List StoreOp) :=
  if file.text.isSome then [readOps chunker file] else []

/-- One turn of the loop over the files, in stages: forgetting the old version, if there is a
record of one, and reading the file. -/
def fileStages (store : RagStore) (file : SourceFile) : List (List StoreOp) :=
  match store.sync.lookup file.docName with
  | none => readStages chunker file
  | some prev =>
    if prev.mtimeSecs ≠ file.mtimeSecs ∨ prev.fileSize ≠ file.fileSize then
      forgetOps store file.docName :: readStages chunker file
    else []

def folderStages : RagStore → List SourceFile → List (List StoreOp)
  | _, [] => []
  | store, file :: files =>
    let stages := fileStages chunker store file
    stages ++ folderStages (store.run stages.flatten) files

/-- The loop over the records of files that are gone. -/
def dropStages : RagStore → List DocName → List (List StoreOp)
  | _, [] => []
  | store, docName :: docNames =>
    dropOps store docName :: dropStages (store.run (dropOps store docName)) docNames

/-- One call of `run_sync_pass`: what it finds in the folder, whether it deletes, and the number
of store operations after which it stops, if it does. -/
structure SyncPass where
  folder : List SourceFile
  distinct : (folder.map SourceFile.docName).Nodup
  delete : Bool
  stop : Option Nat

/-- The documents with a record but without a file, in the order of the table. -/
def goneDocs (store : RagStore) (folder : List SourceFile) : List DocName :=
  (store.sync.keys.insertionSort (· ≤ ·)).filter (· ∉ folder.map SourceFile.docName)

def passStages (store : RagStore) (pass : SyncPass) : List (List StoreOp) :=
  let files := folderStages chunker store pass.folder
  let afterFiles := store.run files.flatten
  if pass.delete then files ++ dropStages afterFiles (goneDocs afterFiles pass.folder) else files

/-- `run_sync_pass`, with an end by an error or a kill. -/
def runSyncPass (store : RagStore) (pass : SyncPass) : RagStore :=
  let operations := (passStages chunker store pass).flatten
  match pass.stop with
  | none => store.run operations
  | some count => store.run (operations.take count)

end Pass

/-! ## What the stores hold -/

section Contents

variable (chunker : Chunker)

/-- The files that the documents of a knowledge base were read from. -/
abbrev Contents := DocName → Option SourceFile

def Contents.Has (contents : Contents) (docName : DocName) (chunk : Chunk) : Prop :=
  ∃ file, contents docName = some file ∧ chunk ∈ chunker.chunks file

/-- **The stores hold the contents**: a record for each document, and its chunks in the table, in
the index and in the vector store, and nothing else. -/
structure Represents (store : RagStore) (contents : Contents) : Prop where
  sync : ∀ docName, store.sync.lookup docName = (contents docName).map SourceFile.syncMeta
  docs : ∀ docName id, id ∈ store.idsOf docName ↔
    ∃ chunk, contents.Has chunker docName chunk ∧ chunk.id = id
  rows : ∀ id row, store.chunks.lookup id = some row ↔
    ∃ docName, contents.Has chunker docName ⟨id, row⟩
  vectors : ∀ id, id ∈ store.vectors ↔
    ∃ docName chunk, contents.Has chunker docName chunk ∧ chunk.id = id

/-- The files of a history have chunks with ids of their own: a file has no id twice, and files
of different documents have none in common. -/
structure IdsApart (files : List SourceFile) : Prop where
  nodup : ∀ file ∈ files, ((chunker.chunks file).map Chunk.id).Nodup
  disjoint : ∀ first ∈ files, ∀ second ∈ files, first.docName ≠ second.docName →
    ∀ chunk ∈ chunker.chunks first, ∀ other ∈ chunker.chunks second, chunk.id ≠ other.id

/-- A changed file has another modification time or another size. -/
def Stamped (files : List SourceFile) : Prop :=
  ∀ first ∈ files, ∀ second ∈ files, first.docName = second.docName →
    first.mtimeSecs = second.mtimeSecs → first.fileSize = second.fileSize →
      first.text.isSome → second.text.isSome → first.text = second.text

def Contents.From (contents : Contents) (files : List SourceFile) : Prop :=
  ∀ docName file, contents docName = some file →
    file ∈ files ∧ file.docName = docName ∧ file.text.isSome

end Contents

/-! ## Forgetting a document -/

namespace RagStore

variable (store : RagStore) (docName : DocName)

/-- The stores without a document. -/
def forgotten : RagStore where
  chunks := store.chunks.putAll ((store.idsOf docName).map fun id => (id, none))
  docs := store.docs.erase docName
  sync := store.sync.erase docName
  vectors := store.vectors \ (store.idsOf docName).toFinset

theorem apply_deleteDoc : store.apply (.deleteDoc docName) =
    { store with
      chunks := store.chunks.putAll ((store.idsOf docName).map fun id => (id, none))
      docs := store.docs.erase docName } := by
  rw [apply, deleteDoc, idsOf]
  cases held : store.docs.lookup docName with
  | some ids => rfl
  | none =>
    have absent : store.docs.erase docName = store.docs :=
      AList.ext (kerase_of_notMem_keys (AList.lookup_eq_none.mp held))
    rw [absent]
    rfl

theorem run_vectorOps (ids : List ChunkId) :
    store.run (vectorOps ids) = { store with vectors := store.vectors \ ids.toFinset } := by
  rw [vectorOps]
  split_ifs with none'
  · rw [none', toFinset_nil, Finset.sdiff_empty]
    rfl
  · rfl

theorem run_append (first second : List StoreOp) :
    store.run (first ++ second) = (store.run first).run second :=
  foldl_append

/-- Both orders of forgetting lead to the same stores. -/
theorem run_forgetOps : store.run (forgetOps store docName) = store.forgotten docName := by
  rw [forgetOps, run_append, ← singleton_append, run_append]
  change ((store.apply (.deleteDoc docName)).run (vectorOps (store.idsOf docName))).apply
    (.deleteSyncMeta docName) = _
  rw [run_vectorOps, apply_deleteDoc]
  rfl

theorem run_dropOps : store.run (dropOps store docName) = store.forgotten docName := by
  change ((store.apply (.deleteDoc docName)).apply (.deleteSyncMeta docName)).run _ = _
  rw [run_vectorOps, apply_deleteDoc]
  rfl

end RagStore

section Simulation

variable {chunker : Chunker} {files : List SourceFile} {store : RagStore} {contents : Contents}
  {docName other : DocName} {file : SourceFile}

theorem has_update_none {chunk : Chunk} :
    Contents.Has chunker (Function.update contents docName none) other chunk ↔
      other ≠ docName ∧ contents.Has chunker other chunk := by
  rw [Contents.Has, Contents.Has]
  by_cases same : other = docName
  · subst same
    simp
  · rw [Function.update_of_ne same]
    exact (and_iff_right same).symm

theorem has_update_some {chunk : Chunk} :
    Contents.Has chunker (Function.update contents docName (some file)) other chunk ↔
      other = docName ∧ chunk ∈ chunker.chunks file ∨
        other ≠ docName ∧ contents.Has chunker other chunk := by
  rw [Contents.Has, Contents.Has]
  by_cases same : other = docName
  · subst same
    simp
  · rw [Function.update_of_ne same]
    simp [same]

theorem id_ne_of_has (apart : IdsApart chunker files) (known : contents.From files)
    {chunk otherChunk : Chunk} (has : contents.Has chunker docName chunk)
    (otherHas : contents.Has chunker other otherChunk) (different : docName ≠ other) :
    chunk.id ≠ otherChunk.id := by
  obtain ⟨first, held, member⟩ := has
  obtain ⟨second, otherHeld, otherMember⟩ := otherHas
  obtain ⟨inside, named, _⟩ := known docName first held
  obtain ⟨otherInside, otherNamed, _⟩ := known other second otherHeld
  subst named otherNamed
  exact apart.disjoint first inside second otherInside different chunk member otherChunk
    otherMember

/-- **Forgetting** a document takes it out of the contents. -/
theorem Represents.forgotten (holds : Represents chunker store contents)
    (apart : IdsApart chunker files) (known : contents.From files) (docName : DocName) :
    Represents chunker (store.forgotten docName) (Function.update contents docName none) := by
  constructor
  case sync =>
    intro other
    by_cases same : other = docName
    · subst same
      rw [Function.update_self]
      exact AList.lookup_erase _ _
    · rw [Function.update_of_ne same, ← holds.sync]
      exact AList.lookup_erase_ne same
  case docs =>
    intro other id
    simp only [has_update_none]
    by_cases same : other = docName
    · subst same
      have none' : (store.forgotten other).idsOf other = [] := by
        rw [RagStore.idsOf, RagStore.forgotten, AList.lookup_erase]
        rfl
      rw [none']
      simp
    · have kept : (store.forgotten docName).idsOf other = store.idsOf other := by
        rw [RagStore.idsOf, RagStore.forgotten, AList.lookup_erase_ne same]
        rfl
      rw [kept, holds.docs]
      simp [same]
  case rows =>
    intro id row
    have looked : (store.forgotten docName).chunks.lookup id =
        if id ∈ store.idsOf docName then none else store.chunks.lookup id :=
      Table.lookup_putAll_none _ _ _
    simp only [has_update_none]
    rw [looked]
    constructor
    · intro held
      split_ifs at held with removed
      obtain ⟨other, has⟩ := (holds.rows id row).mp held
      refine ⟨other, fun same => removed ?_, has⟩
      subst same
      exact (holds.docs other id).mpr ⟨_, has, rfl⟩
    · rintro ⟨other, different, has⟩
      rw [if_neg, (holds.rows id row).mpr ⟨other, has⟩]
      intro removed
      obtain ⟨chunk, mine, same⟩ := (holds.docs docName id).mp removed
      exact id_ne_of_has apart known has mine different same.symm
  case vectors =>
    intro id
    simp only [has_update_none]
    rw [RagStore.forgotten, Finset.mem_sdiff, mem_toFinset, holds.vectors, holds.docs]
    constructor
    · rintro ⟨⟨other, chunk, has, named⟩, outside⟩
      refine ⟨other, chunk, ⟨fun same => outside ?_, has⟩, named⟩
      subst same
      exact ⟨chunk, has, named⟩
    · rintro ⟨other, chunk, ⟨different, has⟩, named⟩
      refine ⟨⟨other, chunk, has, named⟩, ?_⟩
      rintro ⟨mine, hasMine, same⟩
      exact id_ne_of_has apart known has hasMine different (named.trans same.symm)

end Simulation

/-! ## Reading a file -/

namespace RagStore

variable (store : RagStore)

/-- The stores with the chunks of a document added, and its record. -/
def ingested (file : SourceFile) (chunks : List Chunk) : RagStore where
  chunks := store.chunks.putAll (chunks.map fun chunk => (chunk.id, some chunk.row))
  docs :=
    if chunks = [] then store.docs
    else store.docs.insert file.docName
      (mergeIds (store.idsOf file.docName) (chunks.map Chunk.id))
  sync := store.sync.insert file.docName file.syncMeta
  vectors := store.vectors ∪ (chunks.map Chunk.id).toFinset

theorem run_uploads (groups : List (List Chunk)) :
    store.run (groups.map fun batch => .upload (batch.map Chunk.id)) =
      { store with vectors := store.vectors ∪ (groups.flatten.map Chunk.id).toFinset } := by
  induction groups generalizing store with
  | nil =>
    rw [flatten_nil, map_nil, map_nil, toFinset_nil, Finset.union_empty]
    rfl
  | cons batch groups ih =>
    change (store.apply (.upload (batch.map Chunk.id))).run _ = _
    rw [ih, apply, flatten_cons, map_append, toFinset_append, Finset.union_assoc]

theorem docs_putChunks {docName : DocName} {chunks : List Chunk} (some' : chunks ≠ [])
    (named : ∀ chunk ∈ chunks, chunk.row.docName = docName) :
    (store.putChunks chunks).docs = store.docs.insert docName
      (mergeIds (store.idsOf docName) (chunks.map Chunk.id)) := by
  have names : chunks.map (fun chunk => chunk.row.docName) =
      List.replicate chunks.length docName := map_eq_replicate_iff.mpr named
  have once : (List.replicate chunks.length docName).dedup = [docName] :=
    replicate_dedup fun none' => some' (eq_nil_of_length_eq_zero none')
  have all : chunks.filter (fun chunk => chunk.row.docName = docName) = chunks :=
    filter_eq_self.mpr fun chunk member => decide_eq_true (named chunk member)
  rw [putChunks, names, once, foldl_cons, foldl_nil, all]
  rfl

theorem run_readOps (chunker : Chunker) (file : SourceFile) :
    store.run (readOps chunker file) = store.ingested file (chunker.chunks file) := by
  rw [readOps, run_append, ingestOps]
  split_ifs with none'
  · rw [ingested, none', map_nil, map_nil, toFinset_nil, Finset.union_empty,
      if_pos rfl]
    rfl
  · rw [run_append, run_uploads, flatten_batches (by decide)]
    have docs := docs_putChunks { store with
      vectors := store.vectors ∪ ((chunker.chunks file).map Chunk.id).toFinset } none'
      fun chunk member => chunker.docName_of_mem member
    rw [ingested, if_neg none']
    change RagStore.mk _ (putChunks _ _).docs _ _ = _
    rw [docs]
    rfl

theorem mem_mergeIds {existing new : List ChunkId} {id : ChunkId} :
    id ∈ mergeIds existing new ↔ id ∈ existing ∨ id ∈ new := by
  rw [mergeIds, mem_dedup, (perm_insertionSort _ _).mem_iff, mem_append]

theorem lookup_putChunks {chunks : List Chunk} (distinct : (chunks.map Chunk.id).Nodup)
    (id : ChunkId) (row : ChunkMeta) :
    (store.putChunks chunks).chunks.lookup id = some row ↔
      ⟨id, row⟩ ∈ chunks ∨ id ∉ chunks.map Chunk.id ∧ store.chunks.lookup id = some row := by
  have looked : (store.putChunks chunks).chunks.lookup id =
      overlay (chunks.map fun chunk => (chunk.id, some chunk.row))
        (fun id => store.chunks.lookup id) id := congrFun (store.chunks.lookup_putAll _) id
  have names : (chunks.map fun chunk => (chunk.id, some chunk.row)).map Prod.fst =
      chunks.map Chunk.id := map_map
  rw [looked]
  by_cases put : id ∈ chunks.map Chunk.id
  · obtain ⟨chunk, member, rfl⟩ := mem_map.mp put
    -- the ids differ, so one chunk has this one
    have only : ∀ other ∈ chunks, other.id = chunk.id → other = chunk := fun other also same =>
      inj_on_of_nodup_map distinct also member same
    have agree : ∀ change ∈ chunks.map (fun chunk => (chunk.id, some chunk.row)),
        change.1 = chunk.id → change.2 = some chunk.row := by
      intro change also same
      obtain ⟨other, found, rfl⟩ := mem_map.mp also
      exact congrArg (fun chunk => some chunk.row) (only other found same)
    rw [overlay_of_forall (names.symm ▸ put) agree]
    constructor
    · intro same
      exact .inl (Option.some.inj same ▸ member)
    · rintro (found | ⟨missing, _⟩)
      · exact congrArg (fun chunk => some chunk.row) (only _ found rfl).symm
      · exact absurd put missing
  · rw [overlay_of_notMem (names.symm ▸ put)]
    constructor
    · exact fun held => .inr ⟨put, held⟩
    · rintro (found | ⟨_, held⟩)
      · exact absurd (mem_map.mpr ⟨_, found, rfl⟩) put
      · exact held

end RagStore

section Reading

variable {chunker : Chunker} {files : List SourceFile} {store : RagStore} {contents : Contents}
  {file : SourceFile}

theorem ne_of_has {docName other : DocName} {chunk : Chunk} (absent : contents docName = none)
    (has : contents.Has chunker other chunk) : other ≠ docName := by
  rintro rfl
  obtain ⟨file, found, _⟩ := has
  cases absent.symm.trans found

/-- **Reading** a file puts its document into the contents, if it was not there. -/
theorem Represents.ingested (holds : Represents chunker store contents)
    (apart : IdsApart chunker files) (known : contents.From files) (inside : file ∈ files)
    (absent : contents file.docName = none) :
    Represents chunker (store.ingested file (chunker.chunks file))
      (Function.update contents file.docName (some file)) := by
  have noIds (id : ChunkId) : id ∉ store.idsOf file.docName := by
    rw [holds.docs]
    rintro ⟨chunk, has, _⟩
    exact ne_of_has absent has rfl
  constructor
  case sync =>
    intro other
    by_cases same : other = file.docName
    · subst same
      rw [Function.update_self]
      exact AList.lookup_insert _
    · rw [Function.update_of_ne same, ← holds.sync]
      exact AList.lookup_insert_ne same
  case docs =>
    intro other id
    simp only [has_update_some]
    by_cases same : other = file.docName
    · subst same
      have ids : id ∈ (store.ingested file (chunker.chunks file)).idsOf file.docName ↔
          id ∈ (chunker.chunks file).map Chunk.id := by
        rw [RagStore.idsOf, RagStore.ingested]
        dsimp only
        split_ifs with none'
        · rw [none']
          exact iff_of_false (noIds id) not_mem_nil
        · rw [AList.lookup_insert, Option.getD_some, RagStore.mem_mergeIds]
          exact or_iff_right (noIds id)
      rw [ids, mem_map]
      simp
    · have kept : (store.ingested file (chunker.chunks file)).idsOf other = store.idsOf other := by
        rw [RagStore.idsOf, RagStore.ingested]
        dsimp only
        split_ifs
        · rfl
        · rw [AList.lookup_insert_ne same]
          rfl
      rw [kept, holds.docs]
      simp [same]
  case rows =>
    intro id row
    refine (store.lookup_putChunks (apart.nodup file inside) id row).trans ?_
    simp only [has_update_some]
    constructor
    · rintro (found | ⟨_, held⟩)
      · exact ⟨file.docName, .inl ⟨rfl, found⟩⟩
      · obtain ⟨other, has⟩ := (holds.rows id row).mp held
        exact ⟨other, .inr ⟨ne_of_has absent has, has⟩⟩
    · rintro ⟨other, ⟨_, found⟩ | ⟨different, has⟩⟩
      · exact .inl found
      · refine .inr ⟨fun put => ?_, (holds.rows id row).mpr ⟨other, has⟩⟩
        obtain ⟨old, found, member⟩ := has
        obtain ⟨known', named, _⟩ := known other old found
        obtain ⟨chunk, also, same⟩ := mem_map.mp put
        subst named
        exact apart.disjoint old known' file inside different _ member chunk also same.symm
  case vectors =>
    intro id
    simp only [has_update_some]
    rw [RagStore.ingested, Finset.mem_union, mem_toFinset, holds.vectors, mem_map]
    constructor
    · rintro (⟨other, chunk, has, named⟩ | ⟨chunk, member, named⟩)
      · exact ⟨other, chunk, .inr ⟨ne_of_has absent has, has⟩, named⟩
      · exact ⟨file.docName, chunk, .inl ⟨rfl, member⟩, named⟩
    · rintro ⟨other, chunk, ⟨_, member⟩ | ⟨_, has⟩, named⟩
      · exact .inr ⟨chunk, member, named⟩
      · exact .inl ⟨other, chunk, has, named⟩

end Reading

/-! ## A pass on the contents -/

namespace Contents

/-- A file takes the place of its old version; a file without a text leaves none. -/
def read (contents : Contents) (file : SourceFile) : Contents :=
  Function.update contents file.docName (if file.text.isSome then some file else none)

def Current (contents : Contents) (file : SourceFile) : Prop :=
  ∃ prev, contents file.docName = some prev ∧ prev.mtimeSecs = file.mtimeSecs ∧
    prev.fileSize = file.fileSize

open Classical in
/-- A turn of the loop over the files. -/
noncomputable def syncFile (contents : Contents) (file : SourceFile) : Contents :=
  if contents.Current file then contents else contents.read file

def dropGone (contents : Contents) (folder : List SourceFile) : Contents := fun docName =>
  if docName ∈ folder.map SourceFile.docName then contents docName else none

noncomputable def sync (contents : Contents) (pass : SyncPass) : Contents :=
  if pass.delete then (pass.folder.foldl syncFile contents).dropGone pass.folder
  else pass.folder.foldl syncFile contents

theorem From.update_none {contents : Contents} {files : List SourceFile}
    (known : contents.From files) (docName : DocName) :
    Contents.From (Function.update contents docName none) files := by
  intro other file held
  by_cases same : other = docName
  · subst same
    rw [Function.update_self] at held
    cases held
  · rw [Function.update_of_ne same] at held
    exact known other file held

theorem From.update_some {contents : Contents} {files : List SourceFile}
    (known : contents.From files) {file : SourceFile} (inside : file ∈ files)
    (extracted : file.text.isSome) :
    Contents.From (Function.update contents file.docName (some file)) files := by
  intro other found held
  by_cases same : other = file.docName
  · subst same
    rw [Function.update_self] at held
    obtain rfl := Option.some.inj held
    exact ⟨inside, rfl, extracted⟩
  · rw [Function.update_of_ne same] at held
    exact known other found held

end Contents

section Tracking

variable {chunker : Chunker} {files : List SourceFile} (apart : IdsApart chunker files)
  {store : RagStore} {contents : Contents}

variable (chunker files) in
def Holds (store : RagStore) (contents : Contents) : Prop :=
  Represents chunker store contents ∧ contents.From files

include apart

theorem Holds.forget (holds : Holds chunker files store contents) (docName : DocName) :
    Holds chunker files (store.forgotten docName) (Function.update contents docName none) :=
  ⟨holds.1.forgotten apart holds.2 docName, holds.2.update_none docName⟩

theorem readStages_tracks (holds : Holds chunker files store contents) {file : SourceFile}
    (inside : file ∈ files) (absent : contents file.docName = none) :
    Tracks RagStore.apply (Holds chunker files) store contents (readStages chunker file)
      (contents.read file) := by
  rw [readStages, Contents.read]
  split_ifs with extracted
  · refine .single holds ?_
    change Holds chunker files (store.run (readOps chunker file)) _
    rw [store.run_readOps chunker file]
    exact ⟨holds.1.ingested apart holds.2 inside absent, holds.2.update_some inside extracted⟩
  · have same : Function.update contents file.docName none = contents := by
      rw [← absent]
      exact Function.update_eq_self _ _
    rw [same]
    exact .nil holds

/-- A turn of the loop forgets and reads. -/
theorem fileStages_tracks (holds : Holds chunker files store contents) {file : SourceFile}
    (inside : file ∈ files) :
    Tracks RagStore.apply (Holds chunker files) store contents (fileStages chunker store file)
      (contents.syncFile file) := by
  rw [fileStages, holds.1.sync, Contents.syncFile]
  cases recorded : contents file.docName with
  | none =>
    have changed : ¬ contents.Current file := by
      rintro ⟨prev, held, _⟩
      cases recorded.symm.trans held
    rw [if_neg changed]
    exact readStages_tracks apart holds inside recorded
  | some prev =>
    have current : contents.Current file ↔
        prev.mtimeSecs = file.mtimeSecs ∧ prev.fileSize = file.fileSize := by
      constructor
      · rintro ⟨other, held, same⟩
        obtain rfl := Option.some.inj (recorded.symm.trans held)
        exact same
      · exact fun same => ⟨prev, recorded, same⟩
    change Tracks _ _ _ _ (if prev.mtimeSecs ≠ file.mtimeSecs ∨ prev.fileSize ≠ file.fileSize
      then _ else _) _
    by_cases same : prev.mtimeSecs = file.mtimeSecs ∧ prev.fileSize = file.fileSize
    · rw [if_neg (by tauto), if_pos (current.mpr same)]
      exact .nil holds
    · rw [if_pos (by tauto), if_neg (mt current.mp same)]
      have forgot := holds.forget apart file.docName
      have read := readStages_tracks apart forgot inside (Function.update_self _ _ _)
      rw [Contents.read, Function.update_idem, ← store.run_forgetOps] at read
      exact .cons holds read

theorem folderStages_tracks (holds : Holds chunker files store contents)
    {folder : List SourceFile} (inside : ∀ file ∈ folder, file ∈ files) :
    Tracks RagStore.apply (Holds chunker files) store contents (folderStages chunker store folder)
      (folder.foldl Contents.syncFile contents) := by
  induction folder generalizing store contents with
  | nil => exact .nil holds
  | cons file folder ih =>
    have turn := fileStages_tracks apart holds (inside file mem_cons_self)
    exact turn.append
      (ih turn.finish fun other later => inside other (mem_cons_of_mem _ later))

theorem dropStages_tracks (holds : Holds chunker files store contents) (docNames : List DocName) :
    Tracks RagStore.apply (Holds chunker files) store contents (dropStages store docNames)
      fun docName => if docName ∈ docNames then none else contents docName := by
  induction docNames generalizing store contents with
  | nil => exact .nil holds
  | cons docName docNames ih =>
    have forgot := holds.forget apart docName
    have rest := ih forgot
    have last : (fun other => if other ∈ docNames then none
        else Function.update contents docName none other) =
        fun other => if other ∈ docName :: docNames then none else contents other := by
      funext other
      by_cases same : other = docName
      · subst same
        simp
      · simp [same]
    rw [last, ← store.run_dropOps] at rest
    exact .cons holds rest

omit apart in
theorem mem_goneDocs {folder : List SourceFile} {docName : DocName} :
    docName ∈ goneDocs store folder ↔
      docName ∈ store.sync ∧ docName ∉ folder.map SourceFile.docName := by
  rw [goneDocs, mem_filter, (perm_insertionSort _ _).mem_iff, AList.mem_keys,
    decide_eq_true_iff]

omit apart in
theorem drop_goneDocs (holds : Represents chunker store contents) (folder : List SourceFile) :
    (fun docName => if docName ∈ goneDocs store folder then none else contents docName) =
      contents.dropGone folder := by
  funext docName
  rw [Contents.dropGone]
  by_cases found : docName ∈ folder.map SourceFile.docName
  · rw [if_pos found, if_neg fun gone => (mem_goneDocs.mp gone).2 found]
  · rw [if_neg found]
    split_ifs with gone
    · rfl
    · have unrecorded : store.sync.lookup docName = none :=
        AList.lookup_eq_none.mpr fun recorded => gone (mem_goneDocs.mpr ⟨recorded, found⟩)
      rw [holds.sync] at unrecorded
      exact Option.map_eq_none_iff.mp unrecorded

/-- **A pass on the stores is a pass on the contents.** -/
theorem passStages_tracks (holds : Holds chunker files store contents) {pass : SyncPass}
    (inside : ∀ file ∈ pass.folder, file ∈ files) :
    Tracks RagStore.apply (Holds chunker files) store contents (passStages chunker store pass)
      (contents.sync pass) := by
  have read := folderStages_tracks apart holds inside
  rw [passStages, Contents.sync]
  split_ifs with deletes
  · have dropped := dropStages_tracks apart read.finish (goneDocs
      (store.run (folderStages chunker store pass.folder).flatten) pass.folder)
    have last := drop_goneDocs read.finish.1 pass.folder
    rw [RagStore.run, last] at dropped
    exact read.append dropped
  · exact read

end Tracking

/-! ## Convergence -/

section Convergence

variable (chunker : Chunker)

def StopsBetween (store : RagStore) (pass : SyncPass) : Prop :=
  ∀ count, pass.stop = some count → ∃ stages,
    (passStages chunker store pass).flatten.take count =
      ((passStages chunker store pass).take stages).flatten

/-- **Convergence.** The chunks stored under the name of a document are those of the text of its
file, in the table and in the index, other names have none, and the vector store has exactly
their ids. -/
structure Converged (store : RagStore) (folder : List SourceFile) : Prop where
  rows : ∀ docName id row,
    store.chunks.lookup id = some row ∧ row.docName = docName ↔
      ∃ file ∈ folder, file.docName = docName ∧ ⟨id, row⟩ ∈ chunker.chunks file
  docs : ∀ docName id, id ∈ store.idsOf docName ↔
    ∃ file ∈ folder, file.docName = docName ∧ ∃ chunk ∈ chunker.chunks file, chunk.id = id
  vectors : ∀ id, id ∈ store.vectors ↔
    ∃ file ∈ folder, ∃ chunk ∈ chunker.chunks file, chunk.id = id

variable {chunker} {files : List SourceFile} {contents : Contents}

theorem syncFile_of_ne {file : SourceFile} {docName : DocName}
    (different : docName ≠ file.docName) :
    contents.syncFile file docName = contents docName := by
  rw [Contents.syncFile]
  split_ifs
  · rfl
  · exact Function.update_of_ne different _ _

theorem foldl_syncFile_of_notMem {folder : List SourceFile} {docName : DocName}
    (missing : docName ∉ folder.map SourceFile.docName) :
    folder.foldl Contents.syncFile contents docName = contents docName := by
  induction folder generalizing contents with
  | nil => rfl
  | cons file folder ih =>
    rw [map_cons, mem_cons, not_or] at missing
    rw [foldl_cons, ih missing.2, syncFile_of_ne missing.1]

theorem syncFile_self (stamped : Stamped files) (known : contents.From files) {file : SourceFile}
    (inside : file ∈ files) (extracted : file.text.isSome) :
    ∃ version, contents.syncFile file file.docName = some version ∧
      version.docName = file.docName ∧ version.text = file.text := by
  rw [Contents.syncFile]
  split_ifs with current
  · obtain ⟨prev, held, mtime, size⟩ := current
    obtain ⟨recorded, named, read⟩ := known _ prev held
    exact ⟨prev, held, named, stamped prev recorded file inside named mtime size read extracted⟩
  · rw [Contents.read, Function.update_self, if_pos extracted]
    exact ⟨file, rfl, rfl, rfl⟩

theorem From.syncFile (known : contents.From files) {file : SourceFile} (inside : file ∈ files) :
    (contents.syncFile file).From files := by
  rw [Contents.syncFile, Contents.read]
  split_ifs with current extracted
  · exact known
  · exact known.update_some inside extracted
  · exact known.update_none _

theorem foldl_syncFile (stamped : Stamped files) {folder : List SourceFile}
    (known : contents.From files) (inside : ∀ file ∈ folder, file ∈ files)
    (distinct : (folder.map SourceFile.docName).Nodup) {file : SourceFile} (member : file ∈ folder)
    (extracted : file.text.isSome) :
    ∃ version, folder.foldl Contents.syncFile contents file.docName = some version ∧
      version.docName = file.docName ∧ version.text = file.text := by
  induction folder generalizing contents with
  | nil => cases member
  | cons first folder ih =>
    rw [map_cons, nodup_cons] at distinct
    rw [foldl_cons]
    rcases mem_cons.mp member with rfl | later
    · rw [foldl_syncFile_of_notMem distinct.1]
      exact syncFile_self stamped known (inside file mem_cons_self) extracted
    · exact ih (From.syncFile known (inside first mem_cons_self))
        (fun other also => inside other (mem_cons_of_mem _ also)) distinct.2 later

theorem chunks_congr {first second : SourceFile} (names : first.docName = second.docName)
    (texts : first.text = second.text) : chunker.chunks first = chunker.chunks second := by
  rw [Chunker.chunks, Chunker.chunks, names, texts]

theorem has_sync_iff (stamped : Stamped files) (known : contents.From files) {pass : SyncPass}
    (inside : ∀ file ∈ pass.folder, file ∈ files) (deletes : pass.delete = true)
    (extracted : ∀ file ∈ pass.folder, file.text.isSome) {docName : DocName} {chunk : Chunk} :
    (contents.sync pass).Has chunker docName chunk ↔
      ∃ file ∈ pass.folder, file.docName = docName ∧ chunk ∈ chunker.chunks file := by
  rw [Contents.sync, if_pos deletes, Contents.Has, Contents.dropGone]
  constructor
  · rintro ⟨version, held, member⟩
    split_ifs at held with found
    obtain ⟨file, present, rfl⟩ := mem_map.mp found
    obtain ⟨other, also, named, texts⟩ :=
      foldl_syncFile stamped known inside pass.distinct present (extracted file present)
    obtain rfl := Option.some.inj (held.symm.trans also)
    exact ⟨file, present, rfl, chunks_congr named texts ▸ member⟩
  · rintro ⟨file, present, rfl, member⟩
    obtain ⟨version, held, named, texts⟩ :=
      foldl_syncFile stamped known inside pass.distinct present (extracted file present)
    rw [if_pos (mem_map.mpr ⟨file, present, rfl⟩)]
    exact ⟨version, held, (chunks_congr named texts).symm ▸ member⟩

theorem Represents.converged {store : RagStore} (holds : Represents chunker store contents)
    {folder : List SourceFile}
    (has : ∀ docName chunk, contents.Has chunker docName chunk ↔
      ∃ file ∈ folder, file.docName = docName ∧ chunk ∈ chunker.chunks file) :
    Converged chunker store folder := by
  constructor
  case rows =>
    intro docName id row
    rw [holds.rows]
    simp only [has]
    constructor
    · rintro ⟨⟨_, file, found, rfl, member⟩, rfl⟩
      exact ⟨file, found, (chunker.docName_of_mem member).symm, member⟩
    · rintro ⟨file, found, rfl, member⟩
      exact ⟨⟨_, file, found, rfl, member⟩, chunker.docName_of_mem member⟩
  case docs =>
    intro docName id
    rw [holds.docs]
    simp only [has]
    constructor
    · rintro ⟨chunk, ⟨file, found, named, member⟩, same⟩
      exact ⟨file, found, named, chunk, member, same⟩
    · rintro ⟨file, found, named, chunk, member, same⟩
      exact ⟨chunk, ⟨file, found, named, member⟩, same⟩
  case vectors =>
    intro id
    rw [holds.vectors]
    simp only [has]
    constructor
    · rintro ⟨_, chunk, ⟨file, found, _, member⟩, same⟩
      exact ⟨file, found, chunk, member, same⟩
    · rintro ⟨file, found, chunk, member, same⟩
      exact ⟨_, chunk, ⟨file, found, rfl, member⟩, same⟩

def allFiles (history : List SyncPass) : List SourceFile := history.flatMap SyncPass.folder

theorem holds_empty : Holds chunker files .empty fun _ => none := by
  refine ⟨⟨fun _ => rfl, fun docName id => ?_, fun id row => ?_, fun id => ?_⟩, fun _ _ held => ?_⟩
  · exact iff_of_false not_mem_nil fun ⟨_, ⟨_, held, _⟩, _⟩ => by cases held
  · exact iff_of_false (fun held => by cases held) fun ⟨_, _, held, _⟩ => by cases held
  · exact iff_of_false (Finset.notMem_empty id) fun ⟨_, _, ⟨_, held, _⟩, _⟩ => by cases held
  · cases held

theorem exists_holds_runSyncPass (apart : IdsApart chunker files) {store : RagStore}
    (holds : Holds chunker files store contents) {pass : SyncPass}
    (inside : ∀ file ∈ pass.folder, file ∈ files) (settled : StopsBetween chunker store pass) :
    ∃ after, Holds chunker files (runSyncPass chunker store pass) after := by
  have tracks := passStages_tracks apart holds inside
  rw [runSyncPass]
  cases stopped : pass.stop with
  | none => exact ⟨_, tracks.finish⟩
  | some count =>
    obtain ⟨stages, between⟩ := settled count stopped
    dsimp only
    rw [between]
    exact tracks.boundary stages

theorem exists_holds_foldl (apart : IdsApart chunker files) {history : List SyncPass}
    (inside : ∀ pass ∈ history, ∀ file ∈ pass.folder, file ∈ files) {store : RagStore}
    (holds : Holds chunker files store contents)
    (settled : Meets (runSyncPass chunker) (StopsBetween chunker) store history) :
    ∃ after, Holds chunker files (history.foldl (runSyncPass chunker) store) after := by
  induction history generalizing store contents with
  | nil => exact ⟨contents, holds⟩
  | cons pass history ih =>
    obtain ⟨next, still⟩ := exists_holds_runSyncPass apart holds
      (inside pass mem_cons_self) settled.1
    exact ih (fun other later => inside other (mem_cons_of_mem _ later)) still settled.2

/-- **Sync converges to the folder.** After every history of passes of which none stops while it
forgets or reads a document, a complete pass that deletes, over a folder whose texts can all be
extracted, leaves exactly the chunks of the files of that folder. -/
theorem sync_converges (chunker : Chunker) (history : List SyncPass) (last : SyncPass)
    (stamped : Stamped (allFiles (history ++ [last])))
    (apart : IdsApart chunker (allFiles (history ++ [last])))
    (settled : Meets (runSyncPass chunker) (StopsBetween chunker) .empty history)
    (deletes : last.delete = true) (completes : last.stop = none)
    (extracted : ∀ file ∈ last.folder, file.text.isSome) :
    Converged chunker (runSyncPass chunker (history.foldl (runSyncPass chunker) .empty) last)
      last.folder := by
  have inside : ∀ pass ∈ history ++ [last], ∀ file ∈ pass.folder,
      file ∈ allFiles (history ++ [last]) := fun pass member file found =>
    mem_flatMap.mpr ⟨pass, member, found⟩
  have insideLast := inside last (mem_append_right _ mem_cons_self)
  obtain ⟨contents, holds⟩ := exists_holds_foldl apart
    (fun pass member => inside pass (mem_append_left _ member)) holds_empty settled
  rw [runSyncPass, completes]
  exact (passStages_tracks apart holds insideLast).finish.1.converged fun docName chunk =>
    has_sync_iff stamped holds.2 insideLast deletes extracted

end Convergence

/-! ## Two histories -/

theorem wholeTexts_named (docName : DocName) (text : String) :
    ∀ chunk ∈ [(⟨docName.length, ⟨docName, 0, text, text⟩⟩ : Chunk)],
      chunk.row.docName = docName := by
  intro chunk member
  rw [mem_singleton.mp member]

def wholeTexts : Chunker where
  split docName text := [⟨docName.length, ⟨docName, 0, text, text⟩⟩]
  named := wholeTexts_named

theorem distinct_toList (file : Option SourceFile) :
    (file.toList.map SourceFile.docName).Nodup := by
  cases file with
  | none => exact nodup_nil
  | some file => exact nodup_singleton _

def passOver (file : Option SourceFile) (delete : Bool) (stop : Option Nat) : SyncPass where
  folder := file.toList
  distinct := distinct_toList file
  delete := delete
  stop := stop

def draft : SourceFile := ⟨"note.txt", "/notes/note.txt", 100, 5, some "draft"⟩

def revision : SourceFile := ⟨"note.txt", "/notes/note.txt", 200, 8, some "revision"⟩

/-- A file is read, then changed, and the pass that forgets its old version stops before it reads
the new one; the next pass converges. -/
theorem revision_converges :
    Converged wholeTexts (runSyncPass wholeTexts
      ([passOver draft false none, passOver revision false (some 3)].foldl
        (runSyncPass wholeTexts) .empty) (passOver revision true none)) [revision] := by
  refine sync_converges wholeTexts _ (passOver revision true none) ?_ ?_ ?_ rfl rfl (by decide)
  · unfold Stamped
    decide
  · exact ⟨by decide, by decide⟩
  · refine ⟨fun count stopped => ?_, fun count stopped => ⟨1, ?_⟩, trivial⟩
    · cases stopped
    · obtain rfl := Option.some.inj stopped
      rfl

/-- **A lost vector.** The first pass is killed after it uploads the vector of a file. The file is
removed, and a complete pass leaves the vector in the store. -/
theorem killed_upload_stays :
    Stamped (allFiles [passOver draft false (some 1), passOver none true none]) ∧
      IdsApart wholeTexts (allFiles [passOver draft false (some 1), passOver none true none]) ∧
      ¬ Converged wholeTexts (runSyncPass wholeTexts
        (runSyncPass wholeTexts .empty (passOver draft false (some 1)))
        (passOver none true none)) [] := by
  refine ⟨by unfold Stamped; decide, ⟨by decide, by decide⟩, fun converged => ?_⟩
  have stays : (8 : ChunkId) ∈ (runSyncPass wholeTexts
      (runSyncPass wholeTexts .empty (passOver draft false (some 1)))
      (passOver none true none)).vectors := by decide
  obtain ⟨file, found, _⟩ := (converged.vectors 8).mp stays
  cases found

end KwaaiNet.Rag
