import KwaaiNet.Rag.Chunker
import KwaaiNet.Rag.Sync

/-! # Ingesting a document

A document is cut into chunks, and these are embedded and uploaded batch by batch. The rows of all
chunks are written once, at the end. An ingest that fails has therefore uploaded the batches before
the failure and written no rows: `KwaaiNet.Rag.noOrphans_iff` says when all vectors have rows
nonetheless.
-/

namespace KwaaiNet.Rag

open Foundation Chunking List

def embedText (chunk : Chunking.Chunk Char) : List Char :=
  match chunk.sectionName with
  | some name => if name ≠ [] then '[' :: name ++ "] ".toList ++ chunk.text else chunk.text
  | none => chunk.text

/-- `apply_doc_meta`, with the entries in the order in which the map lists them. -/
def applyDocMeta (tables : ChunkTables) (docMeta : List (List Char × List Char)) (docName : String)
    (chunks : List (Chunking.Chunk Char)) : List (Chunking.Chunk Char) :=
  match docMeta.find? fun entry =>
      tables.toLowercase entry.1 <:+: tables.toLowercase docName.toList with
  | some entry => chunks.map fun chunk =>
    { chunk with text := entry.2 ++ "\n\n".toList ++ chunk.text }
  | none => chunks

def rowOf (chunk : Chunking.Chunk Char) : Chunk where
  id := chunk.id
  row := ⟨chunk.docName, chunk.chunkIndex.toNat, String.ofList chunk.text,
    String.ofList chunk.surrounding⟩

/-- `IngestConfig`, without the graph. -/
structure IngestConfig where
  tables : ChunkTables
  chunkCfg : ChunkConfig
  uploadBatchSize : Nat
  docMeta : List (List Char × List Char)
  docSchema : Option DocSchema

/-- What the calls of an ingest give: the embeddings of a batch and the number of vectors that were
uploaded, unless they fail, and whether the rows are written. -/
structure IngestCalls (E : Type) where
  embed : Nat → List (List Char) → Option (List E)
  upload : Nat → List (ChunkId × E) → Option Nat
  rowsWritten : Bool

inductive IngestOutcome where
  | done (chunksIngested vectorsUploaded : Nat)
  | failed
  | panicked
  deriving DecidableEq

/-- The stores after an ingest, the ids it uploaded and what it returned. -/
structure IngestRun where
  store : RagStore
  uploaded : List ChunkId
  outcome : IngestOutcome

section

variable {E : Type} (calls : IngestCalls E)

def sendBatch (number : Nat) (batch : List (Chunking.Chunk Char)) : Option (List ChunkId × Nat) := do
  let embeddings ← calls.embed number (batch.map embedText)
  let vectors := (batch.map Chunking.Chunk.id).zip embeddings
  let uploaded ← calls.upload number vectors
  return (vectors.map Prod.fst, uploaded)

def sendBatches : List (List (Chunking.Chunk Char) × Nat) → List ChunkId × Option Nat
  | [] => ([], some 0)
  | (batch, number) :: rest =>
    match sendBatch calls number batch with
    | none => ([], none)
    | some (ids, uploaded) =>
      let (others, total) := sendBatches rest
      (ids ++ others, total.map (uploaded + ·))

/-- The chunks of a document, if cutting it does not panic. -/
def chunksOf (cfg : IngestConfig) (docName : String) (text : List Char) :
    Option (List (Chunking.Chunk Char)) :=
  (splitText cfg.tables cfg.chunkCfg text docName cfg.docSchema).map
    (applyDocMeta cfg.tables cfg.docMeta docName)

/-- `ingest_text`. Batches of size 0 are refused with a panic. -/
def ingestText (cfg : IngestConfig) (store : RagStore) (docName : String) (text : List Char) :
    IngestRun :=
  match chunksOf cfg docName text with
  | none => ⟨store, [], .panicked⟩
  | some chunks =>
    if chunks.isEmpty then ⟨store, [], .done 0 0⟩
    else if cfg.uploadBatchSize = 0 then ⟨store, [], .panicked⟩
    else
      let (ids, total) := sendBatches calls (batches cfg.uploadBatchSize chunks).zipIdx
      let sent := store.apply (.upload ids)
      match total with
      | none => ⟨sent, ids, .failed⟩
      | some total =>
        if calls.rowsWritten then
          ⟨sent.putChunks (chunks.map rowOf), ids, .done chunks.length total⟩
        else ⟨sent, ids, .failed⟩

/-- If the ingest failed, every vector that it uploaded has a row. -/
def NoOrphans (run : IngestRun) : Prop :=
  run.outcome = .failed → ∀ id ∈ run.uploaded, id ∈ run.store.chunks

/-! ## The loop -/

def sentBatches (batches : List (List (Chunking.Chunk Char) × Nat)) :
    List (List (Chunking.Chunk Char) × Nat) :=
  batches.takeWhile fun batch => (sendBatch calls batch.2 batch.1).isSome

def sentIds (batch : List (Chunking.Chunk Char) × Nat) : List ChunkId :=
  ((sendBatch calls batch.2 batch.1).map Prod.fst).getD []

theorem sendBatches_spec (batches : List (List (Chunking.Chunk Char) × Nat)) :
    (sendBatches calls batches).1 = (sentBatches calls batches).flatMap (sentIds calls) ∧
      ((sendBatches calls batches).2 = none ↔
        (sentBatches calls batches).length < batches.length) := by
  induction batches with
  | nil => exact ⟨rfl, iff_of_false (Option.some_ne_none 0) (Nat.lt_irrefl 0)⟩
  | cons batch rest ih =>
    obtain ⟨batch, number⟩ := batch
    cases outcome : sendBatch calls number batch with
    | none =>
      have stops : sentBatches calls ((batch, number) :: rest) = [] :=
        takeWhile_cons_of_neg (by simp [outcome])
      rw [sendBatches, outcome, stops]
      exact ⟨rfl, iff_of_true rfl (Nat.zero_lt_succ _)⟩
    | some sent =>
      obtain ⟨ids, uploaded⟩ := sent
      have goes : sentBatches calls ((batch, number) :: rest) =
          (batch, number) :: sentBatches calls rest :=
        takeWhile_cons_of_pos (by simp [outcome])
      have own : sentIds calls (batch, number) = ids := by
        rw [sentIds, outcome]
        rfl
      rw [sendBatches, outcome, goes, flatMap_cons, own, ← ih.1]
      refine ⟨rfl, ?_⟩
      rw [Option.map_eq_none_iff, ih.2, length_cons, length_cons,
        Nat.add_lt_add_iff_right]

/-- **A failed ingest leaves no orphans exactly if everything that was uploaded before the failure
had rows before.** -/
theorem noOrphans_iff (cfg : IngestConfig) (store : RagStore) (docName : String)
    (text : List Char) :
    NoOrphans (ingestText calls cfg store docName text) ↔
      ∀ chunks, chunksOf cfg docName text = some chunks → 0 < cfg.uploadBatchSize →
        ((sentBatches calls (batches cfg.uploadBatchSize chunks).zipIdx).length <
            (batches cfg.uploadBatchSize chunks).length ∨ calls.rowsWritten = false) →
        ∀ batch ∈ sentBatches calls (batches cfg.uploadBatchSize chunks).zipIdx,
          ∀ id ∈ sentIds calls batch, id ∈ store.chunks := by
  have quiet {run : IngestRun} (other : run.outcome ≠ .failed) : NoOrphans run :=
    fun failed => absurd failed other
  rw [ingestText]
  cases cut : chunksOf cfg docName text with
  | none =>
    refine iff_of_true (quiet IngestOutcome.noConfusion) fun chunks same => ?_
    cases same
  | some chunks =>
    simp only [Option.some.injEq, forall_eq']
    by_cases empty : chunks.isEmpty = true
    · -- without chunks there are no batches
      rw [if_pos empty, isEmpty_iff.mp empty]
      refine iff_of_true (quiet IngestOutcome.noConfusion) fun _ _ batch member => ?_
      cases member
    rw [if_neg empty]
    by_cases zero : cfg.uploadBatchSize = 0
    · rw [if_pos zero]
      exact iff_of_true (quiet IngestOutcome.noConfusion)
        fun positive => absurd zero positive.ne'
    · rw [if_neg zero]
      have positive := Nat.pos_of_ne_zero zero
      obtain ⟨ids, total⟩ := sendBatches_spec calls (batches cfg.uploadBatchSize chunks).zipIdx
      rw [length_zipIdx] at total
      have sent : (∀ batch ∈ sentBatches calls (batches cfg.uploadBatchSize chunks).zipIdx,
            ∀ id ∈ sentIds calls batch, id ∈ store.chunks) ↔
          ∀ id ∈ (sendBatches calls (batches cfg.uploadBatchSize chunks).zipIdx).1,
            id ∈ store.chunks := by
        rw [ids]
        exact forall_mem_flatMap.symm
      rw [sent, ← total]
      cases (sendBatches calls (batches cfg.uploadBatchSize chunks).zipIdx).2 with
      | none =>
        exact ⟨fun kept _ _ => kept rfl, fun kept _ => kept positive (.inl rfl)⟩
      | some count =>
        cases written : calls.rowsWritten with
        | true =>
          refine iff_of_true (quiet IngestOutcome.noConfusion) fun _ stopped => ?_
          rcases stopped with none | unwritten
          · cases none
          · cases unwritten
        | false =>
          exact ⟨fun kept _ _ => kept rfl, fun kept _ => kept positive (.inr rfl)⟩

end

def secondBatchFails : IngestCalls Unit where
  embed number _ := if number = 0 then some [()] else none
  upload _ vectors := some vectors.length
  rowsWritten := true

/-- The vector of the first chunk has no row. -/
theorem secondBatchFails_orphans :
    ¬ NoOrphans (ingestText secondBatchFails
      ⟨⟨Char.isAlpha, List.map Char.toLower, fun _ index => index.toNat⟩,
        ⟨4, 0, 1, .character, .truncated⟩, 1, [], none⟩ .empty "book" "abcdefgh".toList) := by
  intro kept
  have failed : (ingestText secondBatchFails
      ⟨⟨Char.isAlpha, List.map Char.toLower, fun _ index => index.toNat⟩,
        ⟨4, 0, 1, .character, .truncated⟩, 1, [], none⟩ .empty "book" "abcdefgh".toList).outcome =
        .failed ∧
      0 ∈ (ingestText secondBatchFails
        ⟨⟨Char.isAlpha, List.map Char.toLower, fun _ index => index.toNat⟩,
          ⟨4, 0, 1, .character, .truncated⟩, 1, [], none⟩ .empty "book"
          "abcdefgh".toList).uploaded := by
    decide +kernel
  exact absurd (kept failed.1 0 failed.2) (AList.notMem_empty 0)

end KwaaiNet.Rag
