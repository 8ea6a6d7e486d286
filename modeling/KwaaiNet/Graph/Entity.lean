import KwaaiNet.Foundation.MachineNumber
import KwaaiNet.Foundation.Table

/-! # Entities and relations of the knowledge graph

The records of the graph store, what JSON keeps of them, and how an entity is merged with a new
sighting of it. An entity whose floats are all finite can be read back from its row; merging
keeps that (`KwaaiNet.EntityNode.readable_merge`).
-/

namespace KwaaiNet

open Foundation List

/-- The `i64` id of an entity. -/
abbrev EntityId := Int

/-- The `i64` id of a chunk. -/
abbrev ChunkId := Int

structure FieldValue where
  value : String
  evidenceChunkIds : List ChunkId
  confidence : FloatValue
  deriving DecidableEq

structure EntityNode where
  id : EntityId
  name : String
  entityType : String
  description : String
  embedding : List FloatValue
  mentionCount : UInt32
  firstChunkId : ChunkId
  aliases : List String
  schemaType : Option String
  gender : Option String
  evidence : List ChunkId
  fields : Table String FieldValue
  confidence : FloatValue
  extractionConfidence : FloatValue

structure RelationRecord where
  srcId : EntityId
  dstId : EntityId
  relationType : String
  strength : ℚ
  evidenceChunkIds : List ChunkId
  deriving DecidableEq

/-- The functions that the graph store takes from elsewhere: the SHA-256 id of a name and a
type, the Unicode functions on strings, and the scorer. -/
structure GraphEnv where
  entityId : String → String → EntityId
  toLowercase : String → String
  trim : String → String
  scoreEntity : EntityNode → List String → FloatValue

def pushNew {α : Type} [DecidableEq α] (list : List α) (element : α) : List α :=
  if element ∈ list then list else list ++ [element]

def pushAllNew {α : Type} [DecidableEq α] (list elements : List α) : List α :=
  elements.foldl pushNew list

section PushNew

variable {α : Type} [DecidableEq α] {list : List α}

theorem mem_pushNew {element other : α} :
    other ∈ pushNew list element ↔ other ∈ list ∨ other = element := by
  rw [pushNew]
  split_ifs with member
  · exact ⟨.inl, fun present => present.elim id fun same => same ▸ member⟩
  · rw [mem_append, mem_singleton]

theorem mem_pushAllNew {elements : List α} {other : α} :
    other ∈ pushAllNew list elements ↔ other ∈ list ∨ other ∈ elements := by
  induction elements generalizing list with
  | nil => exact (or_iff_left not_mem_nil).symm
  | cons element elements ih =>
    change other ∈ pushAllNew (pushNew list element) elements ↔ _
    rw [ih, mem_pushNew, mem_cons, or_assoc]

theorem pushAllNew_of_subset {elements : List α} (known : ∀ element ∈ elements, element ∈ list) :
    pushAllNew list elements = list := by
  induction elements with
  | nil => rfl
  | cons element elements ih =>
    have same : pushNew list element = list := if_pos (known element mem_cons_self)
    change pushAllNew (pushNew list element) elements = list
    rw [same]
    exact ih fun other member => known other (mem_cons_of_mem _ member)

end PushNew

namespace FieldValue

/-- `FieldValue::add_evidence`. -/
def addEvidence (field : FieldValue) (chunk : ChunkId) : FieldValue :=
  let evidence := pushNew field.evidenceChunkIds chunk
  { field with evidenceChunkIds := evidence, confidence := .finite (min 1 (evidence.length / 3)) }

def mergeWith (field new : FieldValue) : FieldValue :=
  let merged := new.evidenceChunkIds.foldl addEvidence field
  if merged.value = "" ∧ new.value ≠ "" then { merged with value := new.value } else merged

end FieldValue

/-- The keys of `expected_fields`. -/
def expectedFields : String → List String
  | "Person" => ["birthDate", "birthPlace", "deathDate", "nationality", "occupation",
      "affiliation", "spouse", "parent", "sibling", "child"]
  | "Place" | "Location" => ["locationType", "historicalNote"]
  | "Organization" => ["foundingDate", "dissolutionDate", "founder", "orgType"]
  | "Legislation" => ["dateEnacted", "jurisdiction", "effect"]
  | "Publication" => ["publisher", "datePublished", "frequency"]
  | _ => []

/-- The placeholder values that `description_from_fields` drops. -/
def placeholders : List String :=
  ["unknown", "undefined", "n/a", "none", "not stated", "not specified", "not mentioned",
    "not known", "not applicable", "unspecified"]

/-- `description_from_fields`. -/
def descriptionFromFields (env : GraphEnv) (name entityType : String)
    (fields : Table String FieldValue) : String :=
  let parts := (expectedFields entityType).filterMap fun key =>
    (fields.lookup key).bind fun field =>
      if field.value = "" ∨ env.trim (env.toLowercase field.value) ∈ placeholders then none
      else some s!"{key}: {field.value}"
  if parts = [] then "" else name ++ " — " ++ "; ".intercalate parts

/-- The last of the longest non-empty strings, by bytes. -/
def longest (candidates : List String) : String :=
  candidates.foldl (fun best candidate =>
    if best.utf8ByteSize ≤ candidate.utf8ByteSize then candidate else best) ""

namespace EntityNode

/-- What JSON keeps of an entity: everything but its evidence. -/
def persisted (node : EntityNode) : EntityNode := { node with evidence := [] }

/-- JSON writes a float that is not finite as `null`, and then the row cannot be read. -/
def readable (node : EntityNode) : Bool :=
  node.embedding.all FloatValue.isFinite && node.confidence.isFinite &&
    node.extractionConfidence.isFinite &&
    node.fields.entries.all fun row => row.2.confidence.isFinite

def mergeField (fields : Table String FieldValue) (row : Sigma fun _ : String => FieldValue) :
    Table String FieldValue :=
  fields.insert row.1 (((fields.lookup row.1).map fun field => field.mergeWith row.2).getD row.2)

/-- The merge of `upsert_entity`: an entity and a new sighting of it. -/
def merge (env : GraphEnv) (existing node : EntityNode) : EntityNode :=
  let fields := node.fields.entries.foldl mergeField existing.fields
  let authoritative := !node.extractionConfidence.below (.finite 1) &&
    node.extractionConfidence ≠ .nan && node.description ≠ ""
  let description :=
    if authoritative then node.description
    else longest [descriptionFromFields env existing.name existing.entityType fields,
      node.description, existing.description]
  { id := node.id
    name := existing.name
    entityType := existing.entityType
    description
    embedding :=
      if description = existing.description then existing.embedding else node.embedding
    mentionCount := existing.mentionCount + 1
    firstChunkId := existing.firstChunkId
    aliases := pushAllNew existing.aliases node.aliases
    schemaType := existing.schemaType.or node.schemaType
    gender := existing.gender.or node.gender
    evidence := existing.evidence
    fields
    confidence := .finite 0
    extractionConfidence := existing.extractionConfidence.max node.extractionConfidence }

section Readable

theorem readable_iff {node : EntityNode} : node.readable ↔
    (∀ value ∈ node.embedding, value.isFinite) ∧ node.confidence.isFinite ∧
      node.extractionConfidence.isFinite ∧
      ∀ row ∈ node.fields.entries, row.2.confidence.isFinite := by
  simp only [readable, Bool.and_eq_true, all_eq_true, and_assoc]

theorem isFinite_mergeWith {field new : FieldValue} (finite : field.confidence.isFinite) :
    (field.mergeWith new).confidence.isFinite := by
  have added : ∀ (chunks : List ChunkId) (field : FieldValue), field.confidence.isFinite →
      (chunks.foldl FieldValue.addEvidence field).confidence.isFinite := by
    intro chunks
    induction chunks with
    | nil => exact fun _ finite => finite
    | cons chunk chunks ih => exact fun field _ => ih (field.addEvidence chunk) rfl
  rw [FieldValue.mergeWith]
  split_ifs
  · exact added _ field finite
  · exact added _ field finite

theorem isFinite_mergeFields (rows : List (Sigma fun _ : String => FieldValue))
    (fields : Table String FieldValue) (finite : ∀ row ∈ fields.entries, row.2.confidence.isFinite)
    (alsoFinite : ∀ row ∈ rows, row.2.confidence.isFinite) :
    ∀ row ∈ (rows.foldl mergeField fields).entries, row.2.confidence.isFinite := by
  induction rows generalizing fields with
  | nil => exact finite
  | cons first rest ih =>
    apply ih (mergeField fields first)
    · intro row member
      rw [mergeField, AList.entries_insert] at member
      rcases mem_cons.mp member with rfl | old
      · cases held : fields.lookup first.1 with
        | none => exact alsoFinite first mem_cons_self
        | some field => exact isFinite_mergeWith (finite _ (AList.mem_lookup_iff.mp held))
      · exact finite row ((kerase_sublist _ _).mem old)
    · exact fun row member => alsoFinite row (mem_cons_of_mem _ member)

theorem readable_merge (env : GraphEnv) {existing node : EntityNode}
    (readable : existing.readable) (alsoReadable : node.readable) :
    (merge env existing node).readable := by
  obtain ⟨embedding, _, extraction, fields⟩ := readable_iff.mp readable
  obtain ⟨newEmbedding, _, newExtraction, newFields⟩ := readable_iff.mp alsoReadable
  refine readable_iff.mpr ⟨?_, rfl, FloatValue.isFinite_max extraction newExtraction,
    isFinite_mergeFields _ _ fields newFields⟩
  rw [merge]
  dsimp only
  split_ifs
  all_goals assumption

end Readable

end EntityNode

end KwaaiNet
