import KwaaiNet.Graph.Entity

/-! # The graph store

The store keeps entities, relations, chunk links, timeline events and interactions in tables on
disk, and entities, adjacency lists and chunk links in memory as well. Opening the store reads
the memory from the tables; every mutator then changes the two by separate code. Failures of the
database itself are left out, and so is the index of alias tokens, which no mutator reads.
-/

namespace KwaaiNet

open Foundation

structure TimelineEvent where
  entityId : EntityId
  entityName : String
  dateRaw : Option String
  dateSort : String
  description : String
  eventClass : String
  evidenceChunkId : ChunkId
  deriving DecidableEq

structure SequenceInteraction where
  fromEntityId : EntityId
  fromEntityName : String
  toEntityId : EntityId
  toEntityName : String
  dateRaw : Option String
  dateSort : String
  label : String
  evidenceChunkId : ChunkId
  deriving DecidableEq

abbrev RelationKey := EntityId × EntityId × String

def RelationRecord.key (relation : RelationRecord) : RelationKey :=
  (relation.srcId, relation.dstId, relation.relationType)

/-- The tables on disk. The tables of events and interactions are made by the first write to
them and not when the store is opened. -/
structure GraphTables where
  entities : Table EntityId EntityNode
  relations : Table RelationKey RelationRecord
  chunkEntities : Table ChunkId (List EntityId)
  entityChunks : Table EntityId (List ChunkId)
  timeline : Option (Table EntityId (List TimelineEvent))
  interactions : Option (Table (EntityId × EntityId) (List SequenceInteraction))

/-- A neighbour, the type of the relation and its strength. -/
abbrev Edge := EntityId × String × ℚ

structure GraphStore where
  tables : GraphTables
  nodes : Table EntityId EntityNode
  adj : Table EntityId (List Edge)
  chunkToEntities : Table ChunkId (List EntityId)
  entityToChunks : Table EntityId (List ChunkId)

/-! ## Opening the store -/

/-- `self.adj.entry(id).or_default().push(edge)`. -/
def pushEdge (adj : Table EntityId (List Edge)) (id : EntityId) (edge : Edge) :
    Table EntityId (List Edge) :=
  adj.insert id (adj.listAt id ++ [edge])

/-- The two edges that `rebuild` makes of a relation. -/
def pushRelation (adj : Table EntityId (List Edge)) (relation : RelationRecord) :
    Table EntityId (List Edge) :=
  pushEdge (pushEdge adj relation.srcId (relation.dstId, relation.relationType, relation.strength))
    relation.dstId (relation.srcId, relation.relationType, relation.strength)

def syncEvidence (index : Table EntityId (List ChunkId)) (nodes : Table EntityId EntityNode) :
    Table EntityId EntityNode :=
  index.entries.foldl (fun nodes row =>
    nodes.modify row.1 fun node => { node with evidence := row.2 }) nodes

namespace GraphStore

/-- `GraphStore::rebuild` into an empty memory. It fails at an entity that cannot be read. -/
def rebuild (tables : GraphTables) : Option GraphStore :=
  if tables.entities.entries.all fun row => row.2.readable then
    some
      { tables
        nodes := syncEvidence tables.entityChunks
          (Table.putAll ∅ (tables.entities.entries.map fun row => (row.2.id, some row.2)))
        adj := tables.relations.entries.foldl (fun adj row => pushRelation adj row.2) ∅
        chunkToEntities := tables.chunkEntities
        entityToChunks := tables.entityChunks }
  else none

/-- `GraphStore::rebuild_in_memory`. -/
def rebuildInMemory (store : GraphStore) : Option GraphStore := rebuild store.tables

def newTables : GraphTables where
  entities := ∅
  relations := ∅
  chunkEntities := ∅
  entityChunks := ∅
  timeline := none
  interactions := none

def newGraph : GraphStore where
  tables := newTables
  nodes := ∅
  adj := ∅
  chunkToEntities := ∅
  entityToChunks := ∅

/-! ## Entities -/

def save (store : GraphStore) (id : EntityId) (node : EntityNode) : GraphStore :=
  { store with
    tables.entities := store.tables.entities.insert id node.persisted
    nodes := store.nodes.insert id node }

/-- `GraphStore::upsert_entity`. -/
def upsertEntity (env : GraphEnv) (store : GraphStore) (node : EntityNode) : GraphStore :=
  let merged := ((store.nodes.lookup node.id).map fun held => held.merge env node).getD node
  store.save merged.id merged

def updateEntity (store : GraphStore) (id : EntityId) (change : EntityNode → EntityNode) :
    GraphStore :=
  match store.nodes.lookup id with
  | none => store
  | some node => store.save id (change node)

/-- `GraphStore::increment_mention`. -/
def incrementMention (store : GraphStore) (id : EntityId) : GraphStore :=
  store.updateEntity id fun node => { node with mentionCount := node.mentionCount + 1 }

/-- `GraphStore::set_schema_type`. -/
def setSchemaType (store : GraphStore) (id : EntityId) (schemaType : String) : GraphStore :=
  store.updateEntity id fun node => { node with schemaType := some schemaType }

/-- `GraphStore::set_description`. -/
def setDescription (store : GraphStore) (id : EntityId) (description : String) : GraphStore :=
  store.updateEntity id fun node => { node with description }

/-- `GraphStore::set_extraction_confidence`. -/
def setExtractionConfidence (store : GraphStore) (id : EntityId) (confidence : FloatValue) :
    GraphStore :=
  store.updateEntity id fun node => { node with extractionConfidence := confidence }

def relationTypesOf (store : GraphStore) (id : EntityId) : List String :=
  (store.adj.listAt id).map fun edge => edge.2.1

/-- `GraphStore::rescore_entity`: the score goes into memory and not to disk. -/
def rescoreEntity (env : GraphEnv) (store : GraphStore) (id : EntityId) :
    FloatValue × GraphStore :=
  match store.nodes.lookup id with
  | none => (.finite 0, store)
  | some node =>
    let score := env.scoreEntity node (store.relationTypesOf id)
    (score, { store with nodes := store.nodes.insert id { node with confidence := score } })

/-- The entity that `unmerge_alias` makes of an alias. -/
def aliasStub (env : GraphEnv) (canonical : EntityNode) (entityType aliasName : String) :
    EntityNode where
  id := env.entityId aliasName entityType
  name := aliasName
  entityType
  description := ""
  embedding := List.replicate canonical.embedding.length (.finite 0)
  mentionCount := 1
  firstChunkId := canonical.firstChunkId
  aliases := []
  schemaType := none
  gender := none
  evidence := []
  fields := ∅
  confidence := .finite 0
  extractionConfidence := .finite 1

/-- The entity after `unmerge_alias`: one alias and one mention less. -/
def withoutAlias (canonical : EntityNode) (aliasName : String) : EntityNode :=
  { canonical with
    aliases := canonical.aliases.erase aliasName
    mentionCount := if canonical.mentionCount = 0 then 0 else canonical.mentionCount - 1 }

/-- `GraphStore::unmerge_alias`. -/
def unmergeAlias (env : GraphEnv) (store : GraphStore)
    (canonicalName entityType aliasName : String) : Except String (Nat × GraphStore) :=
  let canonicalId := env.entityId canonicalName entityType
  match store.nodes.lookup canonicalId with
  | none => .error s!"entity '{canonicalName}' not found"
  | some canonical =>
    if aliasName ∈ canonical.aliases then
      let stub := aliasStub env canonical entityType aliasName
      .ok (1, (store.save canonicalId (withoutAlias canonical aliasName)).save stub.id stub)
    else .ok (0, store)

/-- `GraphStore::delete_entity`. The chunk links on disk and the relations stay. -/
def deleteEntity (store : GraphStore) (id : EntityId) : GraphStore :=
  { store with
    tables.entities := store.tables.entities.erase id
    nodes := store.nodes.erase id
    entityToChunks := store.entityToChunks.erase id
    adj := store.adj.erase id }

end GraphStore

/-! ## Merging -/

/-- The entity that stands for another one after the first was merged into the second. -/
def renamed (old new id : EntityId) : EntityId := if id = old then new else id

def relationsOf (relations : Table RelationKey RelationRecord) (id : EntityId) :
    List RelationRecord :=
  (relations.entries.map fun row => row.2).filter fun relation =>
    relation.srcId = id ∨ relation.dstId = id

def strengthOf (evidence : List ChunkId) : ℚ := min 1 (evidence.length / 10)

def RelationRecord.absorb (held relation : RelationRecord) : RelationRecord :=
  let evidence := pushAllNew held.evidenceChunkIds relation.evidenceChunkIds
  { held with evidenceChunkIds := evidence, strength := strengthOf evidence }

def movedRelation (old new : EntityId) (relation : RelationRecord) : RelationRecord :=
  { relation with
    srcId := renamed old new relation.srcId
    dstId := renamed old new relation.dstId }

def rewriteRelation (old new : EntityId) (relations : Table RelationKey RelationRecord)
    (relation : RelationRecord) : Table RelationKey RelationRecord :=
  let rest := relations.erase relation.key
  let moved := movedRelation old new relation
  if moved.srcId = moved.dstId then rest
  else
    let held := (rest.lookup moved.key).map fun held => held.absorb relation
    rest.insert moved.key (held.getD moved)

/-- A chunk's entities with one of them replaced by another. -/
def replaceEntity (old new : EntityId) (entities : List EntityId) : List EntityId :=
  pushNew (entities.filter fun id => id ≠ old) new

def replaceInChunks (old new : EntityId) (chunks : List ChunkId)
    (table : Table ChunkId (List EntityId)) : Table ChunkId (List EntityId) :=
  chunks.foldl (fun table chunk => table.insert chunk (replaceEntity old new (table.listAt chunk)))
    table

/-- What `merge_entity_into` reads of the alias, with its defaults. -/
structure MergedAlias where
  mentionCount : UInt32
  name : Option String
  aliases : List String
  description : String

def MergedAlias.read (node : Option EntityNode) : MergedAlias where
  mentionCount := (node.map fun node => node.mentionCount).getD 0
  name := node.map fun node => node.name
  aliases := (node.map fun node => node.aliases).getD []
  description := (node.map fun node => node.description).getD ""

/-- The names that a merge gives to the canonical entity. -/
def MergedAlias.names (merged : MergedAlias) : List String := merged.name.toList ++ merged.aliases

namespace EntityNode

def absorbed (canonical : EntityNode) (merged : MergedAlias) : EntityNode :=
  { canonical with
    mentionCount := canonical.mentionCount + merged.mentionCount
    description :=
      if canonical.description.utf8ByteSize < merged.description.utf8ByteSize then
        merged.description
      else canonical.description }

def withEvidence (node : EntityNode) (chunks : List ChunkId) : EntityNode :=
  { node with evidence := pushAllNew node.evidence chunks }

def absorbedOnDisk (canonical : EntityNode) (merged : MergedAlias) : EntityNode :=
  { canonical.absorbed merged with aliases := pushAllNew canonical.aliases merged.names }

end EntityNode

namespace GraphStore

/-- The tables after `merge_entity_into`. -/
def mergedTables (store : GraphStore) (aliasId canonicalId : EntityId) : GraphTables :=
  let merged := MergedAlias.read (store.nodes.lookup aliasId)
  let chunks := store.tables.entityChunks.listAt aliasId
  let entityChunks :=
    if chunks = [] then store.tables.entityChunks
    else store.tables.entityChunks.insert canonicalId
      (pushAllNew (store.tables.entityChunks.listAt canonicalId) chunks)
  let entities := store.tables.entities.erase aliasId
  { store.tables with
    relations := (relationsOf store.tables.relations aliasId).foldl
      (rewriteRelation aliasId canonicalId) store.tables.relations
    entityChunks := entityChunks.erase aliasId
    chunkEntities := replaceInChunks aliasId canonicalId chunks store.tables.chunkEntities
    entities :=
      match store.nodes.lookup canonicalId with
      | none => entities
      | some canonical =>
        entities.insert canonicalId (canonical.absorbedOnDisk merged).persisted }

/-- `GraphStore::merge_entity_into`, with the number of relations that it moved. The adjacency
lists are left as they were until the next rebuild. -/
def mergeEntityInto (store : GraphStore) (aliasId canonicalId : EntityId) : Nat × GraphStore :=
  if aliasId = canonicalId then (0, store)
  else
    let merged := MergedAlias.read (store.nodes.lookup aliasId)
    let chunks := store.entityToChunks.listAt aliasId
    let entityToChunks := store.entityToChunks.erase aliasId
    ((relationsOf store.tables.relations aliasId).length,
      { store with
        tables := store.mergedTables aliasId canonicalId
        nodes := Table.modify (store.nodes.erase aliasId) canonicalId fun canonical =>
          (canonical.absorbed merged).withEvidence chunks
        chunkToEntities := chunks.foldl (fun table chunk =>
          table.modify chunk (replaceEntity aliasId canonicalId)) store.chunkToEntities
        entityToChunks :=
          if chunks = [] then entityToChunks
          else entityToChunks.insert canonicalId
            (pushAllNew (Table.listAt entityToChunks canonicalId) chunks) })

/-! ## Retyping -/

/-- `str::eq_ignore_ascii_case`. -/
def eqIgnoreAsciiCase (first second : String) : Bool :=
  first.toList.map Char.toLower = second.toList.map Char.toLower

/-- The entity that `retype_entity` finds: the first one with the name, or else the first one
with such an alias, in the order in which the hash map lists its nodes. -/
def findNamed (store : GraphStore) (order : List EntityId) (name : String) : Option EntityNode :=
  let listed := order.filterMap fun id => store.nodes.lookup id
  (listed.find? fun node => eqIgnoreAsciiCase node.name name).or
    (listed.find? fun node => node.aliases.any fun known => eqIgnoreAsciiCase known name)

def retypeRelation (old new : EntityId) (relations : Table RelationKey RelationRecord)
    (relation : RelationRecord) : Table RelationKey RelationRecord :=
  let moved := movedRelation old new relation
  (relations.erase relation.key).insert moved.key moved

def retypeInteractions (old new : EntityId)
    (table : Table (EntityId × EntityId) (List SequenceInteraction)) :
    Table (EntityId × EntityId) (List SequenceInteraction) :=
  (table.entries.filter fun row => row.1.1 = old ∨ row.1.2 = old).foldl (fun table row =>
    (table.erase row.1).insert (renamed old new row.1.1, renamed old new row.1.2) row.2) table

/-- `GraphStore::retype_entity`, given the order in which the hash map lists its nodes. The maps
of adjacency and chunk links in memory are not changed. -/
def retypeEntity (env : GraphEnv) (store : GraphStore) (order : List EntityId)
    (name newType : String) : Except String (EntityId × GraphStore) :=
  match store.findNamed order name with
  | none => .error s!"Entity not found: {name}"
  | some old =>
    let newId := env.entityId old.name newType
    if old.id = newId then .ok (newId, store)
    else if newId ∈ store.nodes then
      .error s!"Cannot retype: entity '{name}' as {newType} already exists (id={newId})"
    else
      match store.tables.timeline, store.tables.interactions with
      | none, _ => .error "Table 'entity_timeline_v1' does not exist"
      | some _, none => .error "Table 'seq_interactions_v1' does not exist"
      | some timeline, some interactions =>
        let node := { old with id := newId, entityType := newType }
        let chunks := store.tables.entityChunks.listAt old.id
        let events := timeline.listAt old.id
        .ok (newId,
          { store with
            tables :=
              { entities := (store.tables.entities.insert newId node.persisted).erase old.id
                relations := (relationsOf store.tables.relations old.id).foldl
                  (retypeRelation old.id newId) store.tables.relations
                chunkEntities :=
                  replaceInChunks old.id newId chunks store.tables.chunkEntities
                entityChunks := (store.tables.entityChunks.insert newId chunks).erase old.id
                timeline := some
                  (if events = [] then timeline
                    else (timeline.erase old.id).insert newId events)
                interactions := some (retypeInteractions old.id newId interactions) }
            nodes := (store.nodes.erase old.id).insert newId node })

/-! ## Relations -/

/-- The relation types of `FAMILIAL_RELS`. -/
def familialRels : List String :=
  ["parent_of", "child_of", "spouse_of", "sibling_of", "half_sibling_of", "grandparent_of",
    "grandchild_of", "uncle_of", "aunt_of", "niece_of", "nephew_of", "cousin_of",
    "foster_parent_of", "foster_child_of"]

/-- The table `FAMILIAL_INVERSE`. -/
def familialInverse : List (String × String) :=
  [("parent_of", "child_of"), ("child_of", "parent_of"), ("grandparent_of", "grandchild_of"),
    ("grandchild_of", "grandparent_of"), ("uncle_of", "nephew_of"), ("aunt_of", "niece_of"),
    ("nephew_of", "uncle_of"), ("niece_of", "aunt_of"), ("foster_parent_of", "foster_child_of"),
    ("foster_child_of", "foster_parent_of")]

def inverseOf (relationType : String) : Option String :=
  (familialInverse.find? fun pair => pair.1 = relationType).map Prod.snd

/-- The relation types that are stored in both directions. -/
def isSymmetric (relationType : String) : Bool :=
  relationType ∈ ["spouse_of", "sibling_of", "half_sibling_of", "cousin_of"]

def setEdge (neighbour : EntityId) (relationType : String) (strength : ℚ) :
    List Edge → List Edge
  | [] => [(neighbour, relationType, strength)]
  | edge :: edges =>
    if edge.1 = neighbour ∧ edge.2.1 = relationType then
      (neighbour, relationType, strength) :: edges
    else edge :: setEdge neighbour relationType strength edges

/-- `update_adj`. -/
def updateAdj (adj : Table EntityId (List Edge)) (start neighbour : EntityId)
    (relationType : String) (strength : ℚ) : Table EntityId (List Edge) :=
  adj.insert start (setEdge neighbour relationType strength (adj.listAt start))

def writeEdges (adj : Table EntityId (List Edge)) (key : RelationKey) (strength : ℚ) :
    Table EntityId (List Edge) :=
  updateAdj (updateAdj adj key.1 key.2.1 key.2.2 strength) key.2.1 key.1 key.2.2 strength

/-- The row that `upsert_relation_unchecked` writes, given the row that is stored. -/
def relationWith (key : RelationKey) (chunk : ChunkId) :
    Option RelationRecord → RelationRecord
  | some held =>
    if chunk ∈ held.evidenceChunkIds then held
    else
      let evidence := held.evidenceChunkIds ++ [chunk]
      { held with evidenceChunkIds := evidence, strength := strengthOf evidence }
  | none =>
    { srcId := key.1, dstId := key.2.1, relationType := key.2.2, strength := 1 / 10
      evidenceChunkIds := [chunk] }

/-- `GraphStore::upsert_relation_unchecked`. -/
def upsertRelationUnchecked (store : GraphStore) (key : RelationKey) (chunk : ChunkId) :
    GraphStore :=
  let relation := relationWith key chunk (store.tables.relations.lookup key)
  { store with
    tables.relations := store.tables.relations.insert key relation
    adj := writeEdges store.adj key relation.strength }

/-- A work as the target of `located_in` or `works_at` is refused, and so is an end of a
familial relation that is known not to be a person. -/
def accepts (store : GraphStore) (src dst : EntityId) (relationType : String) : Bool :=
  let isWork := (store.nodes.lookup dst).any fun node =>
    node.schemaType = some "schema:CreativeWork"
  let isPerson id := (store.nodes.lookup id).all fun node =>
    eqIgnoreAsciiCase node.entityType "person"
  !((relationType = "located_in" || relationType = "works_at") && isWork) &&
    (relationType ∉ familialRels || (isPerson src && isPerson dst))

/-- The keys of the rows that `upsert_relation` writes: the relation itself, its inverse and its
symmetric counterpart. -/
def upsertedKeys (src dst : EntityId) (relationType : String) : List RelationKey :=
  (src, dst, relationType) ::
    ((inverseOf relationType).toList.map fun inverse => (dst, src, inverse)) ++
    (if isSymmetric relationType then [(dst, src, relationType)] else [])

/-- `GraphStore::upsert_relation`. -/
def upsertRelation (store : GraphStore) (src dst : EntityId) (relationType : String)
    (chunk : ChunkId) : GraphStore :=
  if store.accepts src dst relationType then
    (upsertedKeys src dst relationType).foldl (fun store key =>
      store.upsertRelationUnchecked key chunk) store
  else store

def edgesBut (neighbour : EntityId) (relationType : String) (edges : List Edge) : List Edge :=
  edges.filter fun edge => ¬(edge.1 = neighbour ∧ edge.2.1 = relationType)

def dropEdges (adj : Table EntityId (List Edge)) (key : RelationKey) :
    Table EntityId (List Edge) :=
  (adj.modify key.1 (edgesBut key.2.1 key.2.2)).modify key.2.1 (edgesBut key.1 key.2.2)

/-- `GraphStore::delete_relation`. The edges of the relation are removed if it was stored; the
edges of its inverse stay. -/
def deleteRelation (store : GraphStore) (src dst : EntityId) (relationType : String) :
    Bool × GraphStore :=
  let removed := (src, dst, relationType) ∈ store.tables.relations
  (removed,
    { store with
      tables.relations := store.tables.relations.putAll
        ((upsertedKeys src dst relationType).map fun key => (key, none))
      adj := if removed then dropEdges store.adj (src, dst, relationType) else store.adj })

def danglingRelations (store : GraphStore) : List RelationRecord :=
  (store.tables.relations.entries.map fun row => row.2).filter fun relation =>
    relation.srcId ∉ store.nodes ∨ relation.dstId ∉ store.nodes

/-- `GraphStore::prune_dangling_relations`. -/
def pruneDanglingRelations (store : GraphStore) : Nat × GraphStore :=
  let keys := store.danglingRelations.map RelationRecord.key
  (keys.length,
    { store with
      tables.relations := store.tables.relations.putAll (keys.map fun key => (key, none))
      adj := keys.foldl dropEdges store.adj })

/-! ## Events and interactions -/

/-- `GraphStore::get_timeline_events`. -/
def getTimelineEvents (store : GraphStore) (ids : List EntityId) : List TimelineEvent :=
  store.tables.timeline.elim [] fun table => ids.flatMap table.listAt

/-- `GraphStore::get_interactions_for`. -/
def getInteractionsFor (store : GraphStore) (ids : List EntityId) : List SequenceInteraction :=
  store.tables.interactions.elim [] fun table =>
    (table.entries.flatMap fun row => row.2).filter fun interaction =>
      interaction.fromEntityId ∈ ids ∨ interaction.toEntityId ∈ ids

end GraphStore

end KwaaiNet
