import KwaaiNet.Foundation.Execution
import KwaaiNet.Graph.Store

/-! # Reopening the graph store

The entities in memory are to be the ones that `rebuild` would read from disk, up to their
evidence. Ten mutators change the two, each by its own code. What a mutator does is a batch of
changes of rows, and it keeps memory and disk alike if it applies the same batch to both
(`KwaaiNet.GraphStore.Written`). Two mutators do not: a merge writes the names of the alias to
disk only, and a rescoring writes its score to memory only. A run in which no merge adds a name
and no rescoring changes a score reopens unchanged
(`KwaaiNet.GraphStore.reopensUnchanged_of_persists`).
-/

namespace KwaaiNet

open Foundation List

/-- The rows of entities are filed under the ids of the entities. -/
def GraphTables.Filed (tables : GraphTables) : Prop :=
  ∀ row ∈ tables.entities.entries, row.2.id = row.1

inductive EntityEvent where
  | upsertEntity (node : EntityNode)
  | incrementMention (id : EntityId)
  | mergeEntityInto (aliasId canonicalId : EntityId)
  | unmergeAlias (canonicalName entityType aliasName : String)
  | rescoreEntity (id : EntityId)
  | setDescription (id : EntityId) (description : String)
  | setSchemaType (id : EntityId) (schemaType : String)
  | setExtractionConfidence (id : EntityId) (confidence : FloatValue)
  | retypeEntity (order : List EntityId) (name newType : String)
  | deleteEntity (id : EntityId)

namespace GraphStore

def settle {α : Type} (store : GraphStore) : Except String (α × GraphStore) → GraphStore
  | .ok result => result.2
  | .error _ => store

/-- One call. The order of a retyping is the one of the hash map, hence lists every node. -/
def entityStep (env : GraphEnv) (store : GraphStore) : EntityEvent → GraphStore
  | .upsertEntity node => store.upsertEntity env node
  | .incrementMention id => store.incrementMention id
  | .mergeEntityInto aliasId canonicalId => (store.mergeEntityInto aliasId canonicalId).2
  | .unmergeAlias canonicalName entityType aliasName =>
    store.settle (store.unmergeAlias env canonicalName entityType aliasName)
  | .rescoreEntity id => (store.rescoreEntity env id).2
  | .setDescription id description => store.setDescription id description
  | .setSchemaType id schemaType => store.setSchemaType id schemaType
  | .setExtractionConfidence id confidence => store.setExtractionConfidence id confidence
  | .retypeEntity order name newType =>
    if order.isPerm store.nodes.keys then
      store.settle (store.retypeEntity env order name newType)
    else store
  | .deleteEntity id => store.deleteEntity id

def inMemory (store : GraphStore) (id : EntityId) : Option EntityNode :=
  (store.nodes.lookup id).map EntityNode.persisted

def onDisk (store : GraphStore) (id : EntityId) : Option EntityNode :=
  (store.tables.entities.lookup id).map EntityNode.persisted

def ReopensUnchanged (store : GraphStore) : Prop :=
  ∃ reopened, rebuild store.tables = some reopened ∧ reopened.inMemory = store.inMemory

/-- Memory and disk agree, and every row can be read and is filed under its own id. -/
structure Synced (store : GraphStore) : Prop where
  same : store.onDisk = store.inMemory
  filed : ∀ id row, store.onDisk id = some row → row.id = id ∧ row.readable

/-- A batch of rows was applied to memory and to disk. -/
structure Written (store next : GraphStore) (changes : List (EntityId × Option EntityNode)) :
    Prop where
  onDisk : next.onDisk = overlay changes store.onDisk
  inMemory : next.inMemory = overlay changes store.inMemory
  filed : ∀ id row, (id, some row) ∈ changes → row.id = id ∧ row.readable

section Writing

variable {store next last : GraphStore} {changes more : List (EntityId × Option EntityNode)}

/-- A batch that is applied to both sides keeps them alike. -/
theorem Synced.of_written (synced : store.Synced) (written : Written store next changes) :
    next.Synced where
  same := by rw [written.onDisk, written.inMemory, synced.same]
  filed := by
    intro id row held
    rw [written.onDisk] at held
    rcases overlay_eq_some held with changed | before
    · exact written.filed id row changed
    · exact synced.filed id row before

theorem Written.trans (first : Written store next changes) (second : Written next last more) :
    Written store last (changes ++ more) where
  onDisk := by rw [overlay_append, second.onDisk, first.onDisk]
  inMemory := by rw [overlay_append, second.inMemory, first.inMemory]
  filed := by
    intro id row member
    rcases mem_append.mp member with early | late
    · exact first.filed id row early
    · exact second.filed id row late

theorem Synced.held (synced : store.Synced) {id : EntityId} {node : EntityNode}
    (held : store.nodes.lookup id = some node) : node.id = id ∧ node.readable := by
  apply synced.filed id node.persisted
  rw [synced.same, GraphStore.inMemory, held]
  rfl

theorem persisted_putAll (table : Table EntityId EntityNode)
    (changes : List (EntityId × Option EntityNode)) :
    (fun id => ((table.putAll changes).lookup id).map EntityNode.persisted) =
      overlay (changes.map fun change => (change.1, change.2.map EntityNode.persisted))
        fun id => (table.lookup id).map EntityNode.persisted := by
  rw [overlay_map, ← Table.lookup_putAll]

theorem onDisk_of_putAll (changes : List (EntityId × Option EntityNode))
    (entities : next.tables.entities = store.tables.entities.putAll changes) :
    next.onDisk = overlay (changes.map fun change => (change.1, change.2.map EntityNode.persisted))
      store.onDisk := by
  refine Eq.trans ?_ (persisted_putAll store.tables.entities changes)
  rw [← entities]
  rfl

theorem inMemory_of_putAll (changes : List (EntityId × Option EntityNode))
    (nodes : next.nodes = store.nodes.putAll changes) :
    next.inMemory = overlay
      (changes.map fun change => (change.1, change.2.map EntityNode.persisted)) store.inMemory := by
  refine Eq.trans ?_ (persisted_putAll store.nodes changes)
  rw [← nodes]
  rfl

theorem written_save (store : GraphStore) {id : EntityId} {node : EntityNode}
    (filed : node.id = id) (readable : node.readable) :
    Written store (store.save id node) [(id, some node.persisted)] where
  onDisk := onDisk_of_putAll [(id, some node.persisted)] rfl
  inMemory := inMemory_of_putAll [(id, some node)] rfl
  filed := by
    intro other row member
    cases mem_singleton.mp member
    exact ⟨filed, readable⟩

theorem written_deleteEntity (id : EntityId) :
    Written store (store.deleteEntity id) [(id, none)] where
  onDisk := onDisk_of_putAll [(id, none)] rfl
  inMemory := inMemory_of_putAll [(id, none)] rfl
  filed := by
    intro other row member
    cases mem_singleton.mp member

end Writing

section Mutators

variable {env : GraphEnv} {store : GraphStore}

theorem Synced.upsertEntity (synced : store.Synced) {node : EntityNode} (readable : node.readable) :
    (store.upsertEntity env node).Synced := by
  refine synced.of_written (written_save store rfl ?_)
  cases held : store.nodes.lookup node.id with
  | none => exact readable
  | some existing => exact EntityNode.readable_merge env (synced.held held).2 readable

theorem Synced.updateEntity (synced : store.Synced) {id : EntityId}
    {change : EntityNode → EntityNode}
    (kept : ∀ node, store.nodes.lookup id = some node → node.readable →
      (change node).id = node.id ∧ (change node).readable) :
    (store.updateEntity id change).Synced := by
  rw [GraphStore.updateEntity]
  cases held : store.nodes.lookup id with
  | none => exact synced
  | some node =>
    obtain ⟨filed, readable⟩ := synced.held held
    obtain ⟨named, stillReadable⟩ := kept node held readable
    exact synced.of_written (written_save store (named.trans filed) stillReadable)

theorem readable_aliasStub (env : GraphEnv) (canonical : EntityNode) (entityType name : String) :
    (aliasStub env canonical entityType name).readable := by
  refine EntityNode.readable_iff.mpr ⟨?_, rfl, rfl, fun row member => nomatch member⟩
  intro value member
  rw [eq_of_mem_replicate member]
  rfl

theorem Synced.unmergeAlias (synced : store.Synced) (canonicalName entityType aliasName : String) :
    (store.settle (store.unmergeAlias env canonicalName entityType aliasName)).Synced := by
  rw [GraphStore.unmergeAlias]
  cases held : store.nodes.lookup (env.entityId canonicalName entityType) with
  | none => exact synced
  | some canonical =>
    obtain ⟨filed, readable⟩ := synced.held held
    by_cases known : aliasName ∈ canonical.aliases
    · have kept : (withoutAlias canonical aliasName).id = _ := filed
      have updated := written_save store kept readable
      have stubReadable := readable_aliasStub env canonical entityType aliasName
      simp only [known, ↓reduceIte]
      exact synced.of_written (updated.trans (written_save _ rfl stubReadable))
    · simp only [known, ↓reduceIte]
      exact synced

def mergeChanges (store : GraphStore) (aliasId canonicalId : EntityId)
    (absorb : EntityNode → EntityNode) : List (EntityId × Option EntityNode) :=
  (aliasId, none) ::
    ((store.nodes.lookup canonicalId).map fun canonical =>
      (canonicalId, some (absorb canonical))).toList

theorem entities_mergedTables (aliasId canonicalId : EntityId) :
    (store.mergedTables aliasId canonicalId).entities =
      store.tables.entities.putAll (store.mergeChanges aliasId canonicalId fun canonical =>
        (canonical.absorbedOnDisk
          (MergedAlias.read (store.nodes.lookup aliasId))).persisted) := by
  rw [mergedTables, mergeChanges]
  cases store.nodes.lookup canonicalId with
  | none => rfl
  | some canonical => rfl

theorem tables_mergeEntityInto (store : GraphStore) {aliasId canonicalId : EntityId}
    (apart : aliasId ≠ canonicalId) :
    (store.mergeEntityInto aliasId canonicalId).2.tables =
      store.mergedTables aliasId canonicalId := by
  rw [mergeEntityInto, if_neg apart]

theorem nodes_mergeEntityInto {aliasId canonicalId : EntityId} (apart : aliasId ≠ canonicalId) :
    (store.mergeEntityInto aliasId canonicalId).2.nodes =
      store.nodes.putAll (store.mergeChanges aliasId canonicalId fun canonical =>
        (canonical.absorbed (MergedAlias.read (store.nodes.lookup aliasId))).withEvidence
          (store.entityToChunks.listAt aliasId)) := by
  have left : AList.lookup canonicalId (store.nodes.erase aliasId) =
      store.nodes.lookup canonicalId := AList.lookup_erase_ne (Ne.symm apart)
  rw [mergeEntityInto, if_neg apart, mergeChanges]
  dsimp only
  rw [Table.modify, left]
  cases store.nodes.lookup canonicalId with
  | none => rfl
  | some canonical => rfl

theorem absorbedOnDisk_of_known {canonical : EntityNode} {merged : MergedAlias}
    (known : ∀ name ∈ merged.names, name ∈ canonical.aliases) :
    canonical.absorbedOnDisk merged = canonical.absorbed merged := by
  rw [EntityNode.absorbedOnDisk, pushAllNew_of_subset known]
  rfl

theorem Synced.mergeEntityInto (synced : store.Synced) {aliasId canonicalId : EntityId}
    (apart : aliasId ≠ canonicalId)
    (known : ∀ canonical, store.nodes.lookup canonicalId = some canonical →
      ∀ name ∈ (MergedAlias.read (store.nodes.lookup aliasId)).names, name ∈ canonical.aliases) :
    (store.mergeEntityInto aliasId canonicalId).2.Synced := by
  have entities := (congrArg GraphTables.entities (tables_mergeEntityInto store apart)).trans
    (entities_mergedTables aliasId canonicalId)
  suffices written : Written store (store.mergeEntityInto aliasId canonicalId).2
      (store.mergeChanges aliasId canonicalId fun canonical =>
        (canonical.absorbed (MergedAlias.read (store.nodes.lookup aliasId))).persisted) from
    synced.of_written written
  refine ⟨?_, ?_, ?_⟩
  · rw [onDisk_of_putAll _ entities, mergeChanges, mergeChanges]
    cases held : store.nodes.lookup canonicalId with
    | none => rfl
    | some canonical =>
      rw [Option.map_some, Option.map_some, absorbedOnDisk_of_known (known canonical held)]
      rfl
  · rw [inMemory_of_putAll _ (nodes_mergeEntityInto apart), mergeChanges, mergeChanges]
    cases store.nodes.lookup canonicalId with
    | none => rfl
    | some canonical => rfl
  · intro id row member
    rw [mergeChanges] at member
    cases held : store.nodes.lookup canonicalId with
    | none =>
      rw [held] at member
      cases mem_singleton.mp member
    | some canonical =>
      rw [held] at member
      rcases mem_cons.mp member with removed | changed
      · cases removed
      · have named := mem_singleton.mp changed
        cases named
        obtain ⟨filed, readable⟩ := synced.held held
        exact ⟨filed, readable⟩

theorem Synced.rescoreEntity (synced : store.Synced) {id : EntityId}
    (scored : ∀ node, store.nodes.lookup id = some node →
      env.scoreEntity node (store.relationTypesOf id) = node.confidence) :
    (store.rescoreEntity env id).2.Synced := by
  rw [GraphStore.rescoreEntity]
  cases held : store.nodes.lookup id with
  | none => exact synced
  | some node =>
    have same := scored node held
    suffices unchanged : GraphStore.inMemory _ = store.inMemory from
      ⟨synced.same.trans unchanged.symm, synced.filed⟩
    funext other
    change (AList.lookup other (store.nodes.insert id _)).map _ =
      (store.nodes.lookup other).map _
    by_cases changed : other = id
    · subst changed
      rw [AList.lookup_insert, held, same]
    · rw [AList.lookup_insert_ne changed]

theorem mem_of_findNamed {order : List EntityId} {name : String} {node : EntityNode}
    (found : store.findNamed order name = some node) : ∃ id, store.nodes.lookup id = some node := by
  have listed : node ∈ order.filterMap fun id => store.nodes.lookup id := by
    rcases Option.or_eq_some_iff.mp found with named | ⟨_, known⟩
    · exact mem_of_find?_eq_some named
    · exact mem_of_find?_eq_some known
  obtain ⟨id, _, held⟩ := mem_filterMap.mp listed
  exact ⟨id, held⟩

theorem written_retype {next : GraphStore} {old new : EntityId} (apart : old ≠ new)
    (node : EntityNode) (filed : node.id = new) (readable : node.readable)
    (entities : next.tables.entities = (store.tables.entities.insert new node.persisted).erase old)
    (nodes : next.nodes = (store.nodes.erase old).insert new node) :
    Written store next [(new, some node.persisted), (old, none)] where
  onDisk := onDisk_of_putAll [(new, some node.persisted), (old, none)] entities
  inMemory := by
    refine (inMemory_of_putAll [(old, none), (new, some node)] nodes).trans ?_
    have separate : ∀ id ∈ [(old, (none : Option EntityNode))].map Prod.fst,
        id ∉ [(new, some node.persisted)].map Prod.fst := by
      intro id touched other
      exact apart ((mem_singleton.mp touched).symm.trans (mem_singleton.mp other))
    exact overlay_comm separate store.inMemory
  filed := by
    intro id row member
    rcases mem_cons.mp member with changed | removed
    · cases changed
      exact ⟨filed, readable⟩
    · cases mem_singleton.mp removed

theorem Synced.retypeEntity (synced : store.Synced) (order : List EntityId)
    (name newType : String) :
    (store.settle (store.retypeEntity env order name newType)).Synced := by
  rw [GraphStore.retypeEntity]
  cases found : store.findNamed order name with
  | none => exact synced
  | some old =>
    obtain ⟨id, held⟩ := mem_of_findNamed found
    have readable := (synced.held held).2
    dsimp only
    split_ifs with same taken
    · exact synced
    · exact synced
    · cases store.tables.timeline with
      | none => exact synced
      | some timeline =>
        cases store.tables.interactions with
        | none => exact synced
        | some interactions =>
          exact synced.of_written (written_retype same
            { old with id := env.entityId old.name newType, entityType := newType }
            rfl readable rfl rfl)

end Mutators

section Rebuilding

variable {tables : GraphTables} {store : GraphStore}

theorem persisted_syncEvidence (index : Table EntityId (List ChunkId))
    (nodes : Table EntityId EntityNode) (id : EntityId) :
    ((syncEvidence index nodes).lookup id).map EntityNode.persisted =
      (nodes.lookup id).map EntityNode.persisted := by
  rw [syncEvidence]
  generalize index.entries = rows
  induction rows generalizing nodes with
  | nil => rfl
  | cons row rows ih =>
    rw [foldl_cons, ih, Table.lookup_modify]
    split_ifs
    · cases nodes.lookup id with
      | none => rfl
      | some node => rfl
    · rfl

theorem rebuild_of_filed (filed : tables.Filed)
    (readable : ∀ row ∈ tables.entities.entries, row.2.readable) :
    ∃ opened, rebuild tables = some opened ∧ opened.tables = tables ∧
      ∀ id, opened.inMemory id = (tables.entities.lookup id).map EntityNode.persisted := by
  have all : (tables.entities.entries.all fun row => row.2.readable) = true :=
    all_eq_true.mpr readable
  refine ⟨_, if_pos all, rfl, ?_⟩
  intro id
  have rows : (tables.entities.entries.map fun row => (row.2.id, some row.2)) =
      tables.entities.entries.map fun row => (row.1, some row.2) := by
    apply map_congr_left
    intro row member
    rw [filed row member]
  refine (persisted_syncEvidence tables.entityChunks _ id).trans ?_
  rw [rows]
  exact congrArg (Option.map _) (congrFun (Table.lookup_putAll_entries tables.entities) id)

theorem readable_of_rebuild (opened : rebuild tables = some store) :
    ∀ row ∈ tables.entities.entries, row.2.readable := by
  rw [rebuild] at opened
  split_ifs at opened with all
  exact all_eq_true.mp all

theorem synced_of_rebuild (filed : tables.Filed) (opened : rebuild tables = some store) :
    store.Synced := by
  have readable := readable_of_rebuild opened
  obtain ⟨other, also, kept, read⟩ := rebuild_of_filed filed readable
  obtain rfl := Option.some.inj (opened.symm.trans also)
  have onDisk : ∀ id, store.onDisk id = (tables.entities.lookup id).map EntityNode.persisted := by
    intro id
    rw [GraphStore.onDisk, kept]
  refine ⟨funext fun id => (onDisk id).trans (read id).symm, ?_⟩
  intro id row held
  obtain ⟨node, present, rfl⟩ := Option.map_eq_some_iff.mp ((onDisk id).symm.trans held)
  have member := AList.mem_lookup_iff.mp present
  exact ⟨filed _ member, readable _ member⟩

theorem Synced.reopensUnchanged (synced : store.Synced) : store.ReopensUnchanged := by
  have row : ∀ row ∈ store.tables.entities.entries, row.2.id = row.1 ∧ row.2.readable := by
    intro row member
    have held := AList.mem_lookup_iff.mpr member
    apply synced.filed row.1 row.2.persisted
    rw [GraphStore.onDisk, held]
    rfl
  obtain ⟨reopened, opened, _, read⟩ := rebuild_of_filed (fun one member => (row one member).1)
    fun one member => (row one member).2
  refine ⟨reopened, opened, ?_⟩
  rw [← synced.same]
  exact funext read

end Rebuilding

def Persists (env : GraphEnv) (store : GraphStore) : EntityEvent → Prop
  | .upsertEntity node => node.readable
  | .setExtractionConfidence id confidence => id ∈ store.nodes → confidence.isFinite
  | .mergeEntityInto aliasId canonicalId =>
    aliasId ≠ canonicalId → ∀ canonical, store.nodes.lookup canonicalId = some canonical →
      ∀ name ∈ (MergedAlias.read (store.nodes.lookup aliasId)).names, name ∈ canonical.aliases
  | .rescoreEntity id =>
    ∀ node, store.nodes.lookup id = some node →
      env.scoreEntity node (store.relationTypesOf id) = node.confidence
  | _ => True

/-- One call keeps memory and disk alike. -/
theorem Synced.entityStep {env : GraphEnv} {store : GraphStore} (synced : store.Synced)
    {event : EntityEvent} (persists : Persists env store event) :
    (store.entityStep env event).Synced := by
  cases event with
  | upsertEntity node => exact synced.upsertEntity persists
  | incrementMention id => exact synced.updateEntity fun _ _ readable => ⟨rfl, readable⟩
  | mergeEntityInto aliasId canonicalId =>
    by_cases same : aliasId = canonicalId
    · change (store.mergeEntityInto aliasId canonicalId).2.Synced
      rw [GraphStore.mergeEntityInto, if_pos same]
      exact synced
    · exact synced.mergeEntityInto same (persists same)
  | unmergeAlias canonicalName entityType aliasName =>
    exact synced.unmergeAlias canonicalName entityType aliasName
  | rescoreEntity id => exact synced.rescoreEntity persists
  | setDescription id description =>
    exact synced.updateEntity fun _ _ readable => ⟨rfl, readable⟩
  | setSchemaType id schemaType => exact synced.updateEntity fun _ _ readable => ⟨rfl, readable⟩
  | setExtractionConfidence id confidence =>
    apply synced.updateEntity
    intro node held readable
    have known : id ∈ store.nodes := AList.lookup_isSome.mp (by rw [held]; rfl)
    obtain ⟨embedding, score, _, fields⟩ := EntityNode.readable_iff.mp readable
    exact ⟨rfl, EntityNode.readable_iff.mpr ⟨embedding, score, persists known, fields⟩⟩
  | retypeEntity order name newType =>
    change (if order.isPerm store.nodes.keys then _ else store).Synced
    split_ifs
    · exact synced.retypeEntity order name newType
    · exact synced
  | deleteEntity id => exact synced.of_written (written_deleteEntity id)

/-- **Reopening.** In a run of calls that give finite floats, merge no unknown name and rescore
to the score that is there, the store reopens with the entities it has in memory. -/
theorem reopensUnchanged_of_persists {env : GraphEnv} {tables : GraphTables} {start : GraphStore}
    (filed : tables.Filed) (opened : rebuild tables = some start) {events : List EntityEvent}
    (persists : Meets (entityStep env) (Persists env) start events) :
    (events.foldl (entityStep env) start).ReopensUnchanged := by
  refine Synced.reopensUnchanged ((run_of_meets persists).invariant ?_
    (synced_of_rebuild filed opened))
  rintro store event next synced ⟨condition, rfl⟩
  exact synced.entityStep condition

section Examples

def plainEnv : GraphEnv where
  entityId name _ := name.length
  toLowercase := id
  trim := id
  scoreEntity _ _ := .finite 0

def person (name : String) (aliases : List String) : EntityNode where
  id := name.length
  name
  entityType := "Person"
  description := ""
  embedding := [.finite 1]
  mentionCount := 1
  firstChunkId := 1
  aliases
  schemaType := none
  gender := none
  evidence := []
  fields := ∅
  confidence := .finite 0
  extractionConfidence := .finite (1 / 2)

/-- Two people, one of whom is merged into the other. -/
def mergeOfTwo (aliases : List String) : List EntityEvent :=
  [.upsertEntity (person "Ann" []), .upsertEntity (person "Anna" aliases), .mergeEntityInto 3 4]

/-- The name of the merged person is on disk and not in memory. -/
theorem mergeOfTwo_not_reopensUnchanged :
    rebuild newTables = some newGraph ∧
      ¬((mergeOfTwo []).foldl (entityStep plainEnv) newGraph).ReopensUnchanged := by
  refine ⟨rfl, ?_⟩
  rintro ⟨reopened, opened, same⟩
  have disk : (rebuild ((mergeOfTwo []).foldl (entityStep plainEnv) newGraph).tables).map
      (fun reopened => (reopened.inMemory 4).map EntityNode.aliases) = some (some ["Ann"]) := by
    decide +kernel
  have memory : (((mergeOfTwo []).foldl (entityStep plainEnv) newGraph).inMemory 4).map
      EntityNode.aliases = some [] := by
    decide +kernel
  rw [opened, Option.map_some, same, memory] at disk
  exact absurd disk (by decide)

/-- Merging a known alias changes memory and disk alike. -/
theorem mergeOfTwo_known_reopensUnchanged :
    ((mergeOfTwo ["Ann"]).foldl (entityStep plainEnv) newGraph).ReopensUnchanged := by
  have filed : newTables.Filed := fun row member => nomatch member
  have opened : rebuild newTables = some newGraph := rfl
  refine reopensUnchanged_of_persists filed opened ⟨?_, ?_, ?_, trivial⟩
  · exact EntityNode.readable_iff.mpr (by decide +kernel)
  · exact EntityNode.readable_iff.mpr (by decide +kernel)
  · intro _ canonical held name member
    have read := congrArg (Option.map EntityNode.aliases) held
    have aliases : canonical.aliases = ["Ann"] :=
      Option.some.inj (read.symm.trans (by decide +kernel))
    rw [aliases]
    revert name
    decide +kernel

end Examples

end GraphStore

end KwaaiNet
