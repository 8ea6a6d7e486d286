import KwaaiNet.Graph.Reopening

/-! # Batches of merges

A batch of merges followed by a rebuild is to lose nothing: every entity has a survivor that has
its names, its relations to other survivors, its chunk links, its events and its interactions,
and nothing refers to an entity that is gone. What a graph shows is a view
(`KwaaiNet.GraphView`), losing nothing is a relation of views that composes
(`KwaaiNet.GraphView.Carries.trans`), and one merge is a step of it if the canonical entity
exists, memory has the aliases that disk has, the chunks of the alias list it in both tables and
no event or interaction is under the alias (`KwaaiNet.GraphStore.carries_merge`). Merging twice
into one entity breaks the second condition and loses the name of the first alias.
-/

namespace KwaaiNet

open Foundation List

def TimelineEvent.content (event : TimelineEvent) :
    Option String × String × String × String × ChunkId :=
  (event.dateRaw, event.dateSort, event.description, event.eventClass, event.evidenceChunkId)

/-- What an interaction says, without the entities it is between. -/
def SequenceInteraction.content (interaction : SequenceInteraction) :
    Option String × String × String × ChunkId :=
  (interaction.dateRaw, interaction.dateSort, interaction.label, interaction.evidenceChunkId)

/-- What a graph shows of its entities and what refers to them. -/
@[ext]
structure GraphView where
  names : EntityId → Option (List String)
  evidence : RelationKey → Option (List ChunkId)
  chunksOf : EntityId → List ChunkId
  entitiesOf : ChunkId → List EntityId
  eventsOf : EntityId → List (Option String × String × String × String × ChunkId)
  interactionsOf : EntityId → List (Option String × String × String × ChunkId)

namespace GraphView

def Exists (view : GraphView) (id : EntityId) : Prop := (view.names id).isSome

/-- No relation, link, event or interaction refers to an entity. -/
structure Unreferred (view : GraphView) (id : EntityId) : Prop where
  relations : ∀ key, (view.evidence key).isSome → key.1 ≠ id ∧ key.2.1 ≠ id
  chunks : view.chunksOf id = []
  entities : ∀ chunk, id ∉ view.entitiesOf chunk
  events : view.eventsOf id = []
  interactions : view.interactionsOf id = []

/-- Every entity has a survivor that has its names and whatever refers to it, and nothing refers
to an entity that is gone. -/
structure LosesNothing (before after : GraphView) (survivor : EntityId → EntityId) : Prop where
  names : ∀ id names, before.names id = some names →
    ∃ kept, after.names (survivor id) = some kept ∧ ∀ name ∈ names, name ∈ kept
  relations : ∀ key chunks, before.evidence key = some chunks →
    before.Exists key.1 → before.Exists key.2.1 → survivor key.1 ≠ survivor key.2.1 →
    ∃ kept, after.evidence (survivor key.1, survivor key.2.1, key.2.2) = some kept ∧
      ∀ chunk ∈ chunks, chunk ∈ kept
  chunks : ∀ id, before.Exists id → ∀ chunk ∈ before.chunksOf id,
    chunk ∈ after.chunksOf (survivor id)
  entities : ∀ id, before.Exists id → ∀ chunk, id ∈ before.entitiesOf chunk →
    survivor id ∈ after.entitiesOf chunk
  events : ∀ id, before.Exists id → ∀ event ∈ before.eventsOf id,
    event ∈ after.eventsOf (survivor id)
  interactions : ∀ id, before.Exists id → ∀ interaction ∈ before.interactionsOf id,
    interaction ∈ after.interactionsOf (survivor id)
  gone : ∀ id, before.Exists id → ¬after.Exists id → after.Unreferred id

/-- Losing nothing, and making no reference to an entity that is unknown. -/
structure Carries (before after : GraphView) (survivor : EntityId → EntityId) : Prop
    extends LosesNothing before after survivor where
  unknown : ∀ id, before.Unreferred id → ¬after.Exists id → after.Unreferred id

section Composition

variable {first second third : GraphView} {survivor later : EntityId → EntityId}

theorem LosesNothing.exists (kept : LosesNothing first second survivor) {id : EntityId}
    (known : first.Exists id) : second.Exists (survivor id) := by
  obtain ⟨names, found⟩ := Option.isSome_iff_exists.mp known
  obtain ⟨others, alsoFound, _⟩ := kept.names id names found
  exact Option.isSome_iff_exists.mpr ⟨others, alsoFound⟩

theorem Carries.refl (view : GraphView) : Carries view view id where
  names := fun _ names found => ⟨names, found, fun _ member => member⟩
  relations := fun _ chunks found _ _ _ => ⟨chunks, found, fun _ member => member⟩
  chunks := fun _ _ _ member => member
  entities := fun _ _ _ member => member
  events := fun _ _ _ member => member
  interactions := fun _ _ _ member => member
  gone := fun _ known unknown => absurd known unknown
  unknown := fun _ unreferred _ => unreferred

/-- **Composition.** What two changes carry, they carry one after the other. -/
theorem Carries.trans (early : Carries first second survivor)
    (late : Carries second third later) : Carries first third (later ∘ survivor) where
  names := by
    intro id names found
    obtain ⟨kept, alsoFound, all⟩ := early.names id names found
    obtain ⟨last, lastFound, rest⟩ := late.names _ kept alsoFound
    exact ⟨last, lastFound, fun name member => rest name (all name member)⟩
  relations := by
    intro key chunks found source target apart
    have stillApart : survivor key.1 ≠ survivor key.2.1 := fun same => apart (congrArg later same)
    obtain ⟨kept, alsoFound, all⟩ := early.relations key chunks found source target stillApart
    obtain ⟨last, lastFound, rest⟩ := late.relations _ kept alsoFound (early.exists source)
      (early.exists target) apart
    exact ⟨last, lastFound, fun chunk member => rest chunk (all chunk member)⟩
  chunks := fun id known chunk member =>
    late.chunks _ (early.exists known) chunk (early.chunks id known chunk member)
  entities := fun id known chunk member =>
    late.entities _ (early.exists known) chunk (early.entities id known chunk member)
  events := fun id known event member =>
    late.events _ (early.exists known) event (early.events id known event member)
  interactions := fun id known interaction member =>
    late.interactions _ (early.exists known) interaction
      (early.interactions id known interaction member)
  gone := by
    intro id known missing
    by_cases between : second.Exists id
    · exact late.gone id between missing
    · exact late.unknown id (early.gone id known between) missing
  unknown := by
    intro id unreferred missing
    by_cases between : second.Exists id
    · exact late.gone id between missing
    · exact late.unknown id (early.unknown id unreferred between) missing

end Composition

end GraphView

/-! ## The relations of a merge -/

section Rewriting

variable {old new : EntityId}

/-- A relation is moved away from the alias. -/
theorem renamed_ne (apart : old ≠ new) (id : EntityId) : renamed old new id ≠ old := by
  rw [renamed]
  split_ifs with same
  · exact Ne.symm apart
  · exact same

theorem renamed_self (id : EntityId) : renamed old old id = id := by
  rw [renamed]
  split_ifs with same
  · exact same.symm
  · rfl

theorem renamed_of_ne {id : EntityId} (other : id ≠ old) : renamed old new id = id := if_neg other

def movedKey (old new : EntityId) (key : RelationKey) : RelationKey :=
  (renamed old new key.1, renamed old new key.2.1, key.2.2)

def HasEvidence (relations : Table RelationKey RelationRecord) (key : RelationKey)
    (chunks : List ChunkId) : Prop :=
  ∃ row, relations.lookup key = some row ∧ ∀ chunk ∈ chunks, chunk ∈ row.evidenceChunkIds

def Touches (key : RelationKey) (id : EntityId) : Prop := key.1 = id ∨ key.2.1 = id

variable {relations : Table RelationKey RelationRecord}

theorem not_touches_movedKey (apart : old ≠ new) (key : RelationKey) :
    ¬Touches (movedKey old new key) old := by
  rintro (same | same)
  · exact renamed_ne apart key.1 same
  · exact renamed_ne apart key.2.1 same

theorem lookup_rewriteRelation (relation : RelationRecord) (key : RelationKey) :
    (rewriteRelation old new relations relation).lookup key =
      if key = movedKey old new relation.key ∧
          (movedRelation old new relation).srcId ≠ (movedRelation old new relation).dstId then
        some ((((relations.erase relation.key).lookup key).map fun held =>
          held.absorb relation).getD (movedRelation old new relation))
      else (relations.erase relation.key).lookup key := by
  rw [rewriteRelation]
  dsimp only
  by_cases loop : (movedRelation old new relation).srcId = (movedRelation old new relation).dstId
  · rw [if_pos loop, if_neg fun moved => moved.2 loop]
  · rw [if_neg loop]
    by_cases moved : key = movedKey old new relation.key
    · subst moved
      rw [if_pos ⟨rfl, loop⟩]
      exact AList.lookup_insert _
    · rw [if_neg fun also => moved also.1]
      exact AList.lookup_insert_ne moved

theorem hasEvidence_rewriteRelation {relation : RelationRecord} {key : RelationKey}
    {chunks : List ChunkId} (other : key ≠ relation.key)
    (held : HasEvidence relations key chunks) :
    HasEvidence (rewriteRelation old new relations relation) key chunks := by
  obtain ⟨row, found, all⟩ := held
  have rest : (relations.erase relation.key).lookup key = some row := by
    rw [AList.lookup_erase_ne other, found]
  rw [HasEvidence, lookup_rewriteRelation, rest]
  split_ifs
  · refine ⟨row.absorb relation, rfl, ?_⟩
    exact fun chunk member => mem_pushAllNew.mpr (.inl (all chunk member))
  · exact ⟨row, rfl, all⟩

theorem hasEvidence_movedKey {relation : RelationRecord}
    (apart : renamed old new relation.srcId ≠ renamed old new relation.dstId) :
    HasEvidence (rewriteRelation old new relations relation) (movedKey old new relation.key)
      relation.evidenceChunkIds := by
  rw [HasEvidence, lookup_rewriteRelation, if_pos ⟨rfl, apart⟩]
  refine ⟨_, rfl, fun chunk member => ?_⟩
  cases (relations.erase relation.key).lookup (movedKey old new relation.key) with
  | none => exact member
  | some held => exact mem_pushAllNew.mpr (.inr member)

theorem lookup_rewriteRelation_isSome {relation : RelationRecord} {key : RelationKey}
    (present : ((rewriteRelation old new relations relation).lookup key).isSome) :
    key = movedKey old new relation.key ∨ key ≠ relation.key ∧ (relations.lookup key).isSome := by
  rw [lookup_rewriteRelation] at present
  split_ifs at present with moved
  · exact .inl moved.1
  · by_cases same : key = relation.key
    · rw [same, AList.lookup_erase] at present
      cases present
    · rw [AList.lookup_erase_ne same] at present
      exact .inr ⟨same, present⟩

theorem hasEvidence_foldl {moving : List RelationRecord} {key : RelationKey}
    {chunks : List ChunkId} (others : ∀ relation ∈ moving, key ≠ relation.key)
    (held : HasEvidence relations key chunks) :
    HasEvidence (moving.foldl (rewriteRelation old new) relations) key chunks := by
  induction moving generalizing relations with
  | nil => exact held
  | cons relation moving ih =>
    rw [forall_mem_cons] at others
    exact ih others.2 (hasEvidence_rewriteRelation others.1 held)

theorem hasEvidence_foldl_movedKey {moving : List RelationRecord} (apart : old ≠ new)
    (touching : ∀ relation ∈ moving, Touches relation.key old) {relation : RelationRecord}
    (listed : relation ∈ moving)
    (separate : renamed old new relation.srcId ≠ renamed old new relation.dstId) :
    HasEvidence (moving.foldl (rewriteRelation old new) relations)
      (movedKey old new relation.key) relation.evidenceChunkIds := by
  induction moving generalizing relations with
  | nil => exact absurd listed not_mem_nil
  | cons first moving ih =>
    rw [forall_mem_cons] at touching
    rcases mem_cons.mp listed with rfl | later
    · apply hasEvidence_foldl _ (hasEvidence_movedKey separate)
      intro other member same
      exact not_touches_movedKey apart relation.key (same ▸ touching.2 other member)
    · exact ih touching.2 later

theorem lookup_foldl_isSome {moving : List RelationRecord} {key : RelationKey}
    (present : ((moving.foldl (rewriteRelation old new) relations).lookup key).isSome) :
    (∃ relation ∈ moving, key = movedKey old new relation.key) ∨
      (∀ relation ∈ moving, key ≠ relation.key) ∧ (relations.lookup key).isSome := by
  induction moving generalizing relations with
  | nil => exact .inr ⟨fun relation member => absurd member not_mem_nil, present⟩
  | cons relation moving ih =>
    rcases ih present with ⟨other, member, moved⟩ | ⟨others, before⟩
    · exact .inl ⟨other, mem_cons_of_mem _ member, moved⟩
    · rcases lookup_rewriteRelation_isSome before with moved | ⟨apart, earlier⟩
      · exact .inl ⟨relation, mem_cons_self, moved⟩
      · exact .inr ⟨forall_mem_cons.mpr ⟨apart, others⟩, earlier⟩

theorem keyed_rewriteRelation
    (keyed : ∀ key row, relations.lookup key = some row → row.key = key)
    (relation : RelationRecord) (key : RelationKey) (row : RelationRecord)
    (found : (rewriteRelation old new relations relation).lookup key = some row) :
    row.key = key := by
  have rest : ∀ row, (relations.erase relation.key).lookup key = some row → row.key = key := by
    intro row held
    by_cases same : key = relation.key
    · rw [same, AList.lookup_erase] at held
      cases held
    · rw [AList.lookup_erase_ne same] at held
      exact keyed key row held
  rw [lookup_rewriteRelation] at found
  split_ifs at found with moved
  · obtain rfl := Option.some.inj found
    cases held : (relations.erase relation.key).lookup key with
    | none => exact moved.1.symm
    | some other => exact rest other held
  · exact rest row found

theorem keyed_foldl_rewriteRelation
    (keyed : ∀ key row, relations.lookup key = some row → row.key = key)
    (moving : List RelationRecord) (key : RelationKey) (row : RelationRecord)
    (found : (moving.foldl (rewriteRelation old new) relations).lookup key = some row) :
    row.key = key := by
  induction moving generalizing relations with
  | nil => exact keyed key row found
  | cons relation moving ih => exact ih (keyed_rewriteRelation keyed relation) found

theorem mem_relationsOf {id : EntityId} {relation : RelationRecord}
    (keyed : ∀ key row, relations.lookup key = some row → row.key = key) :
    relation ∈ relationsOf relations id ↔
      relations.lookup relation.key = some relation ∧ Touches relation.key id := by
  rw [relationsOf, mem_filter, decide_eq_true_iff]
  refine and_congr ⟨fun member => ?_, fun found => ?_⟩ Iff.rfl
  · obtain ⟨row, present, rfl⟩ := mem_map.mp member
    have found := AList.mem_lookup_iff.mpr present
    rw [keyed row.1 row.2 found]
    exact found
  · exact mem_map_of_mem (AList.mem_lookup_iff.mp found)

end Rewriting

/-! ## The chunk links of a merge -/

section Links

variable {old new : EntityId}

theorem mem_replaceEntity {entities : List EntityId} {id : EntityId} :
    id ∈ replaceEntity old new entities ↔ id ∈ entities ∧ id ≠ old ∨ id = new := by
  rw [replaceEntity, mem_pushNew, mem_filter, decide_eq_true_iff]

theorem mem_replaceInChunks (apart : old ≠ new) {chunks : List ChunkId}
    {table : Table ChunkId (List EntityId)} {chunk : ChunkId} {id : EntityId} :
    id ∈ (replaceInChunks old new chunks table).listAt chunk ↔
      if chunk ∈ chunks then id ∈ table.listAt chunk ∧ id ≠ old ∨ id = new
      else id ∈ table.listAt chunk := by
  induction chunks generalizing table with
  | nil => rfl
  | cons first chunks ih =>
    have later := @ih (table.insert first (replaceEntity old new (table.listAt first)))
    refine later.trans ?_
    rw [Table.listAt_insert]
    by_cases here : chunk = first
    · subst here
      rw [if_pos rfl, mem_replaceEntity, if_pos mem_cons_self]
      split_ifs
      · have kept : id = new → id ≠ old := fun same => same ▸ Ne.symm apart
        tauto
      · rfl
    · simp only [here, ↓reduceIte, mem_cons, false_or]

end Links

namespace GraphStore

/-- What the store shows: entities and links from memory, the rest from disk. -/
def view (store : GraphStore) : GraphView where
  names id := (store.nodes.lookup id).map fun node => node.name :: node.aliases
  evidence key := (store.tables.relations.lookup key).map RelationRecord.evidenceChunkIds
  chunksOf := store.entityToChunks.listAt
  entitiesOf := store.chunkToEntities.listAt
  eventsOf id := (store.getTimelineEvents [id]).map TimelineEvent.content
  interactionsOf id := (store.getInteractionsFor [id]).map SequenceInteraction.content

def diskView (store : GraphStore) : GraphView :=
  { store.view with
    names := fun id => (store.tables.entities.lookup id).map fun node => node.name :: node.aliases
    chunksOf := store.tables.entityChunks.listAt
    entitiesOf := store.tables.chunkEntities.listAt }

/-- Memory and disk have the same entities under the same names, every entity is filed under its
id and can be read, and relations are filed under their keys. -/
structure Aligned (store : GraphStore) : Prop where
  named : ∀ id, (store.nodes.lookup id).map EntityNode.name =
    (store.tables.entities.lookup id).map EntityNode.name
  held : ∀ id node, store.nodes.lookup id = some node → node.id = id ∧ node.readable
  filed : ∀ id node, store.tables.entities.lookup id = some node → node.id = id ∧ node.readable
  keyed : ∀ key row, store.tables.relations.lookup key = some row → row.key = key

def mergeStep (store : GraphStore) (pair : EntityId × EntityId) : GraphStore :=
  (store.mergeEntityInto pair.1 pair.2).2

/-- The canonical entity exists, memory has the aliases of both entities as disk has them, and
if the alias exists, the chunks that list it are in its own list and no event or interaction is
under it. -/
def MergeSafe (store : GraphStore) (pair : EntityId × EntityId) : Prop :=
  pair.1 ≠ pair.2 →
    pair.2 ∈ store.nodes ∧
    (store.nodes.lookup pair.1).map EntityNode.aliases =
      (store.tables.entities.lookup pair.1).map EntityNode.aliases ∧
    (store.nodes.lookup pair.2).map EntityNode.aliases =
      (store.tables.entities.lookup pair.2).map EntityNode.aliases ∧
    (pair.1 ∈ store.nodes →
      (∀ row ∈ store.tables.chunkEntities.entries, pair.1 ∈ row.2 →
        row.1 ∈ store.tables.entityChunks.listAt pair.1) ∧
      store.getTimelineEvents [pair.1] = [] ∧ store.getInteractionsFor [pair.1] = [])

instance (store : GraphStore) (pair : EntityId × EntityId) : Decidable (store.MergeSafe pair) :=
  inferInstanceAs (Decidable (_ → _))

/-- The entity that stands for another one after a batch of merges. -/
def survivor (pairs : List (EntityId × EntityId)) (id : EntityId) : EntityId :=
  pairs.foldl (fun id pair => renamed pair.1 pair.2 id) id

section Step

variable {store : GraphStore} {aliasId canonicalId : EntityId} {canonical : EntityNode}

theorem lookup_entities_merge (apart : aliasId ≠ canonicalId)
    (found : store.nodes.lookup canonicalId = some canonical) (id : EntityId) :
    (store.mergedTables aliasId canonicalId).entities.lookup id =
      if id = aliasId then none
      else if id = canonicalId then
        some (canonical.absorbedOnDisk (MergedAlias.read (store.nodes.lookup aliasId))).persisted
      else store.tables.entities.lookup id := by
  rw [mergedTables]
  simp only [found]
  by_cases here : id = canonicalId
  · subst here
    rw [AList.lookup_insert, if_neg (Ne.symm apart), if_pos rfl]
  · rw [AList.lookup_insert_ne here, if_neg here]
    split_ifs with gone
    · rw [gone, AList.lookup_erase]
    · rw [AList.lookup_erase_ne gone]

theorem lookup_nodes_merge (apart : aliasId ≠ canonicalId)
    (found : store.nodes.lookup canonicalId = some canonical) (id : EntityId) :
    (store.mergeStep (aliasId, canonicalId)).nodes.lookup id =
      if id = aliasId then none
      else if id = canonicalId then
        some ((canonical.absorbed (MergedAlias.read (store.nodes.lookup aliasId))).withEvidence
          (store.entityToChunks.listAt aliasId))
      else store.nodes.lookup id := by
  rw [mergeStep, mergeEntityInto, if_neg apart]
  dsimp only
  rw [Table.lookup_modify]
  by_cases here : id = canonicalId
  · subst here
    rw [if_pos rfl, AList.lookup_erase_ne (Ne.symm apart), found, if_neg (Ne.symm apart),
      if_pos rfl]
    rfl
  · rw [if_neg here, if_neg here]
    split_ifs with gone
    · rw [gone, AList.lookup_erase]
    · rw [AList.lookup_erase_ne gone]

theorem listAt_entityChunks_merge (id : EntityId) :
    (store.mergedTables aliasId canonicalId).entityChunks.listAt id =
      if id = aliasId then []
      else if id = canonicalId then
        pushAllNew (store.tables.entityChunks.listAt canonicalId)
          (store.tables.entityChunks.listAt aliasId)
      else store.tables.entityChunks.listAt id := by
  rw [mergedTables]
  dsimp only
  rw [Table.listAt_erase]
  split_ifs with gone empty here
  · rfl
  · rw [here, empty]
    rfl
  · rfl
  · rw [Table.listAt_insert]
    split_ifs
    rfl
  · rw [Table.listAt_insert]
    split_ifs
    rfl

theorem Aligned.merge (aligned : store.Aligned) (apart : aliasId ≠ canonicalId)
    (known : canonicalId ∈ store.nodes) : (store.mergeStep (aliasId, canonicalId)).Aligned := by
  obtain ⟨canonical, found⟩ := Option.isSome_iff_exists.mp (AList.lookup_isSome.mpr known)
  have tables := tables_mergeEntityInto store apart
  have kept := aligned.held canonicalId canonical found
  have entity := lookup_entities_merge apart found
  have node := lookup_nodes_merge apart found
  refine ⟨?_, ?_, ?_, ?_⟩
  · intro id
    rw [node, mergeStep, tables, entity]
    split_ifs
    · rfl
    · rfl
    · exact aligned.named id
  · intro id held
    rw [node]
    split_ifs with gone here
    · simp
    · rintro same
      obtain rfl := Option.some.inj same
      rw [here]
      exact kept
    · exact aligned.held id held
  · intro id held
    rw [mergeStep, tables, entity]
    split_ifs with gone here
    · simp
    · rintro same
      obtain rfl := Option.some.inj same
      rw [here]
      exact kept
    · exact aligned.filed id held
  · rw [mergeStep, tables]
    exact keyed_foldl_rewriteRelation aligned.keyed _

theorem diskView_congr {first second : GraphStore} (same : first.tables = second.tables) :
    first.diskView = second.diskView := by
  cases first
  cases second
  cases same
  rfl

theorem evidence_merge
    (keyed : ∀ key row, store.tables.relations.lookup key = some row → row.key = key)
    (apart : aliasId ≠ canonicalId) {key : RelationKey} {row : RelationRecord}
    (found : store.tables.relations.lookup key = some row)
    (separate : renamed aliasId canonicalId key.1 ≠ renamed aliasId canonicalId key.2.1) :
    HasEvidence (store.mergedTables aliasId canonicalId).relations
      (movedKey aliasId canonicalId key) row.evidenceChunkIds := by
  have named := keyed key row found
  have touching : ∀ relation ∈ relationsOf store.tables.relations aliasId,
      Touches relation.key aliasId := fun relation member => ((mem_relationsOf keyed).mp member).2
  by_cases touches : Touches key aliasId
  · subst named
    exact hasEvidence_foldl_movedKey apart touching
      ((mem_relationsOf keyed).mpr ⟨found, touches⟩) separate
  · have still : movedKey aliasId canonicalId key = key := by
      rw [movedKey, renamed_of_ne fun same => touches (.inl same),
        renamed_of_ne fun same => touches (.inr same)]
    rw [still]
    refine hasEvidence_foldl ?_ ⟨row, found, fun _ member => member⟩
    intro relation member same
    exact touches (same ▸ touching relation member)

theorem ends_merge
    (keyed : ∀ key row, store.tables.relations.lookup key = some row → row.key = key)
    (apart : aliasId ≠ canonicalId) {key : RelationKey}
    (present : ((store.mergedTables aliasId canonicalId).relations.lookup key).isSome) :
    ¬Touches key aliasId ∧ ∀ id, Touches key id → id = canonicalId ∨
      ∃ before, (store.tables.relations.lookup before).isSome ∧ Touches before id := by
  rcases lookup_foldl_isSome present with ⟨relation, member, rfl⟩ | ⟨others, before⟩
  · obtain ⟨found, _⟩ := (mem_relationsOf keyed).mp member
    have known : (store.tables.relations.lookup relation.key).isSome := by rw [found]; rfl
    have ends : ∀ id other, renamed aliasId canonicalId other = id → Touches relation.key other →
        id = canonicalId ∨
          ∃ before, (store.tables.relations.lookup before).isSome ∧ Touches before id := by
      rintro id other rfl touches
      rw [renamed]
      split_ifs
      · exact .inl rfl
      · exact .inr ⟨relation.key, known, touches⟩
    refine ⟨not_touches_movedKey apart _, ?_⟩
    rintro id (source | target)
    · exact ends id relation.key.1 source (.inl rfl)
    · exact ends id relation.key.2.1 target (.inr rfl)
  · refine ⟨fun touches => ?_, fun id touches => .inr ⟨key, before, touches⟩⟩
    obtain ⟨row, found⟩ := Option.isSome_iff_exists.mp before
    have named := keyed key row found
    have member : row ∈ relationsOf store.tables.relations aliasId := by
      subst named
      exact (mem_relationsOf keyed).mpr ⟨found, touches⟩
    exact others row member named.symm

theorem Aligned.mem_nodes (aligned : store.Aligned) {id : EntityId}
    (known : store.diskView.Exists id) : id ∈ store.nodes := by
  apply AList.lookup_isSome.mp
  have named := congrArg Option.isSome (aligned.named id)
  rw [Option.isSome_map, Option.isSome_map] at named
  rw [named]
  exact Option.isSome_map.symm.trans known

theorem names_merge (aligned : store.Aligned) (apart : aliasId ≠ canonicalId)
    (safe : store.MergeSafe (aliasId, canonicalId)) (id : EntityId) {node : EntityNode}
    (held : store.tables.entities.lookup id = some node) :
    ∃ kept, (store.mergedTables aliasId canonicalId).entities.lookup
        (renamed aliasId canonicalId id) = some kept ∧
      ∀ name ∈ node.name :: node.aliases, name ∈ kept.name :: kept.aliases := by
  obtain ⟨known, aliasAliases, canonicalAliases, _⟩ := safe apart
  obtain ⟨canonical, found⟩ := Option.isSome_iff_exists.mp (AList.lookup_isSome.mpr known)
  have entity := lookup_entities_merge apart found
  have sameName := aligned.named id
  by_cases merged : id = aliasId
  · subst merged
    dsimp only at aliasAliases
    rw [held] at sameName aliasAliases
    obtain ⟨absorbed, inMemory, name⟩ := Option.map_eq_some_iff.mp sameName
    rw [inMemory] at aliasAliases
    have aliases : absorbed.aliases = node.aliases := Option.some.inj aliasAliases
    rw [renamed, if_pos rfl, entity, if_neg (Ne.symm apart), if_pos rfl, inMemory]
    refine ⟨_, rfl, fun other member => mem_cons_of_mem _ (mem_pushAllNew.mpr (.inr ?_))⟩
    rw [← name, ← aliases] at member
    exact member
  · rw [renamed_of_ne merged, entity, if_neg merged]
    by_cases here : id = canonicalId
    · subst here
      dsimp only at canonicalAliases
      rw [found, held] at sameName canonicalAliases
      have name : canonical.name = node.name := Option.some.inj sameName
      have aliases : canonical.aliases = node.aliases := Option.some.inj canonicalAliases
      rw [if_pos rfl, ← name, ← aliases]
      refine ⟨_, rfl, fun other member => ?_⟩
      rcases mem_cons.mp member with rfl | known
      · exact mem_cons_self
      · exact mem_cons_of_mem _ (mem_pushAllNew.mpr (.inl known))
    · rw [if_neg here]
      exact ⟨node, held, fun _ member => member⟩

/-- **One merge.** A safe merge loses nothing on disk. -/
theorem carries_merge (aligned : store.Aligned) (apart : aliasId ≠ canonicalId)
    (safe : store.MergeSafe (aliasId, canonicalId)) :
    GraphView.Carries store.diskView (store.mergeStep (aliasId, canonicalId)).diskView
      (renamed aliasId canonicalId) := by
  obtain ⟨known, _, _, clean⟩ := safe apart
  have tables : (store.mergeStep (aliasId, canonicalId)).diskView =
      { store with tables := store.mergedTables aliasId canonicalId }.diskView :=
    diskView_congr (tables_mergeEntityInto store apart)
  have linked : ∀ chunk, aliasId ∈ store.nodes →
      aliasId ∈ store.tables.chunkEntities.listAt chunk →
      chunk ∈ store.tables.entityChunks.listAt aliasId := by
    intro chunk alive member
    obtain ⟨list, row, listed⟩ := Table.mem_entries_of_mem_listAt _ member
    exact (clean alive).1 ⟨chunk, list⟩ row listed
  have canonicalKnown : GraphView.Exists
      { store with tables := store.mergedTables aliasId canonicalId }.diskView canonicalId := by
    obtain ⟨canonical, found⟩ := Option.isSome_iff_exists.mp (AList.lookup_isSome.mpr known)
    have entity := lookup_entities_merge apart found canonicalId
    rw [if_neg (Ne.symm apart), if_pos rfl] at entity
    exact Option.isSome_iff_exists.mpr ⟨_, congrArg (Option.map _) entity⟩
  rw [tables]
  refine ⟨⟨?_, ?_, ?_, ?_, ?_, ?_, ?_⟩, ?_⟩
  · intro id names held
    obtain ⟨node, stored, rfl⟩ := Option.map_eq_some_iff.mp held
    obtain ⟨kept, found, all⟩ := names_merge aligned apart safe id stored
    exact ⟨_, congrArg (Option.map _) found, all⟩
  · intro key chunks held _ _ separate
    obtain ⟨row, stored, rfl⟩ := Option.map_eq_some_iff.mp held
    obtain ⟨kept, found, all⟩ := evidence_merge aligned.keyed apart stored separate
    exact ⟨_, congrArg (Option.map _) found, all⟩
  · intro id _ chunk member
    change chunk ∈ Table.listAt _ _
    rw [listAt_entityChunks_merge, if_neg (renamed_ne apart id), renamed]
    by_cases merged : id = aliasId
    · subst merged
      rw [if_pos rfl, if_pos rfl]
      exact mem_pushAllNew.mpr (.inr member)
    · rw [if_neg merged]
      split_ifs with here
      · exact mem_pushAllNew.mpr (.inl (here ▸ member))
      · exact member
  · intro id alive chunk member
    refine (mem_replaceInChunks apart).mpr ?_
    by_cases merged : id = aliasId
    · subst merged
      rw [if_pos (linked chunk (aligned.mem_nodes alive) member)]
      exact .inr (if_pos rfl)
    · rw [renamed_of_ne merged]
      split_ifs
      · exact .inl ⟨member, merged⟩
      · exact member
  · intro id alive event member
    by_cases merged : id = aliasId
    · subst merged
      have none := (clean (aligned.mem_nodes alive)).2.1
      change event ∈ (store.getTimelineEvents [id]).map _ at member
      rw [none] at member
      cases member
    · rw [renamed_of_ne merged]
      exact member
  · intro id alive interaction member
    by_cases merged : id = aliasId
    · subst merged
      have none := (clean (aligned.mem_nodes alive)).2.2
      change interaction ∈ (store.getInteractionsFor [id]).map _ at member
      rw [none] at member
      cases member
    · rw [renamed_of_ne merged]
      exact member
  · intro id alive missing
    have merged : id = aliasId := by
      by_contra other
      obtain ⟨names, held⟩ := Option.isSome_iff_exists.mp alive
      obtain ⟨node, stored, _⟩ := Option.map_eq_some_iff.mp held
      obtain ⟨kept, found, _⟩ := names_merge aligned apart safe id stored
      rw [renamed_of_ne other] at found
      exact missing (Option.isSome_iff_exists.mpr ⟨_, congrArg (Option.map _) found⟩)
    subst merged
    have alive := aligned.mem_nodes alive
    refine ⟨?_, ?_, ?_, ?_, ?_⟩
    · intro key present
      obtain ⟨away, _⟩ := ends_merge aligned.keyed apart (Option.isSome_map.symm.trans present)
      exact not_or.mp away
    · exact (listAt_entityChunks_merge id).trans (if_pos rfl)
    · intro chunk member
      have replaced := (mem_replaceInChunks apart).mp member
      split_ifs at replaced with moved
      · exact replaced.elim (fun kept => kept.2 rfl) apart
      · exact moved (linked chunk alive replaced)
    · exact congrArg (List.map _) (clean alive).2.1
    · exact congrArg (List.map _) (clean alive).2.2
  · intro id unreferred missing
    have other : id ≠ canonicalId := fun same => missing (same ▸ canonicalKnown)
    refine ⟨?_, ?_, ?_, unreferred.events, unreferred.interactions⟩
    · intro key present
      obtain ⟨_, ends⟩ := ends_merge aligned.keyed apart (Option.isSome_map.symm.trans present)
      apply not_or.mp
      intro touches
      rcases ends id touches with same | ⟨before, stored, touched⟩
      · exact other same
      · have apartBefore := unreferred.relations before (Option.isSome_map.trans stored)
        exact touched.elim apartBefore.1 apartBefore.2
    · refine (listAt_entityChunks_merge id).trans ?_
      rw [if_neg other]
      split_ifs
      · rfl
      · exact unreferred.chunks
    · intro chunk member
      have replaced := (mem_replaceInChunks apart).mp member
      split_ifs at replaced
      · exact replaced.elim (fun kept => unreferred.entities chunk kept.1) other
      · exact unreferred.entities chunk replaced

end Step

section Batch

variable {store : GraphStore}

theorem carries_batch {pairs : List (EntityId × EntityId)} (aligned : store.Aligned)
    (safe : Meets mergeStep MergeSafe store pairs) :
    (pairs.foldl mergeStep store).Aligned ∧
      GraphView.Carries store.diskView (pairs.foldl mergeStep store).diskView (survivor pairs) := by
  induction pairs generalizing store with
  | nil => exact ⟨aligned, GraphView.Carries.refl _⟩
  | cons pair pairs ih =>
    obtain ⟨aliasId, canonicalId⟩ := pair
    obtain ⟨first, rest⟩ := safe
    by_cases same : aliasId = canonicalId
    · subst same
      have still : store.mergeStep (aliasId, aliasId) = store := by
        rw [mergeStep, mergeEntityInto, if_pos rfl]
      have names : survivor ((aliasId, aliasId) :: pairs) = survivor pairs := by
        funext id
        exact congrArg (survivor pairs) (renamed_self id)
      rw [still] at rest
      rw [foldl_cons, still, names]
      exact ih aligned rest
    · have known := (first same).1
      obtain ⟨kept, carried⟩ := ih (aligned.merge same known) rest
      exact ⟨kept, (carries_merge aligned same first).trans carried⟩

theorem links_of_rebuild {tables : GraphTables} (opened : rebuild tables = some store) :
    store.tables = tables ∧ store.chunkToEntities = tables.chunkEntities ∧
      store.entityToChunks = tables.entityChunks := by
  rw [rebuild] at opened
  split_ifs at opened
  obtain rfl := Option.some.inj opened
  exact ⟨rfl, rfl, rfl⟩

theorem view_of_rebuild {tables : GraphTables} (filed : tables.Filed)
    (opened : rebuild tables = some store) : store.view = store.diskView := by
  obtain ⟨kept, chunks, entities⟩ := links_of_rebuild opened
  have same := (synced_of_rebuild filed opened).same
  refine GraphView.ext ?_ rfl ?_ ?_ rfl rfl
  · funext id
    have names := congrArg (Option.map fun node => node.name :: node.aliases) (congrFun same id)
    rw [onDisk, inMemory, Option.map_map, Option.map_map] at names
    exact names.symm
  · exact congrArg Table.listAt (entities.trans (congrArg _ kept.symm))
  · exact congrArg Table.listAt (chunks.trans (congrArg _ kept.symm))

def RelationsFiled (tables : GraphTables) : Prop :=
  ∀ row ∈ tables.relations.entries, row.2.key = row.1

theorem aligned_of_rebuild {tables : GraphTables} (filed : tables.Filed)
    (relationsFiled : RelationsFiled tables) (opened : rebuild tables = some store) :
    store.Aligned := by
  have synced := synced_of_rebuild filed opened
  obtain ⟨rfl, _, _⟩ := links_of_rebuild opened
  refine ⟨?_, fun id node => synced.held, ?_, ?_⟩
  · intro id
    have names := congrArg (Option.map EntityNode.name) (congrFun synced.same id)
    rw [onDisk, inMemory, Option.map_map, Option.map_map] at names
    exact names.symm
  · intro id node held
    have stored : store.onDisk id = some node.persisted := by
      rw [onDisk, held]
      rfl
    exact synced.filed id node.persisted stored
  · intro key row found
    exact relationsFiled ⟨key, row⟩ (AList.mem_lookup_iff.mp found)

theorem Aligned.rebuildInMemory (aligned : store.Aligned) :
    ∃ final, store.rebuildInMemory = some final ∧ final.view = store.diskView := by
  have row : ∀ row ∈ store.tables.entities.entries, row.2.id = row.1 ∧ row.2.readable :=
    fun row member => aligned.filed row.1 row.2 (AList.mem_lookup_iff.mpr member)
  have filed : store.tables.Filed := fun one member => (row one member).1
  obtain ⟨final, opened, kept, _⟩ := rebuild_of_filed filed fun one member => (row one member).2
  exact ⟨final, opened, (view_of_rebuild filed opened).trans (diskView_congr kept)⟩

end Batch

/-- **Batches of merges.** From an opened graph, a batch of merges that are all safe loses
nothing: the rebuilt graph has a survivor for every entity, with its names and all that refers to
it, and no reference to an entity that is gone. -/
theorem losesNothing_of_mergeSafe {tables : GraphTables} {start : GraphStore}
    (filed : tables.Filed) (relationsFiled : RelationsFiled tables)
    (opened : rebuild tables = some start) {pairs : List (EntityId × EntityId)}
    (safe : Meets mergeStep MergeSafe start pairs) :
    ∃ final, (pairs.foldl mergeStep start).rebuildInMemory = some final ∧
      GraphView.LosesNothing start.view final.view (survivor pairs) := by
  obtain ⟨aligned, carried⟩ := carries_batch (aligned_of_rebuild filed relationsFiled opened) safe
  obtain ⟨final, rebuilt, shown⟩ := aligned.rebuildInMemory
  refine ⟨final, rebuilt, ?_⟩
  rw [view_of_rebuild filed opened, shown]
  exact carried.toLosesNothing

/-- Four people whose names are of different lengths. -/
def people : List (EntityId × Option EntityNode) :=
  [(3, some (person "Ann" [])), (4, some (person "Anna" [])), (5, some (person "Annie" [])),
    (6, some (person "Annika" []))]

def fourPeople : GraphTables := { newTables with entities := Table.putAll ∅ people }

def fourPeopleGraph : GraphStore :=
  { newGraph with tables := fourPeople, nodes := Table.putAll ∅ people.reverse }

theorem filed_fourPeople : fourPeople.Filed := by
  rw [GraphTables.Filed]
  decide +kernel

/-- Two people are merged into a third one: the name of the first is lost. -/
theorem twoIntoOne_not_losesNothing :
    rebuild fourPeople = some fourPeopleGraph ∧
      ¬∃ final, ([(3, 5), (4, 5)].foldl mergeStep fourPeopleGraph).rebuildInMemory = some final ∧
        GraphView.LosesNothing fourPeopleGraph.view final.view (survivor [(3, 5), (4, 5)]) := by
  refine ⟨rfl, ?_⟩
  rintro ⟨final, rebuilt, kept⟩
  have before : fourPeopleGraph.view.names 3 = some ["Ann"] := by decide +kernel
  have after : ([(3, 5), (4, 5)].foldl mergeStep fourPeopleGraph).rebuildInMemory.map
      (fun final => final.view.names 5) = some (some ["Annie", "Anna"]) := by decide +kernel
  obtain ⟨names, found, all⟩ := kept.names 3 ["Ann"] before
  rw [rebuilt, Option.map_some, Option.some_inj] at after
  obtain rfl := Option.some.inj (found.symm.trans after)
  exact absurd (all "Ann" mem_cons_self) (by decide)

/-- Two pairs of people are merged. -/
theorem twoPairs_losesNothing :
    ∃ final, ([(3, 4), (5, 6)].foldl mergeStep fourPeopleGraph).rebuildInMemory = some final ∧
      GraphView.LosesNothing fourPeopleGraph.view final.view (survivor [(3, 4), (5, 6)]) := by
  have opened : rebuild fourPeople = some fourPeopleGraph := rfl
  exact losesNothing_of_mergeSafe filed_fourPeople (fun row member => nomatch member) opened
    (by decide +kernel)

end GraphStore

end KwaaiNet
