import KwaaiNet.Foundation.Execution
import KwaaiNet.Graph.Store

/-! # Adjacency lists and stored relations

The adjacency list of an entity is to hold, once each, the neighbours that the stored relations
give it in either direction. A list is read as a map from neighbours and types to strengths, and
every operation as a change of that map next to a change of the table. They fit as long as a
relation that is stored in both directions has one strength, a removed row has its edges removed,
and the store is not reopened with a relation in both directions, which `rebuild` lists twice
(`KwaaiNet.GraphStore.mirrorsRelations_of_keepsAdjacency`). Deleting a relation with an inverse
removes the row of the inverse and leaves its edges.
-/

namespace KwaaiNet

open Foundation List

namespace GraphStore

def reversed (key : RelationKey) : RelationKey := (key.2.1, key.1, key.2.2)

def Joins (key place : RelationKey) : Prop := key = place ∨ key = reversed place

instance (key place : RelationKey) : Decidable (Joins key place) :=
  inferInstanceAs (Decidable (_ ∨ _))

def edgeKey (edge : Edge) : EntityId × String := (edge.1, edge.2.1)

def HasEdge (adj : Table EntityId (List Edge)) (place : RelationKey) (strength : ℚ) : Prop :=
  (place.2.1, place.2.2, strength) ∈ adj.listAt place.1

/-- No list has two edges to one neighbour with one type. -/
def Distinct (adj : Table EntityId (List Edge)) : Prop :=
  ∀ id, ((adj.listAt id).map edgeKey).Nodup

section Edges

variable {adj : Table EntityId (List Edge)} {edges : List Edge}

theorem reversed_reversed (key : RelationKey) : reversed (reversed key) = key := rfl

theorem joins_reversed {key place : RelationKey} : Joins key (reversed place) ↔ Joins key place :=
  or_comm

theorem Joins.eq_or_eq_reversed {key other place : RelationKey} (joins : Joins key place)
    (alsoJoins : Joins other place) : other = key ∨ other = reversed key := by
  rcases joins with rfl | rfl
  · exact alsoJoins
  · exact alsoJoins.symm

theorem keys_setEdge (neighbour : EntityId) (relationType : String) (strength : ℚ)
    (edges : List Edge) :
    (setEdge neighbour relationType strength edges).map edgeKey =
      pushNew (edges.map edgeKey) (neighbour, relationType) := by
  induction edges with
  | nil => rfl
  | cons edge edges ih =>
    rw [setEdge]
    split_ifs with same
    · have named : edgeKey edge = (neighbour, relationType) := Prod.ext same.1 same.2
      rw [pushNew, if_pos (by rw [map_cons, named]; exact mem_cons_self),
        map_cons, map_cons, named]
      rfl
    · have other : (neighbour, relationType) ≠ edgeKey edge :=
        fun named => same ⟨(congrArg Prod.fst named).symm, (congrArg Prod.snd named).symm⟩
      rw [map_cons, ih, map_cons, pushNew, pushNew]
      by_cases known : (neighbour, relationType) ∈ edges.map edgeKey
      · rw [if_pos known, if_pos (mem_cons_of_mem _ known)]
      · rw [if_neg known, if_neg (not_mem_cons_of_ne_of_not_mem other known)]
        rfl

theorem mem_setEdge {neighbour : EntityId} {relationType : String} {strength : ℚ}
    (distinct : (edges.map edgeKey).Nodup) (edge : Edge) :
    edge ∈ setEdge neighbour relationType strength edges ↔
      if edgeKey edge = (neighbour, relationType) then edge.2.2 = strength else edge ∈ edges := by
  have new : edgeKey edge = (neighbour, relationType) →
      (edge = (neighbour, relationType, strength) ↔ edge.2.2 = strength) := by
    rintro named
    obtain ⟨rfl, rfl⟩ := Prod.mk.inj named
    exact ⟨fun same => congrArg (fun edge => edge.2.2) same, fun same => by rw [← same]⟩
  induction edges with
  | nil =>
    rw [setEdge, mem_singleton]
    split_ifs with named
    · exact new named
    · refine iff_of_false (fun same => named ?_) not_mem_nil
      rw [same]
      rfl
  | cons first edges ih =>
    obtain ⟨fresh, distinct⟩ := nodup_cons.mp distinct
    rw [setEdge]
    by_cases same : first.1 = neighbour ∧ first.2.1 = relationType
    · have firstKey : edgeKey first = (neighbour, relationType) := Prod.ext same.1 same.2
      rw [if_pos same, mem_cons, mem_cons]
      split_ifs with named
      · rw [← new named]
        refine or_iff_left fun later => fresh ?_
        rw [firstKey, ← named]
        exact mem_map_of_mem later
      · refine or_congr (iff_of_false (fun same => named ?_) fun same => named ?_) Iff.rfl
        · rw [same]
          rfl
        · rw [same]
          exact firstKey
    · rw [if_neg same, mem_cons, mem_cons]
      refine (or_congr Iff.rfl (ih distinct)).trans ?_
      split_ifs with named
      · refine or_iff_right fun old => same ?_
        subst old
        exact Prod.mk.inj named
      · rfl

theorem hasEdge_updateAdj (distinct : Distinct adj) (key place : RelationKey)
    (strength held : ℚ) :
    HasEdge (updateAdj adj key.1 key.2.1 key.2.2 strength) place held ↔
      if key = place then held = strength else HasEdge adj place held := by
  obtain ⟨start, neighbour, relationType⟩ := key
  rw [HasEdge, updateAdj, Table.listAt_insert]
  by_cases here : place.1 = start
  · subst here
    rw [if_pos rfl, mem_setEdge (distinct place.1)]
    have same : edgeKey (place.2.1, place.2.2, held) = (neighbour, relationType) ↔
        (place.1, neighbour, relationType) = place := by
      refine ⟨fun named => Prod.ext rfl named.symm, fun named => ?_⟩
      exact (congrArg Prod.snd named).symm
    simp only [same, HasEdge]
  · rw [if_neg here, if_neg fun same => here (congrArg Prod.fst same).symm, HasEdge]

theorem nodup_pushNew {α : Type} [DecidableEq α] {list : List α} (nodup : list.Nodup)
    (element : α) : (pushNew list element).Nodup := by
  rw [pushNew]
  split_ifs with known
  · exact nodup
  · exact nodup_append.mpr ⟨nodup, nodup_singleton element, fun one member other last =>
      fun same => known (mem_singleton.mp last ▸ same ▸ member)⟩

theorem distinct_updateAdj (distinct : Distinct adj) (start neighbour : EntityId)
    (relationType : String) (strength : ℚ) :
    Distinct (updateAdj adj start neighbour relationType strength) := by
  intro id
  rw [updateAdj, Table.listAt_insert]
  split_ifs
  · rw [keys_setEdge]
    exact nodup_pushNew (distinct start) _
  · exact distinct id

theorem distinct_writeEdges (distinct : Distinct adj) (key : RelationKey) (strength : ℚ) :
    Distinct (writeEdges adj key strength) :=
  distinct_updateAdj (distinct_updateAdj distinct _ _ _ _) _ _ _ _

theorem hasEdge_writeEdges (distinct : Distinct adj) (key place : RelationKey)
    (strength held : ℚ) :
    HasEdge (writeEdges adj key strength) place held ↔
      if Joins key place then held = strength else HasEdge adj place held := by
  have back := hasEdge_updateAdj (distinct_updateAdj distinct key.1 key.2.1 key.2.2 strength)
    (reversed key) place strength held
  refine back.trans ?_
  rw [hasEdge_updateAdj distinct]
  have turned : reversed key = place ↔ key = reversed place :=
    ⟨fun same => by rw [← same, reversed_reversed], fun same => by rw [same, reversed_reversed]⟩
  simp only [Joins, turned]
  by_cases same : key = place
  · simp only [same, true_or, ↓reduceIte, ite_self]
  · simp only [same, false_or, ↓reduceIte]

theorem mem_edgesBut {neighbour : EntityId} {relationType : String} {edge : Edge} :
    edge ∈ edgesBut neighbour relationType edges ↔
      edge ∈ edges ∧ edgeKey edge ≠ (neighbour, relationType) := by
  rw [edgesBut, mem_filter, decide_eq_true_iff]
  refine and_congr Iff.rfl (not_congr ⟨fun same => Prod.ext same.1 same.2, fun named => ?_⟩)
  exact Prod.mk.inj named

theorem distinct_modify_edgesBut (distinct : Distinct adj) (start neighbour : EntityId)
    (relationType : String) : Distinct (adj.modify start (edgesBut neighbour relationType)) := by
  intro id
  rw [Table.listAt_modify adj start id rfl]
  split_ifs
  · exact (distinct id).sublist (filter_sublist.map _)
  · exact distinct id

theorem hasEdge_modify_edgesBut (key place : RelationKey) (held : ℚ) :
    HasEdge (adj.modify key.1 (edgesBut key.2.1 key.2.2)) place held ↔
      key ≠ place ∧ HasEdge adj place held := by
  obtain ⟨start, neighbour, relationType⟩ := key
  rw [HasEdge, Table.listAt_modify adj start place.1 rfl]
  by_cases here : place.1 = start
  · subst here
    rw [if_pos rfl, mem_edgesBut, and_comm]
    refine and_congr (not_congr ⟨fun named => Prod.ext rfl named.symm, fun named => ?_⟩) Iff.rfl
    exact (congrArg Prod.snd named).symm
  · rw [if_neg here]
    exact (and_iff_right fun same => here (congrArg Prod.fst same).symm).symm

theorem distinct_dropEdges (distinct : Distinct adj) (key : RelationKey) :
    Distinct (dropEdges adj key) :=
  distinct_modify_edgesBut (distinct_modify_edgesBut distinct _ _ _) _ _ _

theorem hasEdge_dropEdges (key place : RelationKey) (held : ℚ) :
    HasEdge (dropEdges adj key) place held ↔ ¬Joins key place ∧ HasEdge adj place held := by
  refine (hasEdge_modify_edgesBut (reversed key) place held).trans ?_
  rw [hasEdge_modify_edgesBut, Joins, not_or, ← and_assoc]
  refine and_congr ?_ Iff.rfl
  rw [and_comm]
  refine and_congr Iff.rfl (not_congr ⟨fun same => ?_, fun same => ?_⟩)
  · rw [← same, reversed_reversed]
  · rw [same, reversed_reversed]

theorem distinct_foldl_writeEdges (distinct : Distinct adj) (strength : RelationKey → ℚ)
    (keys : List RelationKey) :
    Distinct (keys.foldl (fun adj key => writeEdges adj key (strength key)) adj) := by
  induction keys generalizing adj with
  | nil => exact distinct
  | cons key keys ih => exact ih (distinct_writeEdges distinct key (strength key))

theorem hasEdge_foldl_writeEdges (distinct : Distinct adj) (strength : RelationKey → ℚ)
    (keys : List RelationKey) (place : RelationKey)
    (even : ∀ key ∈ keys, ∀ other ∈ keys, Joins key place → Joins other place →
      strength key = strength other) (held : ℚ) :
    HasEdge (keys.foldl (fun adj key => writeEdges adj key (strength key)) adj) place held ↔
      (∃ key ∈ keys, Joins key place ∧ held = strength key) ∨
        (∀ key ∈ keys, ¬Joins key place) ∧ HasEdge adj place held := by
  induction keys using List.reverseRecOn with
  | nil =>
    refine ⟨fun old => .inr ⟨fun key member => absurd member not_mem_nil, old⟩, ?_⟩
    rintro (⟨key, member, _⟩ | ⟨_, old⟩)
    · exact absurd member not_mem_nil
    · exact old
  | append_singleton keys last ih =>
    have lastListed : last ∈ keys ++ [last] := mem_append_right _ mem_cons_self
    have listed : ∀ key ∈ keys, key ∈ keys ++ [last] := fun key => mem_append_left _
    rw [foldl_append, foldl_cons, foldl_nil,
      hasEdge_writeEdges (distinct_foldl_writeEdges distinct strength keys)]
    by_cases joins : Joins last place
    · rw [if_pos joins]
      constructor
      · exact fun same => .inl ⟨last, lastListed, joins, same⟩
      · rintro (⟨key, member, alsoJoins, same⟩ | ⟨none, _⟩)
        · exact same.trans (even key member last lastListed alsoJoins joins)
        · exact absurd joins (none last lastListed)
    · rw [if_neg joins, ih fun key member other also =>
        even key (listed key member) other (listed other also)]
      have before : ∀ key ∈ keys ++ [last], Joins key place → key ∈ keys := by
        intro key member alsoJoins
        rcases mem_append.mp member with early | late
        · exact early
        · exact absurd (mem_singleton.mp late ▸ alsoJoins) joins
      constructor
      · rintro (⟨key, member, same⟩ | ⟨none, old⟩)
        · exact .inl ⟨key, listed key member, same⟩
        · exact .inr ⟨fun key member alsoJoins =>
            none key (before key member alsoJoins) alsoJoins, old⟩
      · rintro (⟨key, member, alsoJoins, same⟩ | ⟨none, old⟩)
        · exact .inl ⟨key, before key member alsoJoins, alsoJoins, same⟩
        · exact .inr ⟨fun key member => none key (listed key member), old⟩

theorem distinct_foldl_dropEdges (distinct : Distinct adj) (keys : List RelationKey) :
    Distinct (keys.foldl dropEdges adj) := by
  induction keys generalizing adj with
  | nil => exact distinct
  | cons key keys ih => exact ih (distinct_dropEdges distinct key)

theorem hasEdge_foldl_dropEdges (keys : List RelationKey) (place : RelationKey) (held : ℚ) :
    HasEdge (keys.foldl dropEdges adj) place held ↔
      (∀ key ∈ keys, ¬Joins key place) ∧ HasEdge adj place held := by
  induction keys generalizing adj with
  | nil => exact (and_iff_right fun key member => absurd member not_mem_nil).symm
  | cons key keys ih =>
    rw [foldl_cons, ih, hasEdge_dropEdges, forall_mem_cons, ← and_assoc]
    exact and_congr and_comm Iff.rfl

end Edges

def strengthAt (relations : Table RelationKey RelationRecord) (key : RelationKey) : Option ℚ :=
  (relations.lookup key).map RelationRecord.strength

/-- Rows are filed under their keys, no edge is listed twice, and the edges at a place are those
of the relations stored in either direction. -/
structure Exact (store : GraphStore) : Prop where
  keyed : ∀ key row, store.tables.relations.lookup key = some row → row.key = key
  distinct : Distinct store.adj
  edges : ∀ place held, HasEdge store.adj place held ↔
    strengthAt store.tables.relations place = some held ∨
      strengthAt store.tables.relations (reversed place) = some held

section Upserting

variable {store : GraphStore} {chunk : ChunkId}

theorem relationWith_relationWith (key : RelationKey) (held : Option RelationRecord) :
    relationWith key chunk (some (relationWith key chunk held)) = relationWith key chunk held := by
  apply if_pos
  cases held with
  | none => exact mem_cons_self
  | some row =>
    rw [relationWith]
    split_ifs with known
    · exact known
    · exact mem_append_right _ mem_cons_self

theorem key_relationWith {key : RelationKey} {held : Option RelationRecord}
    (keyed : ∀ row, held = some row → row.key = key) : (relationWith key chunk held).key = key := by
  cases held with
  | none => rfl
  | some row =>
    rw [relationWith]
    split_ifs
    · exact keyed row rfl
    · exact keyed row rfl

def rowAfter (store : GraphStore) (keys : List RelationKey) (chunk : ChunkId) (key : RelationKey) :
    Option RelationRecord :=
  if key ∈ keys then some (relationWith key chunk (store.tables.relations.lookup key))
  else store.tables.relations.lookup key

def writtenStrength (store : GraphStore) (chunk : ChunkId) (key : RelationKey) : ℚ :=
  (relationWith key chunk (store.tables.relations.lookup key)).strength

theorem lookup_upsertRelationUnchecked (key other : RelationKey) :
    (store.upsertRelationUnchecked key chunk).tables.relations.lookup other =
      if other = key then some (relationWith other chunk (store.tables.relations.lookup other))
      else store.tables.relations.lookup other := by
  split_ifs with same
  · subst same
    exact AList.lookup_insert store.tables.relations
  · exact AList.lookup_insert_ne same

theorem foldl_upsertRelationUnchecked (keys : List RelationKey) :
    (∀ key, (keys.foldl (fun store key => store.upsertRelationUnchecked key chunk)
        store).tables.relations.lookup key = rowAfter store keys chunk key) ∧
      (keys.foldl (fun store key => store.upsertRelationUnchecked key chunk) store).adj =
        keys.foldl (fun adj key => writeEdges adj key (writtenStrength store chunk key))
          store.adj := by
  induction keys generalizing store with
  | nil => exact ⟨fun key => (if_neg not_mem_nil).symm, rfl⟩
  | cons first keys ih =>
    obtain ⟨rows, adj⟩ := @ih (store.upsertRelationUnchecked first chunk)
    have again : ∀ key, relationWith key chunk
        ((store.upsertRelationUnchecked first chunk).tables.relations.lookup key) =
        relationWith key chunk (store.tables.relations.lookup key) := by
      intro key
      rw [lookup_upsertRelationUnchecked]
      split_ifs
      · exact relationWith_relationWith key _
      · rfl
    refine ⟨fun key => (rows key).trans ?_, adj.trans ?_⟩
    · rw [rowAfter, rowAfter, again, lookup_upsertRelationUnchecked]
      by_cases same : key = first
      · subst same
        rw [if_pos rfl, ite_self, if_pos mem_cons_self]
      · simp only [mem_cons, same, false_or, ↓reduceIte]
    · have strengths : writtenStrength (store.upsertRelationUnchecked first chunk) chunk =
          writtenStrength store chunk :=
        funext fun key => congrArg RelationRecord.strength (again key)
      rw [strengths]
      rfl

/-- An upsert is even if a relation that is stored in the other direction as well, before the
upsert or by it, has the strength that the upsert writes. -/
def Evenly (store : GraphStore) (keys : List RelationKey) (chunk : ChunkId) : Prop :=
  ∀ key ∈ keys, ∀ row ∈ rowAfter store keys chunk (reversed key),
    row.strength = store.writtenStrength chunk key

instance (store : GraphStore) (keys : List RelationKey) (chunk : ChunkId) :
    Decidable (Evenly store keys chunk) :=
  inferInstanceAs (Decidable (∀ key ∈ keys, ∀ row ∈ rowAfter store keys chunk (reversed key), _))

theorem strength_rowAfter {keys : List RelationKey} {key : RelationKey} (listed : key ∈ keys) :
    (rowAfter store keys chunk key).map RelationRecord.strength =
      some (store.writtenStrength chunk key) := by
  rw [rowAfter, if_pos listed]
  rfl

theorem Exact.upsert (exact : store.Exact) {keys : List RelationKey}
    (even : Evenly store keys chunk) :
    (keys.foldl (fun store key => store.upsertRelationUnchecked key chunk) store).Exact := by
  obtain ⟨rows, adj⟩ := @foldl_upsertRelationUnchecked store chunk keys
  have strengths : ∀ key, strengthAt (keys.foldl (fun store key =>
      store.upsertRelationUnchecked key chunk) store).tables.relations key =
      (rowAfter store keys chunk key).map RelationRecord.strength :=
    fun key => congrArg _ (rows key)
  have written : ∀ key ∈ keys, ∀ held, held = store.writtenStrength chunk key ↔
      (rowAfter store keys chunk key).map RelationRecord.strength = some held ∨
        (rowAfter store keys chunk (reversed key)).map RelationRecord.strength = some held := by
    intro key listed held
    rw [strength_rowAfter listed]
    constructor
    · rintro rfl
      exact .inl rfl
    · rintro (same | back)
      · exact (Option.some.inj same).symm
      · obtain ⟨row, found, rfl⟩ := Option.map_eq_some_iff.mp back
        exact even key listed row found
  have consistent : ∀ place, ∀ key ∈ keys, ∀ other ∈ keys, Joins key place → Joins other place →
      store.writtenStrength chunk key = store.writtenStrength chunk other := by
    intro place key listed other also joins alsoJoins
    rcases joins.eq_or_eq_reversed alsoJoins with rfl | rfl
    · rfl
    · exact ((written key listed _).mpr (.inr (strength_rowAfter also))).symm
  refine ⟨?_, adj ▸ distinct_foldl_writeEdges exact.distinct _ keys, ?_⟩
  · intro key row found
    rw [rows, rowAfter] at found
    split_ifs at found
    · obtain rfl := Option.some.inj found
      exact key_relationWith (exact.keyed key)
    · exact exact.keyed key row found
  · intro place held
    rw [adj, hasEdge_foldl_writeEdges exact.distinct _ keys place (consistent place), strengths,
      strengths]
    by_cases joined : ∃ key ∈ keys, Joins key place
    · obtain ⟨key, listed, joins⟩ := joined
      have here : held = store.writtenStrength chunk key ↔
          (rowAfter store keys chunk place).map RelationRecord.strength = some held ∨
            (rowAfter store keys chunk (reversed place)).map RelationRecord.strength =
              some held := by
        refine (written key listed held).trans ?_
        rcases joins with rfl | rfl
        · exact Iff.rfl
        · exact or_comm
      rw [← here]
      constructor
      · rintro (⟨other, also, alsoJoins, rfl⟩ | ⟨none, _⟩)
        · exact consistent place other also key listed alsoJoins joins
        · exact absurd joins (none key listed)
      · exact fun same => .inl ⟨key, listed, joins, same⟩
    · have none : ∀ key ∈ keys, ¬Joins key place := fun key listed joins =>
        joined ⟨key, listed, joins⟩
      have same : ∀ key, Joins key place →
          rowAfter store keys chunk key = store.tables.relations.lookup key :=
        fun key joins => if_neg fun listed => none key listed joins
      rw [same place (.inl rfl), same (reversed place) (.inr rfl)]
      refine Iff.trans ?_ (exact.edges place held)
      constructor
      · rintro (⟨key, listed, joins, _⟩ | ⟨_, old⟩)
        · exact absurd joins (none key listed)
        · exact old
      · exact fun old => .inr ⟨none, old⟩

end Upserting

section Removing

variable {store next : GraphStore}

theorem strengthAt_eq_none {relations : Table RelationKey RelationRecord} {key : RelationKey}
    (absent : key ∉ relations) : strengthAt relations key = none := by
  rw [strengthAt, AList.lookup_eq_none.mpr absent]
  rfl

theorem Exact.strengthAt_reversed (exact : store.Exact) {key : RelationKey} {held other : ℚ}
    (stored : strengthAt store.tables.relations key = some held)
    (back : strengthAt store.tables.relations (reversed key) = some other) : held = other := by
  have first := (exact.edges key held).mpr (.inl stored)
  have second := (exact.edges key other).mpr (.inr back)
  have nodup := exact.distinct key.1
  have same := inj_on_of_nodup_map nodup first second rfl
  exact congrArg (fun edge => edge.2.2) same

theorem Exact.remove (exact : store.Exact) (keys : List RelationKey) (kept : RelationKey → Prop)
    (relations : next.tables.relations =
      store.tables.relations.putAll (keys.map fun key => (key, none)))
    (distinct : Distinct next.adj)
    (edges : ∀ place held, HasEdge next.adj place held ↔ kept place ∧ HasEdge store.adj place held)
    (turned : ∀ place, kept (reversed place) ↔ kept place)
    (untouched : ∀ place, (place ∉ keys ∨ place ∉ store.tables.relations) →
      (reversed place ∉ keys ∨ reversed place ∉ store.tables.relations) → kept place)
    (settled : ∀ key ∈ keys, key ∈ store.tables.relations →
      (kept key ↔ reversed key ∈ store.tables.relations ∧ reversed key ∉ keys)) : next.Exact := by
  have rows : ∀ key, next.tables.relations.lookup key =
      if key ∈ keys then none else store.tables.relations.lookup key := by
    intro key
    rw [relations, Table.lookup_putAll_none]
    split_ifs
    · rfl
    · rfl
  have removed : ∀ key ∈ keys, strengthAt next.tables.relations key = none := by
    intro key listed
    rw [strengthAt, rows, if_pos listed]
    rfl
  have left : ∀ key, key ∉ keys ∨ key ∉ store.tables.relations →
      strengthAt next.tables.relations key = strengthAt store.tables.relations key := by
    intro key spared
    rw [strengthAt, strengthAt, rows]
    split_ifs with listed
    · rw [AList.lookup_eq_none.mpr (spared.resolve_left (not_not_intro listed))]
    · rfl
  -- A place of which the row in this direction is removed.
  have half : ∀ place held, place ∈ keys → place ∈ store.tables.relations →
      (kept place ∧ HasEdge store.adj place held ↔
        strengthAt next.tables.relations place = some held ∨
          strengthAt next.tables.relations (reversed place) = some held) := by
    intro place held listed stored
    rw [removed place listed, settled place listed stored]
    by_cases back : reversed place ∈ store.tables.relations ∧ reversed place ∉ keys
    · rw [left _ (.inl back.2), exact.edges]
      obtain ⟨row, found⟩ := Option.isSome_iff_exists.mp (AList.lookup_isSome.mpr stored)
      have strength : strengthAt store.tables.relations place = some row.strength :=
        congrArg _ found
      obtain ⟨other, alsoFound⟩ := Option.isSome_iff_exists.mp (AList.lookup_isSome.mpr back.1)
      have backStrength : strengthAt store.tables.relations (reversed place) =
          some other.strength := congrArg _ alsoFound
      rw [strength, backStrength, exact.strengthAt_reversed strength backStrength]
      simp only [back, not_false_eq_true, and_self, or_self, true_and, reduceCtorEq, false_or]
    · refine iff_of_false (fun holds => back holds.1) ?_
      rintro (gone | found)
      · cases gone
      · by_cases also : reversed place ∈ keys
        · rw [removed _ also] at found
          cases found
        · have absent : reversed place ∉ store.tables.relations :=
            fun stored => back ⟨stored, also⟩
          rw [left _ (.inl also), strengthAt_eq_none absent] at found
          cases found
  refine ⟨?_, distinct, ?_⟩
  · intro key row found
    rw [rows] at found
    split_ifs at found
    exact exact.keyed key row found
  · intro place held
    rw [edges]
    by_cases here : place ∈ keys ∧ place ∈ store.tables.relations
    · exact half place held here.1 here.2
    · by_cases back : reversed place ∈ keys ∧ reversed place ∈ store.tables.relations
      · have other := half (reversed place) held back.1 back.2
        rw [turned, exact.edges, reversed_reversed, or_comm, ← exact.edges] at other
        exact other.trans or_comm
      · have spared := not_and_or.mp here
        have alsoSpared := not_and_or.mp back
        rw [and_iff_right (untouched place spared alsoSpared), left place spared,
          left _ alsoSpared]
        exact exact.edges place held

end Removing

section Reopening

variable {adj : Table EntityId (List Edge)} {store : GraphStore}

/-- The edges that `rebuild` makes of a relation at an entity. -/
def edgesAt (id : EntityId) (relation : RelationRecord) : List Edge :=
  (if relation.srcId = id then [(relation.dstId, relation.relationType, relation.strength)]
    else []) ++
  (if relation.dstId = id then [(relation.srcId, relation.relationType, relation.strength)]
    else [])

theorem listAt_pushEdge (id other : EntityId) (edge : Edge) :
    (pushEdge adj id edge).listAt other =
      adj.listAt other ++ if id = other then [edge] else [] := by
  rw [pushEdge, Table.listAt_insert]
  by_cases same : other = id
  · subst same
    rw [if_pos rfl, if_pos rfl]
  · rw [if_neg same, if_neg (Ne.symm same), append_nil]

theorem listAt_foldl_pushRelation (relations : List RelationRecord) (id : EntityId) :
    (relations.foldl pushRelation adj).listAt id =
      adj.listAt id ++ relations.flatMap (edgesAt id) := by
  induction relations generalizing adj with
  | nil => exact (append_nil _).symm
  | cons relation relations ih =>
    rw [foldl_cons, ih, pushRelation, listAt_pushEdge, listAt_pushEdge, flatMap_cons,
      edgesAt, append_assoc, append_assoc, append_assoc]

theorem mem_edgesAt {id : EntityId} {relation : RelationRecord} {edge : Edge} :
    edge ∈ edgesAt id relation ↔
      Joins relation.key (id, edge.1, edge.2.1) ∧ edge.2.2 = relation.strength := by
  obtain ⟨neighbour, relationType, strength⟩ := edge
  simp only [edgesAt, Joins, reversed, RelationRecord.key, mem_append, mem_ite_nil_right,
    mem_singleton, Prod.mk.injEq]
  tauto

theorem nodup_edgesAt {id : EntityId} {relation : RelationRecord}
    (apart : relation.srcId ≠ relation.dstId) : ((edgesAt id relation).map edgeKey).Nodup := by
  rw [edgesAt]
  by_cases first : relation.srcId = id
  · have second : relation.dstId ≠ id := fun same => apart (first.trans same.symm)
    rw [if_pos first, if_neg second]
    exact nodup_singleton _
  · rw [if_neg first, nil_append]
    split_ifs
    · exact nodup_singleton _
    · exact nodup_nil

theorem strengthAt_eq_some {relations : Table RelationKey RelationRecord} {key : RelationKey}
    {held : ℚ} : strengthAt relations key = some held ↔
      ∃ row, relations.lookup key = some row ∧ row.strength = held :=
  Option.map_eq_some_iff

theorem exists_edgesAt {relations : Table RelationKey RelationRecord}
    (keyed : ∀ key row, relations.lookup key = some row → row.key = key) (place : RelationKey)
    (held : ℚ) :
    (∃ row ∈ relations.entries, (place.2.1, place.2.2, held) ∈ edgesAt place.1 row.2) ↔
      strengthAt relations place = some held ∨
        strengthAt relations (reversed place) = some held := by
  rw [strengthAt_eq_some, strengthAt_eq_some]
  constructor
  · rintro ⟨row, member, made⟩
    have found := AList.mem_lookup_iff.mpr member
    obtain ⟨joins, same⟩ := mem_edgesAt.mp made
    rw [keyed row.1 row.2 found] at joins
    rcases joins with here | back
    · have here : row.1 = place := here
      exact .inl ⟨row.2, here ▸ found, same.symm⟩
    · have back : row.1 = reversed place := back
      exact .inr ⟨row.2, back ▸ found, same.symm⟩
  · intro either
    obtain ⟨key, joins, row, found, rfl⟩ : ∃ key, Joins key place ∧ ∃ row,
        relations.lookup key = some row ∧ row.strength = held := by
      rcases either with here | back
      · exact ⟨place, .inl rfl, here⟩
      · exact ⟨reversed place, .inr rfl, back⟩
    refine ⟨⟨key, row⟩, AList.mem_lookup_iff.mp found, mem_edgesAt.mpr ⟨?_, rfl⟩⟩
    rw [keyed key row found]
    exact joins

theorem Exact.reopen {next : GraphStore} (exact : store.Exact)
    (opened : rebuild store.tables = some next)
    (single : ∀ key ∈ store.tables.relations, reversed key ∉ store.tables.relations) :
    next.Exact := by
  rw [rebuild] at opened
  split_ifs at opened
  obtain rfl := Option.some.inj opened
  have lists : ∀ id, Table.listAt (store.tables.relations.entries.foldl
      (fun adj row => pushRelation adj row.2) ∅) id =
      (store.tables.relations.entries.map fun row => row.2).flatMap (edgesAt id) := by
    intro id
    have folded := @listAt_foldl_pushRelation ∅
      (store.tables.relations.entries.map fun row => row.2) id
    rw [foldl_map, Table.listAt_empty, nil_append] at folded
    exact folded
  have filed : ∀ row ∈ store.tables.relations.entries, row.2.key = row.1 := fun row member =>
    exact.keyed row.1 row.2 (AList.mem_lookup_iff.mpr member)
  have stored : ∀ row ∈ store.tables.relations.entries, row.1 ∈ store.tables.relations :=
    fun row member => mem_map_of_mem member
  refine ⟨exact.keyed, ?_, ?_⟩
  · intro id
    rw [lists, map_flatMap, flatMap_map, nodup_flatMap]
    constructor
    · intro row member
      apply nodup_edgesAt
      intro loop
      have own : reversed row.1 = row.1 := by
        rw [← filed row member, RelationRecord.key, reversed, loop]
      exact single row.1 (stored row member) (own.symm ▸ stored row member)
    · refine (nodupKeys_iff_pairwise.mp store.tables.relations.nodupKeys).imp_of_mem ?_
      intro first second member alsoMember different key here alsoHere
      obtain ⟨edge, made, rfl⟩ := mem_map.mp here
      obtain ⟨other, alsoMade, same⟩ := mem_map.mp alsoHere
      obtain ⟨joins, _⟩ := mem_edgesAt.mp made
      obtain ⟨alsoJoins, _⟩ := mem_edgesAt.mp alsoMade
      obtain ⟨neighbours, types⟩ := Prod.mk.inj same
      rw [filed second alsoMember, neighbours, types] at alsoJoins
      rw [filed first member] at joins
      rcases joins.eq_or_eq_reversed alsoJoins with equal | back
      · exact different equal.symm
      · exact single first.1 (stored first member) (back ▸ stored second alsoMember)
  · intro place held
    refine Iff.trans ?_ (exists_edgesAt exact.keyed place held)
    change (place.2.1, place.2.2, held) ∈ Table.listAt _ place.1 ↔ _
    rw [lists, flatMap_map, mem_flatMap]

end Reopening

end GraphStore

inductive RelationEvent where
  | upsertRelation (src dst : EntityId) (relationType : String) (chunk : ChunkId)
  | deleteRelation (src dst : EntityId) (relationType : String)
  | deleteAndPrune (id : EntityId)
  | reopen

namespace GraphStore

def relationStep (store : GraphStore) : RelationEvent → GraphStore
  | .upsertRelation src dst relationType chunk => store.upsertRelation src dst relationType chunk
  | .deleteRelation src dst relationType => (store.deleteRelation src dst relationType).2
  | .deleteAndPrune id => (store.deleteEntity id).pruneDanglingRelations.2
  | .reopen => (rebuild store.tables).getD store

/-- An upsert writes one strength in both directions. A row that a deletion removes has its
counterpart in the other direction left exactly if its edges are left. The store is reopened
when no relation is stored in both directions. -/
def KeepsAdjacency (store : GraphStore) : RelationEvent → Prop
  | .upsertRelation src dst relationType chunk =>
    store.accepts src dst relationType → Evenly store (upsertedKeys src dst relationType) chunk
  | .deleteRelation src dst relationType =>
    ∀ key ∈ upsertedKeys src dst relationType, key ∈ store.tables.relations →
      (¬((src, dst, relationType) ∈ store.tables.relations ∧
          Joins (src, dst, relationType) key) ↔
        reversed key ∈ store.tables.relations ∧
          reversed key ∉ upsertedKeys src dst relationType)
  | .deleteAndPrune _ => True
  | .reopen => ∀ key ∈ store.tables.relations.keys, reversed key ∉ store.tables.relations

instance (store : GraphStore) (event : RelationEvent) : Decidable (store.KeepsAdjacency event) :=
  match event with
  | .upsertRelation _ _ _ _ => inferInstanceAs (Decidable (_ → _))
  | .deleteRelation src dst relationType =>
    inferInstanceAs (Decidable (∀ key ∈ upsertedKeys src dst relationType, _ → (_ ↔ _)))
  | .deleteAndPrune _ => .isTrue trivial
  | .reopen => inferInstanceAs (Decidable (∀ key ∈ store.tables.relations.keys, _))

section Steps

variable {store : GraphStore}

theorem Exact.deleteRelation (exact : store.Exact) {src dst : EntityId} {relationType : String}
    (keeps : store.KeepsAdjacency (.deleteRelation src dst relationType)) :
    (store.deleteRelation src dst relationType).2.Exact := by
  have first : (src, dst, relationType) ∈ upsertedKeys src dst relationType := mem_cons_self
  refine exact.remove (upsertedKeys src dst relationType) (fun place =>
    ¬((src, dst, relationType) ∈ store.tables.relations ∧ Joins (src, dst, relationType) place))
    rfl ?_ ?_ ?_ ?_ keeps
  · rw [GraphStore.deleteRelation]
    dsimp only
    split_ifs
    · exact distinct_dropEdges exact.distinct _
    · exact exact.distinct
  · intro place held
    rw [GraphStore.deleteRelation]
    dsimp only
    split_ifs with stored
    · rw [hasEdge_dropEdges, and_iff_right stored]
    · exact (and_iff_right fun removed => stored removed.1).symm
  · intro place
    rw [joins_reversed]
  · rintro place spared alsoSpared ⟨stored, here | back⟩
    · rcases here ▸ spared with unlisted | absent
      · exact unlisted first
      · exact absent stored
    · rcases back ▸ alsoSpared with unlisted | absent
      · exact unlisted first
      · exact absent stored

theorem mem_danglingKeys
    (keyed : ∀ key row, store.tables.relations.lookup key = some row → row.key = key)
    {key : RelationKey} : key ∈ store.danglingRelations.map RelationRecord.key ↔
      key ∈ store.tables.relations ∧ (key.1 ∉ store.nodes ∨ key.2.1 ∉ store.nodes) := by
  constructor
  · intro listed
    obtain ⟨relation, dangling, rfl⟩ := mem_map.mp listed
    obtain ⟨member, missing⟩ := mem_filter.mp dangling
    obtain ⟨row, present, rfl⟩ := mem_map.mp member
    refine ⟨?_, of_decide_eq_true missing⟩
    rw [keyed row.1 row.2 (AList.mem_lookup_iff.mpr present)]
    exact mem_map_of_mem present
  · rintro ⟨stored, missing⟩
    obtain ⟨row, found⟩ := Option.isSome_iff_exists.mp (AList.lookup_isSome.mpr stored)
    have named := keyed key row found
    refine mem_map.mpr ⟨row, mem_filter.mpr
      ⟨mem_map_of_mem (AList.mem_lookup_iff.mp found), decide_eq_true ?_⟩, named⟩
    rw [← named] at missing
    exact missing

theorem distinct_erase {adj : Table EntityId (List Edge)} (distinct : Distinct adj)
    (id : EntityId) : Distinct (adj.erase id) := by
  intro other
  rw [Table.listAt_erase]
  split_ifs
  · exact nodup_nil
  · exact distinct other

theorem Exact.deleteAndPrune (exact : store.Exact) (id : EntityId) :
    (store.deleteEntity id).pruneDanglingRelations.2.Exact := by
  have dangling : ∀ key, key ∈ (store.deleteEntity id).danglingRelations.map RelationRecord.key ↔
      key ∈ store.tables.relations ∧
        (key.1 ∉ store.nodes.erase id ∨ key.2.1 ∉ store.nodes.erase id) :=
    fun key => @mem_danglingKeys (store.deleteEntity id) exact.keyed key
  refine exact.remove ((store.deleteEntity id).danglingRelations.map RelationRecord.key)
    (fun place => ∀ key ∈ (store.deleteEntity id).danglingRelations.map RelationRecord.key,
      ¬Joins key place) rfl (distinct_foldl_dropEdges (distinct_erase exact.distinct id) _)
    ?_ ?_ ?_ ?_
  · intro place held
    refine (hasEdge_foldl_dropEdges _ place held).trans (and_congr_right fun kept => ?_)
    rw [HasEdge, HasEdge, GraphStore.deleteEntity, Table.listAt_erase]
    split_ifs with here
    · -- An edge at the deleted entity comes from a relation that is dangling now.
      refine iff_of_false not_mem_nil fun old => ?_
      have gone : place.1 ∉ store.nodes.erase id := by
        rw [here]
        exact fun member => (AList.mem_erase.mp member).1 rfl
      rcases (exact.edges place held).mp old with stored | stored
      · obtain ⟨row, found, _⟩ := strengthAt_eq_some.mp stored
        have known : place ∈ store.tables.relations := AList.lookup_isSome.mp (by rw [found]; rfl)
        exact kept place ((dangling place).mpr ⟨known, .inl gone⟩) (.inl rfl)
      · obtain ⟨row, found, _⟩ := strengthAt_eq_some.mp stored
        have known : reversed place ∈ store.tables.relations :=
          AList.lookup_isSome.mp (by rw [found]; rfl)
        exact kept (reversed place) ((dangling _).mpr ⟨known, .inr gone⟩) (.inr rfl)
    · rfl
  · intro place
    simp only [joins_reversed]
  · rintro place spared alsoSpared key listed (rfl | rfl)
    · exact spared.elim (fun unlisted => unlisted listed)
        fun absent => absent ((dangling _).mp listed).1
    · exact alsoSpared.elim (fun unlisted => unlisted listed)
        fun absent => absent ((dangling _).mp listed).1
  · intro key listed _
    refine iff_of_false (fun kept => kept key listed (.inl rfl)) ?_
    rintro ⟨stored, unlisted⟩
    exact unlisted ((dangling _).mpr ⟨stored, ((dangling key).mp listed).2.symm⟩)

theorem Exact.relationStep (exact : store.Exact) {event : RelationEvent}
    (keeps : store.KeepsAdjacency event) : (store.relationStep event).Exact := by
  cases event with
  | upsertRelation src dst relationType chunk =>
    change (store.upsertRelation src dst relationType chunk).Exact
    rw [upsertRelation]
    split_ifs with accepted
    · exact exact.upsert (keeps accepted)
    · exact exact
  | deleteRelation src dst relationType => exact exact.deleteRelation keeps
  | deleteAndPrune id => exact exact.deleteAndPrune id
  | reopen =>
    rw [GraphStore.relationStep]
    cases opened : rebuild store.tables with
    | none => exact exact
    | some next => exact exact.reopen opened keeps

end Steps

/-- The adjacency list of every entity has, once each, the targets of the stored relations from
it and the sources of the stored relations to it, with their types and strengths. -/
def MirrorsRelations (store : GraphStore) : Prop :=
  ∀ id, (store.adj.listAt id).Nodup ∧ ∀ edge, edge ∈ store.adj.listAt id ↔
    ∃ row ∈ store.tables.relations.entries,
      row.2.srcId = id ∧ edge = (row.2.dstId, row.2.relationType, row.2.strength) ∨
        row.2.dstId = id ∧ edge = (row.2.srcId, row.2.relationType, row.2.strength)

theorem Exact.mirrorsRelations {store : GraphStore} (exact : store.Exact) :
    store.MirrorsRelations := by
  intro id
  refine ⟨(exact.distinct id).of_map _, ?_⟩
  intro edge
  refine ((exact.edges (id, edge.1, edge.2.1) edge.2.2).trans
    (exists_edgesAt exact.keyed (id, edge.1, edge.2.1) edge.2.2).symm).trans ?_
  refine exists_congr fun row => and_congr_right fun _ => ?_
  simp only [edgesAt, mem_append, mem_ite_nil_right, mem_singleton]

/-- **The adjacency map mirrors the relations.** From a graph without relations, in every run of
operations that write one strength in both directions, leave no edge without its row and reopen
the store only when no relation is stored in both directions. -/
theorem mirrorsRelations_of_keepsAdjacency {start : GraphStore}
    (noRelations : start.tables.relations = ∅) (noEdges : start.adj = ∅)
    {events : List RelationEvent} (keeps : Meets relationStep KeepsAdjacency start events) :
    (events.foldl relationStep start).MirrorsRelations := by
  have exact : start.Exact := by
    refine ⟨?_, ?_, ?_⟩
    · intro key row found
      rw [noRelations, AList.lookup_empty] at found
      cases found
    · intro id
      rw [noEdges, Table.listAt_empty]
      exact nodup_nil
    · intro place held
      rw [HasEdge, noEdges, Table.listAt_empty, noRelations, strengthAt, strengthAt,
        AList.lookup_empty, AList.lookup_empty]
      simp
  refine Exact.mirrorsRelations ((run_of_meets keeps).invariant ?_ exact)
  rintro store event next exact ⟨condition, rfl⟩
  exact exact.relationStep condition

/-- A parent is stored and deleted: the edges of the inverse relation stay. -/
theorem deletedParent_not_mirrorsRelations :
    ¬([RelationEvent.upsertRelation 1 2 "parent_of" 7, .deleteRelation 1 2 "parent_of"].foldl
      relationStep newGraph).MirrorsRelations := by
  intro mirrors
  have listed := ((mirrors 1).2 (2, "child_of", 1 / 10)).mp (by decide +kernel)
  obtain ⟨row, member, _⟩ := listed
  have none : ([RelationEvent.upsertRelation 1 2 "parent_of" 7,
      .deleteRelation 1 2 "parent_of"].foldl relationStep newGraph).tables.relations.entries =
      [] := by
    decide +kernel
  rw [none] at member
  cases member

/-- A marriage is stored twice and deleted, and the store is reopened with another relation. -/
theorem deletedMarriage_mirrorsRelations :
    ([RelationEvent.upsertRelation 1 2 "spouse_of" 7, .upsertRelation 1 2 "spouse_of" 8,
      .upsertRelation 1 3 "works_at" 7, .deleteRelation 1 2 "spouse_of", .reopen].foldl
      relationStep newGraph).MirrorsRelations :=
  mirrorsRelations_of_keepsAdjacency rfl rfl (by decide +kernel)

end GraphStore

end KwaaiNet
