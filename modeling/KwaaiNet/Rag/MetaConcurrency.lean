import KwaaiNet.Rag.Sync

/-! # Concurrent calls of the metadata store

Chunks are put in one transaction. A document is deleted in two: the first reads the ids that the
index has for it, the second removes their rows and the entry of the index. Transactions are
atomic, so concurrent calls amount to an order of their transactions.
`KwaaiNet.Rag.exactThroughout_iff` says which orders keep the index exact.
-/

namespace KwaaiNet.Rag

open Foundation List

/-- The tables, and the calls of `delete_doc` that have read ids and not yet removed them. -/
structure MetaState where
  store : RagStore
  deleting : List (DocName × List ChunkId)

/-- The transactions of the calls, and the failure of a second transaction of `delete_doc`. -/
inductive MetaEvent where
  | put (chunks : List Chunk)
  | readIds (docName : DocName)
  | removeRows (number : Nat)
  | giveUp (number : Nat)

/-- The second transaction of `delete_doc`. -/
def RagStore.removeRows (store : RagStore) (docName : DocName) (ids : List ChunkId) : RagStore :=
  { store with
    chunks := store.chunks.putAll (ids.map fun id => (id, none))
    docs := store.docs.erase docName }

namespace MetaState

def step (state : MetaState) : MetaEvent → MetaState
  | .put chunks => { state with store := state.store.putChunks chunks }
  | .readIds docName =>
    match state.store.docs.lookup docName with
    -- A document without an entry is not deleted.
    | none => state
    | some ids => { state with deleting := state.deleting ++ [(docName, ids)] }
  | .removeRows number =>
    match state.deleting[number]? with
    | none => state
    | some (docName, ids) =>
      ⟨state.store.removeRows docName ids, state.deleting.eraseIdx number⟩
  | .giveUp number => { state with deleting := state.deleting.eraseIdx number }

def run (state : MetaState) (events : List MetaEvent) : MetaState := events.foldl step state

/-- A call of `delete_doc` with nothing in between. -/
theorem store_run_delete (state : MetaState) (docName : DocName) :
    (state.run [.readIds docName, .removeRows state.deleting.length]).store =
      state.store.deleteDoc docName := by
  change ((state.step (.readIds docName)).step (.removeRows state.deleting.length)).store = _
  rw [RagStore.deleteDoc]
  cases held : state.store.docs.lookup docName with
  | none =>
    have idle : state.step (.readIds docName) = state := by rw [step, held]
    have none' : state.deleting[state.deleting.length]? = none := List.getElem?_eq_none le_rfl
    rw [idle, step, none']
  | some ids =>
    have opened : state.step (.readIds docName) =
        { state with deleting := state.deleting ++ [(docName, ids)] } := by rw [step, held]
    rw [opened, step, List.getElem?_concat_length]
    rfl

end MetaState

/-- The ids that the index has for a document are those whose rows carry its name. -/
def RagStore.Exact (store : RagStore) : Prop :=
  ∀ docName id, id ∈ store.idsOf docName ↔
    ∃ row, store.chunks.lookup id = some row ∧ row.docName = docName

def MetaState.Exact (state : MetaState) : Prop := state.store.Exact

/-- What keeps the index exact: chunks have ids that no other document uses, and between the two
transactions of `delete_doc` no further id is put for the document, and none of those that were
read is put for another. -/
def MetaState.Undisturbed (state : MetaState) : MetaEvent → Prop
  | .put chunks => ∀ chunk ∈ chunks,
      (∀ row ∈ state.store.chunks.lookup chunk.id, row.docName = chunk.row.docName) ∧
        ∀ other ∈ chunks, other.id = chunk.id → other.row.docName = chunk.row.docName
  | .removeRows number => ∀ call ∈ state.deleting[number]?,
      (∀ id ∈ state.store.idsOf call.1, id ∈ call.2) ∧
        ∀ id ∈ call.2, ∀ row ∈ state.store.chunks.lookup id, row.docName = call.1
  | .readIds _ | .giveUp _ => True

def MetaState.ExactThroughout (first : MetaState) (events : List MetaEvent) : Prop :=
  ∀ before after, events = before ++ after → (first.run before).Exact

/-! ## Putting chunks -/

namespace RagStore

variable {store : RagStore}

theorem row_of_putChunks (store : RagStore) (chunks : List Chunk) (id : ChunkId) :
    (∃ chunk ∈ chunks, chunk.id = id ∧
        (store.putChunks chunks).chunks.lookup id = some chunk.row) ∨
      (∀ chunk ∈ chunks, chunk.id ≠ id) ∧
        (store.putChunks chunks).chunks.lookup id = store.chunks.lookup id := by
  have looked : (store.putChunks chunks).chunks.lookup id =
      overlay (chunks.map fun chunk => (chunk.id, some chunk.row))
        (fun id => store.chunks.lookup id) id := congrFun (store.chunks.lookup_putAll _) id
  have names : (chunks.map fun chunk => (chunk.id, some chunk.row)).map Prod.fst =
      chunks.map Chunk.id := map_map
  rw [looked]
  by_cases put : id ∈ chunks.map Chunk.id
  · obtain ⟨change, member, same, held⟩ :=
      exists_change_of_mem (names.symm ▸ put) fun id => store.chunks.lookup id
    obtain ⟨chunk, present, rfl⟩ := mem_map.mp member
    exact .inl ⟨chunk, present, same, held⟩
  · refine .inr ⟨fun chunk present same => put (mem_map.mpr ⟨chunk, present, same⟩), ?_⟩
    exact overlay_of_notMem (names.symm ▸ put) _

theorem mem_listAt_mergeAll (new : DocName → List ChunkId) (names : List DocName)
    (docs : Table DocName (List ChunkId)) (docName : DocName) (id : ChunkId) :
    id ∈ (names.foldl (fun docs docName => docs.insert docName
        (mergeIds ((docs.lookup docName).getD []) (new docName))) docs).listAt docName ↔
      id ∈ docs.listAt docName ∨ docName ∈ names ∧ id ∈ new docName := by
  induction names generalizing docs with
  | nil => simp
  | cons name names ih =>
    rw [foldl_cons, ih, Table.listAt_insert]
    by_cases same : docName = name
    · subst same
      rw [if_pos rfl, mem_mergeIds, Table.listAt]
      simp only [mem_cons, true_or, true_and]
      tauto
    · rw [if_neg same, mem_cons, or_iff_right same]

theorem mem_idsOf_putChunks {chunks : List Chunk} {docName : DocName} {id : ChunkId} :
    id ∈ (store.putChunks chunks).idsOf docName ↔
      id ∈ store.idsOf docName ∨
        ∃ chunk ∈ chunks, chunk.row.docName = docName ∧ chunk.id = id := by
  refine (mem_listAt_mergeAll _ _ _ docName id).trans (or_congr Iff.rfl ?_)
  simp only [mem_dedup, mem_map, mem_filter, decide_eq_true_eq]
  constructor
  · rintro ⟨-, chunk, ⟨member, named⟩, same⟩
    exact ⟨chunk, member, named, same⟩
  · rintro ⟨chunk, member, named, same⟩
    exact ⟨⟨chunk, member, named⟩, chunk, ⟨member, named⟩, same⟩

theorem exact_putChunks_iff (exact' : store.Exact) (chunks : List Chunk) :
    (store.putChunks chunks).Exact ↔
      ∀ chunk ∈ chunks, (∀ row ∈ store.chunks.lookup chunk.id, row.docName = chunk.row.docName) ∧
        ∀ other ∈ chunks, other.id = chunk.id → other.row.docName = chunk.row.docName := by
  constructor
  · intro after chunk member
    -- The index has the id for all documents that it was put for, and there is one row.
    obtain ⟨row, held, named⟩ := (after chunk.row.docName chunk.id).mp
      (mem_idsOf_putChunks.mpr (.inr ⟨chunk, member, rfl, rfl⟩))
    have only {docName : DocName} (indexed : chunk.id ∈ (store.putChunks chunks).idsOf docName) :
        docName = chunk.row.docName := by
      obtain ⟨other, also, same⟩ := (after docName chunk.id).mp indexed
      rw [held] at also
      rw [← same, ← named, Option.some.inj also]
    constructor
    · intro old stored
      exact only (mem_idsOf_putChunks.mpr (.inl ((exact' _ _).mpr ⟨old, stored, rfl⟩)))
    · intro other also same
      exact only (mem_idsOf_putChunks.mpr (.inr ⟨other, also, rfl, same⟩))
  · intro apart docName id
    rw [mem_idsOf_putChunks, exact' docName id]
    rcases row_of_putChunks store chunks id with
      ⟨chunk, member, same, held⟩ | ⟨other, held⟩
    · subst same
      rw [held]
      constructor
      · rintro (⟨row, stored, named⟩ | ⟨other, also, named, same⟩)
        · exact ⟨_, rfl, ((apart chunk member).1 row stored).symm.trans named⟩
        · exact ⟨_, rfl, ((apart chunk member).2 other also same).symm.trans named⟩
      · rintro ⟨row, same, named⟩
        exact .inr ⟨chunk, member, (congrArg _ (Option.some.inj same)).trans named, rfl⟩
    · rw [held]
      refine or_iff_left ?_
      rintro ⟨chunk, member, -, same⟩
      exact other chunk member same

/-! ## Removing rows -/

theorem exact_removeRows_iff (exact' : store.Exact) (docName : DocName) (ids : List ChunkId) :
    (store.removeRows docName ids).Exact ↔
      (∀ id ∈ store.idsOf docName, id ∈ ids) ∧
        ∀ id ∈ ids, ∀ row ∈ store.chunks.lookup id, row.docName = docName := by
  have looked (id : ChunkId) : (store.removeRows docName ids).chunks.lookup id =
      if id ∈ ids then none else store.chunks.lookup id := Table.lookup_putAll_none _ _ _
  have own : (store.removeRows docName ids).idsOf docName = [] :=
    (Table.listAt_erase store.docs docName docName).trans (if_pos rfl)
  have others {other : DocName} (different : other ≠ docName) :
      (store.removeRows docName ids).idsOf other = store.idsOf other :=
    (Table.listAt_erase store.docs docName other).trans (if_neg different)
  constructor
  · intro after
    constructor
    · intro id indexed
      by_contra missed
      obtain ⟨row, held, named⟩ := (exact' docName id).mp indexed
      have left := (after docName id).mpr ⟨row, by rw [looked, if_neg missed, held], named⟩
      rw [own] at left
      cases left
    · intro id removed row held
      by_contra different
      have indexed : id ∈ store.idsOf row.docName := (exact' _ _).mpr ⟨row, held, rfl⟩
      rw [← others different] at indexed
      obtain ⟨_, left, _⟩ := (after row.docName id).mp indexed
      rw [looked, if_pos removed] at left
      cases left
  · rintro ⟨all, mine⟩ other id
    rw [looked]
    by_cases same : other = docName
    · subst same
      rw [own]
      refine iff_of_false not_mem_nil ?_
      rintro ⟨row, held, named⟩
      split_ifs at held with removed
      exact removed (all id ((exact' _ _).mpr ⟨row, held, named⟩))
    · rw [others same, exact']
      by_cases removed : id ∈ ids
      · rw [if_pos removed]
        constructor
        · rintro ⟨row, held, named⟩
          exact absurd (named.symm.trans (mine id removed row held)) same
        · rintro ⟨_, held, _⟩
          cases held
      · rw [if_neg removed]

end RagStore

/-! ## Runs -/

theorem MetaState.exact_step_iff {state : MetaState} (exact' : state.Exact) (event : MetaEvent) :
    (state.step event).Exact ↔ state.Undisturbed event := by
  cases event with
  | put chunks => exact RagStore.exact_putChunks_iff exact' chunks
  | readIds docName =>
    have same : (state.step (.readIds docName)).store = state.store := by
      rw [step]
      cases state.store.docs.lookup docName <;> rfl
    rw [Exact, same]
    exact iff_of_true exact' trivial
  | removeRows number =>
    rw [step, Undisturbed]
    cases state.deleting[number]? with
    | none =>
      refine iff_of_true exact' ?_
      intro call none'
      cases none'
    | some call =>
      refine (RagStore.exact_removeRows_iff exact' call.1 call.2).trans ?_
      simp only [Option.mem_def, Option.some.injEq, forall_eq']
  | giveUp number => exact iff_of_true exact' trivial

/-- **The index is exact throughout a run exactly if no transaction of it is disturbed.** -/
theorem exactThroughout_iff {first : MetaState} (exact' : first.Exact)
    (events : List MetaEvent) :
    first.ExactThroughout events ↔
      Meets MetaState.step MetaState.Undisturbed first events := by
  constructor
  · intro always
    refine meets_of_always_good exact' ?_ ?_ always
    · exact fun state event _ holds met => (MetaState.exact_step_iff holds event).mpr met
    · exact fun state event _ holds good => (MetaState.exact_step_iff holds event).mp good
  · intro meets
    refine always_of_meets exact' ?_ meets
    exact fun state event _ holds met => (MetaState.exact_step_iff holds event).mpr met

instance (state : MetaState) : DecidablePred state.Undisturbed
  | .put _ | .removeRows _ => by
    unfold MetaState.Undisturbed
    infer_instance
  | .readIds _ | .giveUp _ => .isTrue trivial

def emptyMeta : MetaState := ⟨.empty, []⟩

theorem exact_emptyMeta : emptyMeta.Exact := by
  intro docName id
  refine iff_of_false not_mem_nil ?_
  rintro ⟨row, held, _⟩
  cases held

def noteChunk (index : Nat) : Chunk := ⟨index, "note.txt", index, "text", "text"⟩

/-- A note is deleted while chunks of it are put before and after. -/
theorem putDeletePut_exact : emptyMeta.Exact ∧ emptyMeta.ExactThroughout
    [.put [noteChunk 0, noteChunk 1], .readIds "note.txt", .put [noteChunk 1], .removeRows 0,
      .put [noteChunk 2]] :=
  ⟨exact_emptyMeta, (exactThroughout_iff exact_emptyMeta _).mpr (by decide +kernel)⟩

/-- A chunk that is put while its document is being deleted keeps its row, and all calls have
returned. The index has no entry for the document, so that `delete_doc` cannot reach the row. -/
theorem lateChunk_unreachable :
    let last := emptyMeta.run
      [.put [noteChunk 0], .readIds "note.txt", .put [noteChunk 1], .removeRows 0]
    last.deleting = [] ∧ ¬ last.Exact ∧
      (last.store.deleteDoc "note.txt").chunks.lookup 1 = some (noteChunk 1).row := by
  refine ⟨rfl, ?_, by decide +kernel⟩
  intro indices
  have indexed := (indices "note.txt" 1).mpr ⟨(noteChunk 1).row, by decide +kernel, rfl⟩
  exact absurd indexed (by decide +kernel)

end KwaaiNet.Rag
