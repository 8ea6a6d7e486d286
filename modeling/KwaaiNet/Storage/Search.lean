import KwaaiNet.Foundation.Ranking
import KwaaiNet.Foundation.Sorting
import KwaaiNet.Storage.Index

/-! # Searching the index of a tenant

Small corpora are searched exactly, large ones through the search graph. The graph keeps the
vector of every slot that was ever used, so the nearest slots it returns may be tombstones; the
search fetches more slots than results are wanted and drops the dead ones.
`KwaaiNet.SearchIndex.search_answers_iff` says when enough are left, after any history of
insertions and tombstones.
-/

namespace KwaaiNet

open Foundation List

/-- An index together with the vectors its search graph was given, one for each slot. -/
structure SearchIndex where
  index : TenantIndex
  graph : List Embedding
  sized : graph.length = index.nextId
  graphed : ∀ doc slot, index.revMap.lookup doc = some slot →
    graph[slot]? = index.storedVecs.lookup doc

namespace SearchIndex

/-! ## Histories -/

theorem graphed_new (dimension : Nat) (doc : DocId) (slot : Nat)
    (held : (TenantIndex.new dimension).revMap.lookup doc = some slot) :
    ([] : List Embedding)[slot]? = (TenantIndex.new dimension).storedVecs.lookup doc := by
  cases held

/-- `TenantIndex::new`. -/
def new (dimension : Nat) : SearchIndex where
  index := .new dimension
  graph := []
  sized := rfl
  graphed := graphed_new dimension

variable (state : SearchIndex)

theorem sized_insert (embedding : Embedding) :
    (state.graph ++ [embedding]).length = state.index.nextId + 1 := by
  rw [length_append, state.sized]
  rfl

theorem graphed_insert (doc : DocId) (embedding : Embedding) (other : DocId) (slot : Nat)
    (held : (state.index.insert doc embedding).revMap.lookup other = some slot) :
    (state.graph ++ [embedding])[slot]? =
      (state.index.insert doc embedding).storedVecs.lookup other := by
  change (state.index.revMap.insert doc state.index.nextId).lookup other = some slot at held
  change _ = (state.index.storedVecs.insert doc embedding).lookup other
  by_cases same : other = doc
  · subst same
    rw [AList.lookup_insert] at held ⊢
    obtain rfl := Option.some.inj held
    rw [← state.sized, List.getElem?_append_right (le_refl _), Nat.sub_self]
    rfl
  · rw [AList.lookup_insert_ne same] at held ⊢
    have old := state.graphed other slot held
    have stored : other ∈ state.index.storedVecs :=
      (state.index.stored other).mpr (AList.lookup_isSome.mp (by rw [held]; rfl))
    obtain ⟨vector, found⟩ := Option.isSome_iff_exists.mp (AList.lookup_isSome.mpr stored)
    rw [found] at old
    rw [List.getElem?_append_left (List.getElem?_eq_some_iff.mp old).1, old, found]

/-- `TenantIndex::insert`. -/
def insert (doc : DocId) (embedding : Embedding) : SearchIndex where
  index := state.index.insert doc embedding
  graph := state.graph ++ [embedding]
  sized := state.sized_insert embedding
  graphed := state.graphed_insert doc embedding

theorem graphed_tombstone (doc other : DocId) (slot : Nat)
    (held : (state.index.tombstone doc).revMap.lookup other = some slot) :
    state.graph[slot]? = (state.index.tombstone doc).storedVecs.lookup other := by
  change (state.index.revMap.erase doc).lookup other = some slot at held
  change _ = (state.index.storedVecs.erase doc).lookup other
  by_cases same : other = doc
  · subst same
    rw [AList.lookup_erase] at held
    cases held
  · rw [AList.lookup_erase_ne same] at held ⊢
    exact state.graphed other slot held

/-- `TenantIndex::tombstone`: the graph keeps the vector. -/
def tombstone (doc : DocId) : SearchIndex where
  index := state.index.tombstone doc
  graph := state.graph
  sized := state.sized
  graphed := state.graphed_tombstone doc

/-- One call: an insertion or a tombstone. -/
def put (change : DocId × Option Embedding) : SearchIndex :=
  match change.2 with
  | some embedding => state.insert change.1 embedding
  | none => state.tombstone change.1

def putAll (changes : List (DocId × Option Embedding)) : SearchIndex := changes.foldl put state

theorem index_putAll (changes : List (DocId × Option Embedding)) :
    (state.putAll changes).index = state.index.putAll changes := by
  induction changes generalizing state with
  | nil => rfl
  | cons change changes ih =>
    change ((state.put change).putAll changes).index = (state.index.put change).putAll changes
    rw [ih]
    obtain ⟨doc, _ | embedding⟩ := change <;> rfl

theorem graph_putAll (changes : List (DocId × Option Embedding)) :
    (state.putAll changes).graph = state.graph ++ changes.filterMap Prod.snd := by
  induction changes generalizing state with
  | nil => exact (append_nil _).symm
  | cons change changes ih =>
    change ((state.put change).putAll changes).graph = _
    rw [ih]
    obtain ⟨doc, _ | embedding⟩ := change
    · rfl
    · exact (append_assoc _ _ _).trans rfl

/-! ## The search -/

/-- `Vec::with_capacity` for more bytes than an allocation may have. -/
structure CapacityOverflow where
  requested : Nat
  deriving DecidableEq

def zeroQuery (query : Embedding) : Bool := query.all fun bits => bits &&& 0x7FFFFFFF = 0

section Search

variable {S : Type} [LinearOrder S] (similarity : Embedding → Embedding → S)

def slotSimilarity (query : Embedding) (slot : Nat) : S :=
  similarity query (state.graph.getD slot [])

/-- The search graph returns the slots with the most similar vectors, as many as asked for. -/
structure Hnsw where
  search : SearchIndex → Embedding → Nat → List Nat
  nearest : ∀ state query k, Nearest (state.slotSimilarity similarity query)
    (Finset.range state.graph.length) k (search state query k)

def docAt (slot : Nat) : Option DocId := state.index.idMap[slot]?.join

/-- `search_exact`. The sort decides the order of equal similarities. -/
def searchExact (sorter : Sorter (DocId × S)) (query : Embedding) (topK : Nat) :
    List (DocId × S) :=
  if zeroQuery query then []
  else
    (sorter.sort (fun first second => compare second.2 first.2)
      (state.index.storedVecs.entries.map fun row => (row.1, similarity query row.2))).take topK

def fetchK (topK : Nat) : Nat := max (topK * 4 % 2 ^ 64) ((topK + 16) % 2 ^ 64)

variable [Zero S] [One S]

def slotScore (query : Embedding) (slot : Nat) : S :=
  max 0 (min 1 (state.slotSimilarity similarity query slot))

def collect (query : Embedding) (topK : Nat) : List Nat → List (DocId × S) → List (DocId × S)
  | [], results => results
  | slot :: slots, results =>
    match state.docAt slot with
    | some doc =>
      let results := results ++ [(doc, state.slotScore similarity query slot)]
      if topK ≤ results.length then results else collect query topK slots results
    | none => collect query topK slots results

/-- `search_hnsw`. -/
def searchHnsw (hnsw : Hnsw similarity) (query : Embedding) (topK : Nat) :
    Except CapacityOverflow (List (DocId × S)) :=
  let slots := hnsw.search state query (fetchK topK)
  -- a pair takes 16 bytes, and no allocation has 2^63 of them
  if 2 ^ 63 ≤ topK * 16 then .error ⟨topK⟩ else .ok (state.collect similarity query topK slots [])

/-- `TenantIndex::search`. -/
def search (sorter : Sorter (DocId × S)) (hnsw : Hnsw similarity) (query : Embedding)
    (topK : Nat) : Except CapacityOverflow (List (DocId × S)) :=
  if state.index.liveCount = 0 ∨ topK = 0 then .ok []
  else if state.index.liveCount < 2000 then .ok (state.searchExact similarity sorter query topK)
  else state.searchHnsw similarity hnsw query topK

/-- What a search has to return: as many results as there are live documents and as were
asked for, distinct and live, and no worse than the live documents left out. -/
structure Answers (query : Embedding) (topK : Nat) (results : List (DocId × S)) : Prop where
  count : results.length = min topK state.index.liveCount
  distinct : (results.map Prod.fst).Nodup
  live : ∀ doc ∈ results.map Prod.fst, doc ∈ state.index.revMap
  best : ∀ doc embedding, state.index.live doc = some embedding → doc ∉ results.map Prod.fst →
    ∀ other vector, state.index.live other = some vector → other ∈ results.map Prod.fst →
      similarity query embedding ≤ similarity query vector

end Search

variable {state}

/-! ## The live documents -/

theorem docAt_eq_some_iff {slot : Nat} {doc : DocId} :
    state.docAt slot = some doc ↔ state.index.revMap.lookup doc = some slot := by
  rw [state.index.slots doc slot, docAt, Option.join_eq_some_iff]

theorem live_of_docAt {slot : Nat} {doc : DocId} (found : state.docAt slot = some doc) :
    state.index.live doc = some (state.graph.getD slot []) ∧ slot < state.graph.length := by
  have held := docAt_eq_some_iff.mp found
  have stored := state.graphed doc slot held
  have member : doc ∈ state.index.storedVecs :=
    (state.index.stored doc).mpr (AList.lookup_isSome.mp (by rw [held]; rfl))
  obtain ⟨vector, known⟩ := Option.isSome_iff_exists.mp (AList.lookup_isSome.mpr member)
  rw [known] at stored
  rw [state.index.live_eq_lookup, known, getD_eq_getElem?_getD, stored]
  exact ⟨rfl, (List.getElem?_eq_some_iff.mp stored).1⟩

theorem exists_docAt {doc : DocId} (live : doc ∈ state.index.revMap) :
    ∃ slot, state.docAt slot = some doc := by
  obtain ⟨slot, held⟩ := Option.isSome_iff_exists.mp (AList.lookup_isSome.mpr live)
  exact ⟨slot, docAt_eq_some_iff.mpr held⟩

theorem mem_of_live {doc : DocId} {embedding : Embedding}
    (live : state.index.live doc = some embedding) : doc ∈ state.index.revMap := by
  rw [TenantIndex.live] at live
  split_ifs at live with member
  exact member

theorem length_le_liveCount {docs : List DocId} (distinct : docs.Nodup)
    (live : ∀ doc ∈ docs, doc ∈ state.index.revMap) : docs.length ≤ state.index.liveCount :=
  (subperm_of_subset distinct fun doc member => AList.mem_keys.mp (live doc member)).length_le

theorem length_storedVecs : state.index.storedVecs.entries.length = state.index.liveCount := by
  have keys : state.index.storedVecs.keys.Perm state.index.revMap.keys :=
    (perm_ext_iff_of_nodup state.index.storedVecs.keys_nodup
      state.index.revMap.keys_nodup).mpr fun doc => state.index.stored doc
  rw [TenantIndex.liveCount, ← keys.length_eq, AList.keys, List.keys, length_map]

/-! ## The exact search -/

section Answers

variable {S : Type} [LinearOrder S] {similarity : Embedding → Embedding → S}

theorem compare_refines : Refines (fun first second : DocId × S => compare second.2 first.2)
    fun result => OrderDual.toDual result.2 := by
  intro first second higher
  have lower : second.2 < first.2 := higher
  exact ⟨compare_lt_iff_lt.mpr lower, compare_gt_iff_gt.mpr lower⟩

omit [LinearOrder S] in
theorem mem_scored {query : Embedding} {result : DocId × S} :
    result ∈ (state.index.storedVecs.entries.map fun row => (row.1, similarity query row.2)) ↔
      ∃ embedding, state.index.live result.1 = some embedding ∧
        similarity query embedding = result.2 := by
  rw [mem_map]
  constructor
  · rintro ⟨row, member, rfl⟩
    refine ⟨row.2, ?_, rfl⟩
    rw [state.index.live_eq_lookup]
    exact AList.mem_lookup_iff.mpr member
  · rintro ⟨embedding, live, similar⟩
    rw [state.index.live_eq_lookup] at live
    exact ⟨⟨result.1, embedding⟩, AList.mem_lookup_iff.mp live, Prod.ext rfl similar⟩

theorem searchExact_answers (sorter : Sorter (DocId × S)) {query : Embedding} (topK : Nat)
    (nonzero : zeroQuery query = false) :
    state.Answers similarity query topK (state.searchExact similarity sorter query topK) := by
  rw [searchExact, if_neg (by rw [nonzero]; exact Bool.false_ne_true)]
  set scored := state.index.storedVecs.entries.map fun row => (row.1, similarity query row.2)
    with scored_eq
  set sorted := sorter.sort (fun first second => compare second.2 first.2) scored
  have permuted : sorted.Perm scored := sorter.perm _ _
  have ranked : Ranked Prod.snd sorted := sorter.ordered compare_refines scored
  have distinct : (sorted.map Prod.fst).Nodup := by
    rw [(permuted.map Prod.fst).nodup_iff, scored_eq, map_map]
    exact state.index.storedVecs.nodupKeys
  have known : ∀ result ∈ sorted, ∃ embedding, state.index.live result.1 = some embedding ∧
      similarity query embedding = result.2 :=
    fun result member => mem_scored.mp (permuted.mem_iff.mp member)
  refine ⟨?_, ?_, ?_, ?_⟩
  · rw [length_take, permuted.length_eq, scored_eq, length_map, length_storedVecs]
  · rw [map_take]
    exact distinct.sublist (take_sublist _ _)
  · intro doc member
    obtain ⟨result, taken, rfl⟩ := mem_map.mp member
    obtain ⟨embedding, live, _⟩ := known result (mem_of_mem_take taken)
    exact mem_of_live live
  · intro doc embedding live left other vector otherLive member
    obtain ⟨result, taken, rfl⟩ := mem_map.mp member
    obtain ⟨stored, storedLive, similar⟩ := known result (mem_of_mem_take taken)
    obtain rfl := Option.some.inj (otherLive.symm.trans storedLive)
    rw [similar]
    have present : (doc, similarity query embedding) ∈ sorted :=
      permuted.mem_iff.mpr (mem_scored.mpr ⟨embedding, live, rfl⟩)
    exact ranked.le_of_notMem_take present
      (fun also => left (mem_map.mpr ⟨_, also, rfl⟩)) taken

/-! ## The search through the graph -/

section Hnsw

variable [Zero S] [One S]

def found (state : SearchIndex) (similarity : Embedding → Embedding → S) (query : Embedding)
    (slot : Nat) : Option (DocId × S) :=
  (state.docAt slot).map fun doc => (doc, state.slotScore similarity query slot)

theorem collect_eq {query : Embedding} {topK : Nat} (slots : List Nat) {results : List (DocId × S)}
    (room : results.length < topK) :
    state.collect similarity query topK slots results =
      results ++ (slots.filterMap (state.found similarity query)).take (topK - results.length) := by
  induction slots generalizing results with
  | nil => rw [collect, filterMap_nil, take_nil, append_nil]
  | cons slot slots ih =>
    rw [collect]
    cases live : state.docAt slot with
    | none =>
      have dropped : state.found similarity query slot = none := by rw [found, live]; rfl
      rw [filterMap_cons_none dropped]
      exact ih room
    | some doc =>
      have kept : state.found similarity query slot =
          some (doc, state.slotScore similarity query slot) := by rw [found, live]; rfl
      rw [filterMap_cons_some kept]
      obtain ⟨left, remaining⟩ : ∃ left, topK - results.length = left + 1 :=
        ⟨topK - results.length - 1, by omega⟩
      rw [remaining, take_succ_cons]
      dsimp only
      split
      case isTrue full =>
        rw [length_append, length_singleton] at full
        have last : left = 0 := by omega
        rw [last, take_zero]
      case isFalse more =>
        rw [length_append, length_singleton] at more
        rw [ih (by rw [length_append, length_singleton]; omega), append_assoc,
          length_append, length_singleton, singleton_append]
        congr 3
        omega

theorem take_filterMap_found {query : Embedding} (slots : List Nat) (n : Nat) :
    (slots.filterMap (state.found similarity query)).take n =
      ((slots.filter fun slot => (state.docAt slot).isSome).take n).filterMap
        (state.found similarity query) := by
  induction slots generalizing n with
  | nil => simp
  | cons slot slots ih =>
    cases live : state.docAt slot with
    | none =>
      have dropped : state.found similarity query slot = none := by rw [found, live]; rfl
      rw [filterMap_cons_none dropped, filter_cons_of_neg (by simp [live]), ih]
    | some doc =>
      have kept : state.found similarity query slot =
          some (doc, state.slotScore similarity query slot) := by rw [found, live]; rfl
      rw [filterMap_cons_some kept, filter_cons_of_pos (by simp [live])]
      cases n with
      | zero => simp
      | succ n =>
        rw [take_succ_cons, take_succ_cons, filterMap_cons_some kept, ih]

def liveFetched (state : SearchIndex) (hnsw : Hnsw similarity) (query : Embedding)
    (topK : Nat) : List Nat :=
  (hnsw.search state query (fetchK topK)).filter fun slot => (state.docAt slot).isSome

theorem collect_eq_liveFetched (hnsw : Hnsw similarity) {query : Embedding} {topK : Nat}
    (wanted : 0 < topK) :
    state.collect similarity query topK (hnsw.search state query (fetchK topK)) [] =
      ((state.liveFetched hnsw query topK).take topK).filterMap
        (state.found similarity query) := by
  rw [collect_eq _ wanted, nil_append, length_nil, Nat.sub_zero, take_filterMap_found]
  rfl

theorem docs_of_found {query : Embedding} (slots : List Nat) :
    (slots.filterMap (state.found similarity query)).map Prod.fst =
      slots.filterMap state.docAt := by
  rw [map_filterMap]
  congr 1
  funext slot
  rw [found, Option.map_map]
  exact Option.map_id'

theorem nodup_docs {slots : List Nat} (distinct : slots.Nodup) :
    (slots.filterMap state.docAt).Nodup := by
  refine distinct.filterMap fun first second doc one two => ?_
  have held := docAt_eq_some_iff.mp one
  rw [docAt_eq_some_iff.mp two] at held
  exact (Option.some.inj held).symm

theorem length_filterMap_docAt {slots : List Nat}
    (live : ∀ slot ∈ slots, (state.docAt slot).isSome = true) :
    (slots.filterMap state.docAt).length = slots.length := by
  rw [length_filterMap_eq_countP, countP_eq_length]
  exact live

theorem mem_docs {slots : List Nat} {doc : DocId} (member : doc ∈ slots.filterMap state.docAt) :
    doc ∈ state.index.revMap := by
  obtain ⟨slot, _, holds⟩ := mem_filterMap.mp member
  exact AList.lookup_isSome.mp (by rw [docAt_eq_some_iff.mp holds]; rfl)

theorem collect_answers_iff (hnsw : Hnsw similarity) {query : Embedding} {topK : Nat}
    (wanted : 0 < topK) :
    state.Answers similarity query topK
        (state.collect similarity query topK (hnsw.search state query (fetchK topK)) []) ↔
      min topK state.index.liveCount ≤ (state.liveFetched hnsw query topK).length := by
  have nearest := hnsw.nearest state query (fetchK topK)
  set slots := (state.liveFetched hnsw query topK).take topK with slots_eq
  have kept : ∀ slot ∈ state.liveFetched hnsw query topK, (state.docAt slot).isSome = true :=
    fun slot member => (mem_filter.mp member).2
  have alive : ∀ slot ∈ slots, (state.docAt slot).isSome = true :=
    fun slot member => kept slot (mem_of_mem_take member)
  have distinct : (state.liveFetched hnsw query topK).Nodup := nearest.nodup.filter _
  have fetched : (state.liveFetched hnsw query topK).length ≤ state.index.liveCount := by
    rw [← length_filterMap_docAt kept]
    exact length_le_liveCount (nodup_docs distinct) fun doc => mem_docs
  have size : (slots.filterMap (state.found similarity query)).length =
      min topK (state.liveFetched hnsw query topK).length := by
    rw [← length_map (f := Prod.fst), docs_of_found, length_filterMap_docAt alive, slots_eq,
      length_take]
  rw [collect_eq_liveFetched hnsw wanted, ← slots_eq]
  constructor
  · intro answers
    have count := answers.count
    omega
  · intro enough
    refine ⟨by omega, ?_, ?_, ?_⟩
    · rw [docs_of_found]
      exact nodup_docs (distinct.sublist (take_sublist _ _))
    · rw [docs_of_found]
      exact fun doc => mem_docs
    · rw [docs_of_found]
      intro doc embedding live left other vector otherLive member
      obtain ⟨slot, holds⟩ := exists_docAt (mem_of_live live)
      obtain ⟨taken, inside, otherHolds⟩ := mem_filterMap.mp member
      obtain ⟨here, within⟩ := live_of_docAt holds
      obtain rfl := Option.some.inj (live.symm.trans here)
      obtain rfl := Option.some.inj (otherLive.symm.trans (live_of_docAt otherHolds).1)
      exact nearest.le_of_notMem_take_filter (Finset.mem_range.mpr within) (by rw [holds]; rfl)
        (fun also => left (mem_filterMap.mpr ⟨slot, also, holds⟩)) inside

/-- **Searching after updates and deletes.** After every history of insertions and tombstones,
for every query that is not zero, the search returns without a panic and answers exactly when
nothing is asked for, or the corpus is small enough for the exact search, or the number of
results wanted is below `2^59` and, of the `max (4k) (k + 16)` slots nearest to the query, as
many are live as results are due. -/
theorem search_answers_iff (similarity : Embedding → Embedding → S)
    (sorter : Sorter (DocId × S)) (hnsw : Hnsw similarity) (dimension : Nat)
    (changes : List (DocId × Option Embedding)) (query : Embedding) (topK : Nat)
    (nonzero : zeroQuery query = false) :
    (∃ results, ((new dimension).putAll changes).search similarity sorter hnsw query topK =
        .ok results ∧
      ((new dimension).putAll changes).Answers similarity query topK results) ↔
    topK = 0 ∨ ((new dimension).putAll changes).index.liveCount < 2000 ∨
      topK < 2 ^ 59 ∧ min topK ((new dimension).putAll changes).index.liveCount ≤
        (((new dimension).putAll changes).liveFetched hnsw query topK).length := by
  generalize (new dimension).putAll changes = state
  rw [search]
  by_cases nothing : state.index.liveCount = 0 ∨ topK = 0
  · rw [if_pos nothing]
    have none' : min topK state.index.liveCount = 0 := by omega
    refine iff_of_true ⟨[], rfl, none'.symm, nodup_nil, by simp, by simp⟩ ?_
    omega
  · rw [if_neg nothing]
    by_cases small : state.index.liveCount < 2000
    · rw [if_pos small]
      exact iff_of_true ⟨_, rfl, searchExact_answers sorter topK nonzero⟩ (.inr (.inl small))
    · rw [if_neg small, searchHnsw]
      by_cases large : 2 ^ 63 ≤ topK * 16
      · rw [if_pos large]
        refine iff_of_false ?_ (by omega)
        rintro ⟨results, impossible, _⟩
        cases impossible
      · rw [if_neg large]
        have wanted : 0 < topK := by omega
        constructor
        · rintro ⟨results, ran, answered⟩
          obtain rfl := Except.ok.inj ran
          exact .inr (.inr ⟨by omega, (collect_answers_iff hnsw wanted).mp answered⟩)
        · rintro (none' | fewer | ⟨_, enough⟩)
          · omega
          · omega
          · exact ⟨_, rfl, (collect_answers_iff hnsw wanted).mpr enough⟩

end Hnsw

end Answers

/-! ## A graph crowded with tombstones -/

section Exact

variable {S : Type} [LinearOrder S] (similarity : Embedding → Embedding → S)

def rankedSlots (state : SearchIndex) (query : Embedding) : List Nat :=
  insertionSort (fun first second => compare (state.slotSimilarity similarity query second)
    (state.slotSimilarity similarity query first)) (List.range state.graph.length)

theorem rankedSlots_perm (state : SearchIndex) (query : Embedding) :
    (rankedSlots similarity state query).Perm (List.range state.graph.length) :=
  insertionSort_perm _ _

theorem rankedSlots_ranked (state : SearchIndex) (query : Embedding) :
    Ranked (state.slotSimilarity similarity query) (rankedSlots similarity state query) := by
  have refines : Refines (fun first second => compare (state.slotSimilarity similarity query second)
      (state.slotSimilarity similarity query first))
      fun slot => OrderDual.toDual (state.slotSimilarity similarity query slot) := by
    intro first second higher
    have lower : state.slotSimilarity similarity query second <
        state.slotSimilarity similarity query first := higher
    exact ⟨compare_lt_iff_lt.mpr lower, compare_gt_iff_gt.mpr lower⟩
  exact insertionSort_ordered refines _

theorem rankedSlots_nearest (state : SearchIndex) (query : Embedding) (k : Nat) :
    Nearest (state.slotSimilarity similarity query) (Finset.range state.graph.length) k
      ((rankedSlots similarity state query).take k) := by
  have permuted := rankedSlots_perm similarity state query
  have ranked := rankedSlots_ranked similarity state query
  refine ⟨(permuted.nodup_iff.mpr nodup_range).sublist (take_sublist _ _), ?_, ?_,
    List.Pairwise.sublist (take_sublist _ _) ranked, ?_⟩
  · intro slot member
    exact Finset.mem_range.mpr
      (mem_range.mp (permuted.mem_iff.mp (mem_of_mem_take member)))
  · rw [length_take, permuted.length_eq, length_range, Finset.card_range]
  · intro slot inside left other taken
    exact ranked.le_of_notMem_take
      (permuted.mem_iff.mpr (mem_range.mpr (Finset.mem_range.mp inside))) left taken

/-- A graph that compares all of its slots. -/
def Hnsw.exact : Hnsw similarity where
  search state query k := (rankedSlots similarity state query).take k
  nearest := rankedSlots_nearest similarity

end Exact

/-- The value of the bits of a finite `f32`. -/
def f32Value (bits : UInt32) : ℚ :=
  let exponent := (bits >>> 23 &&& 0xFF).toNat
  let mantissa := (bits &&& 0x7FFFFF).toNat
  let magnitude : ℚ :=
    if exponent = 0 then mantissa / 2 ^ 149 else (2 ^ 23 + mantissa) * 2 ^ exponent / 2 ^ 150
  if bits >>> 31 = 0 then magnitude else -magnitude

def dotProduct (query embedding : Embedding) : ℚ :=
  ((query.zip embedding).map fun pair => f32Value pair.1 * f32Value pair.2).sum

/-- The unit vectors `(1, 0)` and `(0, 1)`. -/
def nearVector : Embedding := [0x3F800000, 0]

def farVector : Embedding := [0, 0x3F800000]

theorem mem_revMap_iff {state : SearchIndex} {doc : DocId} :
    doc ∈ state.index.revMap ↔ ∃ embedding, state.index.live doc = some embedding := by
  refine ⟨fun member => ?_, fun ⟨_, live⟩ => mem_of_live live⟩
  obtain ⟨slot, holds⟩ := exists_docAt member
  exact ⟨_, (live_of_docAt holds).1⟩

/-- The same change for `count` documents from `first` on. -/
def changesFrom (first count : Nat) (change : Option Embedding) :
    List (DocId × Option Embedding) :=
  (List.range count).map fun n : Nat => (((first + n : Nat) : Int), change)

theorem mem_changesFrom {first count : Nat} {change : Option Embedding} {doc : Int} :
    doc ∈ (changesFrom first count change).map Prod.fst ↔
      first ≤ doc ∧ doc < (first + count : Nat) := by
  rw [changesFrom, map_map, mem_map]
  constructor
  · rintro ⟨n, inside, rfl⟩
    have bound := mem_range.mp inside
    simp only [Function.comp_apply]
    omega
  · intro bound
    refine ⟨(doc - first).toNat, mem_range.mpr (by omega), ?_⟩
    simp only [Function.comp_apply]
    omega

theorem overlay_changesFrom (first count : Nat) (change : Option Embedding)
    (base : DocId → Option Embedding) (doc : Int) :
    overlay (changesFrom first count change) base doc =
      if first ≤ doc ∧ doc < (first + count : Nat) then change else base doc := by
  split_ifs with inside
  · apply overlay_of_forall (mem_changesFrom.mpr inside)
    intro each member _
    obtain ⟨n, _, rfl⟩ := mem_map.mp member
    rfl
  · exact overlay_of_notMem (mt mem_changesFrom.mp inside) base

theorem filterMap_changesFrom (first count : Nat) (change : Option Embedding) :
    (changesFrom first count change).filterMap Prod.snd =
      List.replicate (if change.isSome then count else 0) (change.getD []) := by
  rw [changesFrom, filterMap_map]
  cases change with
  | none => exact filterMap_eq_nil_iff.mpr fun _ _ => rfl
  | some vector =>
    change (List.range count).filterMap (fun _ => some vector) = _
    rw [filterMap_eq_map']
    simp

/-- Documents far from a query, and documents near it that are deleted again. -/
def crowdedChanges (kept dead : Nat) : List (DocId × Option Embedding) :=
  changesFrom 0 kept (some farVector) ++
    (changesFrom kept dead (some nearVector) ++ changesFrom kept dead none)

def crowdedIndex (kept dead : Nat) : SearchIndex := (new 2).putAll (crowdedChanges kept dead)

theorem live_crowdedIndex (kept dead : Nat) (doc : Int) :
    (crowdedIndex kept dead).index.live doc =
      if 0 ≤ doc ∧ doc < kept then some farVector else none := by
  rw [crowdedIndex, index_putAll, TenantIndex.live_putAll, crowdedChanges, overlay_append,
    overlay_append, overlay_changesFrom, overlay_changesFrom, overlay_changesFrom]
  have fresh : (new 2).index.live doc = none := rfl
  split_ifs <;> first | rfl | omega

/-- The documents that were not deleted are left. -/
theorem liveCount_crowdedIndex (kept dead : Nat) :
    (crowdedIndex kept dead).index.liveCount = kept := by
  have keys : (crowdedIndex kept dead).index.revMap.keys.Perm
      ((List.range kept).map Int.ofNat) := by
    refine (perm_ext_iff_of_nodup (AList.keys_nodup _)
      (nodup_range.map fun _ _ => Int.ofNat.inj)).mpr fun (doc : Int) => ?_
    rw [← AList.mem_keys, mem_revMap_iff, live_crowdedIndex, mem_map]
    constructor
    · rintro ⟨embedding, live⟩
      split_ifs at live with bound
      exact ⟨doc.toNat, mem_range.mpr (by omega), Int.toNat_of_nonneg bound.1⟩
    · rintro ⟨n, inside, rfl⟩
      have bound := mem_range.mp inside
      exact ⟨farVector, if_pos ⟨Int.natCast_nonneg n, Int.ofNat_lt.mpr bound⟩⟩
  rw [TenantIndex.liveCount, keys.length_eq, length_map, length_range]

theorem graph_crowdedIndex (kept dead : Nat) : (crowdedIndex kept dead).graph =
    List.replicate kept farVector ++ List.replicate dead nearVector := by
  rw [crowdedIndex, graph_putAll, crowdedChanges, filterMap_append, filterMap_append,
    filterMap_changesFrom, filterMap_changesFrom, filterMap_changesFrom]
  simp [new]

theorem far_lt_near : dotProduct nearVector farVector < dotProduct nearVector nearVector := by
  decide +kernel

theorem liveFetched_crowdedIndex (hnsw : Hnsw dotProduct) {kept dead topK : Nat}
    (fetched : fetchK topK ≤ dead) :
    (crowdedIndex kept dead).liveFetched hnsw nearVector topK = [] := by
  apply filter_eq_nil_iff.mpr
  intro slot chosen found
  obtain ⟨doc, holds⟩ := Option.isSome_iff_exists.mp found
  obtain ⟨live, _⟩ := live_of_docAt holds
  rw [live_crowdedIndex] at live
  have far : (crowdedIndex kept dead).graph.getD slot [] = farVector := by
    split_ifs at live
    exact (Option.some.inj live).symm
  have inside : Finset.Ico kept (kept + dead) ⊆
      Finset.range (crowdedIndex kept dead).graph.length := by
    intro other between
    rw [graph_crowdedIndex, Finset.mem_range, length_append, length_replicate,
      length_replicate]
    exact (Finset.mem_Ico.mp between).2
  have enough : fetchK topK ≤ (Finset.Ico kept (kept + dead)).card := by
    rw [Nat.card_Ico]
    omega
  -- the slots of the deleted documents are all nearer
  refine (hnsw.nearest (crowdedIndex kept dead) nearVector (fetchK topK)).notMem_of_better
    inside enough ?_ chosen
  intro other between
  obtain ⟨after, before⟩ := Finset.mem_Ico.mp between
  have near : (crowdedIndex kept dead).graph.getD other [] = nearVector := by
    rw [graph_crowdedIndex, getD_append_right _ _ _ _ (by simpa using after),
      length_replicate, getD_replicate _ (by omega)]
  rw [slotSimilarity, slotSimilarity, far, near]
  exact far_lt_near

/-- Two documents of which none is crowded out. -/
theorem pair_answered : ∃ results, ((new 2).putAll (crowdedChanges 2 1)).search dotProduct
      .insertion (.exact dotProduct) nearVector 1 = .ok results ∧
    ((new 2).putAll (crowdedChanges 2 1)).Answers dotProduct nearVector 1 results :=
  (search_answers_iff dotProduct .insertion (.exact dotProduct) 2 (crowdedChanges 2 1) nearVector 1
    (by decide)).mpr (.inr (.inl ((liveCount_crowdedIndex 2 1).trans_lt (by decide))))

/-- **Tombstones crowd the documents out.** With two thousand documents stored, and seventeen
documents near the query stored and deleted again, a search for one result returns none. -/
theorem crowdedIndex_finds_nothing :
    (crowdedIndex 2000 17).index.liveCount = 2000 ∧
    (crowdedIndex 2000 17).search dotProduct .insertion (.exact dotProduct) nearVector 1 =
      .ok [] ∧
    ¬ (crowdedIndex 2000 17).Answers dotProduct nearVector 1 [] := by
  have count := liveCount_crowdedIndex 2000 17
  refine ⟨count, ?_, ?_⟩
  · rw [search, if_neg (by omega), if_neg (by omega), searchHnsw, if_neg (by omega),
      collect_eq_liveFetched _ Nat.one_pos, liveFetched_crowdedIndex _ (by decide)]
    rfl
  · intro answers
    have size := answers.count
    rw [count] at size
    cases size

end SearchIndex

end KwaaiNet
