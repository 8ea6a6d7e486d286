import KwaaiNet.Foundation.Execution
import KwaaiNet.Rag.Sync

/-! # The query cache

Answers are cached under their queries. When an answer is put, the entries that are older than the
time to live go, and then, while the cache is full, the entry with the fewest hits, the oldest of
these. This is compared with the cache that drops the least recently used entry:
`KwaaiNet.Rag.cachesRecent_iff` says at which calls the two drop the same entry.
-/

namespace KwaaiNet.Rag

open Foundation List

section

variable {E S : Type}

/-- `CacheEntry`. -/
structure CacheEntry (E : Type) where
  id : Int
  queryText : String
  queryEmbedding : E
  answer : String
  chunkIds : List ChunkId
  timestamp : Int
  hitCount : UInt32
  deriving DecidableEq

/-- The entries in the order in which the map lists them. -/
structure QueryCache (E : Type) where
  entries : List (CacheEntry E)
  distinct : (entries.map CacheEntry.id).Nodup

/-- The settings of a cache, with the similarity of two embeddings, if it is over the threshold
(an embedding that is empty or zero has none), and the hash of a query in lower case. -/
structure CacheConfig (E S : Type) where
  ttlSecs : UInt64
  maxEntries : Nat
  similarity : E → E → Option S
  cacheId : String → Int

/-- An order in which a map may list its entries. -/
structure Listing (E : Type) where
  list : List (CacheEntry E) → List (CacheEntry E)
  perm : ∀ entries, (list entries).Perm entries

namespace QueryCache

def empty : QueryCache E := ⟨[], nodup_nil⟩

def relist (cache : QueryCache E) (listing : Listing E) : QueryCache E where
  entries := listing.list cache.entries
  distinct := ((listing.perm cache.entries).map _).nodup_iff.mpr cache.distinct

def keep (cache : QueryCache E) (kept : CacheEntry E → Bool) : QueryCache E where
  entries := cache.entries.filter kept
  distinct := cache.distinct.sublist (filter_sublist.map _)

def remove (cache : QueryCache E) (id : Int) : QueryCache E := cache.keep (·.id ≠ id)

theorem notMem_remove (cache : QueryCache E) (id : Int) :
    id ∉ (cache.remove id).entries.map CacheEntry.id := by
  intro member
  obtain ⟨entry, present, same⟩ := mem_map.mp member
  exact of_decide_eq_true (mem_filter.mp present).2 same

def insert (cache : QueryCache E) (entry : CacheEntry E) : QueryCache E where
  entries := entry :: (cache.remove entry.id).entries
  distinct := nodup_cons.mpr ⟨cache.notMem_remove entry.id, (cache.remove entry.id).distinct⟩

def hit (cache : QueryCache E) (id : Int) : QueryCache E where
  entries := cache.entries.map fun entry =>
    if entry.id = id then { entry with hitCount := entry.hitCount + 1 } else entry
  distinct := by
    have ids : (CacheEntry.id ∘ fun entry : CacheEntry E =>
        if entry.id = id then { entry with hitCount := entry.hitCount + 1 } else entry) =
        CacheEntry.id := by
      funext entry
      rw [Function.comp_apply]
      split_ifs <;> rfl
    rw [map_map, ids]
    exact cache.distinct

end QueryCache

/-- Numbers of hits and times, in lexicographic order. -/
def Rank := Nat ×ₗ Int

instance : LinearOrder Rank := @Prod.Lex.instLinearOrder Nat Int inferInstance Int.instLinearOrder

namespace CacheConfig

variable (cfg : CacheConfig E S)

/-- The age of an entry is compared with the time to live as a signed number. -/
def expired (now : Int) (entry : CacheEntry E) : Bool :=
  now - entry.timestamp > cfg.ttlSecs.toInt64.toInt

/-- `best_match`: the first of the most similar entries. -/
def bestMatch [LinearOrder S] (cache : QueryCache E) (embedding : E) (now : Int) : Option Int :=
  (((cache.entries.filter (!cfg.expired now ·)).filterMap fun entry =>
    (cfg.similarity embedding entry.queryEmbedding).map (·, entry.id)).argmax Prod.fst).map Prod.snd

/-- `QueryCache::get`. -/
def get [LinearOrder S] (cache : QueryCache E) (now : Int) (embedding : E) :
    Option (CacheEntry E) × QueryCache E :=
  match cfg.bestMatch cache embedding now with
  | none => (none, cache)
  | some id => ((cache.hit id).entries.find? (·.id = id), cache.hit id)

/-- What the entry to drop is chosen by: the number of hits, and then the time. -/
def rank (entry : CacheEntry E) : Rank := toLex (entry.hitCount.toNat, entry.timestamp)

/-- The loop of `evict`. Every turn removes an entry. -/
def evictLoop : Nat → QueryCache E → QueryCache E
  | 0, cache => cache
  | turns + 1, cache =>
    if cfg.maxEntries ≤ cache.entries.length then
      match cache.entries.argmin rank with
      | some entry => evictLoop turns (cache.remove entry.id)
      | none => cache
    else cache

/-- `QueryCache::evict`. -/
def evict (cache : QueryCache E) (now : Int) : QueryCache E :=
  let current := cache.keep (!cfg.expired now ·)
  cfg.evictLoop current.entries.length current

/-- `QueryCache::put`, with the two readings of the clock. -/
def put (cache : QueryCache E) (now stamp : Int) (queryText : String) (embedding : E)
    (answer : String) (chunkIds : List ChunkId) : QueryCache E :=
  (cfg.evict cache now).insert
    ⟨cfg.cacheId queryText, queryText, embedding, answer, chunkIds, stamp, 0⟩

end CacheConfig

/-- A call of the cache, with the time and the order in which the map lists its entries then. -/
inductive CacheCall (E : Type) where
  | get (now : Int) (listing : Listing E) (embedding : E)
  | put (now stamp : Int) (listing : Listing E) (queryText : String) (embedding : E)
      (answer : String) (chunkIds : List ChunkId)

/-- The cache, and the ids that were put or found, the last one first. -/
structure CacheState (E : Type) where
  cache : QueryCache E
  uses : List Int

namespace CacheState

variable (cfg : CacheConfig E S) [LinearOrder S]

def start : CacheState E := ⟨.empty, []⟩

def step (state : CacheState E) : CacheCall E → CacheState E
  | .get now listing embedding =>
    let (found, cache) := cfg.get (state.cache.relist listing) now embedding
    ⟨cache, (found.map CacheEntry.id).toList ++ state.uses⟩
  | .put now stamp listing queryText embedding answer chunkIds =>
    ⟨cfg.put (state.cache.relist listing) now stamp queryText embedding answer chunkIds,
      cfg.cacheId queryText :: state.uses⟩

end CacheState

/-! ## The least recently used entry -/

def CacheEntry.OutOfDate (entry : CacheEntry E) (ttlSecs : UInt64) (now : Int) : Prop :=
  (ttlSecs.toNat : Int) < now - entry.timestamp

instance (entry : CacheEntry E) (ttlSecs : UInt64) (now : Int) :
    Decidable (entry.OutOfDate ttlSecs now) := Int.decLt _ _

def CacheConfig.current (cfg : CacheConfig E S) (now : Int) (entries : List (CacheEntry E)) :
    List (CacheEntry E) :=
  entries.filter fun entry => ¬ entry.OutOfDate cfg.ttlSecs now

def LeastRecent (uses : List Int) (entries : List (CacheEntry E)) (entry : CacheEntry E) : Prop :=
  ∀ other ∈ entries, other.id ≠ entry.id → uses.idxOf other.id < uses.idxOf entry.id

/-- What a put should leave of the entries of a cache. Those that are out of date go. If there is
no room for another entry, and the query is not there yet, the least recently used one goes too. -/
def RightPut (cfg : CacheConfig E S) (uses : List Int) (now : Int) (id : Int)
    (before after : List (CacheEntry E)) : Prop :=
  let current := cfg.current now before
  after.length ≤ cfg.maxEntries ∧ id ∈ after.map CacheEntry.id ∧
    (∀ entry ∈ after, entry.id ≠ id → entry ∈ current) ∧
    if id ∈ current.map CacheEntry.id ∨ current.length < cfg.maxEntries then
      ∀ entry ∈ current, entry.id ≠ id → entry ∈ after
    else
      ∃ last ∈ current, LeastRecent uses current last ∧
        ∀ entry ∈ current, entry ∈ after ↔ entry.id ≠ last.id

def CacheState.Right (cfg : CacheConfig E S) [LinearOrder S] (state : CacheState E) :
    CacheCall E → Prop
  | .get now listing embedding =>
    ∀ entry ∈ (cfg.get (state.cache.relist listing) now embedding).1,
      ¬ entry.OutOfDate cfg.ttlSecs now
  | .put now stamp listing queryText embedding answer chunkIds =>
    RightPut cfg state.uses now (cfg.cacheId queryText)
      (state.cache.relist listing).entries
      (state.step cfg (.put now stamp listing queryText embedding answer chunkIds)).cache.entries

/-- The first entry with the fewest hits, the oldest of these, is the one to be dropped: the entry
of the query, if it has one, and otherwise the least recently used one. -/
def CacheState.DropsRight (cfg : CacheConfig E S) (state : CacheState E) : CacheCall E → Prop
  | .get .. => True
  | .put now _ listing queryText .. =>
    let current := cfg.current now (state.cache.relist listing).entries
    current.length < cfg.maxEntries ∨
      ∃ dropped ∈ current.argmin CacheConfig.rank,
        if cfg.cacheId queryText ∈ current.map CacheEntry.id then
          dropped.id = cfg.cacheId queryText
        else LeastRecent state.uses current dropped

/-! ## One call -/

section Calls

variable {cfg : CacheConfig E S}

theorem toInt_toInt64_le (ttl : UInt64) : ttl.toInt64.toInt ≤ ttl.toNat := by
  have value : ttl.toInt64.toInt = ttl.toBitVec.toInt := rfl
  rw [value, BitVec.toInt_eq_toNat_cond, UInt64.toNat_toBitVec]
  split_ifs <;> omega

/-- A time to live of less than 2⁶³ seconds is the same as a signed number. -/
theorem toInt_toInt64_of_lt {ttl : UInt64} (short : ttl.toNat < 2 ^ 63) :
    ttl.toInt64.toInt = ttl.toNat := by
  have value : ttl.toInt64.toInt = ttl.toBitVec.toInt := rfl
  rw [value, BitVec.toInt_eq_toNat_cond, UInt64.toNat_toBitVec, if_pos (by omega)]

theorem expired_of_le {now : Int} {entry : CacheEntry E} (long : 2 ^ 63 ≤ cfg.ttlSecs.toNat)
    (earlier : entry.timestamp ≤ now) : cfg.expired now entry = true := by
  have value : cfg.ttlSecs.toInt64.toInt = cfg.ttlSecs.toBitVec.toInt := rfl
  have bounded := cfg.ttlSecs.toNat_lt
  refine decide_eq_true ?_
  rw [value, BitVec.toInt_eq_toNat_cond, UInt64.toNat_toBitVec, if_neg (by omega)]
  omega

theorem not_outOfDate_of_not_expired {now : Int} {entry : CacheEntry E}
    (fresh : (!cfg.expired now entry) = true) : ¬ entry.OutOfDate cfg.ttlSecs now := by
  have signed := toInt_toInt64_le cfg.ttlSecs
  rw [CacheConfig.expired, Bool.not_eq_true', decide_eq_false_iff_not] at fresh
  rw [CacheEntry.OutOfDate]
  omega

theorem not_expired_eq (short : cfg.ttlSecs.toNat < 2 ^ 63) (now : Int) :
    (fun entry : CacheEntry E => !cfg.expired now entry) =
      fun entry => decide ¬ entry.OutOfDate cfg.ttlSecs now := by
  funext entry
  rw [CacheConfig.expired, toInt_toInt64_of_lt short, decide_not]
  rfl

namespace QueryCache

variable {cache : QueryCache E} {entry : CacheEntry E}

theorem eq_of_id {other : CacheEntry E} (first : entry ∈ cache.entries)
    (second : other ∈ cache.entries) (same : entry.id = other.id) : entry = other :=
  inj_on_of_nodup_map cache.distinct first second same

theorem mem_remove {id : Int} :
    entry ∈ (cache.remove id).entries ↔ entry ∈ cache.entries ∧ entry.id ≠ id := by
  rw [remove, keep, mem_filter, decide_eq_true_eq]

theorem mem_insert {new : CacheEntry E} :
    entry ∈ (cache.insert new).entries ↔
      entry = new ∨ entry ∈ cache.entries ∧ entry.id ≠ new.id := by
  rw [insert, mem_cons, mem_remove]

theorem length_remove_lt (present : entry ∈ cache.entries) :
    (cache.remove entry.id).entries.length < cache.entries.length := by
  refine length_filter_lt_length_iff_exists.mpr ⟨entry, present, ?_⟩
  simp

theorem length_insert_le (new : CacheEntry E) :
    (cache.insert new).entries.length ≤ cache.entries.length + 1 :=
  Nat.succ_le_succ (length_filter_le _ _)

end QueryCache

theorem length_evictLoop_lt (room : 0 < cfg.maxEntries) {turns : Nat} {cache : QueryCache E}
    (enough : cache.entries.length ≤ turns) :
    (cfg.evictLoop turns cache).entries.length < cfg.maxEntries := by
  induction turns generalizing cache with
  | zero =>
    rw [CacheConfig.evictLoop]
    omega
  | succ turns ih =>
    rw [CacheConfig.evictLoop]
    split_ifs with full
    · cases chosen : cache.entries.argmin CacheConfig.rank with
      | none =>
        rw [argmin_eq_none.mp chosen]
        exact room
      | some entry =>
        refine ih ?_
        have fewer := cache.length_remove_lt (argmin_mem chosen)
        omega
    · omega

theorem evictLoop_of_lt {turns : Nat} {cache : QueryCache E}
    (few : cache.entries.length < cfg.maxEntries) : cfg.evictLoop turns cache = cache := by
  cases turns with
  | zero => rfl
  | succ turns => rw [CacheConfig.evictLoop, if_neg (by omega)]

theorem evictLoop_of_eq {turns : Nat} {cache : QueryCache E}
    (full : cache.entries.length = cfg.maxEntries) {dropped : CacheEntry E}
    (chosen : cache.entries.argmin CacheConfig.rank = some dropped) :
    cfg.evictLoop (turns + 1) cache = cache.remove dropped.id := by
  have fewer := cache.length_remove_lt (argmin_mem chosen)
  rw [CacheConfig.evictLoop, if_pos (by omega), chosen]
  exact evictLoop_of_lt (by omega)

theorem length_put_le (room : 0 < cfg.maxEntries) (cache : QueryCache E) (now stamp : Int)
    (queryText : String) (embedding : E) (answer : String) (chunkIds : List ChunkId) :
    (cfg.put cache now stamp queryText embedding answer chunkIds).entries.length ≤
      cfg.maxEntries := by
  have below := length_evictLoop_lt room (le_refl (cache.keep (!cfg.expired now ·)).entries.length)
  exact (QueryCache.length_insert_le _).trans below

section Put

variable {cache : QueryCache E} {now stamp : Int} {queryText : String} {embedding : E}
  {answer : String} {chunkIds : List ChunkId} {entry : CacheEntry E}

/-- Apart from the new entry, a put leaves what `evict` leaves. -/
theorem mem_put (other : entry.id ≠ cfg.cacheId queryText) :
    entry ∈ (cfg.put cache now stamp queryText embedding answer chunkIds).entries ↔
      entry ∈ (cfg.evict cache now).entries := by
  rw [CacheConfig.put, QueryCache.mem_insert]
  refine ⟨?_, fun kept => .inr ⟨kept, other⟩⟩
  rintro (rfl | ⟨kept, _⟩)
  · exact absurd rfl other
  · exact kept

theorem id_mem_put : cfg.cacheId queryText ∈
    (cfg.put cache now stamp queryText embedding answer chunkIds).entries.map CacheEntry.id :=
  mem_map.mpr ⟨_, mem_cons_self, rfl⟩

theorem entries_keep (short : cfg.ttlSecs.toNat < 2 ^ 63) :
    (cache.keep (!cfg.expired now ·)).entries = cfg.current now cache.entries := by
  rw [QueryCache.keep, not_expired_eq short, CacheConfig.current]

theorem entries_evict_of_lt (short : cfg.ttlSecs.toNat < 2 ^ 63)
    (few : (cfg.current now cache.entries).length < cfg.maxEntries) :
    (cfg.evict cache now).entries = cfg.current now cache.entries := by
  rw [CacheConfig.evict, evictLoop_of_lt (by rwa [entries_keep short]), entries_keep short]

theorem mem_evict_of_eq (short : cfg.ttlSecs.toNat < 2 ^ 63)
    (full : (cfg.current now cache.entries).length = cfg.maxEntries) {dropped : CacheEntry E}
    (chosen : (cfg.current now cache.entries).argmin CacheConfig.rank = some dropped) :
    entry ∈ (cfg.evict cache now).entries ↔
      entry ∈ cfg.current now cache.entries ∧ entry.id ≠ dropped.id := by
  have some' : (cache.keep (!cfg.expired now ·)).entries.length ≠ 0 := by
    rw [entries_keep short]
    exact (length_pos_of_mem (argmin_mem chosen)).ne'
  obtain ⟨turns, count⟩ := Nat.exists_eq_succ_of_ne_zero some'
  rw [CacheConfig.evict, count, evictLoop_of_eq (by rw [entries_keep short, full])
    (by rw [entries_keep short, chosen]), QueryCache.mem_remove, entries_keep short]

theorem rightPut_of_lt (short : cfg.ttlSecs.toNat < 2 ^ 63) (room : 0 < cfg.maxEntries)
    (few : (cfg.current now cache.entries).length < cfg.maxEntries) (uses : List Int) :
    RightPut cfg uses now (cfg.cacheId queryText) cache.entries
      (cfg.put cache now stamp queryText embedding answer chunkIds).entries := by
  refine ⟨length_put_le room .., id_mem_put, ?_, ?_⟩
  · intro entry after other
    rwa [mem_put other, entries_evict_of_lt short few] at after
  · rw [if_pos (.inr few)]
    intro entry member other
    rwa [mem_put other, entries_evict_of_lt short few]

theorem rightPut_of_eq (short : cfg.ttlSecs.toNat < 2 ^ 63) (room : 0 < cfg.maxEntries)
    (full : (cfg.current now cache.entries).length = cfg.maxEntries) (uses : List Int)
    {dropped : CacheEntry E}
    (chosen : (cfg.current now cache.entries).argmin CacheConfig.rank = some dropped) :
    RightPut cfg uses now (cfg.cacheId queryText) cache.entries
        (cfg.put cache now stamp queryText embedding answer chunkIds).entries ↔
      if cfg.cacheId queryText ∈ (cfg.current now cache.entries).map CacheEntry.id then
        dropped.id = cfg.cacheId queryText
      else LeastRecent uses (cfg.current now cache.entries) dropped := by
  have inside : dropped ∈ cfg.current now cache.entries := argmin_mem chosen
  have older : ∀ entry ∈ (cfg.put cache now stamp queryText embedding answer chunkIds).entries,
      entry.id ≠ cfg.cacheId queryText → entry ∈ cfg.current now cache.entries := by
    intro entry after other
    exact ((mem_evict_of_eq short full chosen).mp ((mem_put other).mp after)).1
  -- What is current stays, apart from the entry that is dropped.
  have stays {entry : CacheEntry E} (member : entry ∈ cfg.current now cache.entries)
      (other : entry.id ≠ cfg.cacheId queryText) :
      entry ∈ (cfg.put cache now stamp queryText embedding answer chunkIds).entries ↔
        entry.id ≠ dropped.id := by
    rw [mem_put other, mem_evict_of_eq short full chosen]
    exact and_iff_right member
  rw [RightPut, and_iff_right (length_put_le room ..), and_iff_right id_mem_put,
    and_iff_right older]
  by_cases present : cfg.cacheId queryText ∈ (cfg.current now cache.entries).map CacheEntry.id
  · rw [if_pos (.inl present), if_pos present]
    constructor
    · intro all
      by_contra other
      exact (stays inside other).mp (all dropped inside other) rfl
    · intro same entry member other
      exact (stays member other).mpr (same ▸ other)
  · rw [if_neg (not_or.mpr ⟨present, by omega⟩), if_neg present]
    have others {entry : CacheEntry E} (member : entry ∈ cfg.current now cache.entries) :
        entry.id ≠ cfg.cacheId queryText := fun same =>
      present (mem_map.mpr ⟨entry, member, same⟩)
    constructor
    · rintro ⟨last, member, least, exactly⟩
      have same : last.id = dropped.id := by
        by_contra differ
        exact absurd rfl ((exactly last member).mp ((stays member (others member)).mpr differ))
      intro other also differ
      rw [← same] at differ ⊢
      exact least other also differ
    · intro least
      exact ⟨dropped, inside, least, fun entry member => stays member (others member)⟩

/-- **A put on a cache within its limit.** -/
theorem rightPut_iff (short : cfg.ttlSecs.toNat < 2 ^ 63) (room : 0 < cfg.maxEntries)
    (within : cache.entries.length ≤ cfg.maxEntries) (uses : List Int) :
    RightPut cfg uses now (cfg.cacheId queryText) cache.entries
        (cfg.put cache now stamp queryText embedding answer chunkIds).entries ↔
      (cfg.current now cache.entries).length < cfg.maxEntries ∨
        ∃ dropped ∈ (cfg.current now cache.entries).argmin CacheConfig.rank,
          if cfg.cacheId queryText ∈ (cfg.current now cache.entries).map CacheEntry.id then
            dropped.id = cfg.cacheId queryText
          else LeastRecent uses (cfg.current now cache.entries) dropped := by
  have bound : (cfg.current now cache.entries).length ≤ cfg.maxEntries :=
    (length_filter_le _ _).trans within
  by_cases few : (cfg.current now cache.entries).length < cfg.maxEntries
  · exact iff_of_true (rightPut_of_lt short room few uses) (.inl few)
  · have full : (cfg.current now cache.entries).length = cfg.maxEntries := by omega
    rw [or_iff_right few]
    cases chosen : (cfg.current now cache.entries).argmin CacheConfig.rank with
    | none =>
      rw [argmin_eq_none.mp chosen] at full
      exact absurd full room.ne
    | some dropped =>
      refine (rightPut_of_eq short room full uses chosen).trans ?_
      simp only [Option.mem_def, Option.some.injEq, exists_eq_left']

end Put

end Calls

/-! ## Runs -/

section Runs

variable [LinearOrder S] {cfg : CacheConfig E S}

theorem id_of_get {cache : QueryCache E} {now : Int} {embedding : E} {found : CacheEntry E}
    (hit : found ∈ (cfg.get cache now embedding).1) :
    ∃ entry ∈ cache.entries, cfg.expired now entry = false ∧
      found = { entry with hitCount := entry.hitCount + 1 } := by
  rw [CacheConfig.get] at hit
  cases matched : cfg.bestMatch cache embedding now with
  | none =>
    rw [matched] at hit
    cases hit
  | some id =>
    rw [matched] at hit
    obtain ⟨best, chosen, same⟩ := Option.map_eq_some_iff.mp matched
    obtain ⟨entry, live, scored⟩ := mem_filterMap.mp (argmax_mem chosen)
    obtain ⟨member, fresh⟩ := mem_filter.mp live
    obtain ⟨score, -, rfl⟩ := Option.map_eq_some_iff.mp scored
    have named := List.find?_some hit
    obtain ⟨other, present, rfl⟩ := mem_map.mp (mem_of_find?_eq_some hit)
    have ids : other.id = id := by
      by_contra differ
      rw [if_neg differ] at named
      exact differ (of_decide_eq_true named)
    have own : other = entry := cache.eq_of_id present member (ids.trans same.symm)
    refine ⟨entry, member, Bool.not_eq_true' _ |>.mp fresh, ?_⟩
    rw [if_pos ids, own]

theorem length_get (cache : QueryCache E) (now : Int) (embedding : E) :
    (cfg.get cache now embedding).2.entries.length = cache.entries.length := by
  rw [CacheConfig.get]
  cases cfg.bestMatch cache embedding now with
  | none => rfl
  | some id => exact length_map _

theorem length_relist (cache : QueryCache E) (listing : Listing E) :
    (cache.relist listing).entries.length = cache.entries.length :=
  (listing.perm cache.entries).length_eq

theorem CacheState.within_step (room : 0 < cfg.maxEntries) {state : CacheState E}
    (within : state.cache.entries.length ≤ cfg.maxEntries) (call : CacheCall E) :
    (state.step cfg call).cache.entries.length ≤ cfg.maxEntries := by
  cases call with
  | get now listing embedding =>
    change (cfg.get _ now embedding).2.entries.length ≤ _
    rwa [length_get, length_relist]
  | put => exact length_put_le room ..

theorem CacheState.right_iff (short : cfg.ttlSecs.toNat < 2 ^ 63) (room : 0 < cfg.maxEntries)
    {state : CacheState E} (within : state.cache.entries.length ≤ cfg.maxEntries)
    (call : CacheCall E) : state.Right cfg call ↔ state.DropsRight cfg call := by
  cases call with
  | get now listing embedding =>
    refine iff_of_true ?_ trivial
    intro found hit
    obtain ⟨entry, -, fresh, rfl⟩ := id_of_get hit
    have current : ¬ entry.OutOfDate cfg.ttlSecs now :=
      not_outOfDate_of_not_expired (by rw [fresh]; rfl)
    exact current
  | put now stamp listing queryText embedding answer chunkIds =>
    have relisted := (length_relist state.cache listing).trans_le within
    exact rightPut_iff short room relisted state.uses

/-- **The cache drops the least recently used entries in a run exactly if the one with the fewest
hits is the right one to drop at every put to a full cache.** -/
theorem cachesRecent_iff (short : cfg.ttlSecs.toNat < 2 ^ 63) (room : 0 < cfg.maxEntries)
    (calls : List (CacheCall E)) :
    Meets (CacheState.step cfg) (CacheState.Right cfg) .start calls ↔
      Meets (CacheState.step cfg) (CacheState.DropsRight cfg) .start calls := by
  have kept (state : CacheState E) (call : CacheCall E)
      (within : state.cache.entries.length ≤ cfg.maxEntries) :
      (state.step cfg call).cache.entries.length ≤ cfg.maxEntries :=
    CacheState.within_step room within call
  exact meets_congr kept (fun state call within => CacheState.right_iff short room within call)
    (Nat.zero_le _) calls

/-! ## Examples -/

instance (uses : List Int) (entries : List (CacheEntry E)) (entry : CacheEntry E) :
    Decidable (LeastRecent uses entries entry) := by
  unfold LeastRecent
  infer_instance

instance [DecidableEq E] (cfg : CacheConfig E S) (state : CacheState E) :
    DecidablePred (state.Right cfg)
  | .get .. => by
    unfold CacheState.Right
    infer_instance
  | .put .. => by
    unfold CacheState.Right RightPut
    infer_instance

instance (cfg : CacheConfig E S) (state : CacheState E) : DecidablePred (state.DropsRight cfg)
  | .get .. => .isTrue trivial
  | .put .. => by
    unfold CacheState.DropsRight
    infer_instance

end Runs

end

/-- A cache for two answers; equal embeddings are similar. -/
def smallCache : CacheConfig Nat Nat where
  ttlSecs := 86400
  maxEntries := 2
  similarity first second := if first = second then some 1 else none
  cacheId text := text.length

def asKept : Listing Nat := ⟨id, fun _ => .refl _⟩

def ask (now : Int) (query : String) : CacheCall Nat := .get now asKept query.length

def answer (now : Int) (query : String) : CacheCall Nat :=
  .put now now asKept query query.length "answer" []

theorem unhitAnswers_recent : smallCache.ttlSecs.toNat < 2 ^ 63 ∧ 0 < smallCache.maxEntries ∧
    Meets (CacheState.step smallCache) (CacheState.Right smallCache) .start
      [answer 0 "a", answer 1 "ab", ask 2 "abc", answer 3 "abc", ask 4 "a", answer 5 "ab"] :=
  ⟨by decide, by decide, (cachesRecent_iff (by decide) (by decide) _).mpr (by decide +kernel)⟩

/-- The first answer was found once, and then never again. The second one is newer, but it goes. -/
theorem hitAnswer_stays :
    ¬ Meets (CacheState.step smallCache) (CacheState.Right smallCache) .start
      [answer 0 "a", ask 1 "a", answer 2 "ab", answer 3 "abc"] ∧
    ([answer 0 "a", ask 1 "a", answer 2 "ab", answer 3 "abc"].foldl (CacheState.step smallCache)
      .start).cache.entries.map CacheEntry.queryText = ["abc", "a"] := by
  decide +kernel

end KwaaiNet.Rag
