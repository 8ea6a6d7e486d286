import Mathlib
import KwaaiNet.Inference.Tensor

/-! # Transformer shards and their sessions

A shard runs its blocks in turn and each block keeps, for every session, the keys and
values of the positions it has seen. A block appends what it is given: it does not
compare `seq_pos` with the number of positions it holds. The weights enter only through
two functions of a block, what it stores for a position and what it computes from the
visible ones; the shapes at which the tensor library fails are those of the CPU build
without fused attention.
-/

namespace KwaaiNet

open List

/-- Keys and values of one position. `position` is the rotary position the key was
rotated by; the library does not store it apart. -/
structure Slot where
  position : Nat
  keys : Row
  values : Row
  deriving DecidableEq

/-- The cached keys and values of one block, of a fixed batch size. -/
structure KvCache where
  batch : Nat
  slots : List Slot
  deriving DecidableEq

/-- A transformer block, as a function of rows. -/
structure ShardBlock where
  project : Row → Nat → Row × Row
  attend : Row → Nat → List (Row × Row) → Row

/-- The part of the configuration that the shape checks read. -/
structure ShardConfig where
  numTotalBlocks : Nat
  hiddenDim : Nat
  vocabSize : Nat
  maxSeqLen : Nat

/-- How many cached keys the query at `index` sees: all of them for a single token, and
those that the causal mask leaves otherwise. -/
def visibleKeys (length seqPos index cached : Nat) : Nat :=
  if 1 < length then min (seqPos + index + 1) cached else cached

namespace ShardBlock

variable (block : ShardBlock) (cfg : ShardConfig)

def newSlots (seqPos : Nat) (rows : List Row) : List Slot :=
  rows.mapIdx fun index row =>
    ⟨seqPos + index, (block.project row (seqPos + index)).1, (block.project row (seqPos + index)).2⟩

/-- The rows computed from a cache that already holds those of the call. -/
def attended (seqPos : Nat) (rows : List Row) (slots : List Slot) : List Row :=
  rows.mapIdx fun index row => block.attend row (seqPos + index)
    ((slots.take (visibleKeys rows.length seqPos index slots.length)).map fun slot =>
      (slot.keys, slot.values))

/-- `ShardBlock::forward`. The cache is taken out before the concatenation that can
fail, so that failure leaves the block without a cache. -/
def forward (x : Tensor) (seqPos : Nat) (kv : Option KvCache) :
    Option KvCache × Except Fault Tensor :=
  match x.dims with
  | [batch, length, dim] =>
    if dim ≠ cfg.hiddenDim then (kv, .error (.hiddenSize dim))
    else if cfg.maxSeqLen < seqPos + length then (kv, .error (.ropeRange seqPos length))
    else
      let rows := Tensor.rows batch length dim x.data
      let fresh := block.newSlots seqPos rows
      match kv with
      | some cache =>
        if cache.batch ≠ batch then (none, .error (.cat cache.batch batch))
        else
          let slots := cache.slots ++ fresh
          (some ⟨batch, slots⟩, .ok (.ofRows batch dim (block.attended seqPos rows slots)))
      | none =>
        (some ⟨batch, fresh⟩, .ok (.ofRows batch dim (block.attended seqPos rows fresh)))
  | dims => (kv, .error (.rank dims))

end ShardBlock

/-- The loop of `run_blocks`. -/
def forwardBlocks (cfg : ShardConfig) (seqPos : Nat) :
    List ShardBlock → List (Option KvCache) → Tensor →
      List (Option KvCache) × Except Fault Tensor
  | block :: blocks, kv :: kvs, x =>
    match block.forward cfg x seqPos kv with
    | (kv, .ok x) =>
      let (kvs, result) := forwardBlocks cfg seqPos blocks kvs x
      (kv :: kvs, result)
    | (kv, .error fault) => (kv :: kvs, .error fault)
  | _, kvs, x => (kvs, .ok x)

@[simp] theorem length_forwardBlocks (cfg : ShardConfig) (seqPos : Nat)
    (blocks : List ShardBlock) (kvs : List (Option KvCache)) (x : Tensor) :
    (forwardBlocks cfg seqPos blocks kvs x).1.length = kvs.length := by
  induction blocks generalizing kvs x with
  | nil => rfl
  | cons block blocks ih =>
    cases kvs with
    | nil => rfl
    | cons kv kvs =>
      unfold forwardBlocks
      split
      case h_1 => rw [length_cons, length_cons, ih]
      case h_2 => rfl

/-! ## What the blocks do to their caches -/

/-- The slots a block holds; none before its first call. -/
def heldSlots (kv : Option KvCache) : List Slot := kv.elim [] KvCache.slots

def heldPositions (kv : Option KvCache) : List Nat := (heldSlots kv).map Slot.position

def conflicts (batch : Nat) (kv : Option KvCache) : Bool := kv.any fun cache => cache.batch ≠ batch

/-- The tensor passes the shape checks of a block. -/
structure Fits (cfg : ShardConfig) (seqPos batch length : Nat) (x : Tensor) : Prop where
  dims : x.dims = [batch, length, cfg.hiddenDim]
  inRange : seqPos + length ≤ cfg.maxSeqLen

/-- The cache after a call that appended `length` positions. -/
def Extended (seqPos batch length : Nat) (before after : Option KvCache) : Prop :=
  ∃ fresh, fresh.map Slot.position = List.range' seqPos length ∧
    after = some ⟨batch, heldSlots before ++ fresh⟩

variable {cfg : ShardConfig} {seqPos batch length : Nat} {x : Tensor}

theorem Extended.heldPositions_eq {before after : Option KvCache}
    (extended : Extended seqPos batch length before after) :
    heldPositions after = heldPositions before ++ List.range' seqPos length := by
  obtain ⟨fresh, positions, rfl⟩ := extended
  rw [← positions]
  exact map_append

theorem Extended.conflicts_eq {before after : Option KvCache}
    (extended : Extended seqPos batch length before after) : conflicts batch after = false := by
  obtain ⟨fresh, _, rfl⟩ := extended
  simp [conflicts]

/-- Appending nothing twice is appending nothing once. -/
theorem Extended.eq_of_length_zero {before middle after : Option KvCache}
    (first : Extended seqPos batch 0 before middle)
    (second : Extended seqPos batch 0 middle after) : middle = after := by
  obtain ⟨fresh, positions, rfl⟩ := first
  obtain ⟨again, none, rfl⟩ := second
  obtain rfl : again = [] := map_eq_nil_iff.mp none
  simp [heldSlots]

namespace ShardBlock

theorem newSlots_positions (block : ShardBlock) (seqPos : Nat) (rows : List Row) :
    (block.newSlots seqPos rows).map Slot.position = List.range' seqPos rows.length := by
  apply ext_getElem
  · simp [newSlots]
  · intro index _ _
    simp [newSlots]

theorem forward_extends (block : ShardBlock) (fits : Fits cfg seqPos batch length x)
    {kv : Option KvCache} (agrees : conflicts batch kv = false) :
    ∃ after y, block.forward cfg x seqPos kv = (after, .ok y) ∧
      Extended seqPos batch length kv after ∧ Fits cfg seqPos batch length y ∧
      (length = 0 → y = .ofRows batch cfg.hiddenDim []) := by
  let rows := Tensor.rows batch length cfg.hiddenDim x.data
  let slots := heldSlots kv ++ block.newSlots seqPos rows
  let y := Tensor.ofRows batch cfg.hiddenDim (block.attended seqPos rows slots)
  have rowCount : rows.length = length := Tensor.length_rows _ _ _ _
  have inRange : ¬ cfg.maxSeqLen < seqPos + length := not_lt.mpr fits.inRange
  refine ⟨some ⟨batch, slots⟩, y, ?_, ⟨_, ?_, rfl⟩, ⟨?_, fits.inRange⟩, ?_⟩
  · unfold forward
    rw [fits.dims]
    cases kv with
    | none => simp [inRange, y, slots, rows, heldSlots]
    | some cache =>
      have same : cache.batch = batch := by simpa [conflicts] using agrees
      simp [inRange, same, y, slots, rows, heldSlots]
  · rw [newSlots_positions, rowCount]
  · simp [y, Tensor.ofRows, attended, rowCount]
  · intro empty
    have noRows : rows = [] := eq_nil_of_length_eq_zero (rowCount.trans empty)
    simp [y, attended, noRows]

theorem forward_conflicts (block : ShardBlock) (fits : Fits cfg seqPos batch length x)
    {kv : Option KvCache} (disagrees : conflicts batch kv = true) :
    ∃ fault, block.forward cfg x seqPos kv = (none, .error fault) := by
  have inRange : ¬ cfg.maxSeqLen < seqPos + length := not_lt.mpr fits.inRange
  unfold forward
  rw [fits.dims]
  cases kv with
  | none => simp [conflicts] at disagrees
  | some cache =>
    have other : cache.batch ≠ batch := by simpa [conflicts] using disagrees
    exact ⟨.cat cache.batch batch, by simp [inRange, other]⟩

theorem forward_unfit (block : ShardBlock) (kv : Option KvCache)
    (unfit : ∀ batch length, ¬ Fits cfg seqPos batch length x) :
    ∃ fault, block.forward cfg x seqPos kv = (kv, .error fault) := by
  unfold forward
  split
  case h_1 batch length dim dims =>
    by_cases size : dim = cfg.hiddenDim
    · subst size
      have outside : cfg.maxSeqLen < seqPos + length :=
        not_le.mp fun inRange => unfit batch length ⟨dims, inRange⟩
      exact ⟨.ropeRange seqPos length, by simp [outside]⟩
    · exact ⟨.hiddenSize dim, by simp [size]⟩
  case h_2 => exact ⟨_, rfl⟩

end ShardBlock

theorem forwardBlocks_extends (blocks : List ShardBlock) {kvs : List (Option KvCache)}
    (complete : kvs.length = blocks.length) (fits : Fits cfg seqPos batch length x)
    (agree : ∀ kv ∈ kvs, conflicts batch kv = false) :
    ∃ after y, forwardBlocks cfg seqPos blocks kvs x = (after, .ok y) ∧
      List.Forall₂ (Extended seqPos batch length) kvs after ∧ Fits cfg seqPos batch length y ∧
      (length = 0 → blocks ≠ [] → y = .ofRows batch cfg.hiddenDim []) := by
  induction blocks generalizing kvs x with
  | nil =>
    obtain rfl := length_eq_zero_iff.mp complete
    exact ⟨[], x, rfl, .nil, fits, fun _ nonempty => absurd rfl nonempty⟩
  | cons block blocks ih =>
    obtain ⟨kv, kvs, rfl⟩ := exists_cons_of_length_eq_add_one complete
    obtain ⟨first, rest⟩ := forall_mem_cons.mp agree
    obtain ⟨kv', y, ran, extended, fitsY, emptyY⟩ := block.forward_extends fits first
    obtain ⟨kvs', z, ranRest, extendedRest, fitsZ, emptyZ⟩ :=
      ih (Nat.succ.inj complete) fitsY rest
    refine ⟨kv' :: kvs', z, ?_, .cons extended extendedRest, fitsZ, fun empty _ => ?_⟩
    · simp only [forwardBlocks, ran, ranRest]
    · by_cases more : blocks = []
      · subst more
        obtain rfl := length_eq_zero_iff.mp (Nat.succ.inj complete)
        obtain ⟨-, result⟩ := Prod.mk.inj ranRest
        exact (Except.ok.inj result).symm.trans (emptyY empty)
      · exact emptyZ empty more

theorem forwardBlocks_conflicts (blocks : List ShardBlock) {front back : List (Option KvCache)}
    {kv : Option KvCache} (complete : (front ++ kv :: back).length = blocks.length)
    (fits : Fits cfg seqPos batch length x) (agree : ∀ kv ∈ front, conflicts batch kv = false)
    (disagrees : conflicts batch kv = true) :
    ∃ after fault, forwardBlocks cfg seqPos blocks (front ++ kv :: back) x =
        (after ++ none :: back, .error fault) ∧
      List.Forall₂ (Extended seqPos batch length) front after := by
  induction front generalizing blocks x with
  | nil =>
    obtain ⟨block, blocks, rfl⟩ := exists_cons_of_length_eq_add_one complete.symm
    obtain ⟨fault, failed⟩ := block.forward_conflicts fits disagrees
    exact ⟨[], fault, by simp only [nil_append, forwardBlocks, failed], .nil⟩
  | cons kv₀ front ih =>
    obtain ⟨block, blocks, rfl⟩ := exists_cons_of_length_eq_add_one complete.symm
    obtain ⟨first, rest⟩ := forall_mem_cons.mp agree
    obtain ⟨kv', y, ran, extended, fitsY, -⟩ := block.forward_extends fits first
    obtain ⟨after, fault, ranRest, extendedRest⟩ := ih blocks (Nat.succ.inj complete) fitsY rest
    exact ⟨kv' :: after, fault, by simp only [cons_append, forwardBlocks, ran, ranRest],
      .cons extended extendedRest⟩

theorem forwardBlocks_unfit {blocks : List ShardBlock} (nonempty : blocks ≠ [])
    {kvs : List (Option KvCache)} (complete : kvs.length = blocks.length)
    (unfit : ∀ batch length, ¬ Fits cfg seqPos batch length x) :
    ∃ fault, forwardBlocks cfg seqPos blocks kvs x = (kvs, .error fault) := by
  obtain ⟨block, blocks, rfl⟩ := exists_cons_of_ne_nil nonempty
  obtain ⟨kv, kvs, rfl⟩ := exists_cons_of_length_eq_add_one complete
  obtain ⟨fault, failed⟩ := block.forward_unfit kv unfit
  exact ⟨fault, by simp only [forwardBlocks, failed]⟩

theorem eq_of_extended_of_length_zero {before middle after : List (Option KvCache)}
    (first : List.Forall₂ (Extended seqPos batch 0) before middle)
    (second : List.Forall₂ (Extended seqPos batch 0) middle after) : middle = after := by
  induction first generalizing after with
  | nil =>
    cases second
    rfl
  | cons head _ ih =>
    cases second with
    | cons next rest => rw [head.eq_of_length_zero next, ih rest]

def slotCount (kvs : List (Option KvCache)) : Nat := (kvs.map fun kv => (heldSlots kv).length).sum

theorem slotCount_of_extended {before after : List (Option KvCache)}
    (extended : List.Forall₂ (Extended seqPos batch length) before after) :
    slotCount after = slotCount before + before.length * length := by
  induction extended with
  | nil => simp [slotCount]
  | @cons kv kv' before after first _ ih =>
    obtain ⟨fresh, positions, rfl⟩ := first
    have count : fresh.length = length := by
      rw [← length_map (f := Slot.position), positions, length_range']
    unfold slotCount at ih ⊢
    rw [map_cons, map_cons, sum_cons, sum_cons, ih, length_cons]
    simp only [heldSlots, Option.elim_some, length_append, count]
    ring

theorem countP_conflicts_of_extended {before after : List (Option KvCache)}
    (extended : List.Forall₂ (Extended seqPos batch length) before after) :
    after.countP (conflicts batch) = 0 := by
  induction extended with
  | nil => rfl
  | cons first _ ih =>
    rw [countP_cons_of_neg, ih]
    simp [first.conflicts_eq]

/-! ## Shards -/

/-- A loaded shard: at least one block, and no block beyond the model. -/
structure TransformerShard where
  cfg : ShardConfig
  startBlock : Nat
  endBlock : Nat
  blocks : List ShardBlock
  embedding : UInt32 → Row
  head : Row → Row
  nonempty : startBlock < endBlock
  inside : endBlock ≤ cfg.numTotalBlocks
  loaded : blocks.length = endBlock - startBlock

/-- A session: one cache for each block of the shard, and the time of its last call in
nanoseconds. -/
structure Session (blocks : Nat) where
  kv : List (Option KvCache)
  lastAccess : Nat
  complete : kv.length = blocks

namespace TransformerShard

variable (shard : TransformerShard)

abbrev Sessions := UInt64 → Option (Session shard.blocks.length)

/-- `Session::new`. -/
def newSession (now : Nat) : Session shard.blocks.length where
  kv := List.replicate shard.blocks.length none
  lastAccess := now
  complete := length_replicate

/-- `is_first`. -/
def isFirst : Bool := shard.startBlock = 0

/-- `is_last`. -/
def isLast : Bool := shard.endBlock = shard.cfg.numTotalBlocks

/-- `gc_sessions`: sessions idle for 600 seconds are dropped. -/
def gcSessions (now : Nat) (sessions : shard.Sessions) : shard.Sessions := fun id =>
  (sessions id).filter fun session => (now - session.lastAccess) / 10 ^ 9 < 600

def heldCaches (sessions : shard.Sessions) (id : UInt64) : List (Option KvCache) :=
  (sessions id).elim (List.replicate shard.blocks.length none) Session.kv

theorem length_heldCaches (sessions : shard.Sessions) (id : UInt64) :
    (shard.heldCaches sessions id).length = shard.blocks.length := by
  unfold heldCaches
  cases sessions id with
  | none => exact length_replicate
  | some session => exact session.complete

/-- `run_blocks`: the session is opened on demand, whatever the position. -/
def runBlocks (now : Nat) (x : Tensor) (seqPos : Nat) (id : UInt64) (sessions : shard.Sessions) :
    shard.Sessions × Except Fault Tensor :=
  let session := (sessions id).getD (shard.newSession now)
  let ran := forwardBlocks shard.cfg seqPos shard.blocks session.kv x
  (Function.update sessions id (some {
      kv := ran.1
      lastAccess := now
      complete := (length_forwardBlocks _ _ _ _ _).trans session.complete }), ran.2)

theorem blocks_ne_nil : shard.blocks ≠ [] := by
  intro none
  have loaded := shard.loaded
  have nonempty := shard.nonempty
  rw [none, length_nil] at loaded
  omega

variable {shard} in
theorem kv_getD_newSession (sessions : shard.Sessions) (id : UInt64) (now : Nat) :
    ((sessions id).getD (shard.newSession now)).kv = shard.heldCaches sessions id := by
  unfold heldCaches
  cases sessions id <;> rfl

theorem runBlocks_snd (now : Nat) (x : Tensor) (seqPos : Nat) (id : UInt64)
    (sessions : shard.Sessions) :
    (shard.runBlocks now x seqPos id sessions).2 =
      (forwardBlocks shard.cfg seqPos shard.blocks (shard.heldCaches sessions id) x).2 := by
  rw [← kv_getD_newSession sessions id now]
  rfl

theorem heldCaches_runBlocks (now : Nat) (x : Tensor) (seqPos : Nat) (id : UInt64)
    (sessions : shard.Sessions) :
    shard.heldCaches (shard.runBlocks now x seqPos id sessions).1 id =
      (forwardBlocks shard.cfg seqPos shard.blocks (shard.heldCaches sessions id) x).1 := by
  rw [← kv_getD_newSession sessions id now]
  simp [heldCaches, runBlocks]

end TransformerShard

end KwaaiNet
