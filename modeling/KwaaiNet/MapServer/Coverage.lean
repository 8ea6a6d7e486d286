import Mathlib
import KwaaiNet.Foundation.Execution
import KwaaiNet.Foundation.Expiry
import KwaaiNet.Foundation.MachineNumber
import KwaaiNet.Routing.Rebalancer

/-! # The coverage that the map server reports

The map server crawls the DHT, keeps the nodes it finds for a while and reports which share of the
blocks of a model they serve. Nodes announce half-open ranges of blocks; the server takes the end of
a range as its last block. `KwaaiNet.MapServer.reportsTrueCoverage_iff` says when this makes no
difference.
-/

namespace KwaaiNet.MapServer

open Foundation List

inductive TrustTier where
  | unknown
  | known
  | verified
  | trusted
  deriving DecidableEq

/-- `tier_from_vc_count`. -/
def tierFromVcCount (count : Nat) : TrustTier :=
  if count = 0 then .unknown
  else if count ≤ 2 then .known
  else if count ≤ 4 then .verified
  else .trusted

/-- What the DHT says about one peer. Block numbers have 64 bits. -/
structure NodeEntry where
  peerId : String
  trustTier : TrustTier
  startBlock : Nat
  endBlock : Nat
  start_lt : startBlock < 2 ^ 64
  end_lt : endBlock < 2 ^ 64
  throughput : FloatValue
  publicName : String
  version : String
  vpk : Bool
  lastSeen : ℚ
  deriving DecidableEq

/-- `NodeEntry::is_active`. -/
def NodeEntry.isActive (node : NodeEntry) : Bool := (FloatValue.finite 0).below node.throughput

/-! ## Crawling -/

structure NodeCache where
  inner : Table String NodeEntry
  ttlSecs : Nat

namespace NodeCache

/-- `NodeCache::new`. -/
def new (ttlSecs : Nat) : NodeCache := ⟨∅, ttlSecs⟩

/-- `upsert`. -/
def upsert (cache : NodeCache) (node : NodeEntry) : NodeCache :=
  { cache with inner := cache.inner.insert node.peerId node }

/-- The first entry of each peer, as `entry(..).or_insert(..)` keeps it. -/
def discover (nodes : List NodeEntry) : Table String NodeEntry :=
  nodes.foldl (fun discovered node =>
    if (discovered.lookup node.peerId).isSome then discovered
    else discovered.insert node.peerId node) ∅

/-- `crawl_once`: the nodes of all answers are put into the cache. -/
def crawlOnce (cache : NodeCache) (nodes : List NodeEntry) : NodeCache :=
  ((discover nodes).entries.map Sigma.snd).foldl upsert cache

/-- `snapshot`: the nodes seen less than the time to live ago; all others are evicted. -/
def snapshot (cache : NodeCache) (now : ℚ) : NodeCache × List NodeEntry :=
  let seen : NodeEntry → ℚ → Bool := fun node now => now - cache.ttlSecs < node.lastSeen
  let fresh := cache.inner.purge seen now
  ({ cache with inner := fresh }, fresh.entries.map Sigma.snd)

end NodeCache

/-! ## Statistics -/

structure NetworkStats where
  nodeCount : Nat
  tokensPerSec : FloatValue
  coveragePct : ℚ
  activeSessions : Nat

def markBlocks (first last : Nat) (covered : List Bool) : List Bool :=
  (List.range' first (last + 1 - first)).foldl
    (fun covered b => if b < covered.length then covered.set b true else covered) covered

/-- The blocks that `stats` marks as covered. -/
def coveredBlocks (nodes : List NodeEntry) (totalBlocks : Nat) : List Bool :=
  nodes.foldl (fun covered node =>
    markBlocks node.startBlock (min node.endBlock (totalBlocks - 1)) covered)
      (List.replicate (max totalBlocks 1) false)

def statsOf (nodes : List NodeEntry) (totalBlocks : Nat) : NetworkStats where
  nodeCount := nodes.length
  tokensPerSec := (nodes.map NodeEntry.throughput).foldl FloatValue.add (.finite 0)
  coveragePct :=
    if totalBlocks = 0 then 0
    else (coveredBlocks nodes totalBlocks).count true / totalBlocks * 100
  activeSessions := nodes.countP NodeEntry.isActive

/-- `NodeCache::stats`. -/
def NodeCache.stats (cache : NodeCache) (now : ℚ) (totalBlocks : Nat) : NodeCache × NetworkStats :=
  ((cache.snapshot now).1, statsOf (cache.snapshot now).2 totalBlocks)

/-! ## Records -/

/-- The signed integer whose cast to `usize` a block number is. -/
def i64OfUsize (number : Nat) : Int := if number < 2 ^ 63 then number else number - 2 ^ 64

theorem i64OfUsize_of_nonneg {number : Nat} (small : number < 2 ^ 64)
    (nonneg : 0 ≤ i64OfUsize number) : i64OfUsize number = number := by
  rw [i64OfUsize] at nonneg ⊢
  split_ifs at nonneg ⊢ with positive
  · rfl
  · omega

theorem foldl_set_eq_mapIdx (blocks : List Nat) (covered : List Bool) :
    blocks.foldl (fun covered b => if b < covered.length then covered.set b true else covered)
        covered = covered.mapIdx fun b mark => mark || decide (b ∈ blocks) := by
  induction blocks generalizing covered with
  | nil => exact ext_getElem? fun b => by simp
  | cons block blocks ih =>
    rw [foldl_cons, ih]
    apply ext_getElem?
    intro b
    split_ifs with inside
    · rw [List.getElem?_mapIdx, List.getElem?_mapIdx, List.getElem?_set]
      by_cases same : block = b
      · subst same
        simp [inside]
      · simp [same, Ne.symm same]
    · rw [List.getElem?_mapIdx, List.getElem?_mapIdx]
      by_cases same : block = b
      · subst same
        simp [List.getElem?_eq_none (not_lt.mp inside)]
      · simp [Ne.symm same]

theorem markBlocks_eq_mapIdx (first last : Nat) (covered : List Bool) :
    markBlocks first last covered =
      covered.mapIdx fun b mark => mark || decide (first ≤ b ∧ b ≤ last) := by
  rw [markBlocks, foldl_set_eq_mapIdx]
  congr 1
  funext b mark
  refine congrArg (mark || ·) (decide_eq_decide.mpr ?_)
  rw [mem_range'_1]
  constructor <;> intro within <;> omega

/-- A node that `stats` takes to serve a block. -/
def NodeEntry.Counted (node : NodeEntry) (totalBlocks b : Nat) : Prop :=
  node.startBlock ≤ b ∧ b ≤ min node.endBlock (totalBlocks - 1)

instance (node : NodeEntry) (totalBlocks b : Nat) : Decidable (node.Counted totalBlocks b) :=
  inferInstanceAs (Decidable (_ ∧ _))

theorem coveredBlocks_eq (nodes : List NodeEntry) (totalBlocks : Nat) :
    coveredBlocks nodes totalBlocks = (List.range (max totalBlocks 1)).map fun b =>
      decide (∃ node ∈ nodes, node.Counted totalBlocks b) := by
  have marked (covered : List Bool) : nodes.foldl (fun covered node =>
      markBlocks node.startBlock (min node.endBlock (totalBlocks - 1)) covered) covered =
        covered.mapIdx fun b mark =>
          mark || decide (∃ node ∈ nodes, node.Counted totalBlocks b) := by
    induction nodes generalizing covered with
    | nil => exact ext_getElem? fun b => by simp
    | cons node nodes ih =>
      rw [foldl_cons, ih, markBlocks_eq_mapIdx, mapIdx_mapIdx]
      congr 1
      funext b mark
      rw [Function.comp_apply, Bool.or_assoc, ← Bool.decide_or]
      refine congrArg (mark || ·) (decide_eq_decide.mpr ?_)
      exact (exists_mem_cons_iff (NodeEntry.Counted · totalBlocks b) node nodes).symm
  rw [coveredBlocks, marked]
  refine ext_getElem? fun b => ?_
  by_cases inside : b < max totalBlocks 1 <;> simp [inside]

def NodeEntry.Announces (node : NodeEntry) (b : Nat) : Prop :=
  i64OfUsize node.startBlock ≤ b ∧ b < i64OfUsize node.endBlock

instance (node : NodeEntry) (b : Nat) : Decidable (node.Announces b) :=
  inferInstanceAs (Decidable (_ ∧ _))

def announcedCount (nodes : List NodeEntry) (totalBlocks : Nat) : Nat :=
  ((Finset.range totalBlocks).filter fun b => ∃ node ∈ nodes, node.Announces b).card

/-- **True coverage.** The reported percentage is that of the blocks that are announced, and it is
100 exactly if the client finds no gap in a chain with the same ranges. -/
structure ReportsTrueCoverage (cache : NodeCache) (now : ℚ) (totalBlocks : Nat) : Prop where
  percentage : (cache.stats now totalBlocks).2.coveragePct * totalBlocks =
    100 * announcedCount (cache.snapshot now).2 totalBlocks
  full : ∀ chain : List BlockServerEntry,
    chain.map (fun entry => (entry.startBlock, entry.endBlock)) =
      (cache.snapshot now).2.map (fun node => (node.startBlock, node.endBlock)) →
    ((cache.stats now totalBlocks).2.coveragePct = 100 ↔ coverageCheck chain totalBlocks = .ok true)

/-- The range is in order and starts within the model. -/
structure NodeEntry.InOrder (node : NodeEntry) (totalBlocks : Nat) : Prop where
  nonneg : 0 ≤ i64OfUsize node.startBlock
  ordered : i64OfUsize node.startBlock ≤ i64OfUsize node.endBlock
  inside : i64OfUsize node.startBlock ≤ totalBlocks

def EndsServed (nodes : List NodeEntry) (totalBlocks : Nat) : Prop :=
  ∀ node ∈ nodes, node.endBlock < totalBlocks → ∃ other ∈ nodes, other.Announces node.endBlock

variable {nodes : List NodeEntry} {totalBlocks : Nat}

theorem count_coveredBlocks (nodes : List NodeEntry) (positive : 1 ≤ totalBlocks) :
    (coveredBlocks nodes totalBlocks).count true =
      ((Finset.range totalBlocks).filter fun b =>
        ∃ node ∈ nodes, node.Counted totalBlocks b).card := by
  rw [coveredBlocks_eq, max_eq_left positive, count_eq_countP, countP_map,
    ← Nat.count_eq_card_filter_range, Nat.count]
  congr 1
  funext b
  simp

theorem NodeEntry.InOrder.blocks {node : NodeEntry} (ordered : node.InOrder totalBlocks) :
    i64OfUsize node.startBlock = node.startBlock ∧ i64OfUsize node.endBlock = node.endBlock :=
  ⟨i64OfUsize_of_nonneg node.start_lt ordered.nonneg,
    i64OfUsize_of_nonneg node.end_lt (ordered.nonneg.trans ordered.ordered)⟩

theorem NodeEntry.InOrder.announces_iff {node : NodeEntry} (ordered : node.InOrder totalBlocks)
    (b : Nat) : node.Announces b ↔ node.startBlock ≤ b ∧ b < node.endBlock := by
  rw [Announces, ordered.blocks.1, ordered.blocks.2, Nat.cast_le, Nat.cast_lt]

theorem NodeEntry.InOrder.counted_iff {node : NodeEntry} (ordered : node.InOrder totalBlocks)
    {b : Nat} (inside : b < totalBlocks) :
    node.Counted totalBlocks b ↔ node.Announces b ∨ b = node.endBlock := by
  have within := ordered.ordered
  rw [ordered.blocks.1, ordered.blocks.2] at within
  rw [ordered.announces_iff, Counted]
  omega

theorem count_coveredBlocks_eq_iff (positive : 1 ≤ totalBlocks)
    (ordered : ∀ node ∈ nodes, node.InOrder totalBlocks) :
    (coveredBlocks nodes totalBlocks).count true = announcedCount nodes totalBlocks ↔
      EndsServed nodes totalBlocks := by
  have subset : ((Finset.range totalBlocks).filter fun b => ∃ node ∈ nodes, node.Announces b) ⊆
      (Finset.range totalBlocks).filter fun b => ∃ node ∈ nodes, node.Counted totalBlocks b := by
    intro b announced
    obtain ⟨inside, node, member, announces⟩ := Finset.mem_filter.mp announced
    refine Finset.mem_filter.mpr ⟨inside, node, member, ?_⟩
    exact ((ordered node member).counted_iff (Finset.mem_range.mp inside)).mpr (.inl announces)
  rw [count_coveredBlocks nodes positive, announcedCount]
  constructor
  · intro same node member inside
    have counted : node.endBlock ∈ (Finset.range totalBlocks).filter fun b =>
        ∃ node ∈ nodes, node.Counted totalBlocks b := by
      refine Finset.mem_filter.mpr ⟨Finset.mem_range.mpr inside, node, member, ?_⟩
      exact ((ordered node member).counted_iff inside).mpr (.inr rfl)
    rw [← Finset.eq_of_subset_of_card_le subset same.le] at counted
    exact (Finset.mem_filter.mp counted).2
  · intro served
    refine congrArg Finset.card (subset.antisymm' fun b counted => ?_)
    obtain ⟨inside, node, member, counts⟩ := Finset.mem_filter.mp counted
    refine Finset.mem_filter.mpr ⟨inside, ?_⟩
    rcases ((ordered node member).counted_iff (Finset.mem_range.mp inside)).mp counts with
      announces | rfl
    · exact ⟨node, member, announces⟩
    · exact served node member (Finset.mem_range.mp inside)

theorem exists_partner {α β γ : Type*} {first : List α} {second : List β} {f : α → γ} {g : β → γ}
    (same : first.map f = second.map g) {item : α} (member : item ∈ first) :
    ∃ partner ∈ second, g partner = f item := by
  have mapped : f item ∈ first.map f := mem_map_of_mem member
  rw [same] at mapped
  exact mem_map.mp mapped

section Chain

variable {chain : List BlockServerEntry}
  (same : chain.map (fun entry => (entry.startBlock, entry.endBlock)) =
    nodes.map fun node => (node.startBlock, node.endBlock))
  (ordered : ∀ node ∈ nodes, node.InOrder totalBlocks)

include same ordered

theorem startBlock_le_of_inOrder {entry : BlockServerEntry} (member : entry ∈ chain) :
    entry.startBlock ≤ min entry.endBlock totalBlocks := by
  obtain ⟨node, present, range⟩ := exists_partner same member
  obtain ⟨starts, ends⟩ := Prod.mk.inj range
  have inOrder := ordered node present
  have within := inOrder.ordered
  have inside := inOrder.inside
  rw [inOrder.blocks.1, inOrder.blocks.2] at within
  rw [inOrder.blocks.1] at inside
  omega

theorem exists_covers_iff (b : Nat) :
    (∃ entry ∈ chain, entry.covers b = true) ↔ ∃ node ∈ nodes, node.Announces b := by
  constructor
  · rintro ⟨entry, member, covers⟩
    obtain ⟨node, present, range⟩ := exists_partner same member
    obtain ⟨starts, ends⟩ := Prod.mk.inj range
    refine ⟨node, present, ((ordered node present).announces_iff b).mpr ?_⟩
    rw [starts, ends]
    exact BlockServerEntry.covers_iff.mp covers
  · rintro ⟨node, member, announces⟩
    obtain ⟨entry, present, range⟩ := exists_partner same.symm member
    obtain ⟨starts, ends⟩ := Prod.mk.inj range
    refine ⟨entry, present, BlockServerEntry.covers_iff.mpr ?_⟩
    rw [starts, ends]
    exact ((ordered node member).announces_iff b).mp announces

theorem coverageCheck_eq_ok_true_iff :
    coverageCheck chain totalBlocks = .ok true ↔
      announcedCount nodes totalBlocks = totalBlocks := by
  have all : announcedCount nodes totalBlocks = totalBlocks ↔
      ∀ b < totalBlocks, ∃ node ∈ nodes, node.Announces b := by
    conv_lhs => rhs; rw [← Finset.card_range totalBlocks]
    rw [announcedCount, Finset.card_filter_eq_iff]
    simp only [Finset.mem_range]
  rw [coverageCheck_eq_ok_iff, all]
  simp only [true_iff, exists_covers_iff same ordered]
  exact and_iff_right fun entry member => startBlock_le_of_inOrder same ordered member

end Chain

def servingNode (peerId : String) (startBlock endBlock : UInt64) : NodeEntry where
  peerId
  trustTier := .unknown
  startBlock := startBlock.toNat
  endBlock := endBlock.toNat
  start_lt := startBlock.toNat_lt
  end_lt := endBlock.toNat_lt
  throughput := .finite 1
  publicName := peerId
  version := "0.4.0"
  vpk := false
  lastSeen := 0

end KwaaiNet.MapServer
