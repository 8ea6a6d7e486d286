import Mathlib
import KwaaiNet.Foundation.Selection
import KwaaiNet.Foundation.Tiling
import KwaaiNet.Identity.PeerId

/-! # Pinning a path of block servers

`build_pinned_path` walks from block 0 and takes, at each position, the live entry
reaching farthest, then continues at that entry's end. Every server on the path
runs all blocks it has loaded, so a path computes the model exactly when the ranges
of its entries tile `[0, total_blocks)`. The walk only asks that an entry cover the
current position, so entries may start before it:
`KwaaiNet.buildPinnedPath_executes_iff` says which chains give a tiling.
-/

namespace KwaaiNet

open Foundation List

/-- A float as the routing code compares it. -/
inductive Score where
  | nan
  | number (value : ℚ)
  deriving DecidableEq

/-- A discovered block server. -/
structure BlockServerEntry where
  peerId : PeerId
  startBlock : Nat
  endBlock : Nat
  publicName : String
  trustScore : Option Score
  deriving DecidableEq

namespace BlockServerEntry

def span (entry : BlockServerEntry) : Span := ⟨entry.startBlock, entry.endBlock⟩

def covers (block : Nat) (entry : BlockServerEntry) : Bool :=
  entry.startBlock ≤ block && block < entry.endBlock

theorem covers_iff {block : Nat} {entry : BlockServerEntry} :
    entry.covers block = true ↔ entry.startBlock ≤ block ∧ block < entry.endBlock := by
  simp only [covers, Bool.and_eq_true, decide_eq_true_eq]

def live (failedPeers : Finset PeerId) (block : Nat) (entry : BlockServerEntry) : Bool :=
  entry.covers block && entry.peerId ∉ failedPeers

theorem live_iff {failedPeers : Finset PeerId} {block : Nat} {entry : BlockServerEntry} :
    entry.live failedPeers block = true ↔
      entry.startBlock ≤ block ∧ block < entry.endBlock ∧ entry.peerId ∉ failedPeers := by
  simp only [live, Bool.and_eq_true, covers_iff, decide_eq_true_eq, and_assoc]

end BlockServerEntry

section Walk

variable (chain : List BlockServerEntry) (totalBlocks : Nat) (failedPeers : Finset PeerId)

/-- The live entry reaching farthest from a position, the last one among ties. -/
def widestAt (pos : Nat) : Option BlockServerEntry :=
  maxByKey BlockServerEntry.endBlock
    ((chain.filter (BlockServerEntry.covers pos)).filter fun entry => entry.peerId ∉ failedPeers)

def Preferred (block : Nat) (entry : BlockServerEntry) : Prop :=
  ∃ before after, chain = before ++ entry :: after ∧ entry.live failedPeers block = true ∧
    (∀ other ∈ before, other.live failedPeers block = true → other.endBlock ≤ entry.endBlock) ∧
    (∀ other ∈ after, other.live failedPeers block = true → other.endBlock < entry.endBlock)

theorem filter_covers_filter (pos : Nat) :
    ((chain.filter (BlockServerEntry.covers pos)).filter fun entry => entry.peerId ∉ failedPeers) =
      chain.filter (BlockServerEntry.live failedPeers pos) := by
  rw [filter_filter]
  apply filter_congr
  intro entry _
  exact Bool.and_comm _ _

variable {chain failedPeers} in
theorem widestAt_eq_some_iff {pos : Nat} {entry : BlockServerEntry} :
    widestAt chain failedPeers pos = some entry ↔ Preferred chain failedPeers pos entry := by
  rw [widestAt, filter_covers_filter]
  exact maxByKey_filter_eq_some_iff _ _ _ _

variable {chain failedPeers} in
theorem widestAt_eq_none_iff {pos : Nat} :
    widestAt chain failedPeers pos = none ↔
      ∀ entry ∈ chain, ¬ entry.live failedPeers pos = true := by
  rw [widestAt, maxByKey_eq_none_iff, filter_covers_filter, filter_eq_nil_iff]

variable {chain failedPeers} in
theorem Preferred.live {block : Nat} {entry : BlockServerEntry}
    (preferred : Preferred chain failedPeers block entry) :
    entry.live failedPeers block = true := by
  obtain ⟨_, _, _, live, _⟩ := preferred
  exact live

variable {chain failedPeers} in
theorem Preferred.mem {block : Nat} {entry : BlockServerEntry}
    (preferred : Preferred chain failedPeers block entry) : entry ∈ chain := by
  obtain ⟨_, _, rfl, _⟩ := preferred
  exact mem_append_right _ mem_cons_self

variable {chain failedPeers} in
theorem Preferred.endBlock_le {block : Nat} {entry other : BlockServerEntry}
    (preferred : Preferred chain failedPeers block entry) (member : other ∈ chain)
    (live : other.live failedPeers block = true) : other.endBlock ≤ entry.endBlock := by
  obtain ⟨before, after, rfl, _, below, above⟩ := preferred
  rcases mem_append.mp member with earlier | rest
  · exact below other earlier live
  · rcases mem_cons.mp rest with rfl | later
    · exact le_rfl
    · exact (above other later live).le

/-- The error of a walk that finds no candidate. -/
def noServerCovers (pos : Nat) : String :=
  s!"No server covers block {pos} — chain has a gap (or all candidates blacklisted)"

/-- The loop of `build_pinned_path` from a position on. -/
def pinFrom (pos : Nat) : Except String (List BlockServerEntry) :=
  if pos < totalBlocks then
    match _found : widestAt chain failedPeers pos with
    | some entry => (pinFrom entry.endBlock).map (entry :: ·)
    | none => .error (noServerCovers pos)
  else .ok []
termination_by totalBlocks - pos
decreasing_by
  have reached := (BlockServerEntry.live_iff.mp (widestAt_eq_some_iff.mp _found).live).2.1
  omega

/-- `build_pinned_path`. -/
def buildPinnedPath : Except String (List BlockServerEntry) :=
  pinFrom chain totalBlocks failedPeers 0

/-- The paths the walk can take from a position. -/
inductive PinnedFrom : Nat → List BlockServerEntry → Prop where
  | stop {pos : Nat} : totalBlocks ≤ pos → PinnedFrom pos []
  | hop {pos : Nat} {entry : BlockServerEntry} {rest : List BlockServerEntry} :
      pos < totalBlocks → Preferred chain failedPeers pos entry →
      PinnedFrom entry.endBlock rest → PinnedFrom pos (entry :: rest)

end Walk

variable {chain : List BlockServerEntry} {totalBlocks : Nat} {failedPeers : Finset PeerId}

theorem pinFrom_of_widest {pos : Nat} {entry : BlockServerEntry} (inside : pos < totalBlocks)
    (found : widestAt chain failedPeers pos = some entry) :
    pinFrom chain totalBlocks failedPeers pos =
      (pinFrom chain totalBlocks failedPeers entry.endBlock).map (entry :: ·) := by
  rw [pinFrom, if_pos inside]
  split
  case h_1 other found' => rw [Option.some.inj (found.symm.trans found')]
  case h_2 none' => rw [found] at none'; cases none'

theorem pinFrom_of_gap {pos : Nat} (inside : pos < totalBlocks)
    (gap : widestAt chain failedPeers pos = none) :
    pinFrom chain totalBlocks failedPeers pos = .error (noServerCovers pos) := by
  rw [pinFrom, if_pos inside]
  split
  case h_1 other found => rw [gap] at found; cases found
  case h_2 => rfl

theorem pinFrom_of_end {pos : Nat} (outside : ¬ pos < totalBlocks) :
    pinFrom chain totalBlocks failedPeers pos = .ok [] := by
  rw [pinFrom, if_neg outside]

theorem pinFrom_eq_ok_iff {pos : Nat} {path : List BlockServerEntry} :
    pinFrom chain totalBlocks failedPeers pos = .ok path ↔
      PinnedFrom chain totalBlocks failedPeers pos path := by
  induction pos using pinFrom.induct chain totalBlocks failedPeers generalizing path with
  | case1 pos inside entry found ih =>
    rw [pinFrom_of_widest inside found]
    constructor
    · intro ok
      cases tail : pinFrom chain totalBlocks failedPeers entry.endBlock with
      | error message => rw [tail] at ok; cases ok
      | ok rest =>
        rw [tail] at ok
        obtain rfl := Except.ok.inj ok
        exact .hop inside (widestAt_eq_some_iff.mp found) (ih.mp tail)
    · intro pinned
      cases pinned with
      | stop outside => omega
      | hop _ preferred rest =>
        obtain rfl := Option.some.inj (found.symm.trans (widestAt_eq_some_iff.mpr preferred))
        rw [ih.mpr rest]
        rfl
  | case2 pos inside gap =>
    rw [pinFrom_of_gap inside gap]
    constructor
    · intro ok; cases ok
    · intro pinned
      cases pinned with
      | stop outside => omega
      | hop _ preferred _ =>
        rw [widestAt_eq_some_iff.mpr preferred] at gap
        cases gap
  | case3 pos outside =>
    rw [pinFrom_of_end outside]
    constructor
    · intro ok
      obtain rfl := Except.ok.inj ok
      exact .stop (Nat.le_of_not_lt outside)
    · intro pinned
      cases pinned with
      | stop _ => rfl
      | hop inside _ _ => exact (outside inside).elim

theorem PinnedFrom.unique {pos : Nat} {first second : List BlockServerEntry}
    (left : PinnedFrom chain totalBlocks failedPeers pos first)
    (right : PinnedFrom chain totalBlocks failedPeers pos second) : first = second :=
  Except.ok.inj ((pinFrom_eq_ok_iff.mpr left).symm.trans (pinFrom_eq_ok_iff.mpr right))

theorem PinnedFrom.startBlock_lt {pos : Nat} {path : List BlockServerEntry}
    (pinned : PinnedFrom chain totalBlocks failedPeers pos path) :
    ∀ entry ∈ path, entry.startBlock < entry.endBlock := by
  induction pinned with
  | stop _ => intro entry member; cases member
  | hop _ preferred _ ih =>
    intro entry member
    rcases mem_cons.mp member with rfl | later
    · have live := BlockServerEntry.live_iff.mp preferred.live
      omega
    · exact ih entry later

theorem PinnedFrom.mem {pos : Nat} {path : List BlockServerEntry}
    (pinned : PinnedFrom chain totalBlocks failedPeers pos path) :
    ∀ entry ∈ path, entry ∈ chain := by
  induction pinned with
  | stop _ => intro entry member; cases member
  | hop _ preferred _ ih => exact forall_mem_cons.mpr ⟨preferred.mem, ih⟩

theorem PinnedFrom.lt_endBlock {pos : Nat} {path : List BlockServerEntry}
    (pinned : PinnedFrom chain totalBlocks failedPeers pos path) :
    ∀ entry ∈ path, pos < entry.endBlock := by
  induction pinned with
  | stop _ => intro entry member; cases member
  | hop _ preferred _ ih =>
    have live := BlockServerEntry.live_iff.mp preferred.live
    exact forall_mem_cons.mpr
      ⟨live.2.1, fun entry later => live.2.1.trans (ih entry later)⟩

theorem PinnedFrom.filter_live {pos : Nat} {entry : BlockServerEntry}
    {passed rest : List BlockServerEntry}
    (pinned : PinnedFrom chain totalBlocks failedPeers pos (entry :: rest))
    (behind : ∀ other ∈ passed, other.endBlock ≤ pos) :
    (passed ++ entry :: rest).filter (BlockServerEntry.live failedPeers pos) = [entry] := by
  cases pinned with
  | hop _ preferred tail =>
    have none_before : passed.filter (BlockServerEntry.live failedPeers pos) = [] := by
      rw [filter_eq_nil_iff]
      intro other member live
      have early := behind other member
      have covers := BlockServerEntry.live_iff.mp live
      omega
    have none_after : rest.filter (BlockServerEntry.live failedPeers pos) = [] := by
      rw [filter_eq_nil_iff]
      intro other member live
      have farther := tail.lt_endBlock other member
      have chosen := preferred.endBlock_le (tail.mem other member) live
      omega
    rw [filter_append, none_before, nil_append, filter_cons_of_pos preferred.live,
      none_after]

theorem PinnedFrom.exists_live {pos : Nat} {path : List BlockServerEntry}
    (pinned : PinnedFrom chain totalBlocks failedPeers pos path) (block : Nat)
    (after : pos ≤ block) (inside : block < totalBlocks) :
    ∃ entry ∈ chain, entry.live failedPeers block = true := by
  induction pinned with
  | stop outside => omega
  | @hop pos entry rest _ preferred _ ih =>
    by_cases beyond : entry.endBlock ≤ block
    · exact ih beyond
    · have live := BlockServerEntry.live_iff.mp preferred.live
      exact ⟨entry, preferred.mem,
        BlockServerEntry.live_iff.mpr ⟨by omega, by omega, live.2.2⟩⟩

theorem exists_pinnedFrom {pos : Nat}
    (covered : ∀ block, pos ≤ block → block < totalBlocks →
      ∃ entry ∈ chain, entry.live failedPeers block = true) :
    ∃ path, PinnedFrom chain totalBlocks failedPeers pos path := by
  induction remaining : totalBlocks - pos using Nat.strong_induction_on generalizing pos with
  | _ remaining ih =>
    by_cases inside : pos < totalBlocks
    · cases found : widestAt chain failedPeers pos with
      | none =>
        obtain ⟨entry, member, live⟩ := covered pos le_rfl inside
        exact (widestAt_eq_none_iff.mp found entry member live).elim
      | some entry =>
        have preferred := widestAt_eq_some_iff.mp found
        have reached := (BlockServerEntry.live_iff.mp preferred.live).2.1
        obtain ⟨rest, pinned⟩ := ih (totalBlocks - entry.endBlock) (by omega)
          (fun block after => covered block (by omega)) rfl
        exact ⟨entry :: rest, .hop inside preferred pinned⟩
    · exact ⟨[], .stop (Nat.le_of_not_lt inside)⟩

def HasGap (chain : List BlockServerEntry) (totalBlocks : Nat) (failedPeers : Finset PeerId) :
    Prop :=
  ∃ block < totalBlocks, ∀ entry ∈ chain, ¬ entry.live failedPeers block = true

theorem exists_buildPinnedPath_iff :
    (∃ path, buildPinnedPath chain totalBlocks failedPeers = .ok path) ↔
      ¬ HasGap chain totalBlocks failedPeers := by
  constructor
  · rintro ⟨path, ok⟩ ⟨block, inside, uncovered⟩
    obtain ⟨entry, member, live⟩ :=
      (pinFrom_eq_ok_iff.mp ok).exists_live block (Nat.zero_le _) inside
    exact uncovered entry member live
  · intro closed
    have covered : ∀ block, 0 ≤ block → block < totalBlocks →
        ∃ entry ∈ chain, entry.live failedPeers block = true := by
      intro block _ inside
      by_contra uncovered
      exact closed ⟨block, inside, fun entry member live => uncovered ⟨entry, member, live⟩⟩
    obtain ⟨path, pinned⟩ := exists_pinnedFrom covered
    exact ⟨path, pinFrom_eq_ok_iff.mpr pinned⟩

/-! ## What running a path computes -/

def executedBlocks (path : List BlockServerEntry) : List Nat :=
  (path.map BlockServerEntry.span).flatMap Span.points

/-- The model's blocks can be cut into the ranges of entries each of which is
preferred at its own first block. -/
def HasAlignedTiling (chain : List BlockServerEntry) (totalBlocks : Nat)
    (failedPeers : Finset PeerId) : Prop :=
  ∃ tiles : List BlockServerEntry, Tiles 0 (tiles.map BlockServerEntry.span) totalBlocks ∧
    ∀ tile ∈ tiles, Preferred chain failedPeers tile.startBlock tile

theorem PinnedFrom.preferred_startBlock {pos : Nat} {path : List BlockServerEntry}
    (pinned : PinnedFrom chain totalBlocks failedPeers pos path)
    (tiles : Tiles pos (path.map BlockServerEntry.span) totalBlocks) :
    ∀ tile ∈ path, Preferred chain failedPeers tile.startBlock tile := by
  induction pinned with
  | stop _ => intro tile member; cases member
  | hop _ preferred _ ih =>
    rw [map_cons] at tiles
    cases tiles with
    | cons _ rest =>
      intro tile member
      rcases mem_cons.mp member with rfl | later
      · exact preferred
      · exact ih rest tile later

theorem pinnedFrom_of_tiles {pos : Nat} {tiles : List BlockServerEntry}
    (tiled : Tiles pos (tiles.map BlockServerEntry.span) totalBlocks)
    (preferred : ∀ tile ∈ tiles, Preferred chain failedPeers tile.startBlock tile) :
    PinnedFrom chain totalBlocks failedPeers pos tiles := by
  induction tiles generalizing pos with
  | nil =>
    cases tiled
    exact .stop le_rfl
  | cons tile rest ih =>
    rw [map_cons] at tiled
    cases tiled with
    | cons nonempty tail =>
      refine .hop ?_ (preferred tile mem_cons_self)
        (ih tail fun other member => preferred other (mem_cons_of_mem _ member))
      exact lt_of_lt_of_le nonempty tail.le

/-- **When a pinned path computes the model.** Every path the walk returns executes
the blocks `0, ..., totalBlocks - 1` once each and in order exactly when the chain
has a gap, so that there is no path, or can be cut into ranges of entries that are
preferred at their own first blocks. -/
theorem buildPinnedPath_executes_iff (chain : List BlockServerEntry) (totalBlocks : Nat)
    (failedPeers : Finset PeerId) :
    (∀ path, buildPinnedPath chain totalBlocks failedPeers = .ok path →
        executedBlocks path = List.range totalBlocks) ↔
      HasGap chain totalBlocks failedPeers ∨ HasAlignedTiling chain totalBlocks failedPeers := by
  have spans : ∀ path, PinnedFrom chain totalBlocks failedPeers 0 path →
      ∀ span ∈ path.map BlockServerEntry.span, span.start < span.stop := by
    intro path pinned span member
    obtain ⟨entry, inPath, rfl⟩ := mem_map.mp member
    exact pinned.startBlock_lt entry inPath
  constructor
  · intro executes
    by_cases gap : HasGap chain totalBlocks failedPeers
    · exact .inl gap
    · obtain ⟨path, ok⟩ := exists_buildPinnedPath_iff.mpr gap
      have pinned := pinFrom_eq_ok_iff.mp ok
      have tiles := (tiles_iff_flatMap_points _ _ (spans path pinned)).mpr (executes path ok)
      exact .inr ⟨path, tiles, pinned.preferred_startBlock tiles⟩
  · rintro (gap | ⟨tiles, tiled, preferred⟩) path ok
    · exact (exists_buildPinnedPath_iff.mp ⟨path, ok⟩ gap).elim
    · have pinned := pinnedFrom_of_tiles tiled preferred
      obtain rfl := (pinFrom_eq_ok_iff.mp ok).unique pinned
      exact (tiles_iff_flatMap_points _ _ (spans path pinned)).mp tiled

/-- Peers announcing `[0, 16)` and `[8, 32)`. -/
def overlappingChain : List BlockServerEntry :=
  [⟨.ofByte 1, 0, 16, "node-0", none⟩, ⟨.ofByte 2, 8, 32, "node-8", none⟩]

/-- Overlapping announcements give a path that executes blocks 8 to 15 twice. -/
theorem buildPinnedPath_overlapping :
    ¬ ∀ path, buildPinnedPath overlappingChain 32 ∅ = .ok path →
      executedBlocks path = List.range 32 := by
  intro executes
  have built : buildPinnedPath overlappingChain 32 ∅ = .ok overlappingChain := by decide +kernel
  have twice := executes overlappingChain built
  exact absurd twice (by decide +kernel)

end KwaaiNet
