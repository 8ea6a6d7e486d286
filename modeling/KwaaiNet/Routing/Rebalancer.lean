import Mathlib
import KwaaiNet.Foundation.Slices
import KwaaiNet.Routing.ServerInfo

/-! # Coverage counts and choosing blocks

`check_rebalance`, `pick_gap_from_chain` and `pick_gap_blocks` count, for each block,
the other peers announcing it; `coverage_check` marks the announced blocks. All four
index a buffer of `total_blocks` cells by announced ranges, so a range that is
reversed, or starts too late, makes them panic. `KwaaiNet.neverPanics_iff` says which
chains are safe, and `KwaaiNet.checkRebalance_redundant` what a decision to move
guarantees about the chain it was taken on.
-/

namespace KwaaiNet

open Foundation List

/-! ## The functions -/

section Functions

variable (chain : List BlockServerEntry) (ourPeer : PeerId) (totalBlocks : Nat)

/-- An announced range with both ends cut to the block count. -/
def BlockServerEntry.clamped (entry : BlockServerEntry) : Nat × Nat :=
  (min entry.startBlock totalBlocks, min entry.endBlock totalBlocks)

/-- Per-block counts of the other peers announcing the block. -/
def otherCoverage : Except Panic (List Nat) :=
  modifyRanges (· + 1)
    ((chain.filter fun entry => entry.peerId ≠ ourPeer).map
      (BlockServerEntry.clamped totalBlocks))
    (List.replicate totalBlocks 0)

/-- `check_rebalance`. -/
def checkRebalance (ourStart ourEnd targetBlocks minRedundancy : Nat) :
    Except Panic (Option (Nat × Nat)) :=
  if totalBlocks = 0 ∨ ourEnd ≤ ourStart then .ok none
  else do
    let coverage ← otherCoverage chain ourPeer totalBlocks
    let ours ← slice (min ourStart totalBlocks) (min ourEnd totalBlocks) coverage
    if ours.min?.getD 0 < minRedundancy then return none
    else
      match coverage.findIdx? (· = 0) with
      | none => return none
      -- the sum of two machine words wraps
      | some gapStart =>
        return some (gapStart, min ((gapStart + targetBlocks) % 2 ^ 64) totalBlocks)

/-- The sums of the windows of `target` consecutive counts. -/
def windowSums (coverage : List Nat) (target : Nat) : Except Panic (List Nat) :=
  (List.range (totalBlocks - target + 1)).mapM fun start =>
    (slice start (start + target) coverage).map List.sum

/-- `pick_gap_from_chain`. The additions stay below the length of an allocated
buffer, so they do not wrap. -/
def pickGapFromChain (targetBlocks : Nat) : Except Panic (Nat × Nat) :=
  if totalBlocks = 0 then .ok (0, 0)
  else do
    let target := min targetBlocks totalBlocks
    let coverage ← otherCoverage chain ourPeer totalBlocks
    if coverage.min?.getD 0 = 0 then
      let start := (coverage.findIdx? (· = 0)).getD 0
      return (start, min (start + target) totalBlocks)
    else
      let sums ← windowSums totalBlocks coverage target
      let start := ((List.range sums.length).argmin fun window => sums.getD window 0).getD 0
      return (start, min (start + target) totalBlocks)

/-- The recount of `pick_gap_blocks`: the least number of other peers on a block. -/
def otherMinCoverage : Except Panic Nat :=
  (otherCoverage chain ourPeer totalBlocks).map fun coverage => coverage.min?.getD 0

/-- `coverage_check`. Only the end of a range is cut to the block count. -/
def coverageCheck : Except Panic Bool :=
  (modifyRanges (fun _ => true)
    (chain.map fun entry => (entry.startBlock, min entry.endBlock totalBlocks))
    (List.replicate totalBlocks false)).map fun covered => covered.all id

def otherServers (block : Nat) : Nat :=
  chain.countP fun entry => entry.peerId ≠ ourPeer && entry.covers block

end Functions

/-! ## What they compute, and when they panic -/

variable {chain : List BlockServerEntry} {ourPeer : PeerId} {totalBlocks : Nat}

theorem hits_clamped {block : Nat} (inside : block < totalBlocks) :
    hits ((chain.filter fun entry => entry.peerId ≠ ourPeer).map
      (BlockServerEntry.clamped totalBlocks)) block = otherServers chain ourPeer block := by
  unfold hits otherServers
  rw [countP_map, countP_filter]
  apply countP_congr
  intro entry _
  simp only [BlockServerEntry.covers, Function.comp_apply, Bool.and_eq_true, decide_eq_true_eq]
  simp only [BlockServerEntry.clamped]
  have lower : min entry.startBlock totalBlocks ≤ block ↔ entry.startBlock ≤ block := by omega
  have upper : block < min entry.endBlock totalBlocks ↔ block < entry.endBlock := by omega
  rw [lower, upper, and_comm]

theorem otherCoverage_eq_ok_iff {coverage : List Nat} :
    otherCoverage chain ourPeer totalBlocks = .ok coverage ↔
      (∀ entry ∈ chain, entry.peerId ≠ ourPeer →
        min entry.startBlock totalBlocks ≤ min entry.endBlock totalBlocks) ∧
      (List.range totalBlocks).map (otherServers chain ourPeer) = coverage := by
  have counts : (List.replicate totalBlocks 0).mapIdx (fun block count =>
      (· + 1)^[hits ((chain.filter fun entry => entry.peerId ≠ ourPeer).map
        (BlockServerEntry.clamped totalBlocks)) block] count) =
      (List.range totalBlocks).map (otherServers chain ourPeer) := by
    apply ext_getElem
    · simp
    · intro block inside _
      have inRange : block < totalBlocks := by simpa using inside
      rw [getElem_mapIdx, getElem_replicate, getElem_map, getElem_range,
        hits_clamped inRange]
      exact (Nat.succ_iterate 0 _).trans (Nat.zero_add _)
  unfold otherCoverage
  rw [modifyRanges_eq_ok_iff, counts]
  refine and_congr_left fun _ => ?_
  simp only [forall_mem_map, mem_filter, decide_eq_true_eq, and_imp,
    BlockServerEntry.clamped, length_replicate, min_le_right, and_true]

theorem isOk_otherCoverage_iff :
    (otherCoverage chain ourPeer totalBlocks).isOk = true ↔
      ∀ entry ∈ chain, entry.peerId ≠ ourPeer →
        min entry.startBlock totalBlocks ≤ min entry.endBlock totalBlocks := by
  cases counted : otherCoverage chain ourPeer totalBlocks with
  | ok coverage => exact ⟨fun _ => (otherCoverage_eq_ok_iff.mp counted).1, fun _ => rfl⟩
  | error failure =>
    refine ⟨nofun, fun ordered => ?_⟩
    rw [otherCoverage_eq_ok_iff.mpr ⟨ordered, rfl⟩] at counted
    cases counted

theorem length_otherCoverage {coverage : List Nat}
    (counted : otherCoverage chain ourPeer totalBlocks = .ok coverage) :
    coverage.length = totalBlocks := by
  rw [← (otherCoverage_eq_ok_iff.mp counted).2, length_map, length_range]

theorem isOk_map_iff {ε α β : Type*} (f : α → β) (result : Except ε α) :
    (result.map f).isOk = true ↔ result.isOk = true := by
  cases result <;> exact Iff.rfl

theorem isOk_otherMinCoverage_iff :
    (otherMinCoverage chain ourPeer totalBlocks).isOk = true ↔
      ∀ entry ∈ chain, entry.peerId ≠ ourPeer →
        min entry.startBlock totalBlocks ≤ min entry.endBlock totalBlocks := by
  unfold otherMinCoverage
  rw [isOk_map_iff, isOk_otherCoverage_iff]

/-- The count is the only step of `check_rebalance` that can fail. -/
theorem isOk_checkRebalance_iff {ourStart ourEnd targetBlocks minRedundancy : Nat} :
    (checkRebalance chain ourPeer totalBlocks ourStart ourEnd targetBlocks
        minRedundancy).isOk = true ↔
      ourEnd ≤ ourStart ∨ ∀ entry ∈ chain, entry.peerId ≠ ourPeer →
        min entry.startBlock totalBlocks ≤ min entry.endBlock totalBlocks := by
  unfold checkRebalance
  split
  case isTrue early =>
    refine ⟨fun _ => ?_, fun _ => rfl⟩
    rcases early with rfl | empty
    · exact .inr fun entry _ _ => by omega
    · exact .inl empty
  case isFalse proper =>
    rw [not_or, not_le] at proper
    cases counted : otherCoverage chain ourPeer totalBlocks with
    | error failure =>
      have unsafeChain := isOk_otherCoverage_iff.not.mp
        (by rw [counted]; exact Bool.false_ne_true)
      exact ⟨nofun, fun safe => absurd (safe.resolve_left proper.2.not_ge) unsafeChain⟩
    | ok coverage =>
      refine ⟨fun _ => .inr (otherCoverage_eq_ok_iff.mp counted).1, fun _ => ?_⟩
      have inside : min ourStart totalBlocks ≤ min ourEnd totalBlocks ∧
          min ourEnd totalBlocks ≤ coverage.length := by
        rw [length_otherCoverage counted]
        omega
      simp only [bind, Except.bind, slice_eq_ok_iff.mpr ⟨inside, rfl⟩]
      split
      · rfl
      · split <;> rfl

theorem isOk_windowSums {coverage : List Nat} {target : Nat} (fits : target ≤ totalBlocks)
    (length : coverage.length = totalBlocks) :
    (windowSums totalBlocks coverage target).isOk = true := by
  have each : ∀ windows : List Nat, (∀ start ∈ windows, start < totalBlocks - target + 1) →
      (windows.mapM fun start =>
        (slice start (start + target) coverage).map List.sum).isOk = true := by
    intro windows
    induction windows with
    | nil => exact fun _ => rfl
    | cons start windows ih =>
      intro inside
      obtain ⟨head, tail⟩ := forall_mem_cons.mp inside
      have cut : start ≤ start + target ∧ start + target ≤ coverage.length := by omega
      have rest := ih tail
      rw [mapM_cons, slice_eq_ok_iff.mpr ⟨cut, rfl⟩]
      generalize (windows.mapM fun start =>
        (slice start (start + target) coverage).map List.sum) = sums at rest ⊢
      cases sums with
      | ok sums => rfl
      | error failure => cases rest
  exact each _ fun start member => mem_range.mp member

/-- The count is the only step of `pick_gap_from_chain` that can fail. -/
theorem isOk_pickGapFromChain_iff {targetBlocks : Nat} :
    (pickGapFromChain chain ourPeer totalBlocks targetBlocks).isOk = true ↔
      ∀ entry ∈ chain, entry.peerId ≠ ourPeer →
        min entry.startBlock totalBlocks ≤ min entry.endBlock totalBlocks := by
  unfold pickGapFromChain
  split
  case isTrue none =>
    subst none
    exact ⟨fun _ entry _ _ => by omega, fun _ => rfl⟩
  case isFalse some =>
    rw [← isOk_otherCoverage_iff]
    cases counted : otherCoverage chain ourPeer totalBlocks with
    | error failure => exact Iff.rfl
    | ok coverage =>
      refine ⟨fun _ => rfl, fun _ => ?_⟩
      simp only [bind, Except.bind]
      split
      · rfl
      · have summed := isOk_windowSums (min_le_right targetBlocks totalBlocks)
          (length_otherCoverage counted)
        cases sums : windowSums totalBlocks coverage (min targetBlocks totalBlocks) with
        | ok sums => rfl
        | error failure => rw [sums] at summed; cases summed

theorem iterate_mark (count : Nat) : (fun _ => true)^[count] false = decide (0 < count) := by
  cases count with
  | zero => rfl
  | succ count => rw [Function.iterate_succ_apply']; simp

theorem hits_marked_pos_iff {block : Nat} (inside : block < totalBlocks) :
    0 < hits (chain.map fun entry => (entry.startBlock, min entry.endBlock totalBlocks)) block ↔
      ∃ entry ∈ chain, entry.covers block = true := by
  unfold hits
  rw [countP_map, countP_pos_iff]
  refine exists_congr fun entry => and_congr_right fun _ => ?_
  simp only [BlockServerEntry.covers, Function.comp_apply, Bool.and_eq_true, decide_eq_true_eq]
  omega

/-- `coverage_check` succeeds exactly when every range is in order and starts inside,
and then says whether every block is announced. -/
theorem coverageCheck_eq_ok_iff {covered : Bool} :
    coverageCheck chain totalBlocks = .ok covered ↔
      (∀ entry ∈ chain, entry.startBlock ≤ min entry.endBlock totalBlocks) ∧
      (covered = true ↔ ∀ block < totalBlocks, ∃ entry ∈ chain, entry.covers block = true) := by
  let ranges := chain.map fun entry => (entry.startBlock, min entry.endBlock totalBlocks)
  let marks := (List.replicate totalBlocks false).mapIdx fun block mark =>
    (fun _ => true)^[hits ranges block] mark
  have all_marked : marks.all id = true ↔
      ∀ block < totalBlocks, ∃ entry ∈ chain, entry.covers block = true := by
    rw [all_eq_true, forall_mem_iff_forall_getElem]
    simp only [marks, length_mapIdx, length_replicate, getElem_mapIdx,
      getElem_replicate, iterate_mark, id_eq, decide_eq_true_eq]
    exact forall₂_congr fun block inside => hits_marked_pos_iff inside
  have ordered : (∀ range ∈ ranges, range.1 ≤ range.2 ∧
      range.2 ≤ (List.replicate totalBlocks false).length) ↔
        ∀ entry ∈ chain, entry.startBlock ≤ min entry.endBlock totalBlocks := by
    simp only [ranges, forall_mem_map, length_replicate, min_le_right, and_true]
  unfold coverageCheck
  rw [← all_marked, ← ordered]
  cases marked : modifyRanges (fun _ => true) ranges (List.replicate totalBlocks false) with
  | error failure =>
    refine ⟨nofun, fun safe => ?_⟩
    rw [modifyRanges_eq_ok_iff.mpr ⟨safe.1, rfl⟩] at marked
    cases marked
  | ok result =>
    obtain ⟨safe, rfl⟩ := modifyRanges_eq_ok_iff.mp marked
    rw [← Bool.eq_iff_iff]
    exact ⟨fun ok => ⟨safe, (Except.ok.inj ok).symm⟩, fun ok => congrArg Except.ok ok.2.symm⟩

theorem isOk_coverageCheck_iff :
    (coverageCheck chain totalBlocks).isOk = true ↔
      ∀ entry ∈ chain, entry.startBlock ≤ min entry.endBlock totalBlocks := by
  classical
  cases checked : coverageCheck chain totalBlocks with
  | ok covered => exact ⟨fun _ => (coverageCheck_eq_ok_iff.mp checked).1, fun _ => rfl⟩
  | error failure =>
    refine ⟨nofun, fun safe => ?_⟩
    rw [coverageCheck_eq_ok_iff.mpr ⟨safe, decide_eq_true_iff⟩] at checked
    cases checked

/-! ## Announcements that panic a node -/

/-- None of the four functions indexes its buffer by a bad range. -/
structure NeverPanics (chain : List BlockServerEntry) (ourPeer : PeerId)
    (totalBlocks ourStart ourEnd targetBlocks minRedundancy : Nat) : Prop where
  checkRebalance : (checkRebalance chain ourPeer totalBlocks ourStart ourEnd targetBlocks
    minRedundancy).isOk = true
  pickGapFromChain : (pickGapFromChain chain ourPeer totalBlocks targetBlocks).isOk = true
  otherMinCoverage : (otherMinCoverage chain ourPeer totalBlocks).isOk = true
  coverageCheck : (coverageCheck chain totalBlocks).isOk = true

/-- **Safe announcements.** No slice is indexed by a bad range exactly when every entry
of the chain starts at or before both its end and the block count. -/
theorem neverPanics_iff (chain : List BlockServerEntry) (ourPeer : PeerId)
    (totalBlocks ourStart ourEnd targetBlocks minRedundancy : Nat) :
    NeverPanics chain ourPeer totalBlocks ourStart ourEnd targetBlocks minRedundancy ↔
      ∀ entry ∈ chain, entry.startBlock ≤ entry.endBlock ∧ entry.startBlock ≤ totalBlocks := by
  simp only [← le_min_iff]
  refine ⟨fun safe => isOk_coverageCheck_iff.mp safe.coverageCheck, fun ordered => ?_⟩
  have clamped : ∀ entry ∈ chain, entry.peerId ≠ ourPeer →
      min entry.startBlock totalBlocks ≤ min entry.endBlock totalBlocks :=
    fun entry member _ => (min_le_left _ _).trans (ordered entry member)
  exact ⟨isOk_checkRebalance_iff.mpr (.inr clamped), isOk_pickGapFromChain_iff.mpr clamped,
    isOk_otherMinCoverage_iff.mpr clamped, isOk_coverageCheck_iff.mpr ordered⟩

/-- The inner bytes of a record `[2, 0, {start_block: 20, end_block: 10, version: "0.3.15"}]`. -/
def reversedInner : List UInt8 :=
  [147, 2, 0, 131, 171, 115, 116, 97, 114, 116, 95, 98, 108, 111, 99, 107, 20, 169, 101, 110,
    100, 95, 98, 108, 111, 99, 107, 10, 167, 118, 101, 114, 115, 105, 111, 110, 166, 48, 46, 51,
    46, 49, 53]

def reversedRecord : List UInt8 := [199, 43, 64] ++ reversedInner

def reversedReader (bytes : List UInt8) : Option Value :=
  if bytes = reversedRecord then some (.ext 64 reversedInner)
  else if bytes = reversedInner then
    some (.array [.integer 2, .integer 0, .map [
      (.string (some "start_block"), .integer 20), (.string (some "end_block"), .integer 10),
      (.string (some "version"), .string (some "0.3.15"))]])
  else none

def reversedChain : List BlockServerEntry := [⟨⟨0x00, [9], by decide⟩, 20, 10, "", none⟩]

/-- An accepted record with its ends exchanged panics all four functions. -/
theorem reversedRecord_panics :
    Discovered reversedReader (fun _ => ⟨0x00, [9], by decide⟩) [⟨1, reversedRecord⟩]
        reversedChain ∧
      checkRebalance reversedChain ⟨0x00, [1], by decide⟩ 32 0 8 8 1 =
        .error (.sliceIndexOrder 20 10) ∧
      pickGapFromChain reversedChain ⟨0x00, [1], by decide⟩ 32 8 =
        .error (.sliceIndexOrder 20 10) ∧
      otherMinCoverage reversedChain ⟨0x00, [1], by decide⟩ 32 =
        .error (.sliceIndexOrder 20 10) ∧
      coverageCheck reversedChain 32 = .error (.sliceIndexOrder 20 10) ∧
      ¬ NeverPanics reversedChain ⟨0x00, [1], by decide⟩ 32 0 8 8 1 := by
  refine ⟨⟨?_, pairwise_singleton _ _⟩, rfl, rfl, rfl, rfl,
    fun safe => Bool.false_ne_true safe.coverageCheck⟩
  have collected : (collectServers reversedReader (fun _ => ⟨0x00, [9], by decide⟩)
      [⟨1, reversedRecord⟩]).map Prod.snd = reversedChain := by decide +kernel
  rw [collected]

/-! ## What a decision to move guarantees -/

theorem le_of_min?_getD {counts : List Nat} {bound count : Nat}
    (least : bound ≤ counts.min?.getD 0) (member : count ∈ counts) : bound ≤ count := by
  cases found : counts.min? with
  | none => rw [List.min?_eq_none_iff.mp found] at member; cases member
  | some smallest =>
    rw [found, Option.getD_some] at least
    exact least.trans ((List.min?_eq_some_iff.mp found).2 count member)

/-- **Redundancy of the mover.** When `check_rebalance` proposes a move, each block the
node serves is announced by at least `minRedundancy` entries of other peers. -/
theorem checkRebalance_redundant {ourStart ourEnd targetBlocks minRedundancy block : Nat}
    {proposal : Nat × Nat}
    (proposed : checkRebalance chain ourPeer totalBlocks ourStart ourEnd targetBlocks
      minRedundancy = .ok (some proposal))
    (served : ourStart ≤ block ∧ block < ourEnd) (inside : block < totalBlocks) :
    minRedundancy ≤ otherServers chain ourPeer block := by
  unfold checkRebalance at proposed
  split at proposed
  case isTrue => cases proposed
  case isFalse =>
    cases counted : otherCoverage chain ourPeer totalBlocks with
    | error failure => rw [counted] at proposed; cases proposed
    | ok coverage =>
      obtain ⟨_, rfl⟩ := otherCoverage_eq_ok_iff.mp counted
      rw [counted] at proposed
      simp only [bind, Except.bind] at proposed
      cases cut : slice (min ourStart totalBlocks) (min ourEnd totalBlocks)
          ((List.range totalBlocks).map (otherServers chain ourPeer)) with
      | error failure => rw [cut] at proposed; cases proposed
      | ok ours =>
        obtain ⟨_, rfl⟩ := slice_eq_ok_iff.mp cut
        rw [cut] at proposed
        simp only at proposed
        split at proposed
        case isTrue => cases proposed
        case isFalse enough =>
          refine le_of_min?_getD (not_lt.mp enough) (mem_iff_getElem.mpr ?_)
          refine ⟨block - min ourStart totalBlocks, ?_, ?_⟩
          · simp only [length_drop, length_take, length_map,
              length_range]
            omega
          · simp only [getElem_drop, getElem_take, getElem_map,
              getElem_range]
            congr 1
            omega

end KwaaiNet
