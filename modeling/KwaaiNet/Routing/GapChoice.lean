import KwaaiNet.Routing.Rebalancer

/-! # Which blocks a node chooses

On a chain without reversed ranges the decisions of `check_rebalance` and
`pick_gap_from_chain` depend on one number per block, the entries of other peers that
announce it. `KwaaiNet.pickGapFromChain_chooses` says which range a joining node picks, and
`KwaaiNet.checkRebalance_safe_iff` under which settings the move of a running node keeps
every block served and is not repeated.
-/

namespace KwaaiNet

open Foundation List

/-- No announced range is reversed. -/
def Unreversed (chain : List BlockServerEntry) : Prop :=
  ∀ entry ∈ chain, entry.startBlock ≤ entry.endBlock

instance (chain : List BlockServerEntry) : Decidable (Unreversed chain) :=
  inferInstanceAs (Decidable (∀ entry ∈ chain, _))

section Choices

variable (chain : List BlockServerEntry) (ourPeer : PeerId) (totalBlocks : Nat)

/-- The first block that no other peer announces. -/
structure FirstGap (gap : Nat) : Prop where
  inside : gap < totalBlocks
  uncovered : otherServers chain ourPeer gap = 0
  first : ∀ block < gap, otherServers chain ourPeer block ≠ 0

/-- The entries of other peers on a window, counted once for every block they share with it. -/
def windowLoad (start length : Nat) : Nat :=
  ((List.range' start length).map (otherServers chain ourPeer)).sum

def windowLoads (length : Nat) : List Nat :=
  (List.range (totalBlocks - length + 1)).map fun start => windowLoad chain ourPeer start length

/-- The leftmost of the windows of some length with the least load. -/
structure LightestWindow (length start : Nat) : Prop where
  inside : start + length ≤ totalBlocks
  least : ∀ other, other + length ≤ totalBlocks →
    windowLoad chain ourPeer start length ≤ windowLoad chain ourPeer other length
  leftmost : ∀ other < start,
    windowLoad chain ourPeer start length < windowLoad chain ourPeer other length

/-- The blocks a node serves have enough other servers. A range that starts behind the
model counts as served by nobody else. -/
structure Spared (ourStart ourEnd minRedundancy : Nat) : Prop where
  served : ∀ block, ourStart ≤ block → block < ourEnd → block < totalBlocks →
    minRedundancy ≤ otherServers chain ourPeer block
  inside : minRedundancy = 0 ∨ ourStart < totalBlocks

end Choices

variable {chain : List BlockServerEntry} {ourPeer : PeerId} {totalBlocks : Nat}

/-! ## The counts -/

theorem otherCoverage_of_unreversed (unreversed : Unreversed chain) :
    otherCoverage chain ourPeer totalBlocks =
      .ok ((List.range totalBlocks).map (otherServers chain ourPeer)) := by
  refine otherCoverage_eq_ok_iff.mpr ⟨fun entry member _ => ?_, rfl⟩
  have ordered := unreversed entry member
  omega

theorem otherServers_of_perm {other : List BlockServerEntry}
    (same : (chain.filter fun entry => entry.peerId ≠ ourPeer).Perm
      (other.filter fun entry => entry.peerId ≠ ourPeer)) (block : Nat) :
    otherServers chain ourPeer block = otherServers other ourPeer block := by
  have counted : ∀ entries : List BlockServerEntry, otherServers entries ourPeer block =
      (entries.filter fun entry => entry.peerId ≠ ourPeer).countP
        (BlockServerEntry.covers block) := by
    intro entries
    rw [otherServers, countP_filter]
    exact countP_congr fun entry _ => by rw [Bool.and_comm]
  rw [counted, counted, same.countP_eq]

theorem slice_map_range {f : Nat → Nat} {start stop : Nat} (ordered : start ≤ stop)
    (inside : stop ≤ totalBlocks) :
    slice start stop ((List.range totalBlocks).map f) =
      .ok ((List.range' start (stop - start)).map f) := by
  refine slice_eq_ok_iff.mpr ⟨⟨ordered, by simpa using inside⟩, ?_⟩
  rw [← map_take, ← map_drop, take_range, range_eq_range', drop_range',
    Nat.min_eq_left inside, Nat.mul_one, Nat.zero_add]

theorem idxOf_range {length index : Nat} (inside : index < length) :
    (List.range length).idxOf index = index := by
  have found := (nodup_range (n := length)).idxOf_getElem index (by simpa using inside)
  rwa [getElem_range] at found

theorem le_min?_getD_iff {counts : List Nat} {bound : Nat} (nonempty : counts ≠ []) :
    bound ≤ counts.min?.getD 0 ↔ ∀ count ∈ counts, bound ≤ count := by
  refine ⟨fun least count => le_of_min?_getD least, fun below => ?_⟩
  cases found : counts.min? with
  | none => exact absurd (List.min?_eq_none_iff.mp found) nonempty
  | some smallest => exact below smallest (List.min?_eq_some_iff.mp found).1

theorem findIdx?_eq_some_iff_firstGap {gap : Nat} :
    ((List.range totalBlocks).map (otherServers chain ourPeer)).findIdx? (· = 0) = some gap ↔
      FirstGap chain ourPeer totalBlocks gap := by
  rw [List.findIdx?_eq_some_iff_getElem]
  simp only [length_map, length_range, getElem_map, getElem_range,
    decide_eq_true_eq]
  constructor
  · rintro ⟨inside, uncovered, first⟩
    exact ⟨inside, uncovered, first⟩
  · intro gap
    exact ⟨gap.inside, gap.uncovered, gap.first⟩

theorem findIdx?_eq_none_iff_covered :
    ((List.range totalBlocks).map (otherServers chain ourPeer)).findIdx? (· = 0) = none ↔
      ∀ block < totalBlocks, otherServers chain ourPeer block ≠ 0 := by
  simp [List.findIdx?_eq_none_iff]

/-! ## Joining -/

theorem windowSums_eq {target : Nat} (fits : target ≤ totalBlocks) :
    windowSums totalBlocks ((List.range totalBlocks).map (otherServers chain ourPeer)) target =
      .ok (windowLoads chain ourPeer totalBlocks target) := by
  have each : ∀ windows : List Nat, (∀ start ∈ windows, start < totalBlocks - target + 1) →
      (windows.mapM fun start => (slice start (start + target)
        ((List.range totalBlocks).map (otherServers chain ourPeer))).map List.sum) =
        .ok (windows.map fun start => windowLoad chain ourPeer start target) := by
    intro windows
    induction windows with
    | nil => exact fun _ => rfl
    | cons start windows ih =>
      intro inside
      obtain ⟨head, tail⟩ := forall_mem_cons.mp inside
      rw [mapM_cons, slice_map_range (by omega) (by omega), ih tail,
        Nat.add_sub_cancel_left]
      rfl
  exact each _ fun start member => mem_range.mp member

theorem pickGapFromChain_of_gap {targetBlocks gap : Nat} (unreversed : Unreversed chain)
    (first : FirstGap chain ourPeer totalBlocks gap) :
    pickGapFromChain chain ourPeer totalBlocks targetBlocks =
      .ok (gap, min (gap + min targetBlocks totalBlocks) totalBlocks) := by
  have some : totalBlocks ≠ 0 := by have := first.inside; omega
  have zero : ((List.range totalBlocks).map (otherServers chain ourPeer)).min?.getD 0 = 0 := by
    have least := le_of_min?_getD le_rfl
      (mem_map_of_mem (f := otherServers chain ourPeer) (mem_range.mpr first.inside))
    rw [first.uncovered] at least
    exact Nat.le_zero.mp least
  rw [pickGapFromChain, if_neg some, otherCoverage_of_unreversed unreversed]
  simp only [bind, Except.bind, if_pos zero, findIdx?_eq_some_iff_firstGap.mpr first,
    Option.getD_some]
  rfl

theorem lightestWindow_of_argmin {length start : Nat} (fits : length ≤ totalBlocks)
    (chosen : start ∈ (List.range (windowLoads chain ourPeer totalBlocks length).length).argmin
      fun window => (windowLoads chain ourPeer totalBlocks length).getD window 0) :
    LightestWindow chain ourPeer totalBlocks length start := by
  have windows : (windowLoads chain ourPeer totalBlocks length).length =
      totalBlocks - length + 1 := by
    rw [windowLoads, length_map, length_range]
  have load : ∀ window < totalBlocks - length + 1,
      (windowLoads chain ourPeer totalBlocks length).getD window 0 =
        windowLoad chain ourPeer window length := by
    intro window inside
    simp [windowLoads, inside]
  rw [windows] at chosen
  have inside : start < totalBlocks - length + 1 := mem_range.mp (argmin_mem chosen)
  refine ⟨by omega, fun other fit => ?_, fun other before => ?_⟩
  · have within : other < totalBlocks - length + 1 := by omega
    rw [← load start inside, ← load other within]
    exact le_of_mem_argmin (mem_range.mpr within) chosen
  · have within : other < totalBlocks - length + 1 := before.trans inside
    rw [← load start inside, ← load other within]
    refine lt_of_not_ge fun light => ?_
    have late := index_of_argmin chosen (mem_range.mpr within) light
    rw [idxOf_range inside, idxOf_range within] at late
    omega

theorem exists_pickGapFromChain_of_covered {targetBlocks : Nat} (unreversed : Unreversed chain)
    (some : totalBlocks ≠ 0)
    (covered : ∀ block < totalBlocks, otherServers chain ourPeer block ≠ 0) :
    ∃ start, LightestWindow chain ourPeer totalBlocks (min targetBlocks totalBlocks) start ∧
      pickGapFromChain chain ourPeer totalBlocks targetBlocks =
        .ok (start, start + min targetBlocks totalBlocks) := by
  have positive : ((List.range totalBlocks).map (otherServers chain ourPeer)).min?.getD 0 ≠ 0 := by
    refine Nat.one_le_iff_ne_zero.mp ((le_min?_getD_iff (by simpa using some)).mpr ?_)
    rw [forall_mem_map]
    exact fun block inside => Nat.one_le_iff_ne_zero.mpr (covered block (mem_range.mp inside))
  have fits : min targetBlocks totalBlocks ≤ totalBlocks := min_le_right _ _
  obtain ⟨start, chosen⟩ : ∃ start, (List.range (windowLoads chain ourPeer totalBlocks
      (min targetBlocks totalBlocks)).length).argmin (fun window => (windowLoads chain ourPeer
        totalBlocks (min targetBlocks totalBlocks)).getD window 0) = .some start := by
    refine Option.ne_none_iff_exists'.mp fun none' => ?_
    rw [argmin_eq_none] at none'
    simp [windowLoads] at none'
  have lightest := lightestWindow_of_argmin fits chosen
  refine ⟨start, lightest, ?_⟩
  rw [pickGapFromChain, if_neg some, otherCoverage_of_unreversed unreversed]
  simp only [bind, Except.bind, if_neg positive, windowSums_eq fits, chosen, Option.getD_some,
    min_eq_left lightest.inside]
  rfl

/-- What a joining node is promised about the range it picks. -/
structure GoodChoice (chain : List BlockServerEntry) (ourPeer : PeerId)
    (totalBlocks targetBlocks start stop : Nat) : Prop where
  proper : start < stop
  inside : stop ≤ totalBlocks
  placed : FirstGap chain ourPeer totalBlocks start ∨
    (∀ block < totalBlocks, otherServers chain ourPeer block ≠ 0) ∧
      stop = start + min targetBlocks totalBlocks ∧
      LightestWindow chain ourPeer totalBlocks (min targetBlocks totalBlocks) start

/-- **What a joining node picks.** The range is proper and inside the model. It starts at the
first block no other peer announces, or every block is announced and it is the leftmost
lightest window of the target length. Any chain with the same entries of other peers, in any
order and with any entries of our own, gives the same range. -/
theorem pickGapFromChain_chooses (chain : List BlockServerEntry) (ourPeer : PeerId)
    (totalBlocks targetBlocks : Nat) (unreversed : Unreversed chain) (blocks : 1 ≤ totalBlocks)
    (target : 1 ≤ targetBlocks) :
    ∃ start stop, pickGapFromChain chain ourPeer totalBlocks targetBlocks = .ok (start, stop) ∧
      GoodChoice chain ourPeer totalBlocks targetBlocks start stop ∧
      ∀ other : List BlockServerEntry,
        (chain.filter fun entry => entry.peerId ≠ ourPeer).Perm
          (other.filter fun entry => entry.peerId ≠ ourPeer) →
        pickGapFromChain other ourPeer totalBlocks targetBlocks = .ok (start, stop) := by
  have independent : ∀ other : List BlockServerEntry,
      (chain.filter fun entry => entry.peerId ≠ ourPeer).Perm
        (other.filter fun entry => entry.peerId ≠ ourPeer) →
      pickGapFromChain other ourPeer totalBlocks targetBlocks =
        pickGapFromChain chain ourPeer totalBlocks targetBlocks := by
    intro other same
    have counted : otherCoverage other ourPeer totalBlocks =
        otherCoverage chain ourPeer totalBlocks := by
      rw [otherCoverage_of_unreversed unreversed]
      refine otherCoverage_eq_ok_iff.mpr ⟨fun entry member foreign => ?_, ?_⟩
      · have listed := same.mem_iff.mpr
          (mem_filter.mpr ⟨member, decide_eq_true foreign⟩)
        have ordered := unreversed entry (mem_filter.mp listed).1
        omega
      · exact map_congr_left fun block _ => (otherServers_of_perm same block).symm
    rw [pickGapFromChain, pickGapFromChain, counted]
  by_cases covered : ∀ block < totalBlocks, otherServers chain ourPeer block ≠ 0
  · obtain ⟨start, lightest, picked⟩ :=
      exists_pickGapFromChain_of_covered unreversed (by omega) covered
    exact ⟨start, _, picked, ⟨by omega, lightest.inside, .inr ⟨covered, rfl, lightest⟩⟩,
      fun other same => (independent other same).trans picked⟩
  · obtain ⟨gap, found⟩ := Option.ne_none_iff_exists'.mp
      (findIdx?_eq_none_iff_covered.not.mpr covered)
    have first := findIdx?_eq_some_iff_firstGap.mp found
    have inside := first.inside
    exact ⟨gap, _, pickGapFromChain_of_gap unreversed first,
      ⟨by omega, min_le_right _ _, .inl first⟩, fun other same =>
        (independent other same).trans (pickGapFromChain_of_gap unreversed first)⟩

def halfChain : List BlockServerEntry := [⟨.ofByte 2, 0, 2, "half", none⟩]

theorem halfChain_chooses : ∃ start stop,
    pickGapFromChain halfChain (.ofByte 1) 4 2 = .ok (start, stop) ∧
      GoodChoice halfChain (.ofByte 1) 4 2 start stop ∧
      ∀ other : List BlockServerEntry,
        (halfChain.filter fun entry => entry.peerId ≠ .ofByte 1).Perm
          (other.filter fun entry => entry.peerId ≠ .ofByte 1) →
        pickGapFromChain other (.ofByte 1) 4 2 = .ok (start, stop) :=
  pickGapFromChain_chooses halfChain (.ofByte 1) 4 2 (by decide) (by decide) (by decide)

/-! ## Moving -/

theorem spared_iff {ourStart ourEnd minRedundancy : Nat} (serving : ourStart < ourEnd) :
    minRedundancy ≤ ((List.range' (min ourStart totalBlocks)
        (min ourEnd totalBlocks - min ourStart totalBlocks)).map
          (otherServers chain ourPeer)).min?.getD 0 ↔
      Spared chain ourPeer totalBlocks ourStart ourEnd minRedundancy := by
  by_cases inside : ourStart < totalBlocks
  · have nonempty : (List.range' (min ourStart totalBlocks)
        (min ourEnd totalBlocks - min ourStart totalBlocks)).map (otherServers chain ourPeer) ≠
          [] := by
      rw [ne_eq, map_eq_nil_iff, List.range'_eq_nil_iff]
      omega
    rw [le_min?_getD_iff nonempty, forall_mem_map]
    simp only [mem_range'_1]
    exact ⟨fun enough => ⟨fun block _ _ _ => enough block (by omega), .inr inside⟩,
      fun spared block member => spared.served block (by omega) (by omega) (by omega)⟩
  · -- a range behind the model is empty, and its least count is taken to be 0
    have empty : min ourEnd totalBlocks - min ourStart totalBlocks = 0 := by omega
    rw [empty, List.range'_zero, map_nil, List.min?_nil, Option.getD_none]
    exact ⟨fun none' => ⟨fun block _ _ _ => by omega, .inl (Nat.le_zero.mp none')⟩,
      fun spared => (spared.inside.resolve_right inside).le⟩

/-- **When a running node moves.** Its blocks are spared, and it goes to the first gap. -/
theorem checkRebalance_eq_some_iff {ourStart ourEnd targetBlocks minRedundancy start stop : Nat}
    (unreversed : Unreversed chain) (serving : ourStart < ourEnd) :
    checkRebalance chain ourPeer totalBlocks ourStart ourEnd targetBlocks minRedundancy =
        .ok (some (start, stop)) ↔
      Spared chain ourPeer totalBlocks ourStart ourEnd minRedundancy ∧
        FirstGap chain ourPeer totalBlocks start ∧
        stop = min ((start + targetBlocks) % 2 ^ 64) totalBlocks := by
  by_cases none' : totalBlocks = 0
  · subst none'
    rw [checkRebalance, if_pos (.inl rfl)]
    refine ⟨fun impossible => ?_, fun moves => ?_⟩
    · cases Except.ok.inj impossible
    · exact absurd moves.2.1.inside (Nat.not_lt_zero _)
  · have proper : ¬ (totalBlocks = 0 ∨ ourEnd ≤ ourStart) := by omega
    rw [checkRebalance, if_neg proper, otherCoverage_of_unreversed unreversed]
    simp only [bind, Except.bind, slice_map_range (show min ourStart totalBlocks ≤
      min ourEnd totalBlocks by omega) (min_le_right _ _)]
    rw [← spared_iff serving, ← not_lt, ← findIdx?_eq_some_iff_firstGap]
    split
    case isTrue scarce =>
      refine ⟨fun impossible => ?_, fun moves => absurd scarce moves.1⟩
      cases Except.ok.inj impossible
    case isFalse enough =>
      cases found : ((List.range totalBlocks).map (otherServers chain ourPeer)).findIdx?
          (· = 0) with
      | none =>
        refine ⟨fun impossible => ?_, fun moves => ?_⟩
        · cases Except.ok.inj impossible
        · cases moves.2.1
      | some gap =>
        constructor
        · intro moved
          cases Except.ok.inj moved
          exact ⟨enough, rfl, rfl⟩
        · rintro ⟨_, same, rfl⟩
          cases same
          rfl

/-- A node that may stay returns no proposal. -/
theorem checkRebalance_eq_none_of_not_spared {ourStart ourEnd targetBlocks minRedundancy : Nat}
    (unreversed : Unreversed chain) (serving : ourStart < ourEnd)
    (needed : ¬ Spared chain ourPeer totalBlocks ourStart ourEnd minRedundancy) :
    checkRebalance chain ourPeer totalBlocks ourStart ourEnd targetBlocks minRedundancy =
      .ok none := by
  have returns : (checkRebalance chain ourPeer totalBlocks ourStart ourEnd targetBlocks
      minRedundancy).isOk = true := by
    refine isOk_checkRebalance_iff.mpr (.inr fun entry member _ => ?_)
    have ordered := unreversed entry member
    omega
  cases decided : checkRebalance chain ourPeer totalBlocks ourStart ourEnd targetBlocks
      minRedundancy with
  | error failure => rw [decided] at returns; cases returns
  | ok proposal =>
    cases proposal with
    | none => rfl
    | some range =>
      exact absurd ((checkRebalance_eq_some_iff unreversed serving).mp decided).1 needed

/-- What a move from `[ourStart, ourEnd)` to `[start, stop)` has to guarantee: the range is
proper, no block loses its last server, some block gains its first, a joining node would pick
the same range, and the node stays there. -/
structure SafeMove (chain : List BlockServerEntry) (ourPeer : PeerId)
    (totalBlocks ourStart ourEnd targetBlocks minRedundancy start stop : Nat) : Prop where
  proper : start < stop
  inside : stop ≤ totalBlocks
  kept : ∀ block < totalBlocks,
    (ourStart ≤ block ∧ block < ourEnd) ∨ 0 < otherServers chain ourPeer block →
      (start ≤ block ∧ block < stop) ∨ 0 < otherServers chain ourPeer block
  gained : ∃ block < totalBlocks, ¬ (ourStart ≤ block ∧ block < ourEnd) ∧
    otherServers chain ourPeer block = 0 ∧ start ≤ block ∧ block < stop
  picked : pickGapFromChain chain ourPeer totalBlocks targetBlocks = .ok (start, stop)
  settled : checkRebalance chain ourPeer totalBlocks start stop targetBlocks minRedundancy =
    .ok none

theorem safeMove_of_redundancy {ourStart ourEnd targetBlocks minRedundancy gap : Nat}
    (unreversed : Unreversed chain) (target : 1 ≤ targetBlocks)
    (spared : Spared chain ourPeer totalBlocks ourStart ourEnd minRedundancy)
    (first : FirstGap chain ourPeer totalBlocks gap) (redundancy : 1 ≤ minRedundancy)
    (fits : gap + targetBlocks < 2 ^ 64) :
    SafeMove chain ourPeer totalBlocks ourStart ourEnd targetBlocks minRedundancy gap
      (min ((gap + targetBlocks) % 2 ^ 64) totalBlocks) := by
  rw [Nat.mod_eq_of_lt fits]
  have inside := first.inside
  have proper : gap < min (gap + targetBlocks) totalBlocks := by omega
  refine ⟨proper, min_le_right _ _, fun block within before => ?_,
    ⟨gap, inside, fun ours => ?_, first.uncovered, le_rfl, proper⟩, ?_, ?_⟩
  · rcases before with ours | others
    · exact .inr (redundancy.trans (spared.served block ours.1 ours.2 within))
    · exact .inr others
  · have enough := spared.served gap ours.1 ours.2 inside
    rw [first.uncovered] at enough
    omega
  · have ends : min (gap + min targetBlocks totalBlocks) totalBlocks =
        min (gap + targetBlocks) totalBlocks := by omega
    rw [pickGapFromChain_of_gap unreversed first, ends]
  · refine checkRebalance_eq_none_of_not_spared unreversed proper fun again => ?_
    have enough := again.served gap le_rfl proper inside
    rw [first.uncovered] at enough
    omega

/-- **Safe and settled moves.** For machine words, every proposal of `check_rebalance` is a
safe move exactly when there is none to make (some block the node serves is not spared, or
every block has another server), or the threshold is at least one and the first gap plus the
target does not overflow. -/
theorem checkRebalance_safe_iff (chain : List BlockServerEntry) (ourPeer : PeerId)
    (totalBlocks ourStart ourEnd targetBlocks minRedundancy : Nat)
    (unreversed : Unreversed chain) (serving : ourStart < ourEnd) (target : 1 ≤ targetBlocks)
    (targetWord : targetBlocks < 2 ^ 64) (blocksWord : totalBlocks < 2 ^ 64) :
    (∀ start stop, checkRebalance chain ourPeer totalBlocks ourStart ourEnd targetBlocks
        minRedundancy = .ok (some (start, stop)) →
      SafeMove chain ourPeer totalBlocks ourStart ourEnd targetBlocks minRedundancy start stop) ↔
    ∀ gap, Spared chain ourPeer totalBlocks ourStart ourEnd minRedundancy →
      FirstGap chain ourPeer totalBlocks gap →
      1 ≤ minRedundancy ∧ gap + targetBlocks < 2 ^ 64 := by
  constructor
  · intro safe gap spared first
    have move := safe gap _ ((checkRebalance_eq_some_iff unreversed serving).mpr
      ⟨spared, first, rfl⟩)
    have inside := first.inside
    have proper := move.proper
    have fits : gap + targetBlocks < 2 ^ 64 := by
      by_contra overflows
      have wrapped : (gap + targetBlocks) % 2 ^ 64 = gap + targetBlocks - 2 ^ 64 := by omega
      omega
    refine ⟨?_, fits⟩
    -- without a threshold every range is spared, so the node moves to the gap again
    by_contra none'
    have zero : minRedundancy = 0 := by omega
    have settled := move.settled
    rw [(checkRebalance_eq_some_iff unreversed proper).mpr
      ⟨⟨fun block _ _ _ => by omega, .inl zero⟩, first, rfl⟩] at settled
    cases Except.ok.inj settled
  · intro condition start stop moved
    obtain ⟨spared, first, rfl⟩ := (checkRebalance_eq_some_iff unreversed serving).mp moved
    obtain ⟨redundancy, fits⟩ := condition start spared first
    exact safeMove_of_redundancy unreversed target spared first redundancy fits

/-- Two peers serve the first half of a model of four blocks, and we serve it as well. -/
def sparedChain : List BlockServerEntry :=
  [⟨.ofByte 2, 0, 2, "second", none⟩, ⟨.ofByte 3, 0, 2, "third", none⟩]

/-- With the default threshold we move to the second half. -/
theorem sparedChain_safe :
    checkRebalance sparedChain (.ofByte 1) 4 0 2 2 1 = .ok (some (2, 4)) ∧
      ∀ start stop, checkRebalance sparedChain (.ofByte 1) 4 0 2 2 1 = .ok (some (start, stop)) →
        SafeMove sparedChain (.ofByte 1) 4 0 2 2 1 start stop := by
  refine ⟨by decide +kernel, ?_⟩
  refine (checkRebalance_safe_iff sparedChain (.ofByte 1) 4 0 2 2 1 (by decide) (by decide)
    (by decide) (by decide) (by decide)).mpr fun gap _ first => ?_
  have inside := first.inside
  omega

/-- Another peer serves the last of four blocks, and we serve the two before it. -/
def tailChain : List BlockServerEntry := [⟨.ofByte 2, 3, 4, "tail", none⟩]

/-- With a threshold of 0 we leave our blocks without a server, and the next check proposes
the same move again. -/
theorem tailChain_not_safe :
    checkRebalance tailChain (.ofByte 1) 4 1 3 1 0 = .ok (some (0, 1)) ∧
      checkRebalance tailChain (.ofByte 1) 4 0 1 1 0 = .ok (some (0, 1)) ∧
      otherServers tailChain (.ofByte 1) 1 = 0 ∧
      ¬ ∀ start stop, checkRebalance tailChain (.ofByte 1) 4 1 3 1 0 = .ok (some (start, stop)) →
        SafeMove tailChain (.ofByte 1) 4 1 3 1 0 start stop := by
  have moved : checkRebalance tailChain (.ofByte 1) 4 1 3 1 0 = .ok (some (0, 1)) := by
    decide +kernel
  have again : checkRebalance tailChain (.ofByte 1) 4 0 1 1 0 = .ok (some (0, 1)) := by
    decide +kernel
  refine ⟨moved, again, by decide +kernel, fun safe => ?_⟩
  have settled := (safe 0 1 moved).settled
  rw [again] at settled
  cases Except.ok.inj settled

end KwaaiNet
