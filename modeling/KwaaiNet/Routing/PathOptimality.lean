import KwaaiNet.Foundation.Covering
import KwaaiNet.Routing.PinnedPath

/-! # Pinned paths are complete and shortest

`build_pinned_path` repeats one step: take the live entry that reaches farthest from the
current position and continue at its end. The loop ends after at most `total_blocks`
iterations, finds a path whenever every block has a live entry, and no other linked
sequence of live entries that covers the model has fewer hops
(`KwaaiNet.buildPinnedPath_complete_shortest`).
-/

namespace KwaaiNet

open Foundation

variable (chain : List BlockServerEntry) (totalBlocks : Nat) (failedPeers : Finset PeerId)

/-- The loop of `build_pinned_path` with its two variables, cut off after a number of
iterations; nothing when it has not ended by then. -/
def pinLoop : Nat → Nat → List BlockServerEntry → Option (Except String (List BlockServerEntry))
  | 0, pos, path => if pos < totalBlocks then none else some (.ok path)
  | iterations + 1, pos, path =>
    if pos < totalBlocks then
      match widestAt chain failedPeers pos with
      | some entry => pinLoop iterations entry.endBlock (path ++ [entry])
      | none => some (.error (noServerCovers pos))
    else some (.ok path)

/-- A sequence of live entries that covers the model: ends increase, each entry covers the
end of its predecessor, and the first covers block 0. -/
structure CoveringPath (path : List BlockServerEntry) : Prop where
  live : ∀ entry ∈ path, entry ∈ chain ∧ entry.peerId ∉ failedPeers
  increasing : (path.map BlockServerEntry.endBlock).Pairwise (· < ·)
  first : ∀ entry ∈ path.head?, entry.covers 0 = true
  linked : path.IsChain fun before entry => entry.covers before.endBlock = true
  covers : ∀ block < totalBlocks, ∃ entry ∈ path, entry.covers block = true

variable {chain totalBlocks failedPeers}

theorem BlockServerEntry.contains_iff {block : Nat} {entry : BlockServerEntry} :
    Contains startBlock endBlock block entry ↔ entry.covers block = true :=
  covers_iff.symm

theorem pinLoop_eq {iterations pos : Nat} {path : List BlockServerEntry}
    (enough : totalBlocks ≤ pos + iterations) :
    pinLoop chain totalBlocks failedPeers iterations pos path =
      some ((pinFrom chain totalBlocks failedPeers pos).map (path ++ ·)) := by
  induction iterations generalizing pos path with
  | zero =>
    have ended : ¬ pos < totalBlocks := by omega
    rw [pinLoop, pinFrom_of_end ended, if_neg ended, Except.map, List.append_nil]
  | succ iterations ih =>
    rw [pinLoop]
    by_cases inside : pos < totalBlocks
    · rw [if_pos inside]
      cases found : widestAt chain failedPeers pos with
      | none => rw [pinFrom_of_gap inside found]; rfl
      | some entry =>
        have reached := (BlockServerEntry.live_iff.mp
          (widestAt_eq_some_iff.mp found).live).2.1
        rw [pinFrom_of_widest inside found]
        dsimp only
        rw [ih (by omega)]
        cases pinFrom chain totalBlocks failedPeers entry.endBlock with
        | error message => rfl
        | ok rest => simp only [Except.map, List.append_assoc, List.cons_append,
            List.nil_append]
    · rw [if_neg inside, pinFrom_of_end inside, Except.map, List.append_nil]

theorem PinnedFrom.farthest {pos : Nat} {path : List BlockServerEntry}
    (pinned : PinnedFrom chain totalBlocks failedPeers pos path) :
    Farthest BlockServerEntry.startBlock BlockServerEntry.endBlock
      (fun entry => entry ∈ chain ∧ entry.peerId ∉ failedPeers) totalBlocks pos path := by
  induction pinned with
  | stop reached => exact .done reached
  | hop inside preferred _ ih =>
    obtain ⟨starts, ends, unfailed⟩ := BlockServerEntry.live_iff.mp preferred.live
    refine .hop inside ⟨preferred.mem, unfailed⟩ ⟨starts, ends⟩ ?_ ih
    intro other available contains
    exact preferred.endBlock_le available.1
      (BlockServerEntry.live_iff.mpr ⟨contains.1, contains.2, available.2⟩)

theorem PinnedFrom.coveringPath {path : List BlockServerEntry}
    (pinned : PinnedFrom chain totalBlocks failedPeers 0 path) :
    CoveringPath chain totalBlocks failedPeers path where
  live := pinned.farthest.offered
  increasing := pinned.farthest.leads.increasing
  first entry found := BlockServerEntry.contains_iff.mp (pinned.farthest.leads.first entry found)
  linked := pinned.farthest.leads.linked.imp fun _ _ => BlockServerEntry.contains_iff.mp
  covers block inside := by
    obtain ⟨entry, member, contains⟩ := pinned.farthest.leads.covers (Nat.zero_le block) inside
    exact ⟨entry, member, BlockServerEntry.contains_iff.mp contains⟩

theorem CoveringPath.leads {path : List BlockServerEntry}
    (covering : CoveringPath chain totalBlocks failedPeers path) :
    Leads BlockServerEntry.startBlock BlockServerEntry.endBlock totalBlocks 0 path := by
  refine leads_of_covers (fun entry found => ?_) ?_ fun block _ inside => ?_
  · exact BlockServerEntry.contains_iff.mpr (covering.first entry found)
  · exact covering.linked.imp fun _ _ => BlockServerEntry.contains_iff.mpr
  · obtain ⟨entry, member, covers⟩ := covering.covers block inside
    exact ⟨entry, member, BlockServerEntry.contains_iff.mpr covers⟩

/-- **Pinning is complete and shortest.** The loop has ended after `totalBlocks` iterations;
it returns a path exactly when every block lies in the range of an entry that has not
failed; and a returned path is a covering path with the fewest hops. -/
theorem buildPinnedPath_complete_shortest (chain : List BlockServerEntry) (totalBlocks : Nat)
    (failedPeers : Finset PeerId) :
    pinLoop chain totalBlocks failedPeers totalBlocks 0 [] =
        some (buildPinnedPath chain totalBlocks failedPeers) ∧
      ((∃ path, buildPinnedPath chain totalBlocks failedPeers = .ok path) ↔
        ∀ block < totalBlocks, ∃ entry ∈ chain,
          entry.peerId ∉ failedPeers ∧ entry.covers block = true) ∧
      ∀ path, buildPinnedPath chain totalBlocks failedPeers = .ok path →
        CoveringPath chain totalBlocks failedPeers path ∧
          ∀ other, CoveringPath chain totalBlocks failedPeers other →
            path.length ≤ other.length := by
  refine ⟨?_, ?_, fun path built => ?_⟩
  · rw [pinLoop_eq (Nat.le_add_left _ _), buildPinnedPath]
    cases pinFrom chain totalBlocks failedPeers 0 <;> rfl
  · rw [exists_buildPinnedPath_iff, HasGap]
    push Not
    refine forall₂_congr fun block _ => exists_congr fun entry => and_congr_right fun _ => ?_
    rw [BlockServerEntry.live_iff, BlockServerEntry.covers_iff]
    tauto
  · have pinned := pinFrom_eq_ok_iff.mp built
    refine ⟨pinned.coveringPath, fun other covering => ?_⟩
    exact pinned.farthest.length_le le_rfl covering.live covering.leads

end KwaaiNet
