import KwaaiNet.Inference.BlockRpc

/-! # What a failed pass leaves in the caches

A pass can fail at every block, and a block can fail at every tensor operation. Shapes and
positions are checked by operations that come before a block touches its cache, but the cached
keys are taken out before the new ones are concatenated to them. So a tensor of another batch
size fails after the blocks in front have been extended and the cache in the way is gone:
`KwaaiNet.TransformerShard.runBlocks_failure_unchanged_iff` says that this is the only way in
which a failed pass changes a cache.
-/

namespace KwaaiNet

namespace TransformerShard

variable (shard : TransformerShard) (now : Nat) (x : Tensor) (seqPos : Nat) (id : UInt64)
  (sessions : shard.Sessions)

/-- A pass leaves every cache of every session as it was. A session that does not exist has
empty caches. -/
def LeavesCaches : Prop :=
  ∀ other, shard.heldCaches (shard.runBlocks now x seqPos id sessions).1 other =
    shard.heldCaches sessions other

variable {shard now x seqPos id sessions}

theorem heldCaches_runBlocks_of_ne {other : UInt64} (different : other ≠ id) :
    shard.heldCaches (shard.runBlocks now x seqPos id sessions).1 other =
      shard.heldCaches sessions other := by
  have kept : (shard.runBlocks now x seqPos id sessions).1 other = sessions other :=
    Function.update_of_ne different _ _
  rw [heldCaches, heldCaches, kept]

theorem leavesCaches_iff :
    shard.LeavesCaches now x seqPos id sessions ↔
      (forwardBlocks shard.cfg seqPos shard.blocks (shard.heldCaches sessions id) x).1 =
        shard.heldCaches sessions id := by
  rw [← heldCaches_runBlocks shard now]
  constructor
  · intro unchanged
    exact unchanged id
  · intro unchanged other
    by_cases same : other = id
    · rw [same, unchanged]
    · exact heldCaches_runBlocks_of_ne same

theorem not_leavesCaches_of_conflict {batch length : Nat}
    (fits : Fits shard.cfg seqPos batch length x) {kv : Option KvCache}
    (member : kv ∈ shard.heldCaches sessions id) (disagrees : conflicts batch kv = true) :
    (∃ fault, (shard.runBlocks now x seqPos id sessions).2 = .error fault) ∧
      ¬ shard.LeavesCaches now x seqPos id sessions := by
  have complete := shard.length_heldCaches sessions id
  -- the pass ends at the first such cache
  obtain ⟨first, found⟩ := Option.isSome_iff_exists.mp
    (List.find?_isSome.mpr ⟨kv, member, disagrees⟩)
  obtain ⟨conflict, front, back, split, agree⟩ := List.find?_eq_some_iff_append.mp found
  rw [leavesCaches_iff, runBlocks_snd, split]
  rw [split] at complete
  obtain ⟨after, fault, ran, extended⟩ := forwardBlocks_conflicts shard.blocks complete fits
    (fun kv earlier => by simpa using agree kv earlier) conflict
  rw [ran]
  refine ⟨⟨fault, rfl⟩, fun same => ?_⟩
  obtain ⟨_, tail⟩ := List.append_inj same extended.length_eq.symm
  obtain ⟨dropped, _⟩ := List.cons.inj tail
  rw [← dropped] at conflict
  cases conflict

/-- **Failed passes and caches.** A pass that fails leaves every cache of its session and of
every other session unchanged exactly when, for a tensor whose shape and position pass the
checks of a block, no cache of the session was filled with another batch size. -/
theorem runBlocks_failure_unchanged_iff (shard : TransformerShard) (now : Nat) (x : Tensor)
    (seqPos : Nat) (id : UInt64) (sessions : shard.Sessions) :
    ((∃ fault, (shard.runBlocks now x seqPos id sessions).2 = .error fault) →
        shard.LeavesCaches now x seqPos id sessions) ↔
      ∀ batch length, Fits shard.cfg seqPos batch length x →
        ∀ kv ∈ shard.heldCaches sessions id, conflicts batch kv = false := by
  constructor
  · intro safe batch length fits kv member
    by_contra disagrees
    obtain ⟨failed, changed⟩ := not_leavesCaches_of_conflict fits member
      (Bool.eq_true_of_not_eq_false disagrees)
    exact changed (safe failed)
  · rintro agree ⟨fault, failed⟩
    have complete := shard.length_heldCaches sessions id
    rw [leavesCaches_iff]
    rw [runBlocks_snd] at failed
    by_cases fits : ∃ batch length, Fits shard.cfg seqPos batch length x
    · obtain ⟨batch, length, fits⟩ := fits
      obtain ⟨after, y, ran, _⟩ := forwardBlocks_extends shard.blocks complete fits
        (agree batch length fits)
      rw [ran] at failed
      cases failed
    · obtain ⟨fault, ran⟩ := forwardBlocks_unfit shard.blocks_ne_nil complete
        fun batch length fit => fits ⟨batch, length, fit⟩
      rw [ran]

end TransformerShard

def warmSessions : soloShard.Sessions :=
  (soloShard.runBlocks 0 ⟨[1, 1, 1], [3]⟩ 0 7 fun _ => none).1

/-- A request for the same session with two batch elements decodes, fails, and leaves the
session without its cached position. -/
theorem warmSessions_lose_cache :
    f16BytesToTensor [4, 0, 5, 0] [2, 1, 1] = .ok ⟨[2, 1, 1], [4, 5]⟩ ∧
      (soloShard.runBlocks 1 ⟨[2, 1, 1], [4, 5]⟩ 1 7 warmSessions).2 = .error (.cat 1 2) ∧
      soloShard.heldCaches warmSessions 7 = [some ⟨1, [⟨0, [3], [3]⟩]⟩] ∧
      soloShard.heldCaches (soloShard.runBlocks 1 ⟨[2, 1, 1], [4, 5]⟩ 1 7 warmSessions).1 7 =
        [none] ∧
      ¬ ((∃ fault, (soloShard.runBlocks 1 ⟨[2, 1, 1], [4, 5]⟩ 1 7 warmSessions).2 =
          .error fault) → soloShard.LeavesCaches 1 ⟨[2, 1, 1], [4, 5]⟩ 1 7 warmSessions) := by
  refine ⟨by decide, rfl, rfl, rfl, fun safe => ?_⟩
  have kept := safe ⟨_, rfl⟩ 7
  have lost : soloShard.heldCaches (soloShard.runBlocks 1 ⟨[2, 1, 1], [4, 5]⟩ 1 7
      warmSessions).1 7 = [none] := rfl
  rw [lost] at kept
  cases kept

end KwaaiNet
