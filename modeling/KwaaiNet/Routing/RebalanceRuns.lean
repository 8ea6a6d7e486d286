import Mathlib
import KwaaiNet.Foundation.Execution
import KwaaiNet.Routing.Rebalancer

/-! # Nodes that rebalance concurrently

Each node takes a snapshot of the announced ranges, decides on it, and moves later: the
shard server stops, queries the network again and serves what `pick_gap_from_chain`
returns. A decision to move is safe on the chain it was taken on; it stays safe when the
announcements it relied on still stand at the move
(`KwaaiNet.Fleet.served_of_undisturbed_run`). Nothing in the code makes sure of that, and
two nodes backing up each other can both leave
(`KwaaiNet.twinFleet_loses_block`).
-/

namespace KwaaiNet

open Foundation

/-- The nodes of a network and their settings. -/
structure Fleet (n : Nat) where
  peer : Fin n → PeerId
  distinct : Function.Injective peer
  publicName : Fin n → String
  totalBlocks : Nat
  targetBlocks : Fin n → Nat
  minRedundancy : Fin n → Nat
  redundant : ∀ node, 1 ≤ minRedundancy node

/-- The range each node serves and announces, and the snapshot on which it has decided
to move, if it has. -/
structure FleetState (n : Nat) where
  range : Fin n → Span
  pending : Fin n → Option (List BlockServerEntry)

/-- A node discovers the chain to check it, or to move. -/
inductive RebalanceEvent (n : Nat) where
  | check (node : Fin n) (chain : List BlockServerEntry)
  | move (node : Fin n) (chain : List BlockServerEntry)

namespace Fleet

variable {n : Nat} (fleet : Fleet n)

def entry (state : FleetState n) (node : Fin n) : BlockServerEntry where
  peerId := fleet.peer node
  startBlock := (state.range node).start
  endBlock := (state.range node).stop
  publicName := fleet.publicName node
  trustScore := none

/-- What all nodes announce. -/
def announced (state : FleetState n) : List BlockServerEntry := List.ofFn (fleet.entry state)

def decision (state : FleetState n) (node : Fin n) (chain : List BlockServerEntry) :
    Except Panic (Option (Nat × Nat)) :=
  checkRebalance chain (fleet.peer node) fleet.totalBlocks (state.range node).start
    (state.range node).stop (fleet.targetBlocks node) (fleet.minRedundancy node)

/-- One step of a node. A chain is discovered in some order; a node that has decided to
move checks no more until it has moved. -/
inductive Step : FleetState n → RebalanceEvent n → FleetState n → Prop
  | stay {state : FleetState n} {node : Fin n} {chain : List BlockServerEntry} :
      state.pending node = none → chain.Perm (fleet.announced state) →
      fleet.decision state node chain = .ok none →
      Step state (.check node chain) state
  | decide {state : FleetState n} {node : Fin n} {chain : List BlockServerEntry}
      {proposal : Nat × Nat} :
      state.pending node = none → chain.Perm (fleet.announced state) →
      fleet.decision state node chain = .ok (some proposal) →
      Step state (.check node chain)
        { state with pending := Function.update state.pending node (some chain) }
  | move {state : FleetState n} {node : Fin n} {chain snapshot : List BlockServerEntry}
      {range : Nat × Nat} :
      state.pending node = some snapshot → chain.Perm (fleet.announced state) →
      pickGapFromChain chain (fleet.peer node) fleet.totalBlocks (fleet.targetBlocks node) =
        .ok range →
      Step state (.move node chain)
        { range := Function.update state.range node ⟨range.1, range.2⟩
          pending := Function.update state.pending node none }

def Served (state : FleetState n) (block : Nat) : Prop :=
  ∃ node, (state.range node).start ≤ block ∧ block < (state.range node).stop

def Undisturbed (state : FleetState n) : RebalanceEvent n → Prop
  | .check _ _ => True
  | .move node _ => ∀ snapshot, state.pending node = some snapshot →
      ∀ other ∈ snapshot, other.peerId ≠ fleet.peer node →
        (∃ block, ((state.range node).start ≤ block ∧ block < (state.range node).stop) ∧
          other.covers block = true) →
        other ∈ fleet.announced state

def UndisturbedStep (state : FleetState n) (event : RebalanceEvent n) (next : FleetState n) :
    Prop :=
  fleet.Step state event next ∧ fleet.Undisturbed state event

/-- Every node about to move decided so on its snapshot, for the range it still serves. -/
def Decided (state : FleetState n) : Prop :=
  ∀ node snapshot, state.pending node = some snapshot →
    ∃ proposal, fleet.decision state node snapshot = .ok (some proposal)

variable {fleet}

theorem decision_congr {state other : FleetState n} {node : Fin n}
    (same : state.range node = other.range node) (chain : List BlockServerEntry) :
    fleet.decision state node chain = fleet.decision other node chain := by
  unfold decision
  rw [same]

theorem Step.decided {state next : FleetState n} {event : RebalanceEvent n}
    (decided : fleet.Decided state) (step : fleet.Step state event next) :
    fleet.Decided next := by
  intro node snapshot pending
  cases step with
  | stay _ _ _ => exact decided node snapshot pending
  | @decide mover chain proposal _ _ agreed =>
    by_cases same : node = mover
    · subst same
      obtain rfl : chain = snapshot := by simpa using pending
      exact ⟨proposal, agreed⟩
    · exact decided node snapshot (by simpa [same] using pending)
  | @move mover chain old range _ _ _ =>
    have other : node ≠ mover := by
      rintro rfl
      simp at pending
    obtain ⟨proposal, agreed⟩ := decided node snapshot (by simpa [other] using pending)
    refine ⟨proposal, Eq.trans (decision_congr ?_ snapshot) agreed⟩
    exact Function.update_of_ne other _ _

theorem served_by_other {state : FleetState n} {node : Fin n} {block : Nat}
    {snapshot chain : List BlockServerEntry} (decided : fleet.Decided state)
    (undisturbed : fleet.Undisturbed state (.move node chain))
    (pending : state.pending node = some snapshot)
    (served : (state.range node).start ≤ block ∧ block < (state.range node).stop)
    (inside : block < fleet.totalBlocks) :
    ∃ other ≠ node, (state.range other).start ≤ block ∧ block < (state.range other).stop := by
  obtain ⟨proposal, agreed⟩ := decided node snapshot pending
  have enough := checkRebalance_redundant agreed served inside
  have positive : 0 < otherServers snapshot (fleet.peer node) block :=
    lt_of_lt_of_le (fleet.redundant node) enough
  obtain ⟨entry, member, covering⟩ := List.countP_pos_iff.mp positive
  rw [Bool.and_eq_true, decide_eq_true_eq] at covering
  obtain ⟨foreign, covers⟩ := covering
  have standing := undisturbed snapshot pending entry member foreign ⟨block, served, covers⟩
  obtain ⟨other, rfl⟩ := List.mem_ofFn.mp standing
  refine ⟨other, fun same => foreign (congrArg fleet.peer same), ?_⟩
  exact BlockServerEntry.covers_iff.mp covers

theorem Step.served {state next : FleetState n} {event : RebalanceEvent n} {block : Nat}
    (decided : fleet.Decided state) (undisturbed : fleet.Undisturbed state event)
    (step : fleet.Step state event next) (inside : block < fleet.totalBlocks)
    (served : Served state block) : Served next block := by
  cases step with
  | stay _ _ _ => exact served
  | decide _ _ _ => exact served
  | @move mover chain snapshot range pending _ _ =>
    obtain ⟨server, covers⟩ := served
    obtain ⟨other, foreign, covers⟩ : ∃ other ≠ mover,
        (state.range other).start ≤ block ∧ block < (state.range other).stop := by
      by_cases same : server = mover
      · subst same
        exact served_by_other decided undisturbed pending covers inside
      · exact ⟨server, same, covers⟩
    refine ⟨other, ?_⟩
    simpa [Function.update_of_ne foreign] using covers

/-- **Coverage of undisturbed runs.** When every move of a run is undisturbed, a block
served at the start, where no node has decided yet, is served in every state reached. -/
theorem served_of_undisturbed_run (fleet : Fleet n) (ranges : Fin n → Span)
    (events : List (RebalanceEvent n)) (last : FleetState n)
    (run : Run fleet.UndisturbedStep ⟨ranges, fun _ => none⟩ events last)
    (block : Nat) (inside : block < fleet.totalBlocks)
    (served : Served ⟨ranges, fun _ => none⟩ block) : Served last block := by
  have kept : ∀ state event next, fleet.Decided state ∧ Served state block →
      fleet.UndisturbedStep state event next →
      fleet.Decided next ∧ Served next block := by
    rintro state event next ⟨decided, served⟩ ⟨step, undisturbed⟩
    exact ⟨step.decided decided, step.served decided undisturbed inside served⟩
  exact (run.invariant kept ⟨nofun, served⟩).2

end Fleet

/-! ## Two nodes backing up each other -/

/-- Two nodes of 24 blocks, each content with one other server. -/
def twinFleet : Fleet 2 where
  peer := ![.ofByte 1, .ofByte 2]
  distinct := by decide
  publicName := fun _ => ""
  totalBlocks := 24
  targetBlocks := fun _ => 8
  minRedundancy := fun _ => 1
  redundant := by decide

/-- What the two nodes announce when they serve the given ranges. -/
def twinChain (first second : Span) : List BlockServerEntry :=
  twinFleet.announced ⟨![first, second], fun _ => none⟩

def twinStart : FleetState 2 := ⟨![⟨16, 24⟩, ⟨16, 24⟩], fun _ => none⟩

theorem twinFleet_decision (node : Fin 2) (pending : Fin 2 → Option (List BlockServerEntry)) :
    twinFleet.decision ⟨![⟨16, 24⟩, ⟨16, 24⟩], pending⟩ node (twinChain ⟨16, 24⟩ ⟨16, 24⟩) =
      .ok (some (0, 8)) := by
  fin_cases node <;> rfl

theorem twinFleet_firstGap :
    pickGapFromChain (twinChain ⟨16, 24⟩ ⟨16, 24⟩) (twinFleet.peer 0) 24 8 = .ok (0, 8) := rfl

/-- One node checks and moves while the other stays: block 16 is still served. -/
theorem twinFleet_keeps_block :
    ∃ last, Run twinFleet.UndisturbedStep twinStart
        [.check 0 (twinChain ⟨16, 24⟩ ⟨16, 24⟩), .move 0 (twinChain ⟨16, 24⟩ ⟨16, 24⟩)] last ∧
      Fleet.Served twinStart 16 ∧ Fleet.Served last 16 := by
  have served : Fleet.Served twinStart 16 := ⟨0, by decide⟩
  obtain ⟨last, run⟩ : ∃ last, Run twinFleet.UndisturbedStep twinStart
      [.check 0 (twinChain ⟨16, 24⟩ ⟨16, 24⟩), .move 0 (twinChain ⟨16, 24⟩ ⟨16, 24⟩)] last := by
    refine ⟨_, .cons ⟨.decide rfl (.of_eq rfl) (twinFleet_decision 0 _), trivial⟩
      (.cons ⟨.move rfl (.of_eq rfl) twinFleet_firstGap, ?_⟩ (.nil _))⟩
    intro snapshot pending other member _ _
    obtain rfl := Option.some.inj pending
    exact member
  exact ⟨last, run, served,
    Fleet.served_of_undisturbed_run twinFleet _ _ last run 16 (by decide) served⟩

/-- Both nodes check while both serve blocks 16 to 23, then one moves after the other. -/
def twinEvents : List (RebalanceEvent 2) :=
  [.check 0 (twinChain ⟨16, 24⟩ ⟨16, 24⟩), .check 1 (twinChain ⟨16, 24⟩ ⟨16, 24⟩),
    .move 0 (twinChain ⟨16, 24⟩ ⟨16, 24⟩), .move 1 (twinChain ⟨0, 8⟩ ⟨16, 24⟩)]

/-- After these events nobody serves block 16, which both nodes served at the start. -/
theorem twinFleet_loses_block :
    ∃ last, Run twinFleet.Step twinStart twinEvents last ∧
      Fleet.Served twinStart 16 ∧ ¬ Fleet.Served last 16 := by
  have second : pickGapFromChain (twinChain ⟨0, 8⟩ ⟨16, 24⟩) (twinFleet.peer 1) 24 8 =
      .ok (8, 16) := rfl
  have moved : ∀ pending, (twinChain ⟨0, 8⟩ ⟨16, 24⟩).Perm (twinFleet.announced
      ⟨Function.update ![⟨16, 24⟩, ⟨16, 24⟩] 0 ⟨0, 8⟩, pending⟩) := fun _ => .of_eq rfl
  refine ⟨_, .cons (.decide rfl (.of_eq rfl) (twinFleet_decision 0 _)) (.cons (.decide rfl
    (.of_eq rfl) (twinFleet_decision 1 _)) (.cons (.move rfl (.of_eq rfl) twinFleet_firstGap)
      (.cons (.move rfl (moved _) second) (.nil _)))), ⟨0, by decide⟩, ?_⟩
  rintro ⟨node, covers⟩
  fin_cases node <;> simp at covers

end KwaaiNet
