import Mathlib
import KwaaiNet.Foundation.Execution
import KwaaiNet.Foundation.Text
import KwaaiNet.Routing.PinnedPath

/-! # Circuits

A circuit is a path through the servers of a model that is kept in a file under an id for several
requests. The id is a hash of the second of its creation and of the own peer id, so two circuits of
one second have the same id. Looking up a circuit takes the first one that has not expired and whose
id starts with the argument; closing removes all that start with it.
`KwaaiNet.circuitIds_identify_iff` says when ids identify circuits.
-/

namespace KwaaiNet

open Foundation List

/-- A server of a stored path. -/
structure SerializableEntry where
  peerIdB58 : String
  startBlock : Nat
  endBlock : Nat
  publicName : String
  deriving DecidableEq

/-- `SerializableEntry::from_entry`. -/
def SerializableEntry.fromEntry (entry : BlockServerEntry) : SerializableEntry :=
  ⟨entry.peerId.toBase58, entry.startBlock, entry.endBlock, entry.publicName⟩

structure Circuit where
  id : String
  pinnedPath : List SerializableEntry
  chain : List SerializableEntry
  totalBlocks : Nat
  ttlSecs : Nat
  createdEpoch : Nat
  lastUsedEpoch : Nat
  deriving DecidableEq

namespace Circuit

def live (now : Nat) (circuit : Circuit) : Bool :=
  decide (now - circuit.lastUsedEpoch < circuit.ttlSecs)

def named (id : String) (circuit : Circuit) : Bool :=
  circuit.id = id || Text.startsWith circuit.id id

end Circuit

/-- `prune_circuits`. -/
def pruneCircuits (now : Nat) (circuits : List Circuit) : List Circuit :=
  circuits.filter (Circuit.live now)

/-- `load_circuit_by_id`. -/
def loadCircuitById (circuits : List Circuit) (id : String) (now : Nat) : Except String Circuit :=
  match (pruneCircuits now circuits).find? (Circuit.named id) with
  | some circuit => .ok circuit
  | none => .error s!"Circuit '{id}' not found (expired or never created)"

/-! ## Commands -/

/-- What a creation is given: the chain that was discovered, the arguments and the clock each time
it is read. -/
structure Creation where
  chain : List BlockServerEntry
  nameFilter : Option String
  totalBlocks : Nat
  ttlMinutes : Nat
  ourPeerId : PeerId
  seedEpoch : Nat
  createdEpoch : Nat
  usedEpoch : Nat
  pruneEpoch : Nat

inductive CreateError where
  | noMatch (nameFilter : String)
  | noPath (message : String)

namespace Creation

def filtered (creation : Creation) : Except CreateError (List BlockServerEntry) :=
  match creation.nameFilter with
  | none => .ok creation.chain
  | some part =>
    let filtered := creation.chain.filter fun entry => part.toList <:+: entry.publicName.toList
    if filtered.isEmpty then .error (.noMatch part) else .ok filtered

/-- The text of which the id is a hash. -/
def seed (creation : Creation) : String :=
  String.ofList (Nat.toDigits 10 creation.seedEpoch) ++ creation.ourPeerId.toBase58

/-- The time to live, in the arithmetic of `u64`. -/
def ttlSecs (creation : Creation) : Nat := creation.ttlMinutes * 60 % 2 ^ 64

end Creation

/-- The commands, each with the clock each time it is read. -/
inductive CircuitCommand where
  | create (creation : Creation)
  | list (pruneEpoch : Nat)
  | close (id : String)
  | run (id : String) (pruneEpoch usedEpoch : Nat)

def CircuitCommand.seed? : CircuitCommand → Option String
  | .create creation => some creation.seed
  | _ => none

/-- `cmd_circuit_close`: the circuits that are left, and what is printed. -/
def cmdCircuitClose (circuits : List Circuit) (id : String) : List Circuit × String :=
  let left := circuits.filter fun circuit =>
    circuit.id ≠ id && !Text.startsWith circuit.id id
  (left, if 0 < circuits.length - left.length then s!"Circuit {id} closed"
    else s!"Circuit '{id}' not found")

def useCircuit (circuits : List Circuit) (id : String) (pruneEpoch usedEpoch : Nat) :
    List Circuit :=
  match loadCircuitById circuits id pruneEpoch with
  | .error _ => circuits
  | .ok found =>
    circuits.modify (circuits.findIdx fun circuit => circuit.id = found.id) fun circuit =>
      { circuit with lastUsedEpoch := usedEpoch }

section Commands

variable (circuitIdFrom : String → String)

def Creation.circuit (creation : Creation) (chain path : List BlockServerEntry) : Circuit where
  id := circuitIdFrom creation.seed
  pinnedPath := path.map .fromEntry
  chain := chain.map .fromEntry
  totalBlocks := creation.totalBlocks
  ttlSecs := creation.ttlSecs
  createdEpoch := creation.createdEpoch
  lastUsedEpoch := creation.usedEpoch

/-- `cmd_circuit_create`, from the chain that was discovered on. -/
def cmdCircuitCreate (circuits : List Circuit) (creation : Creation) :
    Except CreateError (List Circuit) := do
  let chain ← creation.filtered
  let path ← (buildPinnedPath chain creation.totalBlocks ∅).mapError .noPath
  return pruneCircuits creation.pruneEpoch circuits ++ [creation.circuit circuitIdFrom chain path]

def circuitStep (circuits : List Circuit) : CircuitCommand → List Circuit
  | .create creation =>
    match cmdCircuitCreate circuitIdFrom circuits creation with
    | .ok after => after
    | .error _ => circuits
  | .list pruneEpoch => pruneCircuits pruneEpoch circuits
  | .close id => (cmdCircuitClose circuits id).1
  | .run id pruneEpoch usedEpoch => useCircuit circuits id pruneEpoch usedEpoch

def circuitsAfter (commands : List CircuitCommand) : List Circuit :=
  commands.foldl (circuitStep circuitIdFrom) []

end Commands

/-! ## Distinct ids -/

def DistinctLive (circuits : List Circuit) : Prop :=
  ∀ now, ((pruneCircuits now circuits).map Circuit.id).Nodup

/-- The ids of the circuits that are live for some time, and how long. -/
def lastingIds (keys : List (String × Nat)) : List String :=
  (keys.filter fun key => 0 < key.2).map Prod.fst

def Circuit.key (circuit : Circuit) : String × Nat := (circuit.id, circuit.ttlSecs)

theorem lastingIds_map_key (circuits : List Circuit) :
    lastingIds (circuits.map Circuit.key) =
      (circuits.filter fun circuit => 0 < circuit.ttlSecs).map Circuit.id := by
  rw [lastingIds, filter_map, map_map]
  rfl

theorem distinctLive_iff {circuits : List Circuit} :
    DistinctLive circuits ↔ (lastingIds (circuits.map Circuit.key)).Nodup := by
  rw [lastingIds_map_key]
  constructor
  · intro distinct
    -- at the epoch every circuit with some time to live is live
    have early := distinct 0
    have all : Circuit.live 0 = fun circuit => decide (0 < circuit.ttlSecs) := by
      funext circuit
      rw [Circuit.live, Nat.zero_sub]
    rwa [pruneCircuits, all] at early
  · intro distinct now
    refine distinct.sublist (List.Sublist.map _ ?_)
    rw [pruneCircuits]
    refine monotone_filter_right _ fun circuit live => ?_
    have lasting := of_decide_eq_true live
    exact decide_eq_true (by omega)

section Runs

variable {circuitIdFrom : String → String}

theorem cmdCircuitCreate_eq_ok {circuits after : List Circuit} {creation : Creation}
    (created : cmdCircuitCreate circuitIdFrom circuits creation = .ok after) :
    ∃ chain path, after = pruneCircuits creation.pruneEpoch circuits ++
      [creation.circuit circuitIdFrom chain path] := by
  rw [cmdCircuitCreate] at created
  cases filtered : creation.filtered with
  | error fault =>
    rw [filtered] at created
    cases created
  | ok chain =>
    rw [filtered] at created
    cases pinned : (buildPinnedPath chain creation.totalBlocks ∅).mapError
        CreateError.noPath with
    | error fault =>
      simp only [pinned, bind, Except.bind] at created
      cases created
    | ok path =>
      simp only [pinned, bind, Except.bind] at created
      exact ⟨chain, path, (Except.ok.inj created).symm⟩

theorem map_key_useCircuit (circuits : List Circuit) (id : String) (pruneEpoch usedEpoch : Nat) :
    (useCircuit circuits id pruneEpoch usedEpoch).map Circuit.key = circuits.map Circuit.key := by
  rw [useCircuit]
  split
  · rfl
  · exact map_modify_of_kept fun _ => rfl

variable (circuitIdFrom) in
theorem circuitStep_cases (circuits : List Circuit) (command : CircuitCommand) :
    (∃ creation chain path, command = .create creation ∧
      cmdCircuitCreate circuitIdFrom circuits creation = .ok (circuitStep circuitIdFrom circuits
        command) ∧
      circuitStep circuitIdFrom circuits command = pruneCircuits creation.pruneEpoch circuits ++
        [creation.circuit circuitIdFrom chain path]) ∨
    (∀ creation after, command = .create creation →
      cmdCircuitCreate circuitIdFrom circuits creation ≠ .ok after) ∧
      ((circuitStep circuitIdFrom circuits command).map Circuit.key).Sublist
        (circuits.map Circuit.key) := by
  cases command with
  | create creation =>
    cases created : cmdCircuitCreate circuitIdFrom circuits creation with
    | error fault =>
      refine .inr ⟨fun other after same => ?_, ?_⟩
      · obtain rfl := CircuitCommand.create.inj same
        rw [created]
        exact fun impossible => by cases impossible
      · rw [circuitStep, created]
    | ok after =>
      obtain ⟨chain, path, rfl⟩ := cmdCircuitCreate_eq_ok created
      simp only [circuitStep, created]
      exact .inl ⟨creation, chain, path, rfl, created, rfl⟩
  | list pruneEpoch =>
    exact .inr ⟨fun _ _ same => (by cases same), filter_sublist.map _⟩
  | close id =>
    exact .inr ⟨fun _ _ same => (by cases same), filter_sublist.map _⟩
  | run id pruneEpoch usedEpoch =>
    refine .inr ⟨fun _ _ same => (by cases same), ?_⟩
    rw [circuitStep, map_key_useCircuit]

variable (circuitIdFrom) in
def FreshId (circuits : List Circuit) (command : CircuitCommand) : Prop :=
  ∀ creation, command = .create creation →
    (∃ after, cmdCircuitCreate circuitIdFrom circuits creation = .ok after) →
      0 < creation.ttlSecs → ∀ circuit ∈ pruneCircuits creation.pruneEpoch circuits,
        circuit.id ≠ circuitIdFrom creation.seed

theorem lastingIds_append (first second : List (String × Nat)) :
    lastingIds (first ++ second) = lastingIds first ++ lastingIds second := by
  rw [lastingIds, filter_append, map_append]
  rfl

theorem lastingIds_sublist {first second : List (String × Nat)} (sublist : first.Sublist second) :
    (lastingIds first).Sublist (lastingIds second) :=
  (sublist.filter _).map _

theorem lastingIds_pruneCircuits (now : Nat) (circuits : List Circuit) :
    lastingIds ((pruneCircuits now circuits).map Circuit.key) =
      (pruneCircuits now circuits).map Circuit.id := by
  rw [lastingIds_map_key]
  refine congrArg _ (filter_eq_self.mpr fun circuit member => ?_)
  have live := of_decide_eq_true (mem_filter.mp member).2
  exact decide_eq_true (by omega)

theorem distinctLive_circuitStep_iff {circuits : List Circuit} (distinct : DistinctLive circuits)
    (command : CircuitCommand) :
    DistinctLive (circuitStep circuitIdFrom circuits command) ↔
      FreshId circuitIdFrom circuits command := by
  rcases circuitStep_cases circuitIdFrom circuits command with
    ⟨creation, chain, path, rfl, created, stepped⟩ | ⟨other, sublist⟩
  · have kept : (lastingIds ((pruneCircuits creation.pruneEpoch circuits).map Circuit.key)).Nodup :=
      (distinctLive_iff.mp distinct).sublist (lastingIds_sublist (filter_sublist.map _))
    rw [distinctLive_iff, stepped, map_append, lastingIds_append, lastingIds_pruneCircuits]
    rw [lastingIds_pruneCircuits] at kept
    by_cases lasting : 0 < creation.ttlSecs
    · have new : lastingIds ([creation.circuit circuitIdFrom chain path].map Circuit.key) =
          [circuitIdFrom creation.seed] := by
        simp [lastingIds, Circuit.key, Creation.circuit, lasting]
      rw [new, nodup_append]
      constructor
      · rintro ⟨-, -, apart⟩ other same - - circuit member
        obtain rfl := CircuitCommand.create.inj same
        exact apart _ (mem_map_of_mem member) _ (mem_singleton_self _)
      · intro fresh
        refine ⟨kept, nodup_singleton _, ?_⟩
        intro id member other alone
        obtain ⟨circuit, present, rfl⟩ := mem_map.mp member
        rw [mem_singleton.mp alone]
        exact fresh creation rfl ⟨_, created⟩ lasting circuit present
    · have new : lastingIds ([creation.circuit circuitIdFrom chain path].map Circuit.key) = [] := by
        simp [lastingIds, Circuit.key, Creation.circuit, lasting]
      rw [new, append_nil]
      refine iff_of_true kept fun other same _ long => ?_
      obtain rfl := CircuitCommand.create.inj same
      exact absurd long lasting
  · have after : DistinctLive (circuitStep circuitIdFrom circuits command) :=
      distinctLive_iff.mpr ((distinctLive_iff.mp distinct).sublist (lastingIds_sublist sublist))
    refine iff_of_true after fun creation same created => ?_
    obtain ⟨stored, created⟩ := created
    exact absurd created (other creation stored same)

/-- Different seeds give different ids. -/
def SeedsDiffer (circuitIdFrom : String → String) (seeds : List String) : Prop :=
  ∀ seed ∈ seeds, ∀ other ∈ seeds, circuitIdFrom seed = circuitIdFrom other → seed = other

def MadeFrom (circuitIdFrom : String → String) (seeds : List String) (circuits : List Circuit) :
    Prop :=
  ∀ circuit ∈ circuits, ∃ seed ∈ seeds, circuit.id = circuitIdFrom seed

theorem madeFrom_circuitStep {circuits : List Circuit} {past : List String}
    (known : MadeFrom circuitIdFrom past circuits) (command : CircuitCommand) :
    MadeFrom circuitIdFrom (past ++ command.seed?.toList)
      (circuitStep circuitIdFrom circuits command) := by
  intro circuit member
  rcases circuitStep_cases circuitIdFrom circuits command with
    ⟨creation, chain, path, rfl, -, stepped⟩ | ⟨-, sublist⟩
  · rw [stepped, mem_append, mem_singleton] at member
    rcases member with kept | rfl
    · obtain ⟨seed, earlier, made⟩ := known circuit (mem_filter.mp kept).1
      exact ⟨seed, mem_append_left _ earlier, made⟩
    · exact ⟨creation.seed, mem_append_right _ (mem_singleton_self _), rfl⟩
  · obtain ⟨before, present, same⟩ := mem_map.mp (sublist.subset (mem_map_of_mem member))
    obtain ⟨seed, earlier, made⟩ := known before present
    have named : circuit.id = before.id := (congrArg Prod.fst same).symm
    exact ⟨seed, mem_append_left _ earlier, named.trans made⟩

theorem meets_freshId {commands : List CircuitCommand} {circuits : List Circuit}
    {past : List String} (known : MadeFrom circuitIdFrom past circuits)
    (once : (past ++ commands.filterMap CircuitCommand.seed?).Nodup)
    (differ : SeedsDiffer circuitIdFrom (past ++ commands.filterMap CircuitCommand.seed?)) :
    Meets (circuitStep circuitIdFrom) (FreshId circuitIdFrom) circuits commands := by
  induction commands generalizing circuits past with
  | nil => trivial
  | cons command commands ih =>
    have seeds : (command :: commands).filterMap CircuitCommand.seed? =
        command.seed?.toList ++ commands.filterMap CircuitCommand.seed? := by
      cases command <;> rfl
    rw [seeds, ← append_assoc] at once differ
    refine ⟨?_, ih (madeFrom_circuitStep known command) once differ⟩
    rintro creation rfl - - circuit kept same
    obtain ⟨seed, earlier, made⟩ := known circuit (mem_filter.mp kept).1
    have current : creation.seed ∈ past ++ [creation.seed] := by simp
    have repeated : seed = creation.seed :=
      differ seed (mem_append_left _ (mem_append_left _ earlier)) creation.seed
        (mem_append_left _ current) (made.symm.trans same)
    have apart := (nodup_append.mp (nodup_append.mp once).1).2.2
    exact apart seed earlier creation.seed (mem_singleton_self _) repeated

end Runs

/-! ## Closing -/

def ClosesExactly (circuits : List Circuit) (id : String) (now : Nat) : Prop :=
  circuits.Perm
    ((loadCircuitById circuits id now).toOption.toList ++ (cmdCircuitClose circuits id).1)

theorem cmdCircuitClose_eq (circuits : List Circuit) (id : String) :
    (cmdCircuitClose circuits id).1 = circuits.filter fun circuit => !circuit.named id := by
  refine filter_congr fun circuit _ => ?_
  rw [Circuit.named, Bool.not_or, decide_not]

theorem toOption_loadCircuitById (circuits : List Circuit) (id : String) (now : Nat) :
    (loadCircuitById circuits id now).toOption =
      (pruneCircuits now circuits).find? (Circuit.named id) := by
  rw [loadCircuitById]
  cases (pruneCircuits now circuits).find? (Circuit.named id) <;> rfl

theorem closesExactly_iff {circuits : List Circuit} {id : String} {now : Nat} :
    ClosesExactly circuits id now ↔
      (∀ circuit ∈ circuits, circuit.named id = true → circuit.live now = true) ∧
        (circuits.filter (Circuit.named id)).length ≤ 1 := by
  rw [ClosesExactly, cmdCircuitClose_eq, toOption_loadCircuitById,
    ← (filter_append_perm (Circuit.named id) circuits).congr_left, perm_append_right_iff]
  constructor
  · intro selected
    cases found : (pruneCircuits now circuits).find? (Circuit.named id) with
    | none =>
      rw [found, Option.toList_none, perm_nil] at selected
      refine ⟨fun circuit member named => ?_, by rw [selected]; exact Nat.zero_le 1⟩
      exact absurd named (filter_eq_nil_iff.mp selected circuit member)
    | some chosen =>
      rw [found, Option.toList_some, perm_singleton] at selected
      have live := (mem_filter.mp (mem_of_find?_eq_some found)).2
      refine ⟨fun circuit member named => ?_, by rw [selected]; exact le_rfl⟩
      have listed := mem_filter.mpr ⟨member, named⟩
      rw [selected, mem_singleton] at listed
      rwa [listed]
  · rintro ⟨live, few⟩
    cases found : (pruneCircuits now circuits).find? (Circuit.named id) with
    | none =>
      rw [Option.toList_none, perm_nil, filter_eq_nil_iff]
      intro circuit member named
      have kept := mem_filter.mpr ⟨member, live circuit member named⟩
      exact List.find?_eq_none.mp found circuit kept named
    | some chosen =>
      have named := List.find?_some found
      have member := (mem_filter.mp (mem_of_find?_eq_some found)).1
      have listed := mem_filter.mpr ⟨member, named⟩
      obtain ⟨only, shape⟩ := length_eq_one_iff.mp
        (le_antisymm few (length_pos_of_mem listed))
      rw [shape, mem_singleton] at listed
      rw [shape, listed, Option.toList_some]

/-- **Circuits and their ids.** The ids of the live circuits stay different exactly if every
creation that stores a circuit gives it a fresh id, and it does if no two creations of the commands
have the same second and peer. Closing removes exactly the circuit that is looked up if and only if
the argument names at most one circuit and that one has not expired. -/
theorem circuitIds_identify_iff (circuitIdFrom : String → String)
    (commands : List CircuitCommand) :
    ((∀ before after, commands = before ++ after →
        DistinctLive (circuitsAfter circuitIdFrom before)) ↔
      Meets (circuitStep circuitIdFrom) (FreshId circuitIdFrom) [] commands) ∧
    (SeedsDiffer circuitIdFrom (commands.filterMap CircuitCommand.seed?) →
      (commands.filterMap CircuitCommand.seed?).Nodup →
        Meets (circuitStep circuitIdFrom) (FreshId circuitIdFrom) [] commands) ∧
    ∀ id now, ClosesExactly (circuitsAfter circuitIdFrom commands) id now ↔
      (∀ circuit ∈ circuitsAfter circuitIdFrom commands,
        circuit.named id = true → circuit.live now = true) ∧
      ((circuitsAfter circuitIdFrom commands).filter (Circuit.named id)).length ≤ 1 := by
  have start : DistinctLive [] := fun _ => nodup_nil
  refine ⟨⟨fun always => ?_, fun meets => ?_⟩, fun differ once => ?_,
    fun id now => closesExactly_iff⟩
  · refine meets_of_always_good start ?_ ?_ always
    · intro circuits command _ distinct fresh
      exact (distinctLive_circuitStep_iff distinct command).mpr fresh
    · intro circuits command _ distinct after
      exact (distinctLive_circuitStep_iff distinct command).mp after
  · refine always_of_meets start ?_ meets
    intro circuits command _ distinct fresh
    exact (distinctLive_circuitStep_iff distinct command).mpr fresh
  · have known : MadeFrom circuitIdFrom [] [] := fun _ member => by cases member
    exact meets_freshId known once differ

def creationAt (second : Nat) : Creation where
  chain := [⟨PeerId.ofByte 1, 0, 1, "alpha", none⟩]
  nameFilter := none
  totalBlocks := 1
  ttlMinutes := 30
  ourPeerId := PeerId.ofByte 2
  seedEpoch := second
  createdEpoch := second
  usedEpoch := second
  pruneEpoch := second

theorem circuitStep_creationAt (circuitIdFrom : String → String) (circuits : List Circuit)
    (second : Nat) :
    circuitStep circuitIdFrom circuits (.create (creationAt second)) =
      pruneCircuits second circuits ++ [(creationAt second).circuit circuitIdFrom
        (creationAt second).chain (creationAt second).chain] := by
  have pinned : buildPinnedPath (creationAt second).chain 1 ∅ = .ok (creationAt second).chain := by
    refine pinFrom_eq_ok_iff.mpr (.hop Nat.one_pos ⟨[], [], rfl, ?_, ?_, ?_⟩ (.stop le_rfl))
    · decide
    · exact fun _ member => by cases member
    · exact fun _ member => by cases member
  have created : cmdCircuitCreate circuitIdFrom circuits (creationAt second) =
      .ok (pruneCircuits second circuits ++ [(creationAt second).circuit circuitIdFrom
        (creationAt second).chain (creationAt second).chain]) := by
    rw [cmdCircuitCreate]
    change ((buildPinnedPath (creationAt second).chain 1 ∅).mapError CreateError.noPath >>= _) = _
    rw [pinned]
    rfl
  rw [circuitStep, created]

/-- **Ids that do not identify.** Two circuits that are created in the same second have the same id,
and closing with the empty text removes two circuits that have different ids. -/
theorem sameSecond_not_distinct :
    (∀ circuitIdFrom, ¬ DistinctLive
      (circuitsAfter circuitIdFrom [.create (creationAt 1), .create (creationAt 1)])) ∧
    ¬ ClosesExactly (circuitsAfter (fun seed => seed)
      [.create (creationAt 1), .create (creationAt 2)]) "" 2 := by
  refine ⟨fun circuitIdFrom distinct => ?_, fun exactly => ?_⟩
  · have early := distinct 1
    rw [circuitsAfter, foldl_cons, foldl_cons, foldl_nil, circuitStep_creationAt,
      circuitStep_creationAt] at early
    simp [pruneCircuits, Circuit.live, Creation.circuit, Creation.ttlSecs, creationAt] at early
  · have few := (closesExactly_iff.mp exactly).2
    rw [circuitsAfter, foldl_cons, foldl_cons, foldl_nil, circuitStep_creationAt,
      circuitStep_creationAt] at few
    exact absurd few (by decide +kernel)

end KwaaiNet
