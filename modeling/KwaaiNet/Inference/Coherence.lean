import KwaaiNet.Foundation.Execution
import KwaaiNet.Inference.Generation

/-! # Coherence of the caches along a generation

A server should answer position `p` from caches that hold exactly the positions before
`p`. A rebuilt path knowingly gives this up, and neither a repeated delivery nor an evicted
session is noticed. `KwaaiNet.Generation.coherent_of_orderly_run` shows that nothing else
can: it holds in every run in which no request of a failed attempt is handled, no server
evicts the session, and, once a server has answered, a hop fails only as the first of its
pass and with a stream error. `KwaaiNet.rebuiltPath_incoherent` is a run with a rebuilt path.
-/

namespace KwaaiNet

open Foundation List

/-! ## What a server holds -/

namespace TransformerShard

variable {shard : TransformerShard} {sessions : shard.Sessions} {req : InferenceRequest}
variable {id : UInt64} {count length : Nat}

/-- Every block holds the positions below `count`, for a batch of one. -/
def Holds (shard : TransformerShard) (sessions : shard.Sessions) (id : UInt64) (count : Nat) :
    Prop :=
  ∀ kv ∈ shard.heldCaches sessions id,
    heldPositions kv = List.range count ∧ conflicts 1 kv = false

/-- Whatever the request loads is a batch of one with `length` positions. -/
def Brings (shard : TransformerShard) (req : InferenceRequest) (length : Nat) : Prop :=
  ∀ batch rows, shard.Loads req batch rows → batch = 1 ∧ rows = length

theorem Holds.countP_eq_zero (holds : shard.Holds sessions id count) :
    (shard.heldCaches sessions id).countP (conflicts 1) = 0 :=
  List.countP_eq_zero.mpr fun kv member => by simp [(holds kv member).2]

theorem holds_of_absent (absent : sessions id = none) : shard.Holds sessions id 0 := by
  intro kv member
  unfold heldCaches at member
  rw [absent] at member
  obtain rfl := eq_of_mem_replicate member
  exact ⟨rfl, rfl⟩

theorem forall_extended {start : Nat} {before after : List (Option KvCache)}
    (extended : List.Forall₂ (Extended start 1 length) before after)
    (held : ∀ kv ∈ before, heldPositions kv = List.range count) :
    ∀ kv ∈ after, heldPositions kv = List.range count ++ List.range' start length ∧
      conflicts 1 kv = false := by
  induction extended with
  | nil => intro kv member; cases member
  | cons first _ ih =>
    obtain ⟨head, tail⟩ := forall_mem_cons.mp held
    refine forall_mem_cons.mpr ⟨⟨?_, first.conflicts_eq⟩, ih tail⟩
    rw [first.heldPositions_eq, head]

theorem range_append_range' (start length : Nat) :
    List.range start ++ List.range' start length = List.range (start + length) := by
  rw [range_eq_range', range_eq_range', ← List.range'_append_1, Nat.zero_add]

/-- A successful call moves the caches on by its positions. -/
theorem Holds.of_answer {now : Nat} (brings : shard.Brings req length)
    (holds : shard.Holds sessions req.sessionId req.seqPos.toNat)
    (accepted : (shard.blockRpcHandler now req sessions).2.error = none) :
    shard.Holds (shard.blockRpcHandler now req sessions).1 req.sessionId
        (req.seqPos.toNat + length) ∧
      req.seqPos.toNat + length ≤ shard.cfg.maxSeqLen ∧
      (shard.isLast = false → (shard.blockRpcHandler now req sessions).2.shape =
        [1, length, shard.cfg.hiddenDim].map UInt32.ofNat) := by
  obtain ⟨batch, rows, loads, -, agree⟩ := loads_of_answer accepted
  obtain ⟨rfl, rfl⟩ := brings batch rows loads
  have extended := (blockRpcHandler_extends loads agree now).1
  have positions := forall_extended extended fun kv member => (holds kv member).1
  rw [range_append_range'] at positions
  refine ⟨positions, ?_, fun inner => blockRpcHandler_shape loads agree inner now⟩
  obtain ⟨x, -, fits⟩ := loads
  exact fits.inRange

theorem Holds.of_failure {now : Nat} (brings : shard.Brings req length)
    (holds : shard.Holds sessions req.sessionId count)
    (failed : (shard.blockRpcHandler now req sessions).2.error ≠ none) :
    shard.Holds (shard.blockRpcHandler now req sessions).1 req.sessionId count := by
  by_cases loads : ∃ batch rows, shard.Loads req batch rows
  · obtain ⟨batch, rows, loads⟩ := loads
    obtain ⟨rfl, rfl⟩ := brings batch rows loads
    obtain ⟨extended, answers, -⟩ := blockRpcHandler_extends loads holds.countP_eq_zero now
    have unheaded := answers.not.mp failed
    obtain rfl : rows = 0 := by
      by_contra positive
      exact unheaded fun _ => Nat.pos_of_ne_zero positive
    have positions := forall_extended extended fun kv member => (holds kv member).1
    rwa [List.range'_zero, append_nil] at positions
  · push Not at loads
    unfold Holds
    rw [(blockRpcHandler_refuses loads now).2]
    exact holds

theorem length_u32Words_tokenIdsToBytes (ids : List UInt32) :
    (u32Words (tokenIdsToBytes ids).2).length = ids.length := by
  induction ids with
  | nil => rfl
  | cons id ids ih => exact congrArg Nat.succ ih

theorem brings_tokenIds {ids : List UInt32} (kind : req.payloadType = .tokenIds)
    (data : req.data = (tokenIdsToBytes ids).2) : shard.Brings req ids.length := by
  rintro batch rows ⟨x, decodes, fits⟩
  unfold input at decodes
  rw [kind, data] at decodes
  dsimp only at decodes
  split at decodes
  case isTrue => cases decodes
  case isFalse =>
    unfold bytesToTokenIds at decodes
    split at decodes
    case h_1 => cases decodes
    case h_2 decoded words =>
      split at words
      case isTrue => cases words
      case isFalse =>
        obtain rfl := Except.ok.inj words
        unfold embed at decodes
        split at decodes
        case h_1 => cases decodes
        case h_2 =>
          obtain rfl := Except.ok.inj decodes
          have dims := fits.dims
          simp only [Tensor.ofRows, length_map, length_u32Words_tokenIdsToBytes,
            List.cons.injEq] at dims
          exact ⟨dims.1.symm, dims.2.1.symm⟩

theorem brings_hiddenStates {dim : Nat} (kind : req.payloadType = .hiddenStates)
    (shape : req.shape = [1, length, dim].map UInt32.ofNat) (small : length < 2 ^ 32) :
    shard.Brings req length := by
  rintro batch rows ⟨x, decodes, fits⟩
  unfold input f16BytesToTensor at decodes
  rw [kind, shape] at decodes
  dsimp only at decodes
  split at decodes
  case isTrue => cases decodes
  case isFalse =>
    split at decodes
    case isTrue => cases decodes
    case isFalse =>
      obtain rfl := Except.ok.inj decodes
      have dims := fits.dims
      simp only [map_cons, List.cons.injEq] at dims
      exact ⟨dims.1.symm, dims.2.1.symm.trans (UInt32.toNat_ofNat_of_lt' small)⟩

end TransformerShard

/-! ## The invariant -/

namespace Generation

variable {gen : Generation}

/-- The server of a peer holds the positions below `count` of this session. -/
def ServerHolds (state : GenState gen) (peer : PeerId) (count : Nat) : Prop :=
  (gen.shard peer).Holds (state.servers peer) gen.sessionId count

/-- Every logged answer was given from caches that held the positions before it. -/
def LogCoherent (state : GenState gen) : Prop :=
  ∀ answer ∈ state.log, ∀ held ∈ answer.held, held = List.range answer.seqPos

/-- The path is the one pinned for the peers that have not failed. -/
def Routed (state : GenState gen) : Prop :=
  PinnedFrom gen.chain gen.totalBlocks state.failedPeers 0 state.pinnedPath

/-- A pass stands at `entry`: the servers before it on the path have seen the current step,
the others have not. Before the first answer no server has seen anything. -/
structure AtHop (state : GenState gen) (pass : Pass) (passed : List BlockServerEntry)
    (entry : BlockServerEntry) (rest : List BlockServerEntry) : Prop where
  path : state.pinnedPath = passed ++ entry :: rest
  routed : Routed state
  ahead : PinnedFrom gen.chain gen.totalBlocks state.failedPeers pass.pos (entry :: rest)
  behind : ∀ other ∈ passed, other.endBlock ≤ pass.pos
  opening : pass.pos = 0 → passed = []
  candidates : pass.candidates = [entry]
  session : pass.request.sessionId = gen.sessionId
  position : pass.request.seqPos.toNat = state.seqPos
  brings : (gen.shard entry.peerId).Brings pass.request state.currentIds.length
  seen : ∀ other ∈ passed, ServerHolds state other.peerId (state.seqPos + state.currentIds.length)
  unseen : ∀ other ∈ entry :: rest, ServerHolds state other.peerId state.seqPos
  fresh : state.log = [] → state.seqPos = 0 ∧ pass.pos = 0 ∧ ∀ peer, ServerHolds state peer 0

/-- All servers of the path have seen the current step. -/
structure AtSampling (state : GenState gen) : Prop where
  routed : Routed state
  seen : ∀ entry ∈ state.pinnedPath,
    ServerHolds state entry.peerId (state.seqPos + state.currentIds.length)
  small : state.seqPos + state.currentIds.length < 2 ^ 32
  answered : state.log ≠ []

/-- The invariant of an orderly run. -/
structure Coherent (state : GenState gen) : Prop where
  log : LogCoherent state
  phase : match state.phase with
    | .forwarding pass => ∃ passed entry rest, AtHop state pass passed entry rest
    | .sampling => AtSampling state
    | .stopped => True

/-! ## Starting a pass -/

/-- The coordinator is about to send the current step along its path. -/
structure Ready (state : GenState gen) : Prop where
  log : LogCoherent state
  small : state.seqPos < 2 ^ 32
  fresh : state.log = [] → state.seqPos = 0 ∧ ∀ peer, ServerHolds state peer 0
  unseen : state.log ≠ [] → Routed state ∧
    ∀ entry ∈ state.pinnedPath, ServerHolds state entry.peerId state.seqPos

theorem candidatesAt_eq (state : GenState gen) {pos : Nat} (passed : List BlockServerEntry)
    {entry : BlockServerEntry} {rest : List BlockServerEntry}
    (path : state.pinnedPath = passed ++ entry :: rest)
    (ahead : PinnedFrom gen.chain gen.totalBlocks state.failedPeers pos (entry :: rest))
    (behind : ∀ other ∈ passed, other.endBlock ≤ pos) : candidatesAt state pos = [entry] := by
  unfold candidatesAt
  rw [path, ahead.filter_live behind]
  exact mergeSort_singleton entry

theorem candidatesAt_nil {state : GenState gen} (empty : state.pinnedPath = []) (pos : Nat) :
    candidatesAt state pos = [] := by
  unfold candidatesAt
  rw [empty]
  exact mergeSort_nil

theorem Ready.unseen_of_routed {state : GenState gen} (ready : Ready state) :
    ∀ entry ∈ state.pinnedPath, ServerHolds state entry.peerId state.seqPos := by
  intro entry member
  by_cases log : state.log = []
  · obtain ⟨zero, holds⟩ := ready.fresh log
    rw [zero]
    exact holds entry.peerId
  · exact (ready.unseen log).2 entry member

/-- The first hop of a pass. -/
theorem Ready.coherent_opening {state : GenState gen} (ready : Ready state)
    (routed : Routed state) {entry : BlockServerEntry} {rest : List BlockServerEntry}
    (path : state.pinnedPath = entry :: rest) (retried : Bool) :
    Coherent { state with
      phase := .forwarding ⟨retried, 0, firstRequest state, [entry], 0⟩ } where
  log := ready.log
  phase := ⟨[], entry, rest, {
    path := path
    routed := routed
    ahead := path ▸ routed
    behind := by simp
    opening := fun _ => rfl
    candidates := rfl
    session := rfl
    position := UInt32.toNat_ofNat_of_lt' ready.small
    brings := TransformerShard.brings_tokenIds rfl rfl
    seen := by simp
    unseen := path ▸ ready.unseen_of_routed
    fresh := fun log => ⟨(ready.fresh log).1, rfl, (ready.fresh log).2⟩ }⟩

theorem Coherent.stopped {state : GenState gen} (log : LogCoherent state) :
    Coherent { state with phase := .stopped } := ⟨log, trivial⟩

theorem Ready.rebuild {state : GenState gen} (ready : Ready state)
    {path : List BlockServerEntry}
    (built : buildPinnedPath gen.chain gen.totalBlocks state.failedPeers = .ok path) :
    Ready { state with pinnedPath := path } ∧ Routed { state with pinnedPath := path } := by
  have routed : Routed { state with pinnedPath := path } := pinFrom_eq_ok_iff.mp built
  refine ⟨⟨ready.log, ready.small, ready.fresh, fun log => ⟨routed, ?_⟩⟩, routed⟩
  obtain ⟨old, holds⟩ := ready.unseen log
  have same : path = state.pinnedPath := PinnedFrom.unique routed old
  intro entry member
  exact holds entry (same ▸ member)

theorem Ready.coherent_passFailed {state : GenState gen} (ready : Ready state) (retried : Bool) :
    Coherent (passFailed state retried) := by
  unfold passFailed
  split
  case isTrue => exact .stopped ready.log
  case isFalse =>
    split
    case h_1 => exact .stopped ready.log
    case h_2 path built =>
      obtain ⟨again, routed⟩ := ready.rebuild built
      dsimp only
      cases path with
      | nil =>
        rw [candidatesAt_nil rfl]
        exact .stopped again.log
      | cons entry rest =>
        rw [candidatesAt_eq _ [] rfl routed (by simp)]
        exact again.coherent_opening routed rfl true

theorem Ready.coherent_enterHop {state : GenState gen} (ready : Ready state)
    (routed : Routed state) (retried : Bool) :
    Coherent (enterHop state retried 0 (firstRequest state)) := by
  unfold enterHop
  by_cases empty : state.pinnedPath = []
  · rw [candidatesAt_nil empty]
    exact ready.coherent_passFailed retried
  · obtain ⟨entry, rest, path⟩ := exists_cons_of_ne_nil empty
    rw [candidatesAt_eq state [] path (path ▸ routed) (by simp)]
    exact ready.coherent_opening routed path retried

/-! ## Serving a request -/

section Serving

variable {state : GenState gen} {peer : PeerId} {req : InferenceRequest} {now : Nat}

theorem serve_serverHolds_other {other : PeerId} (different : other ≠ peer) (count : Nat) :
    ServerHolds (serve state peer req now).1 other count ↔ ServerHolds state other count := by
  unfold ServerHolds serve
  dsimp only
  rw [Function.update_of_ne different]

theorem serve_serverHolds {length : Nat} (session : req.sessionId = gen.sessionId)
    (brings : (gen.shard peer).Brings req length)
    (holds : ServerHolds state peer req.seqPos.toNat)
    (accepted : (serve state peer req now).2.error = none) :
    ServerHolds (serve state peer req now).1 peer (req.seqPos.toNat + length) ∧
      req.seqPos.toNat + length < 2 ^ 32 ∧
      ((gen.shard peer).isLast = false → (serve state peer req now).2.shape =
        [1, length, (gen.shard peer).cfg.hiddenDim].map UInt32.ofNat) := by
  unfold ServerHolds at holds ⊢
  rw [← session] at holds ⊢
  obtain ⟨after, inRange, shape⟩ := TransformerShard.Holds.of_answer brings holds accepted
  refine ⟨?_, lt_of_le_of_lt inRange (gen.addressable peer), shape⟩
  unfold serve
  dsimp only
  rw [Function.update_self]
  exact after

theorem serve_serverHolds_failed {length count : Nat} (session : req.sessionId = gen.sessionId)
    (brings : (gen.shard peer).Brings req length) (holds : ServerHolds state peer count)
    (failed : (serve state peer req now).2.error ≠ none) :
    ServerHolds (serve state peer req now).1 peer count := by
  unfold ServerHolds at holds ⊢
  rw [← session] at holds ⊢
  have after := TransformerShard.Holds.of_failure brings holds failed
  unfold serve
  dsimp only
  rw [Function.update_self]
  exact after

/-- A successful call from caches that hold the positions before it is logged as such. -/
theorem serve_logCoherent (log : LogCoherent state) (session : req.sessionId = gen.sessionId)
    (holds : ServerHolds state peer req.seqPos.toNat) (now : Nat) :
    LogCoherent (serve state peer req now).1 := by
  unfold LogCoherent serve
  dsimp only
  split
  case isTrue =>
    intro answer member
    rcases mem_append.mp member with old | new
    · exact log answer old
    · obtain rfl := mem_singleton.mp new
      rw [session]
      intro held inCaches
      obtain ⟨kv, found, rfl⟩ := mem_map.mp inCaches
      exact (holds kv found).1
  case isFalse => exact log

theorem serve_log_ne_nil (accepted : (serve state peer req now).2.error = none) :
    (serve state peer req now).1.log ≠ [] := by
  have taken : ((gen.shard peer).blockRpcHandler now req (state.servers peer)).2.error = none :=
    accepted
  unfold serve
  dsimp only
  rw [if_pos taken]
  simp

theorem serve_log_of_failed (failed : (serve state peer req now).2.error ≠ none) :
    (serve state peer req now).1.log = state.log := if_neg failed

end Serving

/-! ## Steps -/

section Steps

variable {state : GenState gen} {pass : Pass} {passed rest : List BlockServerEntry}
variable {entry : BlockServerEntry}

theorem AtHop.peerId_ne (hop : AtHop state pass passed entry rest) {other : BlockServerEntry}
    (member : other ∈ passed ∨ other ∈ rest) : other.peerId ≠ entry.peerId := by
  intro same
  have inChain : ∀ e ∈ state.pinnedPath, e ∈ gen.chain := hop.routed.mem
  rw [hop.path] at inChain
  have entryEnd := (gen.truthful entry (inChain entry (by simp))).1
  have otherEnd := (gen.truthful other (inChain other (by simp; tauto))).1
  rw [same, entryEnd] at otherEnd
  have position := hop.ahead.lt_endBlock entry mem_cons_self
  rcases member with before | after
  · have early := hop.behind other before
    omega
  · cases hop.ahead with
    | hop _ _ tail =>
      have farther := tail.lt_endBlock other after
      omega

theorem AtHop.serverHolds (hop : AtHop state pass passed entry rest) :
    ServerHolds state entry.peerId pass.request.seqPos.toNat := by
  rw [hop.position]
  exact hop.unseen entry mem_cons_self

theorem AtHop.serverHolds_other (hop : AtHop state pass passed entry rest) (now : Nat)
    {other : BlockServerEntry} (member : other ∈ passed ∨ other ∈ rest) {count : Nat}
    (holds : ServerHolds state other.peerId count) :
    ServerHolds (serve state entry.peerId pass.request now).1 other.peerId count :=
  (serve_serverHolds_other (hop.peerId_ne member) count).mpr holds

theorem AtHop.seen_append (hop : AtHop state pass passed entry rest) {now : Nat}
    (accepted : (serve state entry.peerId pass.request now).2.error = none) :
    ∀ other ∈ passed ++ [entry],
      ServerHolds (serve state entry.peerId pass.request now).1 other.peerId
        (state.seqPos + state.currentIds.length) := by
  obtain ⟨served, _, _⟩ := serve_serverHolds hop.session hop.brings hop.serverHolds accepted
  rw [hop.position] at served
  intro other member
  rcases mem_append.mp member with before | here
  · exact hop.serverHolds_other now (.inl before) (hop.seen other before)
  · obtain rfl := mem_singleton.mp here
    exact served

theorem AtHop.behind_append (hop : AtHop state pass passed entry rest) :
    ∀ other ∈ passed ++ [entry], other.endBlock ≤ entry.endBlock := by
  have position := hop.ahead.lt_endBlock entry mem_cons_self
  intro other member
  rcases mem_append.mp member with before | here
  · exact (hop.behind other before).trans position.le
  · rw [mem_singleton.mp here]

theorem AtHop.isLast_eq_false (hop : AtHop state pass passed entry rest)
    (more : entry.endBlock < gen.totalBlocks) : (gen.shard entry.peerId).isLast = false := by
  cases hop.ahead with
  | hop _ preferred _ =>
    obtain ⟨ends, total⟩ := gen.truthful entry preferred.mem
    simp only [TransformerShard.isLast, ends, total, decide_eq_false_iff_not]
    omega

theorem AtHop.next {next : BlockServerEntry} {rest : List BlockServerEntry}
    (hop : AtHop state pass passed entry (next :: rest)) {now : Nat}
    (accepted : (serve state entry.peerId pass.request now).2.error = none)
    (ahead : PinnedFrom gen.chain gen.totalBlocks state.failedPeers entry.endBlock (next :: rest))
    (more : entry.endBlock < gen.totalBlocks) (phase : Phase) :
    AtHop { (serve state entry.peerId pass.request now).1 with phase }
      ⟨pass.retried, entry.endBlock, nextRequest (serve state entry.peerId pass.request now).1
        (serve state entry.peerId pass.request now).2, [next], 0⟩
      (passed ++ [entry]) next rest := by
  obtain ⟨_, small, shape⟩ := serve_serverHolds hop.session hop.brings hop.serverHolds accepted
  rw [hop.position] at small
  have position := hop.ahead.lt_endBlock entry mem_cons_self
  exact {
    path := by
      change state.pinnedPath = _
      rw [hop.path, append_assoc, singleton_append]
    routed := hop.routed
    ahead := ahead
    behind := hop.behind_append
    opening := fun zero => absurd zero (Nat.ne_of_gt (Nat.zero_lt_of_lt position))
    candidates := rfl
    session := rfl
    position := UInt32.toNat_ofNat_of_lt' (show state.seqPos < 2 ^ 32 by omega)
    brings := TransformerShard.brings_hiddenStates rfl (shape (hop.isLast_eq_false more))
      (show state.currentIds.length < 2 ^ 32 by omega)
    seen := hop.seen_append accepted
    unseen := fun other member => hop.serverHolds_other now (.inr member)
      (hop.unseen other (mem_cons_of_mem _ member))
    fresh := fun empty => absurd empty (serve_log_ne_nil accepted) }

theorem AtHop.coherent_succeeded (log : LogCoherent state)
    (hop : AtHop state pass passed entry rest) (now : Nat)
    (accepted : (serve state entry.peerId pass.request now).2.error = none) :
    Coherent (hopSucceeded (serve state entry.peerId pass.request now).1 pass.retried entry
      (serve state entry.peerId pass.request now).2) := by
  have logged := serve_logCoherent log hop.session hop.serverHolds now
  obtain ⟨_, small, _⟩ := serve_serverHolds hop.session hop.brings hop.serverHolds accepted
  rw [hop.position] at small
  cases hop.ahead with
  | hop inside preferred tail =>
    unfold hopSucceeded
    split
    case isTrue more =>
      cases tail with
      | stop outside => omega
      | @hop _ next rest _ nextPreferred tail =>
        have ahead : PinnedFrom gen.chain gen.totalBlocks state.failedPeers entry.endBlock
            (next :: rest) := .hop more nextPreferred tail
        unfold enterHop
        rw [candidatesAt_eq (serve state entry.peerId pass.request now).1 (passed ++ [entry])
          (hop.next accepted ahead more .stopped).path ahead hop.behind_append]
        exact ⟨logged, passed ++ [entry], next, rest, hop.next accepted ahead more _⟩
    case isFalse done =>
      cases tail with
      | hop more _ _ => exact absurd more done
      | stop outside =>
        have seen := hop.seen_append accepted
        exact ⟨logged, ⟨hop.routed, fun other member => seen other (hop.path ▸ member), small,
          serve_log_ne_nil accepted⟩⟩

/-- Before the first answer every server holds nothing, and a failed hop leaves it so. -/
theorem AtHop.ready_of_fresh (log : LogCoherent state) (hop : AtHop state pass passed entry rest)
    (silent : state.log = []) : Ready state := by
  obtain ⟨zero, _, holds⟩ := hop.fresh silent
  exact ⟨log, by omega, fun _ => ⟨zero, holds⟩, fun answered => absurd silent answered⟩

theorem AtHop.ready_of_opening (log : LogCoherent state)
    (hop : AtHop state pass passed entry rest) (opening : pass.pos = 0) : Ready state := by
  have small : state.seqPos < 2 ^ 32 := by
    rw [← hop.position]
    exact UInt32.toNat_lt _
  refine ⟨log, small, fun silent => ?_, fun _ => ⟨hop.routed, ?_⟩⟩
  · obtain ⟨zero, _, holds⟩ := hop.fresh silent
    exact ⟨zero, holds⟩
  · rw [hop.path, hop.opening opening]
    exact hop.unseen

theorem AtHop.ready_of_refused (log : LogCoherent state)
    (hop : AtHop state pass passed entry rest) (now : Nat) (silent : state.log = [])
    (failed : (serve state entry.peerId pass.request now).2.error ≠ none) :
    Ready (serve state entry.peerId pass.request now).1 := by
  obtain ⟨zero, _, holds⟩ := hop.fresh silent
  have same := serve_log_of_failed failed
  refine ⟨?_, ?_, fun _ => ⟨zero, fun peer => ?_⟩,
    fun answered => absurd (same.trans silent) answered⟩
  · unfold LogCoherent
    rw [same]
    exact log
  · show state.seqPos < 2 ^ 32
    omega
  · by_cases here : peer = entry.peerId
    · subst here
      exact serve_serverHolds_failed hop.session hop.brings (holds entry.peerId) failed
    · exact (serve_serverHolds_other here 0).mpr (holds peer)

theorem Ready.blacklist (ready : Ready state) (silent : state.log = []) (peer : PeerId) :
    Ready { state with failedPeers := insert peer state.failedPeers } :=
  ⟨ready.log, ready.small, ready.fresh, fun answered => absurd silent answered⟩

theorem Ready.coherent_hopFailed (ready : Ready state) (failure : CallFailure)
    (forgiven : state.log = [] ∨ failure = .reset) (pass : Pass) (entry : BlockServerEntry) :
    Coherent (hopFailed state pass entry [] failure) := by
  unfold hopFailed
  dsimp only
  split
  case isTrue => exact ready.coherent_passFailed pass.retried
  case isFalse other =>
    exact (ready.blacklist (forgiven.resolve_right other) entry.peerId).coherent_passFailed
      pass.retried

end Steps

def orderly (state : GenState gen) : GenEvent → Bool
  | .answered now =>
    match state.phase with
    | .forwarding pass => pass.candidates.head?.all fun entry =>
      (serve state entry.peerId pass.request now).2.error = none || state.log.isEmpty
    | _ => true
  | .failed failure =>
    match state.phase with
    | .forwarding pass => pass.candidates.head?.all fun entry =>
      gen.triesAgain entry pass.attempt failure || state.log.isEmpty ||
        pass.pos = 0 && failure = .reset
    | _ => true
  | .late index _ => state.orphans[index]?.isNone
  | .gc peer now => (state.servers peer gen.sessionId).all fun session =>
    (now - session.lastAccess) / 10 ^ 9 < 600
  | .sampled _ => true

def OrderlyStep (state : GenState gen) (event : GenEvent) (next : GenState gen) : Prop :=
  orderly state event = true ∧ step state event = next

section OrderlySteps

variable {state : GenState gen}

theorem Coherent.answered (coherent : Coherent state) {now : Nat}
    (allowed : orderly state (.answered now) = true) : Coherent (step state (.answered now)) := by
  dsimp only [step]
  split
  case h_1 pass phase =>
    have standing := coherent.phase
    rw [phase] at standing
    obtain ⟨passed, entry, rest, hop⟩ := standing
    simp only [orderly, phase, hop.candidates] at allowed
    rw [hop.candidates]
    dsimp only
    split
    case isTrue =>
      split
      case isTrue accepted => exact hop.coherent_succeeded coherent.log now accepted
      case isFalse failed =>
        have silent : state.log = [] := by simpa [failed] using allowed
        exact (hop.ready_of_refused coherent.log now silent failed).coherent_hopFailed _
          (.inl ((serve_log_of_failed failed).trans silent)) pass entry
    case isFalse => exact coherent
  case h_2 => exact coherent

theorem Coherent.failed (coherent : Coherent state) {failure : CallFailure}
    (allowed : orderly state (.failed failure) = true) :
    Coherent (step state (.failed failure)) := by
  dsimp only [step]
  split
  case h_1 pass phase =>
    have standing := coherent.phase
    rw [phase] at standing
    obtain ⟨passed, entry, rest, hop⟩ := standing
    simp only [orderly, phase, hop.candidates] at allowed
    rw [hop.candidates]
    dsimp only
    split
    case isTrue => exact ⟨coherent.log, passed, entry, rest, { hop with candidates := rfl }⟩
    case isFalse final =>
      have forgiven : state.log = [] ∨ pass.pos = 0 ∧ failure = .reset := by
        simpa [final] using allowed
      have ready : Ready state := by
        rcases forgiven with silent | ⟨opening, _⟩
        · exact hop.ready_of_fresh coherent.log silent
        · exact hop.ready_of_opening coherent.log opening
      apply Ready.coherent_hopFailed
      · exact ⟨ready.log, ready.small, ready.fresh, ready.unseen⟩
      · exact forgiven.imp_right And.right
  case h_2 => exact coherent

theorem serverHolds_gc {peer other : PeerId} {now : Nat} {count : Nat}
    (kept : orderly state (.gc peer now) = true) (holds : ServerHolds state other count) :
    ServerHolds (step state (.gc peer now)) other count := by
  dsimp only [ServerHolds, step]
  by_cases same : other = peer
  · subst same
    rw [Function.update_self]
    have unevicted : (gen.shard other).gcSessions now (state.servers other) gen.sessionId =
        state.servers other gen.sessionId := by
      dsimp only [orderly] at kept
      unfold TransformerShard.gcSessions
      cases found : state.servers other gen.sessionId with
      | none => rfl
      | some session =>
        rw [found] at kept
        exact Option.filter_some_pos kept
    intro kv member
    unfold TransformerShard.heldCaches at member
    rw [unevicted] at member
    exact holds kv member
  · rw [Function.update_of_ne same]
    exact holds

theorem Coherent.gc (coherent : Coherent state) {peer : PeerId} {now : Nat}
    (kept : orderly state (.gc peer now) = true) : Coherent (step state (.gc peer now)) := by
  refine ⟨coherent.log, ?_⟩
  have standing := coherent.phase
  have same : (step state (.gc peer now)).phase = state.phase := rfl
  rw [same]
  split
  case h_1 pass phase =>
    rw [phase] at standing
    obtain ⟨passed, entry, rest, hop⟩ := standing
    exact ⟨passed, entry, rest, { hop with
      seen := fun other member => serverHolds_gc kept (hop.seen other member)
      unseen := fun other member => serverHolds_gc kept (hop.unseen other member)
      fresh := fun silent => ⟨(hop.fresh silent).1, (hop.fresh silent).2.1,
        fun peer => serverHolds_gc kept ((hop.fresh silent).2.2 peer)⟩ }⟩
  case h_2 phase =>
    rw [phase] at standing
    exact { standing with
      seen := fun entry member => serverHolds_gc kept (standing.seen entry member) }
  case h_3 => trivial

theorem Coherent.sampled (coherent : Coherent state) (token : Option UInt32) :
    Coherent (step state (.sampled token)) := by
  dsimp only [step]
  split
  case h_1 => exact .stopped coherent.log
  case h_2 id phase =>
    have standing := coherent.phase
    rw [phase] at standing
    split
    case isTrue => exact ⟨coherent.log, trivial⟩
    case isFalse =>
      apply Ready.coherent_enterHop
      · exact ⟨coherent.log, standing.small, fun silent => absurd silent standing.answered,
          fun _ => ⟨standing.routed, standing.seen⟩⟩
      · exact standing.routed
  case h_3 => exact coherent

/-- **Step lemma.** Orderly steps keep the caches coherent. -/
theorem Coherent.step {event : GenEvent} {next : GenState gen} (coherent : Coherent state)
    (taken : OrderlyStep state event next) : Coherent next := by
  obtain ⟨allowed, rfl⟩ := taken
  cases event with
  | answered now => exact coherent.answered allowed
  | failed failure => exact coherent.failed allowed
  | late index now =>
    have nothing : state.orphans[index]? = none := Option.isNone_iff_eq_none.mp allowed
    dsimp only [Generation.step]
    rw [nothing]
    exact coherent
  | gc peer now => exact coherent.gc allowed
  | sampled token => exact coherent.sampled token

end OrderlySteps

theorem coherent_start (servers : ∀ peer, (gen.shard peer).Sessions)
    (fresh : ∀ peer, servers peer gen.sessionId = none) : Coherent (gen.start servers) := by
  unfold start
  dsimp only
  split
  case h_1 => exact ⟨by simp [LogCoherent], trivial⟩
  case h_2 path built =>
    apply Ready.coherent_enterHop
    · exact ⟨by simp [LogCoherent], Nat.two_pow_pos 32,
        fun _ => ⟨rfl, fun peer => TransformerShard.holds_of_absent (fresh peer)⟩,
        fun answered => absurd rfl answered⟩
    · exact pinFrom_eq_ok_iff.mp built

/-- **Coherence of orderly runs.** In every orderly run of a generation, whose session no
server knows at the start, each request at position `p` that a server handled with success
found exactly the positions below `p` in every block of that server. -/
theorem coherent_of_orderly_run (gen : Generation)
    (servers : ∀ peer, (gen.shard peer).Sessions)
    (fresh : ∀ peer, servers peer gen.sessionId = none) (events : List GenEvent)
    (last : GenState gen) (run : Run OrderlyStep (gen.start servers) events last) :
    ∀ answer ∈ last.log, ∀ held ∈ answer.held, held = List.range answer.seqPos :=
  (run.invariant (fun _ _ _ coherent taken => Coherent.step coherent taken)
    (coherent_start servers fresh)).log

end Generation

/-! ## A rebuilt path -/

def passingBlock : ShardBlock := ⟨fun row _ => (row, row), fun row _ _ => row⟩

theorem passingBlock_loaded : [passingBlock].length = 1 - 0 := rfl

def wholeShard : TransformerShard where
  cfg := ⟨1, 1, 4, 8⟩
  startBlock := 0
  endBlock := 1
  blocks := [passingBlock]
  embedding := fun id => [id.toUInt16]
  head := id
  nonempty := Nat.zero_lt_one
  inside := Nat.le.refl
  loaded := passingBlock_loaded

/-- Two peers serve the whole model. -/
def spareGeneration : Generation where
  chain := [⟨.ofByte 1, 0, 1, "first", none⟩, ⟨.ofByte 2, 0, 1, "second", none⟩]
  totalBlocks := 1
  shard := fun _ => wholeShard
  truthful := by decide
  addressable := fun _ => by decide
  sessionId := 7
  ourPeer := .ofByte 3
  localPort := false
  prompt := [1]
  eosId := 0
  maxTokens := 5

/-- Two steps on one path are answered from coherent caches. -/
theorem spareGeneration_coherent :
    ∃ last, Run Generation.OrderlyStep (spareGeneration.start fun _ _ => none)
        [.answered 0, .sampled (some 2), .answered 1] last ∧
      last.log.length = 2 ∧
      ∀ answer ∈ last.log, ∀ held ∈ answer.held, held = List.range answer.seqPos := by
  obtain ⟨last, run, logged⟩ : ∃ last, Run Generation.OrderlyStep
      (spareGeneration.start fun _ _ => none) [.answered 0, .sampled (some 2), .answered 1] last ∧
      last.log.length = 2 := by
    refine ⟨_, .cons ⟨?_, rfl⟩ (.cons ⟨?_, rfl⟩ (.cons ⟨?_, rfl⟩ (.nil _))), ?_⟩
    all_goals decide +kernel
  exact ⟨last, run, logged, Generation.coherent_of_orderly_run spareGeneration (fun _ _ => none)
    (fun _ => rfl) _ last run⟩

/-- The pinned peer answers the prompt and then fails; the step is sent again on a rebuilt
path, whose peer answers position 1 without holding position 0. -/
theorem rebuiltPath_incoherent :
    ∃ last, Run (fun state event next => Generation.step state event = next)
        (spareGeneration.start fun _ _ => none)
        [.answered 0, .sampled (some 2), .failed .other, .answered 1] last ∧
      ¬ ∀ answer ∈ last.log, ∀ held ∈ answer.held, held = List.range answer.seqPos := by
  refine ⟨_, run_foldl _ _ _, ?_⟩
  decide +kernel

end KwaaiNet
