import KwaaiNet.Inference.BlockRpc
import KwaaiNet.Routing.PinnedPath

/-! # Streaming a generation through a pinned path

The coordinator pins a path, sends the prompt and then one token at a time through it,
and samples from the logits of the last hop. A failed pass is repeated once on a rebuilt
path. The network decides what happens to each attempt; a request whose attempt failed may
still reach its server later. Servers evict idle sessions on their own. The state keeps,
for every request that a server handled with success, the positions it held before.
-/

namespace KwaaiNet

open Foundation

/-- The errors of a call, as the coordinator tells them apart by their text. -/
inductive CallFailure where
  /-- `stream reset`, `early eof` or `connection closed`. -/
  | reset
  /-- `Response channel closed`: repeated like a reset, but not forgiven. -/
  | channelClosed
  /-- `protocols not supported`. -/
  | unsupported
  | timeout
  | other
  deriving DecidableEq

/-- A generation and the network it runs in. Every entry announces the blocks its server
has loaded. -/
structure Generation where
  chain : List BlockServerEntry
  totalBlocks : Nat
  shard : PeerId → TransformerShard
  truthful : ∀ entry ∈ chain, (shard entry.peerId).endBlock = entry.endBlock ∧
    (shard entry.peerId).cfg.numTotalBlocks = totalBlocks
  addressable : ∀ peer, (shard peer).cfg.maxSeqLen < 2 ^ 32
  sessionId : UInt64
  ourPeer : PeerId
  localPort : Bool
  prompt : List UInt32
  eosId : UInt32
  maxTokens : Nat

/-- One walk of `forward_through_chain`: the position reached, the request to send on, the
candidates left for it and the attempts made on the first of them. -/
structure Pass where
  retried : Bool
  pos : Nat
  request : InferenceRequest
  candidates : List BlockServerEntry
  attempt : Nat

inductive Phase where
  | forwarding (pass : Pass)
  | sampling
  | stopped

/-- A successful call: its server, its position, and what each block held before. -/
structure Answer where
  peer : PeerId
  seqPos : Nat
  held : List (List Nat)
  deriving DecidableEq

structure GenState (gen : Generation) where
  failedPeers : Finset PeerId
  pinnedPath : List BlockServerEntry
  seqPos : Nat
  currentIds : List UInt32
  generatedIds : List UInt32
  phase : Phase
  servers : ∀ peer, (gen.shard peer).Sessions
  orphans : List (PeerId × InferenceRequest)
  log : List Answer

/-- What can happen next: the current attempt is answered or fails, a request of a failed
attempt is handled after all, a server collects idle sessions, or a token is sampled. -/
inductive GenEvent where
  | answered (now : Nat)
  | failed (failure : CallFailure)
  | late (index now : Nat)
  | gc (peer : PeerId) (now : Nat)
  | sampled (token : Option UInt32)

/-- `partial_cmp` of two optional scores, `Equal` where it is undefined. -/
def trustOrder : Option Score → Option Score → Ordering
  | none, none => .eq
  | none, some _ => .lt
  | some _, none => .gt
  | some (.number first), some (.number second) => compare first second
  | some _, some _ => .eq

namespace Generation

variable (gen : Generation)

def candidateOrder (first second : BlockServerEntry) : Ordering :=
  (compare second.endBlock first.endBlock).then <|
    (trustOrder second.trustScore first.trustScore).then <|
      if gen.localPort then
        compare (decide (gen.ourPeer = second.peerId)) (decide (gen.ourPeer = first.peerId))
      else .eq

variable {gen}

def candidatesAt (state : GenState gen) (pos : Nat) : List BlockServerEntry :=
  (state.pinnedPath.filter (BlockServerEntry.live state.failedPeers pos)).mergeSort
    fun first second => gen.candidateOrder first second ≠ .gt

def firstRequest (state : GenState gen) : InferenceRequest where
  sessionId := gen.sessionId
  seqPos := UInt32.ofNat state.seqPos
  payloadType := .tokenIds
  shape := (tokenIdsToBytes state.currentIds).1
  data := (tokenIdsToBytes state.currentIds).2

def nextRequest (state : GenState gen) (response : InferenceResponse) : InferenceRequest where
  sessionId := gen.sessionId
  seqPos := UInt32.ofNat state.seqPos
  payloadType := .hiddenStates
  shape := response.shape
  data := response.data

/-- A pass ends without a result: the path is rebuilt and the step sent again, once. -/
def passFailed (state : GenState gen) (retried : Bool) : GenState gen :=
  if retried then { state with phase := .stopped }
  else
    match buildPinnedPath gen.chain gen.totalBlocks state.failedPeers with
    | .error _ => { state with phase := .stopped }
    | .ok path =>
      let state := { state with pinnedPath := path }
      match candidatesAt state 0 with
      | [] => { state with phase := .stopped }
      | candidates =>
        { state with phase := .forwarding ⟨true, 0, firstRequest state, candidates, 0⟩ }

/-- Look for the candidates of a position. -/
def enterHop (state : GenState gen) (retried : Bool) (pos : Nat) (request : InferenceRequest) :
    GenState gen :=
  match candidatesAt state pos with
  | [] => passFailed state retried
  | candidates => { state with phase := .forwarding ⟨retried, pos, request, candidates, 0⟩ }

/-- A candidate answered: go on behind its last block, or sample. -/
def hopSucceeded (state : GenState gen) (retried : Bool) (entry : BlockServerEntry)
    (response : InferenceResponse) : GenState gen :=
  if entry.endBlock < gen.totalBlocks then
    enterHop state retried entry.endBlock (nextRequest state response)
  else { state with phase := .sampling }

/-- A candidate failed: it is blacklisted unless the error is a stream error, and the next
candidate is tried. -/
def hopFailed (state : GenState gen) (pass : Pass) (entry : BlockServerEntry)
    (rest : List BlockServerEntry) (failure : CallFailure) : GenState gen :=
  let state := if failure = .reset then state
    else { state with failedPeers := insert entry.peerId state.failedPeers }
  match rest with
  | [] => passFailed state pass.retried
  | candidates =>
    { state with phase := .forwarding { pass with candidates := candidates, attempt := 0 } }

def serve (state : GenState gen) (peer : PeerId) (req : InferenceRequest) (now : Nat) :
    GenState gen × InferenceResponse :=
  let handled := (gen.shard peer).blockRpcHandler now req (state.servers peer)
  let held := ((gen.shard peer).heldCaches (state.servers peer) req.sessionId).map heldPositions
  ({ state with
      servers := Function.update state.servers peer handled.1
      log := if handled.2.error = none then state.log ++ [⟨peer, req.seqPos.toNat, held⟩]
        else state.log }, handled.2)

variable (gen) in
/-- `call_block_forward` tries again; a call to the local server is made once. -/
def triesAgain (entry : BlockServerEntry) (attempt : Nat) (failure : CallFailure) : Bool :=
  (failure = .reset || failure = .channelClosed) && entry.peerId ≠ gen.ourPeer && attempt < 2

variable (gen) in
def callable (entry : BlockServerEntry) : Bool := entry.peerId ≠ gen.ourPeer || gen.localPort

def step (state : GenState gen) : GenEvent → GenState gen
  | .answered now =>
    match state.phase with
    | .forwarding pass =>
      match pass.candidates with
      | entry :: rest =>
        if gen.callable entry then
          let (next, response) := serve state entry.peerId pass.request now
          if response.error = none then hopSucceeded next pass.retried entry response
          else hopFailed next pass entry rest .other
        else state
      | [] => state
    | _ => state
  | .failed failure =>
    match state.phase with
    | .forwarding pass =>
      match pass.candidates with
      | entry :: rest =>
        let sent := if gen.callable entry then [(entry.peerId, pass.request)] else []
        let next := { state with orphans := state.orphans ++ sent }
        if gen.triesAgain entry pass.attempt failure then
          { next with phase := .forwarding { pass with attempt := pass.attempt + 1 } }
        else hopFailed next pass entry rest failure
      | [] => state
    | _ => state
  | .late index now =>
    match state.orphans[index]? with
    | some (peer, req) =>
      { (serve state peer req now).1 with orphans := state.orphans.eraseIdx index }
    | none => state
  | .gc peer now =>
    let kept := (gen.shard peer).gcSessions now (state.servers peer)
    { state with servers := Function.update state.servers peer kept }
  | .sampled token =>
    match state.phase, token with
    | .sampling, none => { state with phase := .stopped }
    | .sampling, some id =>
      let state := { state with
        generatedIds := state.generatedIds ++ [id]
        seqPos := state.seqPos + state.currentIds.length }
      if id = gen.eosId ∨ gen.maxTokens ≤ state.generatedIds.length then
        { state with phase := .stopped }
      else
        let state := { state with currentIds := [id] }
        enterHop state false 0 (firstRequest state)
    | _, _ => state

variable (gen) in
/-- The start of `run_streaming_inner`'s loop. -/
def start (servers : ∀ peer, (gen.shard peer).Sessions) : GenState gen :=
  let state : GenState gen := ⟨∅, [], 0, gen.prompt, [], .stopped, servers, [], []⟩
  match buildPinnedPath gen.chain gen.totalBlocks ∅ with
  | .error _ => state
  | .ok path =>
    let state := { state with pinnedPath := path }
    enterHop state false 0 (firstRequest state)

end Generation

end KwaaiNet
