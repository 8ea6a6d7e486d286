import Mathlib
import KwaaiNet.Foundation.Retry
import KwaaiNet.Inference.Shard

/-! # The block RPC and its retries

A block server answers an `InferenceRequest` by decoding its payload, running its blocks
on the session and returning hidden states or logits. The client repeats a call on
transient stream errors, at most twice. A repeated request is appended to the caches
again, so a retry is safe only when no answer was lost, or when the request leaves no
trace; `KwaaiNet.retrySafe_iff` has the exact condition.
-/

namespace KwaaiNet

open Foundation List

inductive PayloadType where
  | tokenIds
  | hiddenStates
  deriving DecidableEq

inductive ResponseType where
  | hiddenStates
  | logits
  deriving DecidableEq

/-- Sent by the coordinator to a block server. -/
structure InferenceRequest where
  sessionId : UInt64
  seqPos : UInt32
  payloadType : PayloadType
  shape : List UInt32
  data : List UInt8
  deriving DecidableEq

/-- Why a request fails: the context the handler reports, and the fault below it. -/
inductive HandlerError where
  | notFirst (startBlock : Nat)
  | decodeTokenIds (fault : Fault)
  | decodeHiddenStates (fault : Fault)
  | inference (fault : Fault)
  deriving DecidableEq

/-- Sent by a block server back to the coordinator. -/
structure InferenceResponse where
  sessionId : UInt64
  responseType : ResponseType
  shape : List UInt32
  data : List UInt8
  error : Option HandlerError
  deriving DecidableEq

/-! ## The server -/

namespace TransformerShard

variable (shard : TransformerShard)

/-- The embedding lookup; an identifier outside the vocabulary is a fault. -/
def embed (ids : List UInt32) : Except Fault Tensor :=
  match ids.find? fun id => shard.cfg.vocabSize ≤ id.toNat with
  | some id => .error (.token id.toNat)
  | none => .ok (.ofRows 1 shard.cfg.hiddenDim (ids.map shard.embedding))

/-- Final norm and LM head on the last position. -/
def logits (x : Tensor) : Except Fault Tensor :=
  match x.dims with
  | [batch, length, dim] =>
    match (Tensor.rows batch length dim x.data).getLast? with
    | some row => .ok (.ofRows batch shard.cfg.vocabSize [shard.head row])
    | none => .error (.narrow x.dims)
  | dims => .error (.narrow dims)

/-- `forward_first`. -/
def forwardFirst (now : Nat) (id : UInt64) (ids : List UInt32) (seqPos : Nat)
    (sessions : shard.Sessions) : shard.Sessions × Except Fault Tensor :=
  match shard.embed ids with
  | .ok hidden => shard.runBlocks now hidden seqPos id sessions
  | .error fault => (sessions, .error fault)

/-- `forward_middle`. -/
def forwardMiddle (now : Nat) (id : UInt64) (hidden : Tensor) (seqPos : Nat)
    (sessions : shard.Sessions) : shard.Sessions × Except Fault Tensor :=
  shard.runBlocks now hidden seqPos id sessions

/-- `forward_full`. -/
def forwardFull (now : Nat) (id : UInt64) (ids : List UInt32) (seqPos : Nat)
    (sessions : shard.Sessions) : shard.Sessions × Except Fault Tensor :=
  let ran := shard.forwardFirst now id ids seqPos sessions
  (ran.1, ran.2.bind shard.logits)

/-- `forward_last`. -/
def forwardLast (now : Nat) (id : UInt64) (hidden : Tensor) (seqPos : Nat)
    (sessions : shard.Sessions) : shard.Sessions × Except Fault Tensor :=
  let ran := shard.runBlocks now hidden seqPos id sessions
  (ran.1, ran.2.bind shard.logits)

def response (req : InferenceRequest) (output : Tensor) : InferenceResponse where
  sessionId := req.sessionId
  responseType := if shard.isLast then .logits else .hiddenStates
  shape := (tensorToF16Bytes output).1
  data := (tensorToF16Bytes output).2
  error := none

/-- The result of a forward pass, as the handler returns it. -/
def respond (req : InferenceRequest) (ran : shard.Sessions × Except Fault Tensor) :
    shard.Sessions × Except HandlerError InferenceResponse :=
  (ran.1, (ran.2.mapError HandlerError.inference).map (shard.response req))

/-- `handle_inference_request`. -/
def handleInferenceRequest (now : Nat) (req : InferenceRequest) (sessions : shard.Sessions) :
    shard.Sessions × Except HandlerError InferenceResponse :=
  match req.payloadType with
  | .tokenIds =>
    if shard.isFirst = false then (sessions, .error (.notFirst shard.startBlock))
    else
      match bytesToTokenIds req.data with
      | .error fault => (sessions, .error (.decodeTokenIds fault))
      | .ok ids =>
        shard.respond req <|
          if shard.isLast then
            shard.forwardFull now req.sessionId ids req.seqPos.toNat sessions
          else shard.forwardFirst now req.sessionId ids req.seqPos.toNat sessions
  | .hiddenStates =>
    match f16BytesToTensor req.data req.shape with
    | .error fault => (sessions, .error (.decodeHiddenStates fault))
    | .ok hidden =>
      shard.respond req <|
        if shard.isLast then
          shard.forwardLast now req.sessionId hidden req.seqPos.toNat sessions
        else shard.forwardMiddle now req.sessionId hidden req.seqPos.toNat sessions

def reply : Except HandlerError InferenceResponse → InferenceResponse
  | .ok response => response
  | .error failure => ⟨0, .hiddenStates, [], [], some failure⟩

/-- The handler that `make_block_rpc_handler` registers for a loaded shard. -/
def blockRpcHandler (now : Nat) (req : InferenceRequest) (sessions : shard.Sessions) :
    shard.Sessions × InferenceResponse :=
  ((shard.handleInferenceRequest now req sessions).1,
    reply (shard.handleInferenceRequest now req sessions).2)

end TransformerShard

/-! ## What handling a request does -/

namespace TransformerShard

def input (shard : TransformerShard) (req : InferenceRequest) : Except HandlerError Tensor :=
  match req.payloadType with
  | .tokenIds =>
    if shard.isFirst = false then .error (.notFirst shard.startBlock)
    else
      match bytesToTokenIds req.data with
      | .error fault => .error (.decodeTokenIds fault)
      | .ok ids => (shard.embed ids).mapError .inference
  | .hiddenStates => (f16BytesToTensor req.data req.shape).mapError .decodeHiddenStates

def output (shard : TransformerShard) (x : Tensor) : Except Fault Tensor :=
  if shard.isLast then shard.logits x else .ok x

variable {shard : TransformerShard} {req : InferenceRequest} {sessions : shard.Sessions}

theorem bind_output (ran : shard.Sessions × Except Fault Tensor) :
    (ran.1, ran.2.bind shard.output) =
      if shard.isLast then (ran.1, ran.2.bind shard.logits) else ran := by
  obtain ⟨sessions, result⟩ := ran
  cases last : shard.isLast with
  | true =>
    have same : shard.output = shard.logits := funext fun x => by simp [output, last]
    simp [same]
  | false =>
    have same : shard.output = Except.ok := funext fun x => by simp [output, last]
    rw [same]
    cases result <;> rfl

/-- A request decodes to a tensor, runs the blocks on it, and returns its output. -/
theorem handleInferenceRequest_eq (now : Nat) :
    shard.handleInferenceRequest now req sessions =
      match shard.input req with
      | .error failure => (sessions, .error failure)
      | .ok x =>
        let ran := shard.runBlocks now x req.seqPos.toNat req.sessionId sessions
        shard.respond req (ran.1, ran.2.bind shard.output) := by
  unfold handleInferenceRequest input
  simp only [bind_output]
  cases req.payloadType with
  | tokenIds =>
    by_cases first : shard.isFirst = false
    · simp only [first, if_true]
    · simp only [first]
      cases bytesToTokenIds req.data with
      | error fault => rfl
      | ok ids =>
        simp only [forwardFull, forwardFirst]
        cases shard.embed ids with
        | error fault => cases shard.isLast <;> rfl
        | ok x => rfl
  | hiddenStates =>
    cases f16BytesToTensor req.data req.shape with
    | error fault => rfl
    | ok x => rfl

/-- The request brings a tensor that passes the shape checks of the blocks. -/
def Loads (shard : TransformerShard) (req : InferenceRequest) (batch length : Nat) : Prop :=
  ∃ x, shard.input req = .ok x ∧ Fits shard.cfg req.seqPos.toNat batch length x

variable {batch length : Nat}

theorem output_eq_ok_iff {y : Tensor} {seqPos : Nat} (fits : Fits shard.cfg seqPos batch length y) :
    (∃ z, shard.output y = .ok z) ↔ (shard.isLast = true → 0 < length) := by
  unfold output
  cases last : shard.isLast with
  | false => simp
  | true =>
    simp only [if_true, forall_const]
    unfold logits
    rw [fits.dims]
    dsimp only
    cases found : (Tensor.rows batch length shard.cfg.hiddenDim y.data).getLast? with
    | none =>
      have empty := List.getLast?_eq_none_iff.mp found
      have length_eq := Tensor.length_rows batch length shard.cfg.hiddenDim y.data
      rw [empty, length_nil] at length_eq
      simp [← length_eq]
    | some row =>
      have member := mem_of_getLast? found
      have length_eq := Tensor.length_rows batch length shard.cfg.hiddenDim y.data
      have positive := length_pos_of_mem member
      simp only [Except.ok.injEq, exists_eq', true_iff]
      omega

def answer (shard : TransformerShard) (req : InferenceRequest) (ran : Except Fault Tensor) :
    InferenceResponse :=
  reply (((ran.bind shard.output).mapError .inference).map (shard.response req))

theorem blockRpcHandler_of_input {x : Tensor} (decodes : shard.input req = .ok x) (now : Nat)
    (sessions : shard.Sessions) :
    shard.heldCaches (shard.blockRpcHandler now req sessions).1 req.sessionId =
        (forwardBlocks shard.cfg req.seqPos.toNat shard.blocks
          (shard.heldCaches sessions req.sessionId) x).1 ∧
      (shard.blockRpcHandler now req sessions).2 =
        shard.answer req (forwardBlocks shard.cfg req.seqPos.toNat shard.blocks
          (shard.heldCaches sessions req.sessionId) x).2 := by
  unfold blockRpcHandler answer
  rw [handleInferenceRequest_eq, decodes]
  dsimp only [respond]
  rw [heldCaches_runBlocks, runBlocks_snd]
  exact ⟨rfl, rfl⟩

theorem blockRpcHandler_time (req : InferenceRequest) (sessions : shard.Sessions)
    (now later : Nat) :
    shard.heldCaches (shard.blockRpcHandler now req sessions).1 req.sessionId =
        shard.heldCaches (shard.blockRpcHandler later req sessions).1 req.sessionId ∧
      (shard.blockRpcHandler now req sessions).2 =
        (shard.blockRpcHandler later req sessions).2 := by
  cases decodes : shard.input req with
  | error failure =>
    unfold blockRpcHandler
    rw [handleInferenceRequest_eq, handleInferenceRequest_eq, decodes]
    exact ⟨rfl, rfl⟩
  | ok x =>
    obtain ⟨caches, answered⟩ := blockRpcHandler_of_input decodes now sessions
    obtain ⟨caches', answered'⟩ := blockRpcHandler_of_input decodes later sessions
    exact ⟨caches.trans caches'.symm, answered.trans answered'.symm⟩

theorem answer_ok_error_eq_none_iff {y : Tensor} {seqPos : Nat}
    (fits : Fits shard.cfg seqPos batch length y) :
    (shard.answer req (.ok y)).error = none ↔ (shard.isLast = true → 0 < length) := by
  rw [← output_eq_ok_iff fits]
  unfold answer
  simp only [Except.bind]
  cases shard.output y with
  | ok z => exact ⟨fun _ => ⟨z, rfl⟩, fun _ => rfl⟩
  | error fault => exact ⟨nofun, nofun⟩

theorem blockRpcHandler_extends (loads : shard.Loads req batch length)
    (agree : (shard.heldCaches sessions req.sessionId).countP (conflicts batch) = 0) (now : Nat) :
    List.Forall₂ (Extended req.seqPos.toNat batch length)
        (shard.heldCaches sessions req.sessionId)
        (shard.heldCaches (shard.blockRpcHandler now req sessions).1 req.sessionId) ∧
      ((shard.blockRpcHandler now req sessions).2.error = none ↔
        (shard.isLast = true → 0 < length)) ∧
      (length = 0 → (shard.blockRpcHandler now req sessions).2 =
        shard.answer req (.ok (.ofRows batch shard.cfg.hiddenDim []))) := by
  obtain ⟨x, decodes, fits⟩ := loads
  obtain ⟨after, y, ran, extended, fitsY, emptyY⟩ :=
    forwardBlocks_extends shard.blocks (shard.length_heldCaches sessions req.sessionId) fits
      (fun kv member => by simpa using countP_eq_zero.mp agree kv member)
  obtain ⟨caches, answered⟩ := blockRpcHandler_of_input decodes now sessions
  rw [ran] at caches answered
  rw [caches, answered]
  exact ⟨extended, answer_ok_error_eq_none_iff fitsY,
    fun empty => by rw [emptyY empty shard.blocks_ne_nil]⟩

theorem blockRpcHandler_conflicts (loads : shard.Loads req batch length)
    (disagree : 0 < (shard.heldCaches sessions req.sessionId).countP (conflicts batch))
    (now : Nat) :
    (shard.heldCaches (shard.blockRpcHandler now req sessions).1 req.sessionId).countP
          (conflicts batch) + 1 =
        (shard.heldCaches sessions req.sessionId).countP (conflicts batch) ∧
      (shard.blockRpcHandler now req sessions).2.error ≠ none := by
  obtain ⟨x, decodes, fits⟩ := loads
  obtain ⟨caches, answered⟩ := blockRpcHandler_of_input decodes now sessions
  have complete := shard.length_heldCaches sessions req.sessionId
  obtain ⟨kv, found⟩ := Option.isSome_iff_exists.mp
    (List.find?_isSome.mpr (countP_pos_iff.mp disagree))
  obtain ⟨disagrees, front, back, split, agree⟩ := List.find?_eq_some_iff_append.mp found
  rw [split] at caches answered complete ⊢
  obtain ⟨after, fault, ran, extended⟩ := forwardBlocks_conflicts shard.blocks complete fits
    (fun kv member => by simpa using agree kv member) disagrees
  rw [ran] at caches answered
  have before : front.countP (conflicts batch) = 0 :=
    countP_eq_zero.mpr fun kv member => by simpa using agree kv member
  rw [caches, answered]
  refine ⟨?_, nofun⟩
  rw [countP_append, countP_append, countP_conflicts_of_extended extended, before,
    countP_cons_of_pos disagrees, countP_cons_of_neg (by simp [conflicts]), Nat.zero_add,
    Nat.zero_add]

theorem blockRpcHandler_refuses (refused : ∀ batch length, ¬ shard.Loads req batch length)
    (now : Nat) :
    (shard.blockRpcHandler now req sessions).2.error ≠ none ∧
      shard.heldCaches (shard.blockRpcHandler now req sessions).1 req.sessionId =
        shard.heldCaches sessions req.sessionId := by
  cases decodes : shard.input req with
  | error failure =>
    unfold blockRpcHandler
    rw [handleInferenceRequest_eq, decodes]
    exact ⟨nofun, rfl⟩
  | ok x =>
    obtain ⟨fault, ran⟩ := forwardBlocks_unfit shard.blocks_ne_nil
      (shard.length_heldCaches sessions req.sessionId)
      (fun batch length fits => refused batch length ⟨x, decodes, fits⟩)
    obtain ⟨caches, answered⟩ := blockRpcHandler_of_input decodes now sessions
    rw [ran] at caches answered
    exact ⟨by rw [answered]; nofun, caches⟩

theorem blockRpcHandler_shape (loads : shard.Loads req batch length)
    (agree : (shard.heldCaches sessions req.sessionId).countP (conflicts batch) = 0)
    (inner : shard.isLast = false) (now : Nat) :
    (shard.blockRpcHandler now req sessions).2.shape =
      [batch, length, shard.cfg.hiddenDim].map UInt32.ofNat := by
  obtain ⟨x, decodes, fits⟩ := loads
  obtain ⟨after, y, ran, -, fitsY, -⟩ :=
    forwardBlocks_extends shard.blocks (shard.length_heldCaches sessions req.sessionId) fits
      (fun kv member => by simpa using countP_eq_zero.mp agree kv member)
  rw [(blockRpcHandler_of_input decodes now sessions).2, ran, ← fitsY.dims]
  simp [answer, Except.bind, output, inner, Except.mapError, Except.map, reply, response,
    tensorToF16Bytes]

end TransformerShard

/-! ## The client -/

/-- Why a call fails. -/
inductive CallError where
  | callUnaryHandler
  | remote (failure : HandlerError)
  deriving DecidableEq

def clientResult : Option InferenceResponse → Except CallError InferenceResponse
  | none => .error .callUnaryHandler
  | some response =>
    match response.error with
    | some failure => .error (.remote failure)
    | none => .ok response

/-- `call_block_forward`, given the fate and the time of each of its three attempts. -/
def callBlockForward (shard : TransformerShard) (req : InferenceRequest)
    (attempts : Fin 3 → Fate × Nat) (sessions : shard.Sessions) :
    shard.Sessions × Except CallError InferenceResponse :=
  let (sessions, got) :=
    retry (fun now => shard.blockRpcHandler now req) (List.ofFn attempts) sessions
  (sessions, clientResult got)

/-! ## When a retry is safe -/

section Retries

variable {shard : TransformerShard} {req : InferenceRequest} {sessions : shard.Sessions}
variable {batch length : Nat}

theorem countP_conflicts_handledAt (loads : shard.Loads req batch length) (times : List Nat)
    (sessions : shard.Sessions) :
    (shard.heldCaches (handledAt (fun now => shard.blockRpcHandler now req) times sessions)
        req.sessionId).countP (conflicts batch) =
      (shard.heldCaches sessions req.sessionId).countP (conflicts batch) - times.length := by
  induction times generalizing sessions with
  | nil => rfl
  | cons time times ih =>
    have rest := ih (shard.blockRpcHandler time req sessions).1
    rw [handledAt, foldl_cons, length_cons]
    rw [handledAt] at rest
    rw [rest]
    rcases Nat.eq_zero_or_pos
      ((shard.heldCaches sessions req.sessionId).countP (conflicts batch)) with none | some
    · have extended := (TransformerShard.blockRpcHandler_extends loads none time).1
      rw [countP_conflicts_of_extended extended, none, Nat.zero_sub, Nat.zero_sub]
    · have fewer := (TransformerShard.blockRpcHandler_conflicts loads some time).1
      omega

theorem slotCount_handledAt (loads : shard.Loads req batch length) (times : List Nat)
    (sessions : shard.Sessions)
    (agree : (shard.heldCaches sessions req.sessionId).countP (conflicts batch) = 0) :
    slotCount (shard.heldCaches (handledAt (fun now => shard.blockRpcHandler now req) times
        sessions) req.sessionId) =
      slotCount (shard.heldCaches sessions req.sessionId) +
        times.length * (shard.blocks.length * length) := by
  induction times generalizing sessions with
  | nil => simp [handledAt]
  | cons time times ih =>
    have extended := (TransformerShard.blockRpcHandler_extends loads agree time).1
    have rest := ih (shard.blockRpcHandler time req sessions).1
      (countP_conflicts_of_extended extended)
    rw [slotCount_of_extended extended, shard.length_heldCaches] at rest
    rw [handledAt, foldl_cons, length_cons]
    rw [handledAt] at rest
    rw [rest]
    ring

/-- A request without positions changes nothing after its first handling. -/
theorem heldCaches_handledAt_of_settled (loads : shard.Loads req batch 0) (times : List Nat)
    {before : List (Option KvCache)} (sessions : shard.Sessions)
    (settled : List.Forall₂ (Extended req.seqPos.toNat batch 0) before
      (shard.heldCaches sessions req.sessionId)) :
    shard.heldCaches (handledAt (fun now => shard.blockRpcHandler now req) times sessions)
      req.sessionId = shard.heldCaches sessions req.sessionId := by
  induction times generalizing sessions with
  | nil => rfl
  | cons time times ih =>
    have again := (TransformerShard.blockRpcHandler_extends loads
      (countP_conflicts_of_extended settled) time).1
    have same := eq_of_extended_of_length_zero settled again
    have rest := ih (shard.blockRpcHandler time req sessions).1 (same ▸ settled)
    exact rest.trans same.symm

/-- A call that returns a response leaves the caches, and returns the response, of a
single delivery. -/
def RetrySafe (shard : TransformerShard) (req : InferenceRequest)
    (attempts : Fin 3 → Fate × Nat) (once : Nat) (sessions : shard.Sessions) : Prop :=
  ∀ response, (callBlockForward shard req attempts sessions).2 = .ok response →
    shard.heldCaches (callBlockForward shard req attempts sessions).1 req.sessionId =
        shard.heldCaches (shard.blockRpcHandler once req sessions).1 req.sessionId ∧
      (shard.blockRpcHandler once req sessions).2 = response

variable {attempts : Fin 3 → Fate × Nat} {times : List Nat} {time : Nat}

theorem callBlockForward_of_answered
    (answered : answeredAfter (List.ofFn attempts) = some (times, time))
    (req : InferenceRequest) (sessions : shard.Sessions) :
    callBlockForward shard req attempts sessions =
      ((shard.blockRpcHandler time req
          (handledAt (fun now => shard.blockRpcHandler now req) times sessions)).1,
        clientResult (some (shard.blockRpcHandler time req
          (handledAt (fun now => shard.blockRpcHandler now req) times sessions)).2)) := by
  unfold callBlockForward
  rw [retry_of_answered answered]

theorem clientResult_eq_ok_iff {got : Option InferenceResponse} {response : InferenceResponse} :
    clientResult got = .ok response ↔ got = some response ∧ response.error = none := by
  cases got with
  | none => simp [clientResult]
  | some answer =>
    unfold clientResult
    dsimp only
    cases failed : answer.error with
    | some failure =>
      refine ⟨nofun, ?_⟩
      rintro ⟨same, none⟩
      rw [Option.some.inj same, none] at failed
      cases failed
    | none =>
      refine ⟨fun ok => ?_, fun ok => congrArg _ (Option.some.inj ok.1)⟩
      obtain rfl := Except.ok.inj ok
      exact ⟨rfl, failed⟩

theorem not_retrySafe_of_lost (answered : answeredAfter (List.ofFn attempts) = some (times, time))
    (loads : shard.Loads req batch length) (headed : shard.isLast = true → 0 < length)
    (lost : times ≠ [])
    (cleared : (shard.heldCaches sessions req.sessionId).countP (conflicts batch) ≤ times.length)
    (traced : length = 0 →
      (shard.heldCaches sessions req.sessionId).countP (conflicts batch) ≠ 0) (once : Nat) :
    ¬ RetrySafe shard req attempts once sessions := by
  intro safe
  let state := handledAt (fun now => shard.blockRpcHandler now req) times sessions
  have agree : (shard.heldCaches state req.sessionId).countP (conflicts batch) = 0 := by
    rw [countP_conflicts_handledAt loads times sessions]
    omega
  obtain ⟨extended, answers, -⟩ := TransformerShard.blockRpcHandler_extends loads agree time
  have call := callBlockForward_of_answered answered req sessions
  have returned := clientResult_eq_ok_iff.mpr ⟨rfl, answers.mpr headed⟩
  obtain ⟨caches, same⟩ := safe _ ((congrArg Prod.snd call).trans returned)
  rcases Nat.eq_zero_or_pos
    ((shard.heldCaches sessions req.sessionId).countP (conflicts batch)) with none | some
  · have single := (TransformerShard.blockRpcHandler_extends loads none once).1
    have counts := congrArg slotCount caches
    rw [call, slotCount_of_extended extended, slotCount_of_extended single,
      shard.length_heldCaches, shard.length_heldCaches,
      slotCount_handledAt loads times sessions none] at counts
    have blocks : 0 < shard.blocks.length := length_pos_of_ne_nil shard.blocks_ne_nil
    have positions : 0 < length := Nat.pos_of_ne_zero fun empty => traced empty none
    have answersLost : 0 < times.length := length_pos_of_ne_nil lost
    have appended := Nat.mul_pos answersLost (Nat.mul_pos blocks positions)
    omega
  · apply (TransformerShard.blockRpcHandler_conflicts loads some once).2
    rw [same]
    exact answers.mpr headed

theorem exists_answered_of_ok {response : InferenceResponse}
    (returned : (callBlockForward shard req attempts sessions).2 = .ok response) :
    ∃ times time, answeredAfter (List.ofFn attempts) = some (times, time) ∧
      (shard.blockRpcHandler time req
        (handledAt (fun now => shard.blockRpcHandler now req) times sessions)).2 = response ∧
      response.error = none := by
  cases answered : answeredAfter (List.ofFn attempts) with
  | none =>
    have silent : (retry (fun now => shard.blockRpcHandler now req) (List.ofFn attempts)
        sessions).2 = none := retry_of_unanswered answered sessions
    have failed : clientResult (retry (fun now => shard.blockRpcHandler now req)
        (List.ofFn attempts) sessions).2 = .ok response := returned
    rw [silent] at failed
    cases failed
  | some found =>
    obtain ⟨times, time⟩ := found
    have result : clientResult (some (shard.blockRpcHandler time req (handledAt
        (fun now => shard.blockRpcHandler now req) times sessions)).2) = .ok response :=
      (congrArg Prod.snd (callBlockForward_of_answered answered req sessions)).symm.trans returned
    obtain ⟨same, accepted⟩ := clientResult_eq_ok_iff.mp result
    exact ⟨times, time, rfl, Option.some.inj same, accepted⟩

theorem loads_of_answer {now : Nat}
    (accepted : (shard.blockRpcHandler now req sessions).2.error = none) :
    ∃ batch length, shard.Loads req batch length ∧ (shard.isLast = true → 0 < length) ∧
      (shard.heldCaches sessions req.sessionId).countP (conflicts batch) = 0 := by
  by_cases loads : ∃ batch length, shard.Loads req batch length
  · obtain ⟨batch, length, loads⟩ := loads
    have agree : (shard.heldCaches sessions req.sessionId).countP (conflicts batch) = 0 := by
      by_contra some
      exact (TransformerShard.blockRpcHandler_conflicts loads (Nat.pos_of_ne_zero some) now).2
        accepted
    have answers := (TransformerShard.blockRpcHandler_extends loads agree now).2.1
    exact ⟨batch, length, loads, answers.mp accepted, agree⟩
  · push Not at loads
    exact absurd accepted (TransformerShard.blockRpcHandler_refuses loads now).1

theorem handledAt_of_empty (loads : shard.Loads req batch 0)
    (agree : (shard.heldCaches sessions req.sessionId).countP (conflicts batch) = 0)
    (times : List Nat) (time once : Nat) :
    shard.heldCaches (shard.blockRpcHandler time req
          (handledAt (fun now => shard.blockRpcHandler now req) times sessions)).1
          req.sessionId =
        shard.heldCaches (shard.blockRpcHandler once req sessions).1 req.sessionId ∧
      (shard.blockRpcHandler once req sessions).2 = (shard.blockRpcHandler time req
        (handledAt (fun now => shard.blockRpcHandler now req) times sessions)).2 := by
  obtain ⟨extended, -, single⟩ := TransformerShard.blockRpcHandler_extends loads agree once
  have still : (shard.heldCaches (handledAt (fun now => shard.blockRpcHandler now req) times
      sessions) req.sessionId).countP (conflicts batch) = 0 := by
    rw [countP_conflicts_handledAt loads times sessions, agree, Nat.zero_sub]
  have repeated := (TransformerShard.blockRpcHandler_extends loads still time).2.2
  refine ⟨?_, (single rfl).trans (repeated rfl).symm⟩
  cases times with
  | nil => exact (TransformerShard.blockRpcHandler_time req sessions time once).1
  | cons first rest =>
    have opened := (TransformerShard.blockRpcHandler_extends loads agree first).1
    have settled := heldCaches_handledAt_of_settled loads (rest ++ [time]) _ opened
    have unfolded : handledAt (fun now => shard.blockRpcHandler now req) (rest ++ [time])
        (shard.blockRpcHandler first req sessions).1 =
        (shard.blockRpcHandler time req (handledAt (fun now => shard.blockRpcHandler now req)
          (first :: rest) sessions)).1 := foldl_append
    rw [unfolded] at settled
    exact settled.trans (TransformerShard.blockRpcHandler_time req sessions first once).1

end Retries

/-- A single-block shard of a two-block model with one-element rows. -/
def soloShard : TransformerShard where
  cfg := ⟨2, 1, 4, 8⟩
  startBlock := 0
  endBlock := 1
  blocks := [⟨fun row _ => (row, row), fun row _ _ => row⟩]
  embedding := fun id => [id.toUInt16]
  head := id
  nonempty := by decide
  inside := by decide
  loaded := rfl

/-- The first step of a session, with token 3. -/
def soloRequest : InferenceRequest := ⟨7, 0, .tokenIds, [1], [3, 0, 0, 0]⟩

def lostAnswer : Fin 3 → Fate × Nat := ![(.lost true true, 0), (.answered, 1), (.answered, 2)]

end KwaaiNet
