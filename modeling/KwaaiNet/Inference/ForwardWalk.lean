import KwaaiNet.Foundation.Sorting
import KwaaiNet.Inference.Generation

/-! # Walking a chain hop by hop

`forward_through_chain` sends a request through a chain: at each position it sorts the live
entries that cover it, farthest first, then by trust score and for ourselves, and calls them
until one answers. When every call is answered its positions are those of
`build_pinned_path`, and on a pinned path it calls the peers of the path in order
(`KwaaiNet.Forwarding.walks_agree`).
-/

namespace KwaaiNet

open Foundation List

/-- What a walk is given besides its chain. The result of a hop call, retries included,
depends on the calls made before it. -/
structure Forwarding where
  sorter : Sorter BlockServerEntry
  ourPeer : Option PeerId
  localPort : Option UInt16
  sessionId : UInt64
  seqPos : UInt32
  call : Nat → PeerId → InferenceRequest → Except CallFailure InferenceResponse

/-- A hop call, as the timings and the reputation store record it. -/
structure Hop where
  entry : BlockServerEntry
  answered : Bool
  deriving DecidableEq

/-- The calls of a walk and the peers that are not called any more. -/
structure HopLog where
  failedPeers : Finset PeerId
  hops : List Hop

inductive WalkError where
  | gap (pos : Nat)
  | allFailed (candidates pos : Nat)
  | emptyChain
  deriving DecidableEq

def WalkError.message : WalkError → String
  | .gap pos =>
    s!"No server covers block {pos} — chain has a gap (all candidates failed or blacklisted)"
  | .allFailed candidates pos => s!"All {candidates} candidate(s) for block {pos} failed"
  | .emptyChain => "Empty chain — no peers to forward through"

namespace Forwarding

variable (walk : Forwarding)

def isSelf (entry : BlockServerEntry) : Bool := walk.ourPeer = some entry.peerId

/-- The order in which candidates are tried: a farther end first, then a higher score, and
ourselves before others where we have a local server. -/
def hopOrder (first second : BlockServerEntry) : Ordering :=
  (compare second.endBlock first.endBlock).then <|
    (trustOrder second.trustScore first.trustScore).then <|
      if walk.localPort.isSome then compare (walk.isSelf second) (walk.isSelf first) else .eq

def candidates (chain : List BlockServerEntry) (failedPeers : Finset PeerId) (pos : Nat) :
    List BlockServerEntry :=
  walk.sorter.sort walk.hopOrder
    ((chain.filter (BlockServerEntry.covers pos)).filter fun entry => entry.peerId ∉ failedPeers)

def hopCall (made : Nat) (entry : BlockServerEntry) (request : InferenceRequest) :
    Except CallFailure InferenceResponse :=
  if walk.isSelf entry && walk.localPort.isNone then .error .other
  else walk.call made entry.peerId request

def nextRequest (response : InferenceResponse) : InferenceRequest where
  sessionId := walk.sessionId
  seqPos := walk.seqPos
  payloadType := .hiddenStates
  shape := response.shape
  data := response.data

/-- Call the candidates one after another until one answers. A peer that fails is
blacklisted unless the error is a stream error. -/
def tryCandidates (request : InferenceRequest) :
    List BlockServerEntry → HopLog → HopLog × Option (BlockServerEntry × InferenceResponse)
  | [], log => (log, none)
  | entry :: rest, log =>
    match walk.hopCall log.hops.length entry request with
    | .ok response => ({ log with hops := log.hops ++ [⟨entry, true⟩] }, some (entry, response))
    | .error failure =>
      tryCandidates request rest {
        failedPeers := if failure = .reset then log.failedPeers
          else insert entry.peerId log.failedPeers
        hops := log.hops ++ [⟨entry, false⟩] }

theorem mem_of_tryCandidates {request : InferenceRequest} {entries : List BlockServerEntry}
    {log after : HopLog} {entry : BlockServerEntry} {response : InferenceResponse}
    (tried : walk.tryCandidates request entries log = (after, some (entry, response))) :
    entry ∈ entries := by
  induction entries generalizing log with
  | nil => cases tried
  | cons head rest ih =>
    rw [tryCandidates] at tried
    split at tried
    · cases tried
      exact mem_cons_self
    · exact mem_cons_of_mem _ (ih tried)

theorem live_of_mem_candidates {chain : List BlockServerEntry} {failedPeers : Finset PeerId}
    {pos : Nat} {entry : BlockServerEntry}
    (member : entry ∈ walk.candidates chain failedPeers pos) :
    entry ∈ chain ∧ entry.live failedPeers pos = true := by
  have listed := (walk.sorter.perm _ _).mem_iff.mp member
  rw [filter_covers_filter] at listed
  exact mem_filter.mp listed

variable (chain : List BlockServerEntry) (totalBlocks : Nat)

/-- The loop of `forward_through_chain` from a position on. -/
def forwardFrom (pos : Nat) (request : InferenceRequest) (response : Option InferenceResponse)
    (log : HopLog) : Except WalkError InferenceResponse × HopLog :=
  if pos < totalBlocks then
    match _tried : walk.tryCandidates request (walk.candidates chain log.failedPeers pos) log with
    | (after, some (entry, answer)) =>
      forwardFrom entry.endBlock
        (if entry.endBlock < totalBlocks then walk.nextRequest answer else request)
        (some answer) after
    | (after, none) =>
      match walk.candidates chain log.failedPeers pos with
      | [] => (.error (.gap pos), after)
      | entries => (.error (.allFailed entries.length pos), after)
  else
    match response with
    | some answer => (.ok answer, log)
    | none => (.error .emptyChain, log)
termination_by totalBlocks - pos
decreasing_by
  have live := (walk.live_of_mem_candidates (walk.mem_of_tryCandidates _tried)).2
  have reached := (BlockServerEntry.live_iff.mp live).2.1
  omega

/-- `forward_through_chain`. -/
def forwardThroughChain (failedPeers : Finset PeerId) (firstRequest : InferenceRequest) :
    Except WalkError InferenceResponse × HopLog :=
  walk.forwardFrom chain totalBlocks 0 firstRequest none ⟨failedPeers, []⟩

variable {walk chain totalBlocks}

/-! ## The steps of a walk -/

theorem hopOrder_refines : Refines walk.hopOrder fun entry => OrderDual.toDual entry.endBlock := by
  intro first second farther
  have smaller : second.endBlock < first.endBlock := farther
  rw [hopOrder, hopOrder, Nat.compare_eq_lt.mpr smaller, Nat.compare_eq_gt.mpr smaller]
  exact ⟨rfl, rfl⟩

theorem candidates_eq_nil_iff {failedPeers : Finset PeerId} {pos : Nat} :
    walk.candidates chain failedPeers pos = [] ↔ widestAt chain failedPeers pos = none := by
  rw [candidates, widestAt, maxByKey_eq_none_iff]
  exact ⟨fun none' => (none' ▸ walk.sorter.perm _ _).symm.eq_nil,
    fun none' => by rw [none']; exact (walk.sorter.perm _ _).eq_nil⟩

theorem endBlock_of_candidates {failedPeers : Finset PeerId} {pos : Nat}
    {entry widest : BlockServerEntry} {rest : List BlockServerEntry}
    (sorted : walk.candidates chain failedPeers pos = entry :: rest)
    (found : widestAt chain failedPeers pos = some widest) :
    entry.endBlock = widest.endBlock := by
  have preferred := widestAt_eq_some_iff.mp found
  have first : entry ∈ walk.candidates chain failedPeers pos := sorted ▸ mem_cons_self
  obtain ⟨member, live⟩ := walk.live_of_mem_candidates first
  refine le_antisymm (preferred.endBlock_le member live) ?_
  have offered : widest ∈ (chain.filter (BlockServerEntry.covers pos)).filter
      (fun entry => entry.peerId ∉ failedPeers) := by
    rw [filter_covers_filter]
    exact mem_filter.mpr ⟨preferred.mem, preferred.live⟩
  exact OrderDual.toDual_le_toDual.mp (Sorter.key_le hopOrder_refines sorted offered)

variable (walk) in
theorem candidates_of_pinned {failedPeers : Finset PeerId} {pos : Nat}
    {entry : BlockServerEntry} {passed rest : List BlockServerEntry}
    (pinned : PinnedFrom chain totalBlocks failedPeers pos (entry :: rest))
    (behind : ∀ other ∈ passed, other.endBlock ≤ pos) :
    walk.candidates (passed ++ entry :: rest) failedPeers pos = [entry] := by
  rw [candidates, filter_covers_filter, pinned.filter_live behind, Sorter.sort_singleton]

variable (walk) in
theorem hops_tryCandidates (request : InferenceRequest) (entries : List BlockServerEntry)
    (log : HopLog) : ∀ hop ∈ log.hops, hop ∈ (walk.tryCandidates request entries log).1.hops := by
  induction entries generalizing log with
  | nil => exact fun hop member => member
  | cons entry rest ih =>
    intro hop member
    rw [tryCandidates]
    split
    · exact mem_append_left _ member
    · exact ih _ hop (mem_append_left _ member)

section Equations

variable {pos : Nat} {request : InferenceRequest} {response : Option InferenceResponse}
  {log after : HopLog}

theorem forwardFrom_of_answered {entry : BlockServerEntry} {answer : InferenceResponse}
    (inside : pos < totalBlocks)
    (tried : walk.tryCandidates request (walk.candidates chain log.failedPeers pos) log =
      (after, some (entry, answer))) :
    walk.forwardFrom chain totalBlocks pos request response log =
      walk.forwardFrom chain totalBlocks entry.endBlock
        (if entry.endBlock < totalBlocks then walk.nextRequest answer else request)
        (some answer) after := by
  conv => lhs; unfold forwardFrom
  rw [if_pos inside]
  split
  case h_1 other entry' answer' tried' =>
    rw [tried] at tried'
    cases tried'
    rfl
  case h_2 other tried' => rw [tried] at tried'; cases tried'

theorem forwardFrom_of_gap (inside : pos < totalBlocks)
    (gap : walk.candidates chain log.failedPeers pos = []) :
    walk.forwardFrom chain totalBlocks pos request response log = (.error (.gap pos), log) := by
  unfold forwardFrom
  rw [if_pos inside]
  split
  case h_1 other entry answer tried => rw [gap] at tried; cases tried
  case h_2 other tried =>
    rw [gap] at tried ⊢
    cases tried
    rfl

theorem forwardFrom_of_failed {entry : BlockServerEntry} {rest : List BlockServerEntry}
    (inside : pos < totalBlocks)
    (offered : walk.candidates chain log.failedPeers pos = entry :: rest)
    (tried : walk.tryCandidates request (entry :: rest) log = (after, none)) :
    walk.forwardFrom chain totalBlocks pos request response log =
      (.error (.allFailed (rest.length + 1) pos), after) := by
  rw [← offered] at tried
  unfold forwardFrom
  rw [if_pos inside]
  split
  case h_1 other entry answer tried' => rw [tried] at tried'; cases tried'
  case h_2 other tried' =>
    rw [tried] at tried'
    cases tried'
    rw [offered]
    rfl

theorem forwardFrom_of_end (outside : ¬ pos < totalBlocks) :
    walk.forwardFrom chain totalBlocks pos request response log =
      match response with
      | some answer => (.ok answer, log)
      | none => (.error .emptyChain, log) := by
  unfold forwardFrom
  rw [if_neg outside]

theorem forwardFrom_cases (inside : pos < totalBlocks)
    (tried : (walk.tryCandidates request (walk.candidates chain log.failedPeers pos) log).1 =
      after) :
    (∃ failure, walk.forwardFrom chain totalBlocks pos request response log =
        (.error failure, after)) ∨
      ∃ later next answer, pos < later ∧
        walk.forwardFrom chain totalBlocks pos request response log =
          walk.forwardFrom chain totalBlocks later next (some answer) after := by
  subst tried
  cases offered : walk.candidates chain log.failedPeers pos with
  | nil => exact .inl ⟨.gap pos, forwardFrom_of_gap inside offered⟩
  | cons entry rest =>
    cases tried : walk.tryCandidates request (entry :: rest) log with
    | mk after outcome =>
      cases outcome with
      | none => exact .inl ⟨_, forwardFrom_of_failed inside offered tried⟩
      | some found =>
        rw [← offered] at tried
        have live := (walk.live_of_mem_candidates (walk.mem_of_tryCandidates tried)).2
        exact .inr ⟨_, _, _, (BlockServerEntry.live_iff.mp live).2.1,
          forwardFrom_of_answered inside tried⟩

end Equations

theorem hops_forwardFrom {pos : Nat} {request : InferenceRequest}
    {response : Option InferenceResponse} {log : HopLog} {hop : Hop} (made : hop ∈ log.hops) :
    hop ∈ (walk.forwardFrom chain totalBlocks pos request response log).2.hops := by
  induction remaining : totalBlocks - pos using Nat.strong_induction_on
    generalizing pos request response log with
  | _ remaining ih =>
    by_cases inside : pos < totalBlocks
    · have kept := walk.hops_tryCandidates request
        (walk.candidates chain log.failedPeers pos) log hop made
      rcases forwardFrom_cases inside rfl with
        ⟨failure, failed⟩ | ⟨later, next, answer, ahead, continued⟩
      · rwa [failed]
      · rw [continued]
        exact ih _ (by omega) kept rfl
    · rw [forwardFrom_of_end inside]
      cases response <;> exact made

theorem forwardFrom_of_all_answered {pos : Nat} {request : InferenceRequest}
    {response : Option InferenceResponse} {log : HopLog} {entry : BlockServerEntry}
    {rest : List BlockServerEntry} (inside : pos < totalBlocks)
    (offered : walk.candidates chain log.failedPeers pos = entry :: rest)
    (answered : ∀ hop ∈ (walk.forwardFrom chain totalBlocks pos request response log).2.hops,
      hop.answered = true) :
    ∃ next answer, walk.forwardFrom chain totalBlocks pos request response log =
      walk.forwardFrom chain totalBlocks entry.endBlock next (some answer)
        { log with hops := log.hops ++ [⟨entry, true⟩] } := by
  cases called : walk.hopCall log.hops.length entry request with
  | ok answer =>
    refine ⟨_, answer, forwardFrom_of_answered inside ?_⟩
    rw [offered, tryCandidates, called]
  | error failure =>
    have unanswered : (⟨entry, false⟩ : Hop) ∈ (walk.tryCandidates request
        (walk.candidates chain log.failedPeers pos) log).1.hops := by
      rw [offered, tryCandidates, called]
      exact walk.hops_tryCandidates _ _ _ _ (mem_append_right _ mem_cons_self)
    have recorded : (⟨entry, false⟩ : Hop) ∈
        (walk.forwardFrom chain totalBlocks pos request response log).2.hops := by
      rcases forwardFrom_cases inside rfl with
        ⟨failure, failed⟩ | ⟨later, next, answer, ahead, continued⟩
      · rwa [failed]
      · rw [continued]
        exact hops_forwardFrom unanswered
    cases answered _ recorded

/-! ## Agreement with the pinned path -/

def Agrees (walked : Except WalkError InferenceResponse) (hops : List Hop) :
    Except String (List BlockServerEntry) → Prop
  | .ok path => (∀ pos, walked ≠ .error (.gap pos)) ∧
      hops.map (fun hop => hop.entry.endBlock) = path.map BlockServerEntry.endBlock
  | .error message => ∃ pos, walked = .error (.gap pos) ∧ message = noServerCovers pos

theorem forwardFrom_agrees {pos : Nat} {request : InferenceRequest}
    {response : Option InferenceResponse} {log : HopLog}
    (answered : ∀ hop ∈ (walk.forwardFrom chain totalBlocks pos request response log).2.hops,
      hop.answered = true) :
    ∃ hops, (walk.forwardFrom chain totalBlocks pos request response log).2.hops =
        log.hops ++ hops ∧
      Agrees (walk.forwardFrom chain totalBlocks pos request response log).1 hops
        (pinFrom chain totalBlocks log.failedPeers pos) := by
  induction remaining : totalBlocks - pos using Nat.strong_induction_on
    generalizing pos request response log with
  | _ remaining ih =>
    by_cases inside : pos < totalBlocks
    · cases offered : walk.candidates chain log.failedPeers pos with
      | nil =>
        rw [forwardFrom_of_gap inside offered,
          pinFrom_of_gap inside (candidates_eq_nil_iff.mp offered)]
        exact ⟨[], (append_nil _).symm, pos, rfl, rfl⟩
      | cons entry rest =>
        obtain ⟨widest, found⟩ := Option.ne_none_iff_exists'.mp
          (candidates_eq_nil_iff.not.mp (offered ▸ cons_ne_nil entry rest))
        have reached := (BlockServerEntry.live_iff.mp (widestAt_eq_some_iff.mp found).live).2.1
        have ends := endBlock_of_candidates offered found
        obtain ⟨next, answer, continued⟩ :=
          forwardFrom_of_all_answered inside offered answered
        rw [continued] at answered ⊢
        obtain ⟨hops, recorded, agrees⟩ := ih _ (by omega) answered rfl
        refine ⟨⟨entry, true⟩ :: hops, ?_, ?_⟩
        · rw [recorded, append_assoc, singleton_append]
        · rw [pinFrom_of_widest inside found, ← ends]
          cases pinned : pinFrom chain totalBlocks log.failedPeers entry.endBlock with
          | error message => rw [pinned] at agrees; exact agrees
          | ok path =>
            rw [pinned] at agrees
            refine ⟨agrees.1, ?_⟩
            rw [map_cons, map_cons, agrees.2, ends]
    · rw [pinFrom_of_end inside]
      rw [forwardFrom_of_end inside]
      cases response <;> exact ⟨[], (append_nil _).symm, by simp, rfl⟩

theorem forwardFrom_pinned {pos : Nat} {path passed : List BlockServerEntry}
    {failedPeers : Finset PeerId} (pinned : PinnedFrom chain totalBlocks failedPeers pos path)
    {request : InferenceRequest} {response : Option InferenceResponse} {hops : List Hop}
    (behind : ∀ other ∈ passed, other.endBlock ≤ pos)
    (answered : ∀ hop ∈ (walk.forwardFrom (passed ++ path) totalBlocks pos request response
      ⟨failedPeers, hops⟩).2.hops, hop.answered = true) :
    (walk.forwardFrom (passed ++ path) totalBlocks pos request response
      ⟨failedPeers, hops⟩).2.hops.map Hop.entry = hops.map Hop.entry ++ path := by
  induction pinned generalizing passed request response hops with
  | stop outside =>
    rw [forwardFrom_of_end (Nat.not_lt.mpr outside)]
    cases response <;> exact (append_nil _).symm
  | @hop pos entry rest inside preferred tail ih =>
    have offered := walk.candidates_of_pinned (.hop inside preferred tail) behind
    obtain ⟨next, answer, continued⟩ := forwardFrom_of_all_answered inside offered answered
    rw [continued] at answered ⊢
    have split : passed ++ entry :: rest = (passed ++ [entry]) ++ rest := by
      rw [append_assoc, singleton_append]
    have reached := (BlockServerEntry.live_iff.mp preferred.live).2.1
    rw [split] at answered ⊢
    rw [ih (fun other member => ?_) answered]
    · rw [map_append, append_assoc]
      rfl
    · rcases mem_append.mp member with earlier | here
      · exact (behind other earlier).trans reached.le
      · rw [mem_singleton.mp here]

theorem forwardThroughChain_agrees {failedPeers : Finset PeerId} {request : InferenceRequest}
    (answered : ∀ hop ∈ (walk.forwardThroughChain chain totalBlocks failedPeers request).2.hops,
      hop.answered = true) :
    Agrees (walk.forwardThroughChain chain totalBlocks failedPeers request).1
      (walk.forwardThroughChain chain totalBlocks failedPeers request).2.hops
      (buildPinnedPath chain totalBlocks failedPeers) := by
  obtain ⟨hops, recorded, agrees⟩ := forwardFrom_agrees answered
  rw [forwardThroughChain, recorded]
  exact agrees

/-- **The two walks agree.** If every call of a walk is answered, its hops end where the hops
of the pinned path end, and it reports a gap exactly when `build_pinned_path` does. A walk over
a pinned path whose calls are answered calls exactly the peers of the path, in order. -/
theorem walks_agree (walk : Forwarding) (chain : List BlockServerEntry) (totalBlocks : Nat)
    (failedPeers : Finset PeerId) (request : InferenceRequest) :
    ((∀ hop ∈ (walk.forwardThroughChain chain totalBlocks failedPeers request).2.hops,
        hop.answered = true) →
      (∀ path, buildPinnedPath chain totalBlocks failedPeers = .ok path →
        (walk.forwardThroughChain chain totalBlocks failedPeers request).2.hops.map
            (fun hop => hop.entry.endBlock) = path.map BlockServerEntry.endBlock) ∧
      ((∃ pos, (walk.forwardThroughChain chain totalBlocks failedPeers request).1 =
          .error (.gap pos)) ↔
        ∃ message, buildPinnedPath chain totalBlocks failedPeers = .error message)) ∧
    ∀ path, buildPinnedPath chain totalBlocks failedPeers = .ok path →
      (∀ hop ∈ (walk.forwardThroughChain path totalBlocks failedPeers request).2.hops,
        hop.answered = true) →
      (walk.forwardThroughChain path totalBlocks failedPeers request).2.hops.map
        (fun hop => hop.entry.peerId) = path.map BlockServerEntry.peerId := by
  refine ⟨fun answered => ?_, fun path built answered => ?_⟩
  · have agrees := forwardThroughChain_agrees answered
    cases built : buildPinnedPath chain totalBlocks failedPeers with
    | ok path =>
      rw [built] at agrees
      refine ⟨fun other same => ?_, fun gap => ?_, fun failed => ?_⟩
      · rw [← Except.ok.inj same, agrees.2]
      · obtain ⟨pos, reported⟩ := gap
        exact (agrees.1 pos reported).elim
      · obtain ⟨message, impossible⟩ := failed
        cases impossible
    | error message =>
      rw [built] at agrees
      obtain ⟨pos, reported, _⟩ := agrees
      refine ⟨fun path impossible => ?_, fun _ => ⟨message, rfl⟩, fun _ => ⟨pos, reported⟩⟩
      cases impossible
  · have pinned := pinFrom_eq_ok_iff.mp built
    have behind : ∀ other ∈ ([] : List BlockServerEntry), other.endBlock ≤ 0 := by simp
    have called := forwardFrom_pinned pinned behind answered
    rw [map_nil, nil_append] at called
    have peers := congrArg (List.map BlockServerEntry.peerId) called
    rwa [map_map] at peers

def answering : Forwarding where
  sorter := .insertion
  ourPeer := none
  localPort := none
  sessionId := 1
  seqPos := 0
  call _ _ request := .ok ⟨request.sessionId, .hiddenStates, request.shape, request.data, none⟩

theorem answering_tryCandidates (request : InferenceRequest) (entry : BlockServerEntry)
    (rest : List BlockServerEntry) (log : HopLog) :
    answering.tryCandidates request (entry :: rest) log =
      (⟨log.failedPeers, log.hops ++ [⟨entry, true⟩]⟩,
        some (entry, ⟨request.sessionId, .hiddenStates, request.shape, request.data, none⟩)) :=
  rfl

theorem answering_answered {pos : Nat} {request : InferenceRequest}
    {response : Option InferenceResponse} {log : HopLog}
    (before : ∀ hop ∈ log.hops, hop.answered = true) :
    ∀ hop ∈ (answering.forwardFrom chain totalBlocks pos request response log).2.hops,
      hop.answered = true := by
  induction remaining : totalBlocks - pos using Nat.strong_induction_on
    generalizing pos request response log with
  | _ remaining ih =>
    by_cases inside : pos < totalBlocks
    · cases offered : answering.candidates chain log.failedPeers pos with
      | nil => rwa [forwardFrom_of_gap inside offered]
      | cons entry rest =>
        have first : entry ∈ answering.candidates chain log.failedPeers pos :=
          offered ▸ mem_cons_self
        have live := (answering.live_of_mem_candidates first).2
        have reached := (BlockServerEntry.live_iff.mp live).2.1
        have tried := answering_tryCandidates request entry rest log
        rw [← offered] at tried
        rw [forwardFrom_of_answered inside tried]
        refine ih _ (by omega) (fun hop member => ?_) rfl
        rcases mem_append.mp member with earlier | here
        · exact before hop earlier
        · rw [mem_singleton.mp here]
    · rw [forwardFrom_of_end inside]
      cases response <;> exact before

def probeRequest : InferenceRequest := ⟨1, 0, .tokenIds, [1, 1], [0, 0, 0, 0]⟩

theorem overlappingChain_walks_agree :
    (answering.forwardThroughChain overlappingChain 32 ∅ probeRequest).2.hops.map
        (fun hop => hop.entry.endBlock) = [16, 32] ∧
      (answering.forwardThroughChain overlappingChain 32 ∅ probeRequest).2.hops.map
        (fun hop => hop.entry.peerId) = [.ofByte 1, .ofByte 2] := by
  have built : buildPinnedPath overlappingChain 32 ∅ = .ok overlappingChain := by decide +kernel
  have agree := walks_agree answering overlappingChain 32 ∅ probeRequest
  have answered : ∀ hop ∈ (answering.forwardThroughChain overlappingChain 32 ∅
      probeRequest).2.hops, hop.answered = true := answering_answered (by simp)
  exact ⟨(agree.1 answered).1 overlappingChain built, agree.2 overlappingChain built answered⟩

end Forwarding

end KwaaiNet
