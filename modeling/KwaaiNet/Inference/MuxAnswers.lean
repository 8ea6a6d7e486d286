import KwaaiNet.Inference.MuxForgery
import KwaaiNet.Inference.MuxRouting

/-! # Responses answer their requests

Against `handle_mux_stream_server` the requests on the stream are those that calls have queued,
in this order, and the responses on the way back are those that the server has computed for
them. So a call returns the response to its own request
(`KwaaiNet.MuxSystem.routed_of_keepsShort`), as long as the encoding of every message is shorter
than four gibibytes. The length of a longer one wraps around in its frame, and the server takes
the rest of the request for further requests; one of them can name the id of another call
(`KwaaiNet.MuxSystem.not_routed_hijack`).
-/

namespace KwaaiNet

open Foundation Foundation.MessagePack List

/-- What every step keeps of a task of the server. -/
structure ServerTask.Continues (before after : ServerTask) : Prop where
  request : after.request = before.request
  response : ∀ response, before.response = some response → after.response = some response

theorem ServerTask.continues_refl (task : ServerTask) : task.Continues task :=
  ⟨rfl, fun _ => id⟩

def Computed (tasks : List ServerTask) (response : MuxResponse) : Prop :=
  ∃ (n : Nat) (task : ServerTask), tasks[n]? = some task ∧ task.response = some response

def Genuine (calls : List SendCall) (request : MuxRequest) : Prop :=
  ∃ (k : Nat) (call : SendCall), calls[k]? = some call ∧
    call.requestId = some request.requestId ∧ call.request request.requestId = request ∧
    call.phase.settled

theorem Computed.continue {tasks after : List ServerTask} {response : MuxResponse}
    (computed : Computed tasks response) (continues : Continue ServerTask.Continues tasks after) :
    Computed after response := by
  obtain ⟨n, task, found, answer⟩ := computed
  obtain ⟨later, stands, kept⟩ := continues n task found
  exact ⟨n, later, stands, kept.response response answer⟩

theorem Genuine.continue {calls after : List SendCall} {request : MuxRequest}
    (genuine : Genuine calls request) (continues : Continue SendCall.Continues calls after) :
    Genuine after request := by
  obtain ⟨k, call, found, own, same, settled⟩ := genuine
  obtain ⟨later, stands, kept⟩ := continues k call found
  refine ⟨k, later, stands, kept.requestId _ own, ?_, kept.settled settled⟩
  rw [kept.request, same]

namespace MuxSystem

variable {system after : MuxSystem}

/-! ## Requests on their way to the server -/

/-- The requests that the server has read, those on the stream and those in the queue. -/
structure Requests (system : MuxSystem) (onWire queued : List MuxRequest) : Prop where
  wire : FramedStream (onWire.map MuxRequest.toVecNamed) (system.writer = .running)
    system.toServer
  queue : system.writer = .running → system.queue = queued.map MuxRequest.toVecNamed
  short : ∀ request ∈ queued, Short request.toVecNamed
  genuine : ∀ request ∈ system.tasks.map ServerTask.request ++ onWire ++ queued,
    Genuine system.calls request
  distinct : ((system.tasks.map ServerTask.request ++ onWire ++ queued).map
    MuxRequest.requestId).Nodup

namespace Requests

variable {onWire queued : List MuxRequest}

theorem frame (requests : system.Requests onWire queued)
    (calls : Continue SendCall.Continues system.calls after.calls)
    (writer : after.writer = system.writer) (queue : after.queue = system.queue)
    (toServer : after.toServer = system.toServer)
    (tasks : after.tasks.map ServerTask.request = system.tasks.map ServerTask.request) :
    after.Requests onWire queued where
  wire := by
    rw [writer, toServer]
    exact requests.wire
  queue := by
    rw [writer, queue]
    exact requests.queue
  short := requests.short
  genuine := by
    rw [tasks]
    exact fun request member => (requests.genuine request member).continue calls
  distinct := by
    rw [tasks]
    exact requests.distinct

theorem enqueue (requests : system.Requests onWire queued)
    (numbered : Numbered system.nextId (requestIds system.calls))
    {k : Nat} {call : SendCall} {requestId : UInt64} (found : system.calls[k]? = some call)
    (registered : call.phase = .registered) (own : call.requestId = some requestId)
    (short : Short (call.request requestId).toVecNamed)
    (continues : Continue SendCall.Continues system.calls
      (system.enqueue k (call.request requestId)).calls) :
    ∃ queued, (system.enqueue k (call.request requestId)).Requests onWire queued := by
  have fresh : ∀ earlier ∈ system.tasks.map ServerTask.request ++ onWire ++ queued,
      earlier.requestId ≠ requestId := by
    intro earlier member same
    obtain ⟨m, other, present, drawn, _, settled⟩ := requests.genuine earlier member
    have number : m = k := by
      apply numbered.distinct m k requestId
      · rw [requestIds, List.getElem?_map, present, Option.map_some, drawn, same]
      · rw [requestIds, List.getElem?_map, found, Option.map_some, own]
    subst number
    obtain rfl := Option.some.inj (found.symm.trans present)
    rw [registered] at settled
    cases settled
  rw [MuxSystem.enqueue] at continues ⊢
  split_ifs at continues ⊢ with gone room
  · exact ⟨queued, requests.frame continues rfl rfl rfl rfl⟩
  · by_cases running : system.writer = .running
    · refine ⟨queued ++ [call.request requestId], requests.wire, ?_, ?_, ?_, ?_⟩
      · intro _
        rw [requests.queue running, map_append]
        rfl
      · exact forall_mem_append.mpr ⟨requests.short, forall_mem_singleton.mpr short⟩
      · rw [← append_assoc]
        refine forall_mem_append.mpr ⟨?_, forall_mem_singleton.mpr ?_⟩
        · exact fun request member => (requests.genuine request member).continue continues
        · refine ⟨k, { call with phase := .waiting }, ?_, own, rfl, rfl⟩
          rw [move, List.getElem?_modify, found]
          exact congrArg some (if_pos rfl)
      · rw [← append_assoc, map_append]
        refine nodup_append.mpr ⟨requests.distinct, nodup_singleton _, ?_⟩
        intro earlier member last new
        obtain ⟨request, sent, rfl⟩ := mem_map.mp member
        rw [mem_singleton.mp new]
        exact fresh request sent
    · exact ⟨queued, requests.wire, fun runs => absurd runs running, requests.short,
        fun request member => (requests.genuine request member).continue continues,
        requests.distinct⟩
  · exact ⟨queued, requests⟩

/-- The writer moves the first request of the queue to the stream, or a part of it. -/
theorem writeRequest (requests : system.Requests onWire queued) (written : Option Nat) :
    ∃ onWire queued, (system.writeRequest written).Requests onWire queued := by
  rw [MuxSystem.writeRequest]
  split
  case h_1 payload queue running first =>
    have encoded := requests.queue running
    cases queued with
    | nil =>
      rw [first] at encoded
      cases encoded
    | cons request queued =>
      rw [first] at encoded
      obtain ⟨rfl, rfl⟩ := List.cons.inj encoded
      have short := requests.short request mem_cons_self
      have shorter : ∀ request ∈ queued, Short request.toVecNamed :=
        fun request member => requests.short request (.tail _ member)
      have genuine := requests.genuine
      have distinct := requests.distinct
      rw [append_cons, append_assoc (system.tasks.map _)] at genuine distinct
      cases written with
      | none =>
        refine ⟨onWire ++ [request], queued, ?_, fun _ => rfl, shorter, genuine, distinct⟩
        rw [map_append]
        exact requests.wire.write running short List.prefix_rfl fun _ => rfl
      | some count =>
        refine ⟨onWire ++ [request], queued, ?_, (by simp), shorter, genuine, distinct⟩
        rw [map_append]
        exact requests.wire.write running short (List.take_prefix _ _) (by simp)
  case h_2 => exact ⟨onWire, queued, requests⟩

theorem readRequest (requests : system.Requests onWire queued) :
    ∃ onWire, system.readRequest.Requests onWire queued := by
  rw [MuxSystem.readRequest]
  split
  case h_1 =>
    exact ⟨onWire, requests.wire, requests.queue, requests.short, requests.genuine,
      requests.distinct⟩
  case h_2 payload rest _ taken =>
    obtain ⟨others, same, remains⟩ := requests.wire.read taken
    cases onWire with
    | nil => cases same
    | cons request onWire =>
      obtain ⟨rfl, rfl⟩ := List.cons.inj same
      have short : Short request.toVecNamed := requests.wire.short _ mem_cons_self
      have genuine := requests.genuine
      have distinct := requests.distinct
      have started : system.tasks.map ServerTask.request ++ [request] =
          (system.tasks ++ [ServerTask.mk request none false]).map ServerTask.request := by
        rw [map_append]
        rfl
      rw [append_cons, started] at genuine distinct
      rw [request.fromSlice_toVecNamed short]
      exact ⟨onWire, remains, requests.queue, requests.short, genuine, distinct⟩
  case h_3 => exact ⟨onWire, requests⟩

end Requests

/-! ## Responses on their way to the client -/


/-- The responses on the stream and those in the channels are computed by the server. -/
structure Responses (system : MuxSystem) (onWire : List MuxResponse) : Prop where
  wire : FramedStream (onWire.map MuxResponse.toVecNamed) (system.serverWrites = true)
    system.toClient
  computed : ∀ response ∈ onWire, Computed system.tasks response
  held : ∀ (k : Nat) call response, system.calls[k]? = some call →
    call.channel = .full response → Computed system.tasks response

namespace Responses

variable {onWire : List MuxResponse}

theorem frame (responses : system.Responses onWire)
    (calls : Undelivered system.calls after.calls)
    (toClient : after.toClient = system.toClient)
    (serverWrites : after.serverWrites = system.serverWrites)
    (tasks : Continue ServerTask.Continues system.tasks after.tasks) :
    after.Responses onWire where
  wire := by
    rw [toClient, serverWrites]
    exact responses.wire
  computed := fun response member => (responses.computed response member).continue tasks
  held := by
    intro k call response found full
    obtain ⟨earlier, stood, held, _⟩ := calls.earlier found full
    exact (responses.held k earlier response stood held).continue tasks

theorem readResponse (responses : system.Responses onWire) :
    ∃ onWire, system.readResponse.Responses onWire := by
  rw [MuxSystem.readResponse]
  split
  case h_1 => exact ⟨onWire, responses.wire, responses.computed, responses.held⟩
  case h_2 payload rest _ taken =>
    obtain ⟨others, same, remains⟩ := responses.wire.read taken
    cases onWire with
    | nil => cases same
    | cons response onWire =>
      obtain ⟨rfl, rfl⟩ := List.cons.inj same
      have short : Short response.toVecNamed := responses.wire.short _ mem_cons_self
      obtain ⟨first, others⟩ := forall_mem_cons.mp responses.computed
      have held : ∀ (k : Nat) call other, (system.deliver response).calls[k]? = some call →
          call.channel = .full other → Computed system.tasks other := by
        intro k call other found full
        obtain ⟨earlier, stood, _, held | ⟨rfl, _⟩⟩ := held_deliver found full
        · exact responses.held k earlier other stood held
        · exact first
      rw [receiveFrame, response.fromSlice_toVecNamed short, Option.elim_some]
      obtain ⟨calls, pending, deliveries, same⟩ := system.deliver_frame response
      rw [same] at held ⊢
      exact ⟨onWire, remains, others, held⟩
  case h_3 => exact ⟨onWire, responses⟩

theorem writeResponse (responses : system.Responses onWire) (n : Nat) (written : Option Nat)
    (short : ∀ task ∈ system.tasks[n]?, ∀ response ∈ task.response, Short response.toVecNamed) :
    ∃ onWire, (system.writeResponse n written).Responses onWire := by
  rw [MuxSystem.writeResponse]
  split
  case h_1 request response writes found =>
    have tasks : Continue ServerTask.Continues system.tasks
        (system.tasks.modify n fun task => { task with finished := true }) :=
      continue_modify ServerTask.continues_refl fun _ _ => ⟨rfl, fun _ => id⟩
    refine ⟨onWire ++ [response], ?_, ?_, ?_⟩
    · rw [map_append]
      have shortest := short _ found response rfl
      cases written with
      | none => exact responses.wire.write writes shortest List.prefix_rfl fun _ => rfl
      | some count =>
        exact responses.wire.write writes shortest (List.take_prefix _ _) (by simp)
    · have answer : Computed system.tasks response := ⟨n, _, found, rfl⟩
      refine forall_mem_append.mpr ⟨?_, forall_mem_singleton.mpr (answer.continue tasks)⟩
      exact fun other member => (responses.computed other member).continue tasks
    · intro k call other present full
      exact (responses.held k call other present full).continue tasks
  case h_2 => exact ⟨onWire, responses⟩

end Responses

/-- The encodings of the requests that are queued and of the responses that are written are
shorter than four gibibytes. -/
def KeepsShort (system : MuxSystem) : MuxEvent → Prop
  | .call k .enqueue =>
    ∀ call ∈ system.calls[k]?, ∀ request ∈ call.requestId.map call.request,
      Short request.toVecNamed
  | .respond n | .respondFails n _ =>
    ∀ task ∈ system.tasks[n]?, ∀ response ∈ task.response, Short response.toVecNamed
  | _ => True

instance (system : MuxSystem) : ∀ event, Decidable (system.KeepsShort event)
  | .call k .enqueue =>
    inferInstanceAs (Decidable (∀ call ∈ system.calls[k]?,
      ∀ request ∈ call.requestId.map call.request, Short request.toVecNamed))
  | .respond n | .respondFails n _ =>
    inferInstanceAs (Decidable (∀ task ∈ system.tasks[n]?, ∀ response ∈ task.response,
      Short response.toVecNamed))
  | .call _ .draw | .call _ .register | .call _ .resume | .call _ .timeout | .call _ .cancel
  | .send .. | .write | .writeFails _ | .writerClears | .read | .readFails | .readerClears
  | .serverRead | .serverStops | .compute .. | .peerWrites _ => .isTrue trivial

/-! ## The server -/

theorem continue_compute (system : MuxSystem) (n : Nat) (status : UInt16) (body : List UInt8) :
    Continue ServerTask.Continues system.tasks (system.compute n status body).tasks := by
  apply continue_modify ServerTask.continues_refl
  intro task _
  split
  case h_1 waiting => exact ⟨rfl, by rw [waiting]; exact nofun⟩
  case h_2 => exact task.continues_refl

/-- Every response that the server computes has the id of its request. -/
def OwnIds (tasks : List ServerTask) : Prop :=
  ∀ (n : Nat) task, tasks[n]? = some task →
    ∀ response, task.response = some response → response.requestId = task.request.requestId

theorem ownIds_compute (own : OwnIds system.tasks) (n : Nat) (status : UInt16)
    (body : List UInt8) : OwnIds (system.compute n status body).tasks := by
  refine forall_modify own ?_
  intro task found
  split
  case h_1 =>
    intro response computed
    obtain rfl := Option.some.inj computed
    rfl
  case h_2 => exact own n task found

theorem ownIds_writeResponse (own : OwnIds system.tasks) (n : Nat) (written : Option Nat) :
    OwnIds (system.writeResponse n written).tasks := by
  rw [writeResponse]
  split
  · exact forall_modify own fun task found => own n task found
  · exact own

theorem ownIds_readRequest (own : OwnIds system.tasks) : OwnIds system.readRequest.tasks := by
  rw [readRequest]
  split
  case h_1 => exact own
  case h_2 =>
    intro n task found response computed
    rw [List.getElem?_append] at found
    split_ifs at found
    · exact own n task found response computed
    · obtain ⟨request, _, rfl⟩ :=
        Option.map_eq_some_iff.mp (Option.mem_toList.mp (mem_of_getElem? found))
      cases computed
  case h_3 => exact own

/-! ## Whole runs -/

theorem stepCall_frame (system : MuxSystem) (k : Nat) (call : SendCall) {step : CallStep}
    (other : step ≠ .enqueue) :
    ∃ nextId calls pending,
      system.stepCall k call step = { system with nextId, calls, pending } := by
  have wake (timer : Bool) : ∃ calls, system.wake k call timer = { system with calls } := by
    rw [wake]
    split
    · exact ⟨_, rfl⟩
    · exact ⟨_, rfl⟩
  cases step with
  | draw | register =>
    rw [stepCall]
    split
    · exact ⟨_, _, _, rfl⟩
    · exact ⟨_, _, _, rfl⟩
  | enqueue => exact absurd rfl other
  | resume =>
    obtain ⟨calls, same⟩ := wake false
    exact ⟨_, calls, _, same⟩
  | timeout =>
    obtain ⟨calls, same⟩ := wake true
    exact ⟨_, calls, _, same⟩
  | cancel =>
    rw [stepCall, cancel]
    split <;> exact ⟨_, _, _, rfl⟩

/-- What the steps keep as long as all messages are short. -/
structure Serves (system : MuxSystem) : Prop where
  numbered : Numbered system.nextId (requestIds system.calls)
  requests : ∃ onWire queued, system.Requests onWire queued
  own : OwnIds system.tasks
  responses : system.foreign = false → ∃ onWire, system.Responses onWire

/-- A step leaves the server and the stream to the client as they are. -/
structure SameServer (before after : MuxSystem) : Prop where
  tasks : after.tasks = before.tasks
  toClient : after.toClient = before.toClient
  serverWrites : after.serverWrites = before.serverWrites
  foreign : after.foreign = before.foreign

theorem continue_refl (calls : List SendCall) : Continue SendCall.Continues calls calls :=
  fun _ call found => ⟨call, found, call.quiet_refl.toContinues⟩

theorem Quiet.continues (quiet : Quiet system after) :
    Continue SendCall.Continues system.calls after.calls := by
  intro k call found
  obtain ⟨later, stands, kept⟩ := quiet.calls.kept k call found
  exact ⟨later, stands, kept.toContinues⟩

namespace Serves

theorem client (serves : system.Serves) (quiet : Quiet system after)
    (few : after.calls.length < 2 ^ 64) (same : SameServer system after)
    (requests : ∃ onWire queued, after.Requests onWire queued) : after.Serves where
  numbered := quiet.draws.numbered serves.numbered few
  requests := requests
  own := by
    rw [same.tasks]
    exact serves.own
  responses := by
    rw [same.foreign]
    intro genuine
    obtain ⟨onWire, responses⟩ := serves.responses genuine
    refine ⟨onWire, responses.frame quiet.calls same.toClient same.serverWrites ?_⟩
    rw [same.tasks]
    exact fun _ task found => ⟨task, found, task.continues_refl⟩

theorem stepCall (serves : system.Serves) {k : Nat} {call : SendCall}
    (found : system.calls[k]? = some call) (proper : call.Proper) {step : CallStep}
    (short : step = .enqueue → ∀ request ∈ call.requestId.map call.request,
      Short request.toVecNamed)
    (few : (system.stepCall k call step).calls.length < 2 ^ 64) :
    (system.stepCall k call step).Serves := by
  have quiet := Quiet.stepCall found proper step
  obtain ⟨onWire, queued, requests⟩ := serves.requests
  by_cases queues : step = .enqueue
  · subst queues
    revert quiet few
    rw [MuxSystem.stepCall]
    split
    case h_1 requestId registered own =>
      intro few quiet
      refine serves.client quiet few ?_ ⟨onWire, ?_⟩
      · rw [enqueue]
        split_ifs <;> exact ⟨rfl, rfl, rfl, rfl⟩
      · exact requests.enqueue serves.numbered found registered own
          (short rfl _ (Option.mem_map_of_mem call.request own)) quiet.continues
    case h_2 => exact fun _ _ => serves
  · obtain ⟨nextId, calls, pending, same⟩ := system.stepCall_frame k call queues
    rw [same] at quiet few ⊢
    exact serves.client quiet few ⟨rfl, rfl, rfl, rfl⟩
      ⟨onWire, queued, requests.frame quiet.continues rfl rfl rfl rfl⟩

theorem writeRequest (serves : system.Serves) (written : Option Nat) :
    (system.writeRequest written).Serves := by
  obtain ⟨onWire, queued, requests⟩ := serves.requests
  have requests := requests.writeRequest written
  revert requests
  rw [MuxSystem.writeRequest]
  split
  · cases written <;>
    · intro requests
      refine ⟨serves.numbered, requests, serves.own, fun genuine => ?_⟩
      obtain ⟨onWire, responses⟩ := serves.responses genuine
      exact ⟨onWire, responses.wire, responses.computed, responses.held⟩
  · exact fun _ => serves

theorem writeResponse (serves : system.Serves) {n : Nat} {written : Option Nat}
    (short : ∀ task ∈ system.tasks[n]?, ∀ response ∈ task.response, Short response.toVecNamed) :
    (system.writeResponse n written).Serves := by
  obtain ⟨onWire, queued, requests⟩ := serves.requests
  have own := ownIds_writeResponse serves.own n written
  have responses : system.foreign = false →
      ∃ onWire, (system.writeResponse n written).Responses onWire := by
    intro genuine
    obtain ⟨onWire, responses⟩ := serves.responses genuine
    exact responses.writeResponse n written short
  revert own responses
  rw [MuxSystem.writeResponse]
  split
  · refine fun own responses => ⟨serves.numbered, ⟨onWire, queued, ?_⟩, own, responses⟩
    exact requests.frame (continue_refl _) rfl rfl rfl (map_modify_of_kept fun _ => rfl)
  · exact fun _ _ => serves

theorem compute (serves : system.Serves) (n : Nat) (status : UInt16) (body : List UInt8) :
    (system.compute n status body).Serves := by
  obtain ⟨onWire, queued, requests⟩ := serves.requests
  refine ⟨serves.numbered, ⟨onWire, queued, ?_⟩, ownIds_compute serves.own n status body, ?_⟩
  · refine requests.frame (continue_refl _) rfl rfl rfl (map_modify_of_kept ?_)
    intro task
    split <;> rfl
  · intro genuine
    obtain ⟨onWire, responses⟩ := serves.responses genuine
    exact ⟨onWire, responses.frame (.of_eq rfl) rfl rfl (continue_compute system n status body)⟩

theorem readRequest (serves : system.Serves) : system.readRequest.Serves := by
  obtain ⟨onWire, queued, requests⟩ := serves.requests
  have own := ownIds_readRequest serves.own
  have requests := requests.readRequest
  revert own requests
  rw [MuxSystem.readRequest]
  split
  case h_1 =>
    intro own requests
    refine ⟨serves.numbered, requests.imp fun _ => .intro queued, own, fun genuine => ?_⟩
    obtain ⟨onWire, responses⟩ := serves.responses genuine
    exact ⟨onWire, responses.wire, responses.computed, responses.held⟩
  case h_2 =>
    intro own requests
    refine ⟨serves.numbered, requests.imp fun _ => .intro queued, own, fun genuine => ?_⟩
    obtain ⟨onWire, responses⟩ := serves.responses genuine
    refine ⟨onWire, responses.frame (.of_eq rfl) rfl rfl ?_⟩
    exact continue_append ServerTask.continues_refl _
  case h_3 => exact fun _ _ => serves

theorem readResponse (serves : system.Serves) (routes : system.Routes)
    (few : system.readResponse.calls.length < 2 ^ 64) : system.readResponse.Serves := by
  obtain ⟨onWire, queued, requests⟩ := serves.requests
  have numbered := (draws_step routes .read).numbered serves.numbered few
  have continues := continue_step routes .read
  have responses : system.foreign = false → ∃ onWire, system.readResponse.Responses onWire := by
    intro genuine
    obtain ⟨onWire, responses⟩ := serves.responses genuine
    exact responses.readResponse
  rw [MuxSystem.step] at numbered continues
  obtain ⟨_, _, _, _, _, _, _, same⟩ := system.readResponse_frame
  rw [same] at numbered continues responses ⊢
  exact ⟨numbered, ⟨onWire, queued, requests.frame continues rfl rfl rfl rfl⟩, serves.own,
    responses⟩

/-- **Every step of a run with short messages keeps the streams in order.** -/
theorem step (serves : system.Serves) (routes : system.Routes) {event : MuxEvent}
    (short : system.KeepsShort event) (few : (system.step event).calls.length < 2 ^ 64) :
    (system.step event).Serves := by
  have quiet (other : event ≠ .read) := Quiet.step routes.proper other
  cases event with
  | send method path body =>
    obtain ⟨onWire, queued, requests⟩ := serves.requests
    have quiet := quiet (by simp)
    exact serves.client quiet few ⟨rfl, rfl, rfl, rfl⟩
      ⟨onWire, queued, requests.frame quiet.continues rfl rfl rfl rfl⟩
  | call k step =>
    revert few
    rw [MuxSystem.step]
    split
    case h_1 call found =>
      refine serves.stepCall found (routes.proper k call found) ?_
      rintro rfl
      exact short call found
    case h_2 => exact fun _ => serves
  | write => exact serves.writeRequest none
  | writeFails written => exact serves.writeRequest (some written)
  | writerClears =>
    have quiet := quiet (by simp)
    revert few quiet
    rw [MuxSystem.step]
    split_ifs
    · intro few quiet
      obtain ⟨onWire, queued, requests⟩ := serves.requests
      refine serves.client quiet few ⟨rfl, rfl, rfl, rfl⟩ ⟨onWire, queued, ?_⟩
      refine ⟨requests.wire.broken (by simp), (by simp), requests.short, ?_, requests.distinct⟩
      exact fun request member => (requests.genuine request member).continue quiet.continues
    · exact fun _ _ => serves
  | read => exact serves.readResponse routes few
  | readFails | readerClears =>
    have quiet := quiet (by simp)
    revert few quiet
    rw [MuxSystem.step]
    split_ifs
    · intro few quiet
      obtain ⟨onWire, queued, requests⟩ := serves.requests
      exact serves.client quiet few ⟨rfl, rfl, rfl, rfl⟩
        ⟨onWire, queued, requests.frame quiet.continues rfl rfl rfl rfl⟩
    · exact fun _ _ => serves
  | serverRead => exact serves.readRequest
  | serverStops =>
    obtain ⟨onWire, queued, requests⟩ := serves.requests
    have quiet := quiet (by simp)
    exact serves.client quiet few ⟨rfl, rfl, rfl, rfl⟩
      ⟨onWire, queued, requests.frame quiet.continues rfl rfl rfl rfl⟩
  | compute n status body => exact serves.compute n status body
  | respond n => exact serves.writeResponse short
  | respondFails n written => exact serves.writeResponse short
  | peerWrites bytes =>
    obtain ⟨onWire, queued, requests⟩ := serves.requests
    refine ⟨serves.numbered, ⟨onWire, queued, ?_⟩, serves.own, ?_⟩
    · exact requests.frame (continue_refl _) rfl rfl rfl rfl
    · intro genuine
      cases genuine

end Serves

theorem serves_connected : connected.Serves where
  numbered := ⟨rfl, nofun, nofun⟩
  requests := ⟨[], [], .nil, fun _ => rfl, nofun, nofun, nodup_nil⟩
  own := nofun
  responses := fun _ => ⟨[], .nil, nofun, nofun⟩

/-- Every response that a call returns is the one that the server computed for the request of
this call, and the server has handled that request once. -/
def Answered (system : MuxSystem) : Prop :=
  ∀ (k : Nat) call response, system.calls[k]? = some call →
    call.phase = .returned (.ok response) →
    ∃ (n : Nat) (task : ServerTask), system.tasks[n]? = some task ∧
      task.request = call.request response.requestId ∧ task.response = some response ∧
      ∀ (m : Nat) other, system.tasks[m]? = some other → other.request = task.request → m = n

theorem Serves.answered (serves : system.Serves) (routes : system.Routes)
    (genuine : system.foreign = false) : system.Answered := by
  intro k call response found returned
  have full := (routes.proper k call found).received response returned
  have own := (routes.held k call response found full).1
  obtain ⟨_, responses⟩ := serves.responses genuine
  obtain ⟨onWire, queued, requests⟩ := serves.requests
  obtain ⟨n, task, present, computed⟩ := responses.held k call response found full
  have sameId := serves.own n task present response computed
  have sent : task.request ∈ system.tasks.map ServerTask.request ++ onWire ++ queued :=
    mem_append_left _ (mem_append_left _
      (mem_map_of_mem (mem_of_getElem? present)))
  -- the request of the task is the one of the call that has drawn its id
  obtain ⟨m, other, stands, drawn, same, _⟩ := requests.genuine task.request sent
  have number : m = k := by
    apply serves.numbered.distinct m k response.requestId
    · rw [requestIds, List.getElem?_map, stands, Option.map_some, drawn, sameId]
    · rw [requestIds, List.getElem?_map, found, Option.map_some, own]
  subst number
  obtain rfl := Option.some.inj (found.symm.trans stands)
  refine ⟨n, task, present, by rw [sameId, same], computed, ?_⟩
  intro l another there equal
  have distinct := requests.distinct
  rw [append_assoc, map_append, map_map] at distinct
  have unique := (nodup_append.mp distinct).1
  have inside : l < system.tasks.length := (List.getElem?_eq_some_iff.mp there).1
  refine (List.getElem?_inj (by rwa [length_map]) unique).mp ?_
  rw [List.getElem?_map, List.getElem?_map, there, present, Option.map_some, Option.map_some,
    Function.comp_apply, Function.comp_apply, equal]

/-- Multiplexed responses reach exactly their requesters. -/
def Routed (system : MuxSystem) : Prop :=
  system.OwnResponse ∧ system.DeliveredOnce ∧ (system.foreign = false → system.Answered)

theorem serves_run {events : List MuxEvent} (short : Meets step KeepsShort connected events)
    (few : (run events).calls.length < 2 ^ 64) : (run events).Serves := by
  let kept (system : MuxSystem) : Prop :=
    system.Routes ∧ (system.calls.length < 2 ^ 64 → system.Serves)
  have steps : ∀ system event next, kept system →
      system.KeepsShort event ∧ system.step event = next → kept next := by
    rintro system event next ⟨routes, serves⟩ ⟨shorter, rfl⟩
    refine ⟨routes.step event, fun few => ?_⟩
    have longer := (continue_step routes event).length_le
    exact (serves (Nat.lt_of_le_of_lt longer few)).step routes shorter few
  have start : kept connected := ⟨routes_connected, fun _ => serves_connected⟩
  exact ((run_of_meets short).invariant steps start).2 few

/-- **Responses reach their requesters.** Whatever the peer sends, a call returns a response
with its own id, and no frame is delivered twice. Against the server, the response is the one
computed for exactly that request, as long as the encoding of every message is shorter than
four gibibytes. -/
theorem routed_of_keepsShort {events : List MuxEvent}
    (few : (run events).calls.length < 2 ^ 64) :
    (run events).OwnResponse ∧ (run events).DeliveredOnce ∧
      (Meets step KeepsShort connected events → (run events).foreign = false →
        (run events).Answered) := by
  have routes := routes_run events
  refine ⟨routes.ownResponse, routes.deliveredOnce, ?_⟩
  intro short genuine
  exact (serves_run short few).answered routes genuine

def twoRequests : List MuxEvent :=
  [.send "POST" "/api/generate" [200], .call 0 .draw, .call 0 .register, .call 0 .enqueue,
    .send "GET" "/api/tags" [], .call 1 .draw, .call 1 .register, .call 1 .enqueue,
    .write, .write, .serverRead, .serverRead, .compute 1 200 [7], .respond 1, .read,
    .compute 0 200 [8], .respond 0, .read, .call 1 .resume, .call 0 .resume]

theorem twoRequests_routed :
    (run twoRequests).deliveries = [(0, 1, ⟨2, 200, [7]⟩), (1, 0, ⟨1, 200, [8]⟩)] ∧
      (run twoRequests).Routed := by
  have few : (run twoRequests).calls.length < 2 ^ 64 := by decide +kernel
  have short : Meets step KeepsShort connected twoRequests := by decide +kernel
  obtain ⟨own, once, answered⟩ := routed_of_keepsShort few
  exact ⟨by decide +kernel, own, once, answered short⟩

/-! ## An oversized request -/

section Oversized

variable {path : String} {payload padding : List UInt8} {request : MuxRequest}

def sendsOversized (path : String) : List MuxEvent :=
  [.send "" path [], .call 0 .draw, .call 0 .register, .call 0 .enqueue]

def sendsOther : List MuxEvent :=
  [.send "GET" "/api/tags" [], .call 1 .draw, .call 1 .register, .call 1 .enqueue]

/-- The first request is written and read as two frames; the response to the second frame goes to
the other call. -/
def answersOther : List MuxEvent :=
  [.write, .serverRead, .serverRead, .compute 0 200 [], .respond 0, .read, .call 1 .resume]

def hijack (path : String) : List MuxEvent := sendsOversized path ++ (sendsOther ++ answersOther)

def otherCall (phase : SendPhase) (channel : ResponseChannel) : SendCall :=
  ⟨"GET", "/api/tags", [], some 2, phase, channel⟩

def oversizedQueued (path : String) : MuxSystem :=
  { connected with
    nextId := 2
    calls := [⟨"", path, [], some 1, .waiting, .empty⟩]
    pending := AList.insert 1 0 ∅
    queue := [(oversized path).toVecNamed] }

def bothQueued (path : String) : MuxSystem :=
  { connected with
    nextId := 3
    calls := [⟨"", path, [], some 1, .waiting, .empty⟩, otherCall .waiting .empty]
    pending := AList.insert 2 1 (AList.insert 1 0 ∅)
    queue := [(oversized path).toVecNamed, ((otherCall .waiting .empty).request 2).toVecNamed] }

theorem run_hijack (path : String) :
    run (hijack path) = answersOther.foldl step (bothQueued path) := by
  have first : (sendsOversized path).foldl step connected = oversizedQueued path := rfl
  have second : sendsOther.foldl step (oversizedQueued path) = bothQueued path := rfl
  rw [run, hijack, foldl_append, foldl_append, first, second]

theorem readRequest_of_read (system : MuxSystem) {rest : List UInt8}
    (reads : system.serverReads = true)
    (taken : readFrame maxFrameLength system.toServer = .read payload rest) :
    system.readRequest =
      { system with
        toServer := rest
        tasks := system.tasks ++
          ((MuxRequest.fromSlice payload).map fun request => ⟨request, none, false⟩).toList } := by
  rw [readRequest, reads, taken]

def strayResponse : MuxResponse := ⟨2, 200, []⟩

def strayTask (path : String) (rest : List UInt8) (task : ServerTask) (toClient : List UInt8) :
    MuxSystem :=
  { bothQueued path with
    queue := [((otherCall .waiting .empty).request 2).toVecNamed]
    toServer := rest
    tasks := [task]
    toClient }

theorem serverRead_oversized (length : (utf8Bytes path).length = oversizedLength)
    (carries : utf8Bytes path = frame payload ++ padding)
    (small : payload.length ≤ maxFrameLength)
    (reads : MuxRequest.fromSlice payload = some request) :
    [MuxEvent.write, .serverRead, .serverRead].foldl step (bothQueued path) =
      strayTask path (padding ++ oversizedTail) ⟨request, none, false⟩ [] := by
  let written : MuxSystem :=
    { bothQueued path with
      queue := [((otherCall .waiting .empty).request 2).toVecNamed]
      toServer := frame (oversized path).toVecNamed }
  have write : (bothQueued path).step .write = written := rfl
  have head : readFrame maxFrameLength written.toServer =
      .read oversizedHead (frame payload ++ (padding ++ oversizedTail)) := by
    change readFrame maxFrameLength (frame (oversized path).toVecNamed) = _
    rw [frame_oversized length, carries, append_assoc,
      readFrame_frame (by decide +kernel) (by decide +kernel)]
  have path : readFrame maxFrameLength (frame payload ++ (padding ++ oversizedTail)) =
      .read payload (padding ++ oversizedTail) :=
    readFrame_frame (Nat.lt_of_le_of_lt small (by decide)) small _
  let headRead : MuxSystem :=
    { written with toServer := frame payload ++ (padding ++ oversizedTail) }
  have first : written.readRequest = headRead := by
    rw [readRequest_of_read written rfl head, fromSlice_oversizedHead]
    rfl
  rw [foldl_cons, foldl_cons, foldl_cons, foldl_nil, write]
  change written.readRequest.readRequest = _
  rw [first, readRequest_of_read headRead rfl path, reads]
  rfl

def strayAnswered (path : String) (rest : List UInt8) (request : MuxRequest) : MuxSystem :=
  strayTask path rest ⟨request, some strayResponse, true⟩ (frame strayResponse.toVecNamed)

theorem read_strayAnswered (path : String) (rest : List UInt8) (request : MuxRequest) :
    (strayAnswered path rest request).step .read =
      { (strayAnswered path rest request).deliver strayResponse with
        toClient := []
        frames := 1 } := by
  have taken : readFrame maxFrameLength (frame strayResponse.toVecNamed ++ []) =
      .read strayResponse.toVecNamed [] :=
    readFrame_frame (by decide +kernel) (by decide +kernel) []
  rw [append_nil] at taken
  have decoded : MuxResponse.fromSlice strayResponse.toVecNamed = some strayResponse := by
    decide +kernel
  change (strayAnswered path rest request).readResponse = _
  rw [readResponse, show (strayAnswered path rest request).toClient =
    frame strayResponse.toVecNamed from rfl, taken]
  change (strayAnswered path rest request).receiveFrame strayResponse.toVecNamed [] = _
  rw [receiveFrame, decoded]
  rfl

theorem hijacked_run (length : (utf8Bytes path).length = oversizedLength)
    (carries : utf8Bytes path = frame payload ++ padding)
    (small : payload.length ≤ maxFrameLength)
    (reads : MuxRequest.fromSlice payload = some request) (named : request.requestId = 2) :
    ∃ earlier, (run (hijack path)).calls =
        [earlier, otherCall (.returned (.ok strayResponse)) (.full strayResponse)] ∧
      (run (hijack path)).tasks = [⟨request, some strayResponse, true⟩] ∧
      (run (hijack path)).foreign = false := by
  have found := serverRead_oversized length carries small reads
  have computed : callOllamaLocal request 200 [] = strayResponse := by
    rw [callOllamaLocal, named, strayResponse]
  have responds : [MuxEvent.compute 0 200 [], .respond 0].foldl step
      (strayTask path (padding ++ oversizedTail) ⟨request, none, false⟩ []) =
      strayAnswered path (padding ++ oversizedTail) request := by
    rw [strayAnswered, ← computed]
    rfl
  have events : answersOther =
      [MuxEvent.write, .serverRead, .serverRead] ++ ([MuxEvent.compute 0 200 [], .respond 0] ++
        [MuxEvent.read, .call 1 .resume]) := rfl
  have delivers := read_strayAnswered path (padding ++ oversizedTail) request
  rw [run_hijack, events, foldl_append, found, foldl_append, responds, foldl_cons,
    delivers]
  exact ⟨_, rfl, rfl, rfl⟩

theorem not_routed_hijack (length : (utf8Bytes path).length = oversizedLength)
    (carries : utf8Bytes path = frame payload ++ padding)
    (small : payload.length ≤ maxFrameLength)
    (reads : MuxRequest.fromSlice payload = some request) (named : request.requestId = 2)
    (other : request ≠ (otherCall .waiting .empty).request 2) :
    ¬ (run (hijack path)).Routed := by
  obtain ⟨earlier, calls, tasks, genuine⟩ := hijacked_run length carries small reads named
  rintro ⟨_, _, answered⟩
  obtain ⟨n, task, found, same, _⟩ :=
    answered genuine 1 _ strayResponse (by rw [calls]; rfl) rfl
  rw [tasks] at found
  rw [mem_singleton.mp (mem_of_getElem? found)] at same
  exact other same

end Oversized

theorem hijack_smugglingPath_not_routed :
    (run (hijack smugglingPath)).calls.length = 2 ∧ ¬ (run (hijack smugglingPath)).Routed := by
  have carries := utf8Bytes_smugglingPath
  have small : smuggledRecord.bytes.length ≤ maxFrameLength := by
    rw [length_smuggledRecord]
    decide
  have other : smuggledRequest ≠ (otherCall .waiting .empty).request 2 := by
    intro same
    have body := congrArg (fun request => request.body.length) same
    rw [length_body] at body
    cases body
  obtain ⟨_, calls, _⟩ := hijacked_run length_smugglingPath carries small
    fromSlice_smuggledRecord rfl
  refine ⟨by rw [calls]; rfl, ?_⟩
  exact not_routed_hijack length_smugglingPath carries small fromSlice_smuggledRecord rfl other

end MuxSystem

end KwaaiNet
