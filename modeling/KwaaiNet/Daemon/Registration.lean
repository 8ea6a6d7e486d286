import Mathlib
import KwaaiNet.Daemon.Persistent

/-! # Registering a handler

`add_unary_handler` writes its request, waits for the acknowledgement and only then enters the
handler into the table. The daemon sends requests for the protocol from the moment it has accepted
the handler, and the reader looks each of them up when it arrives. So a request that is read before
the registering call has returned is answered with "handler … not found".
`KwaaiNet.DaemonLink.serves_iff` says that this is the only way in which a request can be refused.
-/

namespace KwaaiNet

open Foundation List

/-- What a call has registered: `add_unary_handler` has returned successfully. -/
def RunningCall.registration (call : RunningCall) : Option (String × UnaryHandlerFn) :=
  match call.call, call.phase with
  | .addUnaryHandler proto handler _, .returned (.ok _) => some (proto, handler)
  | _, _ => none

namespace PersistentConnection

def registrations (calls : List RunningCall) : List (String × UnaryHandlerFn) :=
  calls.filterMap RunningCall.registration

def responses (conn : PersistentConnection) : List (CallId × Except (List UInt8) (List UInt8)) :=
  conn.written.filterMap fun request =>
    match request.message with
    | .unaryResponse result => some (request.callId, result)
    | _ => none

end PersistentConnection

/-- A request that the reader has dispatched. -/
structure DispatchedRequest where
  callId : CallId
  proto : String
  data : List UInt8
  /-- The daemon had accepted a handler for the protocol when it sent the request. -/
  promised : Bool
  /-- The handler that the reader found. -/
  handler : Option UnaryHandlerFn

def DispatchedRequest.result (request : DispatchedRequest) : Except (List UInt8) (List UInt8) :=
  match request.handler with
  | some handler => (handler request.data).mapError fun message => message.toUTF8.toList
  | none => .error s!"handler for protocol {request.proto} not found".toUTF8.toList

/-- The connection and the daemon at its other end. -/
structure DaemonLink where
  conn : PersistentConnection
  /-- The protocols for which the daemon has accepted a handler. -/
  accepted : List String
  /-- The messages of the daemon that the reader has not read, each with whether it is a request
  for an accepted protocol. -/
  inFlight : List (PersistentConnectionResponse × Bool)
  dispatched : List DispatchedRequest
  /-- A response could not be written. -/
  writeFailed : Bool

inductive LinkEvent where
  /-- A step of a call, of a handler at work or of a reader that fails. -/
  | client (event : ConnectionEvent)
  /-- The daemon accepts the handler of the n-th message written. -/
  | accept (n : Nat)
  /-- The daemon sends an acknowledgement, a request or anything else. -/
  | send (response : PersistentConnectionResponse)
  /-- The reader takes the next message. -/
  | deliver (succeeds : Bool)

namespace DaemonLink

def new : DaemonLink := ⟨.new, [], [], [], false⟩

variable (link : DaemonLink)

/-- The message is a request for a protocol with an accepted handler. -/
def promises (response : PersistentConnectionResponse) : Bool :=
  match response.message with
  | some (.requestHandling proto _) => proto ∈ link.accepted
  | _ => false

def record (response : PersistentConnectionResponse) (promised : Bool) : List DispatchedRequest :=
  match response.message with
  | some (.requestHandling proto data) =>
    [⟨response.callId, proto, data, promised, link.conn.unaryHandlers.lookup proto⟩]
  | _ => []

def failsWrite : ConnectionEvent → Bool
  | .answer _ succeeds => !succeeds
  | _ => false

def step (link : DaemonLink) : LinkEvent → DaemonLink
  | .client (.receive ..) => link
  | .client event =>
    { link with
      conn := link.conn.step event
      writeFailed := link.writeFailed || failsWrite event }
  | .accept n =>
    match link.conn.written[n]? with
    | some ⟨_, .addUnaryHandler proto _⟩ => { link with accepted := proto :: link.accepted }
    | _ => link
  | .send response =>
    { link with inFlight := link.inFlight ++ [(response, link.promises response)] }
  | .deliver succeeds =>
    match link.inFlight with
    | [] => link
    | (response, promised) :: rest =>
      if link.conn.reader = .reading then
        { link with
          conn := link.conn.step (.receive response succeeds)
          inFlight := rest
          dispatched := link.dispatched ++ link.record response promised
          writeFailed := link.writeFailed || !succeeds }
      else link

def run (events : List LinkEvent) : DaemonLink := events.foldl step new

def Attended (request : DispatchedRequest) : Prop :=
  (∃ handler, request.handler = some handler ∧
    (request.callId, handler, request.data) ∈ link.conn.handling) ∨
      (request.callId, request.result) ∈ link.conn.responses

/-- **Requests are served.** A request for an accepted protocol is given to a handler registered for
it. Every response has the call id of a request and is what its handler computes, and no request is
left without a handler at work or a response unless a write has failed. -/
structure Serves : Prop where
  handled : ∀ request ∈ link.dispatched, request.promised = true →
    ∃ handler, request.handler = some handler ∧
      (request.proto, handler) ∈ PersistentConnection.registrations link.conn.calls
  answers : ∀ callId result, (callId, result) ∈ link.conn.responses →
    ∃ request ∈ link.dispatched, request.callId = callId ∧ request.result = result
  attended : link.writeFailed = false → ∀ request ∈ link.dispatched, link.Attended request

/-- **Registered first.** The reader takes a request for an accepted protocol only after a call of
`add_unary_handler` for the protocol has returned. -/
def RegisteredFirst (event : LinkEvent) : Prop :=
  ∀ succeeds callId proto data rest, event = .deliver succeeds →
    link.inFlight = (⟨callId, some (.requestHandling proto data)⟩, true) :: rest →
    link.conn.reader = .reading →
    ∃ handler, (proto, handler) ∈ PersistentConnection.registrations link.conn.calls

def Removes (event : LinkEvent) : Prop :=
  ∃ callId proto, event = .client (.arrive callId (.removeUnaryHandler proto))

end DaemonLink

/-! ## What a step does to the registered handlers -/

namespace PersistentConnection

variable {calls : List RunningCall} {handlers : Table String UnaryHandlerFn}

def RunningCall.view (call : RunningCall) : UnaryCall × Option (String × UnaryHandlerFn) :=
  (call.call, call.registration)

def CallPhase.pending : CallPhase → Prop
  | .returned (.ok _) => False
  | _ => True

theorem registration_eq_none {call : RunningCall} (pending : CallPhase.pending call.phase) :
    call.registration = none := by
  obtain ⟨callId, kind, phase, channel⟩ := call
  cases kind with
  | callUnary peer proto data => rfl
  | removeUnaryHandler proto => rfl
  | addUnaryHandler proto handler balanced =>
    cases phase with
    | returned result =>
      cases result with
      | error reason => rfl
      | ok data => exact absurd pending id
    | starting | registered | waiting | updating | cancelled => rfl

/-- What a call does with what its channel gives registers nothing yet. -/
theorem registration_receive (call : RunningCall) (delivery : Delivery) :
    { call with phase := call.call.receive delivery }.registration = none := by
  obtain ⟨callId, kind, phase, channel⟩ := call
  cases kind with
  | callUnary peer proto data => rfl
  | removeUnaryHandler proto => rfl
  | addUnaryHandler proto handler balanced =>
    rcases delivery with (reason | response) | _
    · rfl
    · rcases response with ⟨_, _ | (_ | _ | _ | _)⟩ <;> rfl
    · rfl

theorem view_deliver (delivery : Delivery) (calls : List RunningCall) (n : Nat) :
    (deliver delivery calls n).map RunningCall.view = calls.map RunningCall.view :=
  map_modify_of_kept fun _ => rfl

theorem view_deliverAll (delivery : Delivery) (numbers : List Nat) (calls : List RunningCall) :
    (numbers.foldl (deliver delivery) calls).map RunningCall.view =
      calls.map RunningCall.view := by
  induction numbers generalizing calls with
  | nil => rfl
  | cons n numbers ih => exact (ih _).trans (view_deliver delivery calls n)

theorem view_move {n : Nat} {call : RunningCall} {phase : CallPhase}
    (found : calls[n]? = some call) (pending : CallPhase.pending call.phase)
    (still : { call with phase }.registration = none) :
    (move phase calls n).map RunningCall.view = calls.map RunningCall.view :=
  map_modify_of_found found
    (Prod.ext rfl (still.trans (registration_eq_none pending).symm))

section Steps

variable (conn : PersistentConnection)

/-- The step leaves the handlers and what was registered alone. -/
def Unregistering (after : PersistentConnection) : Prop :=
  after.unaryHandlers = conn.unaryHandlers ∧
    after.calls.map RunningCall.view = conn.calls.map RunningCall.view

def Updates (n : Nat) (call : RunningCall) (after : PersistentConnection) : Prop :=
  call.phase = .updating ∧ after.unaryHandlers = call.call.updateHandlers conn.unaryHandlers ∧
    after.calls = move (.returned (.ok [])) conn.calls n

variable {conn}

theorem unregistering_register {n : Nat} {call : RunningCall} (found : conn.calls[n]? = some call)
    (starting : call.phase = .starting) :
    conn.Unregistering (conn.register n call.callId) := by
  have delivered (displaced : Nat) : ∃ after : RunningCall,
      (deliver .dropped conn.calls displaced)[n]? = some after ∧ after.phase = .starting := by
    rw [deliver, List.getElem?_modify, found]
    refine ⟨_, rfl, ?_⟩
    split_ifs <;> exact starting
  refine ⟨rfl, ?_⟩
  rw [register]
  cases conn.pendingCalls.lookup call.callId with
  | none =>
    exact view_move found (starting ▸ trivial) (registration_eq_none trivial)
  | some displaced =>
    obtain ⟨after, stands, still⟩ := delivered displaced
    refine Eq.trans ?_ (view_deliver .dropped conn.calls displaced)
    exact view_move stands (still ▸ trivial) (registration_eq_none trivial)

theorem stepCall_cases {n : Nat} {call : RunningCall} (found : conn.calls[n]? = some call)
    (event : ConnectionEvent) :
    conn.Unregistering (conn.stepCall n call event) ∨
      conn.Updates n call (conn.stepCall n call event) := by
  rw [stepCall.eq_def]
  split
  case h_1 =>
    left
    split
    · exact unregistering_register found ‹_›
    · exact ⟨rfl, rfl⟩
  case h_2 =>
    left
    split
    · rename_i registered
      have pending : CallPhase.pending call.phase := registered ▸ trivial
      rw [write]
      split_ifs
      · exact ⟨rfl, view_move found pending (registration_eq_none trivial)⟩
      · exact ⟨rfl, view_move found pending (registration_eq_none trivial)⟩
    · exact ⟨rfl, rfl⟩
  case h_3 =>
    left
    split
    · rename_i waiting _
      exact ⟨rfl, view_move found (waiting ▸ trivial) (registration_receive call _)⟩
    · exact ⟨rfl, rfl⟩
  case h_4 =>
    split
    · exact .inr ⟨‹_›, rfl, rfl⟩
    · exact .inl ⟨rfl, rfl⟩
  case h_5 =>
    left
    split
    · exact ⟨rfl, rfl⟩
    · rename_i running
      have pending : CallPhase.pending call.phase := by
        cases stands : call.phase with
        | returned result => exact (running result stands).elim
        | starting | registered | waiting | updating | cancelled => trivial
      exact ⟨rfl, view_move found pending (registration_eq_none trivial)⟩
  case h_6 => exact .inl ⟨rfl, rfl⟩

/-- **What a step does.** It starts a call, or lets a call update the handlers and return, or leaves
the handlers and what was registered alone. -/
theorem step_cases (conn : PersistentConnection) (event : ConnectionEvent) :
    conn.Unregistering (conn.step event) ∨
      (∃ n call, conn.calls[n]? = some call ∧ conn.Updates n call (conn.step event)) ∨
      ∃ callId call, event = .arrive callId call := by
  cases event with
  | arrive callId call => exact .inr (.inr ⟨callId, call, rfl⟩)
  | register n | write n _ | wake n | update n | cancel n =>
    simp only [step]
    split
    · rename_i call found
      exact (stepCall_cases found _).imp_right fun updates => .inl ⟨n, call, found, updates⟩
    · exact .inl ⟨rfl, rfl⟩
  | receive response succeeds =>
    left
    simp only [step]
    split_ifs
    · rw [dispatch]
      split
      · rw [handle, writeResponse]
        split
        · exact ⟨rfl, rfl⟩
        · split_ifs <;> exact ⟨rfl, rfl⟩
      · rw [complete]
        split
        · exact ⟨rfl, rfl⟩
        · exact ⟨rfl, view_deliver _ _ _⟩
    · exact ⟨rfl, rfl⟩
  | receiveInvalid => exact .inl ⟨rfl, rfl⟩
  | readError reason =>
    left
    simp only [step]
    split_ifs <;> exact ⟨rfl, rfl⟩
  | drain =>
    left
    simp only [step]
    split
    · exact ⟨rfl, view_deliverAll _ _ _⟩
    · exact ⟨rfl, rfl⟩
  | exit =>
    left
    simp only [step]
    split_ifs <;> exact ⟨rfl, rfl⟩
  | answer n succeeds =>
    left
    simp only [step]
    split
    · rw [answer, writeResponse]
      split_ifs <;> exact ⟨rfl, rfl⟩
    · exact ⟨rfl, rfl⟩

end Steps

/-! ## The table of handlers -/

theorem mem_registrations {registered : String × UnaryHandlerFn} :
    registered ∈ registrations calls ↔
      ∃ (m : Nat) (call : RunningCall), calls[m]? = some call ∧
        call.registration = some registered := by
  rw [registrations, mem_filterMap]
  constructor
  · rintro ⟨call, member, own⟩
    obtain ⟨m, found⟩ := List.getElem?_of_mem member
    exact ⟨m, call, found, own⟩
  · rintro ⟨m, call, found, own⟩
    exact ⟨call, mem_of_getElem? found, own⟩

theorem mem_registrations_move {n : Nat} {call : RunningCall} {phase : CallPhase}
    (found : calls[n]? = some call) (unregistered : call.registration = none)
    (registered : String × UnaryHandlerFn) :
    registered ∈ registrations (move phase calls n) ↔
      { call with phase }.registration = some registered ∨ registered ∈ registrations calls := by
  simp only [mem_registrations, move, getElem?_modify_of_found found]
  constructor
  · rintro ⟨m, after, stands, own⟩
    split_ifs at stands with same
    · obtain rfl := Option.some.inj stands
      exact .inl own
    · exact .inr ⟨m, after, stands, own⟩
  · rintro (own | ⟨m, before, stood, own⟩)
    · exact ⟨n, _, if_pos rfl, own⟩
    · refine ⟨m, before, ?_, own⟩
      rw [if_neg, stood]
      rintro rfl
      rw [Option.some.inj (found.symm.trans stood), own] at unregistered
      cases unregistered

theorem registrations_of_view {after : List RunningCall}
    (same : after.map RunningCall.view = calls.map RunningCall.view) :
    registrations after = registrations calls := by
  have seen := congrArg (List.filterMap Prod.snd) same
  rwa [filterMap_map, filterMap_map] at seen

theorem registrations_arrive (calls : List RunningCall) (callId : CallId) (call : UnaryCall) :
    registrations (calls ++ [⟨callId, call, .starting, none⟩]) = registrations calls := by
  have idle : RunningCall.registration ⟨callId, call, .starting, none⟩ = none :=
    registration_eq_none trivial
  rw [registrations, filterMap_append, filterMap_cons_none idle, filterMap_nil,
    append_nil]
  rfl

/-- What was registered stays registered. -/
theorem registrations_step_subset (conn : PersistentConnection) (event : ConnectionEvent) :
    registrations conn.calls ⊆ registrations (conn.step event).calls := by
  rcases conn.step_cases event with
    same | ⟨n, call, found, updating, _, after⟩ | ⟨callId, call, rfl⟩
  · rw [registrations_of_view same.2]
    exact List.Subset.refl _
  · intro registered member
    rw [after, mem_registrations_move found (registration_eq_none (updating ▸ trivial))]
    exact .inr member
  · exact (registrations_arrive conn.calls callId call).symm ▸ List.Subset.refl _

/-- The table has a handler for a protocol if one was registered, and only what was registered. -/
structure Registry (handlers : Table String UnaryHandlerFn) (calls : List RunningCall) : Prop where
  held : ∀ proto handler, handlers.lookup proto = some handler →
    (proto, handler) ∈ registrations calls
  kept : ∀ proto handler, (proto, handler) ∈ registrations calls →
    (handlers.lookup proto).isSome
  adding : ∀ proto, UnaryCall.removeUnaryHandler proto ∉ calls.map RunningCall.call

theorem Registry.of_view {after : List RunningCall} (registry : Registry handlers calls)
    (same : after.map RunningCall.view = calls.map RunningCall.view) : Registry handlers after := by
  have called : after.map RunningCall.call = calls.map RunningCall.call := by
    have seen := congrArg (List.map Prod.fst) same
    rwa [map_map, map_map] at seen
  refine ⟨?_, ?_, ?_⟩
  · rw [registrations_of_view same]
    exact registry.held
  · rw [registrations_of_view same]
    exact registry.kept
  · rw [called]
    exact registry.adding

/-- **Registration.** A call of `add_unary_handler` enters its handler and returns. -/
theorem Registry.add (registry : Registry handlers calls) {n : Nat} {call : RunningCall}
    {proto : String} {handler : UnaryHandlerFn} {balanced : Bool} (found : calls[n]? = some call)
    (updating : call.phase = .updating)
    (kind : call.call = .addUnaryHandler proto handler balanced) :
    Registry (handlers.insert proto handler) (move (.returned (.ok [])) calls n) := by
  have registers : { call with phase := .returned (.ok []) }.registration =
      some (proto, handler) := by
    rw [RunningCall.registration, kind]
  have members (registered : String × UnaryHandlerFn) :
      registered ∈ registrations (move (.returned (.ok [])) calls n) ↔
        some (proto, handler) = some registered ∨ registered ∈ registrations calls := by
    rw [← registers]
    exact mem_registrations_move found (registration_eq_none (updating ▸ trivial)) _
  have called : (move (.returned (.ok [])) calls n).map RunningCall.call =
      calls.map RunningCall.call := map_modify_of_kept fun _ => rfl
  refine ⟨?_, ?_, called ▸ registry.adding⟩
  · intro other held lookup
    rw [members]
    by_cases same : other = proto
    · subst same
      rw [AList.lookup_insert] at lookup
      rw [Option.some.inj lookup]
      exact .inl rfl
    · rw [AList.lookup_insert_ne same] at lookup
      exact .inr (registry.held other held lookup)
  · intro other held member
    by_cases same : other = proto
    · rw [same, AList.lookup_insert]
      rfl
    · rw [AList.lookup_insert_ne same]
      refine registry.kept other held (((members _).mp member).resolve_left fun equal => same ?_)
      exact (Prod.mk.inj (Option.some.inj equal)).1.symm

theorem Registry.step {conn : PersistentConnection}
    (registry : Registry conn.unaryHandlers conn.calls) (event : ConnectionEvent)
    (adds : ∀ callId proto, event ≠ .arrive callId (.removeUnaryHandler proto)) :
    Registry (conn.step event).unaryHandlers (conn.step event).calls := by
  rcases conn.step_cases event with
    same | ⟨n, call, found, updating, table, after⟩ | ⟨callId, call, rfl⟩
  · exact same.1 ▸ registry.of_view same.2
  · rw [table, after]
    cases kind : call.call with
    | addUnaryHandler proto handler balanced => exact registry.add found updating kind
    | removeUnaryHandler proto =>
      exact absurd (kind ▸ mem_map_of_mem (mem_of_getElem? found))
        (registry.adding proto)
    | callUnary peer proto data =>
      refine registry.of_view (view_move found (updating ▸ trivial) ?_)
      rw [RunningCall.registration, kind]
  · have registered := registrations_arrive conn.calls callId call
    refine ⟨registered ▸ registry.held, registered ▸ registry.kept, fun proto removal => ?_⟩
    obtain ⟨other, member, kind⟩ := mem_map.mp removal
    rcases mem_append.mp member with earlier | last
    · exact registry.adding proto (kind ▸ mem_map_of_mem earlier)
    · rw [mem_singleton.mp last] at kind
      exact adds callId proto (congrArg (ConnectionEvent.arrive callId) kind)

/-! ## What a step does to the responses -/

section Responses

variable {conn : PersistentConnection}

theorem stepCall_quiet (n : Nat) (call : RunningCall) (event : ConnectionEvent) :
    (conn.stepCall n call event).handling = conn.handling ∧
      (conn.stepCall n call event).responses = conn.responses := by
  have request : List.filterMap (fun request : PersistentConnectionRequest =>
      match request.message with
      | .unaryResponse result => some (request.callId, result)
      | _ => none) [⟨call.callId, call.call.message⟩] = [] := by
    cases call.call <;> rfl
  rw [stepCall.eq_def]
  split
  case h_2 =>
    split
    · rw [write]
      split_ifs
      · refine ⟨rfl, ?_⟩
        rw [responses, filterMap_append, request, append_nil, responses]
      · exact ⟨rfl, rfl⟩
    · exact ⟨rfl, rfl⟩
  case h_1 | h_3 | h_4 | h_5 => split <;> exact ⟨rfl, rfl⟩
  case h_6 => exact ⟨rfl, rfl⟩

theorem responses_writeResponse (callId : CallId) (result : Except (List UInt8) (List UInt8))
    (succeeds : Bool) :
    (conn.writeResponse callId result succeeds).responses =
      conn.responses ++ if succeeds then [(callId, result)] else [] := by
  cases succeeds with
  | false => exact (append_nil _).symm
  | true => exact filterMap_append

theorem writeResponse_frame (callId : CallId) (result : Except (List UInt8) (List UInt8))
    (succeeds : Bool) :
    (conn.writeResponse callId result succeeds).handling = conn.handling ∧
      (conn.writeResponse callId result succeeds).unaryHandlers = conn.unaryHandlers ∧
      (conn.writeResponse callId result succeeds).calls = conn.calls := by
  cases succeeds <;> exact ⟨rfl, rfl, rfl⟩

variable (conn) in
theorem complete_quiet (response : PersistentConnectionResponse) :
    (conn.complete response).handling = conn.handling ∧
      (conn.complete response).responses = conn.responses := by
  rw [complete]
  split <;> exact ⟨rfl, rfl⟩

theorem step_quiet (event : ConnectionEvent) (noRequest : ∀ response succeeds,
      event ≠ .receive response succeeds) (noAnswer : ∀ n succeeds, event ≠ .answer n succeeds) :
    (conn.step event).handling = conn.handling ∧
      (conn.step event).responses = conn.responses := by
  cases event with
  | receive response succeeds => exact absurd rfl (noRequest response succeeds)
  | answer n succeeds => exact absurd rfl (noAnswer n succeeds)
  | arrive callId call => exact ⟨rfl, rfl⟩
  | register n | write n _ | wake n | update n | cancel n =>
    simp only [step]
    split
    · exact stepCall_quiet _ _ _
    · exact ⟨rfl, rfl⟩
  | receiveInvalid => exact ⟨rfl, rfl⟩
  | readError reason =>
    simp only [step]
    split_ifs <;> exact ⟨rfl, rfl⟩
  | drain =>
    simp only [step]
    split <;> exact ⟨rfl, rfl⟩
  | exit =>
    simp only [step]
    split_ifs <;> exact ⟨rfl, rfl⟩

end Responses

end PersistentConnection

/-! ## Runs -/

namespace DaemonLink

variable {link : DaemonLink}

/-- The account that the steps keep. -/
structure Sound (link : DaemonLink) : Prop extends link.Serves where
  registry : PersistentConnection.Registry link.conn.unaryHandlers link.conn.calls
  working : ∀ callId handler data, (callId, handler, data) ∈ link.conn.handling →
    ∃ request ∈ link.dispatched, request.callId = callId ∧ request.handler = some handler ∧
      request.data = data

theorem sound_new : new.Sound where
  handled := nofun
  answers := nofun
  attended := nofun
  registry := ⟨nofun, nofun, nofun⟩
  working := nofun

section Sound

variable {after : DaemonLink}

theorem Attended.mono {request : DispatchedRequest} (attended : link.Attended request)
    (handling : link.conn.handling ⊆ after.conn.handling)
    (responses : link.conn.responses ⊆ after.conn.responses) : after.Attended request :=
  attended.imp (fun ⟨handler, own, working⟩ => ⟨handler, own, handling working⟩)
    fun answered => responses answered

theorem Sound.quiet (sound : link.Sound) (dispatched : after.dispatched = link.dispatched)
    (handling : after.conn.handling = link.conn.handling)
    (responses : after.conn.responses = link.conn.responses)
    (failed : after.writeFailed = false → link.writeFailed = false)
    (grown : PersistentConnection.registrations link.conn.calls ⊆
      PersistentConnection.registrations after.conn.calls)
    (registry : PersistentConnection.Registry after.conn.unaryHandlers after.conn.calls) :
    after.Sound where
  handled := by
    rw [dispatched]
    intro request member promised
    obtain ⟨handler, own, registered⟩ := sound.handled request member promised
    exact ⟨handler, own, grown registered⟩
  answers := by
    rw [dispatched, responses]
    exact sound.answers
  attended := by
    rw [dispatched]
    intro written request member
    exact (sound.attended (failed written) request member).mono
      (handling ▸ List.Subset.refl _) (responses ▸ List.Subset.refl _)
  registry := registry
  working := by
    rw [dispatched, handling]
    exact sound.working

theorem Sound.dispatch (sound : link.Sound) {request : DispatchedRequest}
    (dispatched : after.dispatched = link.dispatched ++ [request])
    (served : request.promised = true → ∃ handler, request.handler = some handler ∧
      (request.proto, handler) ∈ PersistentConnection.registrations link.conn.calls)
    (handling : link.conn.handling ⊆ after.conn.handling)
    (started : ∀ callId handler data, (callId, handler, data) ∈ after.conn.handling →
      (callId, handler, data) ∈ link.conn.handling ∨
        request.callId = callId ∧ request.handler = some handler ∧ request.data = data)
    (responses : link.conn.responses ⊆ after.conn.responses)
    (refused : ∀ response ∈ after.conn.responses, response ∈ link.conn.responses ∨
      response = (request.callId, request.result))
    (failed : after.writeFailed = false → link.writeFailed = false ∧ after.Attended request)
    (handlers : after.conn.unaryHandlers = link.conn.unaryHandlers)
    (calls : after.conn.calls = link.conn.calls) : after.Sound where
  handled := by
    rw [dispatched, calls]
    intro other member promised
    rcases mem_append.mp member with earlier | last
    · exact sound.handled other earlier promised
    · obtain rfl := mem_singleton.mp last
      exact served promised
  answers := by
    rw [dispatched]
    intro callId result member
    rcases refused _ member with earlier | last
    · obtain ⟨other, present, same⟩ := sound.answers callId result earlier
      exact ⟨other, mem_append_left _ present, same⟩
    · obtain ⟨rfl, rfl⟩ := Prod.mk.inj last
      exact ⟨request, mem_append_right _ mem_cons_self, rfl, rfl⟩
  attended := by
    rw [dispatched]
    intro written other member
    rcases mem_append.mp member with earlier | last
    · exact (sound.attended (failed written).1 other earlier).mono handling responses
    · obtain rfl := mem_singleton.mp last
      exact (failed written).2
  registry := by
    rw [handlers, calls]
    exact sound.registry
  working := by
    rw [dispatched]
    intro callId handler data member
    rcases started callId handler data member with earlier | own
    · obtain ⟨other, present, same⟩ := sound.working callId handler data earlier
      exact ⟨other, mem_append_left _ present, same⟩
    · exact ⟨request, mem_append_right _ mem_cons_self, own⟩

theorem Sound.answer (sound : link.Sound) {n : Nat} {callId : CallId} {handler : UnaryHandlerFn}
    {data : List UInt8} {succeeds : Bool}
    (found : link.conn.handling[n]? = some (callId, handler, data))
    (dispatched : after.dispatched = link.dispatched)
    (connection : after.conn = link.conn.answer n (callId, handler, data) succeeds)
    (failed : after.writeFailed = (link.writeFailed || !succeeds)) : after.Sound := by
  obtain ⟨request, present, rfl, own, rfl⟩ := sound.working _ _ _ (mem_of_getElem? found)
  have result : ((handler request.data).mapError fun message => message.toUTF8.toList) =
      request.result := by
    rw [DispatchedRequest.result, own]
  rw [PersistentConnection.answer, result] at connection
  have responses : after.conn.responses =
      link.conn.responses ++ if succeeds then [(request.callId, request.result)] else [] :=
    connection ▸ PersistentConnection.responses_writeResponse _ _ _
  obtain ⟨handling, handlers, calls⟩ : after.conn.handling = link.conn.handling.eraseIdx n ∧
      after.conn.unaryHandlers = link.conn.unaryHandlers ∧ after.conn.calls = link.conn.calls :=
    connection ▸ PersistentConnection.writeResponse_frame _ _ _
  refine ⟨⟨?_, ?_, ?_⟩, ?_, ?_⟩
  · rw [dispatched, calls]
    exact sound.handled
  · intro other answer member
    rw [dispatched]
    rw [responses] at member
    rcases mem_append.mp member with earlier | last
    · exact sound.answers other answer earlier
    · cases succeeds with
      | false => exact absurd last not_mem_nil
      | true =>
        obtain ⟨rfl, rfl⟩ := Prod.mk.inj (mem_singleton.mp last)
        exact ⟨request, present, rfl, rfl⟩
  · rw [failed, dispatched]
    intro unfailed other member
    obtain ⟨before, success⟩ := Bool.or_eq_false_iff.mp unfailed
    obtain rfl : succeeds = true := by rwa [Bool.not_eq_eq_eq_not, Bool.not_false] at success
    rw [Attended, handling, responses]
    rcases sound.attended before other member with ⟨started, runs, working⟩ | answered
    · obtain ⟨m, stands⟩ := List.getElem?_of_mem working
      by_cases same : m = n
      · -- The handler that is done is the one of this request.
        subst same
        obtain ⟨sameId, sameTask⟩ := Prod.mk.inj (Option.some.inj (stands.symm.trans found))
        obtain ⟨sameHandler, sameData⟩ := Prod.mk.inj sameTask
        have sameResult : other.result = request.result := by
          rw [← result, DispatchedRequest.result, runs, sameHandler, sameData]
        rw [sameId, sameResult]
        exact .inr (mem_append_right _ mem_cons_self)
      · exact .inl ⟨started, runs, mem_eraseIdx_iff_getElem?.mpr ⟨m, same, stands⟩⟩
    · exact .inr (mem_append_left _ answered)
  · rw [handlers, calls]
    exact sound.registry
  · rw [dispatched, handling]
    intro other started input member
    exact sound.working other started input (mem_of_mem_eraseIdx member)

theorem Sound.deliverRequest (sound : link.Sound) {callId : CallId} {proto : String}
    {data : List UInt8} {promised succeeds : Bool}
    (dispatched : after.dispatched = link.dispatched ++
      [⟨callId, proto, data, promised, link.conn.unaryHandlers.lookup proto⟩])
    (connection : after.conn = link.conn.handle callId proto data succeeds)
    (failed : after.writeFailed = (link.writeFailed || !succeeds))
    (served : promised = true → ∃ handler,
      (proto, handler) ∈ PersistentConnection.registrations link.conn.calls) : after.Sound := by
  rw [PersistentConnection.handle] at connection
  cases held : link.conn.unaryHandlers.lookup proto with
  | some handler =>
    rw [held] at connection dispatched
    obtain ⟨handling, responses, handlers, calls⟩ :
        after.conn.handling = link.conn.handling ++ [(callId, handler, data)] ∧
        after.conn.responses = link.conn.responses ∧
        after.conn.unaryHandlers = link.conn.unaryHandlers ∧
        after.conn.calls = link.conn.calls := by
      rw [connection]
      exact ⟨rfl, rfl, rfl, rfl⟩
    refine sound.dispatch dispatched ?_ ?_ ?_ ?_ ?_ ?_ handlers calls
    · exact fun _ => ⟨handler, rfl, sound.registry.held proto handler held⟩
    · exact handling ▸ subset_append_left _ _
    · rw [handling]
      intro other started input member
      refine (mem_append.mp member).imp_right fun last => ?_
      cases mem_singleton.mp last
      exact ⟨rfl, rfl, rfl⟩
    · exact responses ▸ List.Subset.refl _
    · exact responses ▸ fun _ => .inl
    · rw [failed, Attended, handling]
      intro unfailed
      refine ⟨(Bool.or_eq_false_iff.mp unfailed).1, .inl ⟨handler, rfl, ?_⟩⟩
      exact mem_append_right _ mem_cons_self
  | none =>
    rw [held] at connection dispatched
    have responses : after.conn.responses = link.conn.responses ++ if succeeds then
        [(callId, DispatchedRequest.result ⟨callId, proto, data, promised, none⟩)] else [] := by
      rw [connection]
      exact PersistentConnection.responses_writeResponse _ _ _
    obtain ⟨handling, handlers, calls⟩ : after.conn.handling = link.conn.handling ∧
        after.conn.unaryHandlers = link.conn.unaryHandlers ∧
        after.conn.calls = link.conn.calls := by
      rw [connection]
      exact PersistentConnection.writeResponse_frame _ _ _
    refine sound.dispatch dispatched ?_ ?_ ?_ ?_ ?_ ?_ handlers calls
    · intro isPromised
      obtain ⟨handler, registered⟩ := served isPromised
      have present := sound.registry.kept proto handler registered
      rw [held] at present
      cases present
    · exact handling ▸ List.Subset.refl _
    · exact handling ▸ fun _ _ _ => .inl
    · exact responses ▸ subset_append_left _ _
    · rw [responses]
      intro response member
      refine (mem_append.mp member).imp_right fun last => ?_
      cases succeeds with
      | false => exact absurd last not_mem_nil
      | true => exact mem_singleton.mp last
    · rw [failed, Attended, responses]
      intro unfailed
      obtain ⟨before, success⟩ := Bool.or_eq_false_iff.mp unfailed
      obtain rfl : succeeds = true := by rwa [Bool.not_eq_eq_eq_not, Bool.not_false] at success
      exact ⟨before, .inr (mem_append_right _ mem_cons_self)⟩

theorem Sound.client (sound : link.Sound) (event : ConnectionEvent)
    (adds : ¬ Removes (.client event)) : (link.step (.client event)).Sound := by
  by_cases request : ∃ response succeeds, event = .receive response succeeds
  · obtain ⟨response, succeeds, rfl⟩ := request
    exact sound
  by_cases done : ∃ n succeeds, event = .answer n succeeds
  · obtain ⟨n, succeeds, rfl⟩ := done
    cases found : link.conn.handling[n]? with
    | some task =>
      refine sound.answer found rfl ?_ rfl
      simp only [DaemonLink.step, PersistentConnection.step, found]
    | none =>
      have idle : link.conn.step (.answer n succeeds) = link.conn := by
        simp only [PersistentConnection.step, found]
      have stepped : link.step (.client (.answer n succeeds)) =
          { link with writeFailed := link.writeFailed || !succeeds } :=
        congrArg (fun conn =>
          { link with conn, writeFailed := link.writeFailed || !succeeds }) idle
      rw [stepped]
      exact sound.quiet rfl rfl rfl (fun unfailed => (Bool.or_eq_false_iff.mp unfailed).1)
        (List.Subset.refl _) sound.registry
  · have stepped : link.step (.client event) =
        { link with
          conn := link.conn.step event
          writeFailed := link.writeFailed || failsWrite event } := by
      cases event with
      | receive response succeeds => exact absurd ⟨response, succeeds, rfl⟩ request
      | _ => rfl
    obtain ⟨handling, responses⟩ := link.conn.step_quiet event
      (fun response succeeds same => request ⟨response, succeeds, same⟩)
      (fun n succeeds same => done ⟨n, succeeds, same⟩)
    rw [stepped]
    refine sound.quiet rfl handling responses (fun unfailed => (Bool.or_eq_false_iff.mp unfailed).1)
      (link.conn.registrations_step_subset event) (sound.registry.step event ?_)
    rintro callId proto rfl
    exact adds ⟨callId, proto, rfl⟩

/-- The reader takes a message. -/
theorem Sound.deliver (sound : link.Sound) (succeeds : Bool)
    (first : link.RegisteredFirst (.deliver succeeds)) :
    (link.step (.deliver succeeds)).Sound := by
  rw [DaemonLink.step]
  split
  · exact sound
  · rename_i response promised rest inFlight
    split_ifs with reading
    · obtain ⟨callId, message⟩ := response
      have dispatch : link.conn.step (.receive ⟨callId, message⟩ succeeds) =
          link.conn.dispatch ⟨callId, message⟩ succeeds := if_pos reading
      by_cases request : ∃ proto data, message = some (.requestHandling proto data)
      · obtain ⟨proto, data, rfl⟩ := request
        refine sound.deliverRequest rfl dispatch rfl ?_
        rintro rfl
        exact first succeeds callId proto data rest rfl inFlight reading
      · -- An acknowledgement or another response completes a pending call.
        have completes : link.conn.dispatch ⟨callId, message⟩ succeeds =
            link.conn.complete ⟨callId, message⟩ ∧ link.record ⟨callId, message⟩ promised = [] := by
          rcases message with _ | (_ | _ | _ | ⟨proto, data⟩)
          case some.requestHandling => exact absurd ⟨proto, data, rfl⟩ request
          all_goals exact ⟨rfl, rfl⟩
        obtain ⟨handling, responses⟩ := link.conn.complete_quiet ⟨callId, message⟩
        refine sound.quiet ?_ ?_ ?_ (fun unfailed => (Bool.or_eq_false_iff.mp unfailed).1)
          (link.conn.registrations_step_subset _) (sound.registry.step _ nofun)
        · rw [completes.2, append_nil]
        · rw [dispatch, completes.1, handling]
        · rw [dispatch, completes.1, responses]
    · exact sound

/-- Every step that comes after the registration of its handler, and starts no removal, keeps the
account. -/
theorem Sound.step (sound : link.Sound) (event : LinkEvent) (first : link.RegisteredFirst event)
    (adds : ¬ Removes event) : (link.step event).Sound := by
  cases event with
  | accept n =>
    rw [DaemonLink.step]
    split
    · exact sound.quiet rfl rfl rfl id (List.Subset.refl _) sound.registry
    · exact sound
  | send response => exact sound.quiet rfl rfl rfl id (List.Subset.refl _) sound.registry
  | client event => exact sound.client event adds
  | deliver succeeds => exact sound.deliver succeeds first

theorem Sound.registeredFirst_of_serves (sound : link.Sound) (event : LinkEvent)
    (serves : (link.step event).Serves) : link.RegisteredFirst event := by
  rintro succeeds callId proto data rest rfl inFlight reading
  rw [DaemonLink.step, inFlight] at serves
  dsimp only at serves
  rw [if_pos reading] at serves
  obtain ⟨handler, own, _⟩ := serves.handled
    ⟨callId, proto, data, true, link.conn.unaryHandlers.lookup proto⟩
    (mem_append_right _ mem_cons_self) rfl
  exact ⟨handler, sound.registry.held proto handler own⟩

end Sound

/-- **Handlers are accepted and requests served.** As long as no handler is removed, every state of
a run serves its requests exactly if no request for an accepted protocol is read before a call of
`add_unary_handler` for the protocol has returned. -/
theorem serves_iff {events : List LinkEvent} (adds : ∀ event ∈ events, ¬ Removes event) :
    (∀ before after, events = before ++ after → (run before).Serves) ↔
      Meets step RegisteredFirst new events := by
  have kept (link : DaemonLink) (event : LinkEvent) (member : event ∈ events) (sound : link.Sound)
      (first : link.RegisteredFirst event) : (link.step event).Sound :=
    sound.step event first (adds event member)
  constructor
  · exact meets_of_always_good sound_new kept fun link event _ sound =>
      sound.registeredFirst_of_serves event
  · exact fun first before after split =>
      (always_of_meets sound_new kept first before after split).toServes

def storeProtocol : String := "DHTProtocol.rpc_store"

/-- A handler is registered up to the acknowledgement, which the reader has passed on. -/
def acknowledged : List LinkEvent :=
  [.client (.arrive 1 (.addUnaryHandler storeProtocol .ok false)), .client (.register 0),
    .client (.write 0 true), .accept 0, .send ⟨1, none⟩, .deliver true]

def requested : List LinkEvent :=
  [.send ⟨9, some (.requestHandling storeProtocol [5])⟩, .deliver true]

/-- The call returns before the request arrives, and the handler answers under its call id. -/
theorem registeredBefore_serves :
    (run (acknowledged ++ [.client (.wake 0), .client (.update 0)] ++ requested ++
      [.client (.answer 0 true)])).Serves ∧
    (run (acknowledged ++ [.client (.wake 0), .client (.update 0)] ++ requested ++
      [.client (.answer 0 true)])).conn.responses = [(9, .ok [5])] := by
  refine ⟨(serves_iff ?_).mpr ?_ _ [] (append_nil _).symm, rfl⟩
  · rintro event member ⟨callId, proto, rfl⟩
    simp [acknowledged, requested] at member
  · refine ⟨nofun, nofun, nofun, nofun, nofun, ?_, nofun, nofun, nofun, ?_, nofun, trivial⟩
    · intro succeeds callId proto data rest _ inFlight
      cases inFlight
    · intro succeeds callId proto data rest _ inFlight _
      obtain ⟨first, _⟩ := List.cons.inj inFlight
      obtain ⟨response, _⟩ := Prod.mk.inj first
      cases response
      exact ⟨.ok, mem_cons_self⟩

/-- **The acknowledged handler is not found.** The request arrives after the acknowledgement, before
the call has entered its handler. -/
theorem requestedEarly_refused :
    (run (acknowledged ++ requested)).conn.responses =
        [(9, .error s!"handler for protocol {storeProtocol} not found".toUTF8.toList)] ∧
      ¬ (run (acknowledged ++ requested)).Serves := by
  refine ⟨rfl, fun serves => ?_⟩
  obtain ⟨handler, own, _⟩ :=
    serves.handled ⟨9, storeProtocol, [5], true, none⟩ mem_cons_self rfl
  cases own

end DaemonLink

end KwaaiNet
