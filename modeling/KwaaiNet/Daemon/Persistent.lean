import KwaaiNet.Foundation.Execution
import KwaaiNet.Foundation.Table

/-! # The persistent connection to the daemon

Calls on a persistent connection enter the sender of their response channel into the table of
pending calls, write a request and wait. One reader task takes the entry of each response out of
the table and sends the response on. When reading fails, the reader sends an error to all
pending calls and exits.

The calls and the reader are cut at the locks they take and at the points where they wait, and
their steps interleave in any order; a call may also be dropped by its caller. A call that
enters its sender after the reader has emptied the table waits for ever.
`KwaaiNet.PersistentConnection.noLostWakeUp_of_registersBeforeDrain` says that this is the only
way in which a call can be left waiting or an entry can be left behind.
-/

namespace KwaaiNet

open Foundation List

abbrev CallId := Nat

/-- `UnaryHandlerFn`, by the result it computes. -/
abbrev UnaryHandlerFn := List UInt8 → Except String (List UInt8)

/-- `persistent_connection_response::Message`. -/
inductive DaemonMessage where
  | callUnaryResponse (result : Option (Except (List UInt8) (List UInt8)))
  | daemonError (message : Option String)
  | cancel
  | requestHandling (proto : String) (data : List UInt8)

structure PersistentConnectionResponse where
  callId : CallId
  message : Option DaemonMessage

/-- `persistent_connection_request::Message`. -/
inductive ClientMessage where
  | callUnary (peer : List UInt8) (proto : String) (data : List UInt8)
  | addUnaryHandler (proto : String) (balanced : Bool)
  | removeUnaryHandler (proto : String)
  | unaryResponse (result : Except (List UInt8) (List UInt8))

structure PersistentConnectionRequest where
  callId : CallId
  message : ClientMessage

/-- The errors a call returns, by their texts. -/
inductive UnaryCallError where
  /-- The write of the request failed. -/
  | io
  /-- "connection closed: …" -/
  | connectionClosed (reason : String)
  /-- "Response channel closed" -/
  | channelClosed
  /-- "Remote handler error: …" -/
  | remoteHandler (message : List UInt8)
  /-- "Empty unary response" -/
  | emptyResponse
  /-- "Daemon error: …" -/
  | daemon (message : String)
  /-- "Unexpected response type" -/
  | unexpectedResponse
  /-- "Failed to add handler: …" -/
  | addHandler (message : String)
  /-- "Failed to remove handler: …" -/
  | removeHandler (message : String)

/-- What the receiving half of a response channel gets: the value sent, or the news that the
sender was dropped. -/
inductive Delivery where
  | sent (result : Except UnaryCallError PersistentConnectionResponse)
  | dropped

/-- A call on the connection and its arguments. -/
inductive UnaryCall where
  | callUnary (peer : List UInt8) (proto : String) (data : List UInt8)
  | addUnaryHandler (proto : String) (handler : UnaryHandlerFn) (balanced : Bool)
  | removeUnaryHandler (proto : String)

/-- Where a call stands. -/
inductive CallPhase where
  /-- It has its id and its channel. -/
  | starting
  /-- Its sender is in the table of pending calls. -/
  | registered
  /-- Its request is written, and it awaits its channel. -/
  | waiting
  /-- It is about to update the table of handlers. -/
  | updating
  | returned (result : Except UnaryCallError (List UInt8))
  /-- Its caller has dropped it. -/
  | cancelled

structure RunningCall where
  callId : CallId
  call : UnaryCall
  phase : CallPhase
  channel : Option Delivery

inductive ReaderPhase where
  | reading
  /-- Reading failed; the reader is about to lock the table of pending calls. -/
  | failed (reason : String)
  /-- The table is drained. -/
  | drained
  | exited
  deriving DecidableEq

/-- `PersistentConnection`, with the calls made on it and the handlers at work. A sender in the
table of pending calls is the number of the call that holds the receiving half. -/
structure PersistentConnection where
  written : List PersistentConnectionRequest
  reader : ReaderPhase
  pendingCalls : Table CallId Nat
  unaryHandlers : Table String UnaryHandlerFn
  calls : List RunningCall
  handling : List (CallId × UnaryHandlerFn × List UInt8)

/-- The steps of the calls, of the reader and of the handlers at work. -/
inductive ConnectionEvent where
  | arrive (callId : CallId) (call : UnaryCall)
  | register (n : Nat)
  | write (n : Nat) (succeeds : Bool)
  | wake (n : Nat)
  | update (n : Nat)
  | cancel (n : Nat)
  | receive (response : PersistentConnectionResponse) (succeeds : Bool)
  /-- A message that cannot be decoded, or whose call id is not a UUID. -/
  | receiveInvalid
  | readError (reason : String)
  | drain
  | exit
  | answer (n : Nat) (succeeds : Bool)

namespace UnaryCall

def message : UnaryCall → ClientMessage
  | .callUnary peer proto data => .callUnary peer proto data
  | .addUnaryHandler proto _ balanced => .addUnaryHandler proto balanced
  | .removeUnaryHandler proto => .removeUnaryHandler proto

/-- What `call_unary` returns for a response. -/
def extract : Option DaemonMessage → Except UnaryCallError (List UInt8)
  | some (.callUnaryResponse (some (.ok data))) => .ok data
  | some (.callUnaryResponse (some (.error message))) => .error (.remoteHandler message)
  | some (.callUnaryResponse none) => .error .emptyResponse
  | some (.daemonError message) => .error (.daemon (message.getD "Unknown error"))
  | _ => .error .unexpectedResponse

def respond : UnaryCall → Option DaemonMessage → CallPhase
  | .callUnary .., message => .returned (extract message)
  | .addUnaryHandler .., some (.daemonError message) =>
    .returned (.error (.addHandler (message.getD "Unknown error")))
  | .removeUnaryHandler .., some (.daemonError message) =>
    .returned (.error (.removeHandler (message.getD "Unknown error")))
  | _, _ => .updating

def receive (call : UnaryCall) : Delivery → CallPhase
  | .dropped => .returned (.error .channelClosed)
  | .sent (.error reason) => .returned (.error reason)
  | .sent (.ok response) => call.respond response.message

def updateHandlers (handlers : Table String UnaryHandlerFn) :
    UnaryCall → Table String UnaryHandlerFn
  | .callUnary .. => handlers
  | .addUnaryHandler proto handler _ => handlers.insert proto handler
  | .removeUnaryHandler proto => handlers.erase proto

end UnaryCall

def RunningCall.canStep (call : RunningCall) : Prop :=
  match call.phase with
  | .starting | .registered | .updating => True
  | .waiting => call.channel.isSome
  | .returned _ | .cancelled => False

/-- The call has entered its sender and has not used its channel. -/
def RunningCall.listening (call : RunningCall) : Prop :=
  call.phase = .registered ∨ call.phase = .waiting

namespace PersistentConnection

/-- `PersistentConnection::new`. -/
def new : PersistentConnection := ⟨[], .reading, ∅, ∅, [], []⟩

def deliver (delivery : Delivery) (calls : List RunningCall) (n : Nat) : List RunningCall :=
  calls.modify n fun call => { call with channel := some delivery }

def move (phase : CallPhase) (calls : List RunningCall) (n : Nat) : List RunningCall :=
  calls.modify n fun call => { call with phase }

variable (conn : PersistentConnection)

/-- `is_alive`. -/
def isAlive : Bool := conn.reader ≠ .exited

def register (n : Nat) (callId : CallId) : PersistentConnection :=
  { conn with
    calls := move .registered
      ((conn.pendingCalls.lookup callId).elim conn.calls (deliver .dropped conn.calls)) n
    pendingCalls := conn.pendingCalls.insert callId n }

def write (n : Nat) (call : RunningCall) (succeeds : Bool) : PersistentConnection :=
  if succeeds then
    { conn with
      written := conn.written ++ [⟨call.callId, call.call.message⟩]
      calls := move .waiting conn.calls n }
  else { conn with calls := move (.returned (.error .io)) conn.calls n }

/-- The reader completes the pending call of a response. -/
def complete (response : PersistentConnectionResponse) : PersistentConnection :=
  match conn.pendingCalls.lookup response.callId with
  | none => conn
  | some n =>
    { conn with
      pendingCalls := conn.pendingCalls.erase response.callId
      calls := deliver (.sent (.ok response)) conn.calls n }

def writeResponse (callId : CallId) (result : Except (List UInt8) (List UInt8))
    (succeeds : Bool) : PersistentConnection :=
  if succeeds then { conn with written := conn.written ++ [⟨callId, .unaryResponse result⟩] }
  else conn

/-- An incoming request starts its handler, or is answered at once if there is none. -/
def handle (callId : CallId) (proto : String) (data : List UInt8) (succeeds : Bool) :
    PersistentConnection :=
  match conn.unaryHandlers.lookup proto with
  | some handler => { conn with handling := conn.handling ++ [(callId, handler, data)] }
  | none =>
    conn.writeResponse callId
      (.error s!"handler for protocol {proto} not found".toUTF8.toList) succeeds

/-- The dispatch of `spawn_reader`. -/
def dispatch (response : PersistentConnectionResponse) (succeeds : Bool) : PersistentConnection :=
  match response.message with
  | some (.requestHandling proto data) => conn.handle response.callId proto data succeeds
  | _ => conn.complete response

/-- The reader empties the table and sends every pending call the error. -/
def drain (reason : String) : PersistentConnection :=
  { conn with
    reader := .drained
    pendingCalls := ∅
    calls := (conn.pendingCalls.entries.map Sigma.snd).foldl
      (deliver (.sent (.error (.connectionClosed reason)))) conn.calls }

def answer (n : Nat) (task : CallId × UnaryHandlerFn × List UInt8) (succeeds : Bool) :
    PersistentConnection :=
  let result := (task.2.1 task.2.2).mapError fun message => message.toUTF8.toList
  { conn with handling := conn.handling.eraseIdx n }.writeResponse task.1 result succeeds

def stepCall (n : Nat) (call : RunningCall) : ConnectionEvent → PersistentConnection
  | .register _ =>
    match call.phase with
    | .starting => conn.register n call.callId
    | _ => conn
  | .write _ succeeds =>
    match call.phase with
    | .registered => conn.write n call succeeds
    | _ => conn
  | .wake _ =>
    match call.phase, call.channel with
    | .waiting, some delivery =>
      { conn with calls := move (call.call.receive delivery) conn.calls n }
    | _, _ => conn
  | .update _ =>
    match call.phase with
    | .updating =>
      { conn with
        unaryHandlers := call.call.updateHandlers conn.unaryHandlers
        calls := move (.returned (.ok [])) conn.calls n }
    | _ => conn
  | .cancel _ =>
    match call.phase with
    | .returned _ => conn
    | _ => { conn with calls := move .cancelled conn.calls n }
  | _ => conn

def step (conn : PersistentConnection) (event : ConnectionEvent) : PersistentConnection :=
  match event with
  | .arrive callId call => { conn with calls := conn.calls ++ [⟨callId, call, .starting, none⟩] }
  | .register n | .write n _ | .wake n | .update n | .cancel n =>
    match conn.calls[n]? with
    | some call => conn.stepCall n call event
    | none => conn
  | .receive response succeeds =>
    if conn.reader = .reading then conn.dispatch response succeeds else conn
  | .receiveInvalid => conn
  | .readError reason =>
    if conn.reader = .reading then { conn with reader := .failed reason } else conn
  | .drain =>
    match conn.reader with
    | .failed reason => conn.drain reason
    | _ => conn
  | .exit => if conn.reader = .drained then { conn with reader := .exited } else conn
  | .answer n succeeds =>
    match conn.handling[n]? with
    | some task => conn.answer n task succeeds
    | none => conn

def run (events : List ConnectionEvent) : PersistentConnection := events.foldl step new

/-- Once the reader has exited and no call can take a step, no call waits and no entry is left
in the table of pending calls. -/
def NoLostWakeUp : Prop :=
  conn.reader = .exited → (∀ call ∈ conn.calls, ¬ call.canStep) →
    (∀ call ∈ conn.calls, call.phase ≠ .waiting) ∧ conn.pendingCalls = ∅

/-- The reader has emptied the table of pending calls. -/
def Drained : Prop := conn.reader = .drained ∨ conn.reader = .exited

/-- A call enters its sender only while the reader has not emptied the table. -/
def RegistersBeforeDrain (event : ConnectionEvent) : Prop :=
  ∀ n, event = .register n → ¬ conn.Drained

/-- A call that has entered its sender has been sent something, or its sender still is in the
table. -/
def Answerable (pending : Table CallId Nat) (n : Nat) (call : RunningCall) : Prop :=
  call.listening → call.channel.isSome ∨ pending.lookup call.callId = some n

/-- What the steps keep. -/
structure Accounted : Prop where
  emptied : conn.Drained → conn.pendingCalls = ∅
  answerable : ∀ n call, conn.calls[n]? = some call → Answerable conn.pendingCalls n call

section Calls

variable {calls : List RunningCall} {n : Nat}

theorem answerable_of_sent {pending : Table CallId Nat} {call : RunningCall}
    (sent : call.channel.isSome) : Answerable pending n call := fun _ => .inl sent

theorem answerable_of_not_listening {pending : Table CallId Nat} {call : RunningCall}
    (idle : ¬ call.listening) : Answerable pending n call := fun listening => absurd listening idle

theorem forall_deliver {pending after : Table CallId Nat} {delivery : Delivery}
    (holds : ∀ m call, calls[m]? = some call → Answerable pending m call)
    (others : ∀ callId m, m ≠ n → pending.lookup callId = some m → after.lookup callId = some m) :
    ∀ m call, (deliver delivery calls n)[m]? = some call → Answerable after m call := by
  intro m call found
  rw [deliver, List.getElem?_modify] at found
  obtain ⟨before, stood, rfl⟩ := Option.map_eq_some_iff.mp found
  by_cases same : n = m
  · subst same
    rw [if_pos rfl]
    exact answerable_of_sent rfl
  · rw [if_neg same]
    intro listening
    rcases holds m before stood listening with sent | entered
    · exact .inl sent
    · exact .inr (others before.callId m (Ne.symm same) entered)

theorem forall_move {pending : Table CallId Nat} {phase : CallPhase}
    (holds : ∀ m call, calls[m]? = some call → Answerable pending m call)
    (idle : phase ≠ .registered ∧ phase ≠ .waiting) :
    ∀ m call, (move phase calls n)[m]? = some call → Answerable pending m call := by
  apply forall_modify holds
  intro call _
  apply answerable_of_not_listening
  rintro (registered | waiting)
  · exact idle.1 registered
  · exact idle.2 waiting

theorem isSome_channel_foldl_deliver {delivery : Delivery} (numbers : List Nat)
    {m : Nat} {call : RunningCall}
    (found : (numbers.foldl (deliver delivery) calls)[m]? = some call) :
    ∃ before, calls[m]? = some before ∧ before.phase = call.phase ∧
      before.callId = call.callId ∧
      (m ∈ numbers ∨ before.channel.isSome → call.channel.isSome) := by
  induction numbers generalizing calls with
  | nil => exact ⟨call, found, rfl, rfl, fun sent => sent.resolve_left not_mem_nil⟩
  | cons number numbers ih =>
    obtain ⟨next, stood, phase, callId, reached⟩ := ih found
    rw [deliver, List.getElem?_modify] at stood
    obtain ⟨before, first, rfl⟩ := Option.map_eq_some_iff.mp stood
    refine ⟨before, first, ?_, ?_, ?_⟩
    · rw [← phase]
      split_ifs <;> rfl
    · rw [← callId]
      split_ifs <;> rfl
    · intro sent
      apply reached
      by_cases same : number = m
      · rw [if_pos same]
        exact .inr rfl
      · rw [if_neg same]
        exact sent.imp_left fun member => (mem_cons.mp member).resolve_left (Ne.symm same)

end Calls

section Steps

variable {conn}

theorem not_listening_receive (call : UnaryCall) (delivery : Delivery) :
    call.receive delivery ≠ .registered ∧ call.receive delivery ≠ .waiting := by
  rcases delivery with (reason | response) | _
  · exact ⟨nofun, nofun⟩
  · rcases response with ⟨_, _ | (_ | _ | _ | _)⟩ <;> cases call <;> exact ⟨nofun, nofun⟩
  · exact ⟨nofun, nofun⟩

theorem callId_deliver {delivery : Delivery} {calls : List RunningCall} {n m : Nat}
    {call after : RunningCall} (found : calls[m]? = some call)
    (reached : (deliver delivery calls n)[m]? = some after) : after.callId = call.callId := by
  rw [deliver, List.getElem?_modify, found] at reached
  obtain rfl := Option.some.inj reached
  split_ifs <;> rfl

theorem Accounted.register (accounted : conn.Accounted) {n : Nat} {call : RunningCall}
    (found : conn.calls[n]? = some call) (undrained : ¬ conn.Drained) :
    (conn.register n call.callId).Accounted := by
  refine ⟨fun drained => absurd drained undrained, ?_⟩
  have entered : (conn.pendingCalls.insert call.callId n).lookup call.callId = some n :=
    AList.lookup_insert _
  cases stood : conn.pendingCalls.lookup call.callId with
  | none =>
    simp only [PersistentConnection.register, stood, Option.elim_none]
    apply forall_modify
    · intro m other present listening
      refine (accounted.answerable m other present listening).imp_right fun held => ?_
      rw [AList.lookup_insert_ne, held]
      intro same
      rw [same, stood] at held
      cases held
    · intro same present _
      obtain rfl := Option.some.inj (found.symm.trans present)
      exact .inr entered
  | some displaced =>
    simp only [PersistentConnection.register, stood, Option.elim_some]
    apply forall_modify
    · apply forall_deliver accounted.answerable
      intro callId m different held
      rw [AList.lookup_insert_ne, held]
      intro same
      rw [same, stood] at held
      exact different (Option.some.inj held).symm
    · intro after reached _
      right
      rw [callId_deliver found reached]
      exact entered

theorem Accounted.complete (accounted : conn.Accounted) (response : PersistentConnectionResponse)
    (undrained : ¬ conn.Drained) : (conn.complete response).Accounted := by
  rw [PersistentConnection.complete]
  cases stood : conn.pendingCalls.lookup response.callId with
  | none => exact accounted
  | some n =>
    refine ⟨fun drained => absurd drained undrained, forall_deliver accounted.answerable ?_⟩
    intro callId m different held
    rw [AList.lookup_erase_ne, held]
    intro same
    rw [same, stood] at held
    exact different (Option.some.inj held).symm

theorem Accounted.drain (accounted : conn.Accounted) (reason : String) :
    (conn.drain reason).Accounted := by
  refine ⟨fun _ => rfl, ?_⟩
  intro m call found
  obtain ⟨before, stood, phase, callId, reached⟩ := isSome_channel_foldl_deliver _ found
  intro listening
  left
  apply reached
  rw [RunningCall.listening, ← phase] at listening
  rcases accounted.answerable m before stood listening with sent | held
  · exact .inr sent
  · exact .inl (mem_map.mpr ⟨_, AList.mem_lookup_iff.mp held, rfl⟩)

theorem Accounted.frame (accounted : conn.Accounted) {after : PersistentConnection}
    (reader : after.Drained → conn.Drained) (pending : after.pendingCalls = conn.pendingCalls)
    (calls : after.calls = conn.calls) : after.Accounted := by
  refine ⟨fun drained => ?_, ?_⟩
  · rw [pending, accounted.emptied (reader drained)]
  · rw [calls, pending]
    exact accounted.answerable

theorem Accounted.writeResponse (accounted : conn.Accounted) (callId : CallId)
    (result : Except (List UInt8) (List UInt8)) (succeeds : Bool) :
    (conn.writeResponse callId result succeeds).Accounted := by
  rw [PersistentConnection.writeResponse]
  split_ifs
  · exact accounted.frame id rfl rfl
  · exact accounted

theorem Accounted.dispatch (accounted : conn.Accounted) (response : PersistentConnectionResponse)
    (succeeds : Bool) (undrained : ¬ conn.Drained) :
    (conn.dispatch response succeeds).Accounted := by
  rw [PersistentConnection.dispatch]
  split
  · rw [handle]
    split
    · exact accounted.frame id rfl rfl
    · exact accounted.writeResponse _ _ _
  · exact accounted.complete response undrained

theorem Accounted.move (accounted : conn.Accounted) (n : Nat) (phase : CallPhase)
    (idle : phase ≠ .registered ∧ phase ≠ .waiting) {after : PersistentConnection}
    (reader : after.reader = conn.reader) (pending : after.pendingCalls = conn.pendingCalls)
    (calls : after.calls = move phase conn.calls n) : after.Accounted := by
  refine ⟨fun drained => ?_, ?_⟩
  · rw [Drained, reader] at drained
    rw [pending, accounted.emptied drained]
  · rw [calls, pending]
    exact forall_move accounted.answerable idle

theorem Accounted.write (accounted : conn.Accounted) {n : Nat} {call : RunningCall}
    (found : conn.calls[n]? = some call) (registered : call.phase = .registered)
    (succeeds : Bool) : (conn.write n call succeeds).Accounted := by
  rw [PersistentConnection.write]
  split_ifs
  · refine ⟨accounted.emptied, forall_modify accounted.answerable ?_⟩
    intro same present _
    obtain rfl := Option.some.inj (found.symm.trans present)
    exact accounted.answerable n call found (.inl registered)
  · exact accounted.move n (.returned (.error .io)) ⟨nofun, nofun⟩ rfl rfl rfl

theorem Accounted.stepCall (accounted : conn.Accounted) {n : Nat} {call : RunningCall}
    (found : conn.calls[n]? = some call) (event : ConnectionEvent)
    (undrained : (∃ m, event = .register m) → ¬ conn.Drained) :
    (conn.stepCall n call event).Accounted := by
  rw [PersistentConnection.stepCall.eq_def]
  split
  case h_1 m =>
    split
    · exact accounted.register found (undrained ⟨m, rfl⟩)
    · exact accounted
  case h_2 =>
    split
    · exact accounted.write found ‹_› _
    · exact accounted
  case h_3 =>
    split
    · exact accounted.move n _ (not_listening_receive _ _) rfl rfl rfl
    · exact accounted
  case h_4 =>
    split
    · exact accounted.move n (.returned (.ok [])) ⟨nofun, nofun⟩ rfl rfl rfl
    · exact accounted
  case h_5 =>
    split
    · exact accounted
    · exact accounted.move n .cancelled ⟨nofun, nofun⟩ rfl rfl rfl
  case h_6 => exact accounted

theorem not_drained_of_reading (reading : conn.reader = .reading) : ¬ conn.Drained := by
  rw [Drained, reading]
  rintro (drained | exited)
  · cases drained
  · cases exited

theorem Accounted.step (accounted : conn.Accounted) (event : ConnectionEvent)
    (inTime : conn.RegistersBeforeDrain event) : (conn.step event).Accounted := by
  have calls (n : Nat) (call : RunningCall) (found : conn.calls[n]? = some call) :
      (conn.stepCall n call event).Accounted :=
    accounted.stepCall found event fun ⟨m, registers⟩ => inTime m registers
  cases event with
  | arrive callId call =>
    refine ⟨accounted.emptied, ?_⟩
    intro m other found
    simp only [PersistentConnection.step, List.getElem?_append] at found
    split_ifs at found with earlier
    · exact accounted.answerable m other found
    · rw [mem_singleton.mp (mem_of_getElem? found)]
      apply answerable_of_not_listening
      rintro (registered | waiting)
      · cases registered
      · cases waiting
  | register n | write n _ | wake n | update n | cancel n =>
    simp only [PersistentConnection.step]
    split
    · exact calls n _ ‹_›
    · exact accounted
  | receive response succeeds =>
    simp only [PersistentConnection.step]
    split_ifs with reading
    · exact accounted.dispatch response succeeds (not_drained_of_reading reading)
    · exact accounted
  | receiveInvalid => exact accounted
  | readError reason =>
    simp only [PersistentConnection.step]
    split_ifs with reading
    · refine accounted.frame ?_ rfl rfl
      rintro (drained | exited)
      · cases drained
      · cases exited
    · exact accounted
  | drain =>
    simp only [PersistentConnection.step]
    split
    · exact accounted.drain _
    · exact accounted
  | exit =>
    simp only [PersistentConnection.step]
    split_ifs with drained
    · exact accounted.frame (fun _ => .inl drained) rfl rfl
    · exact accounted
  | answer n succeeds =>
    simp only [PersistentConnection.step]
    split
    · have framed : { conn with handling := conn.handling.eraseIdx n }.Accounted :=
        accounted.frame id rfl rfl
      exact framed.writeResponse _ _ _
    · exact accounted

theorem accounted_new : new.Accounted := ⟨fun _ => rfl, fun _ _ found => nomatch found⟩

/-- What is left after the reader has exited and the calls have come to rest. -/
theorem Accounted.noLostWakeUp (accounted : conn.Accounted) : conn.NoLostWakeUp := by
  intro exited settled
  have emptied := accounted.emptied (.inr exited)
  refine ⟨fun call member waiting => ?_, emptied⟩
  obtain ⟨n, found⟩ := List.getElem?_of_mem member
  apply settled call member
  rw [RunningCall.canStep, waiting]
  rcases accounted.answerable n call found (.inr waiting) with sent | held
  · exact sent
  · rw [emptied] at held
    cases held

def closedOnWaiting : List ConnectionEvent :=
  [.arrive 7 (.callUnary [1] "DHTProtocol.rpc_find" [2]), .register 0, .write 0 true,
    .readError "early eof", .drain, .exit, .wake 0]

def closedOnStarting : List ConnectionEvent :=
  [.arrive 7 (.callUnary [1] "DHTProtocol.rpc_find" [2]), .readError "early eof", .drain,
    .register 0, .write 0 true, .exit]

end Steps

end PersistentConnection

end KwaaiNet
