import KwaaiNet.Foundation.Table
import KwaaiNet.Inference.MuxFrame

/-! # The inference multiplexer

Concurrent calls of `InferenceMuxClient::send` share one stream to a node with a GPU. A call
draws an id, enters the sender of its response channel into the table of pending calls, queues
its request and waits. A writer task writes the queued requests to the stream, and a reader task
takes the entry of each response out of the table and sends the response on. At the other end
`handle_mux_stream_server` starts a task for each request that it reads, and each task writes
its response when it has one.

The calls, the two client tasks, the server and its tasks are cut at the locks they take and at
the points where they wait, and their steps interleave in any order. A stream may fail at any
byte; a write that fails is the last one on its stream. The stream starts after the `StreamInfo`
prologue of the daemon, and the client is not dropped while calls are made on it.
-/

namespace KwaaiNet

open Foundation

/-- The channel on which a call receives its response. -/
inductive ResponseChannel where
  | empty
  | full (response : MuxResponse)
  /-- The sender was dropped. -/
  | closed

/-- Where a call of `send` stands. -/
inductive SendPhase where
  /-- The stream was not marked dead. -/
  | checked
  /-- It has its id and its channel. -/
  | drawn
  /-- Its sender is in the table of pending calls. -/
  | registered
  /-- Its request is queued, and it awaits its channel. -/
  | waiting
  | returned (result : Except String MuxResponse)
  /-- Its caller has dropped it. -/
  | cancelled

structure SendCall where
  method : String
  path : String
  body : List UInt8
  requestId : Option UInt64
  phase : SendPhase
  channel : ResponseChannel

/-- A client task reads or writes, then marks the stream dead and clears the table of pending
calls. -/
inductive StreamTask where
  | running
  /-- It has marked the stream dead. -/
  | exiting
  | done
  deriving DecidableEq

/-- The server's task for one request. -/
structure ServerTask where
  request : MuxRequest
  response : Option MuxResponse
  /-- It has written its response, or failed to. -/
  finished : Bool

/-- `InferenceMuxClient` and `handle_mux_stream_server` at the two ends of a stream. A sender in
the table of pending calls is the number of the call that holds the receiving half. -/
structure MuxSystem where
  nextId : UInt64
  dead : Bool
  calls : List SendCall
  pending : Table UInt64 Nat
  /-- The encoded requests in the channel to the writer. -/
  queue : List (List UInt8)
  writer : StreamTask
  reader : StreamTask
  toServer : List UInt8
  toClient : List UInt8
  serverReads : Bool
  serverWrites : Bool
  tasks : List ServerTask
  /-- The client has received bytes that are not from `handle_mux_stream_server`. -/
  foreign : Bool
  /-- The number of frames that the reader has read. -/
  frames : Nat
  /-- The frame, the call and the response of each delivery. -/
  deliveries : List (Nat × Nat × MuxResponse)

/-- The steps of a call. -/
inductive CallStep where
  | draw
  | register
  | enqueue
  | resume
  | timeout
  | cancel
  deriving DecidableEq

inductive MuxEvent where
  | send (method path : String) (body : List UInt8)
  | call (k : Nat) (step : CallStep)
  | write
  | writeFails (written : Nat)
  | writerClears
  | read
  | readFails
  | readerClears
  | serverRead
  | serverStops
  | compute (n : Nat) (status : UInt16) (body : List UInt8)
  | respond (n : Nat)
  | respondFails (n written : Nat)
  /-- A peer other than `handle_mux_stream_server` writes anything. -/
  | peerWrites (bytes : List UInt8)

def queueCapacity : Nat := 256

def ResponseChannel.wake (channel : ResponseChannel) (timer : Bool) :
    Option (Except String MuxResponse) :=
  match channel with
  | .full response => if timer then none else some (.ok response)
  | .closed => if timer then none else some (.error "inference-mux response channel closed")
  | .empty => if timer then some (.error "inference-mux response timeout") else none

namespace SendCall

variable (call : SendCall)

def request (requestId : UInt64) : MuxRequest := ⟨requestId, call.method, call.path, call.body⟩

/-- The call holds the receiving half of its channel. -/
def listening : Bool :=
  match call.phase with
  | .drawn | .registered | .waiting => true
  | .checked | .returned _ | .cancelled => false

/-- The channel gets a response, if its receiving half still is there. -/
def receive (response : MuxResponse) : SendCall :=
  if call.listening then { call with channel := .full response } else call

/-- The sender of the channel is dropped. -/
def close : SendCall :=
  match call.channel with
  | .empty => { call with channel := .closed }
  | .full _ | .closed => call

/-- The start of `send`: it fails at once when the stream is marked dead. -/
def start (method path : String) (body : List UInt8) (dead : Bool) : SendCall :=
  ⟨method, path, body, none,
    if dead then .returned (.error "inference-mux client: stream disconnected") else .checked,
    .empty⟩

end SendCall

/-- `call_ollama_local`, by the status and the body that the local server answers with; a
failure gives status 503 and its text. -/
def callOllamaLocal (request : MuxRequest) (status : UInt16) (body : List UInt8) : MuxResponse :=
  ⟨request.requestId, status, body⟩

namespace MuxSystem

/-- `InferenceMuxClient::connect`. -/
def connected : MuxSystem where
  nextId := 1
  dead := false
  calls := []
  pending := ∅
  queue := []
  writer := .running
  reader := .running
  toServer := []
  toClient := []
  serverReads := true
  serverWrites := true
  tasks := []
  foreign := false
  frames := 0
  deliveries := []

def move (phase : SendPhase) (calls : List SendCall) (k : Nat) : List SendCall :=
  calls.modify k fun call => { call with phase }

def closeAll (calls : List SendCall) (numbers : List Nat) : List SendCall :=
  numbers.foldl (fun calls k => calls.modify k SendCall.close) calls

variable (system : MuxSystem)

/-! ## The calls -/

def draw (k : Nat) : MuxSystem :=
  { system with
    nextId := system.nextId + 1
    calls := system.calls.modify k fun call =>
      { call with requestId := some system.nextId, phase := .drawn } }

/-- A sender that stood under the same id is dropped. -/
def register (k : Nat) (requestId : UInt64) : MuxSystem :=
  { system with
    calls := closeAll (move .registered system.calls k)
      (system.pending.lookup requestId).toList
    pending := system.pending.insert requestId k }

/-- The request is queued as soon as there is room; when the writer is gone, the call fails and
its entry stays. -/
def enqueue (k : Nat) (request : MuxRequest) : MuxSystem :=
  if system.writer = .done then
    { system with
      calls := move (.returned (.error "inference-mux send channel closed")) system.calls k }
  else if system.queue.length < queueCapacity then
    { system with
      calls := move .waiting system.calls k
      queue := system.queue ++ [request.toVecNamed] }
  else system

def wake (k : Nat) (call : SendCall) (timer : Bool) : MuxSystem :=
  match call.phase, call.channel.wake timer with
  | .waiting, some result => { system with calls := move (.returned result) system.calls k }
  | _, _ => system

def cancel (k : Nat) (call : SendCall) : MuxSystem :=
  match call.phase with
  | .returned _ | .cancelled => system
  | _ => { system with calls := move .cancelled system.calls k }

def stepCall (k : Nat) (call : SendCall) : CallStep → MuxSystem
  | .draw =>
    match call.phase with
    | .checked => system.draw k
    | _ => system
  | .register =>
    match call.phase, call.requestId with
    | .drawn, some requestId => system.register k requestId
    | _, _ => system
  | .enqueue =>
    match call.phase, call.requestId with
    | .registered, some requestId => system.enqueue k (call.request requestId)
    | _, _ => system
  | .resume => system.wake k call false
  | .timeout => system.wake k call true
  | .cancel => system.cancel k call

/-! ## The tasks of the client -/

/-- `write_frame` writes the first bytes of a frame, as far as they get; after an error the
writer marks the stream dead. -/
def writeRequest (written : Option Nat) : MuxSystem :=
  match system.writer, system.queue with
  | .running, payload :: queue =>
    match written with
    | none => { system with queue, toServer := system.toServer ++ frame payload }
    | some count =>
      { system with
        queue
        toServer := system.toServer ++ (frame payload).take count
        writer := .exiting
        dead := true }
  | _, _ => system

/-- `pending.clear()` drops all senders. -/
def clearPending : MuxSystem :=
  { system with
    pending := ∅
    calls := closeAll system.calls (system.pending.entries.map Sigma.snd) }

def deliver (response : MuxResponse) : MuxSystem :=
  match system.pending.lookup response.requestId with
  | none => system
  | some k =>
    { system with
      pending := system.pending.erase response.requestId
      calls := system.calls.modify k fun call => call.receive response
      deliveries :=
        if (system.calls[k]?).any SendCall.listening then
          system.deliveries ++ [(system.frames, k, response)]
        else system.deliveries }

/-- What the reader does with a frame; it skips one that it cannot decode. -/
def receiveFrame (payload rest : List UInt8) : MuxSystem :=
  let routed := (MuxResponse.fromSlice payload).elim system system.deliver
  { routed with toClient := rest, frames := system.frames + 1 }

def readResponse : MuxSystem :=
  match system.reader, readFrame maxFrameLength system.toClient with
  | .running, .tooLarge => { system with reader := .exiting, dead := true }
  | .running, .read payload rest => system.receiveFrame payload rest
  | _, _ => system

/-! ## The server -/

/-- The server starts a task for a request; it skips a frame that it cannot decode. -/
def readRequest : MuxSystem :=
  match system.serverReads, readFrame maxFrameLength system.toServer with
  | true, .tooLarge => { system with serverReads := false }
  | true, .read payload rest =>
    { system with
      toServer := rest
      tasks := system.tasks ++
        ((MuxRequest.fromSlice payload).map fun request => ⟨request, none, false⟩).toList }
  | _, _ => system

def compute (n : Nat) (status : UInt16) (body : List UInt8) : MuxSystem :=
  { system with
    tasks := system.tasks.modify n fun task =>
      match task.response with
      | none => { task with response := some (callOllamaLocal task.request status body) }
      | some _ => task }

/-- A task that has its response writes it under the lock of the writer. -/
def writeResponse (n : Nat) (written : Option Nat) : MuxSystem :=
  match system.serverWrites, system.tasks[n]? with
  | true, some ⟨_, some response, false⟩ =>
    let bytes := frame response.toVecNamed
    { system with
      tasks := system.tasks.modify n fun task => { task with finished := true }
      toClient := system.toClient ++ written.elim bytes bytes.take
      serverWrites := written.isNone }
  | _, _ => system

/-! ## Runs -/

def step (system : MuxSystem) : MuxEvent → MuxSystem
  | .send method path body =>
    { system with calls := system.calls ++ [.start method path body system.dead] }
  | .call k step =>
    match system.calls[k]? with
    | some call => system.stepCall k call step
    | none => system
  | .write => system.writeRequest none
  | .writeFails written => system.writeRequest (some written)
  | .writerClears =>
    if system.writer = .exiting then
      { system.clearPending with writer := .done, queue := [] }
    else system
  | .read => system.readResponse
  | .readFails =>
    if system.reader = .running then { system with reader := .exiting, dead := true } else system
  | .readerClears =>
    if system.reader = .exiting then { system.clearPending with reader := .done } else system
  | .serverRead => system.readRequest
  | .serverStops => { system with serverReads := false }
  | .compute n status body => system.compute n status body
  | .respond n => system.writeResponse n none
  | .respondFails n written => system.writeResponse n (some written)
  | .peerWrites bytes =>
    { system with toClient := system.toClient ++ bytes, foreign := true }

def run (events : List MuxEvent) : MuxSystem := events.foldl step connected

end MuxSystem

end KwaaiNet
