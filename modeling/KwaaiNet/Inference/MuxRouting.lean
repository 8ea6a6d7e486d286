import KwaaiNet.Foundation.Execution
import KwaaiNet.Inference.Mux

/-! # Responses are routed by id

A response is delivered to the call whose entry stands under its id, and that call has drawn
this id. So a call returns only a response with the id of its own request, whatever a peer
sends (`KwaaiNet.MuxSystem.Routes.ownResponse`), and each frame is delivered to at most one call
(`KwaaiNet.MuxSystem.Routes.deliveredOnce`). As long as fewer than `2 ^ 64` calls are made, no
two of them draw the same id (`KwaaiNet.MuxSystem.Numbered`).

The proofs rest on one analysis of the steps: a step other than one of the reader is `Quiet`.
-/

namespace KwaaiNet

open Foundation List

namespace SendPhase

def settled : SendPhase → Bool
  | .waiting | .returned _ | .cancelled => true
  | .checked | .drawn | .registered => false

end SendPhase

namespace SendCall

/-- A call has no id before it draws one, and returns only a response that its channel got. -/
structure Proper (call : SendCall) : Prop where
  unnumbered : call.phase = .checked → call.requestId = none
  received : ∀ response, call.phase = .returned (.ok response) → call.channel = .full response

/-- What every step keeps of a call. -/
structure Continues (before after : SendCall) : Prop where
  request : after.request = before.request
  requestId : ∀ requestId, before.requestId = some requestId → after.requestId = some requestId
  settled : before.phase.settled → after.phase.settled
  proper : before.Proper → after.Proper

/-- A step that puts no response into the channel of the call. -/
structure Quiet (before after : SendCall) : Prop extends before.Continues after where
  channel : ∀ response, after.channel = .full response → before.channel = .full response

variable (call : SendCall)

theorem quiet_refl : call.Quiet call := ⟨⟨rfl, fun _ => id, id, id⟩, fun _ => id⟩

theorem quiet_close : call.Quiet call.close := by
  rw [close]
  split
  case h_1 empty =>
    refine ⟨⟨rfl, fun _ => id, id, fun proper => ⟨proper.unnumbered, ?_⟩⟩, nofun⟩
    intro response returned
    have full := proper.received response returned
    rw [empty] at full
    cases full
  case h_2 => exact call.quiet_refl
  case h_3 => exact call.quiet_refl

theorem quiet_move {phase : SendPhase} (later : call.phase.settled → phase.settled)
    (started : phase ≠ .checked)
    (received : ∀ response, phase = .returned (.ok response) → call.channel = .full response) :
    call.Quiet { call with phase } :=
  ⟨⟨rfl, fun _ => id, later, fun _ => ⟨fun checked => absurd checked started, received⟩⟩,
    fun _ => id⟩

theorem continues_receive (response : MuxResponse) : call.Continues (call.receive response) := by
  rw [receive]
  split_ifs with listening
  · refine ⟨rfl, fun _ => id, id, fun proper => ⟨proper.unnumbered, ?_⟩⟩
    intro other returned
    rw [SendCall.listening, returned] at listening
    cases listening
  · exact call.quiet_refl.toContinues

end SendCall

/-- A step that puts no response into a channel: calls go on, and calls are added. -/
structure Undelivered (before after : List SendCall) : Prop where
  kept : Continue SendCall.Quiet before after
  added : ∀ (k : Nat) call, before[k]? = none → after[k]? = some call →
    call.Proper ∧ ∀ response, call.channel ≠ .full response

namespace Undelivered

variable {before middle after calls : List SendCall}

theorem of_eq (same : after = before) : Undelivered before after := by
  subst same
  refine ⟨fun _ call found => ⟨call, found, call.quiet_refl⟩, ?_⟩
  intro k call missing found
  rw [missing] at found
  cases found

theorem trans (first : Undelivered before middle) (second : Undelivered middle after) :
    Undelivered before after := by
  refine ⟨?_, ?_⟩
  · intro k call found
    obtain ⟨next, stands, quiet⟩ := first.kept k call found
    obtain ⟨last, holds, later⟩ := second.kept k next stands
    refine ⟨last, holds, ⟨?_, ?_, ?_, ?_⟩, ?_⟩
    · exact later.request.trans quiet.request
    · exact fun requestId drawn => later.requestId requestId (quiet.requestId requestId drawn)
    · exact fun settled => later.settled (quiet.settled settled)
    · exact fun proper => later.proper (quiet.proper proper)
    · exact fun response full => quiet.channel response (later.channel response full)
  · intro k call missing found
    cases stands : middle[k]? with
    | none => exact second.added k call stands found
    | some next =>
      obtain ⟨proper, empty⟩ := first.added k next missing stands
      obtain ⟨last, holds, later⟩ := second.kept k next stands
      obtain rfl := Option.some.inj (holds.symm.trans found)
      exact ⟨later.proper proper, fun response full => empty response (later.channel _ full)⟩

theorem modify {k : Nat} {change : SendCall → SendCall}
    (quiet : ∀ call, calls[k]? = some call → call.Quiet (change call)) :
    Undelivered calls (calls.modify k change) := by
  refine ⟨continue_modify SendCall.quiet_refl quiet, ?_⟩
  intro m call missing found
  rw [List.getElem?_modify, missing] at found
  cases found

theorem closeAll (numbers : List Nat) : Undelivered calls (MuxSystem.closeAll calls numbers) := by
  induction numbers generalizing calls with
  | nil => exact of_eq rfl
  | cons k numbers ih => exact (modify fun call _ => call.quiet_close).trans ih

theorem append_start (method path : String) (body : List UInt8) (dead : Bool) :
    Undelivered calls (calls ++ [.start method path body dead]) := by
  refine ⟨continue_append SendCall.quiet_refl _, ?_⟩
  intro k call missing found
  rw [List.getElem?_append_right (List.getElem?_eq_none_iff.mp missing)] at found
  obtain rfl := mem_singleton.mp (mem_of_getElem? found)
  refine ⟨⟨fun _ => rfl, ?_⟩, nofun⟩
  intro response returned
  cases dead <;> cases returned

theorem proper (change : Undelivered before after)
    (holds : ∀ (k : Nat) call, before[k]? = some call → call.Proper) :
    ∀ (k : Nat) call, after[k]? = some call → call.Proper := by
  intro k call found
  cases stood : before[k]? with
  | none => exact (change.added k call stood found).1
  | some earlier =>
    obtain ⟨later, stands, quiet⟩ := change.kept k earlier stood
    obtain rfl := Option.some.inj (stands.symm.trans found)
    exact quiet.proper (holds k earlier stood)

theorem earlier (change : Undelivered before after) {k : Nat} {call : SendCall}
    {response : MuxResponse} (found : after[k]? = some call)
    (full : call.channel = .full response) :
    ∃ earlier, before[k]? = some earlier ∧ earlier.channel = .full response ∧
      earlier.Continues call := by
  cases stood : before[k]? with
  | none => exact absurd full ((change.added k call stood found).2 response)
  | some earlier =>
    obtain ⟨later, stands, quiet⟩ := change.kept k earlier stood
    obtain rfl := Option.some.inj (stands.symm.trans found)
    exact ⟨earlier, rfl, quiet.channel response full, quiet.toContinues⟩

end Undelivered

namespace MuxSystem

/-! ## Ids -/

def requestIds (calls : List SendCall) : List (Option UInt64) := calls.map SendCall.requestId

theorem requestIds_move (phase : SendPhase) (calls : List SendCall) (k : Nat) :
    requestIds (move phase calls k) = requestIds calls := map_modify_of_kept fun _ => rfl

theorem requestIds_closeAll (calls : List SendCall) (numbers : List Nat) :
    requestIds (closeAll calls numbers) = requestIds calls := by
  have close (call : SendCall) : call.close.requestId = call.requestId := by
    rw [SendCall.close]
    split <;> rfl
  induction numbers generalizing calls with
  | nil => rfl
  | cons k numbers ih => exact (ih _).trans (map_modify_of_kept close)

theorem requestIds_deliver (system : MuxSystem) (response : MuxResponse) :
    requestIds (system.deliver response).calls = requestIds system.calls := by
  rw [deliver]
  split
  · rfl
  · apply map_modify_of_kept
    intro call
    rw [SendCall.receive]
    split_ifs <;> rfl

theorem requestIds_draw (system : MuxSystem) (k : Nat) :
    requestIds (system.draw k).calls = (requestIds system.calls).set k (some system.nextId) := by
  apply ext_getElem?
  intro m
  rw [draw, requestIds, requestIds, List.getElem?_map, List.getElem?_modify, List.getElem?_set,
    List.getElem?_map, length_map]
  by_cases same : k = m
  · subst same
    by_cases inside : k < system.calls.length
    · simp [inside]
    · simp [inside]
  · simp [same]

/-- What a step does to the ids and to the counter. -/
inductive Draws (before after : MuxSystem) : Prop
  | none (counter : after.nextId = before.nextId)
      (ids : requestIds after.calls = requestIds before.calls)
  | starts (counter : after.nextId = before.nextId)
      (ids : requestIds after.calls = requestIds before.calls ++ [none])
  | draws (k : Nat) (undrawn : (requestIds before.calls)[k]? = some .none)
      (counter : after.nextId = before.nextId + 1)
      (ids : requestIds after.calls = (requestIds before.calls).set k (some before.nextId))

/-! ## Steps without a delivery -/

/-- A step that reads no frame and fills no channel; it adds an entry to the table of pending
calls only under the id of its call. -/
structure Quiet (before after : MuxSystem) : Prop where
  calls : Undelivered before.calls after.calls
  draws : Draws before after
  pending : ∀ requestId k, after.pending.lookup requestId = some k →
    before.pending.lookup requestId = some k ∨
      ∃ call, before.calls[k]? = some call ∧ call.requestId = some requestId
  deliveries : after.deliveries = before.deliveries
  frames : after.frames = before.frames

variable {system after : MuxSystem}

theorem full_of_wake {channel : ResponseChannel} {timer : Bool} {response : MuxResponse}
    (woken : channel.wake timer = some (.ok response)) : channel = .full response := by
  cases channel <;> cases timer <;> cases woken
  rfl

namespace Quiet

/-- Steps of the tasks and of the server. -/
theorem of_eq (calls : after.calls = system.calls) (nextId : after.nextId = system.nextId)
    (pending : after.pending = system.pending) (deliveries : after.deliveries = system.deliveries)
    (frames : after.frames = system.frames) : Quiet system after where
  calls := .of_eq calls
  draws := .none nextId (by rw [calls])
  pending := fun requestId k entry => .inl (by rwa [pending] at entry)
  deliveries := deliveries
  frames := frames

theorem refl : Quiet system system := of_eq rfl rfl rfl rfl rfl

theorem move {phase : SendPhase} {k : Nat} {queue : List (List UInt8)} (settled : phase.settled)
    (received : ∀ call response, system.calls[k]? = some call → phase = .returned (.ok response) →
      call.channel = .full response) :
    Quiet system { system with calls := move phase system.calls k, queue } where
  calls := by
    apply Undelivered.modify
    intro call found
    apply call.quiet_move (fun _ => settled)
    · rintro rfl
      cases settled
    · exact fun response returned => received call response found returned
  draws := .none rfl (requestIds_move _ _ _)
  pending := fun _ _ => .inl
  deliveries := rfl
  frames := rfl

theorem clearPending : Quiet system system.clearPending where
  calls := .closeAll _
  draws := .none rfl (requestIds_closeAll _ _)
  pending := by
    intro requestId k entry
    rw [MuxSystem.clearPending, AList.lookup_empty] at entry
    cases entry
  deliveries := rfl
  frames := rfl

variable {k : Nat} {call : SendCall}

theorem draw (found : system.calls[k]? = some call) (proper : call.Proper)
    (checked : call.phase = .checked) : Quiet system (system.draw k) where
  calls := by
    apply Undelivered.modify
    intro same present
    obtain rfl := Option.some.inj (found.symm.trans present)
    refine ⟨⟨rfl, ?_, ?_, fun _ => ⟨nofun, nofun⟩⟩, fun _ => id⟩
    · intro requestId drawn
      rw [proper.unnumbered checked] at drawn
      cases drawn
    · rw [checked]
      exact nofun
  draws := by
    refine .draws k ?_ rfl ?_
    · rw [requestIds, List.getElem?_map, found, Option.map_some, proper.unnumbered checked]
    · exact requestIds_draw system k
  pending := fun _ _ => .inl
  deliveries := rfl
  frames := rfl

theorem register {requestId : UInt64} (found : system.calls[k]? = some call)
    (drawn : call.phase = .drawn) (own : call.requestId = some requestId) :
    Quiet system (system.register k requestId) where
  calls := by
    refine .trans (.modify ?_) (.closeAll _)
    intro same present
    obtain rfl := Option.some.inj (found.symm.trans present)
    refine call.quiet_move ?_ nofun nofun
    rw [drawn]
    exact nofun
  draws := .none rfl ((requestIds_closeAll _ _).trans (requestIds_move _ _ _))
  pending := by
    intro other m entry
    change (system.pending.insert requestId k).lookup other = some m at entry
    by_cases same : other = requestId
    · rw [same, AList.lookup_insert] at entry
      obtain rfl := Option.some.inj entry
      exact .inr ⟨call, found, by rw [same, own]⟩
    · rw [AList.lookup_insert_ne same] at entry
      exact .inl entry
  deliveries := rfl
  frames := rfl

theorem wake (found : system.calls[k]? = some call) (timer : Bool) :
    Quiet system (system.wake k call timer) := by
  rw [MuxSystem.wake]
  split
  case h_1 woken =>
    apply Quiet.move rfl
    rintro same response present ⟨⟩
    obtain rfl := Option.some.inj (found.symm.trans present)
    exact full_of_wake woken
  case h_2 => exact refl

theorem stepCall (found : system.calls[k]? = some call) (proper : call.Proper) (step : CallStep) :
    Quiet system (system.stepCall k call step) := by
  cases step with
  | draw =>
    rw [MuxSystem.stepCall]
    split
    · exact draw found proper ‹_›
    · exact refl
  | register =>
    rw [MuxSystem.stepCall]
    split
    · exact register found ‹_› ‹_›
    · exact refl
  | enqueue =>
    rw [MuxSystem.stepCall]
    split
    · rw [enqueue]
      split_ifs
      · exact move rfl nofun
      · exact move rfl nofun
      · exact refl
    · exact refl
  | resume => exact wake found false
  | timeout => exact wake found true
  | cancel =>
    rw [MuxSystem.stepCall, cancel]
    split
    · exact refl
    · exact refl
    · exact move rfl nofun

/-- **Only the reader delivers.** -/
theorem step (proper : ∀ (k : Nat) call, system.calls[k]? = some call → call.Proper)
    {event : MuxEvent} (other : event ≠ .read) : Quiet system (system.step event) := by
  cases event with
  | send method path body =>
    refine ⟨.append_start method path body system.dead, .starts rfl ?_, fun _ _ => .inl, rfl, rfl⟩
    exact map_append
  | call k step =>
    rw [MuxSystem.step]
    split
    case h_1 call found => exact stepCall found (proper k call found) step
    case h_2 => exact refl
  | write | writeFails written =>
    rw [MuxSystem.step, writeRequest]
    split <;> exact of_eq rfl rfl rfl rfl rfl
  | writerClears | readerClears =>
    rw [MuxSystem.step]
    split_ifs
    · obtain ⟨calls, draws, pending, deliveries, frames⟩ := @clearPending system
      exact ⟨calls, .none rfl (requestIds_closeAll _ _), pending, deliveries, frames⟩
    · exact refl
  | read => exact absurd rfl other
  | readFails =>
    rw [MuxSystem.step]
    split_ifs <;> exact of_eq rfl rfl rfl rfl rfl
  | serverRead =>
    rw [MuxSystem.step, readRequest]
    split <;> exact of_eq rfl rfl rfl rfl rfl
  | serverStops => exact of_eq rfl rfl rfl rfl rfl
  | compute n status body => exact of_eq rfl rfl rfl rfl rfl
  | respond n | respondFails n written =>
    rw [MuxSystem.step, writeResponse]
    split <;> exact of_eq rfl rfl rfl rfl rfl
  | peerWrites bytes => exact of_eq rfl rfl rfl rfl rfl

end Quiet

section Delivery

variable {k : Nat} {call : SendCall} {response other : MuxResponse}

theorem held_deliver (found : (system.deliver response).calls[k]? = some call)
    (full : call.channel = .full other) :
    ∃ earlier, system.calls[k]? = some earlier ∧ earlier.Continues call ∧
      (earlier.channel = .full other ∨
        other = response ∧ system.pending.lookup response.requestId = some k ∧
          (system.frames, k, response) ∈ (system.deliver response).deliveries) := by
  rw [deliver] at found ⊢
  cases entry : system.pending.lookup response.requestId with
  | none =>
    rw [entry] at found
    exact ⟨call, found, call.quiet_refl.toContinues, .inl full⟩
  | some n =>
    rw [entry] at found
    dsimp only at found ⊢
    rw [List.getElem?_modify] at found
    obtain ⟨earlier, stood, rfl⟩ := Option.map_eq_some_iff.mp found
    refine ⟨earlier, stood, ?_⟩
    by_cases same : n = k
    · subst same
      rw [if_pos rfl] at full ⊢
      refine ⟨earlier.continues_receive response, ?_⟩
      rw [SendCall.receive] at full
      split_ifs at full with listening
      · right
        obtain rfl := ResponseChannel.full.inj full
        refine ⟨rfl, rfl, ?_⟩
        rw [stood, Option.any_some, if_pos listening]
        exact mem_append_right _ mem_cons_self
      · exact .inl full
    · rw [if_neg same] at full ⊢
      exact ⟨earlier.quiet_refl.toContinues, .inl full⟩

theorem continue_deliver :
    Continue SendCall.Continues system.calls (system.deliver response).calls := by
  have refl (call : SendCall) : call.Continues call := call.quiet_refl.toContinues
  rw [deliver]
  split
  · exact fun _ call found => ⟨call, found, refl call⟩
  · exact continue_modify refl fun call _ => call.continues_receive response

theorem proper_deliver (proper : ∀ (k : Nat) call, system.calls[k]? = some call → call.Proper) :
    ∀ (k : Nat) call, (system.deliver response).calls[k]? = some call → call.Proper := by
  rw [deliver]
  split
  · exact proper
  · refine forall_modify proper ?_
    intro call found
    exact (call.continues_receive response).proper (proper _ call found)

theorem deliver_frame (system : MuxSystem) (response : MuxResponse) :
    ∃ calls pending deliveries,
      system.deliver response = { system with calls, pending, deliveries } := by
  rw [deliver]
  split
  · exact ⟨_, _, _, rfl⟩
  · exact ⟨_, _, _, rfl⟩

/-- The reader does not touch the stream to the server, nor the server. -/
theorem readResponse_frame (system : MuxSystem) :
    ∃ calls pending deliveries reader dead toClient frames,
      system.readResponse =
        { system with calls, pending, deliveries, reader, dead, toClient, frames } := by
  rw [readResponse]
  split
  · exact ⟨_, _, _, _, _, _, _, rfl⟩
  · rw [receiveFrame]
    cases MuxResponse.fromSlice _ with
    | none => exact ⟨_, _, _, _, _, _, _, rfl⟩
    | some response =>
      obtain ⟨calls, pending, deliveries, same⟩ := system.deliver_frame response
      rw [Option.elim_some, same]
      exact ⟨_, _, _, _, _, _, _, rfl⟩
  · exact ⟨_, _, _, _, _, _, _, rfl⟩

end Delivery

/-! ## Routing by id -/

/-- The table of pending calls, the channels and the deliveries agree on who waits for which
id. -/
structure Routes (system : MuxSystem) : Prop where
  proper : ∀ (k : Nat) call, system.calls[k]? = some call → call.Proper
  registered : ∀ requestId k, system.pending.lookup requestId = some k →
    ∃ call, system.calls[k]? = some call ∧ call.requestId = some requestId
  held : ∀ (k : Nat) call response, system.calls[k]? = some call →
    call.channel = .full response → call.requestId = some response.requestId ∧
      ∃ frame, (frame, k, response) ∈ system.deliveries
  once : (system.deliveries.map Prod.fst).Nodup
  past : ∀ delivery ∈ system.deliveries, delivery.1 < system.frames

namespace Routes

theorem quiet (routes : system.Routes) (change : Quiet system after) : after.Routes where
  proper := change.calls.proper routes.proper
  registered := by
    intro requestId k entry
    obtain ⟨call, found, drawn⟩ :=
      (change.pending requestId k entry).elim (routes.registered requestId k) id
    obtain ⟨later, stands, quiet⟩ := change.calls.kept k call found
    exact ⟨later, stands, quiet.requestId requestId drawn⟩
  held := by
    intro k call response found full
    obtain ⟨earlier, stood, held, continues⟩ := change.calls.earlier found full
    obtain ⟨own, delivered⟩ := routes.held k earlier response stood held
    rw [change.deliveries]
    exact ⟨continues.requestId _ own, delivered⟩
  once := by
    rw [change.deliveries]
    exact routes.once
  past := by
    rw [change.deliveries, change.frames]
    exact routes.past

theorem deliveries_deliver (response : MuxResponse) :
    (system.deliver response).deliveries = system.deliveries ∨
      ∃ k, (system.deliver response).deliveries =
        system.deliveries ++ [(system.frames, k, response)] := by
  rw [deliver]
  split
  case h_1 => exact .inl rfl
  case h_2 k _ =>
    dsimp only
    split_ifs
    · exact .inr ⟨k, rfl⟩
    · exact .inl rfl

theorem mem_deliver {response : MuxResponse} {delivery : Nat × Nat × MuxResponse}
    (member : delivery ∈ system.deliveries) :
    delivery ∈ (system.deliver response).deliveries := by
  obtain same | ⟨k, added⟩ := deliveries_deliver response
  · rwa [same]
  · rw [added]
    exact mem_append_left _ member

theorem lookup_of_deliver {response : MuxResponse} {requestId : UInt64} {k : Nat}
    (entry : (system.deliver response).pending.lookup requestId = some k) :
    system.pending.lookup requestId = some k := by
  rw [deliver] at entry
  split at entry
  · exact entry
  · by_cases same : requestId = response.requestId
    · rw [same, AList.lookup_erase] at entry
      cases entry
    · rwa [AList.lookup_erase_ne same] at entry

theorem receiveFrame (routes : system.Routes) (payload rest : List UInt8) :
    (system.receiveFrame payload rest).Routes := by
  have later : ∀ delivery ∈ system.deliveries, delivery.1 < system.frames + 1 :=
    fun delivery member => Nat.lt_succ_of_lt (routes.past delivery member)
  rw [MuxSystem.receiveFrame]
  cases MuxResponse.fromSlice payload with
  | none => exact ⟨routes.proper, routes.registered, routes.held, routes.once, later⟩
  | some response =>
    refine ⟨proper_deliver routes.proper, ?_, ?_, ?_, ?_⟩
    · intro requestId k entry
      obtain ⟨call, found, drawn⟩ := routes.registered _ _ (lookup_of_deliver entry)
      obtain ⟨next, stands, continues⟩ := continue_deliver k call found
      exact ⟨next, stands, continues.requestId _ drawn⟩
    · intro k call other found full
      obtain ⟨earlier, stood, continues, held | ⟨rfl, entry, delivered⟩⟩ :=
        held_deliver found full
      · obtain ⟨own, frame, delivered⟩ := routes.held k earlier other stood held
        exact ⟨continues.requestId _ own, frame, mem_deliver delivered⟩
      · obtain ⟨same, present, drawn⟩ := routes.registered _ _ entry
        obtain rfl := Option.some.inj (stood.symm.trans present)
        exact ⟨continues.requestId _ drawn, _, delivered⟩
    · obtain same | ⟨k, added⟩ := deliveries_deliver response
      · change ((system.deliver response).deliveries.map Prod.fst).Nodup
        rw [same]
        exact routes.once
      · change ((system.deliver response).deliveries.map Prod.fst).Nodup
        rw [added, map_append]
        refine nodup_append.mpr ⟨routes.once, nodup_singleton _, ?_⟩
        intro frame member other last same
        obtain ⟨delivery, delivered, rfl⟩ := mem_map.mp member
        rw [mem_singleton.mp last] at same
        exact absurd same (Nat.ne_of_lt (routes.past delivery delivered))
    · change ∀ delivery ∈ (system.deliver response).deliveries, delivery.1 < system.frames + 1
      obtain same | ⟨k, added⟩ := deliveries_deliver response
      · rwa [same]
      · rw [added]
        exact forall_mem_append.mpr
          ⟨later, forall_mem_singleton.mpr (Nat.lt_succ_self _)⟩

end Routes

theorem Routes.step (routes : system.Routes) (event : MuxEvent) : (system.step event).Routes := by
  by_cases other : event = .read
  · subst other
    rw [MuxSystem.step, readResponse]
    split
    · exact ⟨routes.proper, routes.registered, routes.held, routes.once, routes.past⟩
    · exact routes.receiveFrame _ _
    · exact routes
  · exact routes.quiet (.step routes.proper other)

theorem continue_step (routes : system.Routes) (event : MuxEvent) :
    Continue SendCall.Continues system.calls (system.step event).calls := by
  have refl : Continue SendCall.Continues system.calls system.calls :=
    fun _ call found => ⟨call, found, call.quiet_refl.toContinues⟩
  by_cases other : event = .read
  · subst other
    rw [MuxSystem.step, readResponse]
    split
    · exact refl
    · rw [receiveFrame]
      cases MuxResponse.fromSlice _ with
      | none => exact refl
      | some response => exact continue_deliver
    · exact refl
  · intro k call found
    obtain ⟨later, stands, quiet⟩ := (Quiet.step routes.proper other).calls.kept k call found
    exact ⟨later, stands, quiet.toContinues⟩

/-- Every response that a call returns has the id of the request of that call. -/
def OwnResponse (system : MuxSystem) : Prop :=
  ∀ (k : Nat) call response, system.calls[k]? = some call →
    call.phase = .returned (.ok response) → call.requestId = some response.requestId

def DeliveredOnce (system : MuxSystem) : Prop :=
  (system.deliveries.map Prod.fst).Nodup ∧
    ∀ (k : Nat) call response, system.calls[k]? = some call →
      call.phase = .returned (.ok response) → ∃ frame, (frame, k, response) ∈ system.deliveries

theorem Routes.ownResponse (routes : system.Routes) : system.OwnResponse := by
  intro k call response found returned
  have full := (routes.proper k call found).received response returned
  exact (routes.held k call response found full).1

theorem Routes.deliveredOnce (routes : system.Routes) : system.DeliveredOnce := by
  refine ⟨routes.once, ?_⟩
  intro k call response found returned
  have full := (routes.proper k call found).received response returned
  exact (routes.held k call response found full).2

theorem routes_connected : connected.Routes :=
  ⟨nofun, nofun, nofun, nodup_nil, nofun⟩

theorem routes_run (events : List MuxEvent) : (run events).Routes :=
  (run_foldl step connected events).invariant
    (fun _ event _ routes taken => taken ▸ routes.step event) routes_connected

/-! ## Distinct ids -/

/-- The ids are numbered in the order in which they are drawn. -/
structure Numbered (nextId : UInt64) (ids : List (Option UInt64)) : Prop where
  counter : nextId = UInt64.ofNat (ids.countP Option.isSome + 1)
  bounded : ∀ requestId, some requestId ∈ ids → requestId.toNat ≤ ids.countP Option.isSome
  distinct : ∀ (k m : Nat) requestId, ids[k]? = some (some requestId) →
    ids[m]? = some (some requestId) → k = m

namespace Numbered

variable {nextId : UInt64} {ids : List (Option UInt64)}

theorem append_none (numbered : Numbered nextId ids) : Numbered nextId (ids ++ [none]) := by
  have count : (ids ++ [none]).countP Option.isSome = ids.countP Option.isSome := by
    rw [countP_append]
    rfl
  have old (k : Nat) (requestId : UInt64) (found : (ids ++ [none])[k]? = some (some requestId)) :
      ids[k]? = some (some requestId) := by
    rw [List.getElem?_append] at found
    split_ifs at found
    · exact found
    · cases mem_singleton.mp (mem_of_getElem? found)
  refine ⟨?_, ?_, ?_⟩
  · rw [count]
    exact numbered.counter
  · intro requestId member
    rw [count]
    obtain earlier | last := mem_append.mp member
    · exact numbered.bounded requestId earlier
    · cases mem_singleton.mp last
  · intro k m requestId first second
    exact numbered.distinct k m requestId (old k requestId first) (old m requestId second)

/-- As long as fewer than `2 ^ 64` calls are made, the counter does not wrap around. -/
theorem draw (numbered : Numbered nextId ids) {k : Nat} (undrawn : ids[k]? = some none)
    (few : ids.length < 2 ^ 64) : Numbered (nextId + 1) (ids.set k (some nextId)) := by
  obtain ⟨inside, none⟩ := List.getElem?_eq_some_iff.mp undrawn
  have count : (ids.set k (some nextId)).countP Option.isSome =
      ids.countP Option.isSome + 1 := by
    rw [countP_set inside, none]
    rfl
  have fits : ids.countP Option.isSome + 1 ≤ ids.length := by
    have bound := @countP_le_length _ Option.isSome (ids.set k (some nextId))
    rwa [count, length_set] at bound
  have number : nextId.toNat = ids.countP Option.isSome + 1 := by
    rw [numbered.counter, UInt64.toNat_ofNat', Nat.mod_eq_of_lt (by omega)]
  have fresh : some nextId ∉ ids := by
    intro member
    have bound := numbered.bounded nextId member
    omega
  have place (n : Nat) (requestId : UInt64)
      (found : (ids.set k (some nextId))[n]? = some (some requestId)) :
      k = n ∧ requestId = nextId ∨ ids[n]? = some (some requestId) := by
    rw [List.getElem?_set] at found
    split_ifs at found with same
    · exact .inl ⟨same, (Option.some.inj (Option.some.inj found)).symm⟩
    · exact .inr found
  refine ⟨?_, ?_, ?_⟩
  · rw [count, UInt64.ofNat_add, ← numbered.counter]
    rfl
  · intro requestId member
    rw [count]
    obtain earlier | same := mem_or_eq_of_mem_set member
    · exact Nat.le_succ_of_le (numbered.bounded requestId earlier)
    · obtain rfl := Option.some.inj same
      exact number.le
  · intro n m requestId first second
    rcases place n requestId first with ⟨here, rfl⟩ | former
    · rcases place m _ second with ⟨there, _⟩ | latter
      · exact here.symm.trans there
      · exact absurd (mem_of_getElem? latter) fresh
    · rcases place m _ second with ⟨_, rfl⟩ | latter
      · exact absurd (mem_of_getElem? former) fresh
      · exact numbered.distinct n m requestId former latter

end Numbered

theorem Draws.numbered (draws : Draws system after)
    (numbered : Numbered system.nextId (requestIds system.calls))
    (few : after.calls.length < 2 ^ 64) : Numbered after.nextId (requestIds after.calls) := by
  cases draws with
  | none counter ids =>
    rw [counter, ids]
    exact numbered
  | starts counter ids =>
    rw [counter, ids]
    exact numbered.append_none
  | draws k undrawn counter ids =>
    rw [counter, ids]
    apply numbered.draw undrawn
    have length := congrArg List.length ids
    rw [length_set, requestIds, length_map] at length
    rwa [← length]

theorem draws_step (routes : system.Routes) (event : MuxEvent) :
    Draws system (system.step event) := by
  by_cases other : event = .read
  · subst other
    rw [MuxSystem.step, readResponse]
    split
    · exact .none rfl rfl
    · rw [receiveFrame]
      cases MuxResponse.fromSlice _ with
      | none => exact .none rfl rfl
      | some response =>
        refine .none ?_ (requestIds_deliver system response)
        obtain ⟨_, _, _, same⟩ := system.deliver_frame response
        rw [Option.elim_some, same]
    · exact .none rfl rfl
  · exact (Quiet.step routes.proper other).draws

end MuxSystem

end KwaaiNet
