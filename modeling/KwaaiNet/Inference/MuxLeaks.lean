import Mathlib
import KwaaiNet.Inference.MuxRouting

/-! # Entries of the table of pending calls

A call of `send` enters its sender into the table of pending calls early and never takes it out:
the reader does when the response arrives, and the tasks of the client do when they end. A call that
ends for another reason (its timer, a queue that is closed, a caller who drops it) leaves its entry
behind. `KwaaiNet.MuxSystem.leakFree_iff` says that these are the only leaks: a run has none exactly
if no call ends while its channel is still empty.
-/

namespace KwaaiNet

open Foundation List

namespace SendPhase

def awaiting : SendPhase → Bool
  | .registered | .waiting => true
  | .checked | .drawn | .returned _ | .cancelled => false

def ended : SendPhase → Bool
  | .returned _ | .cancelled => true
  | .checked | .drawn | .registered | .waiting => false

theorem not_ended_of_awaiting {phase : SendPhase} (awaiting : phase.awaiting) : ¬ phase.ended := by
  cases phase with
  | registered | waiting => exact nofun
  | checked | drawn | returned | cancelled => cases awaiting

theorem not_early_of_awaiting {phase : SendPhase} (awaiting : phase.awaiting) :
    ¬ (phase = .checked ∨ phase = .drawn) := by
  rintro (rfl | rfl) <;> cases awaiting

end SendPhase

namespace MuxSystem

variable (system : MuxSystem)

/-- **No leak**: the table has no entry for the id of a call that has ended. -/
def LeakFree : Prop :=
  ∀ (k : Nat) call requestId, system.calls[k]? = some call → call.phase.ended →
    call.requestId = some requestId → system.pending.lookup requestId = none

/-- The step does not end a call whose channel is still empty, after its sender was entered into
the table: the timer does not wake it, the queue is not closed when it enqueues its request, and
its caller does not drop it. -/
def Tidy : MuxEvent → Prop
  | .call k .timeout => ∀ call, system.calls[k]? = some call → call.phase = .waiting →
      call.channel ≠ .empty
  | .call k .enqueue => ∀ call, system.calls[k]? = some call → call.phase = .registered →
      system.writer = .done → call.channel ≠ .empty
  | .call k .cancel => ∀ call, system.calls[k]? = some call → call.phase.awaiting →
      call.channel ≠ .empty
  | _ => True

/-- The table and the channels agree: the entries are those of the calls that await a response with
an empty channel. -/
structure Matched : Prop where
  unused : ∀ (k : Nat) call, system.calls[k]? = some call →
    call.phase = .checked ∨ call.phase = .drawn → call.channel = .empty
  entry : ∀ requestId k, system.pending.lookup requestId = some k →
    ∃ call, system.calls[k]? = some call ∧ call.requestId = some requestId ∧
      call.phase.awaiting ∧ call.channel = .empty
  awaited : ∀ (k : Nat) call, system.calls[k]? = some call → call.phase.awaiting →
    ∃ requestId, call.requestId = some requestId ∧
      (call.channel = .empty → system.pending.lookup requestId = some k)

end MuxSystem

/-! ## Changes of one call -/

namespace SendCall

variable (call : SendCall)

@[simp] theorem phase_close : call.close.phase = call.phase := by
  rw [close]
  split <;> rfl

@[simp] theorem requestId_close : call.close.requestId = call.requestId := by
  rw [close]
  split <;> rfl

@[simp] theorem close_close : call.close.close = call.close := by
  rcases call with ⟨method, path, body, requestId, phase, _ | response | _⟩ <;> rfl

theorem channel_close_ne_empty : call.close.channel ≠ .empty := by
  rcases call with ⟨method, path, body, requestId, phase, _ | response | _⟩ <;> exact nofun

end SendCall

namespace MuxSystem

variable {system after : MuxSystem}

theorem getElem?_closeAll (calls : List SendCall) (numbers : List Nat) (k : Nat) :
    (closeAll calls numbers)[k]? =
      calls[k]?.map fun call => if k ∈ numbers then call.close else call := by
  induction numbers generalizing calls with
  | nil =>
    simp only [closeAll, foldl_nil, not_mem_nil, if_false]
    exact Option.map_id'.symm
  | cons first numbers ih =>
    change (closeAll (calls.modify first SendCall.close) numbers)[k]? = _
    rw [ih, List.getElem?_modify, Option.map_eq_map, Option.map_map]
    congr 1
    funext call
    by_cases same : first = k
    · by_cases member : k ∈ numbers <;> simp [same, member]
    · by_cases member : k ∈ numbers <;> simp [same, Ne.symm same, member]

theorem closeAll_move (phase : SendPhase) (calls : List SendCall) (k : Nat) (numbers : List Nat) :
    closeAll (move phase calls k) numbers = move phase (closeAll calls numbers) k := by
  have commutes (call : SendCall) : { call with phase }.close = { call.close with phase } := by
    rcases call with ⟨method, path, body, requestId, _, _ | response | _⟩ <;> rfl
  refine ext_getElem? fun m => ?_
  rw [move, move, getElem?_closeAll, List.getElem?_modify, List.getElem?_modify, getElem?_closeAll]
  cases calls[m]? with
  | none => rfl
  | some call =>
    by_cases same : k = m
    · by_cases dropped : m ∈ numbers <;> simp [same, dropped, commutes]
    · by_cases dropped : m ∈ numbers <;> simp [same, dropped]

/-! ## The table and the channels -/

theorem matched_connected : connected.Matched := ⟨nofun, nofun, nofun⟩

namespace Matched

/-- Steps of the tasks and of the server. -/
theorem of_eq (matched : system.Matched) (calls : after.calls = system.calls)
    (pending : after.pending = system.pending) : after.Matched := by
  obtain ⟨unused, entry, awaited⟩ := matched
  rw [← calls] at unused
  rw [← calls, ← pending] at entry awaited
  exact ⟨unused, entry, awaited⟩

theorem send (matched : system.Matched) (method path : String) (body : List UInt8) :
    { system with
      calls := system.calls ++ [.start method path body system.dead] : MuxSystem }.Matched := by
  have added (k : Nat) (call : SendCall)
      (found : (system.calls ++ [SendCall.start method path body system.dead])[k]? = some call) :
      system.calls[k]? = some call ∨ call = .start method path body system.dead := by
    rw [List.getElem?_append] at found
    split_ifs at found
    · exact .inl found
    · exact .inr (mem_singleton.mp (mem_of_getElem? found))
  refine ⟨?_, ?_, ?_⟩
  · intro k call found early
    rcases added k call found with stood | rfl
    · exact matched.unused k call stood early
    · rfl
  · intro requestId k held
    obtain ⟨call, found, rest⟩ := matched.entry requestId k held
    refine ⟨call, ?_, rest⟩
    dsimp only
    rw [List.getElem?_append_left (List.getElem?_eq_some_iff.mp found).1, found]
  · intro k call found awaiting
    rcases added k call found with stood | rfl
    · exact matched.awaited k call stood awaiting
    · have early (dead : Bool) : (SendCall.start method path body dead).phase.awaiting = false := by
        cases dead <;> rfl
      rw [early] at awaiting
      cases awaiting

variable {k : Nat} {call : SendCall}

theorem modify_of_not_awaiting (matched : system.Matched) {change : SendCall → SendCall}
    {queue : List (List UInt8)} {nextId : UInt64} (found : system.calls[k]? = some call)
    (unheld : call.phase.awaiting → call.channel ≠ .empty)
    (still : (change call).phase.awaiting = false)
    (unused : (change call).phase = .checked ∨ (change call).phase = .drawn →
      (change call).channel = .empty) :
    { system with calls := system.calls.modify k change, queue, nextId : MuxSystem }.Matched := by
  have others := getElem?_modify_of_found found change
  refine ⟨?_, ?_, ?_⟩
  · intro m other present early
    dsimp only at present
    rw [others] at present
    split_ifs at present
    · obtain rfl := Option.some.inj present
      exact unused early
    · exact matched.unused m other present early
  · intro requestId m held
    obtain ⟨other, present, own, awaiting, empty⟩ := matched.entry requestId m held
    refine ⟨other, ?_, own, awaiting, empty⟩
    dsimp only
    rw [others, if_neg, present]
    rintro rfl
    obtain rfl := Option.some.inj (found.symm.trans present)
    exact unheld awaiting empty
  · intro m other present awaiting
    dsimp only at present
    rw [others] at present
    split_ifs at present
    · obtain rfl := Option.some.inj present
      rw [still] at awaiting
      cases awaiting
    · exact matched.awaited m other present awaiting

theorem move_waiting (matched : system.Matched) {queue : List (List UInt8)}
    (found : system.calls[k]? = some call) (registered : call.phase = .registered) :
    { system with calls := move .waiting system.calls k, queue : MuxSystem }.Matched := by
  have others (m : Nat) : (move .waiting system.calls k)[m]? =
      if k = m then some { call with phase := .waiting } else system.calls[m]? :=
    getElem?_modify_of_found found _ m
  refine ⟨?_, ?_, ?_⟩
  · intro m other present early
    dsimp only at present
    rw [others] at present
    split_ifs at present
    · obtain rfl := Option.some.inj present
      exact absurd early (SendPhase.not_early_of_awaiting rfl)
    · exact matched.unused m other present early
  · intro requestId m held
    obtain ⟨other, present, own, awaiting, empty⟩ := matched.entry requestId m held
    dsimp only
    rw [others]
    split_ifs with same
    · subst same
      obtain rfl := Option.some.inj (found.symm.trans present)
      exact ⟨_, rfl, own, rfl, empty⟩
    · exact ⟨other, present, own, awaiting, empty⟩
  · intro m other present awaiting
    dsimp only at present
    rw [others] at present
    split_ifs at present with same
    · subst same
      obtain rfl := Option.some.inj present
      exact matched.awaited k call found (by rw [registered]; rfl)
    · exact matched.awaited m other present awaiting

theorem drop (matched : system.Matched) {numbers : List Nat}
    {pending : AList fun _ : UInt64 => Nat}
    (held : ∀ m ∈ numbers, ∃ requestId, system.pending.lookup requestId = some m)
    (stays : ∀ requestId m, pending.lookup requestId = some m ↔
      system.pending.lookup requestId = some m ∧ m ∉ numbers) :
    { system with calls := closeAll system.calls numbers, pending : MuxSystem }.Matched := by
  refine ⟨?_, ?_, ?_⟩
  · intro m other present early
    dsimp only at present
    rw [getElem?_closeAll] at present
    obtain ⟨earlier, stood, rfl⟩ := Option.map_eq_some_iff.mp present
    by_cases dropped : m ∈ numbers
    · rw [if_pos dropped, SendCall.phase_close] at early
      obtain ⟨requestId, entered⟩ := held m dropped
      obtain ⟨_, found, _, awaiting, _⟩ := matched.entry requestId m entered
      obtain rfl := Option.some.inj (stood.symm.trans found)
      exact absurd early (SendPhase.not_early_of_awaiting awaiting)
    · rw [if_neg dropped] at early ⊢
      exact matched.unused m earlier stood early
  · intro requestId m entered
    obtain ⟨before, kept⟩ := (stays requestId m).mp entered
    obtain ⟨waiter, present, rest⟩ := matched.entry requestId m before
    refine ⟨waiter, ?_, rest⟩
    dsimp only
    rw [getElem?_closeAll, present, Option.map_some, if_neg kept]
  · intro m other present awaiting
    dsimp only at present
    rw [getElem?_closeAll] at present
    obtain ⟨earlier, stood, rfl⟩ := Option.map_eq_some_iff.mp present
    by_cases dropped : m ∈ numbers
    · rw [if_pos dropped, SendCall.phase_close] at awaiting
      obtain ⟨requestId, own, _⟩ := matched.awaited m earlier stood awaiting
      rw [if_pos dropped, SendCall.requestId_close]
      exact ⟨requestId, own, fun empty => absurd empty earlier.channel_close_ne_empty⟩
    · rw [if_neg dropped] at awaiting ⊢
      obtain ⟨requestId, own, entered⟩ := matched.awaited m earlier stood awaiting
      exact ⟨requestId, own, fun empty => (stays requestId m).mpr ⟨entered empty, dropped⟩⟩

theorem clearPending (matched : system.Matched) : system.clearPending.Matched := by
  refine matched.drop ?_ ?_
  · intro m dropped
    obtain ⟨row, member, rfl⟩ := mem_map.mp dropped
    exact ⟨row.1, AList.mem_lookup_iff.mpr member⟩
  · intro requestId m
    refine iff_of_false ?_ fun kept => kept.2 ?_
    · rw [AList.lookup_empty]
      exact Option.some_ne_none m ∘ Eq.symm
    · exact mem_map.mpr ⟨⟨requestId, m⟩, AList.mem_lookup_iff.mp kept.1, rfl⟩

theorem replace (matched : system.Matched) (requestId : UInt64) :
    { system with
      calls := closeAll system.calls (system.pending.lookup requestId).toList
      pending := system.pending.erase requestId : MuxSystem }.Matched := by
  refine matched.drop (fun m dropped => ⟨requestId, Option.mem_toList.mp dropped⟩) ?_
  intro other m
  rw [Option.mem_toList]
  by_cases same : other = requestId
  · subst same
    rw [AList.lookup_erase]
    exact iff_of_false (Option.some_ne_none m ∘ Eq.symm) fun kept => kept.2 kept.1
  · rw [AList.lookup_erase_ne same]
    refine ⟨fun entered => ⟨entered, fun replaced => same ?_⟩, And.left⟩
    obtain ⟨call, found, own, _⟩ := matched.entry other m entered
    obtain ⟨again, present, also, _⟩ := matched.entry requestId m replaced
    obtain rfl := Option.some.inj (found.symm.trans present)
    exact Option.some.inj (own.symm.trans also)

theorem enter (matched : system.Matched) {requestId : UInt64}
    (found : system.calls[k]? = some call) (drawn : call.phase = .drawn)
    (own : call.requestId = some requestId) (fresh : system.pending.lookup requestId = none) :
    { system with
      calls := move .registered system.calls k
      pending := system.pending.insert requestId k : MuxSystem }.Matched := by
  have others (m : Nat) : (move .registered system.calls k)[m]? =
      if k = m then some { call with phase := .registered } else system.calls[m]? :=
    getElem?_modify_of_found found _ m
  refine ⟨?_, ?_, ?_⟩
  · intro m other present early
    dsimp only at present
    rw [others] at present
    split_ifs at present
    · obtain rfl := Option.some.inj present
      exact absurd early (SendPhase.not_early_of_awaiting rfl)
    · exact matched.unused m other present early
  · intro other m held
    dsimp only at held ⊢
    by_cases same : other = requestId
    · subst same
      rw [AList.lookup_insert] at held
      obtain rfl := Option.some.inj held
      refine ⟨{ call with phase := .registered }, by rw [others, if_pos rfl], own, rfl, ?_⟩
      exact matched.unused k call found (.inr drawn)
    · rw [AList.lookup_insert_ne same] at held
      obtain ⟨waiter, present, named, awaiting, empty⟩ := matched.entry other m held
      refine ⟨waiter, ?_, named, awaiting, empty⟩
      rw [others, if_neg, present]
      rintro rfl
      obtain rfl := Option.some.inj (found.symm.trans present)
      exact SendPhase.not_early_of_awaiting awaiting (.inr drawn)
  · intro m other present awaiting
    dsimp only at present ⊢
    rw [others] at present
    split_ifs at present with same
    · obtain rfl := Option.some.inj present
      exact ⟨requestId, own, fun _ => same ▸ AList.lookup_insert _⟩
    · obtain ⟨named, drawnId, held⟩ := matched.awaited m other present awaiting
      refine ⟨named, drawnId, fun empty => ?_⟩
      rw [AList.lookup_insert_ne, held empty]
      rintro rfl
      rw [held empty] at fresh
      cases fresh

theorem register (matched : system.Matched) {requestId : UInt64}
    (found : system.calls[k]? = some call) (drawn : call.phase = .drawn)
    (own : call.requestId = some requestId) : (system.register k requestId).Matched := by
  have unentered : k ∉ (system.pending.lookup requestId).toList := by
    intro member
    obtain ⟨other, present, _, awaiting, _⟩ :=
      matched.entry requestId k (Option.mem_toList.mp member)
    obtain rfl := Option.some.inj (found.symm.trans present)
    exact SendPhase.not_early_of_awaiting awaiting (.inr drawn)
  have stays : (closeAll system.calls (system.pending.lookup requestId).toList)[k]? =
      some call := by
    rw [getElem?_closeAll, found, Option.map_some, if_neg unentered]
  refine ((matched.replace requestId).enter stays drawn own (AList.lookup_erase _ _)).of_eq ?_ ?_
  · exact closeAll_move _ _ _ _
  · have erased : requestId ∉ system.pending.erase requestId := fun held =>
      (AList.mem_erase.mp held).1 rfl
    apply AList.ext
    dsimp only [MuxSystem.register]
    rw [AList.entries_insert, AList.entries_insert_of_notMem erased]
    rfl

theorem deliver (matched : system.Matched) (response : MuxResponse) :
    (system.deliver response).Matched := by
  rw [MuxSystem.deliver]
  cases held : system.pending.lookup response.requestId with
  | none => exact matched
  | some k =>
    obtain ⟨call, found, own, awaiting, _⟩ := matched.entry _ k held
    have listening : call.listening = true := by
      rw [SendCall.listening]
      cases phase : call.phase <;> rw [phase] at awaiting <;> first | rfl | cases awaiting
    have received : call.receive response = { call with channel := .full response } :=
      if_pos listening
    have others (m : Nat) : (system.calls.modify k fun call => call.receive response)[m]? =
        if k = m then some { call with channel := .full response } else system.calls[m]? := by
      rw [getElem?_modify_of_found found, received]
    refine ⟨?_, ?_, ?_⟩
    · intro m other present early
      dsimp only at present
      rw [others] at present
      split_ifs at present
      · obtain rfl := Option.some.inj present
        exact absurd early (SendPhase.not_early_of_awaiting awaiting)
      · exact matched.unused m other present early
    · intro requestId m stays
      dsimp only at stays ⊢
      have different : requestId ≠ response.requestId := by
        rintro rfl
        rw [AList.lookup_erase] at stays
        cases stays
      rw [AList.lookup_erase_ne different] at stays
      obtain ⟨waiter, present, named, waits, empty⟩ := matched.entry requestId m stays
      refine ⟨waiter, ?_, named, waits, empty⟩
      rw [others, if_neg, present]
      rintro rfl
      obtain rfl := Option.some.inj (found.symm.trans present)
      exact different (Option.some.inj (named.symm.trans own))
    · intro m other present waits
      dsimp only at present ⊢
      rw [others] at present
      split_ifs at present with same
      · obtain rfl := Option.some.inj present
        refine ⟨_, own, fun empty => ?_⟩
        cases empty
      · obtain ⟨named, drawnId, stays⟩ := matched.awaited m other present waits
        refine ⟨named, drawnId, fun empty => ?_⟩
        rw [AList.lookup_erase_ne, stays empty]
        rintro rfl
        exact same (Option.some.inj (held.symm.trans (stays empty)))

theorem wake (matched : system.Matched) (found : system.calls[k]? = some call) {timer : Bool}
    (tidy : call.phase = .waiting → timer = true → call.channel ≠ .empty) :
    (system.wake k call timer).Matched := by
  rw [MuxSystem.wake]
  split
  case h_1 result waiting woken =>
    refine matched.modify_of_not_awaiting found (fun _ => ?_) rfl ?_
    · cases timer with
      | true => exact tidy waiting rfl
      | false =>
        intro empty
        rw [empty] at woken
        cases woken
    · rintro (early | early) <;> cases early
  case h_2 => exact matched

theorem stepCall (matched : system.Matched) (found : system.calls[k]? = some call)
    (step : CallStep) (tidy : system.Tidy (.call k step)) :
    (system.stepCall k call step).Matched := by
  cases step with
  | draw =>
    rw [MuxSystem.stepCall]
    split
    case h_1 checked =>
      refine matched.modify_of_not_awaiting found (fun awaiting => ?_) rfl fun _ => ?_
      · rw [checked] at awaiting
        cases awaiting
      · exact matched.unused k call found (.inl checked)
    case h_2 => exact matched
  | register =>
    rw [MuxSystem.stepCall]
    split
    case h_1 drawn own => exact matched.register found drawn own
    case h_2 => exact matched
  | enqueue =>
    rw [MuxSystem.stepCall]
    split
    case h_1 registered own =>
      rw [enqueue]
      split_ifs with closed
      · refine matched.modify_of_not_awaiting found (fun _ => ?_) rfl ?_
        · exact tidy call found registered closed
        · rintro (early | early) <;> cases early
      · exact matched.move_waiting found registered
      · exact matched
    case h_2 => exact matched
  | resume => exact matched.wake found fun _ timed => absurd timed Bool.false_ne_true
  | timeout => exact matched.wake found fun waiting _ => tidy call found waiting
  | cancel =>
    rw [MuxSystem.stepCall, cancel]
    split
    · exact matched
    · exact matched
    · refine matched.modify_of_not_awaiting found (tidy call found) rfl ?_
      rintro (early | early) <;> cases early

theorem step (matched : system.Matched) (event : MuxEvent) (tidy : system.Tidy event) :
    (system.step event).Matched := by
  cases event with
  | send method path body => exact matched.send method path body
  | call k step =>
    rw [MuxSystem.step]
    split
    case h_1 call found => exact matched.stepCall found step tidy
    case h_2 => exact matched
  | write | writeFails written =>
    rw [MuxSystem.step, writeRequest]
    split
    · exact matched.of_eq rfl rfl
    · exact matched
  | writerClears | readerClears =>
    rw [MuxSystem.step]
    split_ifs
    · exact matched.clearPending.of_eq rfl rfl
    · exact matched
  | read =>
    rw [MuxSystem.step, readResponse]
    split
    · exact matched.of_eq rfl rfl
    · rw [receiveFrame]
      cases MuxResponse.fromSlice _ with
      | none => exact matched.of_eq rfl rfl
      | some response => exact (matched.deliver response).of_eq rfl rfl
    · exact matched
  | readFails =>
    rw [MuxSystem.step]
    split_ifs
    · exact matched.of_eq rfl rfl
    · exact matched
  | serverRead =>
    rw [MuxSystem.step, readRequest]
    split
    · exact matched.of_eq rfl rfl
    · exact matched.of_eq rfl rfl
    · exact matched
  | serverStops => exact matched.of_eq rfl rfl
  | compute n status body => exact matched.of_eq rfl rfl
  | respond n | respondFails n written =>
    rw [MuxSystem.step, writeResponse]
    split
    · exact matched.of_eq rfl rfl
    · exact matched
  | peerWrites bytes => exact matched.of_eq rfl rfl

theorem leakFree (matched : system.Matched)
    (numbered : Numbered system.nextId (requestIds system.calls)) : system.LeakFree := by
  intro k call requestId found ended own
  by_contra stays
  obtain ⟨m, held⟩ := Option.ne_none_iff_exists'.mp stays
  obtain ⟨other, present, named, awaiting, _⟩ := matched.entry requestId m held
  have same : k = m := by
    apply numbered.distinct k m requestId
    · rw [requestIds, List.getElem?_map, found, Option.map_some, own]
    · rw [requestIds, List.getElem?_map, present, Option.map_some, named]
  subst same
  obtain rfl := Option.some.inj (found.symm.trans present)
  exact SendPhase.not_ended_of_awaiting awaiting ended

theorem leaks (matched : system.Matched) (found : system.calls[k]? = some call)
    (awaiting : call.phase.awaiting) (empty : call.channel = .empty) {phase : SendPhase}
    (ended : phase.ended) :
    ¬ { system with calls := MuxSystem.move phase system.calls k : MuxSystem }.LeakFree := by
  obtain ⟨requestId, own, held⟩ := matched.awaited k call found awaiting
  intro free
  have moved : (MuxSystem.move phase system.calls k)[k]? = some { call with phase } := by
    rw [MuxSystem.move, getElem?_modify_of_found found, if_pos rfl]
  have absent := free k { call with phase } requestId moved ended own
  rw [held empty] at absent
  cases absent

theorem tidy_of_leakFree (matched : system.Matched) {event : MuxEvent}
    (free : (system.step event).LeakFree) : system.Tidy event := by
  cases event with
  | call k step =>
    cases step with
    | draw | register | resume => trivial
    | timeout =>
      intro call found waiting empty
      simp only [MuxSystem.step, found, MuxSystem.stepCall, MuxSystem.wake, waiting, empty,
        ResponseChannel.wake, if_true] at free
      exact matched.leaks found (by rw [waiting]; rfl) empty rfl free
    | enqueue =>
      intro call found registered closed empty
      obtain ⟨requestId, own, _⟩ :=
        matched.awaited k call found (by rw [registered]; rfl)
      simp only [MuxSystem.step, found, MuxSystem.stepCall, registered, own,
        MuxSystem.enqueue, if_pos closed] at free
      exact matched.leaks found (by rw [registered]; rfl) empty rfl free
    | cancel =>
      intro call found awaiting empty
      have dropped : system.cancel k call =
          { system with calls := MuxSystem.move .cancelled system.calls k } := by
        rw [MuxSystem.cancel]
        split
        case h_1 returned =>
          rw [returned] at awaiting
          cases awaiting
        case h_2 cancelled =>
          rw [cancelled] at awaiting
          cases awaiting
        case h_3 => rfl
      simp only [MuxSystem.step, found, MuxSystem.stepCall, dropped] at free
      exact matched.leaks found awaiting empty rfl free
  | send | write | writeFails | writerClears | read | readFails | readerClears | serverRead
  | serverStops | compute | respond | respondFails | peerWrites => trivial

end Matched

/-- As long as fewer than `2 ^ 64` calls are made, their ids are distinct. -/
theorem numbered_run {events : List MuxEvent} (few : (run events).calls.length < 2 ^ 64) :
    Numbered (run events).nextId (requestIds (run events).calls) := by
  induction events using List.reverseRecOn with
  | nil => exact ⟨rfl, nofun, nofun⟩
  | append_singleton events event ih =>
    have routes := routes_run events
    have last : run (events ++ [event]) = (run events).step event := by
      rw [run, foldl_append]
      rfl
    rw [last] at few ⊢
    have fewer := (continue_step routes event).length_le.trans_lt few
    exact (draws_step routes event).numbered (ih fewer) few

theorem matched_run {events : List MuxEvent} (tidy : Meets step Tidy connected events) :
    (run events).Matched :=
  (run_of_meets tidy).invariant
    (fun _ event _ matched taken => taken.2 ▸ matched.step event taken.1) matched_connected

/-- **Leaks of the table of pending calls.** As long as fewer than `2 ^ 64` calls are made on a
client, the table has no entry for a call that has ended, in every state of a run, exactly if no
step of the run ends a call whose channel is still empty. -/
theorem leakFree_iff {events : List MuxEvent} (few : (run events).calls.length < 2 ^ 64) :
    (∀ before after, events = before ++ after → (run before).LeakFree) ↔
      Meets step Tidy connected events := by
  constructor
  · -- The states before the first untidy step are matched, so that step would leak.
    exact meets_of_always_good matched_connected (fun _ event _ matched => matched.step event)
      fun _ _ _ matched => matched.tidy_of_leakFree
  · rintro tidy before after rfl
    have grows : (run before).calls.length ≤ (run (before ++ after)).calls.length := by
      clear tidy few
      induction after using List.reverseRecOn with
      | nil => rw [append_nil]
      | append_singleton after event ih =>
        have last : run (before ++ (after ++ [event])) = (run (before ++ after)).step event := by
          rw [run, ← append_assoc, foldl_append]
          rfl
        rw [last]
        exact ih.trans (continue_step (routes_run _) event).length_le
    exact (matched_run (meets_append.mp tidy).1).leakFree (numbered_run (grows.trans_lt few))

/-- One call, to the point where it waits for its response. -/
def oneCall : List MuxEvent :=
  [.send "GET" "/api/tags" [], .call 0 .draw, .call 0 .register, .call 0 .enqueue]

/-- The call gets its response. -/
theorem answeredCall_leakFree :
    (run (oneCall ++ [.write, .serverRead, .compute 0 200 [7], .respond 0, .read,
        .call 0 .resume])).LeakFree := by
  refine (leakFree_iff (by decide +kernel)).mpr ?_ _ [] (append_nil _).symm
  refine ⟨trivial, trivial, trivial, ?_, trivial, trivial, trivial, trivial, trivial, trivial,
    trivial⟩
  intro call _ _ closed
  exact absurd closed (by decide +kernel)

/-- The call is woken by its timer, and its entry stays. -/
theorem timedOutCall_leaks : ¬ (run (oneCall ++ [.call 0 .timeout])).LeakFree := by
  intro free
  have ended : ∃ call, (run (oneCall ++ [MuxEvent.call 0 .timeout])).calls[0]? = some call ∧
      call.phase.ended ∧ call.requestId = some 1 := ⟨_, rfl, rfl, rfl⟩
  obtain ⟨call, found, returned, own⟩ := ended
  have stays : (run (oneCall ++ [MuxEvent.call 0 .timeout])).pending.lookup 1 = some 0 := by
    decide +kernel
  rw [free 0 call 1 found returned own] at stays
  cases stays

end MuxSystem

end KwaaiNet
