import Mathlib
import KwaaiNet.Identity.PeerId

/-! # The circuit breaker of the inference proxies

All proxy connections of a session share one breaker. Each of its three calls holds the lock
of the peer table, so a concurrent history is a list of calls. A tripped circuit lets a probe
through when its cooldown has elapsed and is then half-open; but a half-open circuit lets every
further request through as well. `KwaaiNet.CircuitBreaker.oneProbe_iff` says in which histories
a recovering peer still gets a single probe.
-/

namespace KwaaiNet

open List

/-- `FAILURE_THRESHOLD`. -/
def failureThreshold : UInt32 := 3

/-- `OPEN_DURATION`: 30 s, in nanoseconds. -/
def openDuration : Nat := 30000000000

inductive CircuitState where
  | closed
  | opened
  | halfOpen
  deriving DecidableEq

structure PeerEntry where
  state : CircuitState
  failures : UInt32
  openedAt : Option Nat
  deriving DecidableEq

/-- `PeerEntry::default`. -/
def PeerEntry.fresh : PeerEntry := ⟨.closed, 0, none⟩

structure CircuitBreaker where
  peers : AList fun _ : PeerId => PeerEntry
  openDuration : Nat

/-- A call on the breaker and the instant at which it reads the clock. -/
inductive BreakerCall where
  | allow (peer : PeerId) (now : Nat)
  | recordSuccess (peer : PeerId)
  | recordFailure (peer : PeerId) (now : Nat)
  deriving DecidableEq

namespace CircuitBreaker

/-- `CircuitBreaker::new`. -/
def new : CircuitBreaker := ⟨∅, KwaaiNet.openDuration⟩

variable (breaker : CircuitBreaker)

/-- `entry(peer).or_default()`. -/
def entry (peer : PeerId) : PeerEntry := (breaker.peers.lookup peer).getD .fresh

def write (peer : PeerId) (entry : PeerEntry) : CircuitBreaker :=
  { breaker with peers := breaker.peers.insert peer entry }

/-- The cooldown of an entry has elapsed. Instants are monotonic, and `elapsed` saturates. -/
def cooledDown (entry : PeerEntry) (now : Nat) : Bool :=
  (entry.openedAt.map fun opened => decide (breaker.openDuration ≤ now - opened)).getD false

/-- `allow`. -/
def allow (peer : PeerId) (now : Nat) : CircuitBreaker × Bool :=
  let entry := breaker.entry peer
  match entry.state with
  | .closed => (breaker.write peer entry, true)
  | .opened =>
    if breaker.cooledDown entry now then
      (breaker.write peer { entry with state := .halfOpen }, true)
    else (breaker.write peer entry, false)
  | .halfOpen => (breaker.write peer entry, true)

/-- `record_success`. -/
def recordSuccess (peer : PeerId) : CircuitBreaker := breaker.write peer .fresh

/-- `record_failure`. The count wraps, as in a release build. -/
def recordFailure (peer : PeerId) (now : Nat) : CircuitBreaker :=
  let entry := breaker.entry peer
  let failures := entry.failures + 1
  let shouldOpen := failureThreshold ≤ failures ∨ entry.state = .halfOpen
  if shouldOpen ∧ entry.state ≠ .opened then
    breaker.write peer ⟨.opened, failures, some now⟩
  else breaker.write peer { entry with failures }

end CircuitBreaker

namespace BreakerCall

def exec (breaker : CircuitBreaker) : BreakerCall → CircuitBreaker
  | .allow peer now => (breaker.allow peer now).1
  | .recordSuccess peer => breaker.recordSuccess peer
  | .recordFailure peer now => breaker.recordFailure peer now

def grants (breaker : CircuitBreaker) (peer : PeerId) : BreakerCall → Bool
  | .allow asked now => asked = peer && (breaker.allow asked now).2
  | _ => false

def records (peer : PeerId) : BreakerCall → Bool
  | .allow _ _ => false
  | .recordSuccess recorded => recorded = peer
  | .recordFailure recorded _ => recorded = peer

end BreakerCall

namespace CircuitBreaker

def run (breaker : CircuitBreaker) (calls : List BreakerCall) : CircuitBreaker :=
  calls.foldl BreakerCall.exec breaker

def granted (peer : PeerId) : CircuitBreaker → List BreakerCall → Nat
  | _, [] => 0
  | breaker, call :: calls =>
    (if call.grants breaker peer then 1 else 0) + granted peer (call.exec breaker) calls

def HalfOpen (breaker : CircuitBreaker) (peer : PeerId) : Prop :=
  (breaker.entry peer).state = .halfOpen

/-- **One probe.** From each call that makes a circuit half-open up to the next recorded
outcome for its peer, one request to the peer is let through. -/
def OneProbe (calls : List BreakerCall) : Prop :=
  ∀ before call rest peer, calls = before ++ call :: rest →
    ¬ (new.run before).HalfOpen peer → (call.exec (new.run before)).HalfOpen peer →
      granted peer (new.run before)
        (call :: rest.takeWhile fun later => !later.records peer) = 1

def SparesHalfOpen (calls : List BreakerCall) : Prop :=
  ∀ before peer now rest, calls = before ++ .allow peer now :: rest →
    ¬ (new.run before).HalfOpen peer

section Entries

variable {breaker : CircuitBreaker} {peer other : PeerId}

theorem entry_write_self (entry : PeerEntry) : (breaker.write peer entry).entry peer = entry := by
  rw [CircuitBreaker.entry, write, AList.lookup_insert, Option.getD_some]

theorem entry_write_of_ne (entry : PeerEntry) (different : other ≠ peer) :
    (breaker.write peer entry).entry other = breaker.entry other := by
  rw [CircuitBreaker.entry, write, AList.lookup_insert_ne different, CircuitBreaker.entry]

theorem not_halfOpen_new : ¬ new.HalfOpen peer := by
  rw [HalfOpen, CircuitBreaker.entry, new, AList.lookup_empty]
  decide

theorem allow_of_halfOpen (halfOpen : breaker.HalfOpen peer) (now : Nat) :
    ((breaker.allow peer now).1.entry peer = breaker.entry peer) ∧
      (breaker.allow peer now).2 = true := by
  unfold HalfOpen at halfOpen
  simp only [allow, halfOpen, entry_write_self, and_self]

theorem entry_exec_of_other {call : BreakerCall}
    (elsewhere : ∀ now, call ≠ .allow peer now) (silent : call.records peer = false) :
    (call.exec breaker).entry peer = breaker.entry peer := by
  cases call with
  | allow asked now =>
    have different : peer ≠ asked := by
      rintro rfl
      exact elsewhere now rfl
    simp only [BreakerCall.exec, allow]
    split
    · exact entry_write_of_ne _ different
    · split <;> exact entry_write_of_ne _ different
    · exact entry_write_of_ne _ different
  | recordSuccess recorded =>
    have different : peer ≠ recorded := fun same => of_decide_eq_false silent same.symm
    exact entry_write_of_ne _ different
  | recordFailure recorded now =>
    have different : peer ≠ recorded := fun same => of_decide_eq_false silent same.symm
    simp only [BreakerCall.exec, recordFailure]
    split <;> exact entry_write_of_ne _ different

theorem not_halfOpen_of_records {call : BreakerCall} (recorded : call.records peer = true) :
    ¬ (call.exec breaker).HalfOpen peer := by
  cases call with
  | allow asked now => cases recorded
  | recordSuccess asked =>
    obtain rfl : asked = peer := of_decide_eq_true recorded
    rw [HalfOpen, BreakerCall.exec, recordSuccess, entry_write_self]
    decide
  | recordFailure asked now =>
    obtain rfl : asked = peer := of_decide_eq_true recorded
    simp only [HalfOpen, BreakerCall.exec, recordFailure]
    split
    case isTrue => simp only [entry_write_self, reduceCtorEq, not_false_eq_true]
    case isFalse stays =>
      rw [entry_write_self]
      intro halfOpen
      exact stays ⟨.inr halfOpen, by rw [halfOpen]; decide⟩

/-- **Half-open circuits.** A circuit is half-open after a call if it was before and the call
records no outcome for its peer, or if the call is a request that ended the cooldown. -/
theorem halfOpen_exec_iff {call : BreakerCall} :
    (call.exec breaker).HalfOpen peer ↔
      breaker.HalfOpen peer ∧ call.records peer = false ∨
        ∃ now, call = .allow peer now ∧ (breaker.entry peer).state = .opened ∧
          breaker.cooledDown (breaker.entry peer) now = true := by
  by_cases recorded : call.records peer = true
  · have left : ¬ (call.exec breaker).HalfOpen peer := not_halfOpen_of_records recorded
    refine iff_of_false left ?_
    rintro (⟨_, silent⟩ | ⟨now, rfl, _⟩)
    · exact absurd recorded (by rw [silent]; decide)
    · cases recorded
  have silent : call.records peer = false := eq_false_of_ne_true recorded
  by_cases asks : ∃ now, call = .allow peer now
  · obtain ⟨now, rfl⟩ := asks
    simp only [HalfOpen, BreakerCall.exec, allow]
    cases state : (breaker.entry peer).state with
    | closed => simp [entry_write_self, state]
    | halfOpen => simp [entry_write_self, state, BreakerCall.records]
    | opened => cases cooled : breaker.cooledDown (breaker.entry peer) now <;>
        simp [entry_write_self, state, cooled]
  · have elsewhere : ∀ now, call ≠ .allow peer now := fun now same => asks ⟨now, same⟩
    simp only [HalfOpen, entry_exec_of_other elsewhere silent, silent, and_true]
    refine ⟨.inl, ?_⟩
    rintro (kept | ⟨now, same, _⟩)
    · exact kept
    · exact absurd same (elsewhere now)

theorem grants_of_enters {call : BreakerCall} (before : ¬ breaker.HalfOpen peer)
    (after : (call.exec breaker).HalfOpen peer) : call.grants breaker peer = true := by
  rcases halfOpen_exec_iff.mp after with ⟨already, _⟩ | ⟨now, rfl, opened, cooled⟩
  · exact absurd already before
  · simp [BreakerCall.grants, allow, opened, cooled]

end Entries

/-! ## Histories -/

section Histories

variable {breaker : CircuitBreaker} {peer : PeerId} {calls : List BreakerCall}

theorem halfOpen_run (halfOpen : breaker.HalfOpen peer)
    (silent : ∀ call ∈ calls, call.records peer = false) : (breaker.run calls).HalfOpen peer := by
  induction calls generalizing breaker with
  | nil => exact halfOpen
  | cons call calls ih =>
    apply ih
    · exact halfOpen_exec_iff.mpr (.inl ⟨halfOpen, silent call mem_cons_self⟩)
    · exact fun later member => silent later (mem_cons_of_mem call member)

/-- While nobody asks about the peer, nothing is let through to it. -/
theorem granted_eq_zero (quiet : ∀ call ∈ calls, ∀ now, call ≠ .allow peer now) :
    granted peer breaker calls = 0 := by
  induction calls generalizing breaker with
  | nil => rfl
  | cons call calls ih =>
    have refused : call.grants breaker peer = false := by
      cases call with
      | allow asked now =>
        have different : asked ≠ peer := by
          rintro rfl
          exact quiet _ mem_cons_self now rfl
        simp [BreakerCall.grants, different]
      | recordSuccess _ => rfl
      | recordFailure _ _ => rfl
    rw [granted, refused, ih fun later member => quiet later (mem_cons_of_mem call member)]
    rfl

theorem granted_pos_of_halfOpen {before : List BreakerCall} (now : Nat) (rest : List BreakerCall)
    (halfOpen : breaker.HalfOpen peer) (silent : ∀ call ∈ before, call.records peer = false) :
    0 < granted peer breaker (before ++ .allow peer now :: rest) := by
  induction before generalizing breaker with
  | nil =>
    rw [nil_append, granted, BreakerCall.grants, (allow_of_halfOpen halfOpen now).2]
    simp
  | cons call before ih =>
    have kept := halfOpen_exec_iff.mpr (.inl ⟨halfOpen, silent call mem_cons_self⟩)
    have later := ih kept fun other member => silent other (mem_cons_of_mem call member)
    rw [cons_append, granted]
    omega

theorem exists_enters_of_halfOpen (start : ¬ breaker.HalfOpen peer)
    (halfOpen : (breaker.run calls).HalfOpen peer) :
    ∃ before call rest, calls = before ++ call :: rest ∧
      ¬ (breaker.run before).HalfOpen peer ∧ (call.exec (breaker.run before)).HalfOpen peer ∧
        ∀ later ∈ rest, later.records peer = false := by
  induction calls using List.reverseRecOn with
  | nil => exact absurd halfOpen start
  | append_singleton calls last ih =>
    rw [run, foldl_append] at halfOpen
    change (last.exec (breaker.run calls)).HalfOpen peer at halfOpen
    by_cases already : (breaker.run calls).HalfOpen peer
    · obtain ⟨before, call, rest, rfl, closed, entered, silent⟩ := ih already
      refine ⟨before, call, rest ++ [last], by simp, closed, entered, ?_⟩
      intro later member
      rcases mem_append.mp member with earlier | final
      · exact silent later earlier
      · obtain rfl := mem_singleton.mp final
        by_contra recorded
        exact not_halfOpen_of_records (eq_true_of_ne_false recorded) halfOpen
    · exact ⟨calls, last, [], rfl, already, halfOpen, nofun⟩

end Histories

theorem oneProbe_of_sparesHalfOpen {calls : List BreakerCall} (spares : SparesHalfOpen calls) :
    OneProbe calls := by
  rintro before call rest peer rfl closed entered
  rw [granted, grants_of_enters closed entered]
  rw [granted_eq_zero]
  · rfl
  rintro _ member now rfl
  -- The request stands after the probe with no outcome in between, so it meets a half-open circuit.
  obtain ⟨prior, later, split⟩ := append_of_mem member
  have spared := takeWhile_append_dropWhile (l := rest)
    (p := fun later => !later.records peer)
  have silent : ∀ between ∈ prior, between.records peer = false := by
    intro between earlier
    have all := all_takeWhile (l := rest) (p := fun later => !later.records peer)
    rw [split, all_eq_true] at all
    simpa using all between (mem_append_left _ earlier)
  refine spares (before ++ call :: prior) peer now
    (later ++ rest.dropWhile fun later => !later.records peer) ?_ ?_
  · conv_lhs => rw [← spared, split]
    simp
  · rw [run, foldl_append, foldl_cons]
    exact halfOpen_run entered silent

theorem sparesHalfOpen_of_oneProbe {calls : List BreakerCall} (oneProbe : OneProbe calls) :
    SparesHalfOpen calls := by
  rintro prior peer now later rfl halfOpen
  obtain ⟨before, call, rest, rfl, closed, entered, silent⟩ :=
    exists_enters_of_halfOpen not_halfOpen_new halfOpen
  have probes := oneProbe before call (rest ++ .allow peer now :: later) peer (by simp) closed
    entered
  have taken : (rest ++ .allow peer now :: later).takeWhile (fun later => !later.records peer) =
      rest ++ .allow peer now :: later.takeWhile fun later => !later.records peer := by
    rw [takeWhile_append_of_pos fun call member => by rw [silent call member]; rfl]
    rfl
  rw [taken, granted, grants_of_enters closed entered] at probes
  have second := granted_pos_of_halfOpen now (later.takeWhile fun later => !later.records peer)
    entered silent
  simp only [↓reduceIte] at probes
  omega

/-- **Recovering peers.** Every recovering peer of a history gets one probe exactly if no
request to a peer is asked for while its circuit is half-open. -/
theorem oneProbe_iff (calls : List BreakerCall) : OneProbe calls ↔ SparesHalfOpen calls :=
  ⟨sparesHalfOpen_of_oneProbe, oneProbe_of_sparesHalfOpen⟩

/-! ## Two requests during a probe -/

def flakyPeer : PeerId := ⟨0x00, [1], by decide⟩

/-- Three failures trip the circuit; 30 s later two connections ask before either is answered. -/
def crowdedProbe : List BreakerCall :=
  [.recordFailure flakyPeer 0, .recordFailure flakyPeer 0, .recordFailure flakyPeer 0,
    .allow flakyPeer 30000000000, .allow flakyPeer 30000000001]

theorem crowdedProbe_not_oneProbe : ¬ OneProbe crowdedProbe := by
  intro oneProbe
  have probes := oneProbe (crowdedProbe.take 3) (.allow flakyPeer 30000000000)
    [.allow flakyPeer 30000000001] flakyPeer rfl (by unfold HalfOpen; decide +kernel)
    (by unfold HalfOpen; decide +kernel)
  exact absurd probes (by decide +kernel)

end CircuitBreaker

end KwaaiNet
