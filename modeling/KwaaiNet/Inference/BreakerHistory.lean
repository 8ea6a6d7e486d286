import Mathlib
import KwaaiNet.Foundation.Since
import KwaaiNet.Inference.CircuitBreaker

/-! # What the circuit breaker remembers

The answer of `allow` in terms of the calls that came before it. A circuit opens at a failure that
is at least the third since the last success, and a request is refused until the cooldown of the
last opening has elapsed. A failure that is recorded while the circuit is open already does not open
it again and does not extend the cooldown. `KwaaiNet.CircuitBreaker.historySpec_of_inOrder` is the
specification over every history of calls of any number of peers.
-/

namespace KwaaiNet

open Foundation List

namespace BreakerCall

def peer : BreakerCall → PeerId
  | .allow peer _ => peer
  | .recordSuccess peer => peer
  | .recordFailure peer _ => peer

def instant : BreakerCall → Option Nat
  | .allow _ now => some now
  | .recordSuccess _ => none
  | .recordFailure _ now => some now

def Fails (peer : PeerId) : BreakerCall → Prop
  | .recordFailure failed _ => failed = peer
  | _ => False

instance (peer : PeerId) : DecidablePred (Fails peer)
  | .recordFailure failed _ => inferInstanceAs (Decidable (failed = peer))
  | .allow _ _ => .isFalse id
  | .recordSuccess _ => .isFalse id

end BreakerCall

def InOrder (calls : List BreakerCall) : Prop :=
  (calls.filterMap BreakerCall.instant).Pairwise (· ≤ ·)

instance (calls : List BreakerCall) : Decidable (InOrder calls) :=
  inferInstanceAs (Decidable (List.Pairwise _ _))

section InOrder

variable {calls : List BreakerCall} {call : BreakerCall}

theorem InOrder.le_of_mem (ordered : InOrder (calls ++ [call])) {now earlier : Nat}
    (reads : call.instant = some now) (member : earlier ∈ calls.filterMap BreakerCall.instant) :
    earlier ≤ now := by
  rw [InOrder, filterMap_append, pairwise_append] at ordered
  refine ordered.2.2 earlier member now ?_
  rw [filterMap_cons, reads]
  exact mem_cons_self

theorem InOrder.of_append {more : List BreakerCall} (ordered : InOrder (calls ++ more)) :
    InOrder calls := by
  rw [InOrder, filterMap_append, pairwise_append] at ordered
  exact ordered.1

end InOrder

namespace CircuitBreaker

/-- `CircuitBreaker::new_with_cooldown`. -/
def newWithCooldown (cooldown : Nat) : CircuitBreaker := ⟨∅, cooldown⟩

def Opens (breaker : CircuitBreaker) (call : BreakerCall) (peer : PeerId) : Prop :=
  (breaker.entry peer).state ≠ .opened ∧ ((call.exec breaker).entry peer).state = .opened

def failuresSince (peer : PeerId) (calls : List BreakerCall) : Nat :=
  countSince (BreakerCall.Fails peer) (· ≠ .recordSuccess peer) calls

variable (cooldown : Nat)

/-- One more failure of the peer is at least the third since its last success, or comes while its
circuit is half-open. -/
def AtThreshold (before : List BreakerCall) (peer : PeerId) : Prop :=
  3 ≤ failuresSince peer before + 1 ∨ ((newWithCooldown cooldown).run before).HalfOpen peer

/-- That holds, and the circuit of the peer is not open already. -/
def Tripping (before : List BreakerCall) (peer : PeerId) : Prop :=
  AtThreshold cooldown before peer ∧
    (((newWithCooldown cooldown).run before).entry peer).state ≠ .opened

/-- **History specification** of the breaker for a peer, where `opening` says after which calls a
failure of the peer opens its circuit. A request is refused exactly if the circuit was opened
within the cooldown and there was no success since. The circuit opens exactly at such failures. The
calls for other peers do not change the answer. -/
structure HistorySpec (opening : List BreakerCall → PeerId → Prop) (calls : List BreakerCall)
    (peer : PeerId) : Prop where
  refuses : ∀ before now rest, calls = before ++ .allow peer now :: rest →
    ((((newWithCooldown cooldown).run before).allow peer now).2 = false ↔
      ∃ opened, now < opened + cooldown ∧
        Since (fun earlier call => call = .recordFailure peer opened ∧ opening earlier peer)
          (· ≠ .recordSuccess peer) before)
  opens : ∀ before call rest, calls = before ++ call :: rest →
    (Opens ((newWithCooldown cooldown).run before) call peer ↔
      ∃ now, call = .recordFailure peer now ∧ opening before peer)
  unaffected : ∀ before now rest, calls = before ++ .allow peer now :: rest →
    (((newWithCooldown cooldown).run before).allow peer now).2 =
      (((newWithCooldown cooldown).run (before.filter (·.peer = peer))).allow peer now).2

end CircuitBreaker

/-! ### The entry of one peer -/

namespace PeerEntry

variable (cooldown : Nat)

def cooled (entry : PeerEntry) (now : Nat) : Bool :=
  (entry.openedAt.map fun opened => decide (cooldown ≤ now - opened)).getD false

def next (entry : PeerEntry) : BreakerCall → PeerEntry
  | .allow _ now =>
    if entry.state = .opened ∧ entry.cooled cooldown now then { entry with state := .halfOpen }
    else entry
  | .recordSuccess _ => .fresh
  | .recordFailure _ now =>
    if (failureThreshold ≤ entry.failures + 1 ∨ entry.state = .halfOpen) ∧ entry.state ≠ .opened
    then ⟨.opened, entry.failures + 1, some now⟩
    else { entry with failures := entry.failures + 1 }

end PeerEntry

namespace CircuitBreaker

variable {breaker : CircuitBreaker} {peer : PeerId}

theorem openDuration_exec (call : BreakerCall) :
    (call.exec breaker).openDuration = breaker.openDuration := by
  cases call with
  | allow asked now =>
    simp only [BreakerCall.exec, allow]
    split
    · rfl
    · split <;> rfl
    · rfl
  | recordSuccess asked => rfl
  | recordFailure asked now =>
    simp only [BreakerCall.exec, recordFailure]
    split <;> rfl

theorem entry_exec (call : BreakerCall) :
    (call.exec breaker).entry peer =
      if call.peer = peer then (breaker.entry peer).next breaker.openDuration call
      else breaker.entry peer := by
  split_ifs with about
  · cases call with
    | allow asked now =>
      obtain rfl : asked = peer := about
      simp only [BreakerCall.exec, allow, PeerEntry.next]
      cases state : (breaker.entry asked).state with
      | closed => simp [entry_write_self]
      | halfOpen => simp [entry_write_self]
      | opened =>
        have same : breaker.cooledDown (breaker.entry asked) now =
            (breaker.entry asked).cooled breaker.openDuration now := rfl
        rw [same]
        cases (breaker.entry asked).cooled breaker.openDuration now <;>
          simp [entry_write_self]
    | recordSuccess asked =>
      obtain rfl : asked = peer := about
      exact entry_write_self _
    | recordFailure asked now =>
      obtain rfl : asked = peer := about
      simp only [BreakerCall.exec, recordFailure, PeerEntry.next]
      split <;> exact entry_write_self _
  · refine entry_exec_of_other ?_ ?_
    · rintro now rfl
      exact about rfl
    · cases call with
      | allow asked now => rfl
      | recordSuccess asked => exact decide_eq_false about
      | recordFailure asked now => exact decide_eq_false about

theorem openDuration_run (calls : List BreakerCall) :
    (breaker.run calls).openDuration = breaker.openDuration := by
  induction calls generalizing breaker with
  | nil => rfl
  | cons call calls ih => exact (@ih (call.exec breaker)).trans (openDuration_exec call)

theorem entry_run (calls : List BreakerCall) :
    (breaker.run calls).entry peer =
      (calls.filter (·.peer = peer)).foldl (PeerEntry.next breaker.openDuration)
        (breaker.entry peer) := by
  induction calls generalizing breaker with
  | nil => rfl
  | cons call calls ih =>
    have first : breaker.run (call :: calls) = (call.exec breaker).run calls := rfl
    rw [first, ih, openDuration_exec, entry_exec]
    by_cases about : call.peer = peer
    · rw [if_pos about, filter_cons_of_pos (by simpa using about), foldl_cons]
    · rw [if_neg about, filter_cons_of_neg (by simpa using about)]

theorem allow_eq_false_iff {now : Nat} :
    (breaker.allow peer now).2 = false ↔ (breaker.entry peer).state = .opened ∧
      (breaker.entry peer).cooled breaker.openDuration now = false := by
  have same : breaker.cooledDown (breaker.entry peer) now =
      (breaker.entry peer).cooled breaker.openDuration now := rfl
  simp only [allow]
  rw [same]
  cases (breaker.entry peer).state with
  | closed => simp
  | halfOpen => simp
  | opened => cases (breaker.entry peer).cooled breaker.openDuration now <;> simp

theorem opens_iff {call : BreakerCall} :
    Opens breaker call peer ↔ ∃ now, call = .recordFailure peer now ∧
      (failureThreshold ≤ (breaker.entry peer).failures + 1 ∨
        (breaker.entry peer).state = .halfOpen) ∧ (breaker.entry peer).state ≠ .opened := by
  rw [Opens, entry_exec]
  by_cases about : call.peer = peer
  · rw [if_pos about]
    cases call with
    | allow asked now =>
      rw [PeerEntry.next]
      refine iff_of_false (fun opens => ?_) nofun
      split_ifs at opens with cooled
      · cases opens.2
      · exact opens.1 opens.2
    | recordSuccess asked => exact iff_of_false (fun opens => nomatch opens.2) nofun
    | recordFailure asked now =>
      obtain rfl : asked = peer := about
      rw [PeerEntry.next]
      constructor
      · rintro ⟨closed, opened⟩
        refine ⟨now, rfl, ?_⟩
        split_ifs at opened with trips
        · exact trips
        · exact absurd opened closed
      · rintro ⟨_, _, trips⟩
        rw [if_pos trips]
        exact ⟨trips.2, rfl⟩
  · rw [if_neg about]
    refine iff_of_false (fun opens => opens.1 opens.2) ?_
    rintro ⟨now, rfl, _⟩
    exact about rfl

/-! ### What the entry remembers -/

section Histories

variable {cooldown : Nat} {calls : List BreakerCall} {call : BreakerCall} {entry : PeerEntry}

def OpenedSince (cooldown : Nat) (calls : List BreakerCall) (peer : PeerId) (opened : Nat) : Prop :=
  Since (fun earlier call => call = .recordFailure peer opened ∧ Tripping cooldown earlier peer)
    (· ≠ .recordSuccess peer) calls

theorem failuresSince_concat :
    failuresSince peer (calls ++ [call]) =
      if call ≠ .recordSuccess peer then
        failuresSince peer calls + if call.Fails peer then 1 else 0
      else 0 :=
  countSince_concat (BreakerCall.Fails peer) (· ≠ .recordSuccess peer) calls call

theorem openedSince_concat {opened : Nat} :
    OpenedSince cooldown (calls ++ [call]) peer opened ↔
      (call = .recordFailure peer opened ∧ Tripping cooldown calls peer) ∨
        OpenedSince cooldown calls peer opened ∧ call ≠ .recordSuccess peer := since_concat

theorem OpenedSince.mem_instants {opened : Nat}
    (since : OpenedSince cooldown calls peer opened) :
    opened ∈ calls.filterMap BreakerCall.instant := by
  obtain ⟨before, _, after, rfl, ⟨rfl, _⟩, _⟩ := since
  exact mem_filterMap.mpr
    ⟨.recordFailure peer opened, mem_append_right _ mem_cons_self, rfl⟩

/-- What an entry remembers of the calls: the failures while the circuit is closed, the last
opening otherwise, and that its cooldown has elapsed if the circuit is half-open. -/
structure Remembers (cooldown : Nat) (calls : List BreakerCall) (peer : PeerId)
    (entry : PeerEntry) : Prop where
  closed : entry.state = .closed → entry.openedAt = none ∧
    entry.failures.toNat = failuresSince peer calls ∧ failuresSince peer calls < 3
  tripped : entry.state ≠ .closed → entry.openedAt.isSome ∧ 3 ≤ failuresSince peer calls
  latest : ∀ opened, OpenedSince cooldown calls peer opened →
    ∃ last, entry.openedAt = some last ∧ opened ≤ last
  opening : ∀ last, entry.openedAt = some last → OpenedSince cooldown calls peer last
  elapsed : entry.state = .halfOpen → ∀ last, entry.openedAt = some last →
    ∃ now ∈ calls.filterMap BreakerCall.instant, cooldown ≤ now - last

theorem remembers_nil : Remembers cooldown [] peer .fresh where
  closed := fun _ => ⟨rfl, rfl, Nat.succ_pos 2⟩
  tripped := fun unclosed => absurd rfl unclosed
  latest := fun _ since => absurd since not_since_nil
  opening := fun _ held => nomatch held
  elapsed := fun halfOpen => nomatch halfOpen

theorem Remembers.quiet (remembers : Remembers cooldown calls peer entry)
    (silent : call.records peer = false) : Remembers cooldown (calls ++ [call]) peer entry := by
  have succeeds : call ≠ .recordSuccess peer := by
    rintro rfl
    exact absurd silent (by simp [BreakerCall.records])
  have fails : ¬ call.Fails peer := by
    cases call with
    | allow asked now => exact id
    | recordSuccess asked => exact id
    | recordFailure asked now => exact of_decide_eq_false silent
  have count : failuresSince peer (calls ++ [call]) = failuresSince peer calls := by
    rw [failuresSince_concat, if_pos succeeds, if_neg fails, Nat.add_zero]
  have since (opened : Nat) : OpenedSince cooldown (calls ++ [call]) peer opened ↔
      OpenedSince cooldown calls peer opened := by
    rw [openedSince_concat, and_iff_left succeeds, or_iff_right]
    rintro ⟨rfl, _⟩
    exact fails rfl
  refine ⟨?_, ?_, ?_, ?_, ?_⟩
  · rw [count]
    exact remembers.closed
  · rw [count]
    exact remembers.tripped
  · intro opened opens
    exact remembers.latest opened ((since opened).mp opens)
  · intro last held
    exact (since last).mpr (remembers.opening last held)
  · intro halfOpen last held
    obtain ⟨now, member, enough⟩ := remembers.elapsed halfOpen last held
    exact ⟨now, by rw [filterMap_append]; exact mem_append_left _ member, enough⟩

theorem Remembers.success : Remembers cooldown (calls ++ [.recordSuccess peer]) peer .fresh := by
  have count : failuresSince peer (calls ++ [.recordSuccess peer]) = 0 := by
    rw [failuresSince_concat, if_neg (fun different => different rfl)]
  have since (opened : Nat) :
      ¬ OpenedSince cooldown (calls ++ [.recordSuccess peer]) peer opened := by
    rw [openedSince_concat]
    rintro (⟨fails, _⟩ | ⟨_, different⟩)
    · cases fails
    · exact different rfl
  refine ⟨fun _ => ⟨rfl, ?_, ?_⟩, fun unclosed => absurd rfl unclosed, ?_, ?_, ?_⟩
  · rw [count]
    rfl
  · rw [count]
    exact Nat.succ_pos 2
  · exact fun opened opens => absurd opens (since opened)
  · intro last held
    cases held
  · intro halfOpen
    cases halfOpen

theorem Remembers.trips_iff
    (remembers : Remembers cooldown calls peer
      (((newWithCooldown cooldown).run calls).entry peer)) :
    ((failureThreshold ≤ (((newWithCooldown cooldown).run calls).entry peer).failures + 1 ∨
        (((newWithCooldown cooldown).run calls).entry peer).state = .halfOpen) ∧
      (((newWithCooldown cooldown).run calls).entry peer).state ≠ .opened) ↔
      Tripping cooldown calls peer := by
  rw [Tripping, AtThreshold, HalfOpen]
  generalize ((newWithCooldown cooldown).run calls).entry peer = entry at remembers ⊢
  cases state : entry.state with
  | opened => simp
  | halfOpen => simp
  | closed =>
    obtain ⟨_, counts, few⟩ := remembers.closed state
    have exactSum : (entry.failures + 1).toNat = failuresSince peer calls + 1 := by
      rw [UInt32.toNat_add, counts]
      exact Nat.mod_eq_of_lt (by simp; omega)
    have compared : failureThreshold ≤ entry.failures + 1 ↔ 3 ≤ failuresSince peer calls + 1 := by
      rw [UInt32.le_iff_toNat_le, exactSum]
      rfl
    simp [compared]

theorem Remembers.failure {now : Nat} (ordered : InOrder (calls ++ [.recordFailure peer now]))
    (remembers : Remembers cooldown calls peer
      (((newWithCooldown cooldown).run calls).entry peer)) :
    Remembers cooldown (calls ++ [.recordFailure peer now]) peer
      ((((newWithCooldown cooldown).run calls).entry peer).next cooldown
        (.recordFailure peer now)) := by
  have trips := remembers.trips_iff
  generalize ((newWithCooldown cooldown).run calls).entry peer = entry at remembers trips ⊢
  have count : failuresSince peer (calls ++ [.recordFailure peer now]) =
      failuresSince peer calls + 1 := by
    rw [failuresSince_concat, if_pos nofun]
    exact congrArg _ (if_pos rfl)
  have earlier {opened : Nat} (since : OpenedSince cooldown calls peer opened) : opened ≤ now :=
    ordered.le_of_mem rfl since.mem_instants
  rw [PeerEntry.next]
  split_ifs with tripping
  · -- The circuit opens: this is the last opening from now on.
    have third : 3 ≤ failuresSince peer calls + 1 := by
      by_cases closed : entry.state = .closed
      · obtain ⟨_, counts, _⟩ := remembers.closed closed
        have reached := tripping.1.resolve_right (by rw [closed]; nofun)
        rw [UInt32.le_iff_toNat_le, UInt32.toNat_add, counts] at reached
        exact reached.trans (Nat.mod_le _ _)
      · exact (remembers.tripped closed).2.trans (Nat.le_succ _)
    refine ⟨nofun, fun _ => ⟨rfl, by omega⟩, ?_, ?_, nofun⟩
    · intro opened since
      rcases openedSince_concat.mp since with ⟨same, _⟩ | ⟨before, _⟩
      · obtain rfl := (BreakerCall.recordFailure.inj same).2
        exact ⟨_, rfl, le_rfl⟩
      · exact ⟨now, rfl, earlier before⟩
    · rintro last ⟨⟩
      exact openedSince_concat.mpr (.inl ⟨rfl, trips.mp tripping⟩)
  · -- The circuit stays as it is: closed with one more failure, or open.
    have since (opened : Nat) :
        OpenedSince cooldown (calls ++ [.recordFailure peer now]) peer opened ↔
          OpenedSince cooldown calls peer opened := by
      have recorded : BreakerCall.recordFailure peer now ≠ .recordSuccess peer := nofun
      rw [openedSince_concat, and_iff_left recorded, or_iff_right]
      exact fun opens => tripping (trips.mpr opens.2)
    refine ⟨fun closed => ?_, fun unclosed => ?_, ?_, ?_, fun halfOpen => ?_⟩
    · obtain ⟨unopened, counts, few⟩ := remembers.closed closed
      have small : ¬ failureThreshold ≤ entry.failures + 1 := by
        intro third
        refine tripping ⟨.inl third, ?_⟩
        rw [show entry.state = .closed from closed]
        nofun
      have exactSum : (entry.failures + 1).toNat = failuresSince peer calls + 1 := by
        rw [UInt32.toNat_add, counts]
        exact Nat.mod_eq_of_lt (by simp; omega)
      rw [UInt32.le_iff_toNat_le, exactSum] at small
      refine ⟨unopened, exactSum.trans count.symm, ?_⟩
      rw [count]
      exact Nat.lt_of_not_le small
    · obtain ⟨opened, third⟩ := remembers.tripped unclosed
      exact ⟨opened, by omega⟩
    · intro opened opens
      exact remembers.latest opened ((since opened).mp opens)
    · intro last held
      exact (since last).mpr (remembers.opening last held)
    · refine absurd ⟨.inr halfOpen, ?_⟩ tripping
      rw [show entry.state = .halfOpen from halfOpen]
      nofun

theorem remembers_run (ordered : InOrder calls) :
    Remembers cooldown calls peer (((newWithCooldown cooldown).run calls).entry peer) := by
  induction calls using List.reverseRecOn with
  | nil => exact remembers_nil
  | append_singleton calls call ih =>
    have remembers := ih ordered.of_append
    have last : (newWithCooldown cooldown).run (calls ++ [call]) =
        call.exec ((newWithCooldown cooldown).run calls) := by
      rw [run, foldl_append]
      rfl
    rw [last, entry_exec, openDuration_run]
    split_ifs with about
    · cases call with
      | allow asked now =>
        obtain rfl : asked = peer := about
        have quiet : Remembers cooldown (calls ++ [.allow asked now]) asked _ :=
          remembers.quiet rfl
        rw [PeerEntry.next]
        split_ifs with cooled
        · -- The cooldown has elapsed, and the circuit is half-open from now on.
          refine ⟨fun closed => ?_, fun _ => ?_, quiet.latest, quiet.opening,
            fun _ opened held => ?_⟩
          · cases closed
          · refine quiet.tripped fun closed => ?_
            rw [cooled.1] at closed
            cases closed
          · have enough := cooled.2
            rw [PeerEntry.cooled, show _ = some opened from held] at enough
            exact ⟨now, by simp [BreakerCall.instant], of_decide_eq_true enough⟩
        · exact quiet
      | recordSuccess asked =>
        obtain rfl : asked = peer := about
        exact .success
      | recordFailure asked now =>
        obtain rfl : asked = peer := about
        exact remembers.failure ordered
    · refine remembers.quiet ?_
      cases call with
      | allow asked now => rfl
      | recordSuccess asked => exact decide_eq_false about
      | recordFailure asked now => exact decide_eq_false about

theorem allow_eq_false_iff_openedSince {now : Nat}
    (ordered : InOrder (calls ++ [.allow peer now])) :
    (((newWithCooldown cooldown).run calls).allow peer now).2 = false ↔
      ∃ opened, now < opened + cooldown ∧ OpenedSince cooldown calls peer opened := by
  have remembers : Remembers cooldown calls peer _ := remembers_run ordered.of_append
  rw [allow_eq_false_iff, openDuration_run]
  generalize ((newWithCooldown cooldown).run calls).entry peer = entry at remembers ⊢
  have waits : (newWithCooldown cooldown).openDuration = cooldown := rfl
  rw [waits, PeerEntry.cooled]
  constructor
  · rintro ⟨state, waiting⟩
    obtain ⟨opened, held⟩ :=
      Option.isSome_iff_exists.mp (remembers.tripped (by rw [state]; nofun)).1
    rw [held] at waiting
    have early : ¬ cooldown ≤ now - opened := of_decide_eq_false waiting
    exact ⟨opened, by omega, remembers.opening opened held⟩
  · rintro ⟨opened, within, since⟩
    obtain ⟨last, held, later⟩ := remembers.latest opened since
    have past := ordered.le_of_mem rfl since.mem_instants
    refine ⟨?_, ?_⟩
    · cases state : entry.state with
      | opened => rfl
      | closed =>
        rw [(remembers.closed state).1] at held
        cases held
      | halfOpen =>
        -- A half-open circuit has seen the end of the cooldown at an earlier instant.
        obtain ⟨probed, member, enough⟩ := remembers.elapsed state last held
        have before := ordered.le_of_mem rfl member
        omega
    · rw [held]
      exact decide_eq_false (by omega)

end Histories

/-- **The breaker and its history.** The specification holds for every peer in every history of
calls, where the circuit of a peer opens at a failure that is at least the third since its last
success, or that comes while it is half-open, and that comes while it is not open already. -/
theorem historySpec_of_inOrder (cooldown : Nat) (calls : List BreakerCall)
    (ordered : InOrder calls) (peer : PeerId) :
    HistorySpec cooldown (Tripping cooldown) calls peer where
  refuses := by
    rintro before now rest rfl
    rw [← singleton_append, ← append_assoc] at ordered
    exact allow_eq_false_iff_openedSince ordered.of_append
  opens := by
    rintro before call rest rfl
    rw [opens_iff, (remembers_run ordered.of_append).trips_iff]
  unaffected := by
    rintro before now rest rfl
    have same : ((newWithCooldown cooldown).run before).entry peer =
        ((newWithCooldown cooldown).run (before.filter (·.peer = peer))).entry peer := by
      rw [entry_run, entry_run, filter_filter]
      simp only [Bool.and_self]
    rw [Bool.eq_iff_iff, ← not_iff_not, Bool.not_eq_true, Bool.not_eq_true, allow_eq_false_iff,
      allow_eq_false_iff, same, openDuration_run, openDuration_run]

/-- Three failures open the circuit. A fourth request, which was sent before that, fails after
20 s, and the next one is asked for 15 s later. -/
def lateFailure : List BreakerCall :=
  [.recordFailure flakyPeer 0, .recordFailure flakyPeer 0, .recordFailure flakyPeer 0,
    .recordFailure flakyPeer 20000000000, .allow flakyPeer 35000000000]

theorem lateFailure_historySpec :
    HistorySpec KwaaiNet.openDuration (Tripping KwaaiNet.openDuration) lateFailure flakyPeer :=
  historySpec_of_inOrder _ _ (by decide) _

/-- The late failure is the fourth since the start, but it does not open the circuit again. -/
theorem lateFailure_not_reopened :
    ¬ HistorySpec KwaaiNet.openDuration (AtThreshold KwaaiNet.openDuration) lateFailure
      flakyPeer := by
  intro spec
  have allowed : ¬ ((new.run (lateFailure.take 4)).allow flakyPeer 35000000000).2 = false := by
    decide +kernel
  refine allowed ((spec.refuses (lateFailure.take 4) 35000000000 [] rfl).mpr
    ⟨20000000000, by decide, lateFailure.take 3, _, [], rfl, ⟨rfl, ?_⟩, nofun⟩)
  exact .inl (by decide)

end CircuitBreaker

end KwaaiNet
