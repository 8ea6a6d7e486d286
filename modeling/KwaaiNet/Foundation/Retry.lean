import Mathlib

/-! # Retrying a request over a lossy channel

A client repeats a request until an answer arrives, an attempt fails for good, or the
attempts are used up. It cannot tell a lost request from a lost answer, so the server may
have handled the request several times before the answer that counts.
`Foundation.retry_of_answered` says what an answered call did to the server.
-/

namespace Foundation

variable {Time State Answer : Type*}

/-- What becomes of one attempt. -/
inductive Fate where
  | answered
  | lost (delivered transient : Bool)
  deriving DecidableEq

def retry (handle : Time → State → State × Answer) :
    List (Fate × Time) → State → State × Option Answer
  | [], state => (state, none)
  | (.answered, time) :: _, state => ((handle time state).1, some (handle time state).2)
  | (.lost delivered transient, time) :: rest, state =>
    let next := if delivered then (handle time state).1 else state
    if transient then retry handle rest next else (next, none)

def answeredAfter : List (Fate × Time) → Option (List Time × Time)
  | [] => none
  | (.answered, time) :: _ => some ([], time)
  | (.lost delivered transient, time) :: rest =>
    if transient then
      (answeredAfter rest).map fun found =>
        (if delivered then time :: found.1 else found.1, found.2)
    else none

def handledAt (handle : Time → State → State × Answer) (times : List Time) (state : State) :
    State :=
  times.foldl (fun state time => (handle time state).1) state

theorem retry_of_answered {handle : Time → State → State × Answer}
    {attempts : List (Fate × Time)} {times : List Time} {time : Time}
    (answered : answeredAfter attempts = some (times, time)) (state : State) :
    retry handle attempts state =
      ((handle time (handledAt handle times state)).1,
        some (handle time (handledAt handle times state)).2) := by
  induction attempts generalizing times state with
  | nil => cases answered
  | cons attempt rest ih =>
    obtain ⟨fate, at_⟩ := attempt
    cases fate with
    | answered =>
      obtain ⟨rfl, rfl⟩ := Prod.mk.inj (Option.some.inj answered)
      rfl
    | lost delivered transient =>
      cases transient with
      | false => cases answered
      | true =>
        obtain ⟨found, later, same⟩ := Option.map_eq_some_iff.mp answered
        obtain ⟨rfl, rfl⟩ := Prod.mk.inj same
        cases delivered with
        | false => exact ih later state
        | true => exact ih later (handle at_ state).1

theorem retry_of_unanswered {handle : Time → State → State × Answer}
    {attempts : List (Fate × Time)} (unanswered : answeredAfter attempts = none)
    (state : State) : (retry handle attempts state).2 = none := by
  induction attempts generalizing state with
  | nil => rfl
  | cons attempt rest ih =>
    obtain ⟨fate, at_⟩ := attempt
    cases fate with
    | answered => cases unanswered
    | lost delivered transient =>
      cases transient with
      | false => rfl
      | true => exact ih (Option.map_eq_none_iff.mp unanswered) _

end Foundation
