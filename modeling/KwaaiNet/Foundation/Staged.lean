import Mathlib

/-! # Work in stages that may stop

Work is a list of operations, grouped into stages. Inside a stage the state need not mean
anything, but after each stage it is related to an abstract state. Work that stops between two
stages leaves a state that means something (`Foundation.Tracks.boundary`), and work that is
completed leads to the last abstract state (`Foundation.Tracks.finish`).
-/

namespace Foundation

open List

variable {S O A : Type*} {apply : S → O → S} {rel : S → A → Prop}

/-- From a state and its abstract state, the stages lead to a last abstract state, and each of
them ends in a state that is related to an abstract one. -/
inductive Tracks (apply : S → O → S) (rel : S → A → Prop) : S → A → List (List O) → A → Prop
  | nil {state : S} {abstract : A} :
      rel state abstract → Tracks apply rel state abstract [] abstract
  | cons {state : S} {abstract next last : A} {stage : List O} {stages : List (List O)} :
      rel state abstract → Tracks apply rel (stage.foldl apply state) next stages last →
        Tracks apply rel state abstract (stage :: stages) last

namespace Tracks

variable {state : S} {abstract middle last : A} {stages more : List (List O)}

theorem single {stage : List O} (before : rel state abstract)
    (after : rel (stage.foldl apply state) last) :
    Tracks apply rel state abstract [stage] last :=
  .cons before (.nil after)

theorem finish (tracks : Tracks apply rel state abstract stages last) :
    rel (stages.flatten.foldl apply state) last := by
  induction tracks with
  | nil related => exact related
  | cons _ _ ih =>
    rw [flatten_cons, foldl_append]
    exact ih

theorem boundary (tracks : Tracks apply rel state abstract stages last) (count : Nat) :
    ∃ reached, rel ((stages.take count).flatten.foldl apply state) reached := by
  induction tracks generalizing count with
  | nil related =>
    rw [take_nil]
    exact ⟨_, related⟩
  | cons related _ ih =>
    cases count with
    | zero => exact ⟨_, related⟩
    | succ count =>
      rw [take_succ_cons, flatten_cons, foldl_append]
      exact ih count

theorem append (first : Tracks apply rel state abstract stages middle)
    (second : Tracks apply rel (stages.flatten.foldl apply state) middle more last) :
    Tracks apply rel state abstract (stages ++ more) last := by
  induction first with
  | nil _ => exact second
  | cons related _ ih =>
    rw [flatten_cons, foldl_append] at second
    exact .cons related (ih second)

end Tracks

end Foundation
