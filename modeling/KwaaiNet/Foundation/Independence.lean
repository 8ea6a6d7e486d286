import Mathlib

/-! # Systems of independent parts

The state of a system is seen through its parts, and every operation is addressed to one of
them. The parts are independent if an operation does to its part, and answers, what the part
alone would do and answer. Then no operation changes another part, and no answer depends on one.
-/

namespace Foundation

variable {S I P O R : Type*}

variable [DecidableEq I]

/-- **Independent parts.** An operation does what its part alone does. -/
structure Independent (part : S → I → P) (step : I → O → S → S × R)
    (own : I → O → P → P × R) : Prop where
  answer : ∀ owner operation state,
    (step owner operation state).2 = (own owner operation (part state owner)).2
  change : ∀ owner operation state, part (step owner operation state).1 =
    Function.update (part state) owner (own owner operation (part state owner)).1

namespace Independent

variable {part : S → I → P} {step : I → O → S → S × R} {own : I → O → P → P × R}

theorem unchanged (independent : Independent part step own) {owner other : I}
    (different : other ≠ owner) (operation : O) (state : S) :
    part (step owner operation state).1 other = part state other := by
  rw [independent.change, Function.update_of_ne different]

theorem answer_congr (independent : Independent part step own) {owner : I} (operation : O)
    {first second : S} (same : part first owner = part second owner) :
    (step owner operation first).2 = (step owner operation second).2 := by
  rw [independent.answer, independent.answer, same]

end Independent

end Foundation
