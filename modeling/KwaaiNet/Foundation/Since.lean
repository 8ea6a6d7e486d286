import Mathlib

/-! # Past events

A history is a list of events, the oldest first. `Foundation.Since` says that an event happened
and that nothing later undid it, and `Foundation.countSince` counts the events after the last one
that resets the count. Each has a rule for one more event, so that what a program remembers of its
past can be compared with the past event by event.
-/

namespace Foundation

open List

variable {E : Type*}

def Since (happened : List E → E → Prop) (kept : E → Prop) (history : List E) : Prop :=
  ∃ before event after, history = before ++ event :: after ∧ happened before event ∧
    ∀ later ∈ after, kept later

variable {happened : List E → E → Prop} {kept : E → Prop}

theorem not_since_nil : ¬ Since happened kept [] := by
  rintro ⟨before, event, after, split, _⟩
  exact absurd split.symm (by simp)

/-- **One more event**: it is what happened, or it keeps what happened before. -/
theorem since_concat {history : List E} {last : E} :
    Since happened kept (history ++ [last]) ↔
      happened history last ∨ Since happened kept history ∧ kept last := by
  constructor
  · rintro ⟨before, event, after, split, holds, quiet⟩
    rcases eq_nil_or_concat' after with rfl | ⟨earlier, final, rfl⟩
    · obtain ⟨rfl, same⟩ := append_inj' split rfl
      obtain rfl := (List.cons.inj same).1
      exact .inl holds
    · rw [← cons_append, ← append_assoc] at split
      obtain ⟨rfl, same⟩ := append_inj' split rfl
      obtain rfl := (List.cons.inj same).1
      refine .inr ⟨⟨before, event, earlier, rfl, holds, fun later member => ?_⟩, ?_⟩
      · exact quiet later (mem_append_left _ member)
      · exact quiet last (mem_append_right _ mem_cons_self)
  · rintro (holds | ⟨⟨before, event, after, rfl, holds, quiet⟩, keeps⟩)
    · exact ⟨history, last, [], rfl, holds, fun _ member => absurd member not_mem_nil⟩
    · refine ⟨before, event, after ++ [last], by simp, holds, fun later member => ?_⟩
      rcases mem_append.mp member with earlier | final
      · exact quiet later earlier
      · rwa [mem_singleton.mp final]

def countSince (counted kept : E → Prop) [DecidablePred counted] [DecidablePred kept]
    (history : List E) : Nat :=
  (history.rtakeWhile kept).countP counted

theorem countSince_concat (counted kept : E → Prop) [DecidablePred counted] [DecidablePred kept]
    (history : List E) (last : E) :
    countSince counted kept (history ++ [last]) =
      if kept last then countSince counted kept history + (if counted last then 1 else 0)
      else 0 := by
  rw [countSince, rtakeWhile_concat]
  by_cases keeps : kept last
  · rw [if_pos (decide_eq_true keeps), if_pos keeps, countP_append, countP_singleton,
      countSince]
    simp
  · rw [if_neg (by simpa using keeps), if_neg keeps]
    rfl

end Foundation
