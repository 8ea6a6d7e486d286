import Mathlib

/-! # First occurrences

A list that repeats items may be compared with one that does not by the first occurrences of its
items, in order. `Foundation.SameFirsts` says that two lists have the same first occurrences
wherever they stand; what repeats items that came before adds none
(`Foundation.SameFirsts.absorb`).
-/

namespace Foundation

open List

variable {α : Type*} [BEq α] [LawfulBEq α]

theorem eraseDups_append_of_subset {first second : List α} (known : second ⊆ first) :
    (first ++ second).eraseDups = first.eraseDups := by
  have none : second.removeAll first = [] := by
    rw [List.removeAll, filter_eq_nil_iff]
    intro item member
    simpa using known member
  rw [eraseDups_append, none]
  exact append_nil _

theorem eraseDups_append_congr {first other : List α} (same : first.eraseDups = other.eraseDups)
    (second : List α) : (first ++ second).eraseDups = (other ++ second).eraseDups := by
  have members : ∀ item, item ∈ first ↔ item ∈ other := by
    intro item
    rw [← mem_eraseDups, same, mem_eraseDups]
  have new : second.removeAll first = second.removeAll other := by
    rw [List.removeAll, List.removeAll]
    refine filter_congr fun item _ => ?_
    simp [members item]
  rw [eraseDups_append, eraseDups_append, same, new]

theorem eraseDups_of_nodup {items : List α} (distinct : items.Nodup) : items.eraseDups = items := by
  induction items with
  | nil => rfl
  | cons item items ih =>
    obtain ⟨new, distinct⟩ := nodup_cons.mp distinct
    have others : items.filter (fun other => !other == item) = items := by
      rw [filter_eq_self]
      intro other member
      have different : other ≠ item := fun same => new (same ▸ member)
      simpa using different
    rw [eraseDups_cons, others, ih distinct]

def SameFirsts (first second : List α) : Prop :=
  ∀ before : List α, (before ++ first).eraseDups = (before ++ second).eraseDups

namespace SameFirsts

variable {first second third fourth : List α}

omit [LawfulBEq α] in
theorem refl (items : List α) : SameFirsts items items := fun _ => rfl

omit [LawfulBEq α] in
theorem trans (left : SameFirsts first second) (right : SameFirsts second third) :
    SameFirsts first third := fun before => (left before).trans (right before)

theorem append (left : SameFirsts first second) (right : SameFirsts third fourth) :
    SameFirsts (first ++ third) (second ++ fourth) := by
  intro before
  rw [← append_assoc, ← append_assoc, right (before ++ first)]
  exact eraseDups_append_congr (left before) fourth

/-- Items that came before may be repeated. -/
theorem absorb (known : second ⊆ first) : SameFirsts (first ++ second) first := by
  intro before
  rw [← append_assoc]
  exact eraseDups_append_of_subset fun item member => mem_append_right _ (known member)

theorem eraseDups_eq (same : SameFirsts first second) (distinct : second.Nodup) :
    first.eraseDups = second := by
  have here := same []
  rwa [nil_append, nil_append, eraseDups_of_nodup distinct] at here

end SameFirsts

end Foundation
