import Mathlib

/-! # Selecting the last maximum of a list

An iterator that keeps the greatest element seen so far and replaces it on ties
returns the last of the greatest elements. `Foundation.maxByKey_eq_some_iff`
says exactly which occurrence that is, so that callers never look at the fold.
-/

namespace Foundation

open List

variable {α β : Type*} [LinearOrder β]

def maxByKey (key : α → β) : List α → Option α
  | [] => none
  | first :: rest =>
    some (rest.foldl (fun best next => if key best ≤ key next then next else best) first)

/-- An element is selected at an occurrence when nothing before it has a greater
key and everything after it has a smaller one. -/
structure SelectedAt (key : α → β) (items before : List α) (item : α) (after : List α) :
    Prop where
  split : items = before ++ item :: after
  before_le : ∀ other ∈ before, key other ≤ key item
  after_lt : ∀ other ∈ after, key other < key item

theorem SelectedAt.mem {key : α → β} {items before after : List α} {item : α}
    (selected : SelectedAt key items before item after) : item ∈ items := by
  rw [selected.split]
  exact mem_append_right _ mem_cons_self

theorem SelectedAt.le {key : α → β} {items before after : List α} {item other : α}
    (selected : SelectedAt key items before item after) (member : other ∈ items) :
    key other ≤ key item := by
  rw [selected.split, mem_append, mem_cons] at member
  rcases member with earlier | rfl | later
  · exact selected.before_le other earlier
  · exact le_rfl
  · exact (selected.after_lt other later).le

/-- The fold behind `maxByKey` selects an occurrence. -/
theorem foldl_selectedAt (key : α → β) (rest : List α) (first : α) :
    ∃ before after, SelectedAt key (first :: rest) before
      (rest.foldl (fun best next => if key best ≤ key next then next else best) first) after := by
  induction rest generalizing first with
  | nil => exact ⟨[], [], rfl, by simp, by simp⟩
  | cons next rest ih =>
    rw [foldl_cons]
    by_cases replaced : key first ≤ key next
    · rw [if_pos replaced]
      obtain ⟨before, after, selected⟩ := ih next
      refine ⟨first :: before, after, ?_, ?_, selected.after_lt⟩
      · rw [cons_append, ← selected.split]
      · intro other member
        rcases mem_cons.mp member with rfl | earlier
        · exact replaced.trans (selected.le mem_cons_self)
        · exact selected.before_le other earlier
    · rw [if_neg replaced]
      obtain ⟨before, after, selected⟩ := ih first
      have smaller : key next < key first := lt_of_not_ge replaced
      cases before with
      | nil =>
        obtain ⟨same, tail⟩ := List.cons.inj selected.split
        refine ⟨[], next :: after, ?_, by simp, ?_⟩
        · rw [nil_append, ← same, ← tail]
        · intro other member
          rcases mem_cons.mp member with rfl | later
          · exact smaller.trans_le (selected.le mem_cons_self)
          · exact selected.after_lt other later
      | cons head before =>
        obtain ⟨same, tail⟩ := List.cons.inj selected.split
        subst same
        refine ⟨first :: next :: before, after, ?_, ?_, selected.after_lt⟩
        · exact congrArg (fun suffix => first :: next :: suffix) tail
        · intro other member
          rcases mem_cons.mp member with rfl | later
          · exact selected.before_le other mem_cons_self
          · rcases mem_cons.mp later with rfl | later
            · exact smaller.le.trans (selected.before_le first mem_cons_self)
            · exact selected.before_le other (mem_cons_of_mem _ later)

theorem SelectedAt.unique {key : α → β} {items before before' after after' : List α}
    {item item' : α} (first : SelectedAt key items before item after)
    (second : SelectedAt key items before' item' after') : item = item' := by
  have split : before ++ item :: after = before' ++ item' :: after' :=
    first.split.symm.trans second.split
  rcases append_eq_append_iff.mp split with ⟨middle, rfl, tail⟩ | ⟨middle, rfl, tail⟩
  · cases middle with
    | nil => exact (List.cons.inj tail).1
    | cons head middle =>
      obtain ⟨rfl, rest⟩ := List.cons.inj tail
      have below := first.after_lt item' (by rw [rest]; simp)
      have above := second.before_le item (by simp)
      exact (not_lt_of_ge above below).elim
  · cases middle with
    | nil => exact (List.cons.inj tail).1.symm
    | cons head middle =>
      obtain ⟨rfl, rest⟩ := List.cons.inj tail
      have below := second.after_lt item (by rw [rest]; simp)
      have above := first.before_le item' (by simp)
      exact (not_lt_of_ge above below).elim

/-- **What `maxByKey` returns.** The selected element is the one at an occurrence
with no greater key before it and only smaller keys after it. -/
theorem maxByKey_eq_some_iff (key : α → β) (items : List α) (item : α) :
    maxByKey key items = some item ↔ ∃ before after, SelectedAt key items before item after := by
  cases items with
  | nil =>
    constructor
    · intro impossible
      exact (Option.some_ne_none _ impossible.symm).elim
    · rintro ⟨before, after, selected⟩
      exact (append_ne_nil_of_right_ne_nil _ (cons_ne_nil _ _)
        selected.split.symm).elim
  | cons first rest =>
    obtain ⟨before, after, selected⟩ := foldl_selectedAt key rest first
    constructor
    · intro found
      obtain rfl := Option.some.inj found
      exact ⟨before, after, selected⟩
    · rintro ⟨before', after', selected'⟩
      exact congrArg some (selected.unique selected')

@[simp] theorem maxByKey_eq_none_iff (key : α → β) (items : List α) :
    maxByKey key items = none ↔ items = [] := by
  cases items <;> simp [maxByKey]

theorem maxByKey_filter_eq_some_iff (key : α → β) (test : α → Bool) (items : List α) (item : α) :
    maxByKey key (items.filter test) = some item ↔
      ∃ before after, items = before ++ item :: after ∧ test item = true ∧
        (∀ other ∈ before, test other = true → key other ≤ key item) ∧
        (∀ other ∈ after, test other = true → key other < key item) := by
  rw [maxByKey_eq_some_iff]
  constructor
  · rintro ⟨before, after, selected⟩
    obtain ⟨front, rest, split, frontEq, restEq⟩ := filter_eq_append_iff.mp selected.split
    obtain ⟨skipped, back, restSplit, skippedFails, passes, backEq⟩ :=
      filter_eq_cons_iff.mp restEq
    refine ⟨front ++ skipped, back, ?_, passes, ?_, ?_⟩
    · rw [split, restSplit, append_assoc]
    · intro other member passed
      rcases mem_append.mp member with inFront | inSkipped
      · exact selected.before_le other (frontEq ▸ mem_filter.mpr ⟨inFront, passed⟩)
      · exact (skippedFails other inSkipped passed).elim
    · intro other member passed
      exact selected.after_lt other (backEq ▸ mem_filter.mpr ⟨member, passed⟩)
  · rintro ⟨before, after, rfl, passes, below, above⟩
    refine ⟨before.filter test, after.filter test, ?_, ?_, ?_⟩
    · rw [filter_append, filter_cons_of_pos passes]
    · intro other member
      exact below other (mem_filter.mp member).1 (mem_filter.mp member).2
    · intro other member
      exact above other (mem_filter.mp member).1 (mem_filter.mp member).2

end Foundation
