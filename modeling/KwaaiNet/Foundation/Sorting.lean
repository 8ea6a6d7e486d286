import Mathlib

/-! # Sorting by comparison

A comparison refines a key when a smaller key always comes first, whatever the comparison
says about items with equal keys. A sort orders its input by every key that its comparison
refines, even where the comparison is no order on items with equal keys: a single insertion
already has this property (`Foundation.Sorter.insertion`).
-/

namespace Foundation

open List

variable {α : Type*} {κ : Type} [LinearOrder κ] {compare : α → α → Ordering} {key : α → κ}

/-- Items with a smaller key come first. -/
def Refines (compare : α → α → Ordering) (key : α → κ) : Prop :=
  ∀ first second, key first < key second →
    compare first second = .lt ∧ compare second first = .gt

/-- A sort by comparison: a rearrangement, ordered by every key the comparison refines. -/
structure Sorter (α : Type*) where
  sort : (α → α → Ordering) → List α → List α
  perm : ∀ compare items, (sort compare items).Perm items
  ordered : ∀ {κ : Type} [LinearOrder κ] {compare : α → α → Ordering} {key : α → κ},
    Refines compare key → ∀ items, (sort compare items).Pairwise fun a b => key a ≤ key b

theorem Sorter.key_le {sorter : Sorter α} (refines : Refines compare key) {items rest : List α}
    {first other : α} (sorted : sorter.sort compare items = first :: rest)
    (member : other ∈ items) : key first ≤ key other := by
  have present := (sorter.perm compare items).mem_iff.mpr member
  have ordered := sorter.ordered refines items
  rw [sorted] at present ordered
  rcases mem_cons.mp present with rfl | later
  · exact le_rfl
  · exact (pairwise_cons.mp ordered).1 other later

theorem Sorter.sort_singleton {sorter : Sorter α} (item : α) :
    sorter.sort compare [item] = [item] :=
  perm_singleton.mp (sorter.perm compare [item])

/-! ## Insertion -/

def insertBack (compare : α → α → Ordering) (item : α) : List α → List α
  | [] => [item]
  | last :: before =>
    if compare item last = .lt then last :: insertBack compare item before
    else item :: last :: before

def insertionSort (compare : α → α → Ordering) (items : List α) : List α :=
  (items.foldl (fun sorted item => insertBack compare item sorted) []).reverse

theorem insertBack_perm (item : α) (sorted : List α) :
    (insertBack compare item sorted).Perm (item :: sorted) := by
  induction sorted with
  | nil => exact .refl _
  | cons last before ih =>
    rw [insertBack]
    split
    · exact (ih.cons last).trans (.swap item last before)
    · exact .refl _

theorem insertBack_ordered (refines : Refines compare key) (item : α) {sorted : List α}
    (ordered : sorted.Pairwise fun a b => key b ≤ key a) :
    (insertBack compare item sorted).Pairwise fun a b => key b ≤ key a := by
  induction sorted with
  | nil => exact pairwise_singleton _ _
  | cons last before ih =>
    obtain ⟨below, rest⟩ := pairwise_cons.mp ordered
    rw [insertBack]
    split
    case isTrue earlier =>
      have bounded : key item ≤ key last := by
        refine le_of_not_gt fun later => ?_
        rw [(refines last item later).2] at earlier
        cases earlier
      refine pairwise_cons.mpr ⟨fun other member => ?_, ih rest⟩
      rcases mem_cons.mp ((insertBack_perm item before).mem_iff.mp member) with rfl | old
      · exact bounded
      · exact below other old
    case isFalse later =>
      have bounded : key last ≤ key item := by
        refine le_of_not_gt fun earlier => later ?_
        exact (refines item last earlier).1
      refine pairwise_cons.mpr ⟨fun other member => ?_, ordered⟩
      rcases mem_cons.mp member with rfl | old
      · exact bounded
      · exact (below other old).trans bounded

theorem foldl_insertBack_perm (compare : α → α → Ordering) (items sorted : List α) :
    (items.foldl (fun sorted item => insertBack compare item sorted) sorted).Perm
      (items ++ sorted) := by
  induction items generalizing sorted with
  | nil => exact .refl _
  | cons item items ih =>
    refine (ih _).trans (((insertBack_perm item sorted).append_left items).trans ?_)
    exact perm_middle

theorem foldl_insertBack_ordered (refines : Refines compare key) (items : List α)
    {sorted : List α} (ordered : sorted.Pairwise fun a b => key b ≤ key a) :
    (items.foldl (fun sorted item => insertBack compare item sorted) sorted).Pairwise
      fun a b => key b ≤ key a := by
  induction items generalizing sorted with
  | nil => exact ordered
  | cons item items ih => exact ih (insertBack_ordered refines item ordered)

theorem insertionSort_perm (compare : α → α → Ordering) (items : List α) :
    (insertionSort compare items).Perm items := by
  have all := foldl_insertBack_perm compare items []
  rw [append_nil] at all
  exact (reverse_perm _).trans all

theorem insertionSort_ordered (refines : Refines compare key) (items : List α) :
    (insertionSort compare items).Pairwise fun a b => key a ≤ key b :=
  pairwise_reverse.mpr (foldl_insertBack_ordered refines items .nil)

/-- **Insertion is a sort**, for comparisons of every kind. -/
def Sorter.insertion : Sorter α where
  sort := insertionSort
  perm := insertionSort_perm
  ordered := insertionSort_ordered

end Foundation
