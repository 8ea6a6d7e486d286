import Mathlib

/-! # The best items by score

A list is ranked when its scores do not increase. What a ranked list begins with is no worse
than what it goes on with (`Foundation.Ranked.le_of_notMem_take`). A list of nearest items holds
the items of a population with the greatest scores, as many as were asked for, in order; the
items of it that pass a test begin with the best of all items that pass the test
(`Foundation.Nearest.le_of_notMem_take_filter`).
-/

namespace Foundation

open List

variable {ι S : Type*} [LinearOrder S] {score : ι → S}

/-- Scores do not increase along the list. -/
def Ranked (score : ι → S) (items : List ι) : Prop :=
  items.Pairwise fun first second => score second ≤ score first

theorem Ranked.filter {items : List ι} (ranked : Ranked score items) (test : ι → Bool) :
    Ranked score (items.filter test) :=
  List.Pairwise.filter test ranked

theorem Ranked.le_of_notMem_take {items : List ι} (ranked : Ranked score items) {n : Nat}
    {item other : ι} (member : item ∈ items) (left : item ∉ items.take n)
    (taken : other ∈ items.take n) : score item ≤ score other := by
  unfold Ranked at ranked
  rw [← take_append_drop n items] at ranked member
  rcases mem_append.mp member with first | later
  · exact absurd first left
  · exact (pairwise_append.mp ranked).2.2 other taken item later

/-- The best `k` items of a population, in order; all of it where it is smaller. -/
structure Nearest (score : ι → S) (population : Finset ι) (k : Nat) (chosen : List ι) : Prop where
  nodup : chosen.Nodup
  inside : ∀ item ∈ chosen, item ∈ population
  count : chosen.length = min k population.card
  ranked : Ranked score chosen
  best : ∀ item ∈ population, item ∉ chosen → ∀ other ∈ chosen, score item ≤ score other

theorem Nearest.le_of_notMem_take_filter {population : Finset ι} {k n : Nat} {chosen : List ι}
    (nearest : Nearest score population k chosen) {test : ι → Bool} {item other : ι}
    (member : item ∈ population) (passes : test item = true)
    (left : item ∉ (chosen.filter test).take n) (taken : other ∈ (chosen.filter test).take n) :
    score item ≤ score other := by
  by_cases found : item ∈ chosen
  · exact (nearest.ranked.filter test).le_of_notMem_take
      (mem_filter.mpr ⟨found, passes⟩) left taken
  · exact nearest.best item member found other
      (mem_filter.mp (mem_of_mem_take taken)).1

/-- If the population holds `k` items that are all better than another one, that one is not
among the nearest `k`. -/
theorem Nearest.notMem_of_better {population better : Finset ι} {k : Nat} {chosen : List ι}
    (nearest : Nearest score population k chosen) (inside : better ⊆ population)
    (enough : k ≤ better.card) {item : ι}
    (worse : ∀ other ∈ better, score item < score other) : item ∉ chosen := by
  classical
  intro found
  -- all better items are chosen as well, which makes one too many
  have all : ∀ other ∈ better, other ∈ chosen := by
    intro other member
    by_contra missing
    exact absurd (nearest.best other (inside member) missing item found)
      (not_le_of_gt (worse other member))
  have apart : item ∉ better := fun member => lt_irrefl _ (worse item member)
  have many : (insert item better).card ≤ chosen.toFinset.card := by
    apply Finset.card_le_card
    intro other member
    rcases Finset.mem_insert.mp member with rfl | old
    · exact mem_toFinset.mpr found
    · exact mem_toFinset.mpr (all other old)
  rw [Finset.card_insert_of_notMem apart, toFinset_card_of_nodup nearest.nodup,
    nearest.count] at many
  omega

end Foundation
