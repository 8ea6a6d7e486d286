import Mathlib

/-! # Overlapping intervals that lead to a goal

A list of half-open intervals leads from a position to a goal when each interval contains
the position reached so far, moves it to its own end, and the last end is at or beyond the
goal. Such a list covers every point on the way, and a linked list that covers every point
on the way leads to the goal (`Foundation.leads_of_covers`). Taking at each position the
interval that reaches farthest gives a list that no other list undercuts
(`Foundation.Farthest.length_le`).
-/

namespace Foundation

open List

variable {ι τ : Type*} [LinearOrder τ] {start stop : ι → τ} {goal : τ}

def Contains (start stop : ι → τ) (point : τ) (item : ι) : Prop :=
  start item ≤ point ∧ point < stop item

/-- The intervals lead from a position to the goal. -/
inductive Leads (start stop : ι → τ) (goal : τ) : τ → List ι → Prop where
  | done {pos : τ} : goal ≤ pos → Leads start stop goal pos []
  | hop {pos : τ} {item : ι} {rest : List ι} :
      Contains start stop pos item → Leads start stop goal (stop item) rest →
      Leads start stop goal pos (item :: rest)

/-- Each interval contains the end of its predecessor. -/
def Linked (start stop : ι → τ) (items : List ι) : Prop :=
  items.IsChain fun before item => Contains start stop (stop before) item

theorem Leads.first {pos : τ} {items : List ι} (leads : Leads start stop goal pos items) :
    ∀ item ∈ items.head?, Contains start stop pos item := by
  intro item found
  cases leads with
  | done _ => cases found
  | hop contains _ =>
    obtain rfl := Option.some.inj found
    exact contains

theorem Leads.linked {pos : τ} {items : List ι} (leads : Leads start stop goal pos items) :
    Linked start stop items := by
  induction leads with
  | done _ => exact isChain_nil
  | hop _ rest ih => exact isChain_cons.mpr ⟨rest.first, ih⟩

theorem Leads.lt_stop {pos : τ} {items : List ι} (leads : Leads start stop goal pos items) :
    ∀ item ∈ items, pos < stop item := by
  induction leads with
  | done _ => intro item member; cases member
  | hop contains _ ih =>
    exact forall_mem_cons.mpr
      ⟨contains.2, fun item later => contains.2.trans (ih item later)⟩

/-- The ends of the intervals increase. -/
theorem Leads.increasing {pos : τ} {items : List ι} (leads : Leads start stop goal pos items) :
    (items.map stop).Pairwise (· < ·) := by
  induction leads with
  | done _ => exact .nil
  | hop _ rest ih => exact .cons (forall_mem_map.mpr rest.lt_stop) ih

theorem Leads.covers {pos : τ} {items : List ι} (leads : Leads start stop goal pos items)
    {point : τ} (after : pos ≤ point) (before : point < goal) :
    ∃ item ∈ items, Contains start stop point item := by
  induction leads with
  | done reached => exact absurd (before.trans_le reached) (not_lt_of_ge after)
  | @hop pos item rest contains _ ih =>
    by_cases inside : point < stop item
    · exact ⟨item, mem_cons_self, contains.1.trans after, inside⟩
    · obtain ⟨other, member, found⟩ := ih (le_of_not_gt inside)
      exact ⟨other, mem_cons_of_mem _ member, found⟩

theorem leads_of_covers {pos : τ} {items : List ι}
    (first : ∀ item ∈ items.head?, Contains start stop pos item)
    (linked : Linked start stop items)
    (covers : ∀ point, pos ≤ point → point < goal →
      ∃ item ∈ items, Contains start stop point item) :
    Leads start stop goal pos items := by
  induction items generalizing pos with
  | nil =>
    refine .done (le_of_not_gt fun before => ?_)
    obtain ⟨item, member, _⟩ := covers pos le_rfl before
    cases member
  | cons item rest ih =>
    have contains := first item rfl
    obtain ⟨next, tail⟩ := isChain_cons.mp linked
    refine .hop contains (ih next tail fun point after before => ?_)
    obtain ⟨other, member, found⟩ := covers point (contains.2.le.trans after) before
    rcases mem_cons.mp member with rfl | later
    · exact absurd found.2 (not_lt_of_ge after)
    · exact ⟨other, later, found⟩

/-! ## Always reaching farthest -/

/-- The list takes, at each position before the goal, an available interval with the
greatest end. -/
inductive Farthest (start stop : ι → τ) (available : ι → Prop) (goal : τ) :
    τ → List ι → Prop where
  | done {pos : τ} : goal ≤ pos → Farthest start stop available goal pos []
  | hop {pos : τ} {item : ι} {rest : List ι} :
      pos < goal → available item → Contains start stop pos item →
      (∀ other, available other → Contains start stop pos other → stop other ≤ stop item) →
      Farthest start stop available goal (stop item) rest →
      Farthest start stop available goal pos (item :: rest)

variable {available : ι → Prop}

theorem Farthest.leads {pos : τ} {items : List ι}
    (farthest : Farthest start stop available goal pos items) :
    Leads start stop goal pos items := by
  induction farthest with
  | done reached => exact .done reached
  | hop _ _ contains _ _ ih => exact .hop contains ih

theorem Farthest.offered {pos : τ} {items : List ι}
    (farthest : Farthest start stop available goal pos items) :
    ∀ item ∈ items, available item := by
  induction farthest with
  | done _ => intro item member; cases member
  | hop _ offered _ _ _ ih => exact forall_mem_cons.mpr ⟨offered, ih⟩

/-- **Reaching farthest stays ahead.** A list of available intervals that leads to the goal
from a position no farther is no shorter. -/
theorem Farthest.length_le {pos behind : τ} {items others : List ι}
    (farthest : Farthest start stop available goal pos items) (ahead : behind ≤ pos)
    (offered : ∀ other ∈ others, available other) (leads : Leads start stop goal behind others) :
    items.length ≤ others.length := by
  induction farthest generalizing behind others with
  | done _ => exact Nat.zero_le _
  | @hop pos item rest before _ contains greatest _ ih =>
    cases leads with
    | done reached => exact absurd (before.trans_le reached) (not_lt_of_ge ahead)
    | @hop _ other tail otherContains tailLeads =>
      obtain ⟨here, later⟩ := forall_mem_cons.mp offered
      -- an interval that ends at or before the position is behind anyway
      have reaches : stop other ≤ stop item := by
        by_cases beyond : pos < stop other
        · exact greatest other here ⟨otherContains.1.trans ahead, beyond⟩
        · exact (le_of_not_gt beyond).trans contains.2.le
      exact Nat.succ_le_succ (ih reaches later tailLeads)

end Foundation
