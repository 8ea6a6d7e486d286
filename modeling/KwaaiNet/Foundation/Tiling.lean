import Mathlib

/-! # Half-open ranges and their tilings

A list of ranges tiles an interval when each range is nonempty and starts where
the previous one stops. Tilings are exactly the lists of nonempty ranges whose
points, read one range after another, enumerate the interval once and in order
(`Foundation.tiles_iff_flatMap_points`).
-/

namespace Foundation

open List

/-- A half-open range of natural numbers. -/
structure Span where
  start : Nat
  stop : Nat
  deriving DecidableEq, Repr

namespace Span

/-- The points of a range, in order; none when it is empty or reversed. -/
def points (span : Span) : List Nat := List.range' span.start (span.stop - span.start)

@[simp] theorem mem_points (span : Span) (point : Nat) :
    point ∈ span.points ↔ span.start ≤ point ∧ point < span.stop := by
  rw [points, mem_range'_1]
  omega

end Span

/-- Consecutive ranges leading from one point to another. Some of them may be empty. -/
inductive Consecutive : Nat → List Span → Nat → Prop where
  | nil (point : Nat) : Consecutive point [] point
  | cons {span : Span} {rest : List Span} {stop : Nat} :
      span.start ≤ span.stop → Consecutive span.stop rest stop →
        Consecutive span.start (span :: rest) stop

namespace Consecutive

variable {start stop : Nat} {spans : List Span}

theorem le (consecutive : Consecutive start spans stop) : start ≤ stop := by
  induction consecutive with
  | nil => exact le_rfl
  | cons ordered _ ih => exact ordered.trans ih

theorem flatMap_points (consecutive : Consecutive start spans stop) :
    spans.flatMap Span.points = List.range' start (stop - start) := by
  induction consecutive with
  | nil => simp
  | @cons span rest stop ordered tail ih =>
    have reached := tail.le
    rw [flatMap_cons, ih, Span.points]
    have boundary : span.stop = span.start + 1 * (span.stop - span.start) := by omega
    rw [show List.range' span.stop (stop - span.stop) =
        List.range' (span.start + 1 * (span.stop - span.start)) (stop - span.stop) from by
      rw [← boundary], List.range'_append]
    congr 1
    omega

theorem countP_mem_points (consecutive : Consecutive start spans stop) (point : Nat) :
    spans.countP (fun span => point ∈ span.points) =
      if start ≤ point ∧ point < stop then 1 else 0 := by
  induction consecutive with
  | nil => rw [countP_nil, if_neg (by omega)]
  | @cons span rest stop ordered tail ih =>
    have reached := tail.le
    rw [countP_cons, ih]
    simp only [decide_eq_true_eq, Span.mem_points]
    split_ifs <;> omega

theorem eq_of_nil (consecutive : Consecutive start [] stop) : start = stop := by
  cases consecutive
  rfl

theorem exists_start (consecutive : Consecutive start spans stop) (full : spans ≠ []) :
    ∃ span ∈ spans, span.start = start := by
  cases consecutive with
  | nil => exact absurd rfl full
  | cons => exact ⟨_, mem_cons_self, rfl⟩

theorem exists_stop (consecutive : Consecutive start spans stop) (full : spans ≠ []) :
    ∃ span ∈ spans, span.stop = stop := by
  induction consecutive with
  | nil => exact absurd rfl full
  | @cons span rest stop _ tail ih =>
    rcases eq_or_ne rest [] with rfl | more
    · exact ⟨span, mem_cons_self, tail.eq_of_nil⟩
    · obtain ⟨last, member, ends⟩ := ih more
      exact ⟨last, mem_cons_of_mem _ member, ends⟩

end Consecutive

/-- Consecutive nonempty ranges leading from one point to another. -/
inductive Tiles : Nat → List Span → Nat → Prop where
  | nil (point : Nat) : Tiles point [] point
  | cons {span : Span} {rest : List Span} {stop : Nat} :
      span.start < span.stop → Tiles span.stop rest stop → Tiles span.start (span :: rest) stop

theorem Tiles.consecutive {start stop : Nat} {spans : List Span} (tiles : Tiles start spans stop) :
    Consecutive start spans stop := by
  induction tiles with
  | nil point => exact .nil point
  | cons nonempty _ ih => exact .cons nonempty.le ih

theorem Tiles.le {start stop : Nat} {spans : List Span} (tiles : Tiles start spans stop) :
    start ≤ stop :=
  tiles.consecutive.le

theorem Tiles.flatMap_points {start stop : Nat} {spans : List Span}
    (tiles : Tiles start spans stop) :
    spans.flatMap Span.points = List.range' start (stop - start) :=
  tiles.consecutive.flatMap_points

theorem tiles_of_flatMap_points (spans : List Span) (start length : Nat)
    (nonempty : ∀ span ∈ spans, span.start < span.stop)
    (enumerated : spans.flatMap Span.points = List.range' start length) :
    Tiles start spans (start + length) := by
  induction spans generalizing start length with
  | nil =>
    have empty : length = 0 := by
      have sizes := congrArg List.length enumerated
      simpa using sizes.symm
    subst empty
    exact .nil start
  | cons span rest ih =>
    have inside := nonempty span mem_cons_self
    obtain ⟨extra, size⟩ : ∃ extra, span.stop - span.start = extra + 1 :=
      ⟨span.stop - span.start - 1, by omega⟩
    rw [flatMap_cons, Span.points, size] at enumerated
    have sizes := congrArg List.length enumerated
    rw [length_append, length_range', length_range'] at sizes
    -- The first point of the first range is the first point of the interval.
    have heads := congrArg List.head? enumerated
    rw [List.range'_succ, cons_append, List.head?_cons] at heads
    obtain ⟨shorter, rfl⟩ : ∃ shorter, length = shorter + 1 := ⟨length - 1, by omega⟩
    rw [List.range'_succ, List.head?_cons, Option.some.injEq] at heads
    subst heads
    have parts : List.range' span.start (shorter + 1) =
        List.range' span.start (extra + 1) ++
          List.range' (span.start + 1 * (extra + 1)) (shorter + 1 - (extra + 1)) := by
      rw [List.range'_append]
      congr 1
      omega
    rw [parts] at enumerated
    have tail := append_cancel_left enumerated
    have boundary : span.start + 1 * (extra + 1) = span.stop := by omega
    rw [boundary] at tail
    have tiled := ih span.stop _ (fun other member =>
      nonempty other (mem_cons_of_mem _ member)) tail
    rw [show span.stop + (shorter + 1 - (extra + 1)) = span.start + (shorter + 1) by omega]
      at tiled
    exact .cons inside tiled

/-- **Tilings are ordered enumerations.** Nonempty ranges tile `0, ..., stop - 1`
exactly when reading their points in turn lists these numbers. -/
theorem tiles_iff_flatMap_points (spans : List Span) (stop : Nat)
    (nonempty : ∀ span ∈ spans, span.start < span.stop) :
    Tiles 0 spans stop ↔ spans.flatMap Span.points = List.range stop := by
  rw [range_eq_range']
  constructor
  · intro tiles
    simpa using tiles.flatMap_points
  · intro enumerated
    simpa using tiles_of_flatMap_points spans 0 stop nonempty enumerated

end Foundation
