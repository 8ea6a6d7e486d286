import Mathlib

/-! # Markers in growing lists

A marker is searched in a list that grows while it is received. Its first position does not move,
and it is found as soon as all of it is there (`Foundation.position_take`). Items joined by the
first half of a doubled separator do not contain the doubled one before their end
(`Foundation.position_intercalate`).
-/

namespace Foundation

open List

variable {α : Type*} [DecidableEq α]

def position (marker : List α) : List α → Option Nat
  | [] => none
  | item :: items =>
    if marker <+: item :: items then some 0 else (position marker items).map (· + 1)

theorem position_of_start {marker items : List α} (nonempty : items ≠ [])
    (starts : marker <+: items) : position marker items = some 0 := by
  cases items with
  | nil => exact absurd rfl nonempty
  | cons item items => rw [position, if_pos starts]

theorem position_cons_of_elsewhere {marker items : List α} {item : α}
    (elsewhere : ¬ marker <+: item :: items) :
    position marker (item :: items) = (position marker items).map (· + 1) := by
  rw [position, if_neg elsewhere]

theorem position_of_short {marker items : List α} (short : items.length < marker.length) :
    position marker items = none := by
  induction items with
  | nil => rfl
  | cons item items ih =>
    rw [position_cons_of_elsewhere fun starts => Nat.not_le.mpr short starts.length_le,
      ih ((Nat.lt_succ_self _).trans short)]
    rfl

theorem position_append_of_notMem {first : α} {marker before : List α}
    (absent : first ∉ before) (after : List α) :
    position (first :: marker) (before ++ after) =
      (position (first :: marker) after).map (· + before.length) := by
  induction before with
  | nil => simp
  | cons item before ih =>
    have elsewhere : ¬ first :: marker <+: item :: (before ++ after) := fun starts =>
      absent (mem_cons.mpr (.inl (cons_prefix_cons.mp starts).1))
    rw [cons_append, position_cons_of_elsewhere elsewhere,
      ih fun member => absent (mem_cons_of_mem _ member), Option.map_map]
    rfl

/-- **Growing lists.** In the first items of a list, a marker is found where it stands in the list,
as soon as all of it is there. -/
theorem position_take {marker : List α} (nonempty : marker ≠ []) (items : List α) (count : Nat) :
    position marker (items.take count) =
      (position marker items).filter fun index => index + marker.length ≤ count := by
  have long : 0 < marker.length := length_pos_iff.mpr nonempty
  induction items generalizing count with
  | nil => rw [take_nil]; rfl
  | cons item items ih =>
    cases count with
    | zero =>
      rw [take_zero, position]
      cases position marker (item :: items) with
      | none => rfl
      | some index => simp [nonempty]
    | succ count =>
      rw [take_succ_cons]
      by_cases starts : marker <+: item :: items
      · rw [position_of_start (cons_ne_nil _ _) starts, Option.filter_some]
        by_cases whole : marker.length ≤ count + 1
        · rw [if_pos (by simpa using whole)]
          refine position_of_start (cons_ne_nil _ _) ?_
          rw [← take_succ_cons]
          exact List.prefix_take_iff.mpr ⟨starts, whole⟩
        · rw [if_neg (by simpa using whole)]
          apply position_of_short
          rw [← take_succ_cons]
          exact (length_take_le _ _).trans_lt (Nat.lt_of_not_le whole)
      · have never : ¬ marker <+: item :: items.take count := fun taken =>
          starts (taken.trans (cons_prefix_cons.mpr ⟨rfl, List.take_prefix _ _⟩))
        rw [position_cons_of_elsewhere never, position_cons_of_elsewhere starts, ih]
        cases position marker items with
        | none => rfl
        | some index =>
          have shifted : index + 1 + marker.length ≤ count + 1 ↔
              index + marker.length ≤ count := by omega
          simp only [Option.map_some, Option.filter_some, shifted]
          split_ifs <;> rfl

theorem position_of_isPrefix {marker before items : List α} (nonempty : marker ≠ [])
    (starts : before <+: items) :
    position marker before =
      (position marker items).filter fun index => index + marker.length ≤ before.length := by
  conv_lhs => rw [List.prefix_iff_eq_take.mp starts]
  exact position_take nonempty items before.length

/-- **Doubled separators.** Between lines that do not have the first item of a separator, a single
separator does not start a doubled one: that stands after the last line first. -/
theorem position_intercalate {first second : α} {line : List α} {lines : List (List α)}
    (clean : ∀ other ∈ line :: lines, first ∉ other) (full : ∀ other ∈ lines, other ≠ [])
    (different : first ≠ second) (after : List α) :
    position [first, second, first, second]
        ([first, second].intercalate (line :: lines) ++
          ([first, second, first, second] ++ after)) =
      some ([first, second].intercalate (line :: lines)).length := by
  induction lines generalizing line with
  | nil =>
    have here : position [first, second, first, second]
        ([first, second, first, second] ++ after) = some 0 :=
      position_of_start (cons_ne_nil _ _) (List.prefix_append _ _)
    rw [intercalate_singleton, position_append_of_notMem (clean line mem_cons_self),
      here]
    exact congrArg some (Nat.zero_add _)
  | cons next lines ih =>
    have later := ih (fun other member => clean other (mem_cons_of_mem _ member))
      fun other member => full other (mem_cons_of_mem _ member)
    obtain ⟨head, tail, rfl⟩ := exists_cons_of_ne_nil (full next mem_cons_self)
    have other : first ≠ head := fun same =>
      clean (head :: tail) (mem_cons_of_mem _ mem_cons_self)
        (same ▸ mem_cons_self)
    obtain ⟨joined, starts⟩ :
        ∃ joined, [first, second].intercalate ((head :: tail) :: lines) = head :: joined := by
      cases lines with
      | nil => exact ⟨tail, intercalate_singleton⟩
      | cons line lines => exact ⟨_, intercalate_cons_cons⟩
    rw [starts] at later
    rw [intercalate_cons_cons, append_assoc, append_assoc,
      position_append_of_notMem (clean line mem_cons_self), starts]
    -- The next line starts with another item, so neither half of the separator starts a marker.
    have halves : position [first, second, first, second]
        ([first, second] ++ (head :: joined ++ ([first, second, first, second] ++ after))) =
          some ((head :: joined).length + 2) := by
      rw [cons_append, position_cons_of_elsewhere, cons_append,
        position_cons_of_elsewhere, nil_append, later]
      · rfl
      · exact fun taken => different (cons_prefix_cons.mp taken).1
      · intro taken
        obtain ⟨_, rest⟩ := cons_prefix_cons.mp taken
        obtain ⟨_, rest⟩ := cons_prefix_cons.mp rest
        exact other (cons_prefix_cons.mp rest).1
    rw [halves, Option.map_some]
    refine congrArg some ?_
    simp only [length_append, length_cons, length_nil]
    omega

end Foundation
