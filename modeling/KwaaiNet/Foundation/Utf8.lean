import Mathlib

/-! # Byte positions in texts

Texts are stored in UTF-8, and positions in them count bytes. A text can be cut at a position only
if that stands between two characters; `Foundation.Utf8.splitAt_eq_some_iff` says where that is.
-/

namespace Foundation.Utf8

def width (text : List Char) : Nat := (text.map Char.utf8Size).sum

def splitAt : List Char → Nat → Option (List Char × List Char)
  | text, 0 => some ([], text)
  | [], _ + 1 => none
  | character :: text, position + 1 =>
    if character.utf8Size ≤ position + 1 then
      (splitAt text (position + 1 - character.utf8Size)).map fun parts =>
        (character :: parts.1, parts.2)
    else none

/-- `&text[..position]`, which panics inside a character or behind the end. -/
def sliceTo (text : List Char) (position : Nat) : Option (List Char) :=
  (splitAt text position).map Prod.fst

/-- The position stands between two characters, or at an end. -/
def IsBoundary (text : List Char) (position : Nat) : Prop :=
  ∃ front back, text = front ++ back ∧ width front = position

theorem width_nil : width [] = 0 := rfl

theorem width_cons (character : Char) (text : List Char) :
    width (character :: text) = character.utf8Size + width text := rfl

theorem width_append (first second : List Char) :
    width (first ++ second) = width first + width second := by
  rw [width, List.map_append, List.sum_append]
  rfl

theorem eq_nil_of_width_eq_zero {text : List Char} (empty : width text = 0) : text = [] := by
  cases text with
  | nil => rfl
  | cons character text =>
    have positive := character.utf8Size_pos
    rw [width_cons] at empty
    omega

theorem splitAt_zero (text : List Char) : splitAt text 0 = some ([], text) := by
  cases text <;> rfl

theorem splitAt_append (front back : List Char) :
    splitAt (front ++ back) (width front) = some (front, back) := by
  induction front with
  | nil => exact splitAt_zero back
  | cons character front ih =>
    obtain ⟨size, positive⟩ := Nat.exists_eq_succ_of_ne_zero character.utf8Size_pos.ne'
    have total : width (character :: front) = size + width front + 1 := by
      rw [width_cons, positive]
      omega
    have rest : size + width front + 1 - character.utf8Size = width front := by omega
    rw [total, List.cons_append, splitAt, if_pos (by omega), rest, ih]
    rfl

theorem eq_append_of_splitAt {text front back : List Char} {position : Nat}
    (cut : splitAt text position = some (front, back)) :
    text = front ++ back ∧ width front = position := by
  induction text generalizing front position with
  | nil =>
    cases position with
    | zero =>
      obtain ⟨rfl, rfl⟩ := Prod.mk.inj (Option.some.inj cut)
      exact ⟨rfl, rfl⟩
    | succ position => cases cut
  | cons character text ih =>
    cases position with
    | zero =>
      obtain ⟨rfl, rfl⟩ := Prod.mk.inj (Option.some.inj cut)
      exact ⟨rfl, rfl⟩
    | succ position =>
      rw [splitAt] at cut
      split_ifs at cut with fits
      obtain ⟨⟨before, behind⟩, done, same⟩ := Option.map_eq_some_iff.mp cut
      obtain ⟨rfl, rfl⟩ := Prod.mk.inj same
      obtain ⟨rfl, size⟩ := ih done
      refine ⟨rfl, ?_⟩
      rw [width_cons, size]
      omega

theorem splitAt_eq_some_iff {text front back : List Char} {position : Nat} :
    splitAt text position = some (front, back) ↔ text = front ++ back ∧ width front = position := by
  refine ⟨eq_append_of_splitAt, fun cut => ?_⟩
  rw [cut.1, ← cut.2, splitAt_append]

theorem isSome_sliceTo_iff {text : List Char} {position : Nat} :
    (sliceTo text position).isSome = true ↔ IsBoundary text position := by
  rw [sliceTo, Option.isSome_map, Option.isSome_iff_exists]
  constructor
  · intro found
    obtain ⟨⟨front, back⟩, cut⟩ := found
    exact ⟨front, back, eq_append_of_splitAt cut⟩
  · intro boundary
    obtain ⟨front, back, cut⟩ := boundary
    exact ⟨(front, back), splitAt_eq_some_iff.mpr cut⟩

end Foundation.Utf8
