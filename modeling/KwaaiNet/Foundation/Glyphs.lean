import KwaaiNet.Foundation.Text

/-! # Texts whose characters carry marks

A function that cuts and joins texts can be written for characters that carry a mark, such as
their position in a document. The marks then say where the characters of the result come from.
`Foundation.Remark` is a change of marks that keeps the characters; what is computed from the
characters alone commutes with it.
-/

namespace Foundation

open List

/-- A character, possibly with a mark. A text may also be given characters without a mark. -/
class Glyph (α : Type*) where
  char : α → Char
  plain : Char → α
  char_plain : ∀ character, char (plain character) = character

instance Glyph.ofChar : Glyph Char := ⟨id, id, fun _ => rfl⟩

instance Glyph.ofMarked {M : Type*} : Glyph (Char × Option M) :=
  ⟨Prod.fst, fun character => (character, none), fun _ => rfl⟩

namespace Glyph

variable {α : Type*} [Glyph α]

/-- `char::is_whitespace`. -/
def isWhite (glyph : α) : Bool := Text.isWhiteSpace (char glyph)

/-- `str::trim`. -/
def trim (text : List α) : List α := (text.dropWhile isWhite).rdropWhile isWhite

def consFirst (glyph : α) : List (List α) → List (List α)
  | [] => [[glyph]]
  | first :: others => (glyph :: first) :: others

/-- `str::split` at empty lines, `"\n\n"`. -/
def splitEmptyLines : List α → List (List α)
  | [] => [[]]
  | [glyph] => [[glyph]]
  | glyph :: next :: text =>
    if char glyph = '\n' ∧ char next = '\n' then [] :: splitEmptyLines text
    else consFirst glyph (splitEmptyLines (next :: text))

def join (separator : Char) (lines : List (List α)) : List α :=
  [plain separator].intercalate lines

def solid (text : List α) : List α := text.filter fun glyph => !isWhite glyph

@[simp] theorem join_nil (separator : Char) : join separator ([] : List (List α)) = [] := rfl

@[simp] theorem join_singleton (separator : Char) (line : List α) :
    join separator [line] = line := intercalate_singleton

theorem join_cons {lines : List (List α)} (separator : Char) (line : List α) (some : lines ≠ []) :
    join separator (line :: lines) = line ++ plain separator :: join separator lines := by
  obtain ⟨next, rest, rfl⟩ := exists_cons_of_ne_nil some
  rw [join, intercalate_cons_cons, append_assoc]
  rfl

theorem join_concat {lines : List (List α)} (separator : Char) (line : List α) (some : lines ≠ []) :
    join separator (lines ++ [line]) = join separator lines ++ plain separator :: line := by
  induction lines with
  | nil => exact absurd rfl some
  | cons first lines ih =>
    cases lines with
    | nil => rw [singleton_append, join_cons _ _ (cons_ne_nil _ _), join_singleton,
        join_singleton]
    | cons next rest =>
      have more : next :: rest ≠ [] := cons_ne_nil _ _
      rw [cons_append, join_cons _ _ (by simp), ih more, join_cons _ _ more,
        append_assoc, cons_append]

theorem length_le_join_concat (separator : Char) (lines : List (List α)) (line : List α) :
    line.length ≤ (join separator (lines ++ [line])).length := by
  by_cases none : lines = []
  · rw [none, nil_append, join_singleton]
  · rw [join_concat _ _ none, length_append, length_cons]
    omega

theorem mem_join {separator : Char} {lines : List (List α)} {glyph : α}
    (member : glyph ∈ join separator lines) :
    glyph = plain separator ∨ ∃ line ∈ lines, glyph ∈ line := by
  induction lines with
  | nil => cases member
  | cons line lines ih =>
    by_cases last : lines = []
    · rw [last, join_singleton] at member
      exact .inr ⟨line, mem_cons_self, member⟩
    · rw [join_cons _ _ last, mem_append, mem_cons] at member
      rcases member with here | between | later
      · exact .inr ⟨line, mem_cons_self, here⟩
      · exact .inl between
      · refine (ih later).imp_right fun found => ?_
        obtain ⟨other, listed, inside⟩ := found
        exact ⟨other, mem_cons_of_mem _ listed, inside⟩

theorem trim_sublist (text : List α) : (trim text).Sublist text :=
  (List.rdropWhile_prefix _ _).sublist.trans (dropWhile_sublist _)

omit [Glyph α] in
theorem flatten_consFirst (glyph : α) (parts : List (List α)) :
    (consFirst glyph parts).flatten = glyph :: parts.flatten := by
  cases parts <;> rfl

theorem flatten_splitEmptyLines_sublist (text : List α) :
    (splitEmptyLines text).flatten.Sublist text := by
  induction text using splitEmptyLines.induct with
  | case1 => exact List.Sublist.refl _
  | case2 glyph => exact List.Sublist.refl _
  | case3 glyph next text ends ih =>
    rw [splitEmptyLines, if_pos ends, flatten_cons, nil_append]
    exact (ih.cons next).cons glyph
  | case4 glyph next text goes ih =>
    rw [splitEmptyLines, if_neg goes, flatten_consFirst]
    exact ih.cons_cons glyph

@[simp] theorem solid_nil : solid ([] : List α) = [] := rfl

@[simp] theorem solid_append (first second : List α) :
    solid (first ++ second) = solid first ++ solid second := filter_append _ _

theorem solid_cons_of_white {glyph : α} (white : isWhite glyph = true) (text : List α) :
    solid (glyph :: text) = solid text := filter_cons_of_neg (by simp [white])

theorem isWhite_lineFeed : isWhite (plain '\n' : α) = true := by
  rw [isWhite, char_plain]
  decide

@[simp] theorem solid_lineFeed (text : List α) : solid (plain '\n' :: text) = solid text :=
  solid_cons_of_white isWhite_lineFeed text

theorem solid_eq_nil_of_white {text : List α} (white : ∀ glyph ∈ text, isWhite glyph = true) :
    solid text = [] :=
  filter_eq_nil_iff.mpr fun glyph member => by simp [white glyph member]

theorem solid_subset {first second : List α} (part : first ⊆ second) :
    solid first ⊆ solid second := filter_subset _ part

/-- Trimming removes white space only. -/
theorem solid_trim (text : List α) : solid (trim text) = solid text := by
  have front : solid (text.dropWhile isWhite) = solid text := by
    have split : text.takeWhile isWhite ++ text.dropWhile isWhite = text :=
      takeWhile_append_dropWhile
    have blank : solid (text.takeWhile isWhite) = [] :=
      solid_eq_nil_of_white fun _ member => mem_takeWhile_imp member
    have parts := congrArg solid split
    rwa [solid_append, blank, nil_append] at parts
  have back (text : List α) : solid (text.rdropWhile isWhite) = solid text := by
    have split : text.rdropWhile isWhite ++ text.rtakeWhile isWhite = text :=
      rdropWhile_append_rtakeWhile
    have blank : solid (text.rtakeWhile isWhite) = [] :=
      solid_eq_nil_of_white fun _ member => mem_rtakeWhile_imp member
    have parts := congrArg solid split
    rwa [solid_append, blank, append_nil] at parts
  rw [trim, back, front]

theorem solid_join (lines : List (List α)) : solid (join '\n' lines) = solid lines.flatten := by
  induction lines with
  | nil => rfl
  | cons line lines ih =>
    by_cases last : lines = []
    · simp [last]
    · rw [join_cons _ _ last, solid_append, solid_lineFeed, ih, flatten_cons, solid_append]

end Glyph

/-! ## Changes of marks -/

theorem Glyph.consFirst_map {α β : Type*} (change : α → β) (glyph : α) (parts : List (List α)) :
    Glyph.consFirst (change glyph) (parts.map (List.map change)) =
      (Glyph.consFirst glyph parts).map (List.map change) := by
  cases parts <;> rfl

/-- A change of marks keeps the characters, and does not mark what has no mark. -/
structure Remark {α β : Type*} [Glyph α] [Glyph β] (change : α → β) : Prop where
  char_eq : ∀ glyph, Glyph.char (change glyph) = Glyph.char glyph
  plain_eq : ∀ character, change (Glyph.plain character) = Glyph.plain character

namespace Remark

variable {α β : Type*} [Glyph α] [Glyph β] {change : α → β} (remark : Remark change)

include remark

theorem isWhite_comp : Glyph.isWhite ∘ change = Glyph.isWhite :=
  funext fun glyph => congrArg Text.isWhiteSpace (remark.char_eq glyph)

theorem map_char (text : List α) : (text.map change).map Glyph.char = text.map Glyph.char := by
  rw [map_map]
  exact map_congr_left fun glyph _ => remark.char_eq glyph

theorem trim_map (text : List α) : Glyph.trim (text.map change) = (Glyph.trim text).map change := by
  rw [Glyph.trim, Glyph.trim, dropWhile_map, List.rdropWhile, List.rdropWhile,
    ← map_reverse, dropWhile_map, ← map_reverse, remark.isWhite_comp]

theorem splitEmptyLines_map (text : List α) :
    Glyph.splitEmptyLines (text.map change) =
      (Glyph.splitEmptyLines text).map (List.map change) := by
  induction text using Glyph.splitEmptyLines.induct with
  | case1 => rfl
  | case2 glyph => rfl
  | case3 glyph next text ends ih =>
    simp only [map_cons, Glyph.splitEmptyLines, remark.char_eq, if_pos ends, ih,
      map_nil]
  | case4 glyph next text goes ih =>
    simp only [map_cons] at ih
    simp only [map_cons, Glyph.splitEmptyLines, remark.char_eq, if_neg goes, ih,
      Glyph.consFirst_map]

theorem join_map (separator : Char) (lines : List (List α)) :
    Glyph.join separator (lines.map (List.map change)) =
      (Glyph.join separator lines).map change := by
  induction lines with
  | nil => rfl
  | cons line lines ih =>
    by_cases empty : lines = []
    · simp [empty]
    · rw [map_cons, Glyph.join_cons _ _ (by simpa using empty), ih,
        Glyph.join_cons _ _ empty, map_append, map_cons, remark.plain_eq]

end Remark

end Foundation
