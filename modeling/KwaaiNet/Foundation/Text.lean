import Mathlib

/-! # Text operations on character lists

The string operations used by the development, computed on the characters of a
string: removing a prefix and keeping the part before a separator, lines, white space
around a value and unsigned numbers. Lines that were joined by line ends are found again
(`Foundation.Text.lines_intercalate`), and a number in digits is read back
(`Foundation.Text.parseUnsigned_digits`).
-/

namespace Foundation.Text

open List

/-- `str::starts_with`. -/
def startsWith (text lead : String) : Bool := lead.toList.isPrefixOf text.toList

def stripPrefix? (lead text : String) : Option String :=
  if lead.toList.isPrefixOf text.toList then
    some (String.ofList (text.toList.drop lead.toList.length))
  else none

theorem stripPrefix?_append (lead rest : String) :
    stripPrefix? lead (lead ++ rest) = some rest := by
  have starts : lead.toList.isPrefixOf (lead ++ rest).toList = true := by
    rw [String.toList_append, isPrefixOf_iff_prefix]
    exact List.prefix_append _ _
  rw [stripPrefix?, if_pos starts, String.toList_append, drop_left, String.ofList_toList]

theorem append_of_stripPrefix? {lead text rest : String}
    (stripped : stripPrefix? lead text = some rest) : lead ++ rest = text := by
  rw [stripPrefix?] at stripped
  split_ifs at stripped with starts
  obtain ⟨tail, split⟩ := isPrefixOf_iff_prefix.mp starts
  rw [← Option.some.inj stripped, ← split, drop_left, ← String.toList_inj,
    String.toList_append, String.toList_ofList, split]

theorem forall_ne_of_notMem {separator : Char} {text : List Char} (absent : separator ∉ text) :
    ∀ character ∈ text, decide (character ≠ separator) = true :=
  fun _ member => decide_eq_true fun same => absent (same ▸ member)

def before (separator : Char) (text : String) : String :=
  String.ofList (text.toList.takeWhile (fun character => character ≠ separator))

theorem before_append {separator : Char} {text : String} (rest : List Char)
    (free : separator ∉ text.toList) :
    before separator (text ++ String.ofList (separator :: rest)) = text := by
  rw [before, String.toList_append, String.toList_ofList,
    takeWhile_append_of_pos (forall_ne_of_notMem free), takeWhile_cons,
    if_neg (by simp), append_nil, String.ofList_toList]

/-! ## Characters -/

theorem toNat_eq_of_mem_utf8EncodeChar {byte : UInt8} {character : Char} (ascii : byte.toNat < 128)
    (member : byte ∈ String.utf8EncodeChar character) : character.toNat = byte.toNat := by
  rw [String.utf8EncodeChar] at member
  change character.val.toNat = _
  split_ifs at member with one two three
  · rw [mem_singleton.mp member, UInt8.toNat_ofNat']
    omega
  all_goals
    simp only [mem_cons, not_mem_nil, or_false] at member
  · rcases member with rfl | rfl <;> rw [UInt8.toNat_ofNat'] at ascii <;> omega
  · rcases member with rfl | rfl | rfl <;> rw [UInt8.toNat_ofNat'] at ascii <;> omega
  · rcases member with rfl | rfl | rfl | rfl <;> rw [UInt8.toNat_ofNat'] at ascii <;> omega

theorem eq_of_toLower_eq {character plain : Char}
    (other : ¬ (97 ≤ plain.toNat ∧ plain.toNat ≤ 122)) (same : character.toLower = plain) :
    character = plain := by
  rw [Char.toLower] at same
  split_ifs at same with upper
  · subst same
    exfalso
    apply other
    change 97 ≤ (character.val + 32).toNat ∧ (character.val + 32).toNat ≤ 122
    have low : 65 ≤ character.val.toNat := upper.1
    have high : character.val.toNat ≤ 90 := upper.2
    have shift : (32 : UInt32).toNat = 32 := rfl
    rw [UInt32.toNat_add]
    omega
  · exact same

theorem notMem_map_toLower {text : List Char} {plain : Char}
    (other : ¬ (97 ≤ plain.toNat ∧ plain.toNat ≤ 122)) (absent : plain ∉ text) :
    plain ∉ text.map Char.toLower := by
  intro member
  obtain ⟨character, present, same⟩ := mem_map.mp member
  exact absent (eq_of_toLower_eq other same ▸ present)

/-! ## Lines -/

def stripReturn (line : List Char) : List Char :=
  if line.getLast? = some '\r' then line.dropLast else line

/-- `str::lines`: what stands before each line feed, without a carriage return at the end, and what
stands after the last one, unless it is empty. -/
def lines (text : List Char) : List (List Char) :=
  let pieces := text.splitOn '\n'
  pieces.dropLast.map stripReturn ++ (pieces.getLast?.filter fun piece => piece ≠ []).toList

theorem stripReturn_concat (line : List Char) : stripReturn (line ++ ['\r']) = line := by
  rw [stripReturn, if_pos List.getLast?_concat, dropLast_concat]

theorem lines_of_notMem {line : List Char} (clean : '\n' ∉ line) (full : line ≠ []) :
    lines line = [line] := by
  rw [lines, splitOn_eq_singleton clean]
  simp [full]

theorem lines_append_lineEnd {line : List Char} (clean : '\n' ∉ line) {rest : List Char} :
    lines (line ++ '\r' :: '\n' :: rest) = line :: lines rest := by
  have ended : '\n' ∉ line ++ ['\r'] := by simp [clean]
  have pieces : (line ++ '\r' :: '\n' :: rest).splitOn '\n' =
      (line ++ ['\r']) :: rest.splitOn '\n' := by
    rw [← splitOn_append_cons_self_of_not_mem ended, append_assoc]
    rfl
  have more : rest.splitOn '\n' ≠ [] := splitOn_ne_nil _ _
  rw [lines, pieces, dropLast_cons_of_ne_nil more, map_cons, stripReturn_concat,
    List.getLast?_cons_of_ne_nil more]
  rfl

/-- **Lines.** The lines of a text are found again. -/
theorem lines_intercalate {line : List Char} {others : List (List Char)}
    (clean : ∀ other ∈ line :: others, '\n' ∉ other)
    (full : ∀ other ∈ line :: others, other ≠ []) :
    lines (['\r', '\n'].intercalate (line :: others)) = line :: others := by
  induction others generalizing line with
  | nil =>
    rw [intercalate_singleton]
    exact lines_of_notMem (clean line mem_cons_self) (full line mem_cons_self)
  | cons next others ih =>
    have later := ih (fun other member => clean other (mem_cons_of_mem _ member))
      fun other member => full other (mem_cons_of_mem _ member)
    rw [intercalate_cons_cons, append_assoc]
    exact (lines_append_lineEnd (clean line mem_cons_self)).trans (congrArg _ later)

/-! ## Values -/

/-- The characters with the property `White_Space`. -/
def isWhiteSpace (character : Char) : Bool :=
  let code := character.toNat
  (9 ≤ code && code ≤ 13) || code == 0x20 || code == 0x85 || code == 0xa0 || code == 0x1680 ||
    (0x2000 ≤ code && code ≤ 0x200a) || code == 0x2028 || code == 0x2029 || code == 0x202f ||
    code == 0x205f || code == 0x3000

theorem isWhiteSpace_of_isDigit {digit : Char} (numeric : digit.isDigit = true) :
    isWhiteSpace digit = false := by
  have range : 48 ≤ digit.toNat ∧ digit.toNat ≤ 57 := by
    simpa [Char.isDigit, UInt32.le_iff_toNat_le] using numeric
  simp only [isWhiteSpace, Bool.or_eq_false_iff, Bool.and_eq_false_iff, decide_eq_false_iff_not,
    beq_eq_false_iff_ne]
  omega

/-- `str::trim`. -/
def trim (text : List Char) : List Char :=
  (text.dropWhile isWhiteSpace).rdropWhile isWhiteSpace

theorem dropWhile_padding {padding text : List Char}
    (blank : ∀ character ∈ padding, isWhiteSpace character = true)
    (solid : ∀ character, text.head? = some character → isWhiteSpace character = false) :
    (padding ++ text).dropWhile isWhiteSpace = text := by
  rw [dropWhile_append_of_pos blank]
  cases text with
  | nil => rfl
  | cons first text =>
    rw [dropWhile_cons_of_neg]
    rw [solid first rfl]
    exact Bool.false_ne_true

theorem trim_padded {left text right : List Char}
    (blank : ∀ character ∈ left ++ right, isWhiteSpace character = true)
    (solid : ∀ character ∈ text, isWhiteSpace character = false) (full : text ≠ []) :
    trim (left ++ text ++ right) = text := by
  have front : (left ++ (text ++ right)).dropWhile isWhiteSpace = text ++ right := by
    refine dropWhile_padding (fun character member => blank character ?_) fun first starts => ?_
    · exact mem_append_left _ member
    · rw [List.head?_append_of_ne_nil _ full] at starts
      exact solid first (mem_of_head? starts)
  have back : (right.reverse ++ text.reverse).dropWhile isWhiteSpace = text.reverse := by
    refine dropWhile_padding (fun character member => blank character ?_) fun first starts => ?_
    · exact mem_append_right _ (mem_reverse.mp member)
    · exact solid first (mem_reverse.mp (mem_of_head? starts))
  rw [trim, append_assoc, front, List.rdropWhile, reverse_append, back,
    reverse_reverse]

/-- `str::split_once`. -/
def splitOnce (separator : Char) (text : List Char) : Option (List Char × List Char) :=
  match text.span fun character => character ≠ separator with
  | (front, _ :: back) => some (front, back)
  | (_, []) => none

theorem splitOnce_append {separator : Char} {front : List Char} (absent : separator ∉ front)
    (back : List Char) :
    splitOnce separator (front ++ separator :: back) = some (front, back) := by
  have kept := forall_ne_of_notMem absent
  rw [splitOnce, span_eq_takeWhile_dropWhile, takeWhile_append_of_pos kept,
    dropWhile_append_of_pos kept, takeWhile_cons, dropWhile_cons]
  simp

/-- Whether a file name has this extension: what stands behind the last dot, if something stands
before it. -/
def hasExtension (extension : List Char) (name : List Char) : Bool :=
  ('.' :: extension).isSuffixOf name && decide (extension.length + 1 < name.length)

theorem hasExtension_append (extension : List Char) {stem : List Char} (full : stem ≠ []) :
    hasExtension extension (stem ++ '.' :: extension) = true := by
  have positive := length_pos_of_ne_nil full
  rw [hasExtension, Bool.and_eq_true, isSuffixOf_iff_suffix, decide_eq_true_iff,
    length_append, length_cons]
  exact ⟨List.suffix_append _ _, by omega⟩

/-! ## Numbers -/

def decimal (digits : List Char) : Nat :=
  digits.foldl (fun value digit => value * 10 + (digit.toNat - '0'.toNat)) 0

/-- `str::parse` for the unsigned numbers below a bound. -/
def parseUnsigned (bound : Nat) (text : List Char) : Option Nat :=
  let digits := if text.head? = some '+' then text.tail else text
  if digits = [] ∨ ¬ digits.all Char.isDigit then none
  else if decimal digits < bound then some (decimal digits)
  else none

theorem parseUnsigned_digits (bound : Nat) {digits : List Char} (full : digits ≠ [])
    (numeric : ∀ digit ∈ digits, digit.isDigit = true) :
    parseUnsigned bound digits =
      if decimal digits < bound then some (decimal digits) else none := by
  have unsigned : digits.head? ≠ some '+' := fun signed =>
    absurd (numeric '+' (mem_of_head? signed)) (by decide)
  have valid : ¬ (digits = [] ∨ ¬ digits.all Char.isDigit) := by
    rintro (empty | other)
    · exact full empty
    · exact other (all_eq_true.mpr numeric)
  rw [parseUnsigned, if_neg unsigned, if_neg valid]

theorem isDigit_of_mem_numeral {number : Nat} {character : Char}
    (member : character ∈ Nat.toDigits 10 number) : character.isDigit = true :=
  Nat.isDigit_of_mem_toDigits (by decide) (by decide) member

theorem notMem_numeral {character : Char} (other : character.isDigit = false) (number : Nat) :
    character ∉ Nat.toDigits 10 number := fun member =>
  Bool.false_ne_true (other.symm.trans (isDigit_of_mem_numeral member))

theorem decimal_numeral (number : Nat) : decimal (Nat.toDigits 10 number) = number := by
  have same : decimal (Nat.toDigits 10 number) =
      Nat.ofDigitChars 10 (Nat.toDigits 10 number) 0 := by
    rw [decimal, Nat.ofDigitChars]
    congr 1
    funext value digit
    rw [Nat.mul_comm]
  rw [same, Nat.ofDigitChars_toDigits (by decide) (by decide)]

theorem parseUnsigned_numeral (bound number : Nat) :
    parseUnsigned bound (Nat.toDigits 10 number) =
      if number < bound then some number else none := by
  rw [parseUnsigned_digits _ Nat.toDigits_ne_nil fun _ => isDigit_of_mem_numeral, decimal_numeral]

def padded (width number : Nat) : List Char := (Nat.toDigits 10 number).leftpad width '0'

theorem decimal_padded (width number : Nat) : decimal (padded width number) = number := by
  have zeros : ∀ count, decimal (List.replicate count '0' ++ Nat.toDigits 10 number) =
      decimal (Nat.toDigits 10 number) := by
    intro count
    induction count with
    | zero => rfl
    | succ count ih => exact ih
  rw [padded, List.leftpad, zeros, decimal_numeral]

theorem isDigit_of_mem_padded {width number : Nat} {character : Char}
    (member : character ∈ padded width number) : character.isDigit = true := by
  rw [padded, List.leftpad, mem_append] at member
  rcases member with zero | written
  · rw [eq_of_mem_replicate zero]
    rfl
  · exact isDigit_of_mem_numeral written

theorem notMem_padded {character : Char} (other : character.isDigit = false)
    (width number : Nat) : character ∉ padded width number := fun member =>
  Bool.false_ne_true (other.symm.trans (isDigit_of_mem_padded member))

theorem padded_ne_nil (width number : Nat) : padded width number ≠ [] :=
  append_ne_nil_of_right_ne_nil _ Nat.toDigits_ne_nil

theorem length_padded {width number : Nat} (positive : 0 < width) (small : number < 10 ^ width) :
    (padded width number).length = width := by
  have fits : (Nat.toDigits 10 number).length ≤ width :=
    (Nat.length_toDigits_le_iff (by decide) positive).mpr small
  rw [padded, length_leftpad, Nat.max_eq_left fits]

end Foundation.Text
