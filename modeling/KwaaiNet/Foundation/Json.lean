import Mathlib

/-! # JSON texts

Trees, a writer that is told what white space to use, and a reader. Written in any layout,
a tree is read back (`Foundation.Json.read_text`), so different trees have different texts.
A number stands for the text it is written as.
-/

namespace Foundation

open List

def isNumberChar (c : Char) : Bool :=
  c.isDigit || c = '-' || c = '+' || c = '.' || c = 'e' || c = 'E'

/-- A number, by its text. -/
structure NumberToken where
  text : List Char
  opens : text.head?.any (fun c => c.isDigit || c = '-') = true
  chars : text.all isNumberChar = true
  deriving DecidableEq

theorem NumberToken.exists_cons (token : NumberToken) :
    ∃ c text, token.text = c :: text ∧ (c.isDigit = true ∨ c = '-') := by
  obtain ⟨text, opens, _⟩ := token
  cases text with
  | nil => cases opens
  | cons c text => exact ⟨c, text, rfl, by simpa using opens⟩

inductive Json where
  | null
  | bool (value : Bool)
  | number (token : NumberToken)
  | string (text : String)
  | array (items : List Json)
  | object (entries : List (String × Json))

namespace Json

/-! ## Strings -/

def hexDigit (n : Nat) : Char := if n < 10 then Char.ofNat (48 + n) else Char.ofNat (87 + n)

def hexValue? (c : Char) : Option Nat :=
  if '0' ≤ c ∧ c ≤ '9' then some (c.toNat - 48)
  else if 'a' ≤ c ∧ c ≤ 'f' then some (c.toNat - 87)
  else if 'A' ≤ c ∧ c ≤ 'F' then some (c.toNat - 55)
  else none

/-- The value of four hexadecimal digits. -/
def hex4? (a b c d : Char) : Option Nat := do
  let a ← hexValue? a
  let b ← hexValue? b
  let c ← hexValue? c
  let d ← hexValue? d
  return ((a * 16 + b) * 16 + c) * 16 + d

/-- How a character stands inside quotes. -/
def escape (c : Char) : List Char :=
  if c = '"' then ['\\', '"']
  else if c = '\\' then ['\\', '\\']
  else if c = '\x08' then ['\\', 'b']
  else if c = '\x0c' then ['\\', 'f']
  else if c = '\n' then ['\\', 'n']
  else if c = '\r' then ['\\', 'r']
  else if c = '\t' then ['\\', 't']
  else if c.toNat < 32 then ['\\', 'u', '0', '0', hexDigit (c.toNat / 16), hexDigit (c.toNat % 16)]
  else [c]

/-- The character behind a backslash, other than `u`. -/
def unescape? (c : Char) : Option Char :=
  if c = '"' ∨ c = '\\' ∨ c = '/' then some c
  else if c = 'b' then some '\x08'
  else if c = 'f' then some '\x0c'
  else if c = 'n' then some '\n'
  else if c = 'r' then some '\r'
  else if c = 't' then some '\t'
  else none

def quote (text : String) : List Char := '"' :: (text.toList.flatMap escape ++ ['"'])

/-- The rest of a quoted text: its characters up to the closing quote, and what follows. A
code unit of a surrogate pair must be followed by its partner. -/
def readString : List Char → Option (List Char × List Char)
  | [] => none
  | '"' :: rest => some ([], rest)
  | '\\' :: 'u' :: a :: b :: c :: d :: rest =>
    match hex4? a b c d with
    | none => none
    | some unit =>
      if unit < 0xD800 ∨ 0xDFFF < unit then
        (readString rest).map fun read => (Char.ofNat unit :: read.1, read.2)
      else if 0xDBFF < unit then none
      else
        match rest with
        | '\\' :: 'u' :: e :: f :: g :: h :: rest =>
          match hex4? e f g h with
          | none => none
          | some low =>
            if low < 0xDC00 ∨ 0xDFFF < low then none
            else (readString rest).map fun read =>
              (Char.ofNat (0x10000 + (unit - 0xD800) * 0x400 + (low - 0xDC00)) :: read.1,
                read.2)
        | _ => none
  | '\\' :: c :: rest =>
    (unescape? c).bind fun c => (readString rest).map fun read => (c :: read.1, read.2)
  | c :: rest =>
    if c.toNat < 32 ∨ c = '\\' then none
    else (readString rest).map fun read => (c :: read.1, read.2)

theorem hex4?_hexDigit : ∀ n < 32,
    hex4? '0' '0' (hexDigit (n / 16)) (hexDigit (n % 16)) = some n := by decide

theorem readString_escape (c : Char) (rest : List Char) :
    readString (escape c ++ rest) = (readString rest).map fun read => (c :: read.1, read.2) := by
  unfold escape
  split_ifs with quote backslash b f n r t control
  · subst quote; rfl
  · subst backslash; rfl
  · subst b; rfl
  · subst f; rfl
  · subst n; rfl
  · subst r; rfl
  · subst t; rfl
  · have small : c.toNat < 0xD800 ∨ 0xDFFF < c.toNat := .inl (by omega)
    simp only [cons_append, nil_append, readString, hex4?_hexDigit _ control, small,
      if_true, Char.ofNat_toNat]
  · simp only [cons_append, nil_append]
    rw [readString]
    · simp [control, backslash]
    all_goals simp [quote, backslash]

theorem readString_flatMap_escape (text rest : List Char) :
    readString (text.flatMap escape ++ '"' :: rest) = some (text, rest) := by
  induction text with
  | nil => rfl
  | cons c text ih =>
    rw [flatMap_cons, append_assoc, readString_escape, ih, Option.map_some]

/-! ## White space -/

/-- The white space of JSON. -/
def isBlank (c : Char) : Bool := c = ' ' || c = '\n' || c = '\r' || c = '\t'

def skip (input : List Char) : List Char := input.dropWhile isBlank

/-- White space put between the parts of a tree: before an item at a depth, and behind a colon. -/
structure Layout where
  gap : Nat → List Char
  colon : List Char
  gap_blank : ∀ depth, (gap depth).all isBlank = true
  colon_blank : colon.all isBlank = true

/-- No white space at all. -/
def compact : Layout := ⟨fun _ => [], [], fun _ => rfl, rfl⟩

/-- One item a line, two spaces a level. -/
def pretty : Layout where
  gap depth := '\n' :: List.replicate (2 * depth) ' '
  colon := [' ']
  gap_blank depth := by simp [isBlank]
  colon_blank := rfl

theorem skip_append {blanks : List Char} (blank : blanks.all isBlank = true) (input : List Char) :
    skip (blanks ++ input) = skip input :=
  dropWhile_append_of_pos fun c member => all_eq_true.mp blank c member

theorem skip_cons {c : Char} (dark : isBlank c = false) (input : List Char) :
    skip (c :: input) = c :: input := by
  simp [skip, dark]

/-! ## Writing -/

mutual

def write (layout : Layout) (depth : Nat) : Json → List Char
  | .null => ['n', 'u', 'l', 'l']
  | .bool true => ['t', 'r', 'u', 'e']
  | .bool false => ['f', 'a', 'l', 's', 'e']
  | .number token => token.text
  | .string text => quote text
  | .array [] => ['[', ']']
  | .array (item :: items) =>
    '[' :: (layout.gap (depth + 1) ++ (write layout (depth + 1) item ++
      (writeItems layout (depth + 1) items ++ (layout.gap depth ++ [']']))))
  | .object [] => ['\x7b', '\x7d']
  | .object ((key, value) :: entries) =>
    '\x7b' :: (layout.gap (depth + 1) ++ (quote key ++ (':' :: (layout.colon ++
      (write layout (depth + 1) value ++ (writeEntries layout (depth + 1) entries ++
        (layout.gap depth ++ ['\x7d'])))))))

def writeItems (layout : Layout) (depth : Nat) : List Json → List Char
  | [] => []
  | item :: items =>
    ',' :: (layout.gap depth ++ (write layout depth item ++ writeItems layout depth items))

def writeEntries (layout : Layout) (depth : Nat) : List (String × Json) → List Char
  | [] => []
  | (key, value) :: entries =>
    ',' :: (layout.gap depth ++ (quote key ++ (':' :: (layout.colon ++
      (write layout depth value ++ writeEntries layout depth entries)))))

end

/-! ## Reading -/

def readNumber (input : List Char) : Option (Json × List Char) :=
  let text := input.takeWhile isNumberChar
  if opens : text.head?.any (fun c => c.isDigit || c = '-') = true then
    some (.number ⟨text, opens, all_takeWhile⟩, input.dropWhile isNumberChar)
  else none

def readKey (input : List Char) : Option (String × List Char) :=
  match skip input with
  | '"' :: rest => (readString rest).map fun read => (String.ofList read.1, read.2)
  | _ => none

def readColon (input : List Char) : Option (List Char) :=
  match skip input with
  | ':' :: rest => some rest
  | _ => none

theorem readColon_cons (rest : List Char) : readColon (':' :: rest) = some rest := rfl

mutual

def readValue : Nat → List Char → Option (Json × List Char)
  | 0, _ => none
  | fuel + 1, input =>
    match skip input with
    | 'n' :: 'u' :: 'l' :: 'l' :: rest => some (.null, rest)
    | 't' :: 'r' :: 'u' :: 'e' :: rest => some (.bool true, rest)
    | 'f' :: 'a' :: 'l' :: 's' :: 'e' :: rest => some (.bool false, rest)
    | '"' :: rest => (readString rest).map fun read => (.string (String.ofList read.1), read.2)
    | '[' :: rest =>
      match skip rest with
      | ']' :: rest => some (.array [], rest)
      | _ => (readItems fuel rest).map fun read => (.array read.1, read.2)
    | '\x7b' :: rest =>
      match skip rest with
      | '\x7d' :: rest => some (.object [], rest)
      | _ => (readEntries fuel rest).map fun read => (.object read.1, read.2)
    | text => readNumber text

def readItems : Nat → List Char → Option (List Json × List Char)
  | 0, _ => none
  | fuel + 1, input =>
    (readValue fuel input).bind fun first =>
      match skip first.2 with
      | ',' :: rest => (readItems fuel rest).map fun read => (first.1 :: read.1, read.2)
      | ']' :: rest => some ([first.1], rest)
      | _ => none

/-- Entries separated by commas, up to the closing brace. -/
def readEntries : Nat → List Char → Option (List (String × Json) × List Char)
  | 0, _ => none
  | fuel + 1, input =>
    (readKey input).bind fun key =>
      (readColon key.2).bind fun afterColon =>
        (readValue fuel afterColon).bind fun value =>
          match skip value.2 with
          | ',' :: rest =>
            (readEntries fuel rest).map fun read => ((key.1, value.1) :: read.1, read.2)
          | '\x7d' :: rest => some ([(key.1, value.1)], rest)
          | _ => none

end

def read (text : String) : Option Json :=
  (readValue text.toList.length text.toList).bind fun read =>
    if skip read.2 = [] then some read.1 else none

/-! ## Round trip -/

mutual

/-- The fuel that reading a tree takes. -/
def weight : Json → Nat
  | .array items => 1 + weightItems items
  | .object entries => 1 + weightEntries entries
  | _ => 1

def weightItems : List Json → Nat
  | [] => 0
  | item :: items => 1 + weight item + weightItems items

def weightEntries : List (String × Json) → Nat
  | [] => 0
  | (_, value) :: entries => 1 + weight value + weightEntries entries

end

/-- What follows cannot be taken for more of a number. -/
def Delimited (rest : List Char) : Prop := rest.takeWhile isNumberChar = []

theorem delimited_cons {c : Char} (other : isNumberChar c = false) (rest : List Char) :
    Delimited (c :: rest) := by
  simp [Delimited, other]

theorem isNumberChar_of_isBlank {c : Char} (blank : isBlank c = true) : isNumberChar c = false := by
  simp only [isBlank, Bool.or_eq_true, decide_eq_true_eq] at blank
  rcases blank with ((rfl | rfl) | rfl) | rfl <;> rfl

theorem delimited_append {blanks rest : List Char} (blank : blanks.all isBlank = true)
    (delimited : Delimited rest) : Delimited (blanks ++ rest) := by
  cases blanks with
  | nil => exact delimited
  | cons c blanks =>
    rw [all_cons, Bool.and_eq_true] at blank
    exact delimited_cons (isNumberChar_of_isBlank blank.1) _

theorem ne_of_opens_number {c other : Char} (opens : c.isDigit = true ∨ c = '-')
    (digit : other.isDigit = false) (minus : other ≠ '-') : c ≠ other := by
  rintro rfl
  rcases opens with isDigit | rfl
  · rw [isDigit] at digit
    cases digit
  · exact minus rfl

theorem isBlank_of_opens_number {c : Char} (opens : c.isDigit = true ∨ c = '-') :
    isBlank c = false := by
  simp only [isBlank, Bool.or_eq_false_iff, decide_eq_false_iff_not]
  refine ⟨⟨⟨?_, ?_⟩, ?_⟩, ?_⟩ <;> exact ne_of_opens_number opens (by decide) (by decide)

/-- A text begins with a character that is neither white space nor a closing bracket. -/
theorem write_opens (layout : Layout) (depth : Nat) (tree : Json) :
    ∃ c text, write layout depth tree = c :: text ∧ isBlank c = false ∧ c ≠ ']' := by
  cases tree with
  | null => exact ⟨'n', _, rfl, rfl, by decide⟩
  | bool value => cases value <;> exact ⟨_, _, rfl, rfl, by decide⟩
  | number token =>
    obtain ⟨c, text, shape, opens⟩ := token.exists_cons
    exact ⟨c, text, shape, isBlank_of_opens_number opens,
      ne_of_opens_number opens (by decide) (by decide)⟩
  | string text => exact ⟨'"', _, rfl, rfl, by decide⟩
  | array items => cases items <;> exact ⟨'[', _, rfl, rfl, by decide⟩
  | object entries =>
    cases entries with
    | nil => exact ⟨'\x7b', _, rfl, rfl, by decide⟩
    | cons entry entries => exact ⟨'\x7b', _, rfl, rfl, by decide⟩

theorem readValue_append {blanks : List Char} (blank : blanks.all isBlank = true) (fuel : Nat)
    (input : List Char) : readValue fuel (blanks ++ input) = readValue fuel input := by
  cases fuel with
  | zero => rfl
  | succ fuel => rw [readValue, readValue, skip_append blank]

theorem readKey_quote {blanks : List Char} (blank : blanks.all isBlank = true) (key : String)
    (rest : List Char) : readKey (blanks ++ (quote key ++ rest)) = some (key, rest) := by
  rw [readKey, skip_append blank, quote, cons_append, skip_cons rfl, append_assoc,
    cons_append, nil_append]
  change (readString _).map _ = _
  rw [readString_flatMap_escape, Option.map_some, String.ofList_toList]

theorem readNumber_text (token : NumberToken) {rest : List Char} (delimited : Delimited rest) :
    readNumber (token.text ++ rest) = some (.number token, rest) := by
  have all : ∀ c ∈ token.text, isNumberChar c = true := all_eq_true.mp token.chars
  have taken : (token.text ++ rest).takeWhile isNumberChar = token.text := by
    rw [takeWhile_append_of_pos all, delimited, append_nil]
  have dropped : (token.text ++ rest).dropWhile isNumberChar = rest := by
    have whole := takeWhile_append_dropWhile (p := isNumberChar) (l := token.text ++ rest)
    rw [taken] at whole
    exact append_cancel_left whole
  simp only [readNumber, taken, dropped, token.opens, ↓reduceDIte]

theorem readValue_number {c : Char} (opens : c.isDigit = true ∨ c = '-') (fuel : Nat)
    (text : List Char) : readValue (fuel + 1) (c :: text) = readNumber (c :: text) := by
  rw [readValue, skip_cons (isBlank_of_opens_number opens)]
  split
  case h_7 => rfl
  all_goals
    rename_i same
    exact absurd (List.cons.inj same).1 (ne_of_opens_number opens (by decide) (by decide))

theorem readValue_array (fuel : Nat) {input : List Char} {c : Char}
    (opens : (skip input).head? = some c) (other : c ≠ ']') :
    readValue (fuel + 1) ('[' :: input) =
      (readItems fuel input).map fun read => (.array read.1, read.2) := by
  rw [readValue, skip_cons rfl]
  simp only
  split
  case h_1 same =>
      rw [same] at opens
      exact absurd (Option.some.inj opens).symm other
  case h_2 => rfl

theorem readValue_object (fuel : Nat) {input : List Char} {c : Char}
    (opens : (skip input).head? = some c) (other : c ≠ '\x7d') :
    readValue (fuel + 1) ('\x7b' :: input) =
      (readEntries fuel input).map fun read => (.object read.1, read.2) := by
  rw [readValue, skip_cons rfl]
  simp only
  split
  case h_1 same =>
      rw [same] at opens
      exact absurd (Option.some.inj opens).symm other
  case h_2 => rfl

theorem delimited_writeItems (layout : Layout) (depth : Nat) (items : List Json)
    {rest : List Char} (delimited : Delimited rest) :
    Delimited (writeItems layout depth items ++ rest) := by
  cases items with
  | nil => exact delimited
  | cons item items => exact delimited_cons rfl _

theorem delimited_writeEntries (layout : Layout) (depth : Nat) (entries : List (String × Json))
    {rest : List Char} (delimited : Delimited rest) :
    Delimited (writeEntries layout depth entries ++ rest) := by
  cases entries with
  | nil => exact delimited
  | cons entry entries => exact delimited_cons rfl _

mutual

theorem readValue_write (layout : Layout) (depth : Nat) : ∀ (tree : Json) (fuel : Nat)
    (rest : List Char), weight tree ≤ fuel → Delimited rest →
      readValue fuel (write layout depth tree ++ rest) = some (tree, rest)
  | tree, 0, _, enough, _ => by
    cases tree <;> simp [weight] at enough
  | .null, fuel + 1, rest, _, _ => by
    rw [write, readValue]
    rfl
  | .bool true, fuel + 1, rest, _, _ => by
    rw [write, readValue]
    rfl
  | .bool false, fuel + 1, rest, _, _ => by
    rw [write, readValue]
    rfl
  | .number token, fuel + 1, rest, _, delimited => by
    have read := readNumber_text token delimited
    obtain ⟨c, text, shape, opens⟩ := token.exists_cons
    rw [shape, cons_append] at read
    rw [write, shape, cons_append, readValue_number opens, read]
  | .string text, fuel + 1, rest, _, _ => by
    rw [write, quote, cons_append, append_assoc, cons_append, nil_append,
      readValue, skip_cons rfl]
    change (readString _).map _ = _
    rw [readString_flatMap_escape, Option.map_some, String.ofList_toList]
  | .array [], fuel + 1, rest, _, _ => by
    rw [write, readValue]
    rfl
  | .array (item :: items), fuel + 1, rest, enough, _ => by
    rw [weight] at enough
    obtain ⟨c, text, shape, dark, other⟩ := write_opens layout (depth + 1) item
    have items := readItems_write layout (depth + 1) item items fuel (layout.gap depth) rest
      (by omega) (layout.gap_blank depth)
    simp only [write, cons_append, append_assoc, nil_append]
    rw [readValue_array fuel ?_ other, items, Option.map_some]
    rw [skip_append (layout.gap_blank _), shape, cons_append, skip_cons dark,
      List.head?_cons]
  | .object [], fuel + 1, rest, _, _ => by
    rw [write, readValue]
    rfl
  | .object ((key, value) :: entries), fuel + 1, rest, enough, _ => by
    rw [weight] at enough
    have entries := readEntries_write layout (depth + 1) key value entries fuel
      (layout.gap depth) rest (by omega) (layout.gap_blank depth)
    simp only [write, cons_append, append_assoc, nil_append]
    rw [readValue_object (c := '"') fuel ?_ (by decide), entries, Option.map_some]
    rw [skip_append (layout.gap_blank _), quote, cons_append, skip_cons rfl, List.head?_cons]

theorem readItems_write (layout : Layout) (depth : Nat) : ∀ (item : Json) (items : List Json)
    (fuel : Nat) (close rest : List Char), weightItems (item :: items) ≤ fuel →
      close.all isBlank = true →
      readItems fuel (layout.gap depth ++ (write layout depth item ++
        (writeItems layout depth items ++ (close ++ ']' :: rest)))) = some (item :: items, rest)
  | item, items, 0, _, _, enough, _ => by
    simp [weightItems] at enough
  | item, items, fuel + 1, close, rest, enough, blank => by
    simp only [weightItems] at enough
    have delimited : Delimited (writeItems layout depth items ++ (close ++ ']' :: rest)) :=
      delimited_writeItems layout depth items (delimited_append blank (delimited_cons rfl rest))
    rw [readItems, readValue_append (layout.gap_blank depth),
      readValue_write layout depth item fuel _ (by omega) delimited, Option.bind_some]
    cases items with
    | nil =>
      rw [writeItems, nil_append, skip_append blank, skip_cons rfl]
      rfl
    | cons next items =>
      have more := readItems_write layout depth next items fuel close rest (by omega) blank
      simp only [writeItems, cons_append, append_assoc]
      rw [skip_cons rfl]
      simp only
      rw [more, Option.map_some]

theorem readEntries_write (layout : Layout) (depth : Nat) : ∀ (key : String) (value : Json)
    (entries : List (String × Json)) (fuel : Nat) (close rest : List Char),
      weightEntries ((key, value) :: entries) ≤ fuel → close.all isBlank = true →
      readEntries fuel (layout.gap depth ++ (quote key ++ (':' :: (layout.colon ++
        (write layout depth value ++ (writeEntries layout depth entries ++
          (close ++ '\x7d' :: rest))))))) = some ((key, value) :: entries, rest)
  | key, value, entries, 0, _, _, enough, _ => by
    simp [weightEntries] at enough
  | key, value, entries, fuel + 1, close, rest, enough, blank => by
    simp only [weightEntries] at enough
    have delimited : Delimited (writeEntries layout depth entries ++ (close ++ '\x7d' :: rest)) :=
      delimited_writeEntries layout depth entries
        (delimited_append blank (delimited_cons rfl rest))
    rw [readEntries, readKey_quote (layout.gap_blank depth), Option.bind_some, readColon_cons,
      Option.bind_some, readValue_append layout.colon_blank,
      readValue_write layout depth value fuel _ (by omega) delimited, Option.bind_some]
    cases entries with
    | nil =>
      rw [writeEntries, nil_append, skip_append blank, skip_cons rfl]
      rfl
    | cons next entries =>
      have more := readEntries_write layout depth next.1 next.2 entries fuel close rest
        (by simp only [weightEntries] at enough ⊢; omega) blank
      simp only [writeEntries, cons_append, append_assoc]
      rw [skip_cons rfl]
      simp only
      rw [more, Option.map_some]

end

theorem length_quote (text : String) : 2 ≤ (quote text).length := by
  simp [quote]

mutual

theorem weight_le_length (layout : Layout) (depth : Nat) : ∀ tree : Json,
    weight tree ≤ (write layout depth tree).length
  | .null | .bool true | .bool false => by
    simp [weight, write]
  | .number token => by
    obtain ⟨c, text, shape, _⟩ := token.exists_cons
    simp [weight, write, shape]
  | .string text => by
    have quotes := length_quote text
    simp only [weight, write]
    omega
  | .array [] => by
    simp [weight, weightItems, write]
  | .array (item :: items) => by
    have first := weight_le_length layout (depth + 1) item
    have others := weightItems_le_length layout (depth + 1) items
    simp only [weight, weightItems, write, length_cons, length_append, length_nil]
    omega
  | .object [] => by
    simp [weight, weightEntries, write]
  | .object ((key, value) :: entries) => by
    have first := weight_le_length layout (depth + 1) value
    have others := weightEntries_le_length layout (depth + 1) entries
    simp only [weight, weightEntries, write, length_cons, length_append,
      length_nil]
    omega

theorem weightItems_le_length (layout : Layout) (depth : Nat) : ∀ items : List Json,
    weightItems items ≤ (writeItems layout depth items).length
  | [] => by
    simp [weightItems]
  | item :: items => by
    have first := weight_le_length layout depth item
    have others := weightItems_le_length layout depth items
    simp only [weightItems, writeItems, length_cons, length_append]
    omega

theorem weightEntries_le_length (layout : Layout) (depth : Nat) :
    ∀ entries : List (String × Json),
      weightEntries entries ≤ (writeEntries layout depth entries).length
  | [] => by
    simp [weightEntries]
  | (key, value) :: entries => by
    have first := weight_le_length layout depth value
    have others := weightEntries_le_length layout depth entries
    simp only [weightEntries, writeEntries, length_cons, length_append]
    omega

end

def text (layout : Layout) (tree : Json) : String := String.ofList (write layout 0 tree)

/-- **Reading inverts writing**, in every layout. -/
theorem read_text (layout : Layout) (tree : Json) : read (text layout tree) = some tree := by
  have enough := weight_le_length layout 0 tree
  have whole := readValue_write layout 0 tree _ [] enough rfl
  rw [append_nil] at whole
  rw [read, text, String.toList_ofList, whole]
  rfl

theorem text_injective (layout : Layout) : Function.Injective (text layout) := by
  intro tree other same
  have back := read_text layout tree
  rw [same, read_text] at back
  exact (Option.some.inj back).symm

end Json

end Foundation
