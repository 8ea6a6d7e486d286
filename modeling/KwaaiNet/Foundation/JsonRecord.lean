import Mathlib
import KwaaiNet.Foundation.Json

/-! # JSON values as maps and as records

Two ways of holding an object. As a map its entries are sorted by key, each key once: reading
puts the entries of every object in order, and a tree that is in order already is not changed
(`Foundation.Json.normalize_of_sorted`). As a record its entries are fields, found by name:
a field given twice is refused, an unknown one is passed over.
-/

namespace Foundation.Json

open List

/-! ## Sorted objects -/

def insertKey {α : Type} (key : String) (value : α) : List (String × α) → List (String × α)
  | [] => [(key, value)]
  | entry :: entries =>
    if key < entry.1 then (key, value) :: entry :: entries
    else if key = entry.1 then (key, value) :: entries
    else entry :: insertKey key value entries

mutual

def normalize : Json → Json
  | .array items => .array (normalizeItems items)
  | .object entries => .object (normalizeEntries [] entries)
  | tree => tree

def normalizeItems : List Json → List Json
  | [] => []
  | item :: items => normalize item :: normalizeItems items

def normalizeEntries (sorted : List (String × Json)) :
    List (String × Json) → List (String × Json)
  | [] => sorted
  | (key, value) :: entries => normalizeEntries (insertKey key (normalize value) sorted) entries

end

def KeysAscend {α : Type} (entries : List (String × α)) : Prop :=
  entries.Pairwise fun entry later => entry.1 < later.1

mutual

def Sorted : Json → Prop
  | .array items => SortedItems items
  | .object entries => KeysAscend entries ∧ SortedEntries entries
  | _ => True

def SortedItems : List Json → Prop
  | [] => True
  | item :: items => Sorted item ∧ SortedItems items

def SortedEntries : List (String × Json) → Prop
  | [] => True
  | (_, value) :: entries => Sorted value ∧ SortedEntries entries

end

theorem fst_of_mem_insertKey {α : Type} {key : String} {value : α} {entries : List (String × α)}
    {entry : String × α} (member : entry ∈ insertKey key value entries) :
    entry = (key, value) ∨ entry ∈ entries := by
  induction entries with
  | nil => exact .inl (mem_singleton.mp member)
  | cons first entries ih =>
    unfold insertKey at member
    split_ifs at member with below same
    · exact mem_cons.mp member
    · rcases mem_cons.mp member with new | old
      · exact .inl new
      · exact .inr (mem_cons_of_mem _ old)
    · rcases mem_cons.mp member with rfl | later
      · exact .inr mem_cons_self
      · exact (ih later).imp_right (mem_cons_of_mem _)

theorem keysAscend_insertKey {α : Type} (key : String) (value : α) {entries : List (String × α)}
    (ascend : KeysAscend entries) : KeysAscend (insertKey key value entries) := by
  induction entries with
  | nil => exact pairwise_singleton _ _
  | cons first entries ih =>
    obtain ⟨least, rest⟩ := pairwise_cons.mp ascend
    unfold insertKey
    split_ifs with below same
    · refine pairwise_cons.mpr ⟨?_, ascend⟩
      intro later member
      rcases mem_cons.mp member with rfl | member
      · exact below
      · exact below.trans (least later member)
    · refine pairwise_cons.mpr ⟨?_, rest⟩
      intro later member
      rw [same]
      exact least later member
    · refine pairwise_cons.mpr ⟨?_, ih rest⟩
      intro later member
      rcases fst_of_mem_insertKey member with rfl | member
      · exact lt_of_le_of_ne (not_lt.mp below) (Ne.symm same)
      · exact least later member

theorem insertKey_of_above {α : Type} {key : String} (value : α) {entries : List (String × α)}
    (above : ∀ entry ∈ entries, entry.1 < key) :
    insertKey key value entries = entries ++ [(key, value)] := by
  induction entries with
  | nil => rfl
  | cons first entries ih =>
    have firstBelow := above first mem_cons_self
    rw [insertKey, if_neg firstBelow.not_gt, if_neg firstBelow.ne',
      ih fun entry member => above entry (mem_cons_of_mem _ member), cons_append]

theorem sortedEntries_iff {entries : List (String × Json)} :
    SortedEntries entries ↔ ∀ entry ∈ entries, Sorted entry.2 := by
  induction entries with
  | nil => simp [SortedEntries]
  | cons entry entries ih =>
    rw [SortedEntries, ih, forall_mem_cons]

theorem sortedEntries_insertKey {key : String} {value : Json} {entries : List (String × Json)}
    (sortedValue : Sorted value) (sorted : SortedEntries entries) :
    SortedEntries (insertKey key value entries) := by
  rw [sortedEntries_iff] at sorted ⊢
  intro entry member
  rcases fst_of_mem_insertKey member with rfl | member
  · exact sortedValue
  · exact sorted entry member

mutual

theorem sorted_normalize : ∀ tree : Json, Sorted (normalize tree)
  | .null | .bool _ | .number _ | .string _ => trivial
  | .array items => by
    rw [normalize, Sorted]
    exact sortedItems_normalizeItems items
  | .object entries => by
    rw [normalize, Sorted]
    exact sorted_normalizeEntries entries [] List.Pairwise.nil trivial

theorem sortedItems_normalizeItems : ∀ items : List Json, SortedItems (normalizeItems items)
  | [] => trivial
  | item :: items => ⟨sorted_normalize item, sortedItems_normalizeItems items⟩

theorem sorted_normalizeEntries : ∀ entries sorted : List (String × Json),
    KeysAscend sorted → SortedEntries sorted →
      KeysAscend (normalizeEntries sorted entries) ∧
        SortedEntries (normalizeEntries sorted entries)
  | [], _, ascend, values => ⟨ascend, values⟩
  | (key, value) :: entries, _, ascend, values =>
    sorted_normalizeEntries entries _ (keysAscend_insertKey key _ ascend)
      (sortedEntries_insertKey (sorted_normalize value) values)

end

mutual

theorem normalize_of_sorted : ∀ tree : Json, Sorted tree → normalize tree = tree
  | .null, _ | .bool _, _ | .number _, _ | .string _, _ => rfl
  | .array items, sorted => by
    rw [normalize, normalizeItems_of_sorted items sorted]
  | .object entries, sorted => by
    rw [normalize, normalizeEntries_of_sorted entries [] sorted.1 sorted.2, nil_append]

theorem normalizeItems_of_sorted : ∀ items : List Json, SortedItems items →
    normalizeItems items = items
  | [], _ => rfl
  | item :: items, sorted => by
    rw [normalizeItems, normalize_of_sorted item sorted.1,
      normalizeItems_of_sorted items sorted.2]

theorem normalizeEntries_of_sorted : ∀ entries sorted : List (String × Json),
    KeysAscend (sorted ++ entries) → SortedEntries entries →
      normalizeEntries sorted entries = sorted ++ entries
  | [], sorted, _, _ => (append_nil sorted).symm
  | (key, value) :: entries, sorted, ascend, values => by
    have above : ∀ entry ∈ sorted, entry.1 < key := fun entry member =>
      (pairwise_append.mp ascend).2.2 entry member (key, value) mem_cons_self
    have split : sorted ++ [(key, value)] ++ entries = sorted ++ (key, value) :: entries :=
      append_cons sorted (key, value) entries |>.symm
    rw [normalizeEntries, normalize_of_sorted value values.1, insertKey_of_above value above,
      normalizeEntries_of_sorted entries _ (split ▸ ascend) values.2, split]

end

/-! ## Records -/

def field (entries : List (String × Json)) (name : String) : Option (Option Json) :=
  match entries.filter fun entry => entry.1 = name with
  | [] => some none
  | [entry] => some (some entry.2)
  | _ => none

theorem field_cons_of_notMem {entries : List (String × Json)} {name : String} (value : Json)
    (fresh : name ∉ entries.map Prod.fst) :
    field ((name, value) :: entries) name = some (some value) := by
  have others : entries.filter (fun entry => entry.1 = name) = [] := by
    apply filter_eq_nil_iff.mpr
    intro entry member named
    exact fresh (of_decide_eq_true named ▸ mem_map_of_mem member)
  rw [field, filter_cons_of_pos (by simp), others]

theorem field_cons_of_mem {entries : List (String × Json)} {name : String} (value : Json)
    (taken : name ∈ entries.map Prod.fst) :
    field ((name, value) :: entries) name = none := by
  obtain ⟨entry, member, named⟩ := mem_map.mp taken
  have kept : entry ∈ entries.filter fun entry => entry.1 = name :=
    mem_filter.mpr ⟨member, decide_eq_true named⟩
  obtain ⟨other, others, split⟩ := exists_cons_of_ne_nil (ne_nil_of_mem kept)
  rw [field, filter_cons_of_pos (by simp), split]

/-- A field that must be there. -/
def required {α : Type} (read : Json → Option α) (entries : List (String × Json))
    (name : String) : Option α :=
  match field entries name with
  | some (some value) => read value
  | _ => none

theorem exists_of_required {α : Type} {read : Json → Option α} {entries : List (String × Json)}
    {name : String} {result : α} (found : required read entries name = some result) :
    ∃ value, read value = some result := by
  rw [required] at found
  split at found
  · exact ⟨_, found⟩
  · cases found

def readNullable {α : Type} (read : Json → Option α) : Json → Option (Option α)
  | .null => some none
  | value => (read value).map some

@[simp] theorem readNullable_string {α : Type} (read : Json → Option α) (text : String) :
    readNullable read (.string text) = (read (.string text)).map some := rfl

/-- A field that may be missing or null. -/
def optional {α : Type} (read : Json → Option α) (entries : List (String × Json))
    (name : String) : Option (Option α) :=
  match field entries name with
  | some (some value) => readNullable read value
  | some none => some none
  | none => none

def readText : Json → Option String
  | .string text => some text
  | _ => none

def readTexts : Json → Option (List String)
  | .array items => items.mapM readText
  | _ => none

def texts (values : List String) : Json := .array (values.map .string)

theorem readTexts_texts (values : List String) : readTexts (texts values) = some values := by
  rw [texts, readTexts]
  induction values with
  | nil => rfl
  | cons value values ih => simp [readText, ih]

theorem opens_numeral (count : Nat) :
    (Nat.toDigits 10 count).head?.any (fun c => c.isDigit || c = '-') = true := by
  have full : Nat.toDigits 10 count ≠ [] := Nat.toDigits_ne_nil
  obtain ⟨digit, digits, written⟩ := exists_cons_of_ne_nil full
  have numeric : digit.isDigit = true :=
    Nat.isDigit_of_mem_toDigits (by decide) (by decide) (written ▸ mem_cons_self)
  rw [written, List.head?_cons, Option.any_some, numeric, Bool.true_or]

theorem chars_numeral (count : Nat) : (Nat.toDigits 10 count).all isNumberChar = true := by
  rw [all_eq_true]
  intro digit member
  rw [isNumberChar, Nat.isDigit_of_mem_toDigits (by decide) (by decide) member]
  rfl

/-- An unsigned number. -/
def count (value : Nat) : Json :=
  .number ⟨Nat.toDigits 10 value, opens_numeral value, chars_numeral value⟩

def optionalEntry (name : String) (value : Option Json) : List (String × Json) :=
  value.toList.map fun value => (name, value)

end Foundation.Json
