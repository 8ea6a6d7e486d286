import KwaaiNet.Foundation.Table

/-! # Scans of an ordered table

A table that lists its keys in order can be read from a key on. If a set of keys has no gaps, a
scan that starts at or before its first key in the table and stops at the first key outside
finds all of it (`Foundation.Table.mem_takeWhile_keysFrom`). The lists with a common start are
such a set (`Foundation.contiguous_startingWith`), and the one that goes on with least elements
is at or before all others of its length (`Foundation.append_replicate_le`).
-/

namespace Foundation

open List

section Blocks

variable {K V : Type*} [LE K]

/-- A set of keys without gaps. -/
def Contiguous (block : K → Prop) : Prop :=
  ∀ ⦃low key high⦄, block low → block high → low ≤ key → key ≤ high → block key

theorem Contiguous.takeWhile_eq_filter {block : K → Prop} [DecidablePred block]
    (contiguous : Contiguous block) {start : K} (inside : block start) {keys : List K}
    (sorted : keys.Pairwise (· ≤ ·)) (after : ∀ key ∈ keys, start ≤ key) :
    keys.takeWhile block = keys.filter block := by
  induction keys with
  | nil => rfl
  | cons key keys ih =>
    obtain ⟨first, rest⟩ := pairwise_cons.mp sorted
    by_cases member : block key
    · rw [takeWhile_cons_of_pos (by simpa using member),
        filter_cons_of_pos (by simpa using member),
        ih rest fun other later => after other (mem_cons_of_mem _ later)]
    · rw [takeWhile_cons_of_neg (by simpa using member),
        filter_cons_of_neg (by simpa using member)]
      -- a later key of the set would close the gap
      refine (filter_eq_nil_iff.mpr fun other later also => member ?_).symm
      exact contiguous inside (of_decide_eq_true also) (after key mem_cons_self)
        (first other later)

variable [DecidableLE K]

def Table.keysFrom (table : Table K V) (start : K) : List K :=
  (table.keys.insertionSort (· ≤ ·)).filter (start ≤ ·)

theorem Table.mem_keysFrom {table : Table K V} {start key : K} :
    key ∈ table.keysFrom start ↔ key ∈ table ∧ start ≤ key := by
  rw [keysFrom, mem_filter, (perm_insertionSort _ _).mem_iff, AList.mem_keys,
    decide_eq_true_iff]

variable [Std.IsLinearOrder K]

theorem Table.sorted_keysFrom (table : Table K V) (start : K) :
    (table.keysFrom start).Pairwise (· ≤ ·) :=
  (pairwise_insertionSort _ _).filter _

/-- **A scan finds a set without gaps.** -/
theorem Table.mem_takeWhile_keysFrom {table : Table K V} {block : K → Prop} [DecidablePred block]
    (contiguous : Contiguous block) {start : K} (inside : block start)
    (least : ∀ key ∈ table, block key → start ≤ key) {key : K} :
    key ∈ (table.keysFrom start).takeWhile block ↔ key ∈ table ∧ block key := by
  rw [contiguous.takeWhile_eq_filter inside (table.sorted_keysFrom start)
    fun other member => (mem_keysFrom.mp member).2, mem_filter, mem_keysFrom,
    decide_eq_true_iff]
  exact ⟨fun found => ⟨found.1.1, found.2⟩,
    fun found => ⟨⟨found.1, least key found.1 found.2⟩, found.2⟩⟩

end Blocks

section Lexicographic

variable {A : Type*} [LT A] [LE A] [Std.IsLinearOrder A] [Std.LawfulOrderLT A]

theorem contiguous_startingWith (first : List A) : Contiguous (first <+: ·) := by
  induction first with
  | nil => exact fun _ key _ _ _ _ _ => nil_prefix
  | cons element first ih =>
    rintro _ key _ ⟨low, rfl⟩ ⟨high, rfl⟩ above below
    cases key with
    | nil => exact absurd above (List.not_le.mpr (List.nil_lt_cons _ _))
    | cons head tail =>
      rw [List.cons_append, List.cons_le_cons_iff] at above below
      obtain rfl : element = head := by
        rcases above with lower | ⟨same, _⟩
        · rcases below with upper | ⟨same, _⟩
          · exact absurd (Std.lt_trans lower upper) Std.lt_irrefl
          · exact same.symm
        · exact same
      have inner : first <+: tail := by
        apply ih (List.prefix_append first low) (List.prefix_append first high)
        · exact (above.resolve_left Std.lt_irrefl).2
        · exact (below.resolve_left Std.lt_irrefl).2
      exact cons_prefix_cons.mpr ⟨rfl, inner⟩

theorem append_replicate_le {least : A} (bottom : ∀ element, least ≤ element)
    (first rest : List A) :
    first ++ List.replicate rest.length least ≤ first ++ rest := by
  apply append_left_le
  induction rest with
  | nil => exact Std.le_refl _
  | cons element rest ih =>
    rw [length_cons, replicate_succ, cons_le_cons_iff]
    by_cases same : least = element
    · exact .inr ⟨same, ih⟩
    · exact .inl (Std.lt_of_le_of_ne (bottom element) same)

end Lexicographic

end Foundation
