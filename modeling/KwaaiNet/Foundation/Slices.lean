import Mathlib

/-! # Checked slices of a buffer

Indexing a buffer by a range fails when the range is reversed or ends outside the
buffer. `modifyRange` updates a range under this check, and `modifyRanges` updates
one range after another; it succeeds exactly when every range is in order and inside
the buffer, and then each cell has been updated once for every range containing it
(`Foundation.modifyRanges_eq_ok_iff`). A list is also cut into batches of a size; batches that are
changed without a change of their lengths are the batches of the changed list
(`Foundation.batches_flatMap`). A loop that advances by a fixed stride visits the multiples of the
stride (`Foundation.mem_strides_iff`).
-/

namespace Foundation

open List

/-- The two ways a range index fails. -/
inductive Panic where
  | sliceIndexOrder (start stop : Nat)
  | sliceEndIndex (stop length : Nat)
  deriving DecidableEq, Repr

variable {α : Type*}

def checkRange (start stop length : Nat) : Except Panic Unit :=
  if stop < start then .error (.sliceIndexOrder start stop)
  else if length < stop then .error (.sliceEndIndex stop length)
  else .ok ()

theorem checkRange_eq_ok_iff {start stop length : Nat} :
    checkRange start stop length = .ok () ↔ start ≤ stop ∧ stop ≤ length := by
  unfold checkRange
  split
  case isTrue reversed => exact ⟨nofun, fun ordered => by omega⟩
  case isFalse ordered =>
    split
    case isTrue outside => exact ⟨nofun, fun inside => by omega⟩
    case isFalse inside => exact ⟨fun _ => by omega, fun _ => rfl⟩

def slice (start stop : Nat) (buffer : List α) : Except Panic (List α) :=
  (checkRange start stop buffer.length).map fun _ => (buffer.take stop).drop start

def modifyRange (update : α → α) (start stop : Nat) (buffer : List α) :
    Except Panic (List α) :=
  (checkRange start stop buffer.length).map fun _ =>
    buffer.mapIdx fun index cell => if start ≤ index ∧ index < stop then update cell else cell

def modifyRanges (update : α → α) (ranges : List (Nat × Nat)) (buffer : List α) :
    Except Panic (List α) :=
  ranges.foldlM (fun current range => modifyRange update range.1 range.2 current) buffer

theorem slice_eq_ok_iff {start stop : Nat} {buffer result : List α} :
    slice start stop buffer = .ok result ↔
      (start ≤ stop ∧ stop ≤ buffer.length) ∧ (buffer.take stop).drop start = result := by
  unfold slice
  cases checked : checkRange start stop buffer.length with
  | error failure =>
    refine ⟨nofun, fun inside => ?_⟩
    rw [checkRange_eq_ok_iff.mpr inside.1] at checked
    cases checked
  | ok _ =>
    have inside := checkRange_eq_ok_iff.mp checked
    exact ⟨fun ok => ⟨inside, Except.ok.inj ok⟩, fun ok => congrArg Except.ok ok.2⟩

theorem modifyRange_eq_ok_iff {update : α → α} {start stop : Nat} {buffer result : List α} :
    modifyRange update start stop buffer = .ok result ↔
      (start ≤ stop ∧ stop ≤ buffer.length) ∧
        buffer.mapIdx (fun index cell =>
          if start ≤ index ∧ index < stop then update cell else cell) = result := by
  unfold modifyRange
  cases checked : checkRange start stop buffer.length with
  | error failure =>
    refine ⟨nofun, fun inside => ?_⟩
    rw [checkRange_eq_ok_iff.mpr inside.1] at checked
    cases checked
  | ok _ =>
    have inside := checkRange_eq_ok_iff.mp checked
    exact ⟨fun ok => ⟨inside, Except.ok.inj ok⟩, fun ok => congrArg Except.ok ok.2⟩

def hits (ranges : List (Nat × Nat)) (index : Nat) : Nat :=
  ranges.countP fun range => range.1 ≤ index && index < range.2

/-- **Updating several ranges.** All updates succeed exactly when every range is in
order and inside the buffer, and a cell is then updated once for each range
containing it. -/
theorem modifyRanges_eq_ok_iff {update : α → α} {ranges : List (Nat × Nat)}
    {buffer result : List α} :
    modifyRanges update ranges buffer = .ok result ↔
      (∀ range ∈ ranges, range.1 ≤ range.2 ∧ range.2 ≤ buffer.length) ∧
        buffer.mapIdx (fun index cell => update^[hits ranges index] cell) = result := by
  induction ranges generalizing buffer with
  | nil =>
    have same : buffer.mapIdx (fun index cell => update^[hits [] index] cell) = buffer := by
      simp only [hits, countP_nil, Function.iterate_zero, id_eq]
      exact mapIdx_eq_iff.mpr fun index => by simp
    rw [same]
    exact ⟨fun ok => ⟨by simp, Except.ok.inj ok⟩, fun ok => congrArg Except.ok ok.2⟩
  | cons range ranges ih =>
    have unfolded : modifyRanges update (range :: ranges) buffer =
        (modifyRange update range.1 range.2 buffer).bind (modifyRanges update ranges) := rfl
    rw [unfolded, forall_mem_cons]
    cases first : modifyRange update range.1 range.2 buffer with
    | error failure =>
      refine ⟨nofun, fun inside => ?_⟩
      rw [modifyRange_eq_ok_iff.mpr ⟨inside.1.1, rfl⟩] at first
      cases first
    | ok middle =>
      obtain ⟨inside, rfl⟩ := modifyRange_eq_ok_iff.mp first
      have twice : ∀ index cell, update^[hits (range :: ranges) index] cell =
          update^[hits ranges index]
            (if range.1 ≤ index ∧ index < range.2 then update cell else cell) := by
        intro index cell
        by_cases contained : range.1 ≤ index ∧ index < range.2
        · rw [if_pos contained, ← Function.iterate_succ_apply]
          simp [hits, contained]
        · rw [if_neg contained]
          simp [hits, contained]
      simp only [Except.bind, twice]
      rw [ih, length_mapIdx, mapIdx_mapIdx]
      simp only [Function.comp_def, and_assoc]
      tauto

/-! ### Batches -/

/-- The batches of at most `size` items, one after another, up to a number of them. -/
def batchesWithin (size : Nat) : Nat → List α → List (List α)
  | 0, _ => []
  | _ + 1, [] => []
  | count + 1, items => items.take size :: batchesWithin size count (items.drop size)

/-- The batches of at most `size` items, one after another. -/
def batches (size : Nat) (items : List α) : List (List α) := batchesWithin size items.length items

theorem flatten_batchesWithin {size : Nat} (positive : 0 < size) {count : Nat} {items : List α}
    (enough : items.length ≤ count) : (batchesWithin size count items).flatten = items := by
  induction count generalizing items with
  | zero => exact (eq_nil_of_length_eq_zero (Nat.le_zero.mp enough)).symm
  | succ count ih =>
    cases items with
    | nil => rfl
    | cons item items =>
      have fewer : ((item :: items).drop size).length ≤ count := by
        rw [length_drop]
        omega
      rw [batchesWithin, flatten_cons, ih fewer, take_append_drop]
      exact cons_ne_nil _ _

theorem batchesWithin_of_le {size : Nat} (positive : 0 < size) {count : Nat} {items : List α}
    (enough : items.length ≤ count) : batchesWithin size count items = batches size items := by
  induction count using Nat.strong_induction_on generalizing items with
  | _ count ih =>
    cases items with
    | nil => cases count <;> rfl
    | cons item items =>
      obtain ⟨fuel, rfl⟩ : ∃ fuel, count = fuel + 1 :=
        Nat.exists_eq_add_one.mpr (Nat.lt_of_lt_of_le (Nat.succ_pos _) enough)
      have fewer : ((item :: items).drop size).length ≤ items.length := by
        rw [length_drop, length_cons]
        omega
      have same : batchesWithin size items.length ((item :: items).drop size) =
          batches size ((item :: items).drop size) := by
        rcases Nat.lt_or_ge items.length (fuel + 1) with less | more
        · exact ih items.length less fewer
        · exact absurd enough (by rw [length_cons]; omega)
      have other := ih fuel (Nat.lt_succ_self _)
        (fewer.trans (Nat.le_of_succ_le_succ enough))
      rw [batches, length_cons, batchesWithin, batchesWithin, same, other]
      all_goals exact cons_ne_nil _ _

theorem batches_of_ne_nil {size : Nat} (positive : 0 < size) {items : List α} (full : items ≠ []) :
    batches size items = items.take size :: batches size (items.drop size) := by
  obtain ⟨item, others, rfl⟩ := exists_cons_of_ne_nil full
  have fewer : ((item :: others).drop size).length ≤ others.length := by
    rw [length_drop, length_cons]
    omega
  rw [batches, length_cons, batchesWithin, batchesWithin_of_le positive fewer]
  exact full

theorem batches_induction {size : Nat} (positive : 0 < size) {property : List α → Prop}
    (nil : property []) (cons : ∀ items, items ≠ [] → property (items.drop size) → property items)
    (items : List α) : property items := by
  induction length : items.length using Nat.strong_induction_on generalizing items with
  | _ _ ih =>
    by_cases empty : items = []
    · rwa [empty]
    · have fewer : (items.drop size).length < items.length := by
        have some := length_pos_iff.mpr empty
        rw [length_drop]
        omega
      exact cons items empty (ih _ (length ▸ fewer) _ rfl)

def batchAt (size : Nat) (items : List α) (number : Nat) : List α :=
  (items.drop (number / size * size)).take size

section

variable {β : Type*} {size : Nat} {change : List α → List β}

theorem take_drop_flatMap_batches (positive : 0 < size)
    (kept : ∀ batch, (change batch).length = batch.length) {items : List α} (full : items ≠ []) :
    let changed := (batches size items).flatMap change
    changed.take size = change (items.take size) ∧
      changed.drop size = (batches size (items.drop size)).flatMap change := by
  have length : (change (items.take size)).length = min size items.length := by
    rw [kept, length_take]
  rw [batches_of_ne_nil positive full, flatMap_cons]
  by_cases long : size ≤ items.length
  · rw [min_eq_left long] at length
    exact ⟨take_left' length, drop_left' length⟩
  · have rest : items.drop size = [] := drop_eq_nil_of_le (by omega)
    rw [min_eq_right (by omega)] at length
    rw [rest]
    have nothing : (batches size ([] : List α)).flatMap change = [] := rfl
    rw [nothing, append_nil]
    exact ⟨take_of_length_le (by omega), drop_eq_nil_of_le (by omega)⟩

/-- **Changed batches.** Batches that keep their lengths are the batches of the changed list. -/
theorem batches_flatMap (positive : 0 < size)
    (kept : ∀ batch, (change batch).length = batch.length) (items : List α) :
    batches size ((batches size items).flatMap change) = (batches size items).map change := by
  induction items using batches_induction positive with
  | nil => rfl
  | cons items full ih =>
    obtain ⟨first, rest⟩ := take_drop_flatMap_batches positive kept full
    have some : (batches size items).flatMap change ≠ [] := by
      rw [batches_of_ne_nil positive full, flatMap_cons, ← length_pos_iff,
        length_append, kept, length_take]
      have := length_pos_iff.mpr full
      omega
    rw [batches_of_ne_nil positive some, first, rest, ih, batches_of_ne_nil positive full,
      map_cons]

theorem getElem?_flatMap_batches (positive : 0 < size)
    (kept : ∀ batch, (change batch).length = batch.length) (items : List α) (number : Nat) :
    ((batches size items).flatMap change)[number]? =
      (change (batchAt size items number))[number % size]? := by
  induction items using batches_induction positive generalizing number with
  | nil =>
    have empty : batchAt size ([] : List α) number = [] := by
      rw [batchAt, drop_nil, take_nil]
    have none : (change []).length = 0 := kept []
    rw [empty, eq_nil_of_length_eq_zero none]
    rfl
  | cons items full ih =>
    obtain ⟨first, rest⟩ := take_drop_flatMap_batches positive kept full
    by_cases early : number < size
    · rw [batchAt, Nat.div_eq_of_lt early, Nat.mod_eq_of_lt early, Nat.zero_mul, drop_zero,
        ← first, List.getElem?_take_of_lt early]
    · obtain ⟨later, rfl⟩ := Nat.exists_eq_add_of_le (Nat.le_of_not_lt early)
      have moved : batchAt size (items.drop size) later = batchAt size items (size + later) := by
        rw [batchAt, batchAt, drop_drop, Nat.add_div_left _ positive, Nat.succ_mul,
          Nat.add_comm size]
      rw [← List.getElem?_drop, rest, ih, moved, Nat.add_mod_left]

end

theorem flatten_batches {size : Nat} (positive : 0 < size) (items : List α) :
    (batches size items).flatten = items :=
  flatten_batchesWithin positive (Nat.le_refl _)

/-! ### Strides -/

/-- The positions that the loop `while pos < total { …; pos += step }` visits, up to a number of
them. -/
def strides (step total : Nat) : Nat → Nat → List Nat
  | 0, _ => []
  | fuel + 1, pos => if pos < total then pos :: strides step total fuel (pos + step) else []

section

variable {step total fuel pos position : Nat}

theorem le_of_mem_strides (member : position ∈ strides step total fuel pos) : pos ≤ position := by
  induction fuel generalizing pos with
  | zero => cases member
  | succ fuel ih =>
    rw [strides] at member
    split_ifs at member with inside
    · rcases mem_cons.mp member with same | later
      · exact same.ge
      · exact (Nat.le_add_right _ _).trans (ih later)
    · cases member

theorem pairwise_strides (positive : 0 < step) :
    (strides step total fuel pos).Pairwise (· < ·) := by
  induction fuel generalizing pos with
  | zero => exact .nil
  | succ fuel ih =>
    rw [strides]
    split_ifs with inside
    · refine .cons (fun later member => ?_) ih
      exact Nat.lt_of_lt_of_le (Nat.lt_add_of_pos_right positive) (le_of_mem_strides member)
    · exact .nil

/-- **Strides.** A loop with a positive stride ends, and visits the positions below the end that
are a multiple of the stride away from the start. -/
theorem mem_strides_iff (positive : 0 < step) (enough : total ≤ pos + fuel) :
    position ∈ strides step total fuel pos ↔
      position < total ∧ pos ≤ position ∧ step ∣ position - pos := by
  induction fuel generalizing pos with
  | zero =>
    have nothing : strides step total 0 pos = [] := rfl
    rw [nothing]
    exact ⟨fun member => absurd member not_mem_nil, fun inside => by omega⟩
  | succ fuel ih =>
    rw [strides]
    split_ifs with inside
    · rw [mem_cons, ih (by omega)]
      constructor
      · rintro (rfl | ⟨below, above, multiple⟩)
        · exact ⟨inside, le_rfl, by rw [Nat.sub_self]; exact Nat.dvd_zero _⟩
        · refine ⟨below, by omega, ?_⟩
          have split : position - pos = (position - (pos + step)) + step := by omega
          rw [split]
          exact Nat.dvd_add multiple (dvd_refl step)
      · rintro ⟨below, above, multiple⟩
        by_cases first : position = pos
        · exact .inl first
        · have far : step ≤ position - pos := Nat.le_of_dvd (by omega) multiple
          refine .inr ⟨below, by omega, ?_⟩
          rw [Nat.sub_add_eq]
          exact Nat.dvd_sub multiple (dvd_refl step)
    · exact ⟨fun member => absurd member not_mem_nil, fun other => by omega⟩

/-- The loop from the start of a list of `total` items. -/
theorem mem_strides_zero_iff (positive : 0 < step) :
    position ∈ strides step total total 0 ↔ position < total ∧ step ∣ position := by
  rw [mem_strides_iff positive (by omega), Nat.sub_zero]
  exact and_congr_right fun _ => ⟨fun both => both.2, fun multiple => ⟨Nat.zero_le _, multiple⟩⟩

theorem strides_one (enough : total ≤ pos + fuel) :
    strides 1 total fuel pos = List.range' pos (total - pos) := by
  induction fuel generalizing pos with
  | zero =>
    have nothing : total - pos = 0 := by omega
    rw [nothing]
    rfl
  | succ fuel ih =>
    rw [strides]
    split_ifs with inside
    · obtain ⟨rest, count⟩ : ∃ rest, total - pos = rest + 1 := ⟨total - pos - 1, by omega⟩
      have fewer : total - (pos + 1) = rest := by omega
      rw [ih (by omega), fewer, count, List.range'_succ]
    · have nothing : total - pos = 0 := by omega
      rw [nothing]
      rfl

end

end Foundation
