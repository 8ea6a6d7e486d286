import KwaaiNet.Training.Averaging

/-! # Rounds of averaging

A round is the gradients passed to an averager since its last successful step or `clear`. A step
resets the count of the gradients and leaves its result where the next round is summed up, so the
means of later rounds contain those of earlier ones. `KwaaiNet.Training.averagesRounds_iff` says
for which sequences of calls this makes no difference.
-/

namespace KwaaiNet.Training

/-- The calls of an averager. -/
inductive Call (K : Type) where
  | accumulate (gradients : List (Tensor K))
  | step
  | clear

/-- An averager, and the gradients passed to it since the last successful step or `clear`. -/
structure Round (K : Type) where
  averager : DecentralizedAverager K
  passed : List (List (Tensor K))

section

variable {K : Type} [Field K]

def DecentralizedAverager.after (averager : DecentralizedAverager K) :
    Call K → DecentralizedAverager K
  | .accumulate gradients => (averager.accumulate gradients).1
  | .step => averager.step.1
  | .clear => averager.clear

/-- A step from here is successful. -/
def DecentralizedAverager.Succeeds (averager : DecentralizedAverager K) : Prop :=
  averager.step.2 = .ok (.success 1 1)

instance (averager : DecentralizedAverager K) : Decidable averager.Succeeds :=
  inferInstanceAs (Decidable (averager.step.2 = .ok (.success 1 1)))

theorem DecentralizedAverager.succeeds_iff {averager : DecentralizedAverager K} :
    averager.Succeeds ↔ averager.accumulated ≠ [] ∧ 0 < averager.accumulationCount := by
  rw [Succeeds, step]
  split_ifs with empty counted <;> simp [*]

theorem DecentralizedAverager.step_of_not_succeeds {averager : DecentralizedAverager K}
    (fails : ¬ averager.Succeeds) : averager.step.1 = averager := by
  rw [succeeds_iff, not_and] at fails
  rw [step]
  split_ifs with empty counted
  · rfl
  · exact absurd counted (fails empty)
  · rfl

theorem DecentralizedAverager.step_of_succeeds {averager : DecentralizedAverager K}
    (succeeds : averager.Succeeds) :
    averager.step.1 =
      ⟨averager.accumulated.map fun acc => acc.div averager.accumulationCount, 0⟩ := by
  obtain ⟨full, counted⟩ := succeeds_iff.mp succeeds
  rw [step, if_neg full, if_pos counted]

namespace Round

def start : Round K := ⟨.new, []⟩

def after (round : Round K) (call : Call K) : Round K where
  averager := round.averager.after call
  passed :=
    match call with
    | .accumulate gradients => round.passed ++ [gradients]
    | .step => if round.averager.Succeeds then [] else round.passed
    | .clear => []

def reached (calls : List (Call K)) : Round K := calls.foldl after start

theorem reached_concat (calls : List (Call K)) (call : Call K) :
    reached (calls ++ [call]) = (reached calls).after call := by
  rw [reached, List.foldl_append]
  rfl

/-- What the averager holds beside the gradients of the round. -/
def leftover (round : Round K) (position index : Nat) : K :=
  entry round.averager.accumulated position index - total round.passed position index

/-- The tensors of the round have the same shapes, and the gradients are counted. -/
structure Regular (shape : List (List Nat)) (round : Round K) : Prop where
  accumulated : round.averager.accumulated = [] ∨ shapes round.averager.accumulated = shape
  passed : ∀ gradients ∈ round.passed, shapes gradients = shape
  counted : round.averager.accumulationCount = round.passed.length

variable {shape : List (List Nat)} {round : Round K}

theorem leftover_start (position index : Nat) :
    (start : Round K).leftover position index = 0 := sub_zero 0

theorem total_concat (sets : List (List (Tensor K))) (gradients : List (Tensor K))
    (position index : Nat) :
    total (sets ++ [gradients]) position index =
      total sets position index + entry gradients position index := by
  rw [total, List.map_append, List.sum_append, List.map_singleton, List.sum_singleton, total]

theorem Regular.after_accumulate (regular : round.Regular shape) {gradients : List (Tensor K)}
    (shaped : shapes gradients = shape) :
    (round.after (.accumulate gradients)).Regular shape ∧
      (round.after (.accumulate gradients)).leftover = round.leftover := by
  have passed : ∀ set ∈ round.passed ++ [gradients], shapes set = shape := by
    intro set member
    rcases List.mem_append.mp member with earlier | last
    · exact regular.passed set earlier
    · rwa [List.mem_singleton.mp last]
  have lengths : round.averager.accumulationCount + 1 = (round.passed ++ [gradients]).length := by
    rw [regular.counted, List.length_append, List.length_singleton]
  by_cases empty : round.averager.accumulated = []
  · have made : round.averager.accumulate gradients =
        (⟨gradients, round.averager.accumulationCount + 1⟩, .ok ()) := if_pos empty
    have next : round.after (.accumulate gradients) =
        ⟨⟨gradients, round.averager.accumulationCount + 1⟩, round.passed ++ [gradients]⟩ :=
      congrArg (fun averager => Round.mk (Prod.fst averager) _) made
    rw [next]
    refine ⟨⟨.inr shaped, passed, lengths⟩, ?_⟩
    funext position index
    rw [leftover, leftover, total_concat, empty, entry_nil]
    ring
  · have same : shapes round.averager.accumulated = shapes gradients :=
      (regular.accumulated.resolve_left empty).trans shaped.symm
    obtain ⟨_, kept, entries⟩ := DecentralizedAverager.addInPlace_of_shapes_eq same
    have next : round.after (.accumulate gradients) =
        ⟨⟨_, round.averager.accumulationCount + 1⟩, round.passed ++ [gradients]⟩ :=
      congrArg (fun averager => Round.mk (Prod.fst averager) _)
        (DecentralizedAverager.accumulate_of_shapes_eq empty same)
    rw [next]
    refine ⟨⟨.inr (kept.trans (same.trans shaped)), passed, lengths⟩, ?_⟩
    funext position index
    rw [leftover, leftover, total_concat, entries]
    ring

theorem after_step_of_not_succeeds (fails : ¬ round.averager.Succeeds) :
    round.after .step = round := by
  have next : round.after .step = ⟨round.averager.step.1,
      if round.averager.Succeeds then [] else round.passed⟩ := rfl
  rw [next, if_neg fails, DecentralizedAverager.step_of_not_succeeds fails]

theorem after_step_of_succeeds (succeeds : round.averager.Succeeds) :
    round.after .step = ⟨round.averager.step.1, []⟩ := by
  have next : round.after .step = ⟨round.averager.step.1,
      if round.averager.Succeeds then [] else round.passed⟩ := rfl
  rw [next, if_pos succeeds]

theorem shapes_map_div (gradients : List (Tensor K)) (divisor : K) :
    shapes (gradients.map fun tensor => tensor.div divisor) = shapes gradients := by
  rw [shapes, List.map_map]
  rfl

theorem entry_map_div (gradients : List (Tensor K)) (divisor : K) (position index : Nat) :
    entry (gradients.map fun tensor => tensor.div divisor) position index =
      entry gradients position index / divisor := by
  rw [entry, entry, List.getElem?_map]
  cases gradients[position]? with
  | none => exact (zero_div _).symm
  | some tensor => exact tensor.value_div divisor index

theorem Regular.entry_step (regular : round.Regular shape) (succeeds : round.averager.Succeeds)
    (position index : Nat) :
    entry round.averager.step.1.accumulated position index =
      (round.leftover position index + total round.passed position index) /
        round.passed.length := by
  rw [DecentralizedAverager.step_of_succeeds succeeds, entry_map_div, regular.counted, leftover,
    sub_add_cancel]

theorem Regular.shapes_step (regular : round.Regular shape) (succeeds : round.averager.Succeeds) :
    shapes round.averager.step.1.accumulated = shape := by
  obtain ⟨full, _⟩ := DecentralizedAverager.succeeds_iff.mp succeeds
  rw [DecentralizedAverager.step_of_succeeds succeeds, shapes_map_div]
  exact regular.accumulated.resolve_left full

theorem Regular.after_step (regular : round.Regular shape) : (round.after .step).Regular shape := by
  by_cases succeeds : round.averager.Succeeds
  · rw [after_step_of_succeeds succeeds]
    refine ⟨.inr (regular.shapes_step succeeds), fun _ member => absurd member List.not_mem_nil, ?_⟩
    rw [DecentralizedAverager.step_of_succeeds succeeds]
    rfl
  · rwa [after_step_of_not_succeeds succeeds]

theorem leftover_after_step (succeeds : round.averager.Succeeds) (position index : Nat) :
    (round.after .step).leftover position index =
      entry round.averager.step.1.accumulated position index := by
  rw [after_step_of_succeeds succeeds, leftover]
  exact sub_zero _

theorem leftover_after_clear (position index : Nat) :
    (round.after .clear).leftover position index = 0 := sub_zero 0

theorem regular_reached {calls : List (Call K)}
    (shaped : ∀ gradients, .accumulate gradients ∈ calls → shapes gradients = shape) :
    (reached calls).Regular shape := by
  induction calls using List.reverseRecOn with
  | nil => exact ⟨.inl rfl, fun _ member => absurd member List.not_mem_nil, rfl⟩
  | append_singleton calls call ih =>
    have regular := ih fun gradients member => shaped gradients (List.mem_append_left _ member)
    rw [reached_concat]
    cases call with
    | accumulate gradients =>
      exact (regular.after_accumulate (shaped gradients (by simp))).1
    | step => exact regular.after_step
    | clear => exact ⟨.inl rfl, fun _ member => absurd member List.not_mem_nil, rfl⟩

end Round

/-! ## Means of rounds -/

open Round List

/-- After every successful step, the averager holds the mean of the gradients of the round. -/
def AveragesRounds (calls : List (Call K)) : Prop :=
  ∀ earlier later, calls = earlier ++ .step :: later → (reached earlier).averager.Succeeds →
    IsMean (reached earlier).averager.step.1.getAccumulated (reached earlier).passed

/-- The gradients of a round whose step is followed by a successful one, without `clear` in
between, sum up to zero. -/
def VanishBeforeNext (calls : List (Call K)) : Prop :=
  ∀ earlier between later, calls = earlier ++ .step :: (between ++ .step :: later) →
    .clear ∉ between → (reached earlier).averager.Succeeds →
      (reached (earlier ++ .step :: between)).averager.Succeeds →
        ∀ position index, total (reached earlier).passed position index = 0

variable {shape : List (List Nat)} {calls : List (Call K)}

/-- Calls other than a successful step and `clear` keep what was left over. -/
theorem leftover_concat {earlier : List (Call K)} {call : Call K}
    (shaped : ∀ gradients, .accumulate gradients ∈ earlier ++ [call] → shapes gradients = shape)
    (other : call ≠ .clear) (quiet : call = .step → ¬ (reached earlier).averager.Succeeds) :
    (reached (earlier ++ [call])).leftover = (reached earlier).leftover := by
  rw [reached_concat]
  cases call with
  | accumulate gradients =>
    have regular : (reached earlier).Regular shape :=
      regular_reached fun set member => shaped set (mem_append_left _ member)
    exact (regular.after_accumulate (shaped gradients (by simp))).2
  | step => rw [after_step_of_not_succeeds (quiet rfl)]
  | clear => exact absurd rfl other

/-- What is left over in a round comes from the last successful step, if no `clear` came after. -/
theorem leftover_cases
    (shaped : ∀ gradients, .accumulate gradients ∈ calls → shapes gradients = shape) :
    (reached calls).leftover = 0 ∨
      ∃ earlier between, calls = earlier ++ .step :: between ∧ .clear ∉ between ∧
        (reached earlier).averager.Succeeds ∧
          (reached calls).leftover = entry (reached earlier).averager.step.1.accumulated := by
  induction calls using List.reverseRecOn with
  | nil =>
    left
    funext position index
    exact leftover_start position index
  | append_singleton calls call ih =>
    have before := ih fun gradients member => shaped gradients (mem_append_left _ member)
    by_cases cleared : call = .clear
    · left
      rw [reached_concat, cleared]
      funext position index
      exact leftover_after_clear position index
    by_cases stepped : call = .step ∧ (reached calls).averager.Succeeds
    · obtain ⟨rfl, succeeds⟩ := stepped
      refine .inr ⟨calls, [], rfl, not_mem_nil, succeeds, ?_⟩
      rw [reached_concat]
      funext position index
      exact leftover_after_step succeeds position index
    have kept := leftover_concat shaped cleared fun step succeeds => stepped ⟨step, succeeds⟩
    rw [kept]
    refine before.imp id ?_
    rintro ⟨earlier, between, rfl, quiet, succeeds, same⟩
    refine ⟨earlier, between ++ [call], by simp, ?_, succeeds, same⟩
    rw [mem_append, mem_singleton, not_or]
    exact ⟨quiet, fun clear => cleared clear.symm⟩

theorem Round.Regular.isMean_step_iff [CharZero K] {round : Round K}
    (regular : round.Regular shape) (succeeds : round.averager.Succeeds) :
    IsMean round.averager.step.1.getAccumulated round.passed ↔ round.leftover = 0 := by
  have some : (round.passed.length : K) ≠ 0 := by
    rw [← regular.counted, Nat.cast_ne_zero]
    exact (DecentralizedAverager.succeeds_iff.mp succeeds).2.ne'
  have entries := regular.entry_step succeeds
  constructor
  · intro mean
    funext position index
    have divided := (entries position index).symm.trans (mean.entry position index)
    rw [div_left_inj' some, add_eq_right] at divided
    exact divided
  · intro clean
    refine ⟨fun gradients member => ?_, fun position index => ?_⟩
    · exact (regular.shapes_step succeeds).trans (regular.passed gradients member).symm
    · exact (entries position index).trans (by rw [clean, Pi.zero_apply, Pi.zero_apply, zero_add])

/-- If nothing is left over at successful steps, nothing is left over in a round that leads to
one without `clear`. -/
theorem leftover_eq_zero_of_next {earlier between later : List (Call K)}
    (shaped : ∀ gradients, .accumulate gradients ∈ calls → shapes gradients = shape)
    (clean : ∀ earlier later, calls = earlier ++ .step :: later →
      (reached earlier).averager.Succeeds → (reached earlier).leftover = 0)
    (split : calls = earlier ++ (between ++ .step :: later)) (quiet : .clear ∉ between)
    (succeeds : (reached (earlier ++ between)).averager.Succeeds) :
    (reached earlier).leftover = 0 := by
  induction between generalizing earlier with
  | nil =>
    rw [append_nil] at succeeds
    exact clean earlier later split succeeds
  | cons call between ih =>
    rw [mem_cons, not_or] at quiet
    have moved : calls = (earlier ++ [call]) ++ (between ++ .step :: later) := by
      rw [split]
      simp
    have rest := ih moved quiet.2 (by rwa [append_assoc, singleton_append])
    by_cases stepped : call = .step ∧ (reached earlier).averager.Succeeds
    · obtain ⟨rfl, now⟩ := stepped
      exact clean earlier _ split now
    have shapedFront : ∀ gradients, .accumulate gradients ∈ earlier ++ [call] →
        shapes gradients = shape := fun gradients member => shaped gradients (by
      rw [moved]
      exact mem_append_left _ member)
    rw [← leftover_concat shapedFront (fun clear => quiet.1 clear.symm) fun step now =>
      stepped ⟨step, now⟩]
    exact rest

/-- **The averager holds the mean of every round exactly if the gradients of each round that is
followed by another one without `clear` sum up to zero.** -/
theorem averagesRounds_iff [CharZero K]
    (shaped : ∀ gradients, .accumulate gradients ∈ calls → shapes gradients = shape) :
    AveragesRounds calls ↔ VanishBeforeNext calls := by
  have regular {earlier later : List (Call K)} (split : calls = earlier ++ later) :
      (reached earlier).Regular shape :=
    regular_reached fun gradients member => shaped gradients (by
      rw [split]
      exact mem_append_left _ member)
  have averages : AveragesRounds calls ↔ ∀ earlier later, calls = earlier ++ .step :: later →
      (reached earlier).averager.Succeeds → (reached earlier).leftover = 0 := by
    refine forall₂_congr fun earlier later => forall₂_congr fun split succeeds => ?_
    exact (regular split).isMean_step_iff succeeds
  have positive {earlier later : List (Call K)} (split : calls = earlier ++ later)
      (succeeds : (reached earlier).averager.Succeeds) :
      ((reached earlier).passed.length : K) ≠ 0 := by
    rw [← (regular split).counted, Nat.cast_ne_zero]
    exact (DecentralizedAverager.succeeds_iff.mp succeeds).2.ne'
  rw [averages]
  constructor
  · intro clean earlier between later split quiet succeeds next position index
    have before : (reached earlier).leftover = 0 := clean earlier _ split succeeds
    have moved : calls = (earlier ++ [.step]) ++ (between ++ .step :: later) := by
      rw [split]
      simp
    have after : (reached (earlier ++ [.step])).leftover = 0 := by
      refine leftover_eq_zero_of_next shaped clean moved quiet ?_
      rwa [append_assoc, singleton_append]
    have result := leftover_after_step succeeds position index
    rw [← reached_concat, after, (regular split).entry_step succeeds, before] at result
    simp only [Pi.zero_apply, zero_add] at result
    exact (div_eq_zero_iff.mp result.symm).resolve_right (positive split succeeds)
  · intro vanish earlier
    -- by induction on the length: the round before this one was clean as well
    induction length : earlier.length using Nat.strong_induction_on generalizing earlier with
    | _ _ ih =>
      intro later split succeeds
      have shapedEarlier : ∀ gradients, .accumulate gradients ∈ earlier →
          shapes gradients = shape := fun gradients member => shaped gradients (by
        rw [split]
        exact mem_append_left _ member)
      rcases leftover_cases shapedEarlier with zero | ⟨first, between, rfl, quiet, held, same⟩
      · exact zero
      have whole : calls = first ++ .step :: (between ++ .step :: later) := by
        rw [split]
        simp
      have shorter : first.length < (first ++ .step :: between).length := by simp
      have clean : (reached first).leftover = 0 :=
        ih first.length (length ▸ shorter) first rfl _ whole held
      rw [same]
      funext position index
      rw [(regular whole).entry_step held, clean,
        vanish first between later whole quiet held succeeds position index]
      simp

end

def scalarGradient (value : ℚ) : List (Tensor ℚ) := [⟨[1], [value], rfl⟩]

/-- The mean of one round is as it should be. -/
theorem oneRound_averages :
    AveragesRounds [.accumulate (scalarGradient 1), .accumulate (scalarGradient 3), .step] := by
  have shaped : ∀ gradients, Call.accumulate gradients ∈
      [.accumulate (scalarGradient 1), .accumulate (scalarGradient 3), .step] →
        shapes gradients = [[1]] := by
    intro gradients member
    simp only [List.mem_cons, Call.accumulate.injEq, reduceCtorEq, List.not_mem_nil, or_false]
      at member
    rcases member with rfl | rfl <;> rfl
  refine (averagesRounds_iff shaped).mpr fun earlier between later split => ?_
  -- there would have to be two steps
  simp [List.cons_eq_append_iff] at split

/-- The second of two rounds: the averager holds 1 + 3, where the mean is 3. -/
theorem twoRounds_not_averagesRounds :
    ¬ AveragesRounds [.accumulate (scalarGradient 1), .step, .accumulate (scalarGradient 3),
      .step] := by
  intro averages
  have mean := averages [.accumulate (scalarGradient 1), .step, .accumulate (scalarGradient 3)] []
    rfl (by decide)
  have held : (1 / (1 : ℕ) + 3) / (1 : ℕ) = ((3 + 0) / (1 : ℕ) : ℚ) := mean.entry 0 0
  norm_num at held

end KwaaiNet.Training
