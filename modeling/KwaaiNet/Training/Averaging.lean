import KwaaiNet.Foundation.Fallible
import KwaaiNet.Training.Tensor

/-! # Decentralized averaging

An averager adds up gradients and divides the sum by their number at each step. The gradients of
several nodes are averaged position by position, as many positions as the first node has. Both add
tensor after tensor and stop at the first pair of different shapes:
`KwaaiNet.Training.averagingErrors_spec` says what that leaves behind.
-/

namespace KwaaiNet.Training

open Foundation List

/-- `DistributedError`, as far as averaging returns it. -/
inductive DistributedError where
  | averagingFailed (message : String)
  | tensorError (error : TensorError)
  deriving DecidableEq

/-- `AveragingResult`, as far as `step` returns it. -/
inductive AveragingResult where
  | success (peersCount : Nat) (compressionRatio : ℚ)
  | noPeersAvailable
  deriving DecidableEq

/-- `DecentralizedAverager`, without the configuration and the compressor. -/
@[ext]
structure DecentralizedAverager (K : Type) where
  accumulated : List (Tensor K)
  accumulationCount : Nat
  deriving DecidableEq

namespace DecentralizedAverager

variable {K : Type}

def new : DecentralizedAverager K := ⟨[], 0⟩

def getAccumulated (averager : DecentralizedAverager K) : List (Tensor K) := averager.accumulated

def clear (_ : DecentralizedAverager K) : DecentralizedAverager K := ⟨[], 0⟩

variable [Field K]

/-- The loop of `accumulate`: the tensors after it, and how it ended. -/
def addInPlace : List (Tensor K) → List (Tensor K) → List (Tensor K) × Except TensorError Unit
  | acc :: accs, grad :: grads =>
    match acc.add grad with
    | .ok sum => ((sum :: (addInPlace accs grads).1), (addInPlace accs grads).2)
    | .error error => (acc :: accs, .error error)
  | accs, _ => (accs, .ok ())

def accumulate (averager : DecentralizedAverager K) (gradients : List (Tensor K)) :
    DecentralizedAverager K × Except DistributedError Unit :=
  if averager.accumulated = [] then (⟨gradients, averager.accumulationCount + 1⟩, .ok ())
  else if averager.accumulated.length ≠ gradients.length then
    (averager, .error (.averagingFailed
      s!"Gradient count mismatch: {averager.accumulated.length} vs {gradients.length}"))
  else
    match addInPlace averager.accumulated gradients with
    | (accumulated, .ok _) => (⟨accumulated, averager.accumulationCount + 1⟩, .ok ())
    | (accumulated, .error error) =>
      (⟨accumulated, averager.accumulationCount⟩, .error (.tensorError error))

/-- `step`, which averages the node's own gradients only. -/
def step (averager : DecentralizedAverager K) :
    DecentralizedAverager K × Except DistributedError AveragingResult :=
  if averager.accumulated = [] then (averager, .ok .noPeersAvailable)
  else if 0 < averager.accumulationCount then
    (⟨averager.accumulated.map fun acc => acc.div averager.accumulationCount, 0⟩,
      .ok (.success 1 1))
  else (averager, .ok .noPeersAvailable)

end DecentralizedAverager

/-! ## Averaging of several nodes -/

/-- How `average_gradients` fails. -/
inductive AverageFault where
  | indexOutOfBounds (length index : Nat)
  | failed (error : DistributedError)
  deriving DecidableEq

section

variable {K : Type} [Field K]

def addAt (position : Nat) (sum : Tensor K) (set : List (Tensor K)) :
    Except AverageFault (Tensor K) :=
  match set[position]? with
  | none => .error (.indexOutOfBounds set.length position)
  | some tensor => (sum.add tensor).mapError fun error => .failed (.tensorError error)

def averageAt (first : List (Tensor K)) (rest : List (List (Tensor K))) (position : Nat) :
    Except AverageFault (Tensor K) :=
  match first[position]? with
  | none => .error (.indexOutOfBounds first.length position)
  | some tensor => (rest.foldlM (addAt position) tensor).map fun sum => sum.div (rest.length + 1)

/-- `average_gradients`. -/
def averageGradients : List (List (Tensor K)) → Except AverageFault (List (Tensor K))
  | [] => .error (.failed (.averagingFailed "No gradients to average"))
  | first :: rest => (List.range first.length).mapM (averageAt first rest)

end

/-! ## The loop of accumulation -/

namespace DecentralizedAverager

variable {K : Type} [Field K] {accs grads : List (Tensor K)}

theorem addInPlace_of_shapes_eq (same : shapes accs = shapes grads) :
    (addInPlace accs grads).2 = .ok () ∧ shapes (addInPlace accs grads).1 = shapes accs ∧
      ∀ position index, entry (addInPlace accs grads).1 position index =
        entry accs position index + entry grads position index := by
  induction accs generalizing grads with
  | nil =>
    obtain rfl := map_eq_nil_iff.mp same.symm
    exact ⟨rfl, rfl, fun _ _ => (add_zero 0).symm⟩
  | cons acc accs ih =>
    cases grads with
    | nil => cases same
    | cons grad grads =>
      obtain ⟨dims, others⟩ := List.cons.inj same
      obtain ⟨sum, added, isSum⟩ := Tensor.add_of_dims_eq dims
      obtain ⟨ok, shaped, entries⟩ := ih others
      rw [addInPlace, added]
      refine ⟨ok, congrArg₂ List.cons isSum.dims shaped, fun position index => ?_⟩
      cases position with
      | zero => exact isSum.value index
      | succ position => exact entries position index

theorem addInPlace_of_mismatch {frontAccs frontGrads backAccs backGrads : List (Tensor K)}
    {acc grad : Tensor K} (same : shapes frontAccs = shapes frontGrads)
    (other : acc.dims ≠ grad.dims) :
    addInPlace (frontAccs ++ acc :: backAccs) (frontGrads ++ grad :: backGrads) =
      ((addInPlace frontAccs frontGrads).1 ++ acc :: backAccs,
        .error (.shapeMismatchBinaryOp acc.dims grad.dims)) := by
  induction frontAccs generalizing frontGrads with
  | nil =>
    obtain rfl := map_eq_nil_iff.mp same.symm
    rw [nil_append, nil_append, addInPlace, Tensor.add_of_dims_ne other]
    rfl
  | cons head frontAccs ih =>
    cases frontGrads with
    | nil => cases same
    | cons first frontGrads =>
      obtain ⟨dims, others⟩ := List.cons.inj same
      obtain ⟨sum, added, _⟩ := Tensor.add_of_dims_eq dims
      rw [cons_append, cons_append, addInPlace, added, addInPlace, added, ih others]
      rfl

theorem accumulate_of_shapes_eq {averager : DecentralizedAverager K}
    (full : averager.accumulated ≠ [])
    (same : shapes averager.accumulated = shapes grads) :
    averager.accumulate grads =
      (⟨(addInPlace averager.accumulated grads).1, averager.accumulationCount + 1⟩, .ok ()) := by
  have lengths : ¬ averager.accumulated.length ≠ grads.length := by
    rw [← length_shapes, same, length_shapes, not_ne_iff]
  have ok := (addInPlace_of_shapes_eq same).1
  rw [accumulate, if_neg full, if_neg lengths]
  cases added : addInPlace averager.accumulated grads with
  | mk accumulated outcome =>
    rw [added] at ok
    cases ok
    rfl

end DecentralizedAverager

/-! ## Atomic errors -/

theorem exists_first_mismatch {K : Type} {accs grads : List (Tensor K)}
    (lengths : accs.length = grads.length) (differ : shapes accs ≠ shapes grads) :
    ∃ frontAccs acc backAccs frontGrads grad backGrads,
      accs = frontAccs ++ acc :: backAccs ∧ grads = frontGrads ++ grad :: backGrads ∧
        shapes frontAccs = shapes frontGrads ∧ acc.dims ≠ grad.dims := by
  induction accs generalizing grads with
  | nil =>
    obtain rfl := eq_nil_of_length_eq_zero lengths.symm
    exact absurd rfl differ
  | cons acc accs ih =>
    cases grads with
    | nil => cases lengths
    | cons grad grads =>
      by_cases same : acc.dims = grad.dims
      · obtain ⟨frontAccs, other, backAccs, frontGrads, otherGrad, backGrads, rfl, rfl, before,
          here⟩ := ih (Nat.succ.inj lengths) fun tails =>
            differ (congrArg₂ List.cons same tails)
        exact ⟨acc :: frontAccs, other, backAccs, grad :: frontGrads, otherGrad, backGrads, rfl,
          rfl, congrArg₂ List.cons same before, here⟩
      · exact ⟨[], acc, accs, [], grad, grads, rfl, rfl, rfl, same⟩

section

variable {K : Type} [Field K]

/-- An error of `accumulate` leaves the averager as it was. -/
def AtomicOnError (averager : DecentralizedAverager K) (gradients : List (Tensor K)) : Prop :=
  ∀ error, (averager.accumulate gradients).2 = .error error →
    (averager.accumulate gradients).1 = averager

/-- The gradients before the first one of another shape are zero. -/
def ZeroBeforeMismatch (accs grads : List (Tensor K)) : Prop :=
  ∀ frontAccs acc backAccs frontGrads grad backGrads,
    accs = frontAccs ++ acc :: backAccs → grads = frontGrads ++ grad :: backGrads →
      shapes frontAccs = shapes frontGrads → acc.dims ≠ grad.dims →
        ∀ gradient ∈ frontGrads, ∀ value ∈ gradient.data, value = 0

theorem addInPlace_eq_self_iff {accs grads : List (Tensor K)} (same : shapes accs = shapes grads) :
    (DecentralizedAverager.addInPlace accs grads).1 = accs ↔
      ∀ gradient ∈ grads, ∀ value ∈ gradient.data, value = 0 := by
  obtain ⟨_, kept, entries⟩ := DecentralizedAverager.addInPlace_of_shapes_eq same
  have unchanged : (DecentralizedAverager.addInPlace accs grads).1 = accs ↔
      ∀ position index, entry grads position index = 0 := by
    constructor
    · intro unmoved position index
      have sum := entries position index
      rw [unmoved] at sum
      exact left_eq_add.mp sum
    · intro zero
      refine eq_of_entry kept fun position index => ?_
      rw [entries, zero, add_zero]
  rw [unchanged]
  constructor
  · intro zero gradient member value held
    obtain ⟨position, inside, rfl⟩ := mem_iff_getElem.mp member
    obtain ⟨index, present, rfl⟩ := mem_iff_getElem.mp held
    have here := zero position index
    rw [entry, List.getElem?_eq_getElem inside] at here
    rwa [Option.map_some, Option.getD_some, Tensor.value, getD_eq_getElem _ _ present] at here
  · intro zero position index
    rw [entry]
    cases found : grads[position]? with
    | none => rfl
    | some gradient =>
      rw [Option.map_some, Option.getD_some, Tensor.value, getD_eq_getElem?_getD]
      cases held : gradient.data[index]? with
      | none => rfl
      | some value =>
        exact zero gradient (mem_of_getElem? found) value (mem_of_getElem? held)

theorem atomicOnError_of_mismatch {averager : DecentralizedAverager K}
    {frontAccs frontGrads backAccs backGrads : List (Tensor K)} {acc grad : Tensor K}
    (split : averager.accumulated = frontAccs ++ acc :: backAccs)
    (lengths : averager.accumulated.length = (frontGrads ++ grad :: backGrads).length)
    (before : shapes frontAccs = shapes frontGrads) (here : acc.dims ≠ grad.dims) :
    AtomicOnError averager (frontGrads ++ grad :: backGrads) ↔
      ∀ gradient ∈ frontGrads, ∀ value ∈ gradient.data, value = 0 := by
  have full : averager.accumulated ≠ [] := by
    rw [split]
    simp
  have stopped : averager.accumulate (frontGrads ++ grad :: backGrads) =
      (⟨(DecentralizedAverager.addInPlace frontAccs frontGrads).1 ++ acc :: backAccs,
        averager.accumulationCount⟩,
        .error (.tensorError (.shapeMismatchBinaryOp acc.dims grad.dims))) := by
    rw [DecentralizedAverager.accumulate, if_neg full, if_neg (not_not.mpr lengths), split,
      DecentralizedAverager.addInPlace_of_mismatch before here]
  rw [← addInPlace_eq_self_iff before, AtomicOnError, stopped]
  constructor
  · intro unchanged
    have whole := congrArg DecentralizedAverager.accumulated (unchanged _ rfl)
    exact append_cancel_right (whole.trans split)
  · intro unmoved error _
    rw [unmoved, ← split]

/-- **Errors of `accumulate` are atomic exactly if the gradients before the first one of another
shape are zero**, or their number is wrong. -/
theorem atomicOnError_iff (averager : DecentralizedAverager K) (gradients : List (Tensor K)) :
    AtomicOnError averager gradients ↔
      (averager.accumulated.length = gradients.length →
        ZeroBeforeMismatch averager.accumulated gradients) := by
  constructor
  · rintro atomic lengths frontAccs acc backAccs frontGrads grad backGrads split rfl before here
    exact (atomicOnError_of_mismatch split lengths before here).mp atomic
  · intro zero error failed
    by_cases empty : averager.accumulated = []
    · have ok : (averager.accumulate gradients).2 = .ok () := by
        rw [DecentralizedAverager.accumulate, if_pos empty]
      cases ok.symm.trans failed
    by_cases lengths : averager.accumulated.length = gradients.length
    · by_cases same : shapes averager.accumulated = shapes gradients
      · have ok := congrArg Prod.snd (DecentralizedAverager.accumulate_of_shapes_eq empty same)
        cases ok.symm.trans failed
      · obtain ⟨frontAccs, acc, backAccs, frontGrads, grad, backGrads, split, rfl, before, here⟩ :=
          exists_first_mismatch lengths same
        have atomic := (atomicOnError_of_mismatch split lengths before here).mpr
          (zero lengths _ _ _ _ _ _ split rfl before here)
        exact atomic error failed
    · rw [DecentralizedAverager.accumulate, if_neg empty, if_pos lengths]

/-! ## Means over nodes -/

/-- How adding the tensor of a node ends that is not of the right shape. -/
def faultAt (position : Nat) (dims : List Nat) (set : List (Tensor K)) : AverageFault :=
  match (shapes set)[position]? with
  | none => .indexOutOfBounds set.length position
  | some other => .failed (.tensorError (.shapeMismatchBinaryOp dims other))

theorem addAt_of_dims_eq {position : Nat} {sum : Tensor K} {set : List (Tensor K)}
    (agrees : (shapes set)[position]? = some sum.dims) :
    ∃ next, addAt position sum set = .ok next ∧ next.dims = sum.dims ∧
      ∀ index, next.value index = sum.value index + entry set position index := by
  rw [shapes, List.getElem?_map] at agrees
  obtain ⟨tensor, found, dims⟩ := Option.map_eq_some_iff.mp agrees
  obtain ⟨next, added, isSum⟩ := Tensor.add_of_dims_eq dims.symm
  refine ⟨next, ?_, isSum.dims, fun index => ?_⟩
  · rw [addAt, found]
    exact congrArg (Except.mapError _) added
  · rw [isSum.value, entry, found]
    rfl

theorem addAt_of_dims_ne {position : Nat} {sum : Tensor K} {set : List (Tensor K)}
    (differs : (shapes set)[position]? ≠ some sum.dims) :
    addAt position sum set = .error (faultAt position sum.dims set) := by
  rw [shapes, List.getElem?_map] at differs
  rw [addAt, faultAt, shapes, List.getElem?_map]
  cases found : set[position]? with
  | none => rfl
  | some tensor =>
    rw [found] at differs
    have other : sum.dims ≠ tensor.dims := fun same => differs (congrArg some same.symm)
    exact congrArg (Except.mapError _) (Tensor.add_of_dims_ne other)

theorem foldlM_addAt_of_forall {position : Nat} {sum : Tensor K} {rest : List (List (Tensor K))}
    (agree : ∀ set ∈ rest, (shapes set)[position]? = some sum.dims) :
    ∃ result, rest.foldlM (addAt position) sum = .ok result ∧ result.dims = sum.dims ∧
      ∀ index, result.value index = sum.value index + total rest position index := by
  induction rest generalizing sum with
  | nil => exact ⟨sum, rfl, rfl, fun index => (add_zero _).symm⟩
  | cons set rest ih =>
    obtain ⟨here, others⟩ := forall_mem_cons.mp agree
    obtain ⟨next, added, dims, values⟩ := addAt_of_dims_eq here
    obtain ⟨result, folded, same, sums⟩ := ih (dims ▸ others)
    refine ⟨result, ?_, same.trans dims, fun index => ?_⟩
    · rw [foldlM_cons, added]
      exact folded
    · rw [sums, values, total, total, map_cons, sum_cons, add_assoc]

theorem foldlM_addAt_eq_error_iff {position : Nat} {sum : Tensor K}
    {rest : List (List (Tensor K))} {fault : AverageFault} :
    rest.foldlM (addAt position) sum = .error fault ↔
      ∃ front set back, rest = front ++ set :: back ∧
        (∀ other ∈ front, (shapes other)[position]? = some sum.dims) ∧
          (shapes set)[position]? ≠ some sum.dims ∧ fault = faultAt position sum.dims set := by
  induction rest generalizing sum with
  | nil =>
    constructor
    · intro failed
      cases failed
    · rintro ⟨front, _, _, split, _⟩
      exact absurd split.symm (by simp)
  | cons set rest ih =>
    rw [foldlM_cons]
    by_cases agrees : (shapes set)[position]? = some sum.dims
    · obtain ⟨next, added, dims, _⟩ := addAt_of_dims_eq agrees
      rw [added]
      refine ih.trans ?_
      rw [dims]
      constructor
      · rintro ⟨front, other, back, rfl, before, here⟩
        exact ⟨set :: front, other, back, rfl, forall_mem_cons.mpr ⟨agrees, before⟩, here⟩
      · rintro ⟨front, other, back, split, before, here⟩
        cases front with
        | nil =>
          obtain ⟨rfl, -⟩ := List.cons.inj split
          exact absurd agrees here.1
        | cons first front =>
          obtain ⟨-, rfl⟩ := List.cons.inj split
          exact ⟨front, other, back, rfl, (forall_mem_cons.mp before).2, here⟩
    · rw [addAt_of_dims_ne agrees]
      constructor
      · intro failed
        exact ⟨[], set, rest, rfl, by simp, agrees, (Except.error.inj failed).symm⟩
      · rintro ⟨front, other, back, split, before, here, rfl⟩
        cases front with
        | nil =>
          obtain ⟨rfl, -⟩ := List.cons.inj split
          rfl
        | cons first front =>
          obtain ⟨rfl, -⟩ := List.cons.inj split
          exact absurd (before set mem_cons_self) agrees

variable {first : List (Tensor K)} {rest : List (List (Tensor K))} {position : Nat}

def Agree (first set : List (Tensor K)) (position : Nat) : Prop :=
  (shapes set)[position]? = (shapes first)[position]?

theorem averageAt_eq (inside : position < first.length) :
    averageAt first rest position = (rest.foldlM (addAt position) first[position]).map
      fun sum => sum.div (rest.length + 1) := by
  rw [averageAt, List.getElem?_eq_getElem inside]

theorem averageAt_of_agree (inside : position < first.length)
    (agree : ∀ set ∈ rest, Agree first set position) :
    ∃ mean, averageAt first rest position = .ok mean ∧ mean.dims = first[position].dims ∧
      ∀ index, mean.value index = total (first :: rest) position index / (rest.length + 1) := by
  have shaped : ∀ set ∈ rest, (shapes set)[position]? = some first[position].dims :=
    fun set member => (agree set member).trans (getElem?_shapes inside)
  obtain ⟨sum, folded, dims, values⟩ := foldlM_addAt_of_forall shaped
  refine ⟨sum.div (rest.length + 1), ?_, dims, fun index => ?_⟩
  · rw [averageAt_eq inside, folded]
    rfl
  · have head : first[position].value index = entry first position index := by
      rw [entry, List.getElem?_eq_getElem inside]
      rfl
    rw [Tensor.value_div, values, head, total, total, map_cons, sum_cons]

theorem averageAt_eq_error_iff (inside : position < first.length) {fault : AverageFault} :
    averageAt first rest position = .error fault ↔
      ∃ front set back, rest = front ++ set :: back ∧
        (∀ other ∈ front, Agree first other position) ∧ ¬ Agree first set position ∧
          fault = faultAt position first[position].dims set := by
  have mapped : averageAt first rest position = .error fault ↔
      rest.foldlM (addAt position) first[position] = .error fault := by
    rw [averageAt_eq inside]
    cases rest.foldlM (addAt position) first[position] with
    | ok _ => simp [Except.map]
    | error _ => simp [Except.map]
  simp only [mapped, foldlM_addAt_eq_error_iff, Agree, getElem?_shapes inside, ne_eq]

theorem averageAt_ok_iff (inside : position < first.length) :
    (∃ mean, averageAt first rest position = .ok mean) ↔
      ∀ set ∈ rest, Agree first set position := by
  constructor
  · rintro ⟨mean, made⟩
    by_contra! differs
    obtain ⟨front, set, back, split, before, here⟩ := exists_first differs
    have agreed : ∀ other ∈ front, Agree first other position :=
      fun other member => not_not.mp (before other member)
    have failed := (averageAt_eq_error_iff inside).mpr ⟨front, set, back, split, agreed, here, rfl⟩
    cases made.symm.trans failed
  · intro agree
    obtain ⟨mean, made, _⟩ := averageAt_of_agree inside agree
    exact ⟨mean, made⟩

theorem averageGradients_ok {means : List (Tensor K)}
    (done : averageGradients (first :: rest) = .ok means) :
    shapes means = shapes first ∧
      (∀ position < first.length, ∀ set ∈ rest, Agree first set position) ∧
        ∀ position < first.length, ∀ index,
          entry means position index =
            total (first :: rest) position index / (rest.length + 1) := by
  obtain ⟨length, worked⟩ := of_mapM_range done
  have agree : ∀ position < first.length, ∀ set ∈ rest, Agree first set position :=
    fun position inside => (averageAt_ok_iff inside).mp ⟨_, worked position (length.symm ▸ inside)⟩
  have mean : ∀ position (inside : position < first.length) (present : position < means.length),
      means[position].dims = first[position].dims ∧ ∀ index,
        means[position].value index = total (first :: rest) position index / (rest.length + 1) := by
    intro position inside present
    obtain ⟨mean, made, dims, values⟩ := averageAt_of_agree inside (agree position inside)
    rw [Except.ok.inj ((worked position present).symm.trans made)]
    exact ⟨dims, values⟩
  refine ⟨?_, agree, fun position inside index => ?_⟩
  · refine ext_getElem? fun position => ?_
    by_cases inside : position < first.length
    · have present : position < means.length := length.symm ▸ inside
      rw [getElem?_shapes inside, getElem?_shapes present, (mean position inside present).1]
    · rw [List.getElem?_eq_none (by rw [length_shapes, length]; omega),
        List.getElem?_eq_none (by rw [length_shapes]; omega)]
  · have present : position < means.length := length.symm ▸ inside
    rw [entry, List.getElem?_eq_getElem present]
    exact (mean position inside present).2 index

/-- Averaging returns an error or the means over all nodes, without a panic. -/
def AveragesAll (sets : List (List (Tensor K))) : Prop :=
  match averageGradients sets with
  | .ok means => IsMean means sets
  | .error (.failed _) => True
  | .error (.indexOutOfBounds _ _) => False

def MismatchFirst (sets : List (List (Tensor K))) : Prop :=
  ∃ first front set back position dims, sets = first :: (front ++ set :: back) ∧
    position < first.length ∧
    (∀ earlier < position, ∀ other ∈ front ++ set :: back, Agree first other earlier) ∧
    (∀ other ∈ front, Agree first other position) ∧ ¬ Agree first set position ∧
      (shapes set)[position]? = some dims

theorem averageGradients_eq_error_iff {fault : AverageFault} :
    averageGradients (first :: rest) = .error fault ↔
      ∃ position, ∃ inside : position < first.length,
        (∀ earlier < position, ∀ other ∈ rest, Agree first other earlier) ∧
        ∃ front set back, rest = front ++ set :: back ∧
          (∀ other ∈ front, Agree first other position) ∧ ¬ Agree first set position ∧
            fault = faultAt position first[position].dims set := by
  rw [averageGradients, mapM_range_eq_error_iff]
  constructor
  · rintro ⟨position, inside, before, here⟩
    refine ⟨position, inside, fun earlier less => ?_, (averageAt_eq_error_iff inside).mp here⟩
    exact (averageAt_ok_iff (less.trans inside)).mp (before earlier less)
  · rintro ⟨position, inside, before, here⟩
    refine ⟨position, inside, fun earlier less => ?_, (averageAt_eq_error_iff inside).mpr here⟩
    exact (averageAt_ok_iff (less.trans inside)).mpr (before earlier less)

theorem isMean_iff_of_averageGradients {means : List (Tensor K)}
    (done : averageGradients (first :: rest) = .ok means) :
    IsMean means (first :: rest) ↔ ∀ set ∈ rest, set.length = first.length := by
  obtain ⟨shaped, agree, entries⟩ := averageGradients_ok done
  constructor
  · intro mean set member
    have same := mean.shapes set (mem_cons_of_mem _ member)
    rw [← length_shapes, ← same, shaped, length_shapes]
  · intro lengths
    refine ⟨forall_mem_cons.mpr ⟨shaped, fun set member => ?_⟩, fun position index => ?_⟩
    · rw [shaped]
      refine ext_getElem? fun position => ?_
      by_cases inside : position < first.length
      · exact (agree position inside set member).symm
      · rw [List.getElem?_eq_none (by rw [length_shapes]; omega),
          List.getElem?_eq_none (by rw [length_shapes, lengths set member]; omega)]
    · by_cases inside : position < first.length
      · rw [entries position inside, length_cons, Nat.cast_add, Nat.cast_one]
      · have outside : ∀ set : List (Tensor K), set.length = first.length →
            entry set position index = 0 := by
          intro set length
          rw [entry, List.getElem?_eq_none (by omega)]
          rfl
        have zero : total (first :: rest) position index = 0 := by
          refine sum_eq_zero fun value member => ?_
          obtain ⟨set, present, rfl⟩ := mem_map.mp member
          rcases mem_cons.mp present with rfl | later
          · exact outside set rfl
          · exact outside set (lengths set later)
        have length : means.length = first.length := by
          rw [← length_shapes, shaped, length_shapes]
        rw [zero, zero_div, outside means length]

/-- **Averaging is right exactly if all nodes send as many tensors, or a tensor of another shape
comes before one that is missing.** -/
theorem averagesAll_iff (sets : List (List (Tensor K))) :
    AveragesAll sets ↔ (∀ one ∈ sets, ∀ other ∈ sets, one.length = other.length) ∨
      MismatchFirst sets := by
  cases sets with
  | nil => exact iff_of_true trivial (.inl fun _ member => absurd member not_mem_nil)
  | cons first rest =>
    have equal : (∀ one ∈ first :: rest, ∀ other ∈ first :: rest, one.length = other.length) ↔
        ∀ set ∈ rest, set.length = first.length := by
      constructor
      · exact fun lengths set member =>
          lengths set (mem_cons_of_mem _ member) first mem_cons_self
      · intro lengths one oneMember other otherMember
        have all : ∀ set ∈ first :: rest, set.length = first.length :=
          forall_mem_cons.mpr ⟨rfl, lengths⟩
        rw [all one oneMember, all other otherMember]
    rw [equal, AveragesAll]
    cases ended : averageGradients (first :: rest) with
    | ok means =>
      refine (isMean_iff_of_averageGradients ended).trans (or_iff_left ?_).symm
      rintro ⟨_, front, set, back, position, dims, split, inside, _, _, here, _⟩
      obtain ⟨rfl, rfl⟩ := List.cons.inj split
      exact here ((averageGradients_ok ended).2.1 position inside set (by simp))
    | error fault =>
      obtain ⟨position, inside, before, front, set, back, rfl, agreed, here, rfl⟩ :=
        averageGradients_eq_error_iff.mp ended
      cases found : (shapes set)[position]? with
      | some dims =>
        rw [faultAt, found]
        refine iff_of_true trivial (.inr ?_)
        exact ⟨first, front, set, back, position, dims, rfl, inside, before, agreed, here,
          found⟩
      | none =>
        rw [faultAt, found] at ended ⊢
        refine iff_of_false (fun impossible => impossible) ?_
        rintro (lengths | ⟨_, _, other, _, _, dims, split, within, earlier, front, there,
          shaped⟩)
        · have short := List.getElem?_eq_none_iff.mp found
          rw [length_shapes, lengths set (by simp)] at short
          omega
        · obtain ⟨rfl, same⟩ := List.cons.inj split
          rw [same] at ended
          have failed := averageGradients_eq_error_iff.mpr
            ⟨_, within, earlier, _, other, _, rfl, front, there, rfl⟩
          rw [faultAt, shaped] at failed
          cases ended.symm.trans failed

/-- **Errors of averaging.** An error of `accumulate` leaves the averager as it was exactly if the
gradients before the first one of another shape are zero, or their number is wrong; and averaging
over nodes is right exactly if they send as many tensors, or a tensor of another shape comes before
one that is missing. -/
theorem averagingErrors_spec (averager : DecentralizedAverager K) (gradients : List (Tensor K))
    (sets : List (List (Tensor K))) :
    (AtomicOnError averager gradients ↔
      (averager.accumulated.length = gradients.length →
        ZeroBeforeMismatch averager.accumulated gradients)) ∧
      (AveragesAll sets ↔ (∀ one ∈ sets, ∀ other ∈ sets, one.length = other.length) ∨
        MismatchFirst sets) :=
  ⟨atomicOnError_iff averager gradients, averagesAll_iff sets⟩

end

def onesTensor (length : Nat) : Tensor ℚ := ⟨[length], List.replicate length 1, by simp⟩

/-- The first of two tensors has been added when the second one turns out to have another shape;
a node with fewer tensors than the first makes averaging panic, and the second tensor of a node
with more tensors is ignored. -/
theorem mixedShapes_not_atomic :
    ¬ AtomicOnError ⟨[onesTensor 1, onesTensor 1], 1⟩ [onesTensor 1, onesTensor 2] ∧
      ¬ AveragesAll [[onesTensor 1, onesTensor 1], [onesTensor 1]] ∧
        ¬ AveragesAll [[onesTensor 1], [onesTensor 1, onesTensor 1]] := by
  refine ⟨fun atomic => ?_, ?_, ?_⟩
  · have held := congrArg DecentralizedAverager.accumulated (atomic _ rfl)
    have sum : (1 + 1 : ℚ) = 1 := congrArg (fun tensors => entry tensors 0 0) held
    norm_num at sum
  · exact fun averages => averages
  · intro averages
    have mean : IsMean [(⟨[1], [(1 + 1) / (1 + 1)], rfl⟩ : Tensor ℚ)]
      [[onesTensor 1], [onesTensor 1, onesTensor 1]] := averages
    exact absurd (mean.shapes [onesTensor 1, onesTensor 1] (by simp)) (by decide)

end KwaaiNet.Training
