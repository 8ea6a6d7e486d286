import Mathlib

/-! # Gradient tensors

Tensors over exact numbers, as the tensor library holds them. The gradients of a model are a list
of tensors, one for each parameter. What averaging makes of them is said entry by entry: two lists
of tensors of the same shapes are equal if their entries are
(`KwaaiNet.Training.eq_of_entry`).
-/

namespace KwaaiNet.Training

open List

/-- A tensor: a shape and as many values, in row-major order. -/
@[ext]
structure Tensor (K : Type) where
  dims : List Nat
  data : List K
  sized : data.length = dims.prod
  deriving DecidableEq

/-- Failures of the tensor library. -/
inductive TensorError where
  | shapeMismatchBinaryOp (lhs rhs : List Nat)
  | shapeMismatch (elements : Nat) (dims : List Nat)
  deriving DecidableEq

namespace Tensor

variable {K : Type}

/-- `Tensor::from_vec`. -/
def fromVec (data : List K) (shape : List Nat) : Except TensorError (Tensor K) :=
  if sized : data.length = shape.prod then .ok ⟨shape, data, sized⟩
  else .error (.shapeMismatch data.length shape)

theorem fromVec_of_length {data : List K} {shape : List Nat} (sized : data.length = shape.prod) :
    fromVec data shape = .ok ⟨shape, data, sized⟩ := dif_pos sized

variable [Field K]

/-- `+` on tensors: both have the same shape. -/
def add (lhs rhs : Tensor K) : Except TensorError (Tensor K) :=
  if same : lhs.dims = rhs.dims then
    .ok ⟨lhs.dims, List.zipWith (· + ·) lhs.data rhs.data, by
      rw [length_zipWith, lhs.sized, rhs.sized, same, min_self]⟩
  else .error (.shapeMismatchBinaryOp lhs.dims rhs.dims)

/-- `/` by a number. -/
def div (tensor : Tensor K) (divisor : K) : Tensor K where
  dims := tensor.dims
  data := tensor.data.map (· / divisor)
  sized := by rw [length_map, tensor.sized]

def value (tensor : Tensor K) (index : Nat) : K := tensor.data.getD index 0

theorem eq_of_value {first second : Tensor K} (dims : first.dims = second.dims)
    (values : ∀ index, first.value index = second.value index) : first = second := by
  have lengths : first.data.length = second.data.length := by
    rw [first.sized, second.sized, dims]
  refine Tensor.ext dims (ext_getElem lengths fun index inFirst inSecond => ?_)
  have same := values index
  rwa [value, value, getD_eq_getElem _ _ inFirst, getD_eq_getElem _ _ inSecond] at same

theorem value_div (tensor : Tensor K) (divisor : K) (index : Nat) :
    (tensor.div divisor).value index = tensor.value index / divisor := by
  rw [value, value, div, getD_eq_getElem?_getD, getD_eq_getElem?_getD,
    List.getElem?_map]
  cases tensor.data[index]? with
  | none => exact (zero_div _).symm
  | some _ => rfl

/-- What a sum of tensors is. -/
structure IsSum (sum lhs rhs : Tensor K) : Prop where
  dims : sum.dims = lhs.dims
  value : ∀ index, sum.value index = lhs.value index + rhs.value index

theorem add_of_dims_eq {lhs rhs : Tensor K} (same : lhs.dims = rhs.dims) :
    ∃ sum, lhs.add rhs = .ok sum ∧ IsSum sum lhs rhs := by
  refine ⟨_, dif_pos same, rfl, fun index => ?_⟩
  have lengths : lhs.data.length = rhs.data.length := by rw [lhs.sized, rhs.sized, same]
  simp only [Tensor.value, getD_eq_getElem?_getD, List.getElem?_zipWith]
  by_cases inside : index < lhs.data.length
  · rw [List.getElem?_eq_getElem inside, List.getElem?_eq_getElem (lengths ▸ inside)]
    rfl
  · rw [List.getElem?_eq_none (not_lt.mp inside),
      List.getElem?_eq_none (lengths ▸ not_lt.mp inside)]
    exact (add_zero 0).symm

theorem add_of_dims_ne {lhs rhs : Tensor K} (other : lhs.dims ≠ rhs.dims) :
    lhs.add rhs = .error (.shapeMismatchBinaryOp lhs.dims rhs.dims) := dif_neg other

end Tensor

section

variable {K : Type}

def shapes (gradients : List (Tensor K)) : List (List Nat) := gradients.map Tensor.dims

theorem length_shapes (gradients : List (Tensor K)) :
    (shapes gradients).length = gradients.length := length_map _

theorem getElem?_shapes {gradients : List (Tensor K)} {position : Nat}
    (inside : position < gradients.length) :
    (shapes gradients)[position]? = some gradients[position].dims := by
  rw [shapes, List.getElem?_map, List.getElem?_eq_getElem inside]
  rfl

variable [Field K]

def entry (gradients : List (Tensor K)) (position index : Nat) : K :=
  (gradients[position]?.map fun tensor => tensor.value index).getD 0

@[simp] theorem entry_nil (position index : Nat) :
    entry ([] : List (Tensor K)) position index = 0 := rfl

@[simp] theorem entry_cons_zero (tensor : Tensor K) (gradients : List (Tensor K)) (index : Nat) :
    entry (tensor :: gradients) 0 index = tensor.value index := rfl

@[simp] theorem entry_cons_succ (tensor : Tensor K) (gradients : List (Tensor K))
    (position index : Nat) :
    entry (tensor :: gradients) (position + 1) index = entry gradients position index := rfl

theorem eq_of_entry {first second : List (Tensor K)} (same : shapes first = shapes second)
    (entries : ∀ position index, entry first position index = entry second position index) :
    first = second := by
  induction first generalizing second with
  | nil => exact (map_eq_nil_iff.mp same.symm).symm
  | cons tensor first ih =>
    cases second with
    | nil => cases same
    | cons other second =>
      obtain ⟨dims, rest⟩ := List.cons.inj same
      have head : tensor = other := Tensor.eq_of_value dims (entries 0)
      have tail : first = second := ih rest fun position => entries (position + 1)
      rw [head, tail]

/-- The sum of the entries of several lists of gradients at a place. -/
def total (sets : List (List (Tensor K))) (position index : Nat) : K :=
  (sets.map fun gradients => entry gradients position index).sum

/-- The arithmetic mean of lists of gradients, tensor by tensor. -/
structure IsMean (mean : List (Tensor K)) (sets : List (List (Tensor K))) : Prop where
  shapes : ∀ gradients ∈ sets, shapes mean = shapes gradients
  entry : ∀ position index, entry mean position index = total sets position index / sets.length

end

end KwaaiNet.Training
