import Mathlib

/-! # Activation tensors and their wire form

Activations are half-precision tensors in row-major order. The transformer works
position by position, so a tensor of shape `[batch, seq_len, dim]` is also read as a
list of rows, one for each position, each holding the values of all batch elements.
-/

namespace KwaaiNet

/-- The bits of a half-precision number. -/
abbrev F16 := UInt16

/-- The values of one position, for all batch elements. -/
abbrev Row := List F16

/-- A tensor as the tensor library holds it. -/
structure Tensor where
  dims : List Nat
  data : List F16
  deriving DecidableEq

/-- Failures of the tensor library and of the decoders in front of it. -/
inductive Fault where
  | byteLength (length : Nat)
  | shape (dims : List Nat) (elements : Nat)
  | token (id : Nat)
  | rank (dims : List Nat)
  | hiddenSize (dim : Nat)
  | ropeRange (seqPos length : Nat)
  | cat (cached given : Nat)
  | narrow (dims : List Nat)
  deriving DecidableEq, Repr

namespace Tensor

/-- The rows of a tensor of shape `[batch, length, dim]`. -/
def rows (batch length dim : Nat) (data : List F16) : List Row :=
  (List.range length).map fun position => (List.range batch).flatMap fun element =>
    (data.drop ((element * length + position) * dim)).take dim

/-- The tensor of shape `[batch, rows.length, dim]` with given rows. -/
def ofRows (batch dim : Nat) (rows : List Row) : Tensor where
  dims := [batch, rows.length, dim]
  data := (List.range batch).flatMap fun element => rows.flatMap fun row =>
    (row.drop (element * dim)).take dim

@[simp] theorem length_rows (batch length dim : Nat) (data : List F16) :
    (rows batch length dim data).length = length := by
  rw [rows, List.length_map, List.length_range]

end Tensor

/-! ## Bytes -/

def f16Words : List UInt8 → List F16
  | low :: high :: rest => (low.toUInt16 ||| high.toUInt16 <<< 8) :: f16Words rest
  | _ => []

/-- The little-endian 32-bit words of a buffer whose length is a multiple of four. -/
def u32Words : List UInt8 → List UInt32
  | b0 :: b1 :: b2 :: b3 :: rest =>
    (b0.toUInt32 ||| b1.toUInt32 <<< 8 ||| b2.toUInt32 <<< 16 ||| b3.toUInt32 <<< 24) ::
      u32Words rest
  | _ => []

/-- `tensor_to_f16_bytes`. -/
def tensorToF16Bytes (tensor : Tensor) : List UInt32 × List UInt8 :=
  (tensor.dims.map UInt32.ofNat,
    tensor.data.flatMap fun (word : F16) => [word.toUInt8, (word >>> 8).toUInt8])

/-- `f16_bytes_to_tensor`. -/
def f16BytesToTensor (bytes : List UInt8) (shape : List UInt32) : Except Fault Tensor :=
  if bytes.length % 2 ≠ 0 then .error (.byteLength bytes.length)
  else
    let words := f16Words bytes
    let dims := shape.map UInt32.toNat
    if dims.prod ≠ words.length then .error (.shape dims words.length)
    else .ok ⟨dims, words⟩

/-- `token_ids_to_bytes`. -/
def tokenIdsToBytes (ids : List UInt32) : List UInt32 × List UInt8 :=
  ([UInt32.ofNat ids.length], ids.flatMap fun (id : UInt32) =>
    [id.toUInt8, (id >>> 8).toUInt8, (id >>> 16).toUInt8, (id >>> 24).toUInt8])

/-- `bytes_to_token_ids`. -/
def bytesToTokenIds (bytes : List UInt8) : Except Fault (List UInt32) :=
  if bytes.length % 4 ≠ 0 then .error (.byteLength bytes.length) else .ok (u32Words bytes)

end KwaaiNet
