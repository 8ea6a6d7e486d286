import KwaaiNet.Foundation.MachineNumber
import KwaaiNet.Foundation.Slices
import KwaaiNet.Training.Tensor

/-! # Blockwise quantization

A tensor is cut into blocks; each value is sent as an 8-bit code, in units of the largest magnitude
of its block divided by 127. The numbers are exact here, the scales of the blocks included. What is
decompressed is at most half a unit off, and compressing it again gives the same codes and scales
(`KwaaiNet.Training.quantization_error_le`): the largest magnitude of a block has the code 127 or
-127 and is recovered.
-/

namespace KwaaiNet.Training

open Foundation List

/-- `QuantizedTensor`. -/
@[ext]
structure QuantizedTensor (K : Type) where
  data : List Int8
  scales : List K
  shape : List Nat
  blockSize : Nat
  deriving DecidableEq

/-- `BlockwiseQuantizer`. -/
structure BlockwiseQuantizer where
  blockSize : Nat

section

variable {K : Type} [Field K]

def dequantize (scale : K) (code : Int8) : K := code.toInt * scale

variable [LinearOrder K]

def maxAbs (block : List K) : K := (block.map fun value => |value|).foldl max 0

def blockScale (block : List K) : K := if 0 < maxAbs block then maxAbs block / 127 else 1

/-- `decompress`; there is no result if it panics. -/
def BlockwiseQuantizer.decompress (_ : BlockwiseQuantizer) (compressed : QuantizedTensor K) :
    Option (Except TensorError (Tensor K)) :=
  if compressed.blockSize = 0 then none
  else
    let data := (batches compressed.blockSize compressed.data).zipIdx.flatMap fun (block, index) =>
      block.map (dequantize (compressed.scales.getD index 1))
    some (Tensor.fromVec data compressed.shape)

variable [FloorRing K]

def quantize (scale value : K) : Int8 :=
  if 0 < scale then Int8.ofInt (max (-127) (min 127 (roundAway (value / scale)))) else 0

def quantizeBlock (block : List K) : List Int8 := block.map (quantize (blockScale block))

/-- `compress`; there is no result if it panics. -/
def BlockwiseQuantizer.compress (quantizer : BlockwiseQuantizer) (tensor : Tensor K) :
    Option (QuantizedTensor K) :=
  if quantizer.blockSize = 0 then none
  else
    let blocks := batches quantizer.blockSize tensor.data
    some ⟨blocks.flatMap quantizeBlock, blocks.map blockScale, tensor.dims, quantizer.blockSize⟩

theorem length_quantizeBlock (block : List K) : (quantizeBlock block).length = block.length :=
  length_map _

theorem compress_of_pos {size : Nat} (positive : 0 < size) (tensor : Tensor K) :
    (BlockwiseQuantizer.mk size).compress tensor =
      some ⟨(batches size tensor.data).flatMap quantizeBlock,
        (batches size tensor.data).map blockScale, tensor.dims, size⟩ := if_neg positive.ne'

def approximate (block : List K) (value : K) : K :=
  dequantize (blockScale block) (quantize (blockScale block) value)

def approximateBlock (block : List K) : List K := block.map (approximate block)

theorem length_approximateBlock (block : List K) :
    (approximateBlock block).length = block.length := length_map _

theorem flatMap_zipIdx_map {α β γ δ : Type} (blocks : List α) (codes : α → β) (scale : α → γ)
    (default : γ) (join : β → γ → List δ) :
    ((blocks.map codes).zipIdx.flatMap fun (block, index) =>
      join block ((blocks.map scale).getD index default)) =
      blocks.flatMap fun block => join (codes block) (scale block) := by
  have numbered : ∀ numbered ∈ blocks.zipIdx,
      join (codes numbered.1) ((blocks.map scale).getD numbered.2 default) =
        join (codes numbered.1) (scale numbered.1) := by
    intro numbered member
    rw [getD_eq_getElem?_getD, List.getElem?_map, mem_zipIdx_iff_getElem?.mp member]
    rfl
  rw [zipIdx_map, flatMap_map]
  refine (flatMap_congr numbered).trans ?_
  rw [← flatMap_map Prod.fst fun block => join (codes block) (scale block),
    zipIdx_map_fst]

theorem length_recovered {size : Nat} (positive : 0 < size) (tensor : Tensor K) :
    ((batches size tensor.data).flatMap approximateBlock).length = tensor.dims.prod := by
  rw [← tensor.sized, length_flatMap, map_congr_left fun block _ =>
    length_approximateBlock block, ← length_flatten, flatten_batches positive]

theorem decompress_compress {size : Nat} (positive : 0 < size) (tensor : Tensor K) :
    (BlockwiseQuantizer.mk size).decompress
        ⟨(batches size tensor.data).flatMap quantizeBlock,
          (batches size tensor.data).map blockScale, tensor.dims, size⟩ =
      some (.ok ⟨tensor.dims, (batches size tensor.data).flatMap approximateBlock,
        length_recovered positive tensor⟩) := by
  have data : ((batches size ((batches size tensor.data).flatMap quantizeBlock)).zipIdx.flatMap
      fun (block, index) => block.map (dequantize
        (((batches size tensor.data).map blockScale).getD index 1))) =
      (batches size tensor.data).flatMap approximateBlock := by
    rw [batches_flatMap positive length_quantizeBlock,
      flatMap_zipIdx_map _ quantizeBlock blockScale 1 fun codes scale =>
        codes.map (dequantize scale)]
    refine flatMap_congr fun block _ => ?_
    rw [quantizeBlock, map_map]
    rfl
  rw [BlockwiseQuantizer.decompress, if_neg positive.ne']
  simp only [data]
  exact congrArg some (Tensor.fromVec_of_length _)

end

/-! ## A block -/

section

variable {K : Type} [Field K] [LinearOrder K]

omit [Field K] in
theorem foldl_max_le_iff {values : List K} {start bound : K} :
    values.foldl max start ≤ bound ↔ start ≤ bound ∧ ∀ value ∈ values, value ≤ bound := by
  induction values generalizing start with
  | nil => simp
  | cons head values ih =>
    rw [foldl_cons, ih, max_le_iff, forall_mem_cons, and_assoc]

omit [Field K] in
theorem foldl_max_mem (values : List K) (start : K) :
    values.foldl max start = start ∨ values.foldl max start ∈ values := by
  induction values generalizing start with
  | nil => exact .inl rfl
  | cons head values ih =>
    rw [foldl_cons, mem_cons]
    rcases ih (max start head) with same | later
    · rw [same]
      exact (max_choice start head).imp id .inl
    · exact .inr (.inr later)

theorem maxAbs_le_iff {block : List K} {bound : K} :
    maxAbs block ≤ bound ↔ 0 ≤ bound ∧ ∀ value ∈ block, |value| ≤ bound := by
  rw [maxAbs, foldl_max_le_iff, forall_mem_map]

theorem abs_le_maxAbs {block : List K} {value : K} (member : value ∈ block) :
    |value| ≤ maxAbs block := (maxAbs_le_iff.mp le_rfl).2 value member

theorem maxAbs_eq_zero {block : List K} (zero : ¬ 0 < maxAbs block) : maxAbs block = 0 :=
  le_antisymm (not_lt.mp zero) (maxAbs_le_iff.mp le_rfl).1

theorem exists_abs_eq_maxAbs {block : List K} (positive : 0 < maxAbs block) :
    ∃ value ∈ block, |value| = maxAbs block := by
  rcases foldl_max_mem (block.map fun value => |value|) 0 with zero | member
  · exact absurd zero positive.ne'
  · exact mem_map.mp member

variable [IsStrictOrderedRing K]

theorem maxAbs_eq_blockScale {block : List K} (positive : 0 < maxAbs block) :
    maxAbs block = 127 * blockScale block := by
  rw [blockScale, if_pos positive, mul_div_cancel₀ _ (by norm_num)]

def magnitudes (block : List K) : Set K := { magnitude | ∃ value ∈ block, magnitude = |value| }

theorem maxAbs_eq_of_isGreatest {block : List K} {largest : K}
    (greatest : IsGreatest (magnitudes block) largest) : maxAbs block = largest := by
  obtain ⟨⟨value, member, rfl⟩, above⟩ := greatest
  refine le_antisymm (maxAbs_le_iff.mpr ⟨abs_nonneg value, fun other present => ?_⟩)
    (abs_le_maxAbs member)
  exact above ⟨other, present, rfl⟩

theorem blockScale_pos (block : List K) : 0 < blockScale block := by
  rw [blockScale]
  split_ifs with positive
  · exact div_pos positive (by norm_num)
  · exact one_pos

theorem abs_le_blockScale {block : List K} {value : K} (member : value ∈ block) :
    |value| ≤ 127 * blockScale block := by
  by_cases positive : 0 < maxAbs block
  · exact (abs_le_maxAbs member).trans_eq (maxAbs_eq_blockScale positive)
  · have scale : 0 ≤ 127 * blockScale block :=
      mul_nonneg (by norm_num) (blockScale_pos block).le
    exact (abs_le_maxAbs member).trans ((maxAbs_eq_zero positive).trans_le scale)

variable [FloorRing K]

theorem toInt_quantize {scale value : K} (positive : 0 < scale) (inside : |value| ≤ 127 * scale) :
    (quantize scale value).toInt = roundAway (value / scale) := by
  have small : |value / scale| ≤ ((127 : Int) : K) := by
    rw [abs_div, abs_of_pos positive, div_le_iff₀ positive]
    exact_mod_cast inside
  obtain ⟨low, high⟩ := abs_le.mp (abs_roundAway_le small)
  rw [quantize, if_pos positive, min_eq_right high, max_eq_right low]
  exact Int8.toInt_ofInt_of_le (by omega) (by omega)

theorem abs_approximate_sub_le {block : List K} {value : K} (member : value ∈ block) :
    |approximate block value - value| ≤ blockScale block / 2 := by
  have positive := blockScale_pos block
  have near := abs_roundAway_sub_le (value / blockScale block)
  have scaled : approximate block value - value =
      (roundAway (value / blockScale block) - value / blockScale block) * blockScale block := by
    rw [approximate, dequantize, toInt_quantize positive (abs_le_blockScale member), sub_mul,
      div_mul_cancel₀ _ positive.ne']
  rw [scaled, abs_mul, abs_of_pos positive]
  calc _ ≤ 1 / 2 * blockScale block := mul_le_mul_of_nonneg_right near positive.le
    _ = blockScale block / 2 := by ring

theorem approximate_of_maxAbs_eq_zero {block : List K} (zero : maxAbs block = 0) {value : K}
    (member : value ∈ block) : approximate block value = 0 := by
  have nothing : value = 0 := abs_nonpos_iff.mp (zero ▸ abs_le_maxAbs member)
  rw [approximate, dequantize, toInt_quantize (blockScale_pos block) (abs_le_blockScale member),
    nothing, zero_div, ← Int.cast_zero, roundAway_intCast, Int.cast_zero, zero_mul]

theorem abs_approximate_sub_le_maxAbs {block : List K} {value : K} (member : value ∈ block) :
    |approximate block value - value| ≤ maxAbs block / 254 := by
  by_cases positive : 0 < maxAbs block
  · refine (abs_approximate_sub_le member).trans_eq ?_
    rw [blockScale, if_pos positive]
    ring
  · have zero := maxAbs_eq_zero positive
    have nothing : value = 0 := abs_nonpos_iff.mp (zero ▸ abs_le_maxAbs member)
    rw [approximate_of_maxAbs_eq_zero zero member, nothing, zero, sub_zero, abs_zero, zero_div]

theorem abs_approximate_of_abs_eq {block : List K} {value : K} (member : value ∈ block)
    (largest : |value| = maxAbs block) : |approximate block value| = maxAbs block := by
  by_cases positive : 0 < maxAbs block
  · have scale := maxAbs_eq_blockScale positive
    have nonzero := (blockScale_pos block).ne'
    have code : roundAway (value / blockScale block) = 127 ∨
        roundAway (value / blockScale block) = -127 := by
      rcases eq_or_eq_neg_of_abs_eq largest with same | same
      · left
        rw [same, scale, mul_div_cancel_right₀ _ nonzero]
        exact_mod_cast roundAway_intCast (K := K) 127
      · right
        rw [same, scale, neg_div, mul_div_cancel_right₀ _ nonzero]
        exact_mod_cast roundAway_intCast (K := K) (-127)
    rw [approximate, dequantize, toInt_quantize (blockScale_pos block) (abs_le_blockScale member),
      abs_mul, abs_of_pos (blockScale_pos block), scale]
    rcases code with same | same <;> rw [same] <;> norm_num
  · have zero := maxAbs_eq_zero positive
    rw [approximate_of_maxAbs_eq_zero zero member, abs_zero, zero]

theorem abs_approximate_le {block : List K} {value : K} (member : value ∈ block) :
    |approximate block value| ≤ maxAbs block := by
  by_cases positive : 0 < maxAbs block
  · have scale := maxAbs_eq_blockScale positive
    have inside : |value / blockScale block| ≤ ((127 : Int) : K) := by
      rw [abs_div, abs_of_pos (blockScale_pos block), div_le_iff₀ (blockScale_pos block)]
      exact_mod_cast abs_le_blockScale member
    have code : |(roundAway (value / blockScale block) : K)| ≤ 127 := by
      exact_mod_cast abs_roundAway_le inside
    rw [approximate, dequantize, toInt_quantize (blockScale_pos block) (abs_le_blockScale member),
      abs_mul, abs_of_pos (blockScale_pos block), scale]
    exact mul_le_mul_of_nonneg_right code (blockScale_pos block).le
  · have zero := maxAbs_eq_zero positive
    rw [approximate_of_maxAbs_eq_zero zero member, abs_zero, zero]

theorem maxAbs_approximateBlock (block : List K) :
    maxAbs (approximateBlock block) = maxAbs block := by
  apply le_antisymm
  · refine maxAbs_le_iff.mpr ⟨(maxAbs_le_iff.mp le_rfl).1, ?_⟩
    rw [approximateBlock, forall_mem_map]
    exact fun value member => abs_approximate_le member
  · by_cases positive : 0 < maxAbs block
    · obtain ⟨value, member, largest⟩ := exists_abs_eq_maxAbs positive
      rw [← abs_approximate_of_abs_eq member largest]
      exact abs_le_maxAbs (mem_map_of_mem member)
    · exact (not_lt.mp positive).trans (maxAbs_le_iff.mp le_rfl).1

theorem blockScale_approximateBlock (block : List K) :
    blockScale (approximateBlock block) = blockScale block := by
  rw [blockScale, maxAbs_approximateBlock, blockScale]

theorem quantizeBlock_approximateBlock (block : List K) :
    quantizeBlock (approximateBlock block) = quantizeBlock block := by
  rw [quantizeBlock, blockScale_approximateBlock, approximateBlock, map_map, quantizeBlock]
  refine map_congr_left fun value member => ?_
  have positive := blockScale_pos block
  have inside : |approximate block value| ≤ 127 * blockScale block := by
    rw [← blockScale_approximateBlock]
    exact abs_le_blockScale (mem_map_of_mem member)
  apply Int8.toInt_inj.mp
  rw [Function.comp_apply, toInt_quantize positive inside, approximate, dequantize,
    mul_div_cancel_right₀ _ positive.ne', roundAway_intCast]

/-! ## A tensor -/

variable {size : Nat}

/-- What compression and decompression keep of a tensor. -/
structure Quantizes (quantizer : BlockwiseQuantizer) (tensor : Tensor K)
    (compressed : QuantizedTensor K) (recovered : Tensor K) : Prop where
  compress : quantizer.compress tensor = some compressed
  decompress : quantizer.decompress compressed = some (.ok recovered)
  dims : recovered.dims = tensor.dims
  close : ∀ index value, tensor.data[index]? = some value →
    ∃ other, recovered.data[index]? = some other ∧ ∀ largest,
      IsGreatest (magnitudes (batchAt quantizer.blockSize tensor.data index)) largest →
        |other - value| ≤ largest / 254
  zero : ∀ index, (∀ value ∈ batchAt quantizer.blockSize tensor.data index, value = 0) →
    ∀ other, recovered.data[index]? = some other → other = 0
  again : quantizer.compress recovered = some compressed

/-- **Quantization.** What is decompressed has the shape of the tensor, is within the largest
magnitude of a block over 254 there, zero in blocks of zeros, and has the same codes and scales. -/
theorem quantization_error_le (positive : 0 < size) (tensor : Tensor K) :
    ∃ compressed recovered, Quantizes ⟨size⟩ tensor compressed recovered := by
  have stored : ∀ index, tensor.data[index]? =
      (batchAt size tensor.data index)[index % size]? := by
    intro index
    have found : ((batches size tensor.data).flatMap id)[index]? =
        (id (batchAt size tensor.data index))[index % size]? :=
      getElem?_flatMap_batches positive (fun _ => rfl) tensor.data index
    rwa [flatMap_id, flatten_batches positive] at found
  have recovered : ∀ index, ((batches size tensor.data).flatMap approximateBlock)[index]? =
      tensor.data[index]?.map (approximate (batchAt size tensor.data index)) := by
    intro index
    rw [getElem?_flatMap_batches positive length_approximateBlock, approximateBlock,
      List.getElem?_map, ← stored]
  have held {index : Nat} {value : K} (found : tensor.data[index]? = some value) :
      value ∈ batchAt size tensor.data index :=
    mem_of_getElem? ((stored index).symm.trans found)
  refine ⟨_, _, compress_of_pos positive tensor, decompress_compress positive tensor, rfl,
    fun index value found => ?_, fun index zeros other found => ?_, ?_⟩
  · refine ⟨_, (recovered index).trans (congrArg _ found), fun largest greatest => ?_⟩
    rw [← maxAbs_eq_of_isGreatest greatest]
    exact abs_approximate_sub_le_maxAbs (held found)
  · rw [recovered] at found
    obtain ⟨value, inside, rfl⟩ := Option.map_eq_some_iff.mp found
    have nothing : maxAbs (batchAt size tensor.data index) ≤ 0 :=
      maxAbs_le_iff.mpr ⟨le_rfl, fun value member => by rw [zeros value member, abs_zero]⟩
    exact approximate_of_maxAbs_eq_zero (maxAbs_eq_zero nothing.not_gt) (held inside)
  · rw [compress_of_pos positive]
    simp only [batches_flatMap positive length_approximateBlock, map_map, flatMap_map,
      Function.comp_def, quantizeBlock_approximateBlock, blockScale_approximateBlock]

end

theorem smallTensor_quantizes : 0 < 2 ∧ ∃ compressed recovered,
    Quantizes ⟨2⟩ (⟨[3], [1, -2, 0], rfl⟩ : Tensor ℚ) compressed recovered :=
  ⟨by decide, quantization_error_le (by decide) _⟩

end KwaaiNet.Training
