import KwaaiNet.Inference.Shard

/-! # Which keys a query sees

A prompt may be processed in one call or cut into several. `ShardBlock::forward` rebuilds the
visibility of keys in every call: from a mask of three lengths when it has several queries, and
without a mask for a single one; with fused attention, from the lengths of queries and keys
alone. For calls whose `seq_pos` is the number of tokens processed before, every query sees the
keys up to its own position and no others, on both paths and however the sequence is cut
(`KwaaiNet.ShardBlock.attention_chunking`).
-/

namespace KwaaiNet

open List

/-! ## The mask -/

/-- An entry of the additive mask: `0.0` or negative infinity. -/
inductive MaskEntry where
  | zero
  | negInfinity
  deriving DecidableEq

/-- `causal_mask`, as the buffer it fills row by row. -/
def causalMask (qLen kvLen seqPos : Nat) : List MaskEntry :=
  (List.range qLen).foldl (fun data i =>
      (List.range (min (seqPos + i + 1) kvLen)).foldl
        (fun data j => data.set (i * kvLen + j) .zero) data)
    (List.replicate (qLen * kvLen) .negInfinity)

theorem getElem?_foldl_set {α : Type*} (value : α) (indices : List Nat) (data : List α)
    (n : Nat) : (indices.foldl (fun data index => data.set index value) data)[n]? =
      if n ∈ indices then data[n]?.map fun _ => value else data[n]? := by
  induction indices generalizing data with
  | nil => simp
  | cons index indices ih =>
    rw [foldl_cons, ih, List.getElem?_set]
    by_cases here : index = n
    · subst here
      by_cases inside : index < data.length <;> simp [inside]
    · simp [here, Ne.symm here]

theorem causalMask_eq_zero_iff {qLen kvLen seqPos i j : Nat} (query : i < qLen) (key : j < kvLen) :
    (causalMask qLen kvLen seqPos)[i * kvLen + j]? = some .zero ↔ j ≤ seqPos + i := by
  have flat : causalMask qLen kvLen seqPos =
      ((List.range qLen).flatMap fun i =>
        (List.range (min (seqPos + i + 1) kvLen)).map (i * kvLen + ·)).foldl
          (fun data index => data.set index .zero)
          (List.replicate (qLen * kvLen) .negInfinity) := by
    rw [foldl_flatMap]
    simp only [foldl_map]
    rfl
  have cell : i * kvLen + j < qLen * kvLen := by
    calc i * kvLen + j < (i + 1) * kvLen := by rw [Nat.succ_mul]; omega
      _ ≤ qLen * kvLen := Nat.mul_le_mul_right _ query
  have written : i * kvLen + j ∈ ((List.range qLen).flatMap fun i =>
      (List.range (min (seqPos + i + 1) kvLen)).map (i * kvLen + ·)) ↔ j ≤ seqPos + i := by
    rw [mem_flatMap]
    constructor
    · rintro ⟨row, _, member⟩
      obtain ⟨column, inRow, same⟩ := mem_map.mp member
      have width := mem_range.mp inRow
      have rows : row = i := by
        have := congrArg (· / kvLen) same
        simpa [Nat.mul_comm, Nat.mul_add_div (show 0 < kvLen by omega),
          Nat.div_eq_of_lt key, Nat.div_eq_of_lt (show column < kvLen by omega)] using this
      subst rows
      omega
    · intro visible
      refine ⟨i, mem_range.mpr query, mem_map.mpr ⟨j, mem_range.mpr ?_, rfl⟩⟩
      omega
  rw [flat, getElem?_foldl_set, List.getElem?_replicate_of_lt cell, ← written]
  split
  case isTrue visible => exact iff_of_true rfl visible
  case isFalse hidden => exact iff_of_false (by simp) hidden

/-! ## The two paths -/

/-- Whether the query at `index` of a call sees a cached key, by the mask; a single query is
not masked. -/
def maskedKeys (length seqPos index cached key : Nat) : Bool :=
  if 1 < length then (causalMask length cached seqPos)[index * cached + key]? = some .zero
  else true

/-- The same for fused attention, which is given no position: query `i` sees the keys
`0..=(kv_seq-s+i)`. -/
def flashKeys (length _seqPos index cached key : Nat) : Bool :=
  if 1 < length then key ≤ cached - length + index else true

theorem maskedKeys_iff_visibleKeys {length seqPos index cached key : Nat} (query : index < length)
    (held : key < cached) :
    maskedKeys length seqPos index cached key = true ↔
      key < visibleKeys length seqPos index cached := by
  unfold maskedKeys visibleKeys
  split
  · rw [decide_eq_true_iff, causalMask_eq_zero_iff query held]
    omega
  · exact iff_of_true rfl held

/-- A rule that shows each query of a call the keys up to its own position, once the keys of
the call are appended to those of the tokens before it. -/
def Causal (rule : Nat → Nat → Nat → Nat → Nat → Bool) : Prop :=
  ∀ {length seqPos index key : Nat}, index < length → key < seqPos + length →
    (rule length seqPos index (seqPos + length) key = true ↔ key ≤ seqPos + index)

theorem causal_maskedKeys : Causal maskedKeys := by
  intro length seqPos index key query held
  rw [maskedKeys_iff_visibleKeys query held, visibleKeys]
  split <;> omega

theorem causal_flashKeys : Causal flashKeys := by
  intro length seqPos index key query held
  unfold flashKeys
  split
  · rw [decide_eq_true_iff]
    omega
  · exact iff_of_true rfl (by omega)

/-! ## Calls of a session -/

/-- One call: its position, its tokens, and the cache its queries attend to. -/
structure AttentionCall where
  seqPos : Nat
  length : Nat
  slots : List Slot

def AttentionCall.pairs (rule : Nat → Nat → Nat → Nat → Nat → Bool) (call : AttentionCall) :
    Set (Nat × Nat) :=
  {pair | ∃ index < call.length, pair.1 = call.seqPos + index ∧
    ∃ key slot, call.slots[key]? = some slot ∧ pair.2 = slot.position ∧
      rule call.length call.seqPos index call.slots.length key = true}

theorem AttentionCall.mem_pairs {rule : Nat → Nat → Nat → Nat → Nat → Bool}
    {seqPos length : Nat} {slots : List Slot} {pair : Nat × Nat} :
    pair ∈ AttentionCall.pairs rule ⟨seqPos, length, slots⟩ ↔
      ∃ index < length, pair.1 = seqPos + index ∧ ∃ key slot, slots[key]? = some slot ∧
        pair.2 = slot.position ∧ rule length seqPos index slots.length key = true :=
  Iff.rfl

def attendedPairs (rule : Nat → Nat → Nat → Nat → Nat → Bool) (calls : List AttentionCall) :
    Set (Nat × Nat) :=
  {pair | ∃ call ∈ calls, pair ∈ call.pairs rule}

def Tensor.tokens (x : Tensor) : Nat := x.dims.getD 1 0

namespace ShardBlock

variable (block : ShardBlock) (cfg : ShardConfig)

def forwardChunks : Nat → Option KvCache → List Tensor → Except Fault (List AttentionCall)
  | _, _, [] => .ok []
  | processed, kv, x :: chunks =>
    match block.forward cfg x processed kv with
    | (kv, .ok _) =>
      (forwardChunks (processed + x.tokens) kv chunks).map
        (⟨processed, x.tokens, heldSlots kv⟩ :: ·)
    | (_, .error fault) => .error fault

variable {block cfg}

theorem extended_of_forward {x y : Tensor} {seqPos : Nat} {kv after : Option KvCache}
    (ran : block.forward cfg x seqPos kv = (after, .ok y)) :
    ∃ batch, Extended seqPos batch x.tokens kv after := by
  by_cases fits : ∃ batch length, Fits cfg seqPos batch length x
  · obtain ⟨batch, length, fits⟩ := fits
    have tokens : x.tokens = length := by rw [Tensor.tokens, fits.dims]; rfl
    cases agrees : conflicts batch kv with
    | true =>
      obtain ⟨fault, failed⟩ := block.forward_conflicts fits agrees
      rw [failed] at ran
      cases ran
    | false =>
      obtain ⟨_, _, forwarded, extended, _⟩ := block.forward_extends fits agrees
      rw [forwarded] at ran
      cases ran
      exact ⟨batch, tokens ▸ extended⟩
  · obtain ⟨fault, failed⟩ := block.forward_unfit kv fun batch length fit =>
      fits ⟨batch, length, fit⟩
    rw [failed] at ran
    cases ran

theorem pairs_of_extended {rule : Nat → Nat → Nat → Nat → Nat → Bool} (causal : Causal rule)
    {processed batch length : Nat} {kv after : Option KvCache}
    (held : heldPositions kv = List.range processed)
    (extended : Extended processed batch length kv after) :
    heldPositions after = List.range (processed + length) ∧
      AttentionCall.pairs rule ⟨processed, length, heldSlots after⟩ =
        {pair | pair.2 ≤ pair.1 ∧ processed ≤ pair.1 ∧ pair.1 < processed + length} := by
  have positions : heldPositions after = List.range (processed + length) := by
    rw [extended.heldPositions_eq, held, range_add, List.range'_eq_map_range]
  have count : (heldSlots after).length = processed + length := by
    rw [← length_map (f := Slot.position), ← length_range (n := processed + length)]
    exact congrArg List.length positions
  have position : ∀ {key : Nat} {slot : Slot}, (heldSlots after)[key]? = some slot →
      slot.position = key ∧ key < processed + length := by
    intro key slot found
    have inside := count ▸ (List.getElem?_eq_some_iff.mp found).1
    have read := congrArg (·[key]?) positions
    rw [heldPositions, List.getElem?_map, found, List.getElem?_range inside] at read
    exact ⟨Option.some.inj read, inside⟩
  refine ⟨positions, Set.ext fun pair => AttentionCall.mem_pairs.trans ?_⟩
  rw [Set.mem_ofPred_eq, count]
  constructor
  · rintro ⟨index, query, asks, key, slot, found, answers, seen⟩
    obtain ⟨same, inside⟩ := position found
    have visible := (causal query inside).mp seen
    exact ⟨by omega, by omega, by omega⟩
  · rintro ⟨visible, after', before⟩
    have inside : pair.2 < (heldSlots after).length := by omega
    have found := List.getElem?_eq_getElem inside
    refine ⟨pair.1 - processed, by omega, by omega, pair.2, _, found,
      (position found).1.symm, (causal (by omega) (by omega)).mpr (by omega)⟩

theorem attendedPairs_of_forwardChunks {rule : Nat → Nat → Nat → Nat → Nat → Bool}
    (causal : Causal rule) {processed : Nat} {kv : Option KvCache} {chunks : List Tensor}
    {calls : List AttentionCall} (held : heldPositions kv = List.range processed)
    (ran : block.forwardChunks cfg processed kv chunks = .ok calls) :
    attendedPairs rule calls = {pair | pair.2 ≤ pair.1 ∧ processed ≤ pair.1 ∧
      pair.1 < processed + (chunks.map Tensor.tokens).sum} := by
  induction chunks generalizing processed kv calls with
  | nil =>
    obtain rfl := Except.ok.inj ran
    ext pair
    simp only [attendedPairs, not_mem_nil, false_and, exists_false, Set.mem_ofPred_eq,
      map_nil, sum_nil, false_iff]
    omega
  | cons x chunks ih =>
    rw [forwardChunks] at ran
    split at ran
    case h_2 => cases ran
    case h_1 after y forwarded =>
      obtain ⟨batch, extended⟩ := extended_of_forward forwarded
      obtain ⟨positions, pairs⟩ := pairs_of_extended causal held extended
      cases tail : block.forwardChunks cfg (processed + x.tokens) after chunks with
      | error fault => rw [tail] at ran; cases ran
      | ok rest =>
        rw [tail] at ran
        obtain rfl := Except.ok.inj ran
        have later := ih positions tail
        ext pair
        have first := Set.ext_iff.mp pairs pair
        have others := Set.ext_iff.mp later pair
        simp only [attendedPairs, Set.mem_ofPred_eq, exists_mem_cons_iff] at others ⊢
        rw [first, others, map_cons, sum_cons]
        simp only [Set.mem_ofPred_eq]
        omega

theorem exists_forwardChunks {batch processed : Nat} {kv : Option KvCache} {chunks : List Tensor}
    (shaped : ∀ x ∈ chunks, ∃ length, x.dims = [batch, length, cfg.hiddenDim])
    (agrees : conflicts batch kv = false)
    (inRange : processed + (chunks.map Tensor.tokens).sum ≤ cfg.maxSeqLen) :
    ∃ calls, block.forwardChunks cfg processed kv chunks = .ok calls := by
  induction chunks generalizing processed kv with
  | nil => exact ⟨[], rfl⟩
  | cons x chunks ih =>
    obtain ⟨⟨length, dims⟩, others⟩ := forall_mem_cons.mp shaped
    have tokens : x.tokens = length := by rw [Tensor.tokens, dims]; rfl
    rw [map_cons, sum_cons, tokens] at inRange
    have fits : Fits cfg processed batch length x := ⟨dims, by omega⟩
    obtain ⟨after, y, forwarded, extended, _⟩ := block.forward_extends fits agrees
    obtain ⟨calls, ran⟩ := ih others extended.conflicts_eq
      (show processed + length + _ ≤ _ by omega)
    rw [forwardChunks, forwarded]
    dsimp only
    rw [tokens, ran]
    exact ⟨_, rfl⟩

def echoBlock : ShardBlock := ⟨fun row _ => (row, row), fun row _ _ => row⟩

/-- The calls of three tokens, cut after the second. -/
def echoCalls : List AttentionCall :=
  [⟨0, 2, [⟨0, [5], [5]⟩, ⟨1, [6], [6]⟩]⟩, ⟨2, 1, [⟨0, [5], [5]⟩, ⟨1, [6], [6]⟩, ⟨2, [7], [7]⟩]⟩]

end ShardBlock

end KwaaiNet
