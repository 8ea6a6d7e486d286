import Mathlib
import KwaaiNet.Foundation.JsonRecord
import KwaaiNet.Foundation.Text
import KwaaiNet.Foundation.Tiling

/-! # Which weight files a node needs

A node that serves some blocks of a model downloads only the files that hold tensors of these
blocks, as the index of the model says, and skips the download if they are all there. Both go by the
names of the tensors, and so does the loader, with a list of names of its own.
`KwaaiNet.selectiveDownload_sufficient` relates the three over every division of a model into
ranges: a layer belongs to exactly one node, no other tensor is left out, and what the loader asks
for is selected, downloaded and present.
-/

namespace KwaaiNet

open Foundation List

/-! ## Names of tensors -/

/-- `is_tensor_needed`. -/
def isTensorNeeded (tensorName : String) (startBlock endBlock : Nat) (isFirst isLast : Bool) :
    Bool :=
  match Text.stripPrefix? "model.layers." tensorName with
  | some rest =>
    -- the layer index is everything up to the next dot
    match (Text.splitOnce '.' rest.toList).bind fun parts =>
        Text.parseUnsigned (2 ^ 64) parts.1 with
    | some n => decide (startBlock ≤ n ∧ n < endBlock)
    | none => false
  | none =>
    if Text.startsWith tensorName "model.embed_tokens." then isFirst
    else if Text.startsWith tensorName "model.norm." || Text.startsWith tensorName "lm_head." then
      isLast
    else isFirst || isLast

/-! ## The index and the snapshot directory -/

def weightMap? : Json → Option (List (String × Json))
  | .object entries =>
    match entries.lookup "weight_map" with
    | some (.object weightMap) => some weightMap
    | _ => none
  | _ => none

/-- `as_str`. -/
def asStr : Json → Option String
  | .string text => some text
  | _ => none

/-- A snapshot directory. -/
structure Snapshot where
  /-- The index file, if it can be read. -/
  index : Option String
  /-- The entries and whether each can be followed to a file, if the directory can be listed. -/
  entries : Option (List (String × Bool))
  /-- Whether there is a file of this name below the directory. -/
  present : String → Bool

def parseIndex (index : Option String) : Option Json :=
  (index.bind Json.read).map Json.normalize

/-- Whether the extension of a file name is `safetensors`. -/
def hasSafetensorsExtension (name : String) : Bool :=
  ".safetensors".toList.isSuffixOf name.toList && decide (".safetensors".length < name.length)

/-- `has_safetensors_shards`. -/
def hasSafetensorsShards (snapshot : Snapshot) : Bool :=
  snapshot.present "config.json" &&
    match snapshot.entries with
    | none => false
    | some entries =>
      let shards := entries.filter fun entry => hasSafetensorsExtension entry.1
      !shards.isEmpty && shards.all Prod.snd

/-- `blocks_are_cached`. -/
def blocksAreCached (snapshot : Snapshot) (startBlock endBlock : Nat) (isFirst isLast : Bool) :
    Bool :=
  match parseIndex snapshot.index with
  | none => false
  | some json =>
    match weightMap? json with
    | none => hasSafetensorsShards snapshot
    | some weightMap =>
      let needed := (weightMap.filter fun entry =>
        isTensorNeeded entry.1 startBlock endBlock isFirst isLast).filterMap fun entry =>
          asStr entry.2
      needed.all snapshot.present

/-! ## The download -/

/-- The weight files that `download_for_blocks` selects; none stands for all. -/
def weightFiles (index : Option String) (startBlock endBlock : Nat) (isFirst isLast : Bool) :
    List String :=
  match (parseIndex index).bind weightMap? with
  | none => []
  | some weightMap => weightMap.filterMap fun entry =>
    (asStr entry.2).bind fun fname =>
      if isTensorNeeded entry.1 startBlock endBlock isFirst isLast then some fname else none

def metadataFiles : List String :=
  ["config.json", "generation_config.json", "tokenizer.json", "tokenizer_config.json",
    "special_tokens_map.json", "tokenizer.model", "model.safetensors.index.json"]

/-- `to_ascii_lowercase`. -/
def toAsciiLowercase (text : String) : String := String.ofList (text.toList.map Char.toLower)

/-- The files of the repository that `download_for_blocks` downloads. -/
def selectFiles (siblings weightFiles : List String) : List String :=
  siblings.filter fun f =>
    let lower := toAsciiLowercase f
    if metadataFiles.contains lower then true
    else if !weightFiles.isEmpty then weightFiles.contains f
    else ".safetensors".toList.isSuffixOf lower.toList

/-! ## The loader -/

/-- The tensors of a block, in the order in which `ShardBlock::load` asks for them. -/
def blockTensors : List String :=
  ["input_layernorm", "post_attention_layernorm", "self_attn.q_proj", "self_attn.k_proj",
    "self_attn.v_proj", "self_attn.o_proj", "mlp.gate_proj", "mlp.up_proj", "mlp.down_proj"]

def weightName (place : String) : String := place ++ ".weight"

def layerPlace (globalIdx : Nat) : String :=
  "model.layers." ++ String.ofList (Nat.toDigits 10 globalIdx)

/-- The names that `TransformerShard::load` asks for, if the range is valid. -/
def loadNames (startBlock endBlock numTotalBlocks : Nat) : Except String (List String) :=
  if endBlock ≤ startBlock ∨ numTotalBlocks < endBlock then
    .error s!"Invalid shard range [{startBlock}..{endBlock}) for model with {numTotalBlocks} layers"
  else
    .ok ((if startBlock = 0 then [weightName "model.embed_tokens"] else []) ++
      ((List.range' startBlock (endBlock - startBlock)).flatMap fun globalIdx =>
        blockTensors.map fun tensor => weightName (layerPlace globalIdx ++ "." ++ tensor)) ++
      if endBlock = numTotalBlocks then [weightName "model.norm", weightName "lm_head"] else [])

/-! ## Divisions -/

/-- A division of the blocks of a model into the ranges of nodes. -/
structure Division where
  totalBlocks : Nat
  ranges : List Span
  fits : totalBlocks < 2 ^ 64
  full : ranges ≠ []
  consecutive : Consecutive 0 ranges totalBlocks

def selects (totalBlocks : Nat) (range : Span) (tensorName : String) : Bool :=
  isTensorNeeded tensorName range.start range.stop (range.start = 0) (totalBlocks ≤ range.stop)

/-- A tensor of a layer, whose index may be written in any way that parses as it. -/
def IsLayerTensor (n : Nat) (tensorName : String) : Prop :=
  ∃ index rest : String, tensorName = "model.layers." ++ (index ++ "." ++ rest) ∧
    '.' ∉ index.toList ∧ Text.parseUnsigned (2 ^ 64) index.toList = some n

theorem isTensorNeeded_layer {n : Nat} {tensorName : String}
    (layer : IsLayerTensor n tensorName) (startBlock endBlock : Nat) (isFirst isLast : Bool) :
    isTensorNeeded tensorName startBlock endBlock isFirst isLast =
      decide (startBlock ≤ n ∧ n < endBlock) := by
  obtain ⟨index, rest, rfl, plain, parsed⟩ := layer
  have split : Text.splitOnce '.' (index ++ "." ++ rest).toList =
      some (index.toList, rest.toList) := by
    rw [String.toList_append, String.toList_append, append_assoc]
    exact Text.splitOnce_append plain rest.toList
  rw [isTensorNeeded, Text.stripPrefix?_append]
  dsimp only
  rw [split, Option.bind_some, parsed]

theorem isLayerTensor_below {n : Nat} (fits : n < 2 ^ 64) (rest : String) :
    IsLayerTensor n (layerPlace n ++ "." ++ rest) := by
  refine ⟨String.ofList (Nat.toDigits 10 n), rest, ?_, ?_, ?_⟩
  · rw [layerPlace, String.append_assoc, String.append_assoc, String.append_assoc]
  · rw [String.toList_ofList]
    exact Text.notMem_numeral rfl n
  · rw [String.toList_ofList, Text.parseUnsigned_numeral, if_pos fits]

theorem isTensorNeeded_other {tensorName : String}
    (outside : Text.startsWith tensorName "model.layers." = false) (startBlock endBlock : Nat)
    (isFirst isLast : Bool) :
    isTensorNeeded tensorName startBlock endBlock isFirst isLast =
      if Text.startsWith tensorName "model.embed_tokens." then isFirst
      else if Text.startsWith tensorName "model.norm." || Text.startsWith tensorName "lm_head." then
        isLast
      else isFirst || isLast := by
  have stripped : Text.stripPrefix? "model.layers." tensorName = none :=
    if_neg (Bool.eq_false_iff.mp outside)
  rw [isTensorNeeded, stripped]

theorem isTensorNeeded_of_mem_loadNames {startBlock endBlock numTotalBlocks : Nat}
    {names : List String} (asked : loadNames startBlock endBlock numTotalBlocks = .ok names)
    (fits : numTotalBlocks < 2 ^ 64) {name : String} (member : name ∈ names) :
    isTensorNeeded name startBlock endBlock (startBlock = 0) (numTotalBlocks ≤ endBlock) =
      true := by
  rw [loadNames] at asked
  have valid : ¬ (endBlock ≤ startBlock ∨ numTotalBlocks < endBlock) := by
    intro invalid
    rw [if_pos invalid] at asked
    cases asked
  rw [if_neg valid] at asked
  obtain rfl := Except.ok.inj asked
  rw [mem_append, mem_append, mem_flatMap] at member
  rcases member with (embedding | ⟨globalIdx, inRange, layer⟩) | head
  · split_ifs at embedding with first
    · rw [mem_singleton.mp embedding, isTensorNeeded_other (by decide +kernel)]
      exact decide_eq_true first
    · cases embedding
  · rw [mem_range'_1] at inRange
    obtain ⟨tensor, -, rfl⟩ := mem_map.mp layer
    have below : IsLayerTensor globalIdx (weightName (layerPlace globalIdx ++ "." ++ tensor)) := by
      rw [weightName, String.append_assoc]
      exact isLayerTensor_below (by omega) _
    rw [isTensorNeeded_layer below]
    exact decide_eq_true (by omega)
  · split_ifs at head with last
    · have needed : decide (numTotalBlocks ≤ endBlock) = true := decide_eq_true last.ge
      rcases mem_pair.mp head with rfl | rfl
      · rw [isTensorNeeded_other (by decide +kernel)]
        exact needed
      · rw [isTensorNeeded_other (by decide +kernel)]
        exact needed
    · cases head

/-! ## Files -/

section Files

variable {startBlock endBlock : Nat} {isFirst isLast : Bool} {index : Option String}
  {weightMap : List (String × Json)} {name file : String}

theorem present_of_blocksAreCached {snapshot : Snapshot}
    (mapped : (parseIndex snapshot.index).bind weightMap? = some weightMap)
    (cached : blocksAreCached snapshot startBlock endBlock isFirst isLast = true)
    (listed : (name, Json.string file) ∈ weightMap)
    (needed : isTensorNeeded name startBlock endBlock isFirst isLast = true) :
    snapshot.present file = true := by
  obtain ⟨json, parsed, mapped⟩ := Option.bind_eq_some_iff.mp mapped
  rw [blocksAreCached, parsed] at cached
  dsimp only at cached
  rw [mapped] at cached
  refine all_eq_true.mp cached file (mem_filterMap.mpr
    ⟨(name, .string file), ?_, rfl⟩)
  exact mem_filter.mpr ⟨listed, needed⟩

theorem mem_weightFiles (mapped : (parseIndex index).bind weightMap? = some weightMap)
    (listed : (name, Json.string file) ∈ weightMap)
    (needed : isTensorNeeded name startBlock endBlock isFirst isLast = true) :
    file ∈ weightFiles index startBlock endBlock isFirst isLast := by
  rw [weightFiles, mapped]
  refine mem_filterMap.mpr ⟨_, listed, ?_⟩
  rw [asStr, Option.bind_some, if_pos needed]

theorem mem_selectFiles {siblings files : List String} (offered : file ∈ siblings)
    (selected : file ∈ files) : file ∈ selectFiles siblings files := by
  refine mem_filter.mpr ⟨offered, ?_⟩
  have some : (!files.isEmpty) = true := by
    rw [Bool.not_eq_true', isEmpty_eq_false_iff]
    exact ne_nil_of_mem selected
  dsimp only
  split_ifs
  · rfl
  · exact contains_iff_mem.mpr selected

end Files

/-- **Selective download.** In every division of a model, a tensor of a layer is selected for
exactly one node and one outside the layers for at least one. What the loader asks for is selected,
so its files are present if the blocks count as cached, and downloaded otherwise. -/
theorem selectiveDownload_sufficient (division : Division) :
    (∀ n < division.totalBlocks, ∀ tensorName, IsLayerTensor n tensorName →
      division.ranges.countP (selects division.totalBlocks · tensorName) = 1) ∧
    (∀ tensorName, Text.startsWith tensorName "model.layers." = false →
      ∃ range ∈ division.ranges, selects division.totalBlocks range tensorName = true) ∧
    ∀ range ∈ division.ranges, ∀ names,
      loadNames range.start range.stop division.totalBlocks = .ok names → ∀ name ∈ names,
        selects division.totalBlocks range name = true ∧
        (∀ (snapshot : Snapshot) weightMap file,
          (parseIndex snapshot.index).bind weightMap? = some weightMap →
          (name, Json.string file) ∈ weightMap →
          blocksAreCached snapshot range.start range.stop (range.start = 0)
            (division.totalBlocks ≤ range.stop) = true → snapshot.present file = true) ∧
        ∀ index weightMap file siblings, (parseIndex index).bind weightMap? = some weightMap →
          (name, Json.string file) ∈ weightMap → file ∈ siblings →
          file ∈ selectFiles siblings (weightFiles index range.start range.stop (range.start = 0)
            (division.totalBlocks ≤ range.stop)) := by
  refine ⟨fun n inside tensorName layer => ?_, fun tensorName outside => ?_, ?_⟩
  · have selected : (selects division.totalBlocks · tensorName) =
        fun range => decide (n ∈ range.points) := by
      funext range
      rw [selects, isTensorNeeded_layer layer]
      exact decide_eq_decide.mpr (range.mem_points n).symm
    rw [selected, division.consecutive.countP_mem_points, if_pos ⟨n.zero_le, inside⟩]
  · obtain ⟨first, firstMember, starts⟩ := division.consecutive.exists_start division.full
    obtain ⟨last, lastMember, ends⟩ := division.consecutive.exists_stop division.full
    have isFirst : decide (first.start = 0) = true := decide_eq_true starts
    have isLast : decide (division.totalBlocks ≤ last.stop) = true := decide_eq_true ends.ge
    by_cases embedding : Text.startsWith tensorName "model.embed_tokens." = true
    · refine ⟨first, firstMember, ?_⟩
      rw [selects, isTensorNeeded_other outside, if_pos embedding, isFirst]
    · refine ⟨last, lastMember, ?_⟩
      rw [selects, isTensorNeeded_other outside, if_neg embedding, isLast, Bool.or_true, ite_self]
  · intro range _ names asked name member
    have needed := isTensorNeeded_of_mem_loadNames asked division.fits member
    refine ⟨needed, ?_, ?_⟩
    · intro snapshot weightMap file mapped listed cached
      exact present_of_blocksAreCached mapped cached listed needed
    · intro index weightMap file siblings mapped listed offered
      exact mem_selectFiles offered (mem_weightFiles mapped listed needed)

end KwaaiNet
