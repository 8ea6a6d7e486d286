import KwaaiNet.Foundation.Fallible
import KwaaiNet.Rag.Chunker

/-! # The texts sent to entity extraction

The entities of a chunk are extracted from its text together with the texts of its neighbours. One
function does so chunk by chunk, another one for batches of chunks. Both keep from the window
around a chunk what is in the same zone as the chunk; but a section that is not narrative is in no
zone, and neither function looks at the flags of the neighbours. The two send the same texts as
long as batches have one chunk, and these are the right ones exactly in the cases of
`KwaaiNet.Chunking.windowsBelong_iff`. A batch is skipped or not by its first chunk
(`KwaaiNet.Chunking.batchesCover_iff`).
-/

namespace KwaaiNet.Chunking

open Foundation List

abbrev StoredChunk := Int × Chunk Char

/-- How the computation of a window panics. -/
inductive WindowPanic where
  | addOverflow
  | slice (panic : Panic)
  deriving DecidableEq

/-- Addition of `usize` numbers of 64 bits; whether an overflow is noticed depends on the build. -/
def addUsize (checked : Bool) (first second : Nat) : Except WindowPanic Nat :=
  if first + second < 2 ^ 64 then .ok (first + second)
  else if checked then .error .addOverflow
  else .ok ((first + second) % 2 ^ 64)

def zoneWindow (chunks : List StoredChunk) (centerType : SectionType) (start stop : Nat) :
    Except WindowPanic (List (StoredChunk × Nat)) := do
  let range ← (slice start stop chunks.zipIdx).mapError .slice
  return range.filter fun item => centerType.sameWindowZone item.1.2.sectionType

/-- One call of the entity extraction: the chunk its entities are recorded for, the chunks it is
made for, the chunks whose texts are sent, and what is sent. -/
structure ExtractionCall where
  chunkId : Int
  members : List Nat
  window : List Nat
  text : List Char
  deriving DecidableEq

def ExtractionCall.make (chunkId : Int) (members : List Nat) (window : List (StoredChunk × Nat)) :
    ExtractionCall where
  chunkId := chunkId
  members := members
  window := window.map Prod.snd
  text := "\n\n[...]\n\n".toList.intercalate (window.map fun item => item.1.2.text)

section

variable (checked : Bool) (contextWindow : UInt64) (chunks : List StoredChunk)

/-- The window of a chunk in `extract_and_store_entities`. -/
def chunkWindow (item : StoredChunk × Nat) : Except WindowPanic (List (StoredChunk × Nat)) :=
  if 0 < contextWindow then do
    let start := item.2 - contextWindow.toNat
    let stop ← addUsize checked item.2 contextWindow.toNat
    let stop ← addUsize checked stop 1
    zoneWindow chunks item.1.2.sectionType start (min stop chunks.length)
  else .ok [item]

def chunkCall (item : StoredChunk × Nat) : Except WindowPanic ExtractionCall := do
  let window ← chunkWindow checked contextWindow chunks item
  return .make item.1.1 [item.2] window

/-- The calls of `extract_and_store_entities`. -/
def extractAndStoreEntities : Except WindowPanic (List ExtractionCall) :=
  (chunks.zipIdx.filter fun item => !item.1.2.skipExtraction).mapM
    (chunkCall checked contextWindow chunks)

/-- The window of a batch in `extract_and_store_entities_pub`. -/
def batchWindow (chunkBatch : Nat) (item : StoredChunk × Nat) :
    Except WindowPanic (List (StoredChunk × Nat)) :=
  let batchEnd := min (item.2 + chunkBatch) chunks.length
  if 0 < contextWindow ∨ 1 < chunkBatch then do
    let start := item.2 - contextWindow.toNat
    let stop ← addUsize checked batchEnd contextWindow.toNat
    zoneWindow chunks item.1.2.sectionType start (min stop chunks.length)
  else .ok [item]

def batchCall (chunkBatch : Nat) (item : StoredChunk × Nat) :
    Except WindowPanic ExtractionCall := do
  let batchEnd := min (item.2 + chunkBatch) chunks.length
  let window ← batchWindow checked contextWindow chunks chunkBatch item
  return .make item.1.1 (List.range' item.2 (batchEnd - item.2)) window

def batchLeaders (chunkBatch : Nat) : List (StoredChunk × Nat) :=
  (strides chunkBatch chunks.length chunks.length 0).filterMap fun i =>
    chunks[i]?.map fun chunk => (chunk, i)

/-- The calls of `extract_and_store_entities_pub`. The sums of a position and the size of a batch
do not overflow: a batch that is not the first one is no larger than its position. -/
def extractAndStoreEntitiesPub (chunkBatch : UInt64) : Except WindowPanic (List ExtractionCall) :=
  let chunkBatch := max chunkBatch.toNat 1
  ((batchLeaders chunks chunkBatch).filter fun item => !item.1.2.skipExtraction).mapM
    (batchCall checked contextWindow chunks chunkBatch)

end

/-! ## Windows -/

section

variable {checked : Bool} {contextWindow : UInt64} {chunks : List StoredChunk}

theorem addUsize_of_lt {first second : Nat} (fits : first + second < 2 ^ 64) :
    addUsize checked first second = .ok (first + second) := if_pos fits

theorem lt_of_addUsize {first second sum : Nat} (bounded : second < 2 ^ 64)
    (overflows : 2 ^ 64 ≤ first + second) (small : first < 2 ^ 64)
    (added : addUsize checked first second = .ok sum) : sum < first := by
  rw [addUsize, if_neg (by omega)] at added
  split_ifs at added
  have wrapped := Except.ok.inj added
  omega

theorem addUsize_succ {i context : Nat} (small : i + 1 < 2 ^ 64) (bounded : context < 2 ^ 64) :
    (addUsize checked i context).bind (fun stop => addUsize checked stop 1) =
      addUsize checked (i + 1) context := by
  by_cases fits : i + context < 2 ^ 64
  · have same : i + 1 + context = i + context + 1 := by omega
    rw [addUsize_of_lt fits, Except.bind, addUsize, addUsize, same]
  · have beyond : ¬ i + 1 + context < 2 ^ 64 := by omega
    rw [addUsize, if_neg fits, addUsize, if_neg beyond]
    cases checked with
    | true => rfl
    | false =>
      have next : (i + context) % 2 ^ 64 + 1 < 2 ^ 64 := by omega
      have same : (i + context) % 2 ^ 64 + 1 = (i + 1 + context) % 2 ^ 64 := by omega
      rw [if_neg Bool.false_ne_true, if_neg Bool.false_ne_true, Except.bind,
        addUsize_of_lt next, same]

theorem mem_range_zipIdx {start stop i : Nat} {chunk : StoredChunk} :
    (chunk, i) ∈ (chunks.zipIdx.take stop).drop start ↔
      (start ≤ i ∧ i < stop) ∧ chunks[i]? = some chunk := by
  rw [mem_iff_getElem?]
  simp only [List.getElem?_drop, List.getElem?_take, List.getElem?_zipIdx, Nat.zero_add]
  constructor
  · intro ⟨offset, found⟩
    split_ifs at found with inside
    obtain ⟨other, here, same⟩ := Option.map_eq_some_iff.mp found
    obtain ⟨rfl, rfl⟩ := Prod.mk.inj same
    exact ⟨⟨Nat.le_add_right _ _, inside⟩, here⟩
  · intro ⟨⟨above, below⟩, here⟩
    refine ⟨i - start, ?_⟩
    rw [Nat.add_sub_cancel' above, if_pos below, here]
    rfl

theorem mem_zoneWindow {centerType : SectionType} {start stop : Nat}
    {window : List (StoredChunk × Nat)}
    (done : zoneWindow chunks centerType start stop = .ok window) {i : Nat} :
    i ∈ window.map Prod.snd ↔ (start ≤ i ∧ i < stop) ∧
      ∃ chunk, chunks[i]? = some chunk ∧
        centerType.sameWindowZone chunk.2.sectionType = true := by
  rw [zoneWindow] at done
  cases range : slice start stop chunks.zipIdx with
  | error panic => rw [range] at done; cases done
  | ok items =>
    rw [range] at done
    rw [← Except.ok.inj done, ← (slice_eq_ok_iff.mp range).2, mem_map]
    constructor
    · intro ⟨⟨chunk, number⟩, member, same⟩
      obtain ⟨inside, zone⟩ := mem_filter.mp member
      obtain ⟨bounds, here⟩ := mem_range_zipIdx.mp inside
      subst same
      exact ⟨bounds, chunk, here, zone⟩
    · intro ⟨bounds, chunk, here, zone⟩
      exact ⟨(chunk, i), mem_filter.mpr ⟨mem_range_zipIdx.mpr ⟨bounds, here⟩, zone⟩, rfl⟩

theorem getElem?_of_mem_zoneWindow {centerType : SectionType} {start stop : Nat}
    {window : List (StoredChunk × Nat)}
    (done : zoneWindow chunks centerType start stop = .ok window)
    {chunk : StoredChunk} {i : Nat} (member : (chunk, i) ∈ window) : chunks[i]? = some chunk := by
  rw [zoneWindow] at done
  cases range : slice start stop chunks.zipIdx with
  | error panic => rw [range] at done; cases done
  | ok items =>
    rw [range] at done
    rw [← Except.ok.inj done, ← (slice_eq_ok_iff.mp range).2] at member
    exact (mem_range_zipIdx.mp (mem_filter.mp member).1).2

theorem sorted_zoneWindow {centerType : SectionType} {start stop : Nat}
    {window : List (StoredChunk × Nat)}
    (done : zoneWindow chunks centerType start stop = .ok window) :
    (window.map Prod.snd).Pairwise (· < ·) := by
  rw [zoneWindow] at done
  cases range : slice start stop chunks.zipIdx with
  | error panic => rw [range] at done; cases done
  | ok items =>
    rw [range] at done
    have numbered : (chunks.zipIdx.map Prod.snd).Pairwise (· < ·) := by
      rw [zipIdx_map_snd]
      exact pairwise_lt_range'
    rw [← Except.ok.inj done, ← (slice_eq_ok_iff.mp range).2]
    refine numbered.sublist (List.Sublist.map _ (filter_sublist.trans ?_))
    exact (drop_sublist _ _).trans (take_sublist _ _)

theorem exists_zoneWindow (centerType : SectionType) {start stop : Nat} (ordered : start ≤ stop)
    (inside : stop ≤ chunks.length) :
    ∃ window, zoneWindow chunks centerType start stop = .ok window := by
  have length : chunks.zipIdx.length = chunks.length := length_zipIdx
  rw [zoneWindow, slice_eq_ok_iff.mpr ⟨⟨ordered, length ▸ inside⟩, rfl⟩]
  exact ⟨_, rfl⟩

theorem chunkWindow_eq_batchWindow {item : StoredChunk × Nat} (inside : item.2 < chunks.length)
    (few : chunks.length < 2 ^ 63) :
    chunkWindow checked contextWindow chunks item =
      batchWindow checked contextWindow chunks 1 item := by
  have stop : min (item.2 + 1) chunks.length = item.2 + 1 := min_eq_left inside
  rw [chunkWindow, batchWindow]
  by_cases context : 0 < contextWindow
  · rw [if_pos context, if_pos (.inl context), stop,
      ← addUsize_succ (by omega) contextWindow.toNat_lt]
    cases addUsize checked item.2 contextWindow.toNat <;> rfl
  · rw [if_neg context, if_neg (by simp [context])]

theorem batchWindow_of_lt (checked : Bool) {chunkBatch : Nat} (item : StoredChunk × Nat)
    (inside : item.2 < chunks.length) (context : 0 < contextWindow ∨ 1 < chunkBatch)
    (fits : min (item.2 + chunkBatch) chunks.length + contextWindow.toNat < 2 ^ 64)
    (positive : 0 < chunkBatch) :
    ∃ window, batchWindow checked contextWindow chunks chunkBatch item = .ok window ∧
      (window.map Prod.snd).Pairwise (· < ·) ∧
      ∀ i, i ∈ window.map Prod.snd ↔
        (item.2 ≤ i + contextWindow.toNat ∧ i < item.2 + chunkBatch + contextWindow.toNat) ∧
        ∃ chunk, chunks[i]? = some chunk ∧
          item.1.2.sectionType.sameWindowZone chunk.2.sectionType = true := by
  have unfolded : batchWindow checked contextWindow chunks chunkBatch item =
      zoneWindow chunks item.1.2.sectionType (item.2 - contextWindow.toNat)
        (min (min (item.2 + chunkBatch) chunks.length + contextWindow.toNat) chunks.length) := by
    rw [batchWindow, if_pos context, addUsize_of_lt fits]
    rfl
  have ordered : item.2 - contextWindow.toNat ≤
      min (min (item.2 + chunkBatch) chunks.length + contextWindow.toNat) chunks.length := by omega
  obtain ⟨window, done⟩ := exists_zoneWindow item.1.2.sectionType ordered (min_le_right _ _)
  refine ⟨window, unfolded.trans done, sorted_zoneWindow done, fun i => ?_⟩
  rw [mem_zoneWindow done]
  constructor
  · intro ⟨bounds, zone⟩
    exact ⟨by omega, zone⟩
  · intro ⟨bounds, chunk, here, zone⟩
    have present := (List.getElem?_eq_some_iff.mp here).1
    exact ⟨by omega, chunk, here, zone⟩

theorem not_mem_batchWindow {chunkBatch : Nat} {item : StoredChunk × Nat}
    {window : List (StoredChunk × Nat)} (few : chunks.length < 2 ^ 63)
    (context : 0 < contextWindow ∨ 1 < chunkBatch)
    (overflows : 2 ^ 64 ≤ min (item.2 + chunkBatch) chunks.length + contextWindow.toNat)
    (done : batchWindow checked contextWindow chunks chunkBatch item = .ok window) {i : Nat}
    (member : i ∈ window.map Prod.snd) : i + 1 < min (item.2 + chunkBatch) chunks.length := by
  rw [batchWindow, if_pos context] at done
  cases added : addUsize checked (min (item.2 + chunkBatch) chunks.length) contextWindow.toNat with
  | error panic => rw [added] at done; cases done
  | ok stop =>
    rw [added] at done
    have early := lt_of_addUsize contextWindow.toNat_lt overflows (by omega) added
    have bounds := ((mem_zoneWindow done).mp member).1
    omega

theorem getElem?_of_mem_batchWindow {chunkBatch : Nat} {item : StoredChunk × Nat}
    {window : List (StoredChunk × Nat)} (here : chunks[item.2]? = some item.1)
    (done : batchWindow checked contextWindow chunks chunkBatch item = .ok window) :
    ∀ other ∈ window, chunks[other.2]? = some other.1 := by
  intro other member
  rw [batchWindow] at done
  split_ifs at done with context
  · generalize min (item.2 + chunkBatch) chunks.length = batchEnd at done
    cases added : addUsize checked batchEnd contextWindow.toNat with
    | error panic => rw [added] at done; cases done
    | ok stop =>
      rw [added] at done
      obtain ⟨chunk, i⟩ := other
      exact getElem?_of_mem_zoneWindow done member
  · rw [← Except.ok.inj done, mem_singleton] at member
    rwa [member]

theorem mem_batchLeaders {chunkBatch : Nat} (positive : 0 < chunkBatch) {chunk : StoredChunk}
    {i : Nat} :
    (chunk, i) ∈ batchLeaders chunks chunkBatch ↔ chunks[i]? = some chunk ∧ chunkBatch ∣ i := by
  rw [batchLeaders, mem_filterMap]
  constructor
  · intro ⟨position, member, found⟩
    obtain ⟨other, here, same⟩ := Option.map_eq_some_iff.mp found
    obtain ⟨rfl, rfl⟩ := Prod.mk.inj same
    exact ⟨here, ((mem_strides_zero_iff positive).mp member).2⟩
  · intro ⟨here, multiple⟩
    have inside := (List.getElem?_eq_some_iff.mp here).1
    exact ⟨i, (mem_strides_zero_iff positive).mpr ⟨inside, multiple⟩, by rw [here]; rfl⟩

theorem nodup_batchLeaders (chunks : List StoredChunk) {chunkBatch : Nat}
    (positive : 0 < chunkBatch) :
    ((batchLeaders chunks chunkBatch).map Prod.snd).Nodup := by
  have ordered : ((batchLeaders chunks chunkBatch).map Prod.snd).Pairwise (· < ·) := by
    rw [batchLeaders, map_filterMap]
    refine (pairwise_strides positive).filterMap _ fun first second less i found j found' => ?_
    simp only [Option.map_map, Option.map_eq_some_iff, Function.comp_apply] at found found'
    obtain ⟨⟨_, _, rfl⟩, _, _, rfl⟩ := And.intro found found'
    exact less
  exact ordered.imp Nat.ne_of_lt

theorem batchCall_eq_ok_iff {chunkBatch : Nat} {item : StoredChunk × Nat} {call : ExtractionCall} :
    batchCall checked contextWindow chunks chunkBatch item = .ok call ↔
      ∃ window, batchWindow checked contextWindow chunks chunkBatch item = .ok window ∧
        ExtractionCall.make item.1.1
          (List.range' item.2 (min (item.2 + chunkBatch) chunks.length - item.2)) window =
            call := by
  rw [batchCall, bind_pure_eq_ok_iff]

theorem chunkCall_eq_ok_iff {item : StoredChunk × Nat} {call : ExtractionCall} :
    chunkCall checked contextWindow chunks item = .ok call ↔
      ∃ window, chunkWindow checked contextWindow chunks item = .ok window ∧
        ExtractionCall.make item.1.1 [item.2] window = call := by
  rw [chunkCall, bind_pure_eq_ok_iff]

end

/-! ## Chunk by chunk -/

def ExtractionCall.SendsWindow (chunks : List StoredChunk) (call : ExtractionCall) : Prop :=
  call.text = "\n\n[...]\n\n".toList.intercalate
    (call.window.filterMap fun i => chunks[i]?.map fun chunk => chunk.2.text)

/-- The window of a chunk has the chunk itself and otherwise neighbours in the same zone that are
not to be skipped, in document order. -/
structure WindowBelongs (contextWindow : UInt64) (chunks : List StoredChunk) (center : StoredChunk)
    (i : Nat) (window : List Nat) : Prop where
  own : i ∈ window
  ordered : window.Pairwise (· < ·)
  others : ∀ j ∈ window, j ≠ i → (i ≤ j + contextWindow.toNat ∧ j ≤ i + contextWindow.toNat) ∧
    ∃ other, chunks[j]? = some other ∧
      center.2.sectionType.sameWindowZone other.2.sectionType = true ∧
      other.2.skipExtraction = false

/-- Every chunk that is not to be skipped is sent once, in a window that belongs to it. -/
structure WindowsBelong (contextWindow : UInt64) (chunks : List StoredChunk)
    (calls : List ExtractionCall) : Prop where
  each : calls.map ExtractionCall.members =
    (chunks.zipIdx.filter fun item => !item.1.2.skipExtraction).map fun item => [item.2]
  sends : ∀ call ∈ calls, call.SendsWindow chunks
  belongs : ∀ call ∈ calls, ∀ i ∈ call.members, ∀ center, chunks[i]? = some center →
    WindowBelongs contextWindow chunks center i call.window

def NarrativeAround (contextWindow : UInt64) (chunks : List StoredChunk) (center : StoredChunk)
    (i : Nat) : Prop :=
  center.2.sectionType ∈ SectionType.narrative ∧
    ∀ j other, i ≤ j + contextWindow.toNat → j ≤ i + contextWindow.toNat →
      chunks[j]? = some other → other.2.sectionType ∈ SectionType.narrative →
      other.2.skipExtraction = false

section

variable {checked : Bool} {contextWindow : UInt64} {chunks : List StoredChunk}

theorem ExtractionCall.sendsWindow_make (chunkId : Int) (members : List Nat)
    {window : List (StoredChunk × Nat)}
    (found : ∀ item ∈ window, chunks[item.2]? = some item.1) :
    (ExtractionCall.make chunkId members window).SendsWindow chunks := by
  have texts : (window.map Prod.snd).filterMap
      (fun i => chunks[i]?.map fun chunk => chunk.2.text) =
        window.map fun item => item.1.2.text := by
    rw [filterMap_map, ← filterMap_eq_map]
    refine filterMap_congr fun item member => ?_
    rw [Function.comp_apply, found item member]
    rfl
  rw [ExtractionCall.SendsWindow, ExtractionCall.make, texts]

theorem batchLeaders_one : batchLeaders chunks 1 = chunks.zipIdx := by
  have found : ∀ item ∈ chunks.zipIdx,
      ((fun i => chunks[i]?.map fun chunk => (chunk, i)) ∘ Prod.snd) item = some item := by
    intro item member
    rw [Function.comp_apply, mk_mem_zipIdx_iff_getElem?.mp member]
    rfl
  rw [batchLeaders, strides_one (by omega), Nat.sub_zero, ← zipIdx_map_snd,
    filterMap_map, filterMap_congr found, filterMap_some]

/-- **One window.** With batches of one chunk both functions make the same calls. -/
theorem extractAndStoreEntities_eq (few : chunks.length < 2 ^ 63) :
    extractAndStoreEntities checked contextWindow chunks =
      extractAndStoreEntitiesPub checked contextWindow chunks 1 := by
  have single : max (1 : UInt64).toNat 1 = 1 := rfl
  rw [extractAndStoreEntities, extractAndStoreEntitiesPub, single, batchLeaders_one]
  refine mapM_congr fun item member => ?_
  have here := mk_mem_zipIdx_iff_getElem?.mp (mem_filter.mp member).1
  have inside := (List.getElem?_eq_some_iff.mp here).1
  have count : min (item.2 + 1) chunks.length - item.2 = 1 := by omega
  rw [chunkCall, batchCall, chunkWindow_eq_batchWindow inside few, count]
  rfl

theorem exists_windowBelongs_iff (few : chunks.length < 2 ^ 63) {center : StoredChunk} {i : Nat}
    (here : chunks[i]? = some center) (kept : center.2.skipExtraction = false) :
    (∃ window, chunkWindow checked contextWindow chunks (center, i) = .ok window ∧
      WindowBelongs contextWindow chunks center i (window.map Prod.snd)) ↔
    contextWindow = 0 ∨
      (i + contextWindow.toNat + 1 < 2 ^ 64 ∧ NarrativeAround contextWindow chunks center i) := by
  have inside := (List.getElem?_eq_some_iff.mp here).1
  rw [chunkWindow_eq_batchWindow inside few]
  have stop : min (i + 1) chunks.length = i + 1 := min_eq_left inside
  by_cases none : contextWindow = 0
  · refine iff_of_true ⟨[(center, i)], ?_, ?_⟩ (.inl none)
    · rw [batchWindow, if_neg (by simp [none])]
    · refine ⟨mem_singleton_self i, pairwise_singleton _ _, fun j member other => ?_⟩
      exact absurd (mem_singleton.mp member) other
  have context : 0 < contextWindow ∨ 1 < 1 := .inl (UInt64.pos_iff_ne_zero.mpr none)
  rw [or_iff_right none]
  constructor
  · intro ⟨window, done, belongs⟩
    have fits : i + contextWindow.toNat + 1 < 2 ^ 64 := by
      by_contra overflows
      have early := not_mem_batchWindow few context (by simp only [stop]; omega) done belongs.own
      simp only [stop] at early
      omega
    obtain ⟨same, again, -, mem⟩ := batchWindow_of_lt checked (center, i) inside context
      (by simp only [stop]; omega) Nat.one_pos
    obtain rfl := Except.ok.inj (done.symm.trans again)
    obtain ⟨-, self, found, zone⟩ := (mem i).mp belongs.own
    have narrative := (SectionType.sameWindowZone_iff.mp zone).1
    refine ⟨fits, narrative, fun j other low high there also => ?_⟩
    by_cases same : j = i
    · subst same
      rwa [← Option.some.inj (here.symm.trans there)]
    · have member : j ∈ window.map Prod.snd := (mem j).mpr
        ⟨⟨low, by omega⟩, other, there, SectionType.sameWindowZone_iff.mpr ⟨narrative, also⟩⟩
      obtain ⟨-, another, present, -, unflagged⟩ := belongs.others j member same
      rwa [← Option.some.inj (present.symm.trans there)]
  · intro ⟨fits, narrative, unflagged⟩
    obtain ⟨window, done, ordered, mem⟩ := batchWindow_of_lt checked (center, i) inside context
      (by simp only [stop]; omega) Nat.one_pos
    refine ⟨window, done, (mem i).mpr ⟨by omega, center, here, ?_⟩, ordered, fun j member _ => ?_⟩
    · exact SectionType.sameWindowZone_iff.mpr ⟨narrative, narrative⟩
    · obtain ⟨⟨low, high⟩, other, there, zone⟩ := (mem j).mp member
      have near : j ≤ i + contextWindow.toNat := by
        simp only at high
        omega
      exact ⟨⟨low, near⟩, other, there, zone,
        unflagged j other low near there (SectionType.sameWindowZone_iff.mp zone).2⟩

/-- **Windows of chunks.** Both functions send the same texts for batches of one chunk. Every chunk
that is not to be skipped is sent with its own text and the right neighbours exactly if there is no
context window, or the chunk is narrative, no narrative chunk in its window is to be skipped, and
the end of the window does not overflow. -/
theorem windowsBelong_iff (checked : Bool) (contextWindow : UInt64)
    (few : chunks.length < 2 ^ 63) :
    extractAndStoreEntities checked contextWindow chunks =
      extractAndStoreEntitiesPub checked contextWindow chunks 1 ∧
    ((∃ calls, extractAndStoreEntities checked contextWindow chunks = .ok calls ∧
        WindowsBelong contextWindow chunks calls) ↔
      ∀ i center, chunks[i]? = some center → center.2.skipExtraction = false →
        contextWindow = 0 ∨ (i + contextWindow.toNat + 1 < 2 ^ 64 ∧
          NarrativeAround contextWindow chunks center i)) := by
  refine ⟨extractAndStoreEntities_eq few, ?_, fun belongs => ?_⟩
  · intro ⟨calls, done, right⟩ i center here kept
    have item : (center, i) ∈ chunks.zipIdx.filter fun item => !item.1.2.skipExtraction :=
      mem_filter.mpr ⟨mk_mem_zipIdx_iff_getElem?.mpr here, by rw [kept]; rfl⟩
    obtain ⟨call, member, called⟩ := exists_result_of_mapM done item
    obtain ⟨window, computed, rfl⟩ := chunkCall_eq_ok_iff.mp called
    refine (exists_windowBelongs_iff few here kept).mp ⟨window, computed, ?_⟩
    exact right.belongs _ member i (mem_singleton_self i) center here
  · have windows : ∀ item ∈ chunks.zipIdx.filter fun item => !item.1.2.skipExtraction,
        ∃ window, chunkWindow checked contextWindow chunks item = .ok window ∧
          WindowBelongs contextWindow chunks item.1 item.2 (window.map Prod.snd) := by
      intro item member
      obtain ⟨listed, unflagged⟩ := mem_filter.mp member
      have here := mk_mem_zipIdx_iff_getElem?.mp listed
      have kept : item.1.2.skipExtraction = false := by simpa using unflagged
      exact (exists_windowBelongs_iff few here kept).mpr (belongs item.2 item.1 here kept)
    have worked : ∀ item ∈ chunks.zipIdx.filter fun item => !item.1.2.skipExtraction,
        ∃ call, chunkCall checked contextWindow chunks item = .ok call := by
      intro item member
      obtain ⟨window, computed, -⟩ := windows item member
      exact ⟨_, chunkCall_eq_ok_iff.mpr ⟨window, computed, rfl⟩⟩
    obtain ⟨calls, done⟩ := exists_mapM_eq_ok worked
    refine ⟨calls, done, map_results_of_mapM done ?_, fun call member => ?_,
      fun call member i among center here => ?_⟩
    · intro item call called
      obtain ⟨window, -, rfl⟩ := chunkCall_eq_ok_iff.mp called
      rfl
    · obtain ⟨item, listed, called⟩ := exists_item_of_mapM done member
      obtain ⟨window, computed, rfl⟩ := chunkCall_eq_ok_iff.mp called
      have here := mk_mem_zipIdx_iff_getElem?.mp (mem_filter.mp listed).1
      rw [chunkWindow_eq_batchWindow (List.getElem?_eq_some_iff.mp here).1 few] at computed
      exact ExtractionCall.sendsWindow_make _ _ (getElem?_of_mem_batchWindow here computed)
    · obtain ⟨item, listed, called⟩ := exists_item_of_mapM done member
      obtain ⟨window, computed, rfl⟩ := chunkCall_eq_ok_iff.mp called
      obtain rfl := mem_singleton.mp among
      have found := mk_mem_zipIdx_iff_getElem?.mp (mem_filter.mp listed).1
      obtain rfl := Option.some.inj (found.symm.trans here)
      obtain ⟨_, again, right⟩ := windows item listed
      rwa [← Except.ok.inj (computed.symm.trans again)] at right

end

def bookChunk (id : Int) (text : String) (skip : Bool) (sectionType : SectionType) : StoredChunk :=
  (id, ⟨id, text.toList, text.toList, "book", 0, none, skip, none, sectionType⟩)

def twoChapters : List StoredChunk :=
  [bookChunk 7 "It was late." false .preface, bookChunk 8 "It rained." false .chapter]

theorem twoChapters_narrative : ∀ chunk ∈ twoChapters,
    chunk.2.sectionType ∈ SectionType.narrative ∧ chunk.2.skipExtraction = false := by decide

theorem twoChapters_windowsBelong :
    twoChapters.length < 2 ^ 63 ∧
      ∃ calls, extractAndStoreEntities true 1 twoChapters = .ok calls ∧
        WindowsBelong 1 twoChapters calls := by
  have narrative := twoChapters_narrative
  have few : twoChapters.length < 2 ^ 63 := by decide
  refine ⟨few, (windowsBelong_iff true 1 few).2.mpr fun i center here _ => .inr ⟨?_, ?_, ?_⟩⟩
  · have inside : i < 2 := (List.getElem?_eq_some_iff.mp here).1
    have one : (1 : UInt64).toNat = 1 := rfl
    omega
  · exact (narrative center (mem_of_getElem? here)).1
  · intro j other _ _ there _
    exact (narrative other (mem_of_getElem? there)).2

/-- Nothing is sent for a chunk of an appendix, and a preface that is to be skipped is sent with
the chapter that follows it. -/
theorem appendix_not_windowsBelong :
    (extractAndStoreEntities true 1 [bookChunk 7 "Sources" false .appendix] =
        .ok [⟨7, [0], [], []⟩] ∧
      ¬ ∃ calls,
        extractAndStoreEntities true 1 [bookChunk 7 "Sources" false .appendix] = .ok calls ∧
          WindowsBelong 1 [bookChunk 7 "Sources" false .appendix] calls) ∧
    ¬ ∃ calls, extractAndStoreEntities true 1
        [bookChunk 7 "It was late." true .preface, bookChunk 8 "It rained." false .chapter] =
          .ok calls ∧
      WindowsBelong 1
        [bookChunk 7 "It was late." true .preface, bookChunk 8 "It rained." false .chapter]
        calls := by
  have empty : extractAndStoreEntities true 1 [bookChunk 7 "Sources" false .appendix] =
      .ok [⟨7, [0], [], []⟩] := by decide +kernel
  refine ⟨⟨empty, fun given => ?_⟩, fun given => ?_⟩
  · obtain ⟨calls, done, right⟩ := given
    obtain rfl := Except.ok.inj (empty.symm.trans done)
    have own := (right.belongs _ mem_cons_self 0 mem_cons_self _ rfl).own
    cases own
  · have both : extractAndStoreEntities true 1
        [bookChunk 7 "It was late." true .preface, bookChunk 8 "It rained." false .chapter] =
          .ok [⟨8, [1], [0, 1], "It was late.\n\n[...]\n\nIt rained.".toList⟩] := by decide +kernel
    obtain ⟨calls, done, right⟩ := given
    obtain rfl := Except.ok.inj (both.symm.trans done)
    obtain ⟨-, other, found, -, unflagged⟩ :=
      (right.belongs _ mem_cons_self 1 mem_cons_self _ rfl).others 0 mem_cons_self
        Nat.zero_ne_one
    rw [← Option.some.inj found] at unflagged
    cases unflagged

/-! ## Batches -/

def InBatch (chunks : List StoredChunk) (chunkBatch leader i : Nat) (chunk : StoredChunk) : Prop :=
  (leader ≤ i ∧ i < leader + chunkBatch) ∧ chunks[i]? = some chunk

/-- Every chunk that is not to be skipped is extracted once, by a call that its text is sent with,
no other chunk is, and every call is recorded for one of the chunks it is made for. -/
structure CoversOnce (chunks : List StoredChunk) (calls : List ExtractionCall) : Prop where
  sends : ∀ call ∈ calls, call.SendsWindow chunks
  once : ∀ i chunk, chunks[i]? = some chunk → chunk.2.skipExtraction = false →
    calls.countP (fun call => call.members.contains i) = 1 ∧
      ∀ call ∈ calls, i ∈ call.members → i ∈ call.window
  skipped : ∀ i chunk, chunks[i]? = some chunk → chunk.2.skipExtraction = true →
    ∀ call ∈ calls, i ∉ call.members
  recorded : ∀ call ∈ calls, ∃ i ∈ call.members, ∃ chunk, chunks[i]? = some chunk ∧
    chunk.1 = call.chunkId

/-- The chunks of a batch have the flag of its first chunk. If it is not to be skipped and other
texts are sent than its only one, they are narrative, and the end of the window does not
overflow. -/
structure BatchAgrees (contextWindow : UInt64) (chunkBatch : Nat) (chunks : List StoredChunk)
    (leader : StoredChunk × Nat) : Prop where
  flags : ∀ i chunk, InBatch chunks chunkBatch leader.2 i chunk →
    chunk.2.skipExtraction = leader.1.2.skipExtraction
  narrative : leader.1.2.skipExtraction = false → 0 < contextWindow ∨ 1 < chunkBatch →
    ∀ i chunk, InBatch chunks chunkBatch leader.2 i chunk →
      chunk.2.sectionType ∈ SectionType.narrative
  fits : leader.1.2.skipExtraction = false → 0 < contextWindow ∨ 1 < chunkBatch →
    min (leader.2 + chunkBatch) chunks.length + contextWindow.toNat < 2 ^ 64

section

variable {checked : Bool} {contextWindow : UInt64} {chunks : List StoredChunk} {chunkBatch : Nat}

theorem mem_members_iff {leader : StoredChunk × Nat} {call : ExtractionCall}
    (called : batchCall checked contextWindow chunks chunkBatch leader = .ok call) {i : Nat} :
    i ∈ call.members ↔ ∃ chunk, InBatch chunks chunkBatch leader.2 i chunk := by
  obtain ⟨window, -, rfl⟩ := batchCall_eq_ok_iff.mp called
  simp only [ExtractionCall.make, mem_range'_1, InBatch]
  constructor
  · intro bounds
    have inside : i < chunks.length := by omega
    exact ⟨chunks[i], by omega, List.getElem?_eq_getElem inside⟩
  · intro member
    obtain ⟨chunk, bounds, here⟩ := member
    have inside := (List.getElem?_eq_some_iff.mp here).1
    omega

theorem leader_eq {leader i : Nat} {chunk : StoredChunk} (multiple : chunkBatch ∣ leader)
    (here : InBatch chunks chunkBatch leader i chunk) : leader = i / chunkBatch * chunkBatch := by
  obtain ⟨number, rfl⟩ := multiple
  obtain ⟨⟨low, high⟩, -⟩ := here
  have quotient : i / chunkBatch = number := by
    refine Nat.div_eq_of_lt_le ?_ ?_
    · rwa [Nat.mul_comm]
    · rwa [Nat.succ_mul, Nat.mul_comm]
  rw [quotient, Nat.mul_comm]

theorem eq_of_inBatch (positive : 0 < chunkBatch) {leader other : StoredChunk × Nat} {i : Nat}
    {chunk chunk' : StoredChunk} (first : leader ∈ batchLeaders chunks chunkBatch)
    (second : other ∈ batchLeaders chunks chunkBatch)
    (here : InBatch chunks chunkBatch leader.2 i chunk)
    (there : InBatch chunks chunkBatch other.2 i chunk') : leader = other := by
  obtain ⟨found, multiple⟩ := (mem_batchLeaders positive).mp first
  obtain ⟨found', multiple'⟩ := (mem_batchLeaders positive).mp second
  have position : leader.2 = other.2 :=
    (leader_eq multiple here).trans (leader_eq multiple' there).symm
  refine Prod.ext ?_ position
  rw [← position] at found'
  exact Option.some.inj (found.symm.trans found')

theorem exists_leader (positive : 0 < chunkBatch) {i : Nat} {chunk : StoredChunk}
    (here : chunks[i]? = some chunk) :
    ∃ leader ∈ batchLeaders chunks chunkBatch, InBatch chunks chunkBatch leader.2 i chunk := by
  have inside := (List.getElem?_eq_some_iff.mp here).1
  have low : i / chunkBatch * chunkBatch ≤ i := Nat.div_mul_le_self i chunkBatch
  have high : i < i / chunkBatch * chunkBatch + chunkBatch := Nat.lt_div_mul_add positive
  refine ⟨(chunks[i / chunkBatch * chunkBatch], i / chunkBatch * chunkBatch), ?_, ⟨low, high⟩, here⟩
  exact (mem_batchLeaders positive).mpr
    ⟨List.getElem?_eq_getElem (Nat.lt_of_le_of_lt low inside), Nat.dvd_mul_left _ _⟩

theorem countP_members (positive : 0 < chunkBatch) {calls : List ExtractionCall}
    (done : ((batchLeaders chunks chunkBatch).filter fun item => !item.1.2.skipExtraction).mapM
      (batchCall checked contextWindow chunks chunkBatch) = .ok calls)
    {leader : StoredChunk × Nat} (listed : leader ∈ batchLeaders chunks chunkBatch)
    (unflagged : leader.1.2.skipExtraction = false) {i : Nat} {chunk : StoredChunk}
    (here : InBatch chunks chunkBatch leader.2 i chunk) :
    calls.countP (fun call => call.members.contains i) = 1 := by
  have ranges : calls.map ExtractionCall.members =
      ((batchLeaders chunks chunkBatch).filter fun item => !item.1.2.skipExtraction).map fun item =>
        List.range' item.2 (min (item.2 + chunkBatch) chunks.length - item.2) := by
    refine map_results_of_mapM done fun item call called => ?_
    obtain ⟨window, -, rfl⟩ := batchCall_eq_ok_iff.mp called
    rfl
  have among : leader ∈ (batchLeaders chunks chunkBatch).filter fun item =>
      !item.1.2.skipExtraction := mem_filter.mpr ⟨listed, by rw [unflagged]; rfl⟩
  have distinct := ((nodup_batchLeaders chunks positive).of_map _).filter fun item =>
    !item.1.2.skipExtraction
  have members : calls.countP (fun call => call.members.contains i) =
      (calls.map ExtractionCall.members).countP fun range => range.contains i := by
    rw [countP_map]
    rfl
  rw [members, ranges, countP_map]
  refine (countP_congr fun item member => ?_).trans (count_eq_one_of_mem distinct among)
  rw [Function.comp_apply, contains_iff_mem, mem_range'_1, beq_iff_eq]
  constructor
  · intro bounds
    have inside : InBatch chunks chunkBatch item.2 i chunk := ⟨by omega, here.2⟩
    exact eq_of_inBatch positive (mem_filter.mp member).1 listed inside here
  · intro same
    have inside := (List.getElem?_eq_some_iff.mp here.2).1
    have bounds := here.1
    rw [same]
    omega

theorem batchAgrees_of_coversOnce (few : chunks.length < 2 ^ 63) (positive : 0 < chunkBatch)
    {calls : List ExtractionCall}
    (done : ((batchLeaders chunks chunkBatch).filter fun item => !item.1.2.skipExtraction).mapM
      (batchCall checked contextWindow chunks chunkBatch) = .ok calls)
    (covers : CoversOnce chunks calls) {leader : StoredChunk × Nat}
    (listed : leader ∈ batchLeaders chunks chunkBatch) :
    BatchAgrees contextWindow chunkBatch chunks leader := by
  have found := ((mem_batchLeaders positive).mp listed).1
  have inside := (List.getElem?_eq_some_iff.mp found).1
  have called (unflagged : leader.1.2.skipExtraction = false) :
      ∃ call ∈ calls, batchCall checked contextWindow chunks chunkBatch leader = .ok call :=
    exists_result_of_mapM done (mem_filter.mpr ⟨listed, by rw [unflagged]; rfl⟩)
  have flags : ∀ i chunk, InBatch chunks chunkBatch leader.2 i chunk →
      chunk.2.skipExtraction = leader.1.2.skipExtraction := by
    intro i chunk here
    cases unflagged : leader.1.2.skipExtraction with
    | false =>
      obtain ⟨call, member, worked⟩ := called unflagged
      by_contra flagged
      rw [Bool.not_eq_false] at flagged
      exact covers.skipped i chunk here.2 flagged call member
        ((mem_members_iff worked).mpr ⟨chunk, here⟩)
    | true =>
      -- A chunk that is not to be skipped has a call, whose batch is this one.
      by_contra kept
      rw [Bool.not_eq_true] at kept
      have once := (covers.once i chunk here.2 kept).1
      obtain ⟨call, member, has⟩ := countP_pos_iff.mp (once ▸ Nat.one_pos)
      obtain ⟨other, among, worked⟩ := exists_item_of_mapM done member
      obtain ⟨listed', unflagged'⟩ := mem_filter.mp among
      obtain ⟨chunk', there⟩ := (mem_members_iff worked).mp (contains_iff_mem.mp has)
      rw [← eq_of_inBatch positive listed listed' here there, unflagged] at unflagged'
      cases unflagged'
  have window (unflagged : leader.1.2.skipExtraction = false) :
      ∃ window, batchWindow checked contextWindow chunks chunkBatch leader = .ok window ∧
        ∀ i chunk, InBatch chunks chunkBatch leader.2 i chunk → i ∈ window.map Prod.snd := by
    obtain ⟨call, member, worked⟩ := called unflagged
    obtain ⟨window, computed, rfl⟩ := batchCall_eq_ok_iff.mp worked
    refine ⟨window, computed, fun i chunk here => ?_⟩
    exact (covers.once i chunk here.2 ((flags i chunk here).trans unflagged)).2 _ member
      ((mem_members_iff worked).mpr ⟨chunk, here⟩)
  have fits (unflagged : leader.1.2.skipExtraction = false)
      (context : 0 < contextWindow ∨ 1 < chunkBatch) :
      min (leader.2 + chunkBatch) chunks.length + contextWindow.toNat < 2 ^ 64 := by
    by_contra overflows
    obtain ⟨window, computed, sent⟩ := window unflagged
    have last : min (leader.2 + chunkBatch) chunks.length - 1 < chunks.length := by omega
    have early := not_mem_batchWindow few context (by omega) computed
      (sent _ _ ⟨by omega, List.getElem?_eq_getElem last⟩)
    omega
  refine ⟨flags, fun unflagged context i chunk here => ?_, fits⟩
  obtain ⟨window, computed, sent⟩ := window unflagged
  obtain ⟨again, same, -, mem⟩ := batchWindow_of_lt checked leader inside context
    (fits unflagged context) positive
  obtain rfl := Except.ok.inj (computed.symm.trans same)
  obtain ⟨-, other, there, zone⟩ := (mem i).mp (sent i chunk here)
  rw [Option.some.inj (here.2.symm.trans there)]
  exact (SectionType.sameWindowZone_iff.mp zone).2

theorem exists_batchWindow (positive : 0 < chunkBatch) {leader : StoredChunk × Nat}
    (listed : leader ∈ batchLeaders chunks chunkBatch)
    (unflagged : leader.1.2.skipExtraction = false)
    (agrees : BatchAgrees contextWindow chunkBatch chunks leader) :
    ∃ window, batchWindow checked contextWindow chunks chunkBatch leader = .ok window ∧
      ∀ i chunk, InBatch chunks chunkBatch leader.2 i chunk → i ∈ window.map Prod.snd := by
  have found := ((mem_batchLeaders positive).mp listed).1
  have inside := (List.getElem?_eq_some_iff.mp found).1
  by_cases context : 0 < contextWindow ∨ 1 < chunkBatch
  · obtain ⟨window, computed, -, mem⟩ := batchWindow_of_lt checked leader inside context
      (agrees.fits unflagged context) positive
    refine ⟨window, computed, fun i chunk here => (mem i).mpr ⟨?_, chunk, here.2, ?_⟩⟩
    · have bounds := here.1
      omega
    · have narrative := agrees.narrative unflagged context
      exact SectionType.sameWindowZone_iff.mpr
        ⟨narrative leader.2 leader.1 ⟨by omega, found⟩, narrative i chunk here⟩
  · refine ⟨[leader], by rw [batchWindow, if_neg context], fun i chunk here => ?_⟩
    have bounds := here.1
    have same : i = leader.2 := by omega
    rw [same]
    exact mem_singleton_self _

/-- **Batches.** Every chunk that is not to be skipped is extracted once, with its text, and no
other chunk is, exactly if the chunks of every batch agree. -/
theorem batchesCover_iff (checked : Bool) (contextWindow chunkBatch : UInt64)
    (few : chunks.length < 2 ^ 63) :
    (∃ calls, extractAndStoreEntitiesPub checked contextWindow chunks chunkBatch = .ok calls ∧
      CoversOnce chunks calls) ↔
    ∀ leader ∈ batchLeaders chunks (max chunkBatch.toNat 1),
      BatchAgrees contextWindow (max chunkBatch.toNat 1) chunks leader := by
  have positive : 0 < max chunkBatch.toNat 1 := by omega
  rw [extractAndStoreEntitiesPub]
  generalize max chunkBatch.toNat 1 = size at positive
  constructor
  · intro given leader listed
    obtain ⟨calls, done, covers⟩ := given
    exact batchAgrees_of_coversOnce few positive done covers listed
  · intro agrees
    have windows : ∀ leader ∈ (batchLeaders chunks size).filter fun item =>
        !item.1.2.skipExtraction, ∃ call, batchCall checked contextWindow chunks size leader =
          .ok call := by
      intro leader member
      obtain ⟨listed, unflagged⟩ := mem_filter.mp member
      obtain ⟨window, computed, -⟩ := exists_batchWindow positive listed (by simpa using unflagged)
        (agrees leader listed)
      exact ⟨_, batchCall_eq_ok_iff.mpr ⟨window, computed, rfl⟩⟩
    obtain ⟨calls, done⟩ := exists_mapM_eq_ok windows
    refine ⟨calls, done, fun call member => ?_, fun i chunk here kept => ⟨?_, ?_⟩,
      fun i chunk here flagged call member among => ?_, fun call member => ?_⟩
    · obtain ⟨leader, listed, worked⟩ := exists_item_of_mapM done member
      obtain ⟨window, computed, rfl⟩ := batchCall_eq_ok_iff.mp worked
      have found := ((mem_batchLeaders positive).mp (mem_filter.mp listed).1).1
      exact ExtractionCall.sendsWindow_make _ _ (getElem?_of_mem_batchWindow found computed)
    · obtain ⟨leader, listed, among⟩ := exists_leader positive here
      exact countP_members positive done listed
        (((agrees leader listed).flags i chunk among).symm.trans kept) among
    · intro call member among
      obtain ⟨leader, listed, worked⟩ := exists_item_of_mapM done member
      obtain ⟨chunk', inBatch⟩ := (mem_members_iff worked).mp among
      obtain ⟨listed, unflagged⟩ := mem_filter.mp listed
      obtain ⟨window, computed, rfl⟩ := batchCall_eq_ok_iff.mp worked
      obtain ⟨again, same, sent⟩ := exists_batchWindow positive listed (by simpa using unflagged)
        (agrees leader listed)
      obtain rfl := Except.ok.inj (computed.symm.trans same)
      exact sent i chunk' inBatch
    · obtain ⟨leader, listed, worked⟩ := exists_item_of_mapM done member
      obtain ⟨chunk', inBatch⟩ := (mem_members_iff worked).mp among
      obtain ⟨listed, unflagged⟩ := mem_filter.mp listed
      have flags := (agrees leader listed).flags i chunk ⟨inBatch.1, here⟩
      rw [← flags, flagged] at unflagged
      cases unflagged
    · obtain ⟨leader, listed, worked⟩ := exists_item_of_mapM done member
      have found := ((mem_batchLeaders positive).mp (mem_filter.mp listed).1).1
      have own := (mem_members_iff worked).mpr ⟨leader.1, by omega, found⟩
      refine ⟨leader.2, own, leader.1, found, ?_⟩
      obtain ⟨window, -, rfl⟩ := batchCall_eq_ok_iff.mp worked
      rfl

end

theorem twoChapters_coveredOnce :
    twoChapters.length < 2 ^ 63 ∧
      ∃ calls, extractAndStoreEntitiesPub true 0 twoChapters 2 = .ok calls ∧
        CoversOnce twoChapters calls := by
  have few : twoChapters.length < 2 ^ 63 := by decide
  refine ⟨few, (batchesCover_iff true 0 2 few).mpr fun leader listed => ⟨?_, ?_, fun _ _ => ?_⟩⟩
  · intro i chunk here
    have found := ((mem_batchLeaders (by decide)).mp listed).1
    rw [(twoChapters_narrative chunk (mem_of_getElem? here.2)).2,
      (twoChapters_narrative leader.1 (mem_of_getElem? found)).2]
  · intro _ _ i chunk here
    exact (twoChapters_narrative chunk (mem_of_getElem? here.2)).1
  · have length : twoChapters.length = 2 := rfl
    have zero : (0 : UInt64).toNat = 0 := rfl
    omega

/-- A chapter is not extracted if its batch starts with a chunk to be skipped; a chunk to be
skipped is extracted if its batch starts with a chapter. -/
theorem mixedBatch_not_coveredOnce :
    (¬ ∃ calls, extractAndStoreEntitiesPub true 0
        [bookChunk 7 "It was late." true .preface, bookChunk 8 "It rained." false .chapter] 2 =
          .ok calls ∧
      CoversOnce
        [bookChunk 7 "It was late." true .preface, bookChunk 8 "It rained." false .chapter]
        calls) ∧
    ¬ ∃ calls, extractAndStoreEntitiesPub true 0
        [bookChunk 7 "It rained." false .chapter, bookChunk 8 "Thanks." true .acknowledgements] 2 =
          .ok calls ∧
      CoversOnce
        [bookChunk 7 "It rained." false .chapter, bookChunk 8 "Thanks." true .acknowledgements]
        calls := by
  refine ⟨fun given => ?_, fun given => ?_⟩
  · obtain ⟨calls, done, covers⟩ := given
    have none : extractAndStoreEntitiesPub true 0
        [bookChunk 7 "It was late." true .preface, bookChunk 8 "It rained." false .chapter] 2 =
          .ok [] := by decide +kernel
    obtain rfl := Except.ok.inj (none.symm.trans done)
    cases (covers.once 1 _ rfl rfl).1
  · obtain ⟨calls, done, covers⟩ := given
    have both : extractAndStoreEntitiesPub true 0
        [bookChunk 7 "It rained." false .chapter, bookChunk 8 "Thanks." true .acknowledgements] 2 =
          .ok [⟨7, [0, 1], [0], "It rained.".toList⟩] := by decide +kernel
    obtain rfl := Except.ok.inj (both.symm.trans done)
    exact covers.skipped 1 _ rfl rfl _ mem_cons_self (by decide)

end KwaaiNet.Chunking
