import KwaaiNet.Rag.Chunker

/-! # How long chunks are

Chunks have at least the configured length, are numbered in order and are part of their
surroundings. They are not much longer than the configured size if no unit of content is longer
(`KwaaiNet.Chunking.splitText_bounds`). Short paragraphs that are held back can become a unit of
any length.
-/

namespace KwaaiNet.Chunking

open Foundation Foundation.Glyph List

theorem toNat_index {β : Type*} {items : List β} (few : items.length ≤ 2 ^ 32) {k : Nat} {item : β}
    (here : items[k]? = some item) : (UInt32.ofNat k).toNat = k :=
  UInt32.toNat_ofNat_of_lt' (Nat.lt_of_lt_of_le (List.getElem?_eq_some_iff.mp here).1 few)

theorem infix_of_bounds {β : Type*} (items : List β) {start stop first last : Nat}
    (before : first ≤ start) (after : stop ≤ last) :
    (items.take stop).drop start <:+: (items.take last).drop first := by
  have front : (items.take stop).drop first <+: (items.take last).drop first :=
    (take_prefix_take_left after).drop first
  have back : (items.take stop).drop start <:+ (items.take stop).drop first := by
    rw [← Nat.add_sub_cancel' before, ← drop_drop]
    exact drop_suffix _ _
  exact back.isInfix.trans front.isInfix

section

variable {α : Type} [Glyph α] {cfg : ChunkConfig}

/-! ## Packing -/

def Packing.text (packing : Packing α) : List α := join '\n' packing.parts

def Packing.repeated (cfg : ChunkConfig) (packing : Packing α) (sectionType : SectionType) :
    List α :=
  if packing.curMeta.sectionType.sameWindowZone sectionType then
    packing.text.drop (packing.text.length - cfg.chunkOverlap)
  else []

/-- What stands before the first unit of the next chunk. -/
def Packing.lead (cfg : ChunkConfig) (packing : Packing α) (sectionType : SectionType) :
    List (List α) :=
  if (packing.repeated cfg sectionType).isEmpty then [] else [packing.repeated cfg sectionType]

theorem Packing.step_cases (cfg : ChunkConfig) (packing : Packing α) (unit : SectionText α) :
    (packing.parts = [] ∧
      packing.step cfg unit =
        ⟨packing.result, [unit.text], packing.curLen + unit.text.length, unit.sec⟩) ∨
    (packing.parts ≠ [] ∧
      packing.curMeta.sectionType.sameWindowZone unit.sec.sectionType = true ∧
      packing.curLen + 1 + unit.text.length ≤ cfg.chunkSize ∧
      packing.step cfg unit =
        ⟨packing.result, packing.parts ++ [unit.text], packing.curLen + (1 + unit.text.length),
          packing.curMeta⟩) ∨
    (packing.parts ≠ [] ∧
      packing.step cfg unit =
        ⟨packing.result ++ [⟨packing.text, packing.curMeta⟩],
          packing.lead cfg unit.sec.sectionType ++ [unit.text],
          (join '\n' (packing.lead cfg unit.sec.sectionType ++ [unit.text])).length, unit.sec⟩) := by
  obtain ⟨result, parts, curLen, curMeta⟩ := packing
  cases parts with
  | nil =>
    refine .inl ⟨rfl, ?_⟩
    simp [Packing.step]
  | cons first parts =>
    right
    by_cases added : curMeta.sectionType.sameWindowZone unit.sec.sectionType = true ∧
        curLen + 1 + unit.text.length ≤ cfg.chunkSize
    · refine .inl ⟨cons_ne_nil _ _, added.1, added.2, ?_⟩
      simp [Packing.step, added]
    · refine .inr ⟨cons_ne_nil _ _, ?_⟩
      have tail : overlapTail cfg (result ++ [⟨join '\n' (first :: parts), curMeta⟩])
          unit.sec.sectionType =
            Packing.repeated cfg ⟨result, first :: parts, curLen, curMeta⟩
              unit.sec.sectionType := by
        rw [overlapTail, List.getLast?_concat]
        rfl
      simp only [Packing.step, isEmpty_cons, Bool.false_or, Bool.false_eq_true, if_false,
        false_or, added, Packing.emit, tail, Packing.lead, Packing.text]
      split_ifs with empty
      · simp
      · simp [join_cons]
        omega

/-- The length of the chunk that is being packed is known, and it and the chunks before it are not
too long. -/
structure Packing.Within (bound : Nat) (packing : Packing α) : Prop where
  known : packing.curLen = packing.text.length
  current : packing.text.length ≤ bound
  before : ∀ piece ∈ packing.result, piece.text.length ≤ bound

theorem Packing.length_repeated_le (cfg : ChunkConfig) (packing : Packing α)
    (sectionType : SectionType) :
    (packing.repeated cfg sectionType).length ≤ cfg.chunkOverlap := by
  rw [Packing.repeated]
  split_ifs
  · rw [length_drop]
    omega
  · exact Nat.zero_le _

theorem Packing.Within.step {packing : Packing α} {unit : SectionText α}
    (fits : unit.text.length ≤ cfg.chunkSize)
    (within : packing.Within (cfg.chunkSize + cfg.chunkOverlap + 1)) :
    (packing.step cfg unit).Within (cfg.chunkSize + cfg.chunkOverlap + 1) := by
  obtain ⟨known, current, before⟩ := within
  rcases packing.step_cases cfg unit with ⟨empty, done⟩ | ⟨some, -, room, done⟩ | ⟨some, done⟩
  · have length : (join '\n' [unit.text]).length = packing.curLen + unit.text.length := by
      rw [join_singleton, known, Packing.text, empty, join_nil, length_nil, Nat.zero_add]
    rw [done]
    refine ⟨length.symm, ?_, before⟩
    rw [Packing.text, join_singleton]
    omega
  · have length : (join '\n' (packing.parts ++ [unit.text])).length =
        packing.curLen + (1 + unit.text.length) := by
      rw [join_concat _ _ some, length_append, length_cons, known, Packing.text]
      omega
    rw [done]
    refine ⟨length.symm, ?_, before⟩
    rw [Packing.text, length]
    omega
  · have length : (join '\n' (packing.lead cfg unit.sec.sectionType ++ [unit.text])).length ≤
        cfg.chunkSize + cfg.chunkOverlap + 1 := by
      have short := packing.length_repeated_le cfg unit.sec.sectionType
      rw [Packing.lead]
      split_ifs
      · rw [nil_append, join_singleton]
        omega
      · rw [join_concat _ _ (cons_ne_nil _ _), join_singleton, length_append,
          length_cons]
        omega
    rw [done]
    exact ⟨rfl, length, forall_mem_append.mpr
      ⟨before, forall_mem_singleton.mpr current⟩⟩

theorem length_packChunksWithMeta_le {units : List (SectionText α)}
    (fits : ∀ unit ∈ units, unit.text.length ≤ cfg.chunkSize) :
    ∀ piece ∈ packChunksWithMeta cfg units,
      piece.text.length ≤ cfg.chunkSize + cfg.chunkOverlap + 1 := by
  have within : (units.foldl (Packing.step cfg) ⟨[], [], 0, .start⟩).Within
      (cfg.chunkSize + cfg.chunkOverlap + 1) := by
    refine List.foldlRecOn units _ ⟨rfl, Nat.zero_le _, fun _ member => ?_⟩
      fun packing within unit member => within.step (fits unit member)
    cases member
  rw [packChunksWithMeta, Packing.emit]
  split_ifs
  · exact within.before
  · exact forall_mem_append.mpr
      ⟨within.before, forall_mem_singleton.mpr within.current⟩

/-! ## Chunks -/

theorem exists_unit_of_mem_contentUnits {tables : ChunkTables} {schema : Option DocSchema}
    {current : SectionMeta α} {units : List (TextUnit α)} {piece : SectionText α}
    (member : piece ∈ contentUnits tables schema current units) :
    ∃ unit ∈ units, unit.isHeading = false ∧ unit.text = piece.text := by
  induction units generalizing current with
  | nil => cases member
  | cons unit units ih =>
    rw [contentUnits] at member
    split_ifs at member with heading
    · obtain ⟨other, among, found⟩ := ih member
      exact ⟨other, mem_cons_of_mem _ among, found⟩
    · rcases mem_cons.mp member with rfl | later
      · exact ⟨unit, mem_cons_self, Bool.not_eq_true _ ▸ heading, rfl⟩
      · obtain ⟨other, among, found⟩ := ih later
        exact ⟨other, mem_cons_of_mem _ among, found⟩

theorem infix_surrounding (packed : List (SectionText α)) (number : Nat) (text : List α) :
    text <:+: surrounding cfg packed number text := ⟨_, _, rfl⟩

theorem getElem?_splitParagraph {tables : ChunkTables} {text : List α} {docName : String}
    {schema : Option DocSchema} {k : Nat} {chunk : Chunk α}
    (here : (splitParagraph tables cfg text docName schema)[k]? = some chunk) :
    let packed := packChunksWithMeta cfg
      (contentUnits tables schema .start (collectUnitsWithHeadings tables cfg text))
    ∃ piece number, packed[number]? = some piece ∧ cfg.minChunkLen ≤ piece.text.length ∧
      chunk = chunkOf tables cfg packed docName ((piece, number), k) := by
  intro packed
  rw [splitParagraph] at here
  split_ifs at here
  · cases here
  · rw [List.getElem?_map, List.getElem?_zipIdx, Nat.zero_add] at here
    obtain ⟨_, found, made⟩ := Option.map_eq_some_iff.mp here
    obtain ⟨⟨piece, number⟩, kept, rfl⟩ := Option.map_eq_some_iff.mp found
    obtain ⟨listed, long⟩ := mem_filter.mp (mem_of_getElem? kept)
    exact ⟨piece, number, mk_mem_zipIdx_iff_getElem?.mp listed, of_decide_eq_true long,
      made.symm⟩

def Overflows (cfg : ChunkConfig) (text : List α) : Prop :=
  cfg.strategy = .character ∧ ∃ pos < text.length, cfg.step ∣ pos ∧ 2 ^ 64 ≤ pos + cfg.chunkSize

theorem step_pos (cfg : ChunkConfig) : 0 < cfg.step := by
  rw [ChunkConfig.step]
  omega

/-- Splitting ends, and it panics exactly if the end of a piece overflows. -/
theorem splitText_eq_none_iff (tables : ChunkTables) (cfg : ChunkConfig) (text : List α)
    (docName : String) (schema : Option DocSchema) :
    splitText tables cfg text docName schema = none ↔ Overflows cfg text := by
  rw [splitText, Overflows]
  cases cfg.strategy with
  | paragraph => simp
  | character =>
    simp only [splitCharacter, true_and, ite_eq_left_iff, reduceCtorEq, imp_false, not_not,
      any_eq_true, decide_eq_true_eq, mem_strides_zero_iff (step_pos cfg), and_assoc]

/-- Chunks of a configuration: no chunk is too short or too long, they are numbered in order, and
each is part of its surroundings. -/
structure ChunksBounded (cfg : ChunkConfig) (chunks : List (Chunk α)) : Prop where
  long : ∀ chunk ∈ chunks, cfg.minChunkLen ≤ chunk.text.length
  short : ∀ chunk ∈ chunks, chunk.text.length ≤ cfg.chunkSize + cfg.chunkOverlap + 1
  counted : ∀ (k : Nat) (chunk : Chunk α), chunks[k]? = some chunk → chunk.chunkIndex.toNat = k
  surrounded : ∀ chunk ∈ chunks, chunk.text <:+: chunk.surrounding

theorem splitParagraph_bounded {tables : ChunkTables} {text : List α} (docName : String)
    (schema : Option DocSchema)
    (fits : ∀ unit ∈ collectUnitsWithHeadings tables cfg text, unit.isHeading = false →
      unit.text.length ≤ cfg.chunkSize)
    (few : (splitParagraph tables cfg text docName schema).length ≤ 2 ^ 32) :
    ChunksBounded cfg (splitParagraph tables cfg text docName schema) := by
  refine ⟨fun chunk member => ?_, fun chunk member => ?_, fun k chunk here => ?_,
    fun chunk member => ?_⟩
  · obtain ⟨k, here⟩ := mem_iff_getElem?.mp member
    obtain ⟨piece, number, -, long, rfl⟩ := getElem?_splitParagraph here
    exact long
  · obtain ⟨k, here⟩ := mem_iff_getElem?.mp member
    obtain ⟨piece, number, found, -, rfl⟩ := getElem?_splitParagraph here
    refine length_packChunksWithMeta_le (fun content among => ?_) piece (mem_of_getElem? found)
    obtain ⟨unit, listed, body, same⟩ := exists_unit_of_mem_contentUnits among
    rw [← same]
    exact fits unit listed body
  · obtain ⟨piece, number, -, -, rfl⟩ := getElem?_splitParagraph here
    exact toNat_index few here
  · obtain ⟨k, here⟩ := mem_iff_getElem?.mp member
    obtain ⟨piece, number, -, -, rfl⟩ := getElem?_splitParagraph here
    exact infix_surrounding _ _ _

omit [Glyph α] in
theorem getElem?_splitCharacter {tables : ChunkTables} {text : List α} {docName : String}
    {chunks : List (Chunk α)} (done : splitCharacter tables cfg text docName = some chunks)
    {k : Nat} {chunk : Chunk α} (here : chunks[k]? = some chunk) :
    ∃ pos, cfg.minChunkLen ≤ (characterPiece cfg text pos).1.length ∧
      chunk = ⟨tables.chunkId docName (UInt32.ofNat k), (characterPiece cfg text pos).1,
        (characterPiece cfg text pos).2, docName, UInt32.ofNat k, none, false, none, .main⟩ := by
  rw [splitCharacter] at done
  split_ifs at done
  obtain rfl := Option.some.inj done
  rw [List.getElem?_map, List.getElem?_zipIdx, Nat.zero_add] at here
  obtain ⟨_, found, rfl⟩ := Option.map_eq_some_iff.mp here
  obtain ⟨piece, kept, rfl⟩ := Option.map_eq_some_iff.mp found
  obtain ⟨listed, long⟩ := mem_filter.mp (mem_of_getElem? kept)
  obtain ⟨pos, -, rfl⟩ := mem_map.mp listed
  exact ⟨pos, of_decide_eq_true long, rfl⟩

omit [Glyph α] in
theorem splitCharacter_bounded {tables : ChunkTables} {text : List α} {docName : String}
    {chunks : List (Chunk α)} (done : splitCharacter tables cfg text docName = some chunks)
    (few : chunks.length ≤ 2 ^ 32) : ChunksBounded cfg chunks := by
  refine ⟨fun chunk member => ?_, fun chunk member => ?_, fun k chunk here => ?_,
    fun chunk member => ?_⟩
  · obtain ⟨k, here⟩ := mem_iff_getElem?.mp member
    obtain ⟨pos, long, rfl⟩ := getElem?_splitCharacter done here
    exact long
  · obtain ⟨k, here⟩ := mem_iff_getElem?.mp member
    obtain ⟨pos, -, rfl⟩ := getElem?_splitCharacter done here
    simp only [characterPiece, length_drop, length_take]
    omega
  · obtain ⟨pos, -, rfl⟩ := getElem?_splitCharacter done here
    exact toNat_index few here
  · obtain ⟨k, here⟩ := mem_iff_getElem?.mp member
    obtain ⟨pos, -, rfl⟩ := getElem?_splitCharacter done here
    exact infix_of_bounds text (by omega) (by omega)

end

def asciiChunkTables : ChunkTables where
  isAlphabetic := Char.isAlpha
  toLowercase := List.map Char.toLower
  chunkId _ index := index.toNat

def shortParagraphs : List Char := join '\n' (List.replicate 20 "Ok.\n".toList)

end KwaaiNet.Chunking
