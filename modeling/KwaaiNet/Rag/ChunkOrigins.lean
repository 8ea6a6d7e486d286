import KwaaiNet.Rag.Chunker

/-! # Where the text of a chunk comes from

Splitting a text looks at its characters only: it commutes with every change of their marks
(`KwaaiNet.Chunking.splitParagraph_map`). So the characters of a document may be marked with their
positions, and the marks in the text of a chunk say which characters of the document it has.
-/

namespace KwaaiNet.Chunking

open Foundation Foundation.Glyph List

section

variable {α β : Type} (change : α → β)

def TextUnit.map (unit : TextUnit α) : TextUnit β := ⟨unit.isHeading, unit.text.map change⟩

def Collected.map (collected : Collected α) : Collected β :=
  ⟨collected.units.map (TextUnit.map change), collected.acc.map change⟩

def SectionMeta.map (current : SectionMeta α) : SectionMeta β :=
  ⟨current.name.map (List.map change), current.skip, current.note, current.sectionType⟩

def SectionText.map (piece : SectionText α) : SectionText β :=
  ⟨piece.text.map change, piece.sec.map change⟩

def Packing.map (packing : Packing α) : Packing β :=
  ⟨packing.result.map (SectionText.map change), packing.parts.map (List.map change),
    packing.curLen, packing.curMeta.map change⟩

def Chunk.map (chunk : Chunk α) : Chunk β :=
  ⟨chunk.id, chunk.text.map change, chunk.surrounding.map change, chunk.docName, chunk.chunkIndex,
    chunk.sectionName.map (List.map change), chunk.skipExtraction, chunk.sectionNote,
    chunk.sectionType⟩

end

section

variable {α β : Type} [Glyph α] [Glyph β] {change : α → β} (remark : Remark change)
  (tables : ChunkTables) (cfg : ChunkConfig)

include remark

theorem isHeading_map (para : List α) : isHeading (para.map change) = isHeading para := by
  rw [isHeading, isHeading, remark.map_char]

theorem paraKind_map (para : List α) : paraKind cfg (para.map change) = paraKind cfg para := by
  rw [paraKind, paraKind, isHeading_map remark, length_map]

theorem paragraphs_map (text : List α) :
    paragraphs (text.map change) = (paragraphs text).map (List.map change) := by
  have trimmed : (splitEmptyLines (text.map change)).map trim =
      ((splitEmptyLines text).map trim).map (List.map change) := by
    rw [remark.splitEmptyLines_map, map_map, map_map]
    exact map_congr_left fun para _ => remark.trim_map para
  rw [paragraphs, paragraphs, trimmed, filter_map]
  congr 1
  refine filter_congr fun para _ => ?_
  rw [Function.comp_apply, isEmpty_map]

omit [Glyph α] [Glyph β] remark in
theorem splitChars_map (text : List α) :
    splitChars cfg (text.map change) = (splitChars cfg text).map (List.map change) := by
  have pieces : ((strides cfg.step text.length text.length 0).map fun pos =>
      ((text.map change).drop pos).take cfg.chunkSize) =
        ((strides cfg.step text.length text.length 0).map fun pos =>
          (text.drop pos).take cfg.chunkSize).map (List.map change) := by
    rw [map_map]
    refine map_congr_left fun pos _ => ?_
    rw [Function.comp_apply, ← map_drop, ← map_take]
  rw [splitChars, splitChars, length_map, pieces, filter_map]
  congr 1
  refine filter_congr fun piece _ => ?_
  rw [Function.comp_apply, length_map]

theorem endsSentence_map (isAlphabetic : Char → Bool) (glyph : α) (text : List α) :
    endsSentence isAlphabetic (change glyph) (text.map change) =
      endsSentence isAlphabetic glyph text := by
  have white : ∀ glyph, isWhite (change glyph) = isWhite glyph := congrFun remark.isWhite_comp
  rcases text with _ | ⟨space, _ | ⟨letter, text⟩⟩
  · rfl
  · rfl
  · simp only [map_cons, endsSentence, remark.char_eq, white]

theorem sentences_map (isAlphabetic : Char → Bool) (skipped : Bool) (segment text : List α) :
    sentences isAlphabetic skipped (segment.map change) (text.map change) =
      (sentences isAlphabetic skipped segment text).map (List.map change) := by
  induction text generalizing skipped segment with
  | nil =>
    rw [map_nil, sentences, sentences, isEmpty_map]
    split_ifs <;> rfl
  | cons glyph text ih =>
    have grown : segment.map change ++ [change glyph] = (segment ++ [glyph]).map change := by
      rw [map_append, map_singleton]
    rw [map_cons, sentences, sentences, endsSentence_map remark, grown]
    split_ifs
    · exact ih false segment
    · rw [map_cons, ← ih true []]
      rfl
    · exact ih false (segment ++ [glyph])

theorem sentencePieces_map (sentence : List α) :
    sentencePieces cfg (sentence.map change) =
      (sentencePieces cfg sentence).map (List.map change) := by
  rw [sentencePieces, sentencePieces, remark.trim_map, length_map, splitChars_map]
  split_ifs <;> rfl

theorem splitSentences_map (text : List α) :
    splitSentences tables cfg (text.map change) =
      (splitSentences tables cfg text).map (List.map change) := by
  have cut := sentences_map remark tables.isAlphabetic false [] text
  rw [map_nil] at cut
  rw [splitSentences, splitSentences, cut, flatMap_map, map_flatMap]
  exact flatMap_congr fun sentence _ => sentencePieces_map remark cfg sentence

theorem flush_map (collected : Collected α) :
    (collected.map change).flush cfg = (collected.flush cfg).map change := by
  rw [Collected.flush, Collected.flush, Collected.map, isEmpty_map, length_map,
    List.getLast?_map]
  split_ifs
  · rfl
  · simp [Collected.map, TextUnit.map]
  · cases collected.units.getLast? with
    | none => rfl
    | some last => simp [Collected.map, TextUnit.map, remark.plain_eq, map_dropLast]

theorem collectedStep_map (collected : Collected α) (para : List α) :
    (collected.map change).step tables cfg (para.map change) =
      (collected.step tables cfg para).map change := by
  rw [Collected.step, Collected.step, paraKind_map remark, flush_map remark]
  cases paraKind cfg para with
  | heading | fitting => simp [Collected.map, TextUnit.map]
  | short =>
    simp only [Collected.map, isEmpty_map, map_append]
    split_ifs <;> simp [remark.plain_eq]
  | long =>
    simp [Collected.map, splitSentences_map remark, TextUnit.map, Function.comp_def]

theorem collectUnitsWithHeadings_map (text : List α) :
    collectUnitsWithHeadings tables cfg (text.map change) =
      (collectUnitsWithHeadings tables cfg text).map (TextUnit.map change) := by
  have folded :
      ((paragraphs text).map (List.map change)).foldl (Collected.step tables cfg) ⟨[], []⟩ =
      ((paragraphs text).foldl (Collected.step tables cfg) ⟨[], []⟩).map change := by
    have start : (⟨[], []⟩ : Collected β) = Collected.map change ⟨[], []⟩ := rfl
    rw [foldl_map, start]
    exact foldl_hom _ (collectedStep_map remark tables cfg)
  rw [collectUnitsWithHeadings, collectUnitsWithHeadings, paragraphs_map remark, folded,
    flush_map remark]
  rfl

theorem enter_map (schema : Option DocSchema) (current : SectionMeta α) (heading : List α) :
    (current.map change).enter tables schema (heading.map change) =
      (current.enter tables schema heading).map change := by
  cases schema with
  | none => rfl
  | some schema =>
    simp only [SectionMeta.enter, remark.map_char]
    split <;> rfl

theorem contentUnits_map (schema : Option DocSchema) (current : SectionMeta α)
    (units : List (TextUnit α)) :
    contentUnits tables schema (current.map change) (units.map (TextUnit.map change)) =
      (contentUnits tables schema current units).map (SectionText.map change) := by
  induction units generalizing current with
  | nil => rfl
  | cons unit units ih =>
    rw [map_cons, contentUnits, contentUnits, TextUnit.map]
    by_cases heading : unit.isHeading = true
    · rw [if_pos heading, if_pos heading, enter_map remark]
      exact ih _
    · rw [if_neg heading, if_neg heading, map_cons, ih]
      rfl

theorem emit_map (packing : Packing α) :
    (packing.map change).emit = packing.emit.map (SectionText.map change) := by
  rw [Packing.emit, Packing.emit, Packing.map]
  simp only [isEmpty_map, remark.join_map]
  split_ifs
  · rfl
  · rw [map_append]
    rfl

omit [Glyph α] [Glyph β] remark in
theorem overlapTail_map (result : List (SectionText α)) (sectionType : SectionType) :
    overlapTail cfg (result.map (SectionText.map change)) sectionType =
      (overlapTail cfg result sectionType).map change := by
  rw [overlapTail, overlapTail, List.getLast?_map]
  cases result.getLast? with
  | none => rfl
  | some last =>
    simp only [Option.map_some, SectionText.map, SectionMeta.map, length_map]
    split_ifs
    · rw [map_drop]
    · rfl

theorem packingStep_map (packing : Packing α) (unit : SectionText α) :
    (packing.map change).step cfg (unit.map change) = (packing.step cfg unit).map change := by
  have zone : (unit.map change).sec.sectionType = unit.sec.sectionType := rfl
  simp only [Packing.step, emit_map remark, zone, overlapTail_map]
  simp only [Packing.map, SectionText.map, SectionMeta.map, isEmpty_map, length_map]
  split_ifs <;> simp

theorem packChunksWithMeta_map (units : List (SectionText α)) :
    packChunksWithMeta cfg (units.map (SectionText.map change)) =
      (packChunksWithMeta cfg units).map (SectionText.map change) := by
  have start : (⟨[], [], 0, .start⟩ : Packing β) = Packing.map change ⟨[], [], 0, .start⟩ := rfl
  have folded : (units.map (SectionText.map change)).foldl (Packing.step cfg) ⟨[], [], 0, .start⟩ =
      (units.foldl (Packing.step cfg) ⟨[], [], 0, .start⟩).map change := by
    rw [foldl_map, start]
    exact foldl_hom _ (packingStep_map remark cfg)
  rw [packChunksWithMeta, packChunksWithMeta, folded, emit_map remark]

theorem textBefore_map (packed : List (SectionText α)) (number : Nat) :
    textBefore cfg (packed.map (SectionText.map change)) number =
      (textBefore cfg packed number).map change := by
  cases number with
  | zero => rfl
  | succ previous =>
    simp only [textBefore, List.getElem?_map]
    cases packed[previous]? with
    | none => rfl
    | some prev => cases cfg.surrMode <;> simp [SectionText.map, remark.plain_eq]

theorem textAfter_map (packed : List (SectionText α)) (number : Nat) :
    textAfter cfg (packed.map (SectionText.map change)) number =
      (textAfter cfg packed number).map change := by
  simp only [textAfter, List.getElem?_map]
  cases packed[number + 1]? with
  | none => rfl
  | some next => cases cfg.surrMode <;> simp [SectionText.map, remark.plain_eq]

theorem chunkOf_map (packed : List (SectionText α)) (docName : String) (piece : SectionText α)
    (number index : Nat) :
    chunkOf tables cfg (packed.map (SectionText.map change)) docName
        ((piece.map change, number), index) =
      (chunkOf tables cfg packed docName ((piece, number), index)).map change := by
  simp only [chunkOf, surrounding, Chunk.map, SectionText.map, textBefore_map remark,
    textAfter_map remark, map_append]
  rfl

/-- **Marks do not matter.** Splitting a text with other marks gives the same chunks with other
marks. -/
theorem splitParagraph_map (text : List α) (docName : String) (schema : Option DocSchema) :
    splitParagraph tables cfg (text.map change) docName schema =
      (splitParagraph tables cfg text docName schema).map (Chunk.map change) := by
  have start : (SectionMeta.start : SectionMeta β) = SectionMeta.map change .start := rfl
  rw [splitParagraph, splitParagraph, collectUnitsWithHeadings_map remark, isEmpty_map, start,
    contentUnits_map remark, packChunksWithMeta_map remark]
  generalize packChunksWithMeta cfg
    (contentUnits tables schema .start (collectUnitsWithHeadings tables cfg text)) = packed
  split_ifs
  · rfl
  · have kept : (packed.map (SectionText.map change)).zipIdx.filter
        (fun piece => cfg.minChunkLen ≤ piece.1.text.length) =
          (packed.zipIdx.filter fun piece => cfg.minChunkLen ≤ piece.1.text.length).map
            (Prod.map (SectionText.map change) id) := by
      rw [zipIdx_map, filter_map]
      congr 1
      refine filter_congr fun piece _ => ?_
      simp [SectionText.map]
    simp only [kept]
    rw [zipIdx_map, map_map, map_map]
    exact map_congr_left fun item _ =>
      chunkOf_map remark tables cfg packed docName item.1.1 item.1.2 item.2

end

/-! ## Positions -/

/-- The characters of a document with their positions. -/
def traced (text : List Char) : List (Char × Option Nat) :=
  text.zipIdx.map fun item => (item.1, some item.2)

theorem remark_fst : Remark (Prod.fst : Char × Option Nat → Char) := ⟨fun _ => rfl, fun _ => rfl⟩

theorem map_fst_traced (text : List Char) : (traced text).map Prod.fst = text := by
  rw [traced, map_map]
  exact zipIdx_map_fst 0 text

theorem splitParagraph_traced (tables : ChunkTables) (cfg : ChunkConfig) (text : List Char)
    (docName : String) (schema : Option DocSchema) :
    (splitParagraph tables cfg (traced text) docName schema).map (Chunk.map Prod.fst) =
      splitParagraph tables cfg text docName schema := by
  rw [← splitParagraph_map remark_fst, map_fst_traced]

theorem nodup_traced (text : List Char) : (traced text).Nodup := by
  refine List.Nodup.of_map Prod.snd ?_
  have positions : (traced text).map Prod.snd = (List.range' 0 text.length).map some := by
    rw [traced, map_map, ← zipIdx_map_snd, map_map]
    rfl
  rw [positions]
  exact List.Nodup.map (Option.some_injective Nat) (nodup_range' ..)

theorem ne_plain_of_mem_traced {text : List Char} {glyph : Char × Option Nat}
    (member : glyph ∈ traced text) (character : Char) : glyph ≠ plain character := by
  obtain ⟨item, -, rfl⟩ := mem_map.mp member
  intro same
  cases congrArg Prod.snd same

end KwaaiNet.Chunking
