import KwaaiNet.Foundation.FirstOccurrences
import KwaaiNet.Rag.ChunkSections

/-! # The order of the text in chunks

Read one after another, and without what they repeat, the chunks of a document are its body text:
they lose nothing between the units of text and the chunks
(`KwaaiNet.Chunking.sameFirsts_packChunksWithMeta`). Text is lost before that: short paragraphs
become part of a heading, or come after the text that follows them, and short sentences and short
ends of long sentences are dropped. `KwaaiNet.Chunking.bodyKept` says that this is all.

Repeated text is recognised by its position in the document, and white space does not count.
-/

namespace KwaaiNet.Chunking

open Foundation Foundation.Glyph List

section

variable {α : Type} [Glyph α] [BEq α] [LawfulBEq α] {tables : ChunkTables} {cfg : ChunkConfig}

/-! ## Packing -/

def packedText (pieces : List (SectionText α)) : List α := pieces.flatMap SectionText.text

omit [Glyph α] [BEq α] [LawfulBEq α] in
theorem packedText_concat (pieces : List (SectionText α)) (piece : SectionText α) :
    packedText (pieces ++ [piece]) = packedText pieces ++ piece.text := by
  rw [packedText, flatMap_append, flatMap_singleton]
  rfl

theorem Packing.sameFirsts_step (cfg : ChunkConfig) (packing : Packing α)
    (unit : SectionText α) :
    SameFirsts (solid (packedText (packing.step cfg unit).result ++ (packing.step cfg unit).text))
      (solid (packedText packing.result ++ packing.text) ++ solid unit.text) := by
  rcases packing.step_cases cfg unit with ⟨empty, done⟩ | ⟨some, -, -, done⟩ | ⟨some, done⟩
  · rw [done, Packing.text, Packing.text, empty, join_singleton, join_nil, append_nil,
      solid_append]
    exact .refl _
  · rw [done, Packing.text, join_concat _ _ some, ← append_assoc, solid_append, solid_lineFeed]
    exact .refl _
  · have lead : SameFirsts
        (solid (packedText packing.result ++ packing.text) ++
          solid (packing.lead cfg unit.sec.sectionType).flatten)
        (solid (packedText packing.result ++ packing.text)) := by
      refine .absorb (solid_subset fun glyph member => mem_append_right _ ?_)
      obtain ⟨part, listed, inside⟩ := mem_flatten.mp member
      rw [Packing.lead] at listed
      split_ifs at listed
      · cases listed
      · rw [mem_singleton.mp listed] at inside
        exact (Packing.mem_of_mem_repeated inside).1
    have text : solid (join '\n' (packing.lead cfg unit.sec.sectionType ++ [unit.text])) =
        solid (packing.lead cfg unit.sec.sectionType).flatten ++ solid unit.text := by
      rw [solid_join, flatten_append, solid_append, flatten_singleton]
    have both := lead.append (.refl (solid unit.text))
    rw [append_assoc, ← text] at both
    rw [done, packedText_concat, solid_append]
    exact both

/-- **Packing.** Packed chunks have the text of the units, with repetitions. -/
theorem sameFirsts_packChunksWithMeta (units : List (SectionText α)) :
    SameFirsts (solid (packedText (packChunksWithMeta cfg units))) (solid (packedText units)) := by
  have run : ∀ (units : List (SectionText α)) (packing : Packing α),
      SameFirsts
        (solid (packedText (units.foldl (Packing.step cfg) packing).result ++
          (units.foldl (Packing.step cfg) packing).text))
        (solid (packedText packing.result ++ packing.text) ++ solid (packedText units)) := by
    intro units
    induction units with
    | nil =>
      intro packing
      have none : packedText ([] : List (SectionText α)) = [] := rfl
      rw [none, solid_nil, append_nil]
      exact .refl _
    | cons unit units ih =>
      intro packing
      have split : solid (packedText (unit :: units)) =
          solid unit.text ++ solid (packedText units) := solid_append _ _
      have next := (packing.sameFirsts_step cfg unit).append (.refl (solid (packedText units)))
      rw [split, ← append_assoc]
      exact (ih _).trans next
  have emitted (packing : Packing α) :
      solid (packedText packing.emit) = solid (packedText packing.result ++ packing.text) := by
    rw [Packing.emit]
    split_ifs with empty
    · rw [Packing.text, isEmpty_iff.mp empty, join_nil, append_nil]
    · rw [packedText_concat]
      rfl
  have whole := run units ⟨[], [], 0, .start⟩
  rw [packChunksWithMeta, emitted]
  simpa [packedText, Packing.text] using whole

/-! ## Long paragraphs -/

omit [BEq α] [LawfulBEq α] in
theorem solid_sentences {isAlphabetic : Char → Bool} {skipped : Bool} (segment : List α)
    {text : List α} (white : skipped = true → ∃ space rest, text = space :: rest ∧
      isWhite space = true) :
    solid (sentences isAlphabetic skipped segment text).flatten = solid (segment ++ text) := by
  induction text generalizing skipped segment with
  | nil =>
    rw [sentences, append_nil]
    split_ifs with empty
    · rw [isEmpty_iff.mp empty]
      rfl
    · rw [flatten_singleton]
  | cons glyph text ih =>
    have shifted : segment ++ [glyph] ++ text = segment ++ glyph :: text := by
      rw [append_assoc, singleton_append]
    have unskipped (segment : List α) : solid (sentences isAlphabetic false segment text).flatten =
        solid (segment ++ text) := ih segment fun impossible => absurd impossible Bool.false_ne_true
    rw [sentences]
    split_ifs with skip ends
    · obtain ⟨space, rest, same, blank⟩ := white skip
      obtain ⟨rfl, rfl⟩ := List.cons.inj same
      rw [unskipped, solid_append, solid_append, solid_cons_of_white blank]
    · have next : ∃ space rest, text = space :: rest ∧ isWhite space = true := by
        rcases text with _ | ⟨space, _ | ⟨letter, rest⟩⟩
        · cases ends
        · cases ends
        · rw [endsSentence, Bool.and_eq_true, Bool.and_eq_true] at ends
          exact ⟨space, letter :: rest, rfl, ends.1.2⟩
      rw [flatten_cons, solid_append, ih [] fun _ => next, nil_append, ← solid_append,
        shifted]
    · rw [unskipped, shifted]

/-- In a text of a length, the first piece that reaches the end is long enough. -/
def PiecesKept (cfg : ChunkConfig) (length : Nat) : Prop :=
  ∀ pos, cfg.step ∣ pos → length ≤ pos + cfg.chunkSize →
    pos + cfg.chunkSize < length + cfg.step → cfg.minChunkLen ≤ length - pos

theorem piecesKept_of_overlap (ordered : cfg.minChunkLen ≤ cfg.chunkSize)
    (overlap : cfg.minChunkLen ≤ cfg.chunkOverlap + 1) (length : Nat) : PiecesKept cfg length := by
  intro pos _ _ first
  rw [ChunkConfig.step] at first
  omega

omit [Glyph α] [BEq α] [LawfulBEq α] in
theorem take_append_piece (text : List α) (size : Nat) {pos covered : Nat} (reached : pos ≤ covered)
    (inside : covered ≤ pos + size) :
    ∃ known new, (text.drop pos).take size = known ++ new ∧ known ⊆ text.take covered ∧
      text.take (pos + size) = text.take covered ++ new := by
  refine ⟨(text.drop pos).take (covered - pos), (text.drop covered).take (pos + size - covered),
    ?_, ?_, ?_⟩
  · have total : size = (covered - pos) + (pos + size - covered) := by omega
    have start : covered = pos + (covered - pos) := by omega
    conv_lhs => rw [total, take_add, drop_drop, ← start]
  · rw [← drop_take]
    exact drop_subset _ _
  · have total : pos + size = covered + (pos + size - covered) := by omega
    conv_lhs => rw [total, take_add]

def piecesFrom (cfg : ChunkConfig) (text : List α) (fuel pos : Nat) : List (List α) :=
  ((strides cfg.step text.length fuel pos).map fun pos =>
    (text.drop pos).take cfg.chunkSize).filter fun piece => cfg.minChunkLen ≤ piece.length

omit [Glyph α] [BEq α] [LawfulBEq α] in
theorem flatten_piecesFrom_subset (text : List α) (fuel pos : Nat) :
    (piecesFrom cfg text fuel pos).flatten ⊆ text := by
  intro glyph member
  obtain ⟨piece, listed, inside⟩ := mem_flatten.mp member
  obtain ⟨start, -, rfl⟩ := mem_map.mp (mem_filter.mp listed).1
  exact mem_of_mem_drop (mem_of_mem_take inside)

omit [Glyph α] [BEq α] [LawfulBEq α] in
theorem piecesFrom_succ {text : List α} {pos : Nat} (inside : pos < text.length)
    (long : cfg.minChunkLen ≤ ((text.drop pos).take cfg.chunkSize).length) (fuel : Nat) :
    piecesFrom cfg text (fuel + 1) pos =
      (text.drop pos).take cfg.chunkSize :: piecesFrom cfg text fuel (pos + cfg.step) := by
  rw [piecesFrom, strides, if_pos inside, map_cons, filter_cons,
    if_pos (decide_eq_true long)]
  rfl

/-- If the text up to `covered` is there, the pieces from `pos` on add the rest. -/
theorem sameFirsts_piecesFrom (ordered : cfg.minChunkLen ≤ cfg.chunkSize)
    (positive : 0 < cfg.chunkSize) {text : List α} (long : cfg.chunkSize < text.length)
    (kept : PiecesKept cfg text.length) {fuel pos covered : Nat} (enough : text.length ≤ pos + fuel)
    (multiple : cfg.step ∣ pos) (reached : pos ≤ covered)
    (last : pos = 0 ∧ covered = 0 ∨ covered + cfg.step = pos + cfg.chunkSize) :
    SameFirsts (solid (text.take covered) ++ solid (piecesFrom cfg text fuel pos).flatten)
      (solid text) := by
  have advance := step_pos cfg
  have step : cfg.step ≤ cfg.chunkSize := by
    rw [ChunkConfig.step]
    omega
  induction fuel generalizing pos covered with
  | zero =>
    have none : (piecesFrom cfg text 0 pos).flatten = [] := rfl
    rw [none, solid_nil, append_nil, take_of_length_le (by omega)]
    exact .refl _
  | succ fuel ih =>
    by_cases complete : text.length ≤ covered
    · rw [take_of_length_le complete]
      exact .absorb (solid_subset (flatten_piecesFrom_subset _ _ _))
    · have length : cfg.minChunkLen ≤ ((text.drop pos).take cfg.chunkSize).length := by
        rw [length_take, length_drop]
        by_cases full : pos + cfg.chunkSize < text.length
        · omega
        · have enough := kept pos multiple (by omega) (by omega)
          omega
      obtain ⟨known, new, split, before, next⟩ :=
        take_append_piece text cfg.chunkSize reached (by omega)
      have later : SameFirsts (solid (text.take (pos + cfg.chunkSize)) ++
          solid (piecesFrom cfg text fuel (pos + cfg.step)).flatten) (solid text) :=
        ih (by omega) (Nat.dvd_add multiple (dvd_refl _)) (by omega) (.inr (by omega))
      rw [next, solid_append, append_assoc] at later
      refine SameFirsts.trans ?_ later
      rw [piecesFrom_succ (by omega) length, flatten_cons, solid_append, split, solid_append,
        append_assoc, ← append_assoc]
      exact (SameFirsts.absorb (solid_subset before)).append (.refl _)

/-- **Pieces.** The pieces of a long text have all of it, with repetitions. -/
theorem sameFirsts_splitChars (ordered : cfg.minChunkLen ≤ cfg.chunkSize)
    (positive : 0 < cfg.chunkSize) {text : List α} (long : cfg.chunkSize < text.length)
    (kept : PiecesKept cfg text.length) :
    SameFirsts (solid (splitChars cfg text).flatten) (solid text) := by
  have enough : text.length ≤ 0 + text.length := by omega
  have whole := sameFirsts_piecesFrom ordered positive long kept enough (Nat.dvd_zero _) le_rfl
    (.inl ⟨rfl, rfl⟩)
  rwa [take_zero, solid_nil, nil_append] at whole

/-- A sentence is not dropped, nor is the end of a long one. -/
def SentenceKept (cfg : ChunkConfig) (length : Nat) : Prop :=
  if cfg.chunkSize < length then 0 < cfg.chunkSize ∧ PiecesKept cfg length
  else cfg.minChunkLen ≤ length

def LongTextKept (tables : ChunkTables) (cfg : ChunkConfig) (paras : List (List α)) : Prop :=
  ∀ para ∈ paras, paraKind cfg para = .long →
    ∀ sentence ∈ sentences tables.isAlphabetic false [] para,
      SentenceKept cfg (trim sentence).length

omit [BEq α] [LawfulBEq α] in
theorem longTextKept_of_overlap (ordered : cfg.minChunkLen ≤ cfg.chunkSize)
    (positive : 0 < cfg.chunkSize) (overlap : cfg.minChunkLen ≤ cfg.chunkOverlap + 1)
    {paras : List (List α)}
    (enough : ∀ para ∈ paras, paraKind cfg para = .long →
      ∀ sentence ∈ sentences tables.isAlphabetic false [] para,
        cfg.minChunkLen ≤ (trim sentence).length) :
    LongTextKept tables cfg paras := by
  intro para member long sentence among
  rw [SentenceKept]
  split_ifs
  · exact ⟨positive, piecesKept_of_overlap ordered overlap _⟩
  · exact enough para member long sentence among

theorem sameFirsts_sentencePieces (ordered : cfg.minChunkLen ≤ cfg.chunkSize) {sentence : List α}
    (kept : SentenceKept cfg (trim sentence).length) :
    SameFirsts (solid (sentencePieces cfg sentence).flatten) (solid sentence) := by
  rw [SentenceKept] at kept
  rw [sentencePieces, ← solid_trim sentence]
  split_ifs at kept ⊢ with long
  · exact sameFirsts_splitChars ordered kept.1 long kept.2
  · rw [flatten_singleton]
    exact .refl _

theorem sameFirsts_splitSentences (ordered : cfg.minChunkLen ≤ cfg.chunkSize) {para : List α}
    (kept : ∀ sentence ∈ sentences tables.isAlphabetic false [] para,
      SentenceKept cfg (trim sentence).length) :
    SameFirsts (solid (splitSentences tables cfg para).flatten) (solid para) := by
  have each : ∀ segments : List (List α),
      (∀ sentence ∈ segments, SentenceKept cfg (trim sentence).length) →
      SameFirsts (solid (segments.flatMap (sentencePieces cfg)).flatten)
        (solid segments.flatten) := by
    intro segments
    induction segments with
    | nil => exact fun _ => .refl _
    | cons sentence segments ih =>
      intro kept
      obtain ⟨first, rest⟩ := forall_mem_cons.mp kept
      rw [flatMap_cons, flatten_append, solid_append, flatten_cons, solid_append]
      exact (sameFirsts_sentencePieces ordered first).append (ih rest)
  have whole := each _ kept
  rwa [solid_sentences [] fun impossible => absurd impossible Bool.false_ne_true,
    nil_append] at whole

/-! ## Paragraphs -/

def contentText (units : List (TextUnit α)) : List α :=
  (units.filter fun unit => !unit.isHeading).flatMap TextUnit.text

omit [Glyph α] [BEq α] [LawfulBEq α] in
theorem contentText_append (first second : List (TextUnit α)) :
    contentText (first ++ second) = contentText first ++ contentText second := by
  rw [contentText, filter_append, flatMap_append]
  rfl

omit [Glyph α] [BEq α] [LawfulBEq α] in
theorem contentText_content (pieces : List (List α)) :
    contentText (pieces.map fun piece => ⟨false, piece⟩) = pieces.flatten := by
  induction pieces with
  | nil => rfl
  | cons piece pieces ih => exact congrArg (piece ++ ·) ih

omit [BEq α] [LawfulBEq α] in
theorem solid_contentText_flush {collected : Collected α} (keeps : collected.KeepsText cfg) :
    solid (contentText (collected.flush cfg).units) =
      solid (contentText collected.units ++ collected.acc) := by
  have single (text : List α) : contentText [⟨false, text⟩] = text := append_nil text
  rcases Collected.flush_cases keeps with ⟨empty, done⟩ | done | ⟨front, last, before, done⟩
  · rw [done, empty, append_nil]
  · rw [done, contentText_append, single]
  · rw [done, before]
    simp only [contentText_append, single, solid_append, solid_lineFeed, append_assoc]

theorem Collected.sameFirsts_step (ordered : cfg.minChunkLen ≤ cfg.chunkSize)
    {collected : Collected α} {para : List α}
    (keeps : paraKind cfg para = .short ∨ collected.KeepsText cfg)
    (long : paraKind cfg para = .long → ∀ sentence ∈ sentences tables.isAlphabetic false [] para,
      SentenceKept cfg (trim sentence).length) :
    SameFirsts
      (solid (contentText (collected.step tables cfg para).units ++
        (collected.step tables cfg para).acc))
      (solid (contentText collected.units ++ collected.acc) ++
        solid (contentText [⟨isHeading para, para⟩])) := by
  have rule : isHeading para = decide (paraKind cfg para = .heading) := isHeading_eq_of_paraKind
  have body (other : isHeading para = false) : contentText [⟨isHeading para, para⟩] = para := by
    rw [other]
    exact append_nil para
  rw [Collected.step]
  cases kind : paraKind cfg para with
  | heading =>
    rw [kind] at keeps rule
    have kept := keeps.resolve_left ParaKind.noConfusion
    have none : contentText [⟨isHeading para, para⟩] = [] := by
      rw [rule]
      rfl
    have unchanged : contentText [(⟨true, para⟩ : TextUnit α)] = [] := rfl
    simp only [contentText_append, unchanged, Collected.acc_flush kept, none,
      append_nil, solid_nil, solid_contentText_flush kept]
    exact .refl _
  | short =>
    rw [kind] at rule
    rw [body rule]
    simp only
    split_ifs with empty
    · rw [isEmpty_iff.mp empty, nil_append, append_nil, solid_append]
      exact .refl _
    · have blank : solid [(plain '\n' : α)] = [] := solid_lineFeed []
      simp only [solid_append, blank, append_assoc]
      exact .refl _
  | fitting =>
    rw [kind] at keeps rule
    have kept := keeps.resolve_left ParaKind.noConfusion
    have added : contentText [(⟨false, para⟩ : TextUnit α)] = para := append_nil para
    simp only [contentText_append, added, Collected.acc_flush kept, append_nil,
      solid_append, body rule]
    rw [solid_contentText_flush kept, solid_append]
    exact .refl _
  | long =>
    rw [kind] at keeps rule
    have kept := keeps.resolve_left ParaKind.noConfusion
    simp only [contentText_append, contentText_content, Collected.acc_flush kept,
      append_nil, solid_append, body rule]
    rw [solid_contentText_flush kept, solid_append]
    exact (SameFirsts.refl _).append (sameFirsts_splitSentences ordered (long kind))

/-- **Paragraphs.** If neither short nor long paragraphs lose text, the units of content have the
text of the paragraphs, with repetitions. -/
theorem sameFirsts_collectUnitsWithHeadings (ordered : cfg.minChunkLen ≤ cfg.chunkSize)
    {text : List α} (kept : ShortTextKept tables cfg (paragraphs text))
    (long : LongTextKept tables cfg (paragraphs text)) :
    SameFirsts (solid (contentText (collectUnitsWithHeadings tables cfg text)))
      (solid (contentText (paraUnits (paragraphs text)))) := by
  have run : ∀ (paras : List (List α)) (collected : Collected α), LongTextKept tables cfg paras →
      Meets (Collected.step tables cfg)
        (fun collected para => paraKind cfg para = .short ∨ collected.KeepsText cfg) collected
        paras →
      SameFirsts
        (solid (contentText (paras.foldl (Collected.step tables cfg) collected).units ++
          (paras.foldl (Collected.step tables cfg) collected).acc))
        (solid (contentText collected.units ++ collected.acc) ++
          solid (contentText (paraUnits paras))) := by
    intro paras
    induction paras with
    | nil =>
      intro collected _ _
      have none : contentText (paraUnits ([] : List (List α))) = [] := rfl
      rw [none, solid_nil, append_nil]
      exact .refl _
    | cons para paras ih =>
      intro collected long meets
      obtain ⟨first, rest⟩ := forall_mem_cons.mp long
      have split : solid (contentText (paraUnits (para :: paras))) =
          solid (contentText [⟨isHeading para, para⟩]) ++ solid (contentText (paraUnits paras)) := by
        rw [← solid_append, ← contentText_append]
        rfl
      have next := (Collected.sameFirsts_step ordered meets.1 first).append
        (.refl (solid (contentText (paraUnits paras))))
      rw [split, ← append_assoc]
      exact (ih _ rest meets.2).trans next
  have whole := run (paragraphs text) ⟨[], []⟩ long kept.1
  rw [collectUnitsWithHeadings, solid_contentText_flush kept.2]
  exact whole

/-! ## Headings -/

def headings (units : List (TextUnit α)) : List (List α) :=
  (units.filter TextUnit.isHeading).map TextUnit.text

omit [Glyph α] [BEq α] [LawfulBEq α] in
theorem headings_append (first second : List (TextUnit α)) :
    headings (first ++ second) = headings first ++ headings second := by
  rw [headings, filter_append, map_append]
  rfl

omit [Glyph α] [BEq α] [LawfulBEq α] in
theorem headings_content (pieces : List (List α)) :
    headings (pieces.map fun piece => ⟨false, piece⟩) = [] := by
  induction pieces with
  | nil => rfl
  | cons piece pieces ih => exact ih

omit [BEq α] [LawfulBEq α] in
theorem headings_flush {collected : Collected α} (keeps : collected.KeepsText cfg) :
    headings (collected.flush cfg).units = headings collected.units := by
  rcases Collected.flush_cases keeps with ⟨-, done⟩ | done | ⟨front, last, before, done⟩
  · rw [done]
  · rw [done, headings_append]
    exact append_nil _
  · rw [done, before, headings_append, headings_append]
    rfl

omit [BEq α] [LawfulBEq α] in
theorem headings_step {collected : Collected α} {para : List α}
    (keeps : paraKind cfg para = .short ∨ collected.KeepsText cfg) :
    headings (collected.step tables cfg para).units =
      headings collected.units ++ headings [⟨isHeading para, para⟩] := by
  have rule : isHeading para = decide (paraKind cfg para = .heading) := isHeading_eq_of_paraKind
  rw [Collected.step, rule]
  cases kind : paraKind cfg para with
  | heading =>
    rw [kind] at keeps
    simp only [headings_append, headings_flush (keeps.resolve_left ParaKind.noConfusion)]
    rfl
  | short => exact (append_nil _).symm
  | fitting =>
    rw [kind] at keeps
    simp only [headings_append, headings_flush (keeps.resolve_left ParaKind.noConfusion)]
    rfl
  | long =>
    rw [kind] at keeps
    simp only [headings_append, headings_flush (keeps.resolve_left ParaKind.noConfusion),
      headings_content]
    rfl

omit [BEq α] [LawfulBEq α] in
theorem headings_collectUnitsWithHeadings {text : List α}
    (kept : ShortTextKept tables cfg (paragraphs text)) :
    headings (collectUnitsWithHeadings tables cfg text) =
      headings (paraUnits (paragraphs text)) := by
  have run : ∀ (paras : List (List α)) (collected : Collected α),
      Meets (Collected.step tables cfg)
        (fun collected para => paraKind cfg para = .short ∨ collected.KeepsText cfg) collected
        paras →
      headings (paras.foldl (Collected.step tables cfg) collected).units =
        headings collected.units ++ headings (paraUnits paras) := by
    intro paras
    induction paras with
    | nil => exact fun collected _ => (append_nil _).symm
    | cons para paras ih =>
      intro collected meets
      rw [foldl_cons, ih _ meets.2, headings_step meets.1, append_assoc,
        ← headings_append]
      rfl
  rw [collectUnitsWithHeadings, headings_flush kept.2, run _ _ kept.1]
  rfl

/-! ## No chunk is dropped -/

omit [BEq α] [LawfulBEq α] in
theorem length_le_of_mem_splitSentences {text piece : List α}
    (member : piece ∈ splitSentences tables cfg text) : cfg.minChunkLen ≤ piece.length := by
  obtain ⟨sentence, -, part⟩ := mem_flatMap.mp member
  rw [sentencePieces] at part
  split_ifs at part with long enough
  · exact of_decide_eq_true (mem_filter.mp part).2
  · rw [mem_singleton.mp part]
    exact enough
  · cases part

/-- The units of content found so far are long enough. -/
def Collected.Long (cfg : ChunkConfig) (collected : Collected α) : Prop :=
  ∀ unit ∈ collected.units, unit.isHeading = false → cfg.minChunkLen ≤ unit.text.length

omit [BEq α] [LawfulBEq α] in
theorem Collected.Long.flush {collected : Collected α} (long : collected.Long cfg) :
    (collected.flush cfg).Long cfg := by
  rw [Collected.flush]
  split_ifs with empty enough
  · exact long
  · exact forall_mem_append.mpr ⟨long, forall_mem_singleton.mpr fun _ => enough⟩
  · cases final : collected.units.getLast? with
    | none => exact long
    | some last =>
      obtain ⟨front, units⟩ := List.getLast?_eq_some_iff.mp final
      rw [Collected.Long, units, forall_mem_append, forall_mem_singleton] at long
      rw [Collected.Long]
      simp only [units, dropLast_concat, forall_mem_append, forall_mem_singleton,
        length_append]
      exact ⟨long.1, fun body => (long.2 body).trans (Nat.le_add_right _ _)⟩

omit [BEq α] [LawfulBEq α] in
theorem Collected.Long.step {collected : Collected α} (long : collected.Long cfg)
    (para : List α) : (collected.step tables cfg para).Long cfg := by
  have flushed := long.flush
  rw [Collected.step]
  cases kind : paraKind cfg para with
  | heading =>
    refine forall_mem_append.mpr ⟨flushed, forall_mem_singleton.mpr fun body => ?_⟩
    cases body
  | short => exact long
  | fitting =>
    refine forall_mem_append.mpr ⟨flushed, forall_mem_singleton.mpr fun _ => ?_⟩
    rw [paraKind] at kind
    split_ifs at kind with heading fits short
    exact Nat.le_of_not_lt short
  | long =>
    refine forall_mem_append.mpr ⟨flushed, fun unit member _ => ?_⟩
    obtain ⟨piece, listed, rfl⟩ := mem_map.mp member
    exact length_le_of_mem_splitSentences listed

omit [BEq α] [LawfulBEq α] in
theorem Packing.emit_of_ne_nil {packing : Packing α} (some : packing.parts ≠ []) :
    packing.emit = packing.result ++ [⟨packing.text, packing.curMeta⟩] :=
  if_neg (by simpa using some)

omit [BEq α] [LawfulBEq α] in
theorem length_packChunksWithMeta_ge {units : List (SectionText α)} {bound : Nat}
    (long : ∀ unit ∈ units, bound ≤ unit.text.length) :
    ∀ piece ∈ packChunksWithMeta cfg units, bound ≤ piece.text.length := by
  refine List.foldlRecOn (motive := fun packing : Packing α =>
    ∀ piece ∈ packing.emit, bound ≤ piece.text.length) units _ (fun piece member => ?_) ?_
  · cases member
  intro packing before unit member
  have enough (lines : List (List α)) : bound ≤ (join '\n' (lines ++ [unit.text])).length :=
    (long unit member).trans (length_le_join_concat _ _ _)
  rcases packing.step_cases cfg unit with ⟨empty, done⟩ | ⟨some, -, -, done⟩ | ⟨some, done⟩
  · rw [Packing.emit, if_pos (isEmpty_iff.mpr empty)] at before
    rw [done]
    exact forall_mem_append.mpr ⟨before, forall_mem_singleton.mpr (enough [])⟩
  · rw [Packing.emit_of_ne_nil some, forall_mem_append] at before
    rw [done, Packing.emit_of_ne_nil (by simp)]
    exact forall_mem_append.mpr ⟨before.1, forall_mem_singleton.mpr (enough _)⟩
  · rw [Packing.emit_of_ne_nil some] at before
    rw [done, Packing.emit_of_ne_nil (by simp)]
    exact forall_mem_append.mpr ⟨before, forall_mem_singleton.mpr (enough _)⟩

omit [BEq α] [LawfulBEq α] in
theorem map_text_splitParagraph (text : List α) (docName : String) (schema : Option DocSchema) :
    (splitParagraph tables cfg text docName schema).map Chunk.text =
      (packChunksWithMeta cfg (contentUnits tables schema .start
        (collectUnitsWithHeadings tables cfg text))).map SectionText.text := by
  have units : Collected.Long cfg
      (((paragraphs text).foldl (Collected.step tables cfg) ⟨[], []⟩).flush cfg) := by
    refine Collected.Long.flush (List.foldlRecOn _ _ (fun unit member => ?_)
      fun collected long para _ => long.step para)
    cases member
  have long : ∀ piece ∈ packChunksWithMeta cfg (contentUnits tables schema .start
      (collectUnitsWithHeadings tables cfg text)), cfg.minChunkLen ≤ piece.text.length := by
    refine length_packChunksWithMeta_ge fun content member => ?_
    obtain ⟨unit, listed, body, same⟩ := exists_unit_of_mem_contentUnits member
    rw [← same]
    exact units unit listed body
  rw [splitParagraph]
  split_ifs with empty
  · rw [isEmpty_iff.mp empty]
    rfl
  · generalize packChunksWithMeta cfg (contentUnits tables schema .start
      (collectUnitsWithHeadings tables cfg text)) = packed at long
    have all : packed.zipIdx.filter (fun piece => decide (cfg.minChunkLen ≤ piece.1.text.length)) =
        packed.zipIdx := by
      refine filter_eq_self.mpr fun item member => decide_eq_true (long item.1 ?_)
      exact mem_of_getElem? (mk_mem_zipIdx_iff_getElem?.mp member)
    simp only [all]
    rw [map_map]
    have texts : Chunk.text ∘ chunkOf tables cfg packed docName =
        (SectionText.text ∘ Prod.fst) ∘ Prod.fst := rfl
    rw [texts, ← map_map, zipIdx_map_fst, ← map_map, zipIdx_map_fst]

omit [BEq α] [LawfulBEq α] in
theorem packedText_contentUnits (schema : Option DocSchema) (current : SectionMeta α)
    (units : List (TextUnit α)) :
    packedText (contentUnits tables schema current units) = contentText units := by
  induction units generalizing current with
  | nil => rfl
  | cons unit units ih =>
    rw [contentUnits, contentText]
    by_cases heading : unit.isHeading = true
    · rw [if_pos heading, filter_cons_of_neg (by simp [heading])]
      exact ih _
    · rw [if_neg heading, filter_cons_of_pos (by simp [heading])]
      exact congrArg (unit.text ++ ·) (ih _)

/-- **Chunks.** If neither short nor long paragraphs lose text, the chunks have the text of the
paragraphs that are not headings, in order, apart from what they repeat. -/
theorem sameFirsts_splitParagraph (ordered : cfg.minChunkLen ≤ cfg.chunkSize) {text : List α}
    (kept : ShortTextKept tables cfg (paragraphs text))
    (long : LongTextKept tables cfg (paragraphs text)) (docName : String)
    (schema : Option DocSchema) :
    SameFirsts
      (solid ((splitParagraph tables cfg text docName schema).flatMap Chunk.text))
      (solid (contentText (paraUnits (paragraphs text)))) := by
  have texts := @map_text_splitParagraph _ _ tables cfg text docName schema
  rw [flatMap_def, texts, ← flatMap_def]
  refine (sameFirsts_packChunksWithMeta _).trans ?_
  rw [packedText_contentUnits]
  exact sameFirsts_collectUnitsWithHeadings ordered kept long

omit [BEq α] [LawfulBEq α] in
theorem contentText_paraUnits_sublist (paras : List (List α)) :
    (contentText (paraUnits paras)).Sublist paras.flatten := by
  induction paras with
  | nil => exact List.Sublist.refl _
  | cons para paras ih =>
    rw [paraUnits, map_cons, contentText, filter_cons, flatten_cons]
    split_ifs
    · exact (List.Sublist.refl para).append ih
    · exact ih.trans (sublist_append_right _ _)

end

theorem longTextKept_map {α β : Type} [Glyph α] [Glyph β] {change : α → β} {tables : ChunkTables}
    {cfg : ChunkConfig} (remark : Remark change) (paras : List (List α)) :
    LongTextKept tables cfg (paras.map (List.map change)) ↔ LongTextKept tables cfg paras := by
  have cut (para : List α) : sentences tables.isAlphabetic false [] (para.map change) =
      (sentences tables.isAlphabetic false [] para).map (List.map change) :=
    sentences_map remark tables.isAlphabetic false [] para
  simp only [LongTextKept, forall_mem_map, paraKind_map remark, cut, remark.trim_map,
    length_map]

/-! ## Documents -/

/-- The chunks of a document have its body text in order, apart from an end that is too short for a
chunk, and its headings are not changed. Characters are identified by their positions in the
document, so that what chunks repeat can be told from what the document repeats. -/
structure BodyKept (tables : ChunkTables) (cfg : ChunkConfig) (text : List Char)
    (docName : String) (schema : Option DocSchema) : Prop where
  body : ∃ kept lost, solid (contentText (paraUnits (paragraphs (traced text)))) = kept ++ lost ∧
    (lost = [] ∨ lost.length < cfg.minChunkLen) ∧
    kept.Sublist
      (solid ((splitParagraph tables cfg (traced text) docName schema).flatMap Chunk.text)).eraseDups
  headings : headings (collectUnitsWithHeadings tables cfg text) =
    headings (paraUnits (paragraphs text))

def chapterAtSea : List Char :=
  "Chapter One\n\nThe ship left the harbour. It came back at dawn with the tide.\n\nNo land.".toList

def chapterWithOk : List Char :=
  "Chapter One\n\nOk.\n\nThe ship left the harbour. No. It came back at dawn with the tide.".toList

end KwaaiNet.Chunking
