import KwaaiNet.Foundation.Glyphs
import KwaaiNet.Foundation.Slices
import KwaaiNet.Rag.DocSchema

/-! # Splitting documents into chunks

A document is cut into chunks, either at fixed distances or along its paragraphs. In the second
case short paragraphs are held back and joined, long ones are cut into sentences and, if need be,
at fixed distances, headings set the section of what follows, and the units that result are packed
into chunks, which repeat the end of the chunk before.

The functions are written for characters that may carry a mark, so that the text of a chunk can be
followed back into the document.
-/

namespace KwaaiNet.Chunking

open Foundation Foundation.Glyph

inductive ChunkStrategy where
  | character
  | paragraph
  deriving DecidableEq

inductive SurrMode where
  | truncated
  | full
  deriving DecidableEq

structure ChunkConfig where
  chunkSize : Nat
  chunkOverlap : Nat
  minChunkLen : Nat
  strategy : ChunkStrategy
  surrMode : SurrMode

/-- `ChunkConfig::default`. -/
def ChunkConfig.default : ChunkConfig := ⟨800, 200, 20, .character, .truncated⟩

/-- How far one piece of a text starts after the one before. -/
def ChunkConfig.step (cfg : ChunkConfig) : Nat := max (cfg.chunkSize - cfg.chunkOverlap) 1

/-- `Chunk`; its page number is never set. -/
@[ext]
structure Chunk (α : Type) where
  id : Int
  text : List α
  surrounding : List α
  docName : String
  chunkIndex : UInt32
  sectionName : Option (List α)
  skipExtraction : Bool
  sectionNote : Option String
  sectionType : SectionType
  deriving DecidableEq

section

variable {α : Type} [Glyph α] (tables : ChunkTables) (cfg : ChunkConfig)

/-! ## The character strategy -/

/-- The text at a position, and the text with its surroundings. -/
def characterPiece (chars : List α) (pos : Nat) : List α × List α :=
  let stop := min (pos + cfg.chunkSize) chars.length
  let surrHalf := cfg.chunkSize / 4
  let surrStart := pos - surrHalf
  let surrEnd := min (stop + surrHalf) chars.length
  ((chars.take stop).drop pos, (chars.take surrEnd).drop surrStart)

/-- `split_character`. There is no result if it panics, at a position where the end of the piece
overflows: without a check the sum wraps around to an end before the position, and the slice
panics. -/
def splitCharacter (text : List α) (docName : String) : Option (List (Chunk α)) :=
  let positions := strides cfg.step text.length text.length 0
  if positions.any fun pos => 2 ^ 64 ≤ pos + cfg.chunkSize then none
  else
    let pieces := positions.map (characterPiece cfg text)
    let kept := pieces.filter fun piece => cfg.minChunkLen ≤ piece.1.length
    some (kept.zipIdx.map fun (piece, number) =>
      let index := UInt32.ofNat number
      ⟨tables.chunkId docName index, piece.1, piece.2, docName, index, none, false, none, .main⟩)

/-! ## Units of text -/

/-- A heading or a unit of content. -/
structure TextUnit (α : Type) where
  isHeading : Bool
  text : List α

/-- The rule for headings: a single line of at most 80 characters that does not end like a
sentence. -/
def isHeading (para : List α) : Bool :=
  let chars := para.map char
  let trimmedPara := chars.rdropWhile Text.isWhiteSpace
  (Text.lines chars).length == 1 && chars.length ≤ 80 && trimmedPara.getLast? != some '.' &&
    trimmedPara.getLast? != some '!' && trimmedPara.getLast? != some '?'

/-- `split_chars`. -/
def splitChars (text : List α) : List (List α) :=
  ((strides cfg.step text.length text.length 0).map fun pos =>
    (text.drop pos).take cfg.chunkSize).filter fun piece => cfg.minChunkLen ≤ piece.length

/-- A sentence ends with `.`, `!` or `?` if white space and a letter follow. -/
def endsSentence (isAlphabetic : Char → Bool) (glyph : α) : List α → Bool
  | space :: letter :: _ =>
    (char glyph == '.' || char glyph == '!' || char glyph == '?') && isWhite space &&
      isAlphabetic (char letter)
  | _ => false

/-- The texts up to the end of each sentence, and the rest. The white space after a sentence is
left out: the character that comes next is `skipped`. -/
def sentences (isAlphabetic : Char → Bool) (skipped : Bool) (segment : List α) :
    List α → List (List α)
  | [] => if segment.isEmpty then [] else [segment]
  | glyph :: text =>
    if skipped then sentences isAlphabetic false segment text
    else if endsSentence isAlphabetic glyph text then
      (segment ++ [glyph]) :: sentences isAlphabetic true [] text
    else sentences isAlphabetic false (segment ++ [glyph]) text

def sentencePieces (sentence : List α) : List (List α) :=
  let seg := trim sentence
  if cfg.chunkSize < seg.length then splitChars cfg seg
  else if cfg.minChunkLen ≤ seg.length then [seg]
  else []

/-- `split_sentences`. -/
def splitSentences (text : List α) : List (List α) :=
  (sentences tables.isAlphabetic false [] text).flatMap (sentencePieces cfg)

/-- The units found so far, and the short paragraphs that are held back. -/
structure Collected (α : Type) where
  units : List (TextUnit α)
  acc : List α

/-- `flush`: what is held back becomes a unit if it is long enough; otherwise it is added to the
last unit, whatever that is, or stays held back if there is none. -/
def Collected.flush (collected : Collected α) : Collected α :=
  if collected.acc.isEmpty then collected
  else if cfg.minChunkLen ≤ collected.acc.length then
    ⟨collected.units ++ [⟨false, collected.acc⟩], []⟩
  else
    match collected.units.getLast? with
    | none => collected
    | some last =>
      ⟨collected.units.dropLast ++
        [⟨last.isHeading, last.text ++ plain '\n' :: collected.acc⟩], []⟩

/-- How a paragraph is treated. -/
inductive ParaKind where
  | heading
  | short
  | fitting
  | long
  deriving DecidableEq

def paraKind (para : List α) : ParaKind :=
  if isHeading para then .heading
  else if para.length ≤ cfg.chunkSize then
    if para.length < cfg.minChunkLen then .short else .fitting
  else .long

/-- The loop of `collect_units_with_headings`. -/
def Collected.step (collected : Collected α) (para : List α) : Collected α :=
  match paraKind cfg para with
  | .heading =>
    let flushed := collected.flush cfg
    { flushed with units := flushed.units ++ [⟨true, para⟩] }
  | .short =>
    { collected with
      acc := (if collected.acc.isEmpty then [] else collected.acc ++ [plain '\n']) ++ para }
  | .fitting =>
    let flushed := collected.flush cfg
    { flushed with units := flushed.units ++ [⟨false, para⟩] }
  | .long =>
    let flushed := collected.flush cfg
    { flushed with
      units := flushed.units ++ (splitSentences tables cfg para).map fun piece => ⟨false, piece⟩ }

def paragraphs (text : List α) : List (List α) :=
  ((splitEmptyLines text).map trim).filter fun para => !para.isEmpty

/-- `collect_units_with_headings`. -/
def collectUnitsWithHeadings (text : List α) : List (TextUnit α) :=
  (((paragraphs text).foldl (Collected.step tables cfg) ⟨[], []⟩).flush cfg).units

/-! ## Sections -/

/-- The section that is set by the headings. -/
structure SectionMeta (α : Type) where
  name : Option (List α)
  skip : Bool
  note : Option String
  sectionType : SectionType

/-- Before the first heading. -/
def SectionMeta.start : SectionMeta α := ⟨none, false, none, .main⟩

def SectionMeta.enter (schema : Option DocSchema) (current : SectionMeta α) (heading : List α) :
    SectionMeta α :=
  match schema with
  | some schema =>
    match matchSection tables (heading.map char) schema with
    | some sec => ⟨some heading, sec.skip, sec.narratorNote, sec.sectionType⟩
    | none => ⟨some heading, false, none, .main⟩
  | none => { current with name := some heading }

/-- A unit of content or a chunk text, with its section. -/
structure SectionText (α : Type) where
  text : List α
  sec : SectionMeta α

def contentUnits (schema : Option DocSchema) :
    SectionMeta α → List (TextUnit α) → List (SectionText α)
  | _, [] => []
  | current, unit :: units =>
    if unit.isHeading then contentUnits schema (current.enter tables schema unit.text) units
    else ⟨unit.text, current⟩ :: contentUnits schema current units

/-! ## Packing -/

/-- The state of `pack_chunks_with_meta`. -/
structure Packing (α : Type) where
  result : List (SectionText α)
  parts : List (List α)
  curLen : Nat
  curMeta : SectionMeta α

/-- `emit`. -/
def Packing.emit (packing : Packing α) : List (SectionText α) :=
  if packing.parts.isEmpty then packing.result
  else packing.result ++ [⟨join '\n' packing.parts, packing.curMeta⟩]

/-- The end of the last chunk, which the next chunk repeats if it is in the same zone. -/
def overlapTail (result : List (SectionText α)) (sectionType : SectionType) : List α :=
  match result.getLast? with
  | some last =>
    if last.sec.sectionType.sameWindowZone sectionType then
      last.text.drop (last.text.length - cfg.chunkOverlap)
    else []
  | none => []

/-- The loop of `pack_chunks_with_meta`. -/
def Packing.step (packing : Packing α) (unit : SectionText α) : Packing α :=
  let unitLen := unit.text.length
  let sep := if packing.parts.isEmpty then 0 else 1
  let sameZone := packing.parts.isEmpty ||
    packing.curMeta.sectionType.sameWindowZone unit.sec.sectionType
  if sameZone ∧ (packing.parts.isEmpty ∨ packing.curLen + sep + unitLen ≤ cfg.chunkSize) then
    { packing with
      parts := packing.parts ++ [unit.text]
      curLen := packing.curLen + (sep + unitLen)
      curMeta := if packing.parts.isEmpty then unit.sec else packing.curMeta }
  else
    let result := packing.emit
    let overlap := overlapTail cfg result unit.sec.sectionType
    { result := result
      parts := if overlap.isEmpty then [unit.text] else [overlap, unit.text]
      curLen := (if overlap.isEmpty then 0 else overlap.length + 1) + unitLen
      curMeta := unit.sec }

/-- `pack_chunks_with_meta`. -/
def packChunksWithMeta (units : List (SectionText α)) : List (SectionText α) :=
  (units.foldl (Packing.step cfg) ⟨[], [], 0, .start⟩).emit

/-! ## The paragraph strategy -/

def textBefore (packed : List (SectionText α)) : Nat → List α
  | 0 => []
  | previous + 1 =>
    match packed[previous]? with
    | none => []
    | some prev =>
      match cfg.surrMode with
      | .full => prev.text ++ [plain ' ']
      | .truncated => prev.text.drop (prev.text.length - cfg.chunkSize / 4) ++ [plain ' ']

def textAfter (packed : List (SectionText α)) (number : Nat) : List α :=
  match packed[number + 1]? with
  | none => []
  | some next =>
    match cfg.surrMode with
    | .full => plain ' ' :: next.text
    | .truncated => plain ' ' :: next.text.take (min next.text.length (cfg.chunkSize / 4))

/-- The text of a chunk together with what stands around it. -/
def surrounding (packed : List (SectionText α)) (number : Nat) (text : List α) : List α :=
  textBefore cfg packed number ++ text ++ textAfter cfg packed number

def chunkOf (packed : List (SectionText α)) (docName : String) :
    (SectionText α × Nat) × Nat → Chunk α
  | ((piece, number), index) =>
    let index := UInt32.ofNat index
    ⟨tables.chunkId docName index, piece.text, surrounding cfg packed number piece.text, docName,
      index, piece.sec.name, piece.sec.skip, piece.sec.note, piece.sec.sectionType⟩

/-- `split_paragraph`. -/
def splitParagraph (text : List α) (docName : String) (schema : Option DocSchema) :
    List (Chunk α) :=
  let units := collectUnitsWithHeadings tables cfg text
  if units.isEmpty then []
  else
    let packed := packChunksWithMeta cfg (contentUnits tables schema .start units)
    let kept := packed.zipIdx.filter fun piece => cfg.minChunkLen ≤ piece.1.text.length
    kept.zipIdx.map (chunkOf tables cfg packed docName)

/-- `split_text`; there is no result if it panics. -/
def splitText (text : List α) (docName : String) (schema : Option DocSchema) :
    Option (List (Chunk α)) :=
  match cfg.strategy with
  | .character => splitCharacter tables cfg text docName
  | .paragraph => some (splitParagraph tables cfg text docName schema)

end

end KwaaiNet.Chunking
