import Mathlib

/-! # Document schemas

A schema names the sections of a document by patterns in their headings. The type of a section
decides which texts may be read together: narrative sections form one zone, and a section of any
other type is in no zone, not even in one with itself
(`KwaaiNet.Chunking.SectionType.sameWindowZone_iff`).
-/

namespace KwaaiNet.Chunking

inductive SectionType where
  | main
  | frontMatter
  | tableOfContents
  | preface
  | introduction
  | chapter
  | acknowledgements
  | editorNote
  | appendix
  | bibliography
  | index
  | endNotes
  | caption
  deriving DecidableEq, Repr

namespace SectionType

/-- `NARRATIVE`. -/
def narrative : List SectionType := [.main, .chapter, .introduction, .preface]

/-- `SectionType::same_window_zone`. -/
def sameWindowZone (first second : SectionType) : Bool :=
  narrative.contains first && narrative.contains second

theorem sameWindowZone_iff {first second : SectionType} :
    first.sameWindowZone second = true ↔ first ∈ narrative ∧ second ∈ narrative := by
  rw [sameWindowZone, Bool.and_eq_true, List.contains_iff_mem, List.contains_iff_mem]

theorem sameWindowZone_comm (first second : SectionType) :
    first.sameWindowZone second = second.sameWindowZone first := Bool.and_comm _ _

theorem sameWindowZone_trans {first second third : SectionType}
    (left : first.sameWindowZone second = true) (right : second.sameWindowZone third = true) :
    first.sameWindowZone third = true :=
  sameWindowZone_iff.mpr ⟨(sameWindowZone_iff.mp left).1, (sameWindowZone_iff.mp right).2⟩

end SectionType

/-- What the chunker uses of Unicode, and the SHA-256 hash of the name of a document and the number
of a chunk. -/
structure ChunkTables where
  isAlphabetic : Char → Bool
  toLowercase : List Char → List Char
  chunkId : String → UInt32 → Int

/-- `SectionDef`, without what is read only by the extraction of an index. -/
structure SectionDef where
  pattern : List Char
  skip : Bool
  narratorNote : Option String
  sectionType : SectionType

/-- The sections of a `DocSchema`; the chunker does not read the metadata of the document. -/
structure DocSchema where
  sections : List SectionDef

/-- `match_section`. -/
def matchSection (tables : ChunkTables) (heading : List Char) (schema : DocSchema) :
    Option SectionDef :=
  schema.sections.find? fun sec =>
    decide (tables.toLowercase sec.pattern <:+: tables.toLowercase heading)

end KwaaiNet.Chunking
