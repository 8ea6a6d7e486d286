import KwaaiNet.Foundation.Execution
import KwaaiNet.Rag.ChunkBounds
import KwaaiNet.Rag.ChunkOrigins

/-! # Sections and chunks

Text belongs to the last heading before it. A chunk has the section of the unit that opens it, so
text of a section that is to be skipped may end up in a chunk that is not, and the other way
round: units are packed together, and chunks repeat the end of the chunk before them, if the
sections are narrative, whatever their flags are; and short paragraphs are held back beyond a
heading or added to it. `KwaaiNet.Chunking.sectionsSeparate` says that this is all that goes wrong.
-/

namespace KwaaiNet.Chunking

open Foundation Foundation.Glyph List

section

variable {α : Type} [Glyph α] {tables : ChunkTables} {cfg : ChunkConfig}

/-! ## Headings -/

def lastHeading : Option (List α) → List (TextUnit α) → Option (List α)
  | current, [] => current
  | current, unit :: units => lastHeading (if unit.isHeading then some unit.text else current) units

def underHeadings : Option (List α) → List (TextUnit α) → List (Option (List α) × List α)
  | _, [] => []
  | current, unit :: units =>
    if unit.isHeading then underHeadings (some unit.text) units
    else (current, unit.text) :: underHeadings current units

omit [Glyph α] in
theorem lastHeading_append (current : Option (List α)) (first second : List (TextUnit α)) :
    lastHeading current (first ++ second) = lastHeading (lastHeading current first) second := by
  induction first generalizing current with
  | nil => rfl
  | cons unit first ih => exact ih _

omit [Glyph α] in
theorem underHeadings_append (current : Option (List α)) (first second : List (TextUnit α)) :
    underHeadings current (first ++ second) =
      underHeadings current first ++ underHeadings (lastHeading current first) second := by
  induction first generalizing current with
  | nil => rfl
  | cons unit first ih =>
    rw [cons_append, underHeadings, underHeadings, lastHeading]
    split_ifs
    · exact ih _
    · rw [ih, cons_append]

omit [Glyph α] in
theorem underHeadings_content (current : Option (List α)) (pieces : List (List α)) :
    underHeadings current (pieces.map fun piece => ⟨false, piece⟩) =
      pieces.map fun piece => (current, piece) := by
  induction pieces with
  | nil => rfl
  | cons piece pieces ih =>
    rw [map_cons, underHeadings, if_neg Bool.false_ne_true, ih, map_cons]

omit [Glyph α] in
theorem lastHeading_content (current : Option (List α)) (pieces : List (List α)) :
    lastHeading current (pieces.map fun piece => ⟨false, piece⟩) = current := by
  induction pieces with
  | nil => rfl
  | cons piece pieces ih => exact ih

def sectionOf (tables : ChunkTables) (schema : DocSchema) : Option (List α) → SectionMeta α
  | none => .start
  | some heading => SectionMeta.start.enter tables (some schema) heading

theorem enter_eq (schema : DocSchema) (current : SectionMeta α) (heading : List α) :
    current.enter tables (some schema) heading = sectionOf tables schema (some heading) := rfl

theorem name_sectionOf (schema : DocSchema) (heading : Option (List α)) :
    (sectionOf tables schema heading).name = heading := by
  cases heading with
  | none => rfl
  | some heading =>
    rw [sectionOf, SectionMeta.enter]
    split <;> rfl

theorem contentUnits_eq (schema : DocSchema) (heading : Option (List α))
    (units : List (TextUnit α)) :
    contentUnits tables (some schema) (sectionOf tables schema heading) units =
      (underHeadings heading units).map fun item => ⟨item.2, sectionOf tables schema item.1⟩ := by
  induction units generalizing heading with
  | nil => rfl
  | cons unit units ih =>
    rw [contentUnits, underHeadings]
    split_ifs
    · rw [enter_eq, ih]
    · rw [ih, map_cons]

def paraUnits (paras : List (List α)) : List (TextUnit α) :=
  paras.map fun para => ⟨isHeading para, para⟩

/-! ## Sentences -/

theorem subset_of_mem_sentences {isAlphabetic : Char → Bool} {skipped : Bool}
    {segment text sentence : List α}
    (member : sentence ∈ sentences isAlphabetic skipped segment text) :
    sentence ⊆ segment ++ text := by
  induction text generalizing skipped segment with
  | nil =>
    rw [sentences] at member
    split_ifs at member
    · cases member
    · rw [mem_singleton.mp member, append_nil]
      exact List.Subset.refl _
  | cons glyph text ih =>
    have shifted : segment ++ [glyph] ++ text = segment ++ glyph :: text := by
      rw [append_assoc, singleton_append]
    rw [sentences] at member
    split_ifs at member
    · have longer := (sublist_cons_self glyph text).append_left segment
      exact List.Subset.trans (ih member) longer.subset
    · rw [← shifted]
      rcases mem_cons.mp member with rfl | later
      · exact subset_append_left _ _
      · exact List.Subset.trans (ih later) (subset_append_right _ _)
    · rw [← shifted]
      exact ih member

omit [Glyph α] in
theorem subset_of_mem_splitChars {text piece : List α} (member : piece ∈ splitChars cfg text) :
    piece ⊆ text := by
  obtain ⟨pos, -, rfl⟩ := mem_map.mp (mem_filter.mp member).1
  exact List.Subset.trans (take_subset _ _) (drop_subset _ _)

theorem subset_of_mem_splitSentences {text piece : List α}
    (member : piece ∈ splitSentences tables cfg text) : piece ⊆ text := by
  obtain ⟨sentence, listed, part⟩ := mem_flatMap.mp member
  have whole : trim sentence ⊆ text :=
    List.Subset.trans (trim_sublist sentence).subset (subset_of_mem_sentences listed)
  rw [sentencePieces] at part
  split_ifs at part
  · exact List.Subset.trans (subset_of_mem_splitChars part) whole
  · rw [mem_singleton.mp part]
    exact whole
  · cases part

/-! ## Short paragraphs -/

/-- Flushing what is held back neither adds it to a heading nor leaves it held back. -/
def Collected.KeepsText (cfg : ChunkConfig) (collected : Collected α) : Prop :=
  collected.acc.isEmpty ∨ cfg.minChunkLen ≤ collected.acc.length ∨
    (collected.units.getLast?.any fun last => !last.isHeading) = true

instance (collected : Collected α) : Decidable (collected.KeepsText cfg) :=
  inferInstanceAs (Decidable (_ ∨ _ ∨ _))

/-- Short paragraphs that are held back become a unit or are added to a unit of content. -/
def ShortTextKept (tables : ChunkTables) (cfg : ChunkConfig) (paras : List (List α)) : Prop :=
  Meets (Collected.step tables cfg)
      (fun collected para => paraKind cfg para = .short ∨ collected.KeepsText cfg) ⟨[], []⟩ paras ∧
    (paras.foldl (Collected.step tables cfg) ⟨[], []⟩).KeepsText cfg

instance (paras : List (List α)) : Decidable (ShortTextKept tables cfg paras) :=
  inferInstanceAs (Decidable (_ ∧ _))

theorem Collected.flush_cases {collected : Collected α} (keeps : collected.KeepsText cfg) :
    (collected.acc = [] ∧ collected.flush cfg = ⟨collected.units, []⟩) ∨
      collected.flush cfg = ⟨collected.units ++ [⟨false, collected.acc⟩], []⟩ ∨
      ∃ front last, collected.units = front ++ [⟨false, last⟩] ∧
        collected.flush cfg = ⟨front ++ [⟨false, last ++ plain '\n' :: collected.acc⟩], []⟩ := by
  rw [Collected.flush]
  split_ifs with empty long
  · rw [List.isEmpty_iff] at empty
    exact .inl ⟨empty, by rw [← empty]⟩
  · exact .inr (.inl rfl)
  · rcases keeps with none | many | content
    · exact absurd none empty
    · exact absurd many long
    · cases final : collected.units.getLast? with
      | none => rw [final] at content; cases content
      | some last =>
        obtain ⟨heading, text⟩ := last
        obtain ⟨front, units⟩ := List.getLast?_eq_some_iff.mp final
        rw [final, Option.any_some, Bool.not_eq_true'] at content
        subst content
        refine .inr (.inr ⟨front, text, units, ?_⟩)
        rw [units, dropLast_concat]

theorem Collected.acc_flush {collected : Collected α} (keeps : collected.KeepsText cfg) :
    (collected.flush cfg).acc = [] := by
  rcases Collected.flush_cases keeps with ⟨-, done⟩ | done | ⟨_, _, -, done⟩ <;> rw [done]

def StandsBelow (paras : List (TextUnit α)) (heading : Option (List α)) (glyph : α) : Prop :=
  glyph = plain '\n' ∨ ∃ para, (heading, para) ∈ underHeadings none paras ∧ glyph ∈ para

theorem StandsBelow.append {paras : List (TextUnit α)} {heading : Option (List α)} {glyph : α}
    (stands : StandsBelow paras heading glyph) (more : List (TextUnit α)) :
    StandsBelow (paras ++ more) heading glyph := by
  rcases stands with inserted | ⟨para, listed, member⟩
  · exact .inl inserted
  · refine .inr ⟨para, ?_, member⟩
    rw [underHeadings_append]
    exact mem_append_left _ listed

/-- The units found in some paragraphs, and what is held back, stand below the headings that the
paragraphs stand below. -/
structure Collected.Follows (paras : List (TextUnit α)) (collected : Collected α) : Prop where
  heading : lastHeading none collected.units = lastHeading none paras
  units : ∀ item ∈ underHeadings none collected.units, ∀ glyph ∈ item.2,
    StandsBelow paras item.1 glyph
  held : ∀ glyph ∈ collected.acc, StandsBelow paras (lastHeading none paras) glyph

theorem Collected.Follows.flush {paras : List (TextUnit α)} {collected : Collected α}
    (follows : collected.Follows paras) (keeps : collected.KeepsText cfg) :
    (collected.flush cfg).Follows paras := by
  obtain ⟨heading, units, held⟩ := follows
  rw [← heading] at held
  have none : ∀ glyph ∈ ([] : List α), StandsBelow paras (lastHeading none paras) glyph :=
    fun glyph member => absurd member not_mem_nil
  rcases Collected.flush_cases keeps with ⟨-, done⟩ | done | ⟨front, last, before, done⟩
  · rw [done]
    exact ⟨heading, units, none⟩
  · rw [done]
    refine ⟨?_, ?_, none⟩
    · rw [lastHeading_append]
      exact heading
    · rw [underHeadings_append]
      exact forall_mem_append.mpr ⟨units, forall_mem_singleton.mpr held⟩
  · rw [before, lastHeading_append] at heading held
    rw [before, underHeadings_append] at units
    obtain ⟨earlier, final⟩ := forall_mem_append.mp units
    rw [done]
    refine ⟨?_, ?_, none⟩
    · rw [lastHeading_append]
      exact heading
    · rw [underHeadings_append]
      refine forall_mem_append.mpr ⟨earlier, forall_mem_singleton.mpr ?_⟩
      exact forall_mem_append.mpr ⟨forall_mem_singleton.mp final,
        forall_mem_cons.mpr ⟨.inl rfl, held⟩⟩

theorem Collected.Follows.content {paras : List (TextUnit α)} {units : List (TextUnit α)}
    (follows : Collected.Follows paras ⟨units, []⟩) {para : List α} (body : isHeading para = false)
    {pieces : List (List α)} (parts : ∀ piece ∈ pieces, piece ⊆ para) :
    Collected.Follows (paras ++ [⟨isHeading para, para⟩])
      ⟨units ++ pieces.map fun piece => ⟨false, piece⟩, []⟩ := by
  have heading := follows.heading
  refine ⟨?_, ?_, fun glyph member => ?_⟩
  · rw [lastHeading_append, lastHeading_content, lastHeading_append, heading, body]
    rfl
  · rw [underHeadings_append, underHeadings_content]
    refine forall_mem_append.mpr ⟨fun item member glyph among => ?_, fun item member => ?_⟩
    · exact (follows.units item member glyph among).append _
    · obtain ⟨piece, listed, rfl⟩ := mem_map.mp member
      intro glyph among
      refine .inr ⟨para, ?_, parts piece listed among⟩
      rw [underHeadings_append, heading, body]
      exact mem_append_right _ (mem_singleton_self _)
  · cases member

theorem isHeading_eq_of_paraKind {para : List α} :
    isHeading para = decide (paraKind cfg para = .heading) := by
  rw [paraKind]
  cases isHeading para with
  | true => rfl
  | false =>
    rw [if_neg Bool.false_ne_true]
    split_ifs <;> rfl

theorem Collected.Follows.step {paras : List (TextUnit α)} {collected : Collected α}
    (follows : collected.Follows paras) {para : List α}
    (keeps : paraKind cfg para = .short ∨ collected.KeepsText cfg) :
    (collected.step tables cfg para).Follows (paras ++ [⟨isHeading para, para⟩]) := by
  have rule : isHeading para = decide (paraKind cfg para = .heading) := isHeading_eq_of_paraKind
  have flushed (kept : collected.KeepsText cfg) :
      ∃ units, collected.flush cfg = ⟨units, []⟩ ∧ Collected.Follows paras ⟨units, []⟩ := by
    have same : collected.flush cfg = ⟨(collected.flush cfg).units, []⟩ := by
      rw [← Collected.acc_flush kept]
    exact ⟨_, same, same ▸ follows.flush kept⟩
  rw [Collected.step]
  cases kind : paraKind cfg para with
  | heading =>
    rw [kind] at keeps rule
    obtain ⟨units, same, follows⟩ := flushed (keeps.resolve_left ParaKind.noConfusion)
    rw [same, rule]
    refine ⟨?_, fun item member glyph among => ?_, fun glyph member => ?_⟩
    · rw [lastHeading_append, lastHeading_append]
      rfl
    · rw [underHeadings_append] at member
      refine (follows.units item ?_ glyph among).append _
      exact (mem_append.mp member).resolve_right not_mem_nil
    · cases member
  | short =>
    rw [kind] at rule
    have heading : lastHeading none (paras ++ [⟨isHeading para, para⟩]) = lastHeading none paras := by
      rw [lastHeading_append, rule]
      rfl
    refine ⟨follows.heading.trans heading.symm, fun item member glyph among => ?_, ?_⟩
    · exact (follows.units item member glyph among).append _
    · rw [heading]
      have held : ∀ glyph ∈ collected.acc, StandsBelow (paras ++ [⟨isHeading para, para⟩])
          (lastHeading none paras) glyph := fun glyph member =>
        (follows.held glyph member).append _
      have new : ∀ glyph ∈ para, StandsBelow (paras ++ [⟨isHeading para, para⟩])
          (lastHeading none paras) glyph := by
        intro glyph member
        refine .inr ⟨para, ?_, member⟩
        rw [underHeadings_append, rule]
        exact mem_append_right _ (mem_singleton_self _)
      refine forall_mem_append.mpr ⟨?_, new⟩
      split_ifs
      · intro glyph member
        cases member
      · exact forall_mem_append.mpr ⟨held, forall_mem_singleton.mpr (.inl rfl)⟩
  | fitting =>
    rw [kind] at keeps rule
    obtain ⟨units, same, follows⟩ := flushed (keeps.resolve_left ParaKind.noConfusion)
    rw [same]
    have whole : ∀ piece ∈ [para], piece ⊆ para :=
      forall_mem_singleton.mpr (List.Subset.refl _)
    exact follows.content rule whole
  | long =>
    rw [kind] at keeps rule
    obtain ⟨units, same, follows⟩ := flushed (keeps.resolve_left ParaKind.noConfusion)
    rw [same]
    exact follows.content rule fun piece => subset_of_mem_splitSentences

/-- **Headings.** If short paragraphs are kept, the text below a heading is text that stands below
it in the document. -/
theorem standsBelow_collectUnitsWithHeadings {text : List α}
    (kept : ShortTextKept tables cfg (paragraphs text)) :
    ∀ item ∈ underHeadings none (collectUnitsWithHeadings tables cfg text), ∀ glyph ∈ item.2,
      StandsBelow (paraUnits (paragraphs text)) item.1 glyph := by
  have run : ∀ (paras : List (List α)) (before : List (TextUnit α)) (collected : Collected α),
      collected.Follows before →
      Meets (Collected.step tables cfg)
        (fun collected para => paraKind cfg para = .short ∨ collected.KeepsText cfg) collected
        paras →
      (paras.foldl (Collected.step tables cfg) collected).Follows (before ++ paraUnits paras) := by
    intro paras
    induction paras with
    | nil =>
      intro before collected follows _
      rwa [paraUnits, map_nil, append_nil]
    | cons para paras ih =>
      intro before collected follows meets
      have later := ih _ _ (follows.step meets.1) meets.2
      rwa [append_assoc] at later
  have start : Collected.Follows [] (⟨[], []⟩ : Collected α) := by
    refine ⟨rfl, fun item member => ?_, fun glyph member => ?_⟩
    · cases member
    · cases member
  exact ((run (paragraphs text) [] _ start kept.1).flush kept.2).units

/-! ## Packing -/

def SameFlags (first second : SectionText α) : Prop :=
  first.sec.sectionType.sameWindowZone second.sec.sectionType = true →
    first.sec.skip = second.sec.skip

instance (first second : SectionText α) : Decidable (SameFlags first second) :=
  inferInstanceAs (Decidable (_ → _))

/-- A packed text has the section of the unit that opens it. Its characters come from units with
the same flag, and if not from that unit, from the same zone. -/
structure SectionText.Uniform (units : List (SectionText α)) (piece opener : SectionText α) :
    Prop where
  listed : opener ∈ units
  opened : piece.sec = opener.sec
  glyphs : ∀ glyph ∈ piece.text, glyph = plain '\n' ∨ ∃ unit ∈ units, glyph ∈ unit.text ∧
    unit.sec.skip = piece.sec.skip ∧
    (unit = opener ∨ unit.sec.sectionType.sameWindowZone piece.sec.sectionType = true)

/-- Packed texts are uniform, and the last unit agrees with the chunk that is being packed. -/
structure Packing.Uniform (units : List (SectionText α)) (packing : Packing α)
    (last : SectionText α) : Prop where
  started : packing.parts ≠ []
  before : ∀ piece ∈ packing.result, ∃ opener, piece.Uniform units opener
  current : ∃ opener, SectionText.Uniform units ⟨packing.text, packing.curMeta⟩ opener
  flag : last.sec.skip = packing.curMeta.skip
  zone : last.sec = packing.curMeta ∨
    last.sec.sectionType.sameWindowZone packing.curMeta.sectionType = true

theorem Packing.Uniform.skip_eq {units : List (SectionText α)} {packing : Packing α}
    {last unit : SectionText α} (uniform : packing.Uniform units last) (same : SameFlags last unit)
    (zone : packing.curMeta.sectionType.sameWindowZone unit.sec.sectionType = true) :
    unit.sec.skip = packing.curMeta.skip := by
  rw [← uniform.flag]
  refine (same ?_).symm
  rcases uniform.zone with equal | near
  · rwa [equal]
  · exact SectionType.sameWindowZone_trans near zone

theorem Packing.mem_of_mem_repeated {packing : Packing α} {sectionType : SectionType} {glyph : α}
    (member : glyph ∈ packing.repeated cfg sectionType) :
    glyph ∈ packing.text ∧ packing.curMeta.sectionType.sameWindowZone sectionType = true := by
  rw [Packing.repeated] at member
  split_ifs at member with zone
  · exact ⟨mem_of_mem_drop member, zone⟩
  · cases member

theorem Packing.Uniform.step {units : List (SectionText α)} {packing : Packing α}
    {last unit : SectionText α} (uniform : packing.Uniform units last) (listed : unit ∈ units)
    (same : SameFlags last unit) : (packing.step cfg unit).Uniform units unit := by
  obtain ⟨opener, current⟩ := uniform.current
  rcases packing.step_cases cfg unit with ⟨empty, -⟩ | ⟨some, zone, -, done⟩ | ⟨some, done⟩
  · exact absurd empty uniform.started
  · have flag := uniform.skip_eq same zone
    have back : unit.sec.sectionType.sameWindowZone packing.curMeta.sectionType = true := by
      rwa [SectionType.sameWindowZone_comm]
    rw [done]
    refine ⟨by simp, uniform.before, ⟨opener, current.listed, current.opened,
      fun glyph member => ?_⟩, flag, .inr back⟩
    rw [Packing.text, join_concat _ _ some, mem_append, mem_cons] at member
    rcases member with earlier | between | new
    · exact current.glyphs glyph earlier
    · exact .inl between
    · exact .inr ⟨unit, listed, new, flag, .inr back⟩
  · rw [done]
    refine ⟨by simp, ?_, ⟨unit, listed, rfl, fun glyph member => ?_⟩, rfl, .inl rfl⟩
    · exact forall_mem_append.mpr
        ⟨uniform.before, forall_mem_singleton.mpr ⟨opener, current⟩⟩
    · rcases mem_join member with between | ⟨part, among, inside⟩
      · exact .inl between
      rcases mem_append.mp among with lead | own
      · -- What is repeated was packed before, in the zone of the unit.
        rw [Packing.lead] at lead
        split_ifs at lead
        · cases lead
        rw [mem_singleton.mp lead] at inside
        obtain ⟨packed, zone⟩ := Packing.mem_of_mem_repeated inside
        refine (current.glyphs glyph packed).imp_right fun found => ?_
        obtain ⟨source, known, here, flag, near⟩ := found
        refine ⟨source, known, here, flag.trans (uniform.skip_eq same zone).symm, .inr ?_⟩
        rcases near with rfl | near
        · rwa [← current.opened]
        · exact SectionType.sameWindowZone_trans near zone
      · rw [mem_singleton.mp own] at inside
        exact .inr ⟨unit, listed, inside, rfl, .inl rfl⟩

/-- **Packing.** If neighbours in the same zone have the same flag, packed texts are uniform. -/
theorem uniform_packChunksWithMeta {units : List (SectionText α)}
    (chain : units.IsChain SameFlags) :
    ∀ piece ∈ packChunksWithMeta cfg units, ∃ opener, piece.Uniform units opener := by
  have run : ∀ (rest : List (SectionText α)) (packing : Packing α) (last : SectionText α),
      packing.Uniform units last → (∀ unit ∈ rest, unit ∈ units) →
      (last :: rest).IsChain SameFlags →
      ∃ final, (rest.foldl (Packing.step cfg) packing).Uniform units final := by
    intro rest
    induction rest with
    | nil => exact fun packing last uniform _ _ => ⟨last, uniform⟩
    | cons unit rest ih =>
      intro packing last uniform listed chain
      obtain ⟨here, later⟩ := forall_mem_cons.mp listed
      obtain ⟨same, chain⟩ := isChain_cons_cons.mp chain
      exact ih _ unit (uniform.step here same) later chain
  cases units with
  | nil =>
    intro piece member
    cases member
  | cons unit rest =>
    have first : Packing.Uniform (unit :: rest) (Packing.step cfg ⟨[], [], 0, .start⟩ unit) unit := by
      rcases Packing.step_cases cfg ⟨[], [], 0, .start⟩ unit with ⟨-, done⟩ | ⟨some, -⟩ | ⟨some, -⟩
      · rw [done]
        refine ⟨cons_ne_nil _ _, fun piece member => ?_,
          ⟨unit, mem_cons_self, rfl, fun glyph member => ?_⟩, rfl, .inl rfl⟩
        · cases member
        · rw [Packing.text, join_singleton] at member
          exact .inr ⟨unit, mem_cons_self, member, rfl, .inl rfl⟩
      · exact absurd rfl some
      · exact absurd rfl some
    obtain ⟨final, uniform⟩ := run rest _ unit first (fun _ => mem_cons_of_mem _) chain
    have packed : packChunksWithMeta cfg (unit :: rest) =
        (rest.foldl (Packing.step cfg) (Packing.step cfg ⟨[], [], 0, .start⟩ unit)).emit := rfl
    rw [packed, Packing.emit, if_neg (by simpa using uniform.started)]
    exact forall_mem_append.mpr
      ⟨uniform.before, forall_mem_singleton.mpr uniform.current⟩

/-! ## Documents -/

theorem flatten_map_trim_sublist (texts : List (List α)) :
    (texts.map trim).flatten.Sublist texts.flatten := by
  induction texts with
  | nil => exact List.Sublist.refl _
  | cons text texts ih => exact (trim_sublist text).append ih

theorem flatten_paragraphs_sublist (text : List α) : (paragraphs text).flatten.Sublist text :=
  (filter_sublist.flatten.trans (flatten_map_trim_sublist _)).trans
    (flatten_splitEmptyLines_sublist text)

theorem underHeadings_paraUnits_sublist (current : Option (List α)) (paras : List (List α)) :
    ((underHeadings current (paraUnits paras)).map Prod.snd).Sublist paras := by
  induction paras generalizing current with
  | nil => exact List.Sublist.refl _
  | cons para paras ih =>
    rw [paraUnits, map_cons, underHeadings]
    split_ifs
    · exact (ih _).cons _
    · exact (ih _).cons_cons _

theorem eq_of_mem_underHeadings {text : List α} (nodup : text.Nodup)
    {first second : Option (List α) × List α}
    (here : first ∈ underHeadings none (paraUnits (paragraphs text)))
    (there : second ∈ underHeadings none (paraUnits (paragraphs text))) {glyph : α}
    (member : glyph ∈ first.2) (also : glyph ∈ second.2) : first = second := by
  have parts := (underHeadings_paraUnits_sublist none (paragraphs text)).flatten.trans
    (flatten_paragraphs_sublist text)
  have disjoint := pairwise_map.mp (nodup_flatten.mp (nodup.sublist parts)).2
  have symmetric : Std.Symm fun one other : Option (List α) × List α =>
      List.Disjoint one.2 other.2 := ⟨fun _ _ apart => apart.symm⟩
  by_contra different
  exact disjoint.forall here there different member also

end

section

variable {α β : Type} [Glyph α] [Glyph β] {change : α → β} {tables : ChunkTables}
  {cfg : ChunkConfig}

omit [Glyph α] [Glyph β] in
theorem keepsText_map (collected : Collected α) :
    (collected.map change).KeepsText cfg ↔ collected.KeepsText cfg := by
  rw [Collected.KeepsText, Collected.KeepsText, Collected.map, isEmpty_map, length_map,
    List.getLast?_map, Option.any_map]
  rfl

theorem shortTextKept_map (remark : Remark change) (paras : List (List α)) :
    ShortTextKept tables cfg (paras.map (List.map change)) ↔ ShortTextKept tables cfg paras := by
  have run : ∀ (paras : List (List α)) (collected : Collected α),
      (Meets (Collected.step tables cfg)
          (fun collected para => paraKind cfg para = .short ∨ collected.KeepsText cfg)
          (collected.map change) (paras.map (List.map change)) ↔
        Meets (Collected.step tables cfg)
          (fun collected para => paraKind cfg para = .short ∨ collected.KeepsText cfg)
          collected paras) ∧
      ((paras.map (List.map change)).foldl (Collected.step tables cfg) (collected.map change)) =
        (paras.foldl (Collected.step tables cfg) collected).map change := by
    intro paras
    induction paras with
    | nil => exact fun collected => ⟨Iff.rfl, rfl⟩
    | cons para paras ih =>
      intro collected
      rw [map_cons, Meets, Meets, foldl_cons, foldl_cons, paraKind_map remark,
        keepsText_map, collectedStep_map remark]
      exact ⟨and_congr_right fun _ => (ih _).1, (ih _).2⟩
  obtain ⟨meets, folded⟩ := run paras ⟨[], []⟩
  have start : Collected.map change ⟨[], []⟩ = ⟨[], []⟩ := rfl
  rw [start] at meets folded
  rw [ShortTextKept, ShortTextKept, meets, folded, keepsText_map]

end

/-- In the chunks of a document, text below a heading is flagged as the section of the heading says,
and text of two sections stands in one chunk only if they are in the same zone. Characters are
identified by their positions in the document. -/
structure SectionsSeparate (tables : ChunkTables) (cfg : ChunkConfig) (text : List Char)
    (docName : String) (schema : DocSchema) : Prop where
  flagged : ∀ chunk ∈ splitParagraph tables cfg (traced text) docName (some schema),
    ∀ heading para, (some heading, para) ∈ underHeadings none (paraUnits (paragraphs (traced text))) →
      ∀ glyph ∈ para, glyph ∈ chunk.text →
        chunk.skipExtraction = (sectionOf tables schema (some heading)).skip
  zones : ∀ chunk ∈ splitParagraph tables cfg (traced text) docName (some schema),
    ∀ heading para heading' para',
      (some heading, para) ∈ underHeadings none (paraUnits (paragraphs (traced text))) →
      (some heading', para') ∈ underHeadings none (paraUnits (paragraphs (traced text))) →
      heading ≠ heading' → (∃ glyph ∈ para, glyph ∈ chunk.text) →
      (∃ glyph ∈ para', glyph ∈ chunk.text) →
        (sectionOf tables schema (some heading)).sectionType.sameWindowZone
          (sectionOf tables schema (some heading')).sectionType = true

section

variable {tables : ChunkTables} {cfg : ChunkConfig} {text : List Char} {schema : DocSchema}

theorem source_of_mem_chunk {docName : String}
    (kept : ShortTextKept tables cfg (paragraphs (traced text)))
    (chain : (contentUnits tables (some schema) .start
      (collectUnitsWithHeadings tables cfg (traced text))).IsChain SameFlags)
    {chunk : Chunk (Char × Option Nat)}
    (member : chunk ∈ splitParagraph tables cfg (traced text) docName (some schema)) :
    ∃ opener : Option (List (Char × Option Nat)), ∀ heading para,
      (heading, para) ∈ underHeadings none (paraUnits (paragraphs (traced text))) →
      ∀ glyph ∈ para, glyph ∈ chunk.text →
        (sectionOf tables schema heading).skip = chunk.skipExtraction ∧
          (heading = opener ∨ (sectionOf tables schema heading).sectionType.sameWindowZone
            (sectionOf tables schema opener).sectionType = true) := by
  obtain ⟨k, here⟩ := mem_iff_getElem?.mp member
  obtain ⟨piece, number, packed, -, rfl⟩ := getElem?_splitParagraph here
  obtain ⟨opener, listed, opened, glyphs⟩ :=
    uniform_packChunksWithMeta chain piece (mem_of_getElem? packed)
  -- A unit has the section of the heading it stands below.
  have named : ∀ unit ∈ contentUnits tables (some schema) .start
      (collectUnitsWithHeadings tables cfg (traced text)),
      (unit.sec.name, unit.text) ∈
          underHeadings none (collectUnitsWithHeadings tables cfg (traced text)) ∧
        unit.sec = sectionOf tables schema unit.sec.name := by
    intro unit among
    have start : (.start : SectionMeta (Char × Option Nat)) = sectionOf tables schema none := rfl
    rw [start, contentUnits_eq] at among
    obtain ⟨item, below, rfl⟩ := mem_map.mp among
    simpa only [name_sectionOf, and_true] using below
  refine ⟨opener.sec.name, fun heading para below glyph inside shown => ?_⟩
  have original : glyph ∈ traced text :=
    ((underHeadings_paraUnits_sublist none _).flatten.trans (flatten_paragraphs_sublist _)).subset
      (mem_flatten.mpr ⟨para, mem_map.mpr ⟨_, below, rfl⟩, inside⟩)
  obtain ⟨unit, among, source, flag, near⟩ :=
    (glyphs glyph shown).resolve_left (ne_plain_of_mem_traced original _)
  obtain ⟨collected, sec⟩ := named unit among
  obtain ⟨para', stands, there⟩ :=
    (standsBelow_collectUnitsWithHeadings kept _ collected glyph source).resolve_left
      (ne_plain_of_mem_traced original _)
  obtain ⟨rfl, -⟩ := Prod.mk.inj
    (eq_of_mem_underHeadings (nodup_traced text) below stands inside there)
  rw [← sec]
  refine ⟨flag, near.imp (fun same => by rw [same]) fun zone => ?_⟩
  rwa [← (named opener listed).2, ← opened]

end

def bookSchema : DocSchema where
  sections :=
    [⟨"preface".toList, true, none, .preface⟩,
      ⟨"acknowledgements".toList, true, none, .acknowledgements⟩,
      ⟨"chapter".toList, false, none, .chapter⟩]

def bookWithThanks : List Char :=
  "Acknowledgements\n\nThanks to all who helped.\n\nChapter One\n\nThe ship left the harbour.".toList

def bookWithPreface : List Char :=
  "Preface\n\nThis was written long ago.\n\nChapter One\n\nThe ship left the harbour.".toList

end KwaaiNet.Chunking
