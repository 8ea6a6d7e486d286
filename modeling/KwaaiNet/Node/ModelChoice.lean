import Mathlib
import KwaaiNet.Foundation.Json
import KwaaiNet.Foundation.Selection
import KwaaiNet.Foundation.Sorting
import KwaaiNet.Foundation.Text

/-! # Choosing the model to serve

A node compares its local models with the models on the map and serves the one that matches best,
among equal matches the one with the most servers; it keeps its current model if that is almost as
good. The match takes the first name of a map entry that matches at all, not the one that matches
best, and a reference without letters matches every entry. `KwaaiNet.pickBestModel_best` says when
the choice is best for the strongest match.
-/

namespace KwaaiNet

open Foundation List

/-- What is used of Unicode: which characters are letters or digits, and texts in lower case. -/
structure UnicodeTables where
  isAlphanumeric : Char → Bool
  toLowercase : List Char → List Char
  toLowercase_eq_nil : ∀ text, toLowercase text = [] ↔ text = []

def asciiTables : UnicodeTables where
  isAlphanumeric := Char.isAlphanum
  toLowercase := List.map Char.toLower
  toLowercase_eq_nil _ := map_eq_nil_iff

structure MapModelReport where
  shortName : String
  dhtPrefix : String
  repository : String
  serverRows : List Json

def MapModelReport.serverCount (report : MapModelReport) : Nat := report.serverRows.length

/-! ## Matching names -/

/-- `str::contains`. -/
def contains (text part : List Char) : Bool := decide (part <:+: text)

/-- The loop of `match_score` over the names of a map entry. -/
def firstScore (fullNorm baseNorm : List Char) : List (List Char) → Nat
  | [] => 0
  | c :: candidates =>
    if c.isEmpty then firstScore fullNorm baseNorm candidates
    else if contains c fullNorm || contains fullNorm c then 2
    else if !baseNorm.isEmpty && (contains c baseNorm || contains baseNorm c) then 1
    else firstScore fullNorm baseNorm candidates

/-- How well one name matches. Nothing matches a reference without letters and digits. -/
def candidateScore (fullNorm baseNorm c : List Char) : Nat :=
  if c = [] ∨ fullNorm = [] then 0
  else if contains c fullNorm || contains fullNorm c then 2
  else if !baseNorm.isEmpty && (contains c baseNorm || contains baseNorm c) then 1
  else 0

def strongest (fullNorm baseNorm : List Char) : List (List Char) → Nat
  | [] => 0
  | c :: candidates =>
    max (candidateScore fullNorm baseNorm c) (strongest fullNorm baseNorm candidates)

/-- The first name that matches at all matches partially, and a later one strongly. -/
def EarlyPartial (fullNorm baseNorm : List Char) : List (List Char) → Prop
  | [] => False
  | c :: candidates =>
    candidateScore fullNorm baseNorm c = 1 ∧
        (∃ later ∈ candidates, candidateScore fullNorm baseNorm later = 2) ∨
      candidateScore fullNorm baseNorm c = 0 ∧ EarlyPartial fullNorm baseNorm candidates

section Scores

variable {fullNorm baseNorm : List Char}

theorem candidateScore_le (fullNorm baseNorm c : List Char) :
    candidateScore fullNorm baseNorm c ≤ 2 := by
  rw [candidateScore]
  split_ifs <;> omega

theorem strongest_le (fullNorm baseNorm : List Char) (candidates : List (List Char)) :
    strongest fullNorm baseNorm candidates ≤ 2 := by
  induction candidates with
  | nil => exact Nat.zero_le 2
  | cons first candidates ih => exact max_le (candidateScore_le fullNorm baseNorm first) ih

theorem strongest_le_one_iff {candidates : List (List Char)} :
    strongest fullNorm baseNorm candidates ≤ 1 ↔
      ¬ ∃ c ∈ candidates, candidateScore fullNorm baseNorm c = 2 := by
  induction candidates with
  | nil => simp [strongest]
  | cons first candidates ih =>
    have bounded := candidateScore_le fullNorm baseNorm first
    rw [strongest, max_le_iff, ih, exists_mem_cons_iff, not_or]
    exact and_congr_left fun _ => by omega

theorem firstScore_cons (full : fullNorm ≠ []) (c : List Char) (candidates : List (List Char)) :
    firstScore fullNorm baseNorm (c :: candidates) =
      if candidateScore fullNorm baseNorm c = 0 then firstScore fullNorm baseNorm candidates
      else candidateScore fullNorm baseNorm c := by
  rw [firstScore, candidateScore]
  by_cases empty : c = []
  · simp [empty]
  · by_cases strong : (contains c fullNorm || contains fullNorm c) = true
    · simp [empty, full, strong]
    · by_cases weak : (!baseNorm.isEmpty && (contains c baseNorm || contains baseNorm c)) = true
      · simp only [empty, full, strong, weak, List.isEmpty_iff]
        simp
      · simp only [empty, full, strong, weak, List.isEmpty_iff]
        simp

theorem firstScore_eq_strongest_iff (full : fullNorm ≠ []) (candidates : List (List Char)) :
    firstScore fullNorm baseNorm candidates = strongest fullNorm baseNorm candidates ↔
      ¬ EarlyPartial fullNorm baseNorm candidates := by
  induction candidates with
  | nil => simp [firstScore, strongest, EarlyPartial]
  | cons c candidates ih =>
    have bounded := candidateScore_le fullNorm baseNorm c
    rw [firstScore_cons full, strongest, EarlyPartial]
    rcases (by omega : candidateScore fullNorm baseNorm c = 0 ∨
      candidateScore fullNorm baseNorm c = 1 ∨ candidateScore fullNorm baseNorm c = 2) with
      nothing | weak | strong
    · simp [nothing, ih]
    · have later := @strongest_le_one_iff fullNorm baseNorm candidates
      rw [weak, if_neg one_ne_zero, eq_comm, max_eq_left_iff, later]
      simp
    · have below : strongest fullNorm baseNorm candidates ≤ 2 := strongest_le _ _ _
      simp [strong, max_eq_left below]

/-- A reference without letters and digits gets the score 2 from every name that has some. -/
theorem firstScore_nil_eq_zero_iff {candidates : List (List Char)} :
    firstScore [] baseNorm candidates = 0 ↔ ∀ c ∈ candidates, c = [] := by
  induction candidates with
  | nil => simp [firstScore]
  | cons c candidates ih =>
    rw [forall_mem_cons, ← ih, firstScore]
    cases c with
    | nil => simp
    | cons character c => simp [contains]

theorem strongest_nil (candidates : List (List Char)) : strongest [] baseNorm candidates = 0 := by
  induction candidates with
  | nil => rfl
  | cons c candidates ih => simp [strongest, candidateScore, ih]

end Scores

/-! ## Models and entries -/

namespace UnicodeTables

variable (tables : UnicodeTables)

/-- `normalize`. -/
def normalize (s : String) : List Char := tables.toLowercase (s.toList.filter tables.isAlphanumeric)

theorem normalize_eq_nil_iff {s : String} :
    tables.normalize s = [] ↔ ∀ character ∈ s.toList, tables.isAlphanumeric character = false := by
  rw [normalize, tables.toLowercase_eq_nil, filter_eq_nil_iff]
  simp

/-- The names of a map entry: its display name, its DHT name and the display name without the
owner. -/
def candidates (report : MapModelReport) : List (List Char) :=
  let modelPart := ((report.shortName.toList.splitOn '/').getLast?.getD report.shortName.toList)
  [tables.normalize report.shortName, tables.normalize report.dhtPrefix,
    tables.normalize (String.ofList modelPart)]

/-- The reference of a local model without its tag. -/
def baseNorm (ollamaRef : String) : List Char := tables.normalize (Text.before ':' ollamaRef)

/-- `match_score`. -/
def matchScore (ollamaRef : String) (report : MapModelReport) : Nat :=
  firstScore (tables.normalize ollamaRef) (tables.baseNorm ollamaRef) (tables.candidates report)

def strongestScore (ollamaRef : String) (report : MapModelReport) : Nat :=
  strongest (tables.normalize ollamaRef) (tables.baseNorm ollamaRef) (tables.candidates report)

/-- The match is misjudged: the reference has no letters and digits but the entry has some, or the
first name of the entry that matches does so partially and a later one strongly. -/
def Misjudged (ollamaRef : String) (report : MapModelReport) : Prop :=
  tables.normalize ollamaRef = [] ∧ (∃ c ∈ tables.candidates report, c ≠ []) ∨
    tables.normalize ollamaRef ≠ [] ∧
      EarlyPartial (tables.normalize ollamaRef) (tables.baseNorm ollamaRef)
        (tables.candidates report)

theorem matchScore_eq_strongestScore_iff (ollamaRef : String) (report : MapModelReport) :
    tables.matchScore ollamaRef report = tables.strongestScore ollamaRef report ↔
      ¬ tables.Misjudged ollamaRef report := by
  rw [matchScore, strongestScore, Misjudged]
  by_cases full : tables.normalize ollamaRef = []
  · rw [full, strongest_nil, firstScore_nil_eq_zero_iff]
    simp
  · rw [firstScore_eq_strongest_iff full]
    simp [full]

end UnicodeTables

/-! ## The choice -/

structure ModelChoice where
  ollamaRef : String
  mapName : Option String
  dhtPrefix : Option String
  repository : Option String
  serverCount : Nat
  deriving DecidableEq

/-- `non_empty`. -/
def nonEmpty (s : String) : Option String := if s.isEmpty then none else some s

/-- A local model with the entry it is matched with. -/
structure Scored where
  ollamaRef : String
  score : Nat
  count : Nat
  report : MapModelReport

def Scored.choice (entry : Scored) : ModelChoice :=
  ⟨entry.ollamaRef, some entry.report.shortName, nonEmpty entry.report.dhtPrefix,
    nonEmpty entry.report.repository, entry.count⟩

/-- The order of the list: strong matches first, then by the number of servers. -/
def compareScored (a b : Scored) : Ordering :=
  (compare b.score a.score).then (compare b.count a.count)

section Choice

variable (tables : UnicodeTables) (modelReports : List MapModelReport)

def matching (ollamaRef : String) : List Scored :=
  modelReports.filterMap fun report =>
    if 0 < tables.matchScore ollamaRef report then
      some ⟨ollamaRef, tables.matchScore ollamaRef report, report.serverCount, report⟩
    else none

def Scored.weight (entry : Scored) : Nat := entry.score * 100000 + entry.count

def scored (localModels : List String) : List Scored :=
  localModels.filterMap fun ollamaRef =>
    maxByKey Scored.weight (matching tables modelReports ollamaRef)

/-- `pick_best_model`. -/
def pickBestModel (localModels : List String) (currentModel : String) : Option ModelChoice :=
  if localModels.isEmpty || modelReports.isEmpty then none
  else
    match insertionSort compareScored (scored tables modelReports localModels) with
    | [] => none
    | best :: others =>
      match (best :: others).find? fun entry => entry.ollamaRef = currentModel with
      | some current =>
        if current.score = best.score ∧ best.count ≤ current.count + 2 then some current.choice
        else some best.choice
      | none => some best.choice

/-! ## The best choice -/

def BestChoice (localModels : List String) (currentModel : String) (choice : ModelChoice) : Prop :=
  ∃ ollamaRef ∈ localModels, ∃ report ∈ modelReports,
    choice = Scored.choice ⟨ollamaRef, tables.strongestScore ollamaRef report,
      report.serverCount, report⟩ ∧
    0 < tables.strongestScore ollamaRef report ∧
    (∀ other ∈ localModels, ∀ entry ∈ modelReports,
      tables.strongestScore other entry ≤ tables.strongestScore ollamaRef report) ∧
    ∀ other ∈ localModels, ∀ entry ∈ modelReports,
      tables.strongestScore other entry = tables.strongestScore ollamaRef report →
        entry.serverCount ≤ report.serverCount ∨
          ollamaRef = currentModel ∧ entry.serverCount ≤ report.serverCount + 2

/-- The choice is best, there is none exactly if nothing matches, and a reference without letters
and digits does not match. -/
structure ChoosesBest (localModels : List String) (currentModel : String) : Prop where
  none_iff : pickBestModel tables modelReports localModels currentModel = none ↔
    ∀ ollamaRef ∈ localModels, ∀ report ∈ modelReports, tables.strongestScore ollamaRef report = 0
  best : ∀ choice, pickBestModel tables modelReports localModels currentModel = some choice →
    BestChoice tables modelReports localModels currentModel choice
  silent : ∀ ollamaRef ∈ localModels,
    (∀ character ∈ ollamaRef.toList, tables.isAlphanumeric character = false) →
      ∀ report ∈ modelReports, tables.matchScore ollamaRef report = 0

variable {tables modelReports}

theorem mem_matching {ollamaRef : String} {entry : Scored}
    (member : entry ∈ matching tables modelReports ollamaRef) :
    entry.report ∈ modelReports ∧ 0 < tables.matchScore ollamaRef entry.report ∧
      entry = ⟨ollamaRef, tables.matchScore ollamaRef entry.report, entry.report.serverCount,
        entry.report⟩ := by
  obtain ⟨report, offered, made⟩ := mem_filterMap.mp member
  split_ifs at made with matched
  obtain rfl := Option.some.inj made
  exact ⟨offered, matched, rfl⟩

theorem mem_scored {localModels : List String} {entry : Scored}
    (member : entry ∈ scored tables modelReports localModels) :
    entry.ollamaRef ∈ localModels ∧
      entry ∈ matching tables modelReports entry.ollamaRef := by
  obtain ⟨ollamaRef, offered, selected⟩ := mem_filterMap.mp member
  obtain ⟨before, after, occurrence⟩ := (maxByKey_eq_some_iff _ _ _).mp selected
  have matched := occurrence.mem
  have same : entry.ollamaRef = ollamaRef := by rw [(mem_matching matched).2.2]
  rw [same]
  exact ⟨offered, matched⟩

theorem exists_scored {localModels : List String} {ollamaRef : String} {report : MapModelReport}
    (offered : ollamaRef ∈ localModels) (reported : report ∈ modelReports)
    (matched : 0 < tables.matchScore ollamaRef report) :
    ∃ entry ∈ scored tables modelReports localModels, entry.ollamaRef = ollamaRef ∧
      tables.matchScore ollamaRef report * 100000 + report.serverCount ≤ entry.weight := by
  have member : (⟨ollamaRef, tables.matchScore ollamaRef report, report.serverCount, report⟩ :
      Scored) ∈ matching tables modelReports ollamaRef :=
    mem_filterMap.mpr ⟨report, reported, if_pos matched⟩
  cases found : maxByKey Scored.weight (matching tables modelReports ollamaRef) with
  | none =>
    rw [(maxByKey_eq_none_iff _ _).mp found] at member
    cases member
  | some entry =>
    obtain ⟨before, after, occurrence⟩ := (maxByKey_eq_some_iff _ _ _).mp found
    have outweighed := occurrence.le member
    rw [Scored.weight] at outweighed
    refine ⟨entry, mem_filterMap.mpr ⟨ollamaRef, offered, found⟩, ?_, outweighed⟩
    rw [(mem_matching occurrence.mem).2.2]

/-- The score first, then the number of servers. -/
def Scored.rank (entry : Scored) : ℕ ×ₗ ℕ := toLex (entry.score, entry.count)

theorem refines_compareScored :
    Refines compareScored fun entry => OrderDual.toDual entry.rank := by
  intro first second higher
  have lower : second.rank < first.rank := higher
  rw [Scored.rank, Scored.rank, Prod.Lex.toLex_lt_toLex] at lower
  rw [compareScored, compareScored]
  rcases lower with below | ⟨same, below⟩
  · rw [compare_lt_iff_lt.mpr below, compare_gt_iff_gt.mpr below]
    exact ⟨rfl, rfl⟩
  · have equal : second.score = first.score := same
    rw [equal, compare_eq_iff_eq.mpr rfl, compare_lt_iff_lt.mpr below,
      compare_gt_iff_gt.mpr below]
    exact ⟨rfl, rfl⟩

/-- No two entries of the map differ by 100000 servers or more. -/
def CountsClose (modelReports : List MapModelReport) : Prop :=
  ∀ report ∈ modelReports, ∀ other ∈ modelReports,
    report.serverCount < other.serverCount + 100000

instance : Decidable (CountsClose modelReports) :=
  inferInstanceAs (Decidable (∀ report ∈ modelReports, ∀ other ∈ modelReports, _))

variable {localModels : List String} {best : Scored} {others : List Scored}

theorem rank_le_best (close : CountsClose modelReports)
    (sorted : Sorter.insertion.sort compareScored (scored tables modelReports localModels) =
      best :: others)
    {ollamaRef : String} {report : MapModelReport} (offered : ollamaRef ∈ localModels)
    (reported : report ∈ modelReports) (matched : 0 < tables.matchScore ollamaRef report) :
    toLex (tables.matchScore ollamaRef report, report.serverCount) ≤ best.rank := by
  obtain ⟨entry, member, named, outweighed⟩ := exists_scored offered reported matched
  have below : entry.rank ≤ best.rank :=
    Sorter.key_le refines_compareScored sorted member
  refine le_trans ?_ below
  obtain ⟨entryReported, -, shape⟩ := mem_matching (mem_scored member).2
  have counted : entry.count = entry.report.serverCount := by rw [shape]
  have bounded := close entry.report entryReported report reported
  rw [Scored.weight] at outweighed
  rw [Scored.rank, Prod.Lex.toLex_le_toLex]
  dsimp only
  omega

theorem scored_shape
    (clear : ∀ ollamaRef ∈ localModels, ∀ report ∈ modelReports,
      ¬ tables.Misjudged ollamaRef report)
    {entry : Scored} (member : entry ∈ scored tables modelReports localModels) :
    entry.ollamaRef ∈ localModels ∧ entry.report ∈ modelReports ∧
      0 < tables.strongestScore entry.ollamaRef entry.report ∧
      entry = ⟨entry.ollamaRef, tables.strongestScore entry.ollamaRef entry.report,
        entry.report.serverCount, entry.report⟩ := by
  obtain ⟨offered, matched⟩ := mem_scored member
  obtain ⟨reported, positive, shape⟩ := mem_matching matched
  rw [← (tables.matchScore_eq_strongestScore_iff _ _).mpr (clear _ offered _ reported)]
  exact ⟨offered, reported, positive, shape⟩

theorem pickBestModel_eq_some {currentModel : String} {choice : ModelChoice}
    (picked : pickBestModel tables modelReports localModels currentModel = some choice) :
    ∃ best others, Sorter.insertion.sort compareScored (scored tables modelReports localModels) =
      best :: others ∧ ∃ entry ∈ best :: others, choice = entry.choice ∧
        (entry = best ∨ entry.ollamaRef = currentModel ∧ entry.score = best.score ∧
          best.count ≤ entry.count + 2) := by
  rw [pickBestModel] at picked
  split_ifs at picked
  split at picked
  case h_1 => cases picked
  case h_2 best others sorted =>
    refine ⟨best, others, sorted, ?_⟩
    have first : ∃ entry ∈ best :: others, best.choice = entry.choice ∧
        (entry = best ∨ entry.ollamaRef = currentModel ∧ entry.score = best.score ∧
          best.count ≤ entry.count + 2) := ⟨best, mem_cons_self, rfl, .inl rfl⟩
    split at picked
    case h_1 current found =>
      have named := List.find?_some found
      split_ifs at picked with competitive
      · obtain rfl := Option.some.inj picked
        exact ⟨current, mem_of_find?_eq_some found, rfl,
          .inr ⟨of_decide_eq_true named, competitive⟩⟩
      · obtain rfl := Option.some.inj picked
        exact first
    case h_2 =>
      obtain rfl := Option.some.inj picked
      exact first

theorem pickBestModel_eq_none_iff {currentModel : String} :
    pickBestModel tables modelReports localModels currentModel = none ↔
      scored tables modelReports localModels = [] := by
  have permuted := insertionSort_perm compareScored (scored tables modelReports localModels)
  rw [pickBestModel]
  constructor
  · intro nothing
    split_ifs at nothing with absent
    · rcases Bool.or_eq_true_iff.mp absent with noModels | noReports
      · rw [isEmpty_iff.mp noModels]
        rfl
      · rw [isEmpty_iff.mp noReports, eq_nil_iff_forall_not_mem]
        intro entry member
        cases (mem_matching (mem_scored member).2).1
    · split at nothing
      case h_1 sorted => rwa [sorted, nil_perm] at permuted
      case h_2 =>
        split at nothing
        · split_ifs at nothing
        · cases nothing
  · intro empty
    rw [empty]
    exact ite_self _

section Judged

variable (clear : ∀ ollamaRef ∈ localModels, ∀ report ∈ modelReports,
  ¬ tables.Misjudged ollamaRef report)

include clear

theorem matchScore_of_clear {ollamaRef : String} {report : MapModelReport}
    (offered : ollamaRef ∈ localModels) (reported : report ∈ modelReports) :
    tables.matchScore ollamaRef report = tables.strongestScore ollamaRef report :=
  (tables.matchScore_eq_strongestScore_iff ollamaRef report).mpr (clear _ offered _ reported)

/-- There is no choice exactly if nothing matches. -/
theorem pickBestModel_eq_none_iff_of_clear {currentModel : String} :
    pickBestModel tables modelReports localModels currentModel = none ↔
      ∀ ollamaRef ∈ localModels, ∀ report ∈ modelReports,
        tables.strongestScore ollamaRef report = 0 := by
  rw [pickBestModel_eq_none_iff]
  constructor
  · intro empty ollamaRef offered report reported
    by_contra matched
    rw [← matchScore_of_clear clear offered reported] at matched
    obtain ⟨entry, member, -⟩ := exists_scored offered reported (Nat.pos_of_ne_zero matched)
    rw [empty] at member
    cases member
  · intro silent
    rw [eq_nil_iff_forall_not_mem]
    intro entry member
    obtain ⟨offered, reported, positive, -⟩ := scored_shape clear member
    exact absurd (silent _ offered _ reported) positive.ne'

theorem strongestScore_lt_or (close : CountsClose modelReports)
    (sorted : Sorter.insertion.sort compareScored (scored tables modelReports localModels) =
      best :: others)
    {ollamaRef : String} {report : MapModelReport} (offered : ollamaRef ∈ localModels)
    (reported : report ∈ modelReports) (matched : 0 < tables.strongestScore ollamaRef report) :
    tables.strongestScore ollamaRef report < best.score ∨
      tables.strongestScore ollamaRef report = best.score ∧ report.serverCount ≤ best.count := by
  rw [← matchScore_of_clear clear offered reported] at matched ⊢
  have below := rank_le_best close sorted offered reported matched
  rwa [Scored.rank, Prod.Lex.toLex_le_toLex] at below

theorem bestChoice_of_pickBestModel (close : CountsClose modelReports) {currentModel : String}
    {choice : ModelChoice}
    (picked : pickBestModel tables modelReports localModels currentModel = some choice) :
    BestChoice tables modelReports localModels currentModel choice := by
  obtain ⟨best, others, sorted, entry, member, rfl, kept⟩ := pickBestModel_eq_some picked
  have listed : entry ∈ scored tables modelReports localModels := by
    rw [← sorted] at member
    exact (Sorter.insertion.perm compareScored _).mem_iff.mp member
  obtain ⟨offered, reported, positive, shape⟩ := scored_shape clear listed
  have score : entry.score = tables.strongestScore entry.ollamaRef entry.report := by rw [shape]
  have count : entry.count = entry.report.serverCount := by rw [shape]
  have level : entry.score = best.score :=
    kept.elim (fun same => by rw [same]) fun near => near.2.1
  refine ⟨entry.ollamaRef, offered, entry.report, reported, by rw [← shape], positive, ?_, ?_⟩
  · intro other another report listed
    have below := strongestScore_lt_or clear close sorted another listed
    omega
  · intro other another report listed same
    have below := strongestScore_lt_or clear close sorted another listed (by omega)
    rcases kept with rfl | ⟨named, -, near⟩
    · exact .inl (by omega)
    · exact .inr ⟨named, by omega⟩

end Judged

end Choice

def llamaInstruct : MapModelReport :=
  ⟨"unsloth/Llama-3.1-8B-Instruct", "Llama-3-1-8B-Instruct-hf", "", [.null, .null]⟩

def phi : MapModelReport := ⟨"phi", "", "", [.null]⟩

def llamaLarge : MapModelReport :=
  ⟨"llama3-70b", "llama3-8b", "", [.null, .null, .null, .null, .null]⟩

end KwaaiNet
