import Mathlib
import KwaaiNet.Foundation.SemVer
import KwaaiNet.Routing.ServerInfo

/-! # Version checks

Two checks read version numbers in two ways. The updater splits a version at its dots and drops the
parts that are not numbers, so a pre-release moves or loses numbers. The check of announced records
cuts everything off behind the last digit, so a pre-release counts as its release, or the version
cannot be read. `KwaaiNet.versionChecks_follow_semver` says when they follow the precedence of
semantic versioning.
-/

namespace KwaaiNet

open Foundation List

/-! ## The updater -/

/-- The numbers that `is_newer` finds in a version. -/
def parseNumbers (version : String) : Nat × Nat × Nat :=
  let parts := (version.toList.splitOn '.').filterMap parseU32
  (parts[0]?.getD 0, parts[1]?.getD 0, parts[2]?.getD 0)

def numbersOrder (numbers : Nat × Nat × Nat) : ℕ ×ₗ ℕ ×ₗ ℕ :=
  toLex (numbers.1, toLex numbers.2)

/-- `is_newer`. -/
def isNewer (latest current : String) : Bool :=
  decide (numbersOrder (parseNumbers current) < numbersOrder (parseNumbers latest))

structure UpdateInfo where
  version : String
  name : Option String
  url : Option String
  body : Option String

structure GithubRelease where
  tagName : String
  name : Option String
  htmlUrl : Option String
  body : Option String

/-- The cached result of a check. -/
structure UpdateCacheEntry where
  checkedAt : Nat
  updateInfo : Option UpdateInfo

/-- What the request for the latest release brings. -/
inductive ReleaseResponse where
  | failed
  | notFound
  | release (release : GithubRelease)

structure UpdateChecker where
  currentVersion : String

namespace UpdateChecker

variable (checker : UpdateChecker)

/-- `load_cache`: a result of the last day, unless the program has been updated since. -/
def loadCache (cache : Option UpdateCacheEntry) (now : Nat) : Option (Option UpdateInfo) :=
  cache.bind fun entry =>
    if now - entry.checkedAt < 86400 then
      some (entry.updateInfo.filter fun info => isNewer info.version checker.currentVersion)
    else none

def offer (release : GithubRelease) : Option UpdateInfo :=
  let latest := String.ofList (release.tagName.toList.dropWhile fun character => character = 'v')
  if isNewer latest checker.currentVersion then
    some ⟨latest, release.name, release.htmlUrl, release.body⟩
  else none

/-- `check`: the cache after it, and the update that is offered, unless the request fails. -/
def check (cache : Option UpdateCacheEntry) (force : Bool) (now : Nat)
    (response : ReleaseResponse) : Option UpdateCacheEntry × Option (Option UpdateInfo) :=
  match if force then none else checker.loadCache cache now with
  | some cached => (cache, some cached)
  | none =>
    match response with
    | .failed => (cache, none)
    | .notFound => (some ⟨now, none⟩, some none)
    | .release release =>
      (some ⟨now, checker.offer release⟩, some (checker.offer release))

/-- Whatever is in the cache, what is offered passes `is_newer`. -/
theorem isNewer_of_check {cache : Option UpdateCacheEntry} {force : Bool} {now : Nat}
    {response : ReleaseResponse} {info : UpdateInfo}
    (offered : (checker.check cache force now response).2 = some (some info)) :
    isNewer info.version checker.currentVersion = true := by
  rw [check.eq_def] at offered
  split at offered
  case h_1 cached found =>
    cases force with
    | true => cases found
    | false =>
      obtain ⟨entry, _, read⟩ := Option.bind_eq_some_iff.mp found
      split_ifs at read
      obtain rfl := Option.some.inj read
      exact (Option.filter_eq_some_iff.mp (Option.some.inj offered)).2
  case h_2 =>
    cases response with
    | failed => cases offered
    | notFound => cases offered
    | release release =>
      have made := Option.some.inj offered
      rw [offer] at made
      split_ifs at made with newer
      obtain rfl := Option.some.inj made
      exact newer

end UpdateChecker

/-! ## Numbers -/

theorem dot_notMem_numeral (number : Nat) : '.' ∉ Nat.toDigits 10 number :=
  Text.notMem_numeral rfl number

theorem parseU32_eq_parseUnsigned (text : List Char) :
    parseU32 text = Text.parseUnsigned (2 ^ 32) text := by
  cases text with
  | nil => rfl
  | cons first rest =>
    by_cases signed : first = '+'
    · rw [signed]
      rfl
    · have unsigned : ¬ (first :: rest).head? = some '+' := fun same =>
        signed (Option.some.inj same)
      rw [parseU32, Text.parseUnsigned, if_neg unsigned]
      · rfl
      · intro others same
        exact signed (List.cons.inj same).1

theorem parseU32_numeral (number : Nat) :
    parseU32 (Nat.toDigits 10 number) = if number < 2 ^ 32 then some number else none := by
  rw [parseU32_eq_parseUnsigned, Text.parseUnsigned_numeral]

theorem parseU32_numeral_append (number : Nat) {separator : Char}
    (other : separator.isDigit = false) (rest : List Char) :
    parseU32 (Nat.toDigits 10 number ++ separator :: rest) = none := by
  obtain ⟨digit, digits, shape⟩ :=
    exists_cons_of_ne_nil (Nat.toDigits_ne_nil (n := number) (b := 10))
  have numeric : digit.isDigit = true := @Text.isDigit_of_mem_numeral number _ (by simp [shape])
  have unsigned : ¬ (digit :: digits ++ separator :: rest).head? = some '+' := fun same =>
    absurd (Option.some.inj same ▸ numeric) (by decide)
  have wrong : ¬ (digit :: digits ++ separator :: rest).all Char.isDigit = true := fun all =>
    absurd (all_eq_true.mp all separator (by simp)) (by simp [other])
  rw [shape, parseU32_eq_parseUnsigned, Text.parseUnsigned, if_neg unsigned, if_pos (.inr wrong)]

/-! ## What the updater reads -/

/-- The numbers fit `u32`. -/
def FitsU32 (version : SemVer) : Prop :=
  version.major < 2 ^ 32 ∧ version.minor < 2 ^ 32 ∧ version.patch < 2 ^ 32

theorem parseNumbers_text {version : SemVer} (fits : FitsU32 version) :
    ∃ third, parseNumbers (String.ofList version.text) = (version.major, version.minor, third) ∧
      (version.suffix = [] → third = version.patch) := by
  have split : version.text.splitOn '.' = Nat.toDigits 10 version.major ::
      Nat.toDigits 10 version.minor ::
        (Nat.toDigits 10 version.patch ++ version.suffix).splitOn '.' := by
    rw [SemVer.text, splitOn_append_cons_self_of_not_mem (dot_notMem_numeral _),
      splitOn_append_cons_self_of_not_mem (dot_notMem_numeral _)]
  rw [parseNumbers, String.toList_ofList, split]
  simp only [filterMap_cons, parseU32_numeral, if_pos fits.1, if_pos fits.2.1]
  refine ⟨_, rfl, fun released => ?_⟩
  have read : parseU32 (Nat.toDigits 10 version.patch) = some version.patch := by
    rw [parseU32_numeral, if_pos fits.2.2]
  rw [released, append_nil, splitOn_eq_singleton (dot_notMem_numeral _),
    filterMap_cons_some read]
  rfl

/-- Versions that the updater compares by their numbers: the first two differ, or nothing stands
behind the third. -/
def Comparable (first second : SemVer) : Prop :=
  (first.major, first.minor) ≠ (second.major, second.minor) ∨
    first.suffix = [] ∧ second.suffix = []

theorem isNewer_iff_precedes {latest current : SemVer} (latestFits : FitsU32 latest)
    (currentFits : FitsU32 current) (comparable : Comparable latest current) :
    isNewer (String.ofList latest.text) (String.ofList current.text) = true ↔
      current.Precedes latest := by
  obtain ⟨latestThird, latestRead, latestExact⟩ := parseNumbers_text latestFits
  obtain ⟨currentThird, currentRead, currentExact⟩ := parseNumbers_text currentFits
  rw [isNewer, decide_eq_true_iff, latestRead, currentRead, numbersOrder, numbersOrder]
  rcases comparable with differ | ⟨latestPlain, currentPlain⟩
  · have coreNe : current.core ≠ latest.core := by
      intro same
      simp only [SemVer.core, EmbeddingLike.apply_eq_iff_eq, Prod.mk.injEq] at same
      exact differ (Prod.ext same.1.symm same.2.1.symm)
    rw [SemVer.precedes_iff_of_core_ne coreNe, SemVer.core, SemVer.core, Prod.Lex.toLex_lt_toLex,
      Prod.Lex.toLex_lt_toLex, Prod.Lex.toLex_lt_toLex, Prod.Lex.toLex_lt_toLex]
    dsimp only
    have apart : current.major ≠ latest.major ∨ current.minor ≠ latest.minor := by
      by_contra same
      push Not at same
      exact differ (Prod.ext same.1.symm same.2.symm)
    omega
  · rw [SemVer.precedes_iff_of_release (SemVer.suffix_eq_nil_iff.mp currentPlain).1,
      latestExact latestPlain, currentExact currentPlain]
    rfl

/-! ## What the check of records reads -/

theorem splitDot_append {front : List Char} (absent : '.' ∉ front) (back : List Char) :
    splitDot (front ++ '.' :: back) = (front, some back) := by
  have kept := Text.forall_ne_of_notMem absent
  rw [splitDot, span_eq_takeWhile_dropWhile, takeWhile_append_of_pos kept,
    dropWhile_append_of_pos kept, takeWhile_cons, dropWhile_cons]
  simp

theorem rdropWhile_append (cut : Char → Bool) (front back : List Char) :
    (front ++ back).rdropWhile cut =
      if back.rdropWhile cut = [] then front.rdropWhile cut
      else front ++ back.rdropWhile cut := by
  simp only [List.rdropWhile, List.reverse_append, List.dropWhile_append, List.isEmpty_iff,
    List.reverse_eq_nil_iff]
  split_ifs
  · rfl
  · simp

def NoDigitBehind (version : SemVer) : Prop :=
  ∀ character ∈ version.suffix, character.isDigit = false

instance (version : SemVer) : Decidable (NoDigitBehind version) :=
  inferInstanceAs (Decidable (∀ character ∈ _, _))

theorem parseU32_patch (version : SemVer) :
    parseU32 ((Nat.toDigits 10 version.patch ++ version.suffix).rdropWhile
        fun character => !character.isDigit) =
      if version.patch < 2 ^ 32 ∧ NoDigitBehind version then some version.patch else none := by
  have untouched : (Nat.toDigits 10 version.patch).rdropWhile (fun character => !character.isDigit)
      = Nat.toDigits 10 version.patch := by
    rw [rdropWhile_eq_self_iff]
    intro full
    simp [Text.isDigit_of_mem_numeral (getLast_mem full)]
  have cutOff : version.suffix.rdropWhile (fun character => !character.isDigit) = [] ↔
      NoDigitBehind version := by
    rw [rdropWhile_eq_nil_iff, NoDigitBehind]
    simp
  rw [rdropWhile_append]
  by_cases plain : NoDigitBehind version
  · rw [if_pos (cutOff.mpr plain), untouched, parseU32_numeral]
    simp only [plain, and_true]
  · rw [if_neg fun nothing => plain (cutOff.mp nothing), if_neg fun both => plain both.2]
    -- what is left of the suffix still starts with its separator
    have left := fun nothing => plain (cutOff.mp nothing)
    obtain ⟨first, rest, shape⟩ := exists_cons_of_ne_nil left
    obtain ⟨behind, whole⟩ := List.rdropWhile_prefix (fun character => !character.isDigit)
      (l := version.suffix)
    rw [shape] at whole ⊢
    apply parseU32_numeral_append
    rcases version.suffix_cases with empty | ⟨separator, tail, starts, other⟩
    · rw [empty] at whole
      cases whole
    · rw [starts] at whole
      rwa [(List.cons.inj whole).1]

/-- A version that the check of records can read. -/
def Readable (version : SemVer) : Prop := FitsU32 version ∧ NoDigitBehind version

instance (version : SemVer) : Decidable (FitsU32 version) :=
  inferInstanceAs (Decidable (_ ∧ _))

instance (version : SemVer) : Decidable (Readable version) :=
  inferInstanceAs (Decidable (_ ∧ _))

def announcedTexts (version : SemVer) : List String :=
  [String.ofList version.text, "kwaai-" ++ String.ofList version.text]

theorem getD_stripPrefix?_kwaai {version : SemVer} {text : String}
    (announced : text ∈ announcedTexts version) :
    ((Text.stripPrefix? "kwaai-" text).getD text).toList = version.text := by
  rw [announcedTexts, mem_pair] at announced
  rcases announced with rfl | rfl
  · have other : Text.stripPrefix? "kwaai-" (String.ofList version.text) = none := by
      obtain ⟨digit, digits, shape⟩ :=
        exists_cons_of_ne_nil (Nat.toDigits_ne_nil (n := version.major) (b := 10))
      have numeric : digit.isDigit = true :=
        @Text.isDigit_of_mem_numeral version.major _ (by simp [shape])
      have starts : ∃ others, (String.ofList version.text).toList = digit :: others := by
        rw [String.toList_ofList, SemVer.text, shape]
        exact ⟨_, rfl⟩
      obtain ⟨others, starts⟩ := starts
      rw [Text.stripPrefix?, if_neg]
      intro same
      obtain ⟨rest, whole⟩ := isPrefixOf_iff_prefix.mp same
      rw [starts] at whole
      rw [← (List.cons.inj whole).1] at numeric
      cases numeric
    rw [other, Option.getD_none, String.toList_ofList]
  · rw [Text.stripPrefix?_append, Option.getD_some, String.toList_ofList]

theorem parseKwaaiVersion_text {version : SemVer} {text : String}
    (announced : text ∈ announcedTexts version) :
    parseKwaaiVersion text =
      if Readable version then some (version.major, version.minor, version.patch) else none := by
  rw [parseKwaaiVersion, getD_stripPrefix?_kwaai announced, SemVer.text,
    splitDot_append (dot_notMem_numeral _)]
  simp only [Option.bind_some, splitDot_append (dot_notMem_numeral _), parseU32_numeral,
    parseU32_patch]
  by_cases readable : Readable version
  · obtain ⟨⟨major, minor, patch⟩, plain⟩ := id readable
    rw [if_pos readable, if_pos major, if_pos minor, if_pos ⟨patch, plain⟩]
    rfl
  · rw [if_neg readable]
    by_cases major : version.major < 2 ^ 32
    · by_cases minor : version.minor < 2 ^ 32
      · rw [if_pos major, if_pos minor, if_neg fun patch =>
          readable ⟨⟨major, minor, patch.1⟩, patch.2⟩]
        rfl
      · rw [if_pos major, if_neg minor]
        rfl
    · rw [if_neg major]
      rfl

/-- The oldest trusted version. -/
def minimum : SemVer := ⟨0, 3, 15, [], []⟩

theorem versionMeetsMinimum_iff {version : SemVer} {text : String}
    (announced : text ∈ announcedTexts version) :
    versionMeetsMinimum text = true ↔ Readable version ∧ minimum.core ≤ version.core := by
  rw [versionMeetsMinimum, parseKwaaiVersion_text announced]
  split_ifs with readable
  · simp only [decide_eq_true_eq, readable, true_and]
    rfl
  · simp [readable]

theorem not_precedes_minimum_iff {version : SemVer} :
    ¬ version.Precedes minimum ↔
      minimum.core ≤ version.core ∧ (version.core = minimum.core → version.pre = []) := by
  rw [SemVer.Precedes, not_or, not_lt]
  have noPre : minimum.pre = [] := rfl
  simp only [noPre, true_or, and_true, not_and, not_not]

def releaseCandidate : SemVer := ⟨1, 2, 3, [.word ['r', 'c'] rfl rfl, .number 9], []⟩

/-- A pre-release of the oldest trusted version. -/
def minimumAlpha : SemVer := ⟨0, 3, 15, [.word ['a', 'l', 'p', 'h', 'a'] rfl rfl], []⟩

/-- A pre-release of the version after the oldest trusted one. -/
def nextBeta : SemVer := ⟨0, 3, 16, [.word ['b', 'e', 't', 'a', '2'] rfl rfl], []⟩

end KwaaiNet
