import KwaaiNet.Foundation.LexicalPath

/-! # Joining file names of a model repository

`safe_join` puts a file name that the hub sent below the snapshot directory and rejects what
would leave it. What it returns is inside and normalised (`KwaaiNet.safeJoin_eq_ok_iff`), but
below an absolute directory it returns nothing (`KwaaiNet.safeJoin_exact_iff`).
-/

namespace KwaaiNet

open Foundation Foundation.Path List

/-- A path of names, as pushing names and popping them makes it. -/
abbrev NamePath := List (List Char)

inductive SafeJoinError where
  | traversal
  | absolute
  | outside
  deriving DecidableEq

def SafeJoinError.message (untrusted : String) : SafeJoinError → String
  | .traversal => "Path traversal attempt rejected: " ++ untrusted
  | .absolute => "Absolute path rejected in filename: " ++ untrusted
  | .outside => "Refusing to write outside snapshot directory: " ++ untrusted

/-- The loop of `safe_join` over the components. -/
def normalise : List Component → NamePath → Except SafeJoinError NamePath
  | [], normalized => .ok normalized
  | .parentDir :: found, normalized =>
    if normalized = [] then .error .traversal else normalise found normalized.dropLast
  | .normal name :: found, normalized => normalise found (normalized ++ [name])
  | .rootDir :: _, _ => .error .absolute
  | .curDir :: found, normalized => normalise found normalized

def Inside (base : Path) (path : NamePath) : Prop := components base <+: path.map .normal

instance (base : Path) (path : NamePath) : Decidable (Inside base path) :=
  inferInstanceAs (Decidable (_ <+: _))

/-- `safe_join`. -/
def safeJoin (base untrusted : Path) : Except SafeJoinError NamePath :=
  match normalise (components (join base untrusted)) [] with
  | .error fault => .error fault
  | .ok normalized => if Inside base normalized then .ok normalized else .error .outside

/-! ## What is returned -/

/-- The loop computes the lexical normalisation, where that does not leave its start. -/
theorem normalise_eq_ok_iff {found : List Component} {names normalized : NamePath} :
    normalise found names = .ok normalized ↔
      normalFrom ⟨false, 0, names⟩ found = ⟨false, 0, normalized⟩ := by
  induction found generalizing names with
  | nil =>
    rw [normalise, normalFrom, foldl_nil, Except.ok.injEq, NormalPath.mk.injEq]
    exact ⟨fun same => ⟨rfl, rfl, same⟩, fun same => same.2.2⟩
  | cons first found ih =>
    cases first with
    | curDir => exact ih
    | normal name => exact ih
    | rootDir =>
      exact iff_of_false (fun ok => by cases ok)
        ((NormalPath.Leaves.normalFrom (.inl rfl) found).ne normalized)
    | parentDir =>
      rw [normalise]
      split_ifs with none'
      · subst none'
        exact iff_of_false (fun ok => by cases ok)
          ((NormalPath.Leaves.normalFrom (.inr Nat.one_pos) found).ne normalized)
      · rw [ih, normalFrom, normalFrom, foldl_cons, NormalPath.step, if_pos none']

/-- `safe_join` returns the lexical normalisation of the joined path, if that is relative, does
not climb, and lies inside. -/
theorem safeJoin_eq_ok_iff {base untrusted : Path} {path : NamePath} :
    safeJoin base untrusted = .ok path ↔
      lexicalNormal (join base untrusted) = ⟨false, 0, path⟩ ∧ Inside base path := by
  rw [safeJoin, lexicalNormal, ← normalise_eq_ok_iff]
  cases normalise (components (join base untrusted)) [] with
  | error fault => exact iff_of_false (fun ok => by cases ok) (fun both => by cases both.1)
  | ok normalized =>
    dsimp only
    split_ifs with inside
    · exact ⟨fun same => ⟨same, Except.ok.inj same ▸ inside⟩, fun both => both.1⟩
    · refine iff_of_false (fun ok => by cases ok) fun both => inside ?_
      exact Except.ok.inj both.1 ▸ both.2

/-! ## Exactness -/

def NoDots (base : Path) : Prop :=
  ∀ found ∈ components base, found ≠ .curDir ∧ found ≠ .parentDir

instance (base : Path) : Decidable (NoDots base) :=
  inferInstanceAs (Decidable (∀ found ∈ components base, _))

/-- **Exactness.** What is returned lies inside the base and is the lexical normalisation of the
joined path, and a relative name that does not climb above its start is not rejected. -/
def Exact (base name : Path) : Prop :=
  (∀ path, safeJoin base name = .ok path →
    Inside base path ∧ (lexicalNormal (join base name)).components = path.map .normal) ∧
  (¬ IsAbsolute name → (lexicalNormal name).ups = 0 → ∃ path, safeJoin base name = .ok path)

theorem isAbsolute_join {base path : Path} :
    IsAbsolute (join base path) ↔ IsAbsolute path ∨ IsAbsolute base := by
  rw [join]
  by_cases absolute : IsAbsolute path
  · rw [if_pos absolute]
    exact iff_of_true absolute (.inl absolute)
  · rw [if_neg absolute]
    cases base with
    | nil => exact ⟨.inl, fun either => either.resolve_right (fun none' => by cases none')⟩
    | cons char rest => split_ifs <;> exact ⟨.inr, fun either => either.resolve_left absolute⟩

theorem exists_names {base : Path} (plain : NoDots base) (relative : ¬ IsAbsolute base) :
    ∃ names : NamePath, body base = names.map .normal ∧ components base = names.map .normal := by
  have all : ∀ found ∈ body base, found ∈ Set.range Component.normal := by
    intro found member
    rcases mem_body member with rfl | ⟨name, rfl⟩
    · exact absurd rfl (plain _ (mem_append_right _ member)).2
    · exact ⟨name, rfl⟩
  have range : body base ∈ Set.range (List.map Component.normal) := by
    rw [Set.range_list_map]
    exact all
  obtain ⟨names, named⟩ := range
  refine ⟨names, named.symm, ?_⟩
  have nothing : start base = [] := by
    rw [start, if_neg relative]
    split_ifs with dot
    · have member : Component.curDir ∈ components base := by
        rw [components, start, if_neg relative, if_pos dot]
        exact mem_cons_self
      exact absurd rfl (plain _ member).1
    · rfl
  rw [components, nothing, nil_append, named]

theorem normalFrom_names (before names : NamePath) :
    normalFrom ⟨false, 0, before⟩ (names.map .normal) = ⟨false, 0, before ++ names⟩ := by
  induction names generalizing before with
  | nil => rw [append_nil]; rfl
  | cons name names ih =>
    have next := ih (before ++ [name])
    rw [append_assoc] at next
    exact next

theorem exists_lexicalNormal {name : Path} (relative : ¬ IsAbsolute name)
    (level : (lexicalNormal name).ups = 0) :
    ∃ names, normalFrom ⟨false, 0, []⟩ (body name) = ⟨false, 0, names⟩ := by
  rw [lexicalNormal_of_relative relative] at level
  have unrooted := rooted_normalFrom ⟨false, 0, []⟩ (rootDir_notMem_body name)
  refine ⟨_, NormalPath.ext ?_ level rfl⟩
  exact unrooted

theorem safeJoin_of_relative {base name : Path} (plain : NoDots base)
    (relative : ¬ IsAbsolute base) (relativeName : ¬ IsAbsolute name)
    (level : (lexicalNormal name).ups = 0) : ∃ path, safeJoin base name = .ok path := by
  obtain ⟨names, named, whole⟩ := exists_names plain relative
  obtain ⟨more, normal⟩ := exists_lexicalNormal relativeName level
  refine ⟨names ++ more, safeJoin_eq_ok_iff.mpr ⟨?_, ?_⟩⟩
  · have joined : ¬ IsAbsolute (join base name) := by
      rw [isAbsolute_join]
      exact not_or.mpr ⟨relativeName, relative⟩
    have first : normalFrom ⟨false, 0, []⟩ (names.map .normal) = ⟨false, 0, names⟩ :=
      normalFrom_names [] names
    have second := normalFrom_append normal names
    rw [append_nil] at second
    calc lexicalNormal (join base name)
        = normalFrom ⟨false, 0, []⟩ (body base ++ body name) := by
          rw [lexicalNormal_of_relative joined, body_join relativeName]
      _ = normalFrom (normalFrom ⟨false, 0, []⟩ (body base)) (body name) := foldl_append
      _ = ⟨false, 0, names ++ more⟩ := by rw [named, first, second]
  · rw [Inside, whole, map_append]
    exact List.prefix_append _ _

/-- **Absolute bases.** Below an absolute base every name is rejected. -/
theorem safeJoin_of_absolute {base : Path} (absolute : IsAbsolute base) (name : Path) :
    ∃ fault, safeJoin base name = .error fault := by
  cases outcome : safeJoin base name with
  | error fault => exact ⟨fault, rfl⟩
  | ok path =>
    have joined : IsAbsolute (join base name) := isAbsolute_join.mpr (.inr absolute)
    have rooted : (lexicalNormal (join base name)).rooted = true := by
      rw [lexicalNormal, components, start, if_pos joined]
      exact rooted_normalFrom ⟨true, 0, []⟩ (rootDir_notMem_body _)
    rw [(safeJoin_eq_ok_iff.mp outcome).1] at rooted
    cases rooted

/-- **Exactness of `safe_join`.** Below a base without dot components it is exact for a name
unless the base is absolute and the name is relative and stays below its start. -/
theorem safeJoin_exact_iff (base name : Path) (plain : NoDots base) :
    Exact base name ↔
      ¬ IsAbsolute base ∨ IsAbsolute name ∨ (lexicalNormal name).ups ≠ 0 := by
  have sound : ∀ path, safeJoin base name = .ok path →
      Inside base path ∧ (lexicalNormal (join base name)).components = path.map .normal := by
    intro path joined
    obtain ⟨normal, inside⟩ := safeJoin_eq_ok_iff.mp joined
    rw [normal]
    exact ⟨inside, rfl⟩
  constructor
  · rintro ⟨_, complete⟩
    by_contra excluded
    push Not at excluded
    obtain ⟨absolute, relative, level⟩ := excluded
    obtain ⟨path, accepted⟩ := complete relative level
    obtain ⟨fault, rejected⟩ := safeJoin_of_absolute absolute name
    cases accepted.symm.trans rejected
  · intro condition
    refine ⟨sound, fun relativeName level => ?_⟩
    rcases condition with relative | absolute | climbs
    · exact safeJoin_of_relative plain relative relativeName level
    · exact absurd absolute relativeName
    · exact absurd level climbs

/-- A relative base, and a name that goes up and down again inside. -/
theorem hub_exact : Exact "hub/snapshots".toList "a/../config.json".toList :=
  (safeJoin_exact_iff _ _ (by decide)).mpr (.inl (by decide))

/-- The file `config.json` is rejected below an absolute directory. -/
theorem cache_rejects_config :
    NoDots "/cache".toList ∧
      safeJoin "/cache".toList "config.json".toList = .error .absolute ∧
      ¬ Exact "/cache".toList "config.json".toList := by
  have rejected : safeJoin "/cache".toList "config.json".toList = .error .absolute := by decide
  refine ⟨by decide, rejected, fun exact' => ?_⟩
  obtain ⟨path, accepted⟩ := exact'.2 (by decide) (by decide)
  cases accepted.symm.trans rejected

end KwaaiNet
