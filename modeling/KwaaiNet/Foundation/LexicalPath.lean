import Mathlib

/-! # Paths and their lexical normalisation

A path is a text, cut at its slashes into components. Empty pieces and single dots are no
components, except that a path may start at the root or with a dot. The normalisation removes
each parent component together with the name before it, without looking at a file system. A
path that does not climb above its start is normalised in the same way after any other names
(`Foundation.Path.normalFrom_append`), and joining paths puts their components one after the
other (`Foundation.Path.body_join`).
-/

namespace Foundation

open List

abbrev Path := List Char

namespace Path

inductive Component where
  | rootDir
  | curDir
  | parentDir
  | normal (name : List Char)
  deriving DecidableEq

/-! ## Components -/

def pieces : Path → List (List Char)
  | [] => [[]]
  | char :: rest =>
    if char = '/' then [] :: pieces rest else (pieces rest).modifyHead (char :: ·)

def component : List Char → Option Component
  | [] => none
  | ['.'] => none
  | ['.', '.'] => some .parentDir
  | name => some (.normal name)

def IsAbsolute (path : Path) : Prop := path.head? = some '/'

instance (path : Path) : Decidable (IsAbsolute path) := inferInstanceAs (Decidable (_ = _))

def start (path : Path) : List Component :=
  if IsAbsolute path then [.rootDir]
  else if (pieces path).head? = some ['.'] then [.curDir]
  else []

def body (path : Path) : List Component := (pieces path).filterMap component

def components (path : Path) : List Component := start path ++ body path

def join (base path : Path) : Path :=
  if IsAbsolute path then path
  else if base.getLast?.all (· = '/') then base ++ path
  else base ++ '/' :: path

theorem pieces_ne_nil (path : Path) : pieces path ≠ [] := by
  induction path with
  | nil => exact cons_ne_nil _ _
  | cons char rest ih =>
    rw [pieces]
    split_ifs
    · exact cons_ne_nil _ _
    · rw [modifyHead_eq_nil_iff.ne]
      exact ih

theorem pieces_append_slash (first second : Path) :
    pieces (first ++ '/' :: second) = pieces first ++ pieces second := by
  induction first with
  | nil => rfl
  | cons char first ih =>
    rw [cons_append, pieces, pieces, ih]
    split_ifs
    · rfl
    · obtain ⟨piece, others, cut⟩ := exists_cons_of_ne_nil (pieces_ne_nil first)
      rw [cut]
      rfl

theorem body_join {base path : Path} (relative : ¬ IsAbsolute path) :
    body (join base path) = body base ++ body path := by
  have slash (first : Path) : body (first ++ '/' :: path) = body first ++ body path := by
    rw [body, pieces_append_slash, filterMap_append]
    rfl
  rw [join, if_neg relative]
  split_ifs with ends
  · rcases eq_nil_or_concat base with rfl | ⟨first, last, rfl⟩
    · rfl
    · rw [concat_eq_append, List.getLast?_concat] at ends
      rw [concat_eq_append]
      obtain rfl : last = '/' := of_decide_eq_true ends
      have trimmed : body (first ++ ['/']) = body first := by
        rw [body, pieces_append_slash, filterMap_append]
        exact append_nil _
      rw [append_assoc, trimmed]
      exact slash first
  · exact slash base

theorem component_cases {piece : List Char} {found : Component}
    (named : component piece = some found) : found = .parentDir ∨ ∃ name, found = .normal name := by
  rw [component.eq_def] at named
  split at named
  · cases named
  · cases named
  · exact .inl (Option.some.inj named).symm
  · exact .inr ⟨_, (Option.some.inj named).symm⟩

theorem mem_body {path : Path} {found : Component} (member : found ∈ body path) :
    found = .parentDir ∨ ∃ name, found = .normal name := by
  obtain ⟨_, _, named⟩ := mem_filterMap.mp member
  exact component_cases named

/-! ## Normalisation -/

/-- A path in normal form: from the root, or some levels up, and then names. -/
@[ext]
structure NormalPath where
  rooted : Bool
  ups : Nat
  names : List (List Char)
  deriving DecidableEq

namespace NormalPath

def components (path : NormalPath) : List Component :=
  (if path.rooted then [.rootDir] else []) ++ List.replicate path.ups .parentDir ++
    path.names.map .normal

def step (path : NormalPath) : Component → NormalPath
  | .rootDir => ⟨true, 0, []⟩
  | .curDir => path
  | .parentDir =>
    if path.names ≠ [] then { path with names := path.names.dropLast }
    else if path.rooted then path
    else { path with ups := path.ups + 1 }
  | .normal name => { path with names := path.names ++ [name] }

end NormalPath

def normalFrom (path : NormalPath) (found : List Component) : NormalPath :=
  found.foldl NormalPath.step path

def lexicalNormal (path : Path) : NormalPath := normalFrom ⟨false, 0, []⟩ (components path)

theorem lexicalNormal_of_relative {path : Path} (relative : ¬ IsAbsolute path) :
    lexicalNormal path = normalFrom ⟨false, 0, []⟩ (body path) := by
  rw [lexicalNormal, components, start, if_neg relative]
  split_ifs <;> rfl

def NormalPath.Leaves (path : NormalPath) : Prop := path.rooted = true ∨ 0 < path.ups

theorem NormalPath.Leaves.step {path : NormalPath} (leaves : path.Leaves) (found : Component) :
    (path.step found).Leaves := by
  cases found with
  | rootDir => exact .inl rfl
  | curDir => exact leaves
  | normal name => exact leaves
  | parentDir =>
    rw [NormalPath.step]
    split_ifs with named rooted
    · exact leaves
    · exact leaves
    · exact .inr (Nat.succ_pos _)

theorem NormalPath.Leaves.normalFrom {path : NormalPath} (leaves : path.Leaves)
    (found : List Component) : (normalFrom path found).Leaves := by
  induction found generalizing path with
  | nil => exact leaves
  | cons first found ih => exact ih (leaves.step first)

theorem NormalPath.Leaves.ne {path : NormalPath} (leaves : path.Leaves)
    (names : List (List Char)) : path ≠ ⟨false, 0, names⟩ := by
  rintro rfl
  rcases leaves with rooted | up
  · cases rooted
  · exact lt_irrefl 0 up

/-- **Normalisation after other names.** A path that stays below its start leaves the names
before it alone. -/
theorem normalFrom_append {found : List Component} {names after : List (List Char)}
    (stays : normalFrom ⟨false, 0, names⟩ found = ⟨false, 0, after⟩) (before : List (List Char)) :
    normalFrom ⟨false, 0, before ++ names⟩ found = ⟨false, 0, before ++ after⟩ := by
  induction found generalizing names with
  | nil =>
    obtain rfl : names = after := congrArg NormalPath.names stays
    rfl
  | cons first found ih =>
    cases first with
    | rootDir => exact absurd stays ((NormalPath.Leaves.normalFrom (.inl rfl) found).ne after)
    | curDir => exact ih stays
    | normal name =>
      have more : normalFrom ⟨false, 0, names ++ [name]⟩ found = ⟨false, 0, after⟩ := stays
      have next := ih more
      rw [← append_assoc] at next
      exact next
    | parentDir =>
      by_cases none' : names = []
      · subst none'
        exact absurd stays ((NormalPath.Leaves.normalFrom (.inr Nat.one_pos) found).ne after)
      · have some' : before ++ names ≠ [] := by simp [none']
        have there : NormalPath.step ⟨false, 0, names⟩ .parentDir =
            ⟨false, 0, names.dropLast⟩ := if_pos none'
        have here : NormalPath.step ⟨false, 0, before ++ names⟩ .parentDir =
            ⟨false, 0, before ++ names.dropLast⟩ := by
          rw [NormalPath.step, if_pos some', dropLast_append_of_ne_nil none']
        rw [normalFrom, foldl_cons, there] at stays
        rw [normalFrom, foldl_cons, here]
        exact ih stays

theorem rooted_normalFrom (path : NormalPath) {found : List Component}
    (proper : .rootDir ∉ found) : (normalFrom path found).rooted = path.rooted := by
  induction found generalizing path with
  | nil => rfl
  | cons first found ih =>
    rw [mem_cons, not_or] at proper
    refine (ih _ proper.2).trans ?_
    cases first with
    | rootDir => exact absurd rfl proper.1
    | curDir => rfl
    | normal name => rfl
    | parentDir =>
      rw [NormalPath.step]
      split_ifs <;> rfl

theorem rootDir_notMem_body (path : Path) : .rootDir ∉ body path := by
  intro member
  rcases mem_body member with same | ⟨name, same⟩
  · cases same
  · cases same

end Path

end Foundation
