import Mathlib
import KwaaiNet.Foundation.Text

/-! # Semantic versions

Versions with their text and their precedence: three numbers, then a pre-release, which comes before
the release without one. Build metadata has no precedence. The precedence of versions that differ in
their numbers is that of the numbers (`Foundation.SemVer.precedes_iff_of_core_ne`), and so is that
of releases (`Foundation.SemVer.precedes_iff_of_release`).
-/

namespace Foundation

def isIdentifierChar (character : Char) : Bool := character.isAlphanum || character = '-'

/-- An identifier of a pre-release: a number, or a word that is not one. -/
inductive Identifier where
  | number (value : Nat)
  | word (text : List Char) (valid : text.all isIdentifierChar = true)
      (worded : text.all Char.isDigit = false)
  deriving DecidableEq

namespace Identifier

def text : Identifier → List Char
  | .number value => Nat.toDigits 10 value
  | .word text _ _ => text

def below : Identifier → Identifier → Bool
  | .number first, .number second => first < second
  | .number _, .word .. => true
  | .word .., .number _ => false
  | .word first _ _, .word second _ _ => first < second

end Identifier

def preReleaseBelow : List Identifier → List Identifier → Bool
  | [], [] => false
  | [], _ :: _ => true
  | _ :: _, [] => false
  | first :: others, second :: rest =>
    first.below second || first = second && preReleaseBelow others rest

/-- A version. Without a pre-release or without a build the list is empty. -/
structure SemVer where
  major : Nat
  minor : Nat
  patch : Nat
  pre : List Identifier
  build : List { text : List Char // text ≠ [] ∧ text.all isIdentifierChar = true }

namespace SemVer

def core (version : SemVer) : ℕ ×ₗ ℕ ×ₗ ℕ :=
  toLex (version.major, toLex (version.minor, version.patch))

/-- What stands after the numbers. -/
def suffix (version : SemVer) : List Char :=
  (if version.pre = [] then [] else '-' :: ['.'].intercalate (version.pre.map Identifier.text)) ++
    if version.build = [] then [] else '+' :: ['.'].intercalate (version.build.map Subtype.val)

def text (version : SemVer) : List Char :=
  Nat.toDigits 10 version.major ++ '.' :: (Nat.toDigits 10 version.minor ++
    '.' :: (Nat.toDigits 10 version.patch ++ version.suffix))

/-- **Precedence.** The first version has lower precedence than the second one. -/
def Precedes (first second : SemVer) : Prop :=
  first.core < second.core ∨ first.core = second.core ∧ first.pre ≠ [] ∧
    (second.pre = [] ∨ preReleaseBelow first.pre second.pre = true)

instance (first second : SemVer) : Decidable (Precedes first second) :=
  inferInstanceAs (Decidable (_ ∨ _))

variable {first second : SemVer}

theorem precedes_iff_of_core_ne (different : first.core ≠ second.core) :
    first.Precedes second ↔ first.core < second.core :=
  or_iff_left fun both => different both.1

theorem precedes_iff_of_release (release : first.pre = []) :
    first.Precedes second ↔ first.core < second.core :=
  or_iff_left fun both => both.2.1 release

theorem suffix_cases (version : SemVer) :
    version.suffix = [] ∨ ∃ separator rest, version.suffix = separator :: rest ∧
      separator.isDigit = false := by
  rw [suffix]
  split_ifs
  · exact .inl rfl
  · exact .inr ⟨'+', _, rfl, rfl⟩
  · exact .inr ⟨'-', _, rfl, rfl⟩
  · exact .inr ⟨'-', _, rfl, rfl⟩

theorem suffix_eq_nil_iff {version : SemVer} :
    version.suffix = [] ↔ version.pre = [] ∧ version.build = [] := by
  rw [suffix]
  split_ifs <;> simp_all

end SemVer

end Foundation
