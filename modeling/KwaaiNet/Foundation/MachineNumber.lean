import Mathlib

/-! # Machine numbers

A float as programs compare it: a number, an infinity, or not a number. Comparisons with
`nan` are false. Rounding is left out. A signed 64-bit integer is an integer, and arithmetic on
it wraps around. A number is rounded to an integer with halves away from zero.
-/

namespace Foundation

inductive FloatValue where
  | nan
  | negInf
  | finite (value : ℚ)
  | posInf
  deriving DecidableEq

namespace FloatValue

/-- `<` on floats. -/
def below : FloatValue → FloatValue → Bool
  | .nan, _ => false
  | _, .nan => false
  | _, .negInf => false
  | .negInf, _ => true
  | .posInf, _ => false
  | .finite _, .posInf => true
  | .finite first, .finite second => first < second

/-- Neither an infinity nor `nan`. -/
def isFinite : FloatValue → Bool
  | .finite _ => true
  | _ => false

/-- `max` on floats: the other one, if one is `nan`. -/
def max : FloatValue → FloatValue → FloatValue
  | .nan, other => other
  | value, .nan => value
  | first, second => if first.below second then second else first

theorem isFinite_max {first second : FloatValue} (finite : first.isFinite)
    (alsoFinite : second.isFinite) : (first.max second).isFinite := by
  cases first with
  | finite value =>
    cases second with
    | finite other =>
      rw [max]
      · split_ifs <;> rfl
      all_goals exact nofun
    | nan | negInf | posInf => cases alsoFinite
  | nan | negInf | posInf => cases finite

/-- `+` on floats. -/
def add : FloatValue → FloatValue → FloatValue
  | .nan, _ => .nan
  | _, .nan => .nan
  | .posInf, .negInf => .nan
  | .negInf, .posInf => .nan
  | .posInf, _ => .posInf
  | _, .posInf => .posInf
  | .negInf, _ => .negInf
  | _, .negInf => .negInf
  | .finite first, .finite second => .finite (first + second)

/-- The product with a positive number. -/
def scale (factor : ℚ) : FloatValue → FloatValue
  | .finite value => .finite (value * factor)
  | other => other

/-- The cast to a signed 64-bit integer: toward zero, saturating, and `nan` is 0. -/
def toI64 : FloatValue → Int
  | .nan => 0
  | .negInf => -2 ^ 63
  | .posInf => 2 ^ 63 - 1
  | .finite value => Max.max (-2 ^ 63) (min (2 ^ 63 - 1) (if 0 ≤ value then ⌊value⌋ else ⌈value⌉))

theorem toI64_le {value : ℚ} (nonneg : 0 ≤ value) : ((finite value).toI64 : ℚ) ≤ value := by
  have small : (finite value).toI64 ≤ ⌊value⌋ := by
    rw [toI64, if_pos nonneg]
    have := Int.floor_nonneg.mpr nonneg
    omega
  exact (Int.cast_le.mpr small).trans (Int.floor_le value)

theorem toI64_pos {value : ℚ} (sizable : 1 ≤ value) : 0 < (finite value).toI64 := by
  have nonneg : 0 ≤ value := zero_le_one.trans sizable
  rw [toI64, if_pos nonneg]
  have : 1 ≤ ⌊value⌋ := Int.le_floor.mpr (by exact_mod_cast sizable)
  omega

theorem toI64_lt (value : FloatValue) : value.toI64 < 2 ^ 63 := by
  cases value with
  | finite value =>
    rw [toI64]
    omega
  | nan | negInf | posInf => decide

end FloatValue

/-- The integer is one of a signed 64-bit integer. -/
def FitsI64 (value : Int) : Prop := -2 ^ 63 ≤ value ∧ value < 2 ^ 63

instance (value : Int) : Decidable (FitsI64 value) := inferInstanceAs (Decidable (_ ∧ _))

theorem fitsI64_of_nonneg {value : Int} (nonneg : 0 ≤ value) (small : value < 2 ^ 63) :
    FitsI64 value := ⟨by omega, small⟩

/-- The signed 64-bit integer with the remainder of an integer. -/
def wrap64 (value : Int) : Int := value.bmod (2 ^ 64)

theorem wrap64_of_lt {value : Int} (nonneg : 0 ≤ value) (small : value < 2 ^ 63) :
    wrap64 value = value := by
  rw [wrap64, Int.bmod_def]
  push_cast
  split_ifs <;> omega

/-- A sum below the limit is exact. -/
theorem wrap64_add {first second : Nat} (small : first + second < 2 ^ 63) :
    wrap64 (wrap64 first + second) = first + second := by
  have exactFirst : wrap64 (first : Int) = first := wrap64_of_lt (by omega) (by omega)
  rw [exactFirst]
  exact wrap64_of_lt (by omega) (by omega)

theorem wrap64_le {value : Int} (nonneg : 0 ≤ value) : wrap64 value ≤ value := by
  rw [wrap64, Int.bmod_def]
  push_cast
  split_ifs <;> omega

/-! ## Rounding to integers -/

section

variable {K : Type*} [Field K] [LinearOrder K] [IsStrictOrderedRing K] [FloorRing K]

/-- The nearest integer, for halves the one away from zero. -/
def roundAway (value : K) : Int :=
  if 0 ≤ value then ⌊value + 1 / (2 : Nat)⌋ else ⌈value - 1 / (2 : Nat)⌉

theorem abs_roundAway_sub_le (value : K) : |(roundAway value : K) - value| ≤ 1 / 2 := by
  rw [roundAway, Nat.cast_ofNat, abs_le]
  split_ifs
  · have low := Int.floor_le (value + 1 / 2)
    have high := Int.lt_floor_add_one (value + 1 / 2)
    constructor <;> linarith
  · have low := Int.le_ceil (value - 1 / 2)
    have high := Int.ceil_lt_add_one (value - 1 / 2)
    constructor <;> linarith

theorem roundAway_intCast (number : Int) : roundAway (number : K) = number := by
  have near := abs_roundAway_sub_le (number : K)
  have close : |((roundAway (number : K) - number : Int) : K)| < 1 := by
    push_cast
    linarith
  rw [← Int.cast_abs, ← Int.cast_one, Int.cast_lt, Int.abs_lt_one_iff] at close
  exact sub_eq_zero.mp close

theorem abs_roundAway_le {value : K} {bound : Int} (bounded : |value| ≤ bound) :
    |roundAway value| ≤ bound := by
  obtain ⟨low, high⟩ := abs_le.mp bounded
  have near := abs_le.mp (abs_roundAway_sub_le value)
  have above : (roundAway value : K) < (bound + 1 : Int) := by
    push_cast
    linarith
  have below : ((-bound - 1 : Int) : K) < roundAway value := by
    push_cast
    linarith
  rw [Int.cast_lt] at above below
  rw [abs_le]
  omega

end

end Foundation
