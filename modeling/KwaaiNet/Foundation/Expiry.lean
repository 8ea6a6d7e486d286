import Mathlib
import KwaaiNet.Foundation.Table

/-! # Tables with values that expire

A value of a table is valid up to some time and not after it. Only valid values can be seen, so
purging the others changes nothing that can be seen later (`Foundation.Table.visible_purge`).
-/

namespace Foundation

variable {K V T : Type*} [DecidableEq K]

def Expires [Preorder T] (valid : V → T → Bool) : Prop :=
  ∀ value early late, early ≤ late → valid value late = true → valid value early = true

namespace Table

variable (valid : V → T → Bool)

def visible (table : Table K V) (time : T) (key : K) : Option V :=
  (table.lookup key).filter fun value => valid value time

def purge (time : T) (table : Table K V) : Table K V :=
  filterMap (fun _ value => if valid value time then some value else none) table

theorem lookup_purge (time : T) (table : Table K V) (key : K) :
    (purge valid time table).lookup key = table.visible valid time key := by
  rw [purge, lookup_filterMap, visible]
  cases table.lookup key with
  | none => rfl
  | some value => simp [Option.filter_some]

variable {valid}

/-- **Purging.** What is visible at a time does not depend on what was purged before. -/
theorem visible_purge [Preorder T] (expires : Expires valid) (table : Table K V) {purged time : T}
    (later : purged ≤ time) (key : K) :
    (purge valid purged table).visible valid time key = table.visible valid time key := by
  rw [visible, lookup_purge, visible, visible, Option.filter_filter]
  congr 1
  funext value
  rw [Bool.eq_iff_iff, Bool.and_eq_true]
  exact ⟨And.right, fun current => ⟨expires value _ _ later current, current⟩⟩

end Table

end Foundation
