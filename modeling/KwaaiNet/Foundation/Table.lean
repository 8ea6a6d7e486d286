import Mathlib

/-! # Tables and batches of changes

A table is a finite map. A change sets the value of a key or removes it, and a batch applies its
changes in order. What a table holds after a batch depends on what it held before and on the
batch alone (`Foundation.Table.lookup_putAll`): the last change of a key decides
(`Foundation.overlay_eq_last`). Batches without a common key can be applied in either order
(`Foundation.overlay_comm`).
-/

namespace Foundation

open List

variable {K V : Type*} [DecidableEq K]

/-- A finite map, with its entries in the order in which the map lists them. -/
abbrev Table (K V : Type*) := AList fun _ : K => V

/-- The values held after a batch of changes, given the values held before. -/
def overlay (changes : List (K × Option V)) (base : K → Option V) : K → Option V :=
  changes.foldl (fun held change => Function.update held change.1 change.2) base

theorem overlay_append (first second : List (K × Option V)) (base : K → Option V) :
    overlay (first ++ second) base = overlay second (overlay first base) :=
  foldl_append

theorem overlay_of_notMem {changes : List (K × Option V)} {key : K}
    (untouched : key ∉ changes.map Prod.fst) (base : K → Option V) :
    overlay changes base key = base key := by
  induction changes generalizing base with
  | nil => rfl
  | cons change changes ih =>
    rw [map_cons, mem_cons, not_or] at untouched
    change overlay changes (Function.update base change.1 change.2) key = _
    rw [ih untouched.2, Function.update_of_ne untouched.1]

theorem overlay_eq_last (changes : List (K × Option V)) (base : K → Option V) (key : K) :
    overlay changes base key =
      ((changes.filter fun change => change.1 = key).getLast?.map Prod.snd).getD (base key) := by
  induction changes using List.reverseRecOn with
  | nil => rfl
  | append_singleton changes change ih =>
    rw [overlay_append, filter_append]
    change Function.update (overlay changes base) change.1 change.2 key = _
    by_cases same : change.1 = key
    · subst same
      simp
    · rw [Function.update_of_ne (Ne.symm same), ih]
      simp [same]

theorem overlay_congr_of_mem {changes : List (K × Option V)} {key : K}
    (touched : key ∈ changes.map Prod.fst) (base other : K → Option V) :
    overlay changes base key = overlay changes other key := by
  obtain ⟨change, member, same⟩ := mem_map.mp touched
  have kept : change ∈ changes.filter fun change => change.1 = key :=
    mem_filter.mpr ⟨member, decide_eq_true same⟩
  rw [overlay_eq_last, overlay_eq_last, List.getLast?_eq_some_getLast (ne_nil_of_mem kept)]
  rfl

theorem exists_change_of_mem {changes : List (K × Option V)} {key : K}
    (touched : key ∈ changes.map Prod.fst) (base : K → Option V) :
    ∃ change ∈ changes, change.1 = key ∧ overlay changes base key = change.2 := by
  obtain ⟨change, member, same⟩ := mem_map.mp touched
  have kept : change ∈ changes.filter fun change => change.1 = key :=
    mem_filter.mpr ⟨member, decide_eq_true same⟩
  obtain ⟨last, named⟩ := mem_filter.mp (getLast_mem (ne_nil_of_mem kept))
  refine ⟨_, last, of_decide_eq_true named, ?_⟩
  rw [overlay_eq_last, List.getLast?_eq_some_getLast (ne_nil_of_mem kept)]
  rfl

theorem overlay_of_forall {changes : List (K × Option V)} {key : K} {value : Option V}
    (touched : key ∈ changes.map Prod.fst)
    (agree : ∀ change ∈ changes, change.1 = key → change.2 = value) (base : K → Option V) :
    overlay changes base key = value := by
  obtain ⟨change, member, same, left⟩ := exists_change_of_mem touched base
  exact left.trans (agree change member same)

theorem overlay_eq_some {changes : List (K × Option V)} {base : K → Option V} {key : K} {value : V}
    (held : overlay changes base key = some value) :
    (key, some value) ∈ changes ∨ base key = some value := by
  rw [overlay_eq_last] at held
  cases last : (changes.filter fun change => change.1 = key).getLast? with
  | none =>
    rw [last] at held
    exact .inr held
  | some change =>
    rw [last] at held
    obtain ⟨member, same⟩ := mem_filter.mp (mem_of_getLast? last)
    have named : change = (key, some value) := Prod.ext (of_decide_eq_true same) held
    exact .inl (named ▸ member)

theorem overlay_map_injective {L : Type*} [DecidableEq L] {embed : L → K}
    (injective : Function.Injective embed) (changes : List (L × Option V)) (base : K → Option V) :
    (fun key => overlay (changes.map fun change => (embed change.1, change.2)) base (embed key)) =
      overlay changes fun key => base (embed key) := by
  induction changes generalizing base with
  | nil => rfl
  | cons change changes ih =>
    refine (ih (Function.update base (embed change.1) change.2)).trans ?_
    have updated : (fun key => Function.update base (embed change.1) change.2 (embed key)) =
        Function.update (fun key => base (embed key)) change.1 change.2 :=
      Function.update_comp_eq_of_injective base injective change.1 change.2
    rw [updated]
    rfl

theorem overlay_comm {first second : List (K × Option V)}
    (apart : ∀ key ∈ first.map Prod.fst, key ∉ second.map Prod.fst) (base : K → Option V) :
    overlay second (overlay first base) = overlay first (overlay second base) := by
  funext key
  by_cases touched : key ∈ first.map Prod.fst
  · rw [overlay_of_notMem (apart key touched)]
    exact overlay_congr_of_mem touched _ _
  · rw [overlay_of_notMem touched]
    by_cases other : key ∈ second.map Prod.fst
    · exact overlay_congr_of_mem other _ _
    · rw [overlay_of_notMem other, overlay_of_notMem other, overlay_of_notMem touched]

/-- Values may be mapped before or after a batch. -/
theorem overlay_map {W : Type*} (image : V → W) (changes : List (K × Option V))
    (base : K → Option V) :
    overlay (changes.map fun change => (change.1, change.2.map image))
        (fun key => (base key).map image) =
      fun key => (overlay changes base key).map image := by
  induction changes generalizing base with
  | nil => rfl
  | cons change changes ih =>
    refine Eq.trans ?_ (ih (Function.update base change.1 change.2))
    change overlay _ (Function.update _ _ _) = _
    congr 1
    funext key
    by_cases same : key = change.1
    · subst same
      rw [Function.update_self, Function.update_self]
    · rw [Function.update_of_ne same, Function.update_of_ne same]

namespace Table

def put (table : Table K V) (change : K × Option V) : Table K V :=
  match change.2 with
  | some value => table.insert change.1 value
  | none => table.erase change.1

def putAll (table : Table K V) (changes : List (K × Option V)) : Table K V :=
  changes.foldl put table

theorem putAll_append (table : Table K V) (first second : List (K × Option V)) :
    table.putAll (first ++ second) = (table.putAll first).putAll second :=
  foldl_append

theorem lookup_put (table : Table K V) (change : K × Option V) :
    (fun key => (table.put change).lookup key) =
      Function.update (fun key => table.lookup key) change.1 change.2 := by
  obtain ⟨changed, value⟩ := change
  funext key
  by_cases same : key = changed
  · subst same
    cases value with
    | none => simp [put]
    | some value => simp [put]
  · cases value with
    | none => simp [put, same]
    | some value => simp [put, same]

theorem mem_entries_put {table : Table K V} {key : K} {value : V} {row : Sigma fun _ : K => V} :
    row ∈ (table.put (key, some value)).entries ↔
      row = ⟨key, value⟩ ∨ row ∈ table.entries ∧ row.1 ≠ key := by
  obtain ⟨other, held⟩ := row
  rw [← AList.mem_lookup_iff, ← AList.mem_lookup_iff, Option.mem_def, Option.mem_def,
    congrFun (lookup_put table (key, some value)) other]
  by_cases same : other = key
  · subst same
    simp [eq_comm]
  · simp [same]

/-- **Batches.** A table after a batch holds the overlay of the batch over what it held. -/
theorem lookup_putAll (table : Table K V) (changes : List (K × Option V)) :
    (fun key => (table.putAll changes).lookup key) =
      overlay changes fun key => table.lookup key := by
  induction changes generalizing table with
  | nil => rfl
  | cons change changes ih =>
    change (fun key => ((table.put change).putAll changes).lookup key) = _
    rw [ih, lookup_put]
    rfl

theorem lookup_putAll_none (table : Table K V) (keys : List K) (key : K) :
    (table.putAll (keys.map fun key => (key, none))).lookup key =
      if key ∈ keys then none else table.lookup key := by
  have names : (keys.map fun key => (key, (none : Option V))).map Prod.fst = keys := by
    rw [map_map]
    exact map_id keys
  rw [congrFun (lookup_putAll table _) key]
  split_ifs with listed
  · refine overlay_of_forall (names.symm ▸ listed) ?_ _
    intro change member _
    obtain ⟨other, _, rfl⟩ := mem_map.mp member
    rfl
  · exact overlay_of_notMem (names.symm ▸ listed) _

theorem lookup_putAll_entries (table : Table K V) :
    (fun key => ((∅ : Table K V).putAll
      (table.entries.map fun row => (row.1, some row.2))).lookup key) =
      fun key => table.lookup key := by
  rw [lookup_putAll]
  funext key
  have names : (table.entries.map fun row => (row.1, some row.2)).map Prod.fst = table.keys := by
    rw [map_map]
    rfl
  cases held : table.lookup key with
  | none =>
    rw [overlay_of_notMem]
    · exact AList.lookup_empty key
    · rw [names]
      exact AList.lookup_eq_none.mp held
  | some value =>
    apply overlay_of_forall
    · rw [names]
      exact AList.lookup_isSome.mp (by rw [held]; rfl)
    · intro change member same
      obtain ⟨row, present, rfl⟩ := mem_map.mp member
      subst same
      exact (AList.mem_lookup_iff.mpr present).symm.trans held

section Modify

def modify (table : Table K V) (key : K) (change : V → V) : Table K V :=
  match table.lookup key with
  | some value => table.insert key (change value)
  | none => table

theorem lookup_modify (table : Table K V) (key other : K) (change : V → V) :
    (table.modify key change).lookup other =
      if other = key then (table.lookup other).map change else table.lookup other := by
  rw [modify]
  by_cases same : other = key
  · subst same
    cases held : table.lookup other with
    | none => simp [held]
    | some value => simp
  · cases held : table.lookup key with
    | none => simp [same]
    | some value => simp [same]

def listAt {E : Type*} (table : Table K (List E)) (key : K) : List E :=
  (table.lookup key).getD []

variable {E : Type*} (table : Table K (List E))

theorem listAt_empty (key : K) : (∅ : Table K (List E)).listAt key = [] := by
  rw [listAt, AList.lookup_empty]
  rfl

theorem mem_entries_of_mem_listAt {key : K} {element : E} (member : element ∈ table.listAt key) :
    ∃ list, ⟨key, list⟩ ∈ table.entries ∧ element ∈ list := by
  rw [listAt] at member
  cases held : table.lookup key with
  | none =>
    rw [held] at member
    cases member
  | some list =>
    rw [held] at member
    exact ⟨list, AList.mem_lookup_iff.mp held, member⟩

theorem listAt_insert (key other : K) (list : List E) :
    Table.listAt (table.insert key list) other =
      if other = key then list else table.listAt other := by
  by_cases same : other = key
  · subst same
    simp [listAt]
  · simp [listAt, same]

theorem listAt_erase (key other : K) :
    Table.listAt (table.erase key) other = if other = key then [] else table.listAt other := by
  by_cases same : other = key
  · subst same
    simp [listAt]
  · simp [listAt, same]

theorem listAt_modify (key other : K) {change : List E → List E} (kept : change [] = []) :
    (table.modify key change).listAt other =
      if other = key then change (table.listAt other) else table.listAt other := by
  rw [listAt, lookup_modify]
  split_ifs
  · rw [listAt]
    cases table.lookup other with
    | none => exact kept.symm
    | some list => rfl
  · rfl

end Modify

section Weight

variable (weigh : K → V → Nat)

def weight (table : Table K V) : Nat := (table.entries.map fun row => weigh row.1 row.2).sum

theorem weight_erase_le (table : Table K V) (key : K) :
    weight weigh (table.erase key) ≤ weight weigh table := by
  have fewer : (table.erase key).entries.Sublist table.entries := kerase_sublist key _
  exact (fewer.map _).sum_le_sum fun _ _ => Nat.zero_le _

theorem weight_insert_le (table : Table K V) (key : K) (value : V) :
    weight weigh (table.insert key value) ≤ weight weigh table + weigh key value := by
  have rest := weight_erase_le weigh table key
  rw [weight, AList.entries_insert, map_cons, sum_cons, Nat.add_comm]
  exact Nat.add_le_add_right rest _

def changeWeight (change : K × Option V) : Nat := change.2.elim 0 (weigh change.1)

theorem weight_putAll_le (table : Table K V) (changes : List (K × Option V)) :
    weight weigh (table.putAll changes) ≤
      weight weigh table + (changes.map (changeWeight weigh)).sum := by
  induction changes generalizing table with
  | nil => exact le_rfl
  | cons change changes ih =>
    rw [map_cons, sum_cons, ← Nat.add_assoc]
    refine (ih (table.put change)).trans (Nat.add_le_add_right ?_ _)
    obtain ⟨key, _ | value⟩ := change
    · exact weight_erase_le weigh table key
    · exact weight_insert_le weigh table key value

omit [DecidableEq K] in
theorem weight_le_card_mul {property : K → Prop} [DecidablePred property] {b : Nat}
    (table : Table K V)
    (bounded : ∀ row ∈ table.entries, property row.1 → weigh row.1 row.2 ≤ b) :
    weight (fun key value => if property key then weigh key value else 0) table ≤
      (table.keys.filter property).length * b := by
  have rows : ∀ rows : List (Sigma fun _ : K => V),
      (∀ row ∈ rows, property row.1 → weigh row.1 row.2 ≤ b) →
      (rows.map fun row => if property row.1 then weigh row.1 row.2 else 0).sum ≤
        (rows.keys.filter property).length * b := by
    intro rows
    induction rows with
    | nil => exact fun _ => Nat.zero_le _
    | cons row rows ih =>
      intro each
      have rest := ih fun other member => each other (mem_cons_of_mem _ member)
      rw [map_cons, sum_cons, keys_cons, filter_cons]
      by_cases holds : property row.1
      · have first := each row mem_cons_self holds
        rw [if_pos holds, if_pos (decide_eq_true holds), length_cons, Nat.succ_mul]
        omega
      · rw [if_neg holds, if_neg (by simpa using holds), Nat.zero_add]
        exact rest
  exact rows table.entries bounded

omit [DecidableEq K] in
theorem weight_eq_sum {C : Type*} [DecidableEq C] (classOf : K → C) (classes : Finset C)
    (table : Table K V) (covered : ∀ key ∈ table, classOf key ∈ classes) :
    weight weigh table = ∑ c ∈ classes,
      weight (fun key value => if classOf key = c then weigh key value else 0) table := by
  have rows : ∀ rows : List (Sigma fun _ : K => V), (∀ row ∈ rows, classOf row.1 ∈ classes) →
      (rows.map fun row => weigh row.1 row.2).sum = ∑ c ∈ classes,
        (rows.map fun row => if classOf row.1 = c then weigh row.1 row.2 else 0).sum := by
    intro rows
    induction rows with
    | nil => simp
    | cons row rows ih =>
      intro inside
      simp only [map_cons, sum_cons, Finset.sum_add_distrib, Finset.sum_ite_eq]
      rw [if_pos (inside row mem_cons_self),
        ih fun other member => inside other (mem_cons_of_mem _ member)]
  apply rows
  intro row member
  exact covered row.1 (mem_map_of_mem member)

theorem weigh_le_weight {table : Table K V} {key : K} {value : V}
    (held : table.lookup key = some value) : weigh key value ≤ weight weigh table := by
  have member : (⟨key, value⟩ : Sigma fun _ : K => V) ∈ table.entries :=
    AList.mem_lookup_iff.mp held
  exact single_le_sum (fun _ _ => Nat.zero_le _) _
    (mem_map_of_mem (f := fun row : Sigma fun _ : K => V => weigh row.1 row.2) member)

theorem sum_le_weight (table : Table K V) (keys : Finset K) (share : K → Nat)
    (covered : ∀ key ∈ keys, ∃ value, table.lookup key = some value ∧ share key ≤ weigh key value) :
    ∑ key ∈ keys, share key ≤ weight weigh table := by
  rw [weight_eq_sum weigh id table.keys.toFinset table
    fun key present => mem_toFinset.mpr (AList.mem_keys.mp present)]
  have inside : keys ⊆ table.keys.toFinset := by
    intro key member
    obtain ⟨value, held, _⟩ := covered key member
    exact mem_toFinset.mpr
      (AList.mem_keys.mp (AList.lookup_isSome.mp (Option.isSome_of_eq_some held)))
  refine (Finset.sum_le_sum fun key member => ?_).trans (Finset.sum_le_sum_of_subset inside)
  obtain ⟨value, held, bounded⟩ := covered key member
  refine bounded.trans ?_
  have own := weigh_le_weight
    (fun other value => if id other = key then weigh other value else 0) held
  rwa [if_pos (id_eq key)] at own

end Weight

section FilterMap

variable {W : Type*} (image : K → V → Option W)

def entriesWith (rows : List (Sigma fun _ : K => V)) : List (Sigma fun _ : K => W) :=
  rows.filterMap fun row => (image row.1 row.2).map (Sigma.mk row.1)

omit [DecidableEq K] in
theorem keys_entriesWith_sublist (rows : List (Sigma fun _ : K => V)) :
    (entriesWith image rows).keys.Sublist rows.keys := by
  induction rows with
  | nil => exact List.Sublist.refl _
  | cons row rows ih =>
    cases found : image row.1 row.2 with
    | none =>
      rw [entriesWith, filterMap_cons_none (by rw [found]; rfl)]
      exact ih.cons row.1
    | some value =>
      rw [entriesWith, filterMap_cons_some (by rw [found]; rfl)]
      exact ih.cons_cons row.1

def filterMap (table : Table K V) : Table K W where
  entries := entriesWith image table.entries
  nodupKeys := List.Nodup.sublist (keys_entriesWith_sublist image table.entries) table.nodupKeys

theorem lookup_filterMap (table : Table K V) (key : K) :
    (filterMap image table).lookup key = (table.lookup key).bind (image key) := by
  ext value
  rw [Option.bind_eq_some_iff, ← Option.mem_def, AList.mem_lookup_iff]
  constructor
  · intro member
    obtain ⟨row, present, named⟩ := mem_filterMap.mp member
    obtain ⟨found, same, equal⟩ := Option.map_eq_some_iff.mp named
    cases equal
    exact ⟨row.2, AList.mem_lookup_iff.mpr present, same⟩
  · rintro ⟨held, present, same⟩
    refine mem_filterMap.mpr ⟨⟨key, held⟩, AList.mem_lookup_iff.mp present, ?_⟩
    rw [same]
    rfl

end FilterMap

end Table

end Foundation
