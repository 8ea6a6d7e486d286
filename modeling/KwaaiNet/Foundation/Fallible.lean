import Mathlib

/-! # Work over lists that may fail

A list is processed item by item until one of them fails. It succeeds exactly if every item does
(`Foundation.mapM_eq_ok_iff`), and the failure is that of the first item that fails
(`Foundation.mapM_eq_error_iff`).
-/

namespace Foundation

open List

variable {α β ε : Type*} {work : α → Except ε β}

theorem exists_first {property : α → Prop} {items : List α} (some : ∃ item ∈ items, property item) :
    ∃ front item back, items = front ++ item :: back ∧ (∀ other ∈ front, ¬ property other) ∧
      property item := by
  classical
  have found : (items.find? fun item => property item).isSome := by
    simpa only [List.find?_isSome, decide_eq_true_eq] using some
  obtain ⟨item, here⟩ := Option.isSome_iff_exists.mp found
  obtain ⟨holds, front, back, split, before⟩ := List.find?_eq_some_iff_append.mp here
  exact ⟨front, item, back, split, by simpa using before, of_decide_eq_true holds⟩

theorem isSome_mapM_iff {work : α → Option β} {items : List α} :
    (items.mapM work).isSome = true ↔ ∀ item ∈ items, (work item).isSome = true := by
  induction items with
  | nil => simp
  | cons item items ih =>
    rw [forall_mem_cons, ← ih, mapM_cons]
    cases work item with
    | none => simp
    | some result => cases items.mapM work <;> simp

theorem isSome_bind_bind_pure_iff {γ δ ζ : Type _} {first : Option γ} {second : Option δ}
    {finish : γ → δ → ζ} :
    (first >>= fun one => second >>= fun other => pure (finish one other)).isSome = true ↔
      first.isSome = true ∧ second.isSome = true := by
  cases first <;> cases second <;> simp

theorem bind_pure_eq_ok_iff {γ δ : Type _} {work : Except ε γ} {finish : γ → δ} {result : δ} :
    (work >>= fun value => pure (finish value)) = .ok result ↔
      ∃ value, work = .ok value ∧ finish value = result := by
  cases work with
  | error failure =>
    constructor
    · intro done
      cases done
    · intro ⟨_, done, _⟩
      cases done
  | ok value =>
    constructor
    · intro done
      exact ⟨value, rfl, Except.ok.inj done⟩
    · intro ⟨_, done, same⟩
      rw [← same, ← Except.ok.inj done]
      rfl

theorem mapM_cons_of_ok {item : α} {result : β} (worked : work item = .ok result)
    (items : List α) :
    (item :: items).mapM work = (items.mapM work).map fun results => result :: results := by
  rw [mapM_cons, worked]
  cases items.mapM work <;> rfl

theorem mapM_cons_of_error {item : α} {failure : ε} (failed : work item = .error failure)
    (items : List α) : (item :: items).mapM work = .error failure := by
  rw [mapM_cons, failed]
  rfl

theorem mapM_eq_ok_iff {items : List α} {results : List β} :
    items.mapM work = .ok results ↔
      List.Forall₂ (fun item result => work item = .ok result) items results := by
  induction items generalizing results with
  | nil =>
    rw [mapM_nil, forall₂_nil_left_iff]
    exact ⟨fun same => (Except.ok.inj same).symm, fun same => congrArg Except.ok same.symm⟩
  | cons item items ih =>
    rw [forall₂_cons_left_iff]
    cases worked : work item with
    | error failure =>
      rw [mapM_cons_of_error worked]
      constructor
      · intro done
        cases done
      · rintro ⟨_, _, done, _⟩
        cases done
    | ok result =>
      rw [mapM_cons_of_ok worked]
      constructor
      · intro done
        cases rest : items.mapM work with
        | error _ => rw [rest] at done; cases done
        | ok others =>
          rw [rest] at done
          exact ⟨result, others, rfl, ih.mp rest, (Except.ok.inj done).symm⟩
      · rintro ⟨_, others, same, rest, rfl⟩
        rw [ih.mpr rest, Except.ok.inj same]
        rfl

theorem mapM_congr {other : α → Except ε β} {items : List α}
    (same : ∀ item ∈ items, work item = other item) : items.mapM work = items.mapM other := by
  induction items with
  | nil => rfl
  | cons item items ih =>
    obtain ⟨first, rest⟩ := forall_mem_cons.mp same
    rw [mapM_cons, mapM_cons, first, ih rest]

section

variable {items : List α} {results : List β}

theorem exists_item_of_mapM (done : items.mapM work = .ok results) {result : β}
    (member : result ∈ results) : ∃ item ∈ items, work item = .ok result := by
  induction mapM_eq_ok_iff.mp done with
  | nil => cases member
  | cons worked _ ih =>
    rcases mem_cons.mp member with rfl | later
    · exact ⟨_, mem_cons_self, worked⟩
    · obtain ⟨item, among, same⟩ := ih (mapM_eq_ok_iff.mpr ‹_›) later
      exact ⟨item, mem_cons_of_mem _ among, same⟩

theorem exists_result_of_mapM (done : items.mapM work = .ok results) {item : α}
    (member : item ∈ items) : ∃ result ∈ results, work item = .ok result := by
  induction mapM_eq_ok_iff.mp done with
  | nil => cases member
  | cons worked _ ih =>
    rcases mem_cons.mp member with rfl | later
    · exact ⟨_, mem_cons_self, worked⟩
    · obtain ⟨result, among, same⟩ := ih (mapM_eq_ok_iff.mpr ‹_›) later
      exact ⟨result, mem_cons_of_mem _ among, same⟩

theorem map_results_of_mapM {γ : Type*} {known : α → γ} {part : β → γ}
    (done : items.mapM work = .ok results)
    (same : ∀ item result, work item = .ok result → part result = known item) :
    results.map part = items.map known := by
  induction mapM_eq_ok_iff.mp done with
  | nil => rfl
  | cons worked _ ih =>
    rw [map_cons, map_cons, same _ _ worked, ih (mapM_eq_ok_iff.mpr ‹_›)]

end

theorem of_mapM_range {bound : Nat} {work : Nat → Except ε β} {results : List β}
    (done : (List.range bound).mapM work = .ok results) :
    results.length = bound ∧
      ∀ (number : Nat) (inside : number < results.length), work number = .ok results[number] := by
  have worked := mapM_eq_ok_iff.mp done
  have length : bound = results.length := by
    rw [← worked.length_eq, length_range]
  refine ⟨length.symm, fun number inside => ?_⟩
  have bounded : number < (List.range bound).length := by rwa [length_range, length]
  have here := worked.get bounded inside
  rwa [get_eq_getElem, getElem_range, get_eq_getElem] at here

theorem mapM_eq_error_iff {items : List α} {failure : ε} :
    items.mapM work = .error failure ↔
      ∃ front item back, items = front ++ item :: back ∧
        (∀ other ∈ front, ∃ result, work other = .ok result) ∧ work item = .error failure := by
  induction items with
  | nil =>
    constructor
    · intro failed
      cases failed
    · rintro ⟨front, _, _, split, _⟩
      exact absurd split.symm (by simp)
  | cons item items ih =>
    cases worked : work item with
    | error first =>
      rw [mapM_cons_of_error worked]
      constructor
      · intro same
        rw [← Except.error.inj same]
        exact ⟨[], item, items, rfl, by simp, worked⟩
      · rintro ⟨front, other, back, split, done, failed⟩
        cases front with
        | nil =>
          obtain ⟨rfl, -⟩ := List.cons.inj split
          rw [Except.error.inj (worked.symm.trans failed)]
        | cons earlier front =>
          obtain ⟨rfl, -⟩ := List.cons.inj split
          obtain ⟨result, ok⟩ := done item mem_cons_self
          cases worked.symm.trans ok
    | ok result =>
      have rest : (item :: items).mapM work = .error failure ↔
          items.mapM work = .error failure := by
        rw [mapM_cons_of_ok worked]
        cases items.mapM work with
        | ok _ => simp [Except.map]
        | error other => exact Iff.rfl
      rw [rest, ih]
      constructor
      · rintro ⟨front, other, back, rfl, done, failed⟩
        refine ⟨item :: front, other, back, rfl, ?_, failed⟩
        exact forall_mem_cons.mpr ⟨⟨result, worked⟩, done⟩
      · rintro ⟨front, other, back, split, done, failed⟩
        cases front with
        | nil =>
          obtain ⟨rfl, -⟩ := List.cons.inj split
          cases worked.symm.trans failed
        | cons earlier front =>
          obtain ⟨-, rfl⟩ := List.cons.inj split
          exact ⟨front, other, back, rfl, (forall_mem_cons.mp done).2, failed⟩

theorem exists_mapM_eq_ok {items : List α}
    (worked : ∀ item ∈ items, ∃ result, work item = .ok result) :
    ∃ results, items.mapM work = .ok results := by
  cases done : items.mapM work with
  | ok results => exact ⟨results, rfl⟩
  | error failure =>
    obtain ⟨front, item, back, rfl, -, failed⟩ := mapM_eq_error_iff.mp done
    obtain ⟨result, ok⟩ := worked item (by simp)
    cases failed.symm.trans ok

theorem mapM_range_eq_error_iff {bound : Nat} {work : Nat → Except ε β} {failure : ε} :
    (List.range bound).mapM work = .error failure ↔
      ∃ number < bound, (∀ earlier < number, ∃ result, work earlier = .ok result) ∧
        work number = .error failure := by
  have first {failure : ε} (failed : (List.range bound).mapM work = .error failure) :
      ∃ number < bound, (∀ earlier < number, ∃ result, work earlier = .ok result) ∧
        work number = .error failure := by
    obtain ⟨front, number, back, split, before, here⟩ := mapM_eq_error_iff.mp failed
    have ordered := pairwise_lt_range (n := bound)
    rw [split, pairwise_append, pairwise_cons] at ordered
    have below : number < bound := mem_range.mp (by rw [split]; simp)
    refine ⟨number, below, fun earlier less => before earlier ?_, here⟩
    have member : earlier ∈ List.range bound := mem_range.mpr (less.trans below)
    rw [split, mem_append, mem_cons] at member
    rcases member with front | same | back
    · exact front
    · exact absurd same less.ne
    · exact absurd (ordered.2.1.1 earlier back) less.not_gt
  refine ⟨first, ?_⟩
  rintro ⟨number, below, before, here⟩
  cases ended : (List.range bound).mapM work with
  | ok results =>
    obtain ⟨length, worked⟩ := of_mapM_range ended
    cases here.symm.trans (worked number (length.symm ▸ below))
  | error other =>
    obtain ⟨position, _, earlier, there⟩ := first ended
    rcases Nat.lt_trichotomy number position with less | rfl | less
    · obtain ⟨result, ok⟩ := earlier number less
      cases here.symm.trans ok
    · rw [Except.error.inj (here.symm.trans there)]
    · obtain ⟨result, ok⟩ := before position less
      cases there.symm.trans ok

end Foundation
