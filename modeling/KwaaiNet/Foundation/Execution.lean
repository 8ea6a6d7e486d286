import Mathlib

/-! # Runs of a step relation

A run is a list of events together with the states they lead through. One rule carries
the safety arguments: what each step keeps holds after every run
(`Foundation.Run.invariant`). A run that meets a condition at every step is a run of the
step relation restricted to that condition.

The participants of a concurrent run are often the items of a list, addressed by their numbers.
A step changes some of them and adds others; `Foundation.Continue` says that it drops none.
-/

namespace Foundation

open List

variable {State Event : Type*}

/-- The events lead from one state to another. -/
inductive Run (step : State → Event → State → Prop) : State → List Event → State → Prop
  | nil (state : State) : Run step state [] state
  | cons {state next last : State} {event : Event} {events : List Event} :
      step state event next → Run step next events last → Run step state (event :: events) last

variable {step : State → Event → State → Prop}

/-- **Invariant rule.** What every step keeps holds at the end of every run. -/
theorem Run.invariant {inv : State → Prop}
    (kept : ∀ state event next, inv state → step state event next → inv next)
    {first last : State} {events : List Event} (run : Run step first events last)
    (holds : inv first) : inv last := by
  induction run with
  | nil _ => exact holds
  | cons taken _ ih => exact ih (kept _ _ _ holds taken)

theorem run_foldl (next : State → Event → State) (first : State) (events : List Event) :
    Run (fun state event after => next state event = after) first events
      (events.foldl next first) := by
  induction events generalizing first with
  | nil => exact .nil first
  | cons event events ih => exact .cons rfl (ih (next first event))

def Meets (next : State → Event → State) (condition : State → Event → Prop) :
    State → List Event → Prop
  | _, [] => True
  | state, event :: events => condition state event ∧ Meets next condition (next state event) events

instance Meets.decidable (next : State → Event → State) (condition : State → Event → Prop)
    [∀ state event, Decidable (condition state event)] :
    ∀ state events, Decidable (Meets next condition state events)
  | _, [] => .isTrue trivial
  | state, event :: events =>
    @instDecidableAnd _ _ inferInstance (Meets.decidable next condition (next state event) events)

theorem meets_append {next : State → Event → State} {condition : State → Event → Prop}
    {first : State} {before after : List Event} :
    Meets next condition first (before ++ after) ↔
      Meets next condition first before ∧ Meets next condition (before.foldl next first) after := by
  induction before generalizing first with
  | nil => exact (iff_of_eq (true_and _)).symm
  | cons event before ih =>
    rw [cons_append, Meets, Meets, ih, and_assoc]
    rfl

theorem meets_congr {next : State → Event → State} {condition other : State → Event → Prop}
    {inv : State → Prop} (kept : ∀ state event, inv state → inv (next state event))
    (agree : ∀ state event, inv state → (condition state event ↔ other state event))
    {first : State} (holds : inv first) (events : List Event) :
    Meets next condition first events ↔ Meets next other first events := by
  induction events generalizing first with
  | nil => exact Iff.rfl
  | cons event events ih =>
    exact and_congr (agree first event holds) (ih (kept first event holds))

theorem run_of_meets {next : State → Event → State} {condition : State → Event → Prop}
    {first : State} {events : List Event} (meets : Meets next condition first events) :
    Run (fun state event after => condition state event ∧ next state event = after) first events
      (events.foldl next first) := by
  induction events generalizing first with
  | nil => exact .nil first
  | cons event events ih => exact .cons ⟨meets.1, rfl⟩ (ih meets.2)

/-- **Exact conditions.** If a condition on the steps keeps an invariant, and a step from a state
with the invariant that does not meet the condition leads to a bad state, then a run through good
states only meets the condition at every step. -/
theorem meets_of_always_good {next : State → Event → State} {condition : State → Event → Prop}
    {inv good : State → Prop} {first : State} {events : List Event} (holds : inv first)
    (kept : ∀ state, ∀ event ∈ events, inv state → condition state event → inv (next state event))
    (needed : ∀ state, ∀ event ∈ events, inv state → good (next state event) →
      condition state event)
    (always : ∀ before after, events = before ++ after → good (before.foldl next first)) :
    Meets next condition first events := by
  induction events generalizing first with
  | nil => trivial
  | cons event events ih =>
    have met : condition first event :=
      needed first event mem_cons_self holds (always [event] events rfl)
    refine ⟨met, ih (kept first event mem_cons_self holds met) ?_ ?_ ?_⟩
    · exact fun state later member => kept state later (mem_cons_of_mem _ member)
    · exact fun state later member => needed state later (mem_cons_of_mem _ member)
    · rintro before after rfl
      exact always (event :: before) after rfl

theorem always_of_meets {next : State → Event → State} {condition : State → Event → Prop}
    {inv : State → Prop} {first : State} {events : List Event} (holds : inv first)
    (kept : ∀ state, ∀ event ∈ events, inv state → condition state event → inv (next state event))
    (meets : Meets next condition first events) (before after : List Event)
    (split : events = before ++ after) : inv (before.foldl next first) := by
  induction before generalizing first events with
  | nil => exact holds
  | cons event before ih =>
    subst split
    refine ih (kept first event mem_cons_self holds meets.1) ?_ meets.2 rfl
    exact fun state later member => kept state later (mem_cons_of_mem _ member)

section Participants

variable {α : Type*} {before after : List α} {n : Nat}

theorem getElem?_modify_of_found {items : List α} {item : α} (found : items[n]? = some item)
    (change : α → α) (m : Nat) :
    (items.modify n change)[m]? = if n = m then some (change item) else items[m]? := by
  rw [List.getElem?_modify]
  split_ifs with same
  · subst same
    rw [found]
    rfl
  · exact Option.map_id'

theorem forall_modify {items : List α} {change : α → α} {property : Nat → α → Prop}
    (holds : ∀ m item, items[m]? = some item → property m item)
    (changed : ∀ item, items[n]? = some item → property n (change item)) :
    ∀ m item, (items.modify n change)[m]? = some item → property m item := by
  intro m item found
  rw [List.getElem?_modify] at found
  obtain ⟨earlier, stood, rfl⟩ := Option.map_eq_some_iff.mp found
  by_cases same : n = m
  · subst same
    rw [if_pos rfl]
    exact changed earlier stood
  · rw [if_neg same]
    exact holds m earlier stood

theorem map_modify_of_kept {β : Type*} {items : List α} {change : α → α} {view : α → β}
    (kept : ∀ item, view (change item) = view item) :
    (items.modify n change).map view = items.map view := by
  apply ext_getElem?
  intro m
  rw [List.getElem?_map, List.getElem?_map, List.getElem?_modify]
  cases items[m]? with
  | none => rfl
  | some item =>
    by_cases same : n = m
    · exact congrArg some ((congrArg view (if_pos same)).trans (kept item))
    · exact congrArg some (congrArg view (if_neg same))

theorem map_modify_of_found {β : Type*} {items : List α} {item : α} {change : α → α} {view : α → β}
    (found : items[n]? = some item) (kept : view (change item) = view item) :
    (items.modify n change).map view = items.map view := by
  apply ext_getElem?
  intro m
  rw [List.getElem?_map, List.getElem?_map, getElem?_modify_of_found found]
  split_ifs with same
  · subst same
    rw [found]
    exact congrArg some kept
  · rfl

/-- Every item still has its number, changed as the relation allows. -/
def Continue (related : α → α → Prop) (before after : List α) : Prop :=
  ∀ (m : Nat) (item : α), before[m]? = some item →
    ∃ later, after[m]? = some later ∧ related item later

variable {related : α → α → Prop}

theorem continue_modify {change : α → α} (refl : ∀ item, related item item)
    (changed : ∀ item, before[n]? = some item → related item (change item)) :
    Continue related before (before.modify n change) := by
  intro m item found
  rw [List.getElem?_modify, found]
  by_cases same : n = m
  · subst same
    exact ⟨change item, congrArg some (if_pos rfl), changed item found⟩
  · exact ⟨item, congrArg some (if_neg same), refl item⟩

theorem continue_append (refl : ∀ item, related item item) (more : List α) :
    Continue related before (before ++ more) := fun m item found =>
  ⟨item, by rw [List.getElem?_append_left (List.getElem?_eq_some_iff.mp found).1, found],
    refl item⟩

theorem Continue.length_le (continues : Continue related before after) :
    before.length ≤ after.length := by
  by_contra short
  have longer : after.length < before.length := Nat.lt_of_not_le short
  obtain ⟨later, found, _⟩ := continues after.length before[after.length]
    (List.getElem?_eq_getElem longer)
  rw [List.getElem?_eq_none (Nat.le_refl _)] at found
  cases found

end Participants

end Foundation
