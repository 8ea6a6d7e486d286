import KwaaiNet.Foundation.Table

/-! # The index of a tenant

The vectors of a tenant in memory: slots of the search graph, of which the map back from
document ids names the live ones, and a copy of the live vectors. An index carries the proof that
these agree, so what it stores is a map from document ids to vectors
(`KwaaiNet.TenantIndex.live`), and the two mutators are the two changes of that map.
-/

namespace KwaaiNet

open Foundation List

/-- An `i64` document id. -/
abbrev DocId := Int

/-- A vector of `f32` values, by their bits. -/
abbrev Embedding := List UInt32

def SlotsAgree (idMap : List (Option DocId)) (revMap : Table DocId Nat) : Prop :=
  ∀ doc slot, revMap.lookup doc = some slot ↔ idMap[slot]? = some (some doc)

/-- `TenantIndex`. The search graph itself is left out: it has the vector of each slot that was
ever used. -/
structure TenantIndex where
  idMap : List (Option DocId)
  revMap : Table DocId Nat
  storedVecs : Table DocId Embedding
  nextId : Nat
  dimension : Nat
  slots : SlotsAgree idMap revMap
  stored : ∀ doc, doc ∈ storedVecs ↔ doc ∈ revMap
  next : nextId = idMap.length

section Slots

variable {idMap : List (Option DocId)} {revMap : Table DocId Nat}

/-- `id_map[old] = None` for the slot of a document, if it has one. -/
def tombstoneSlot (idMap : List (Option DocId)) (revMap : Table DocId Nat) (doc : DocId) :
    List (Option DocId) :=
  match revMap.lookup doc with
  | some slot => idMap.set slot none
  | none => idMap

/-- `id_map.resize(slot + 1, None)` where the slot is beyond the end. -/
def resizeFor (idMap : List (Option DocId)) (slot : Nat) : List (Option DocId) :=
  if idMap.length ≤ slot then idMap ++ List.replicate (slot + 1 - idMap.length) none else idMap

theorem length_tombstoneSlot (idMap : List (Option DocId)) (revMap : Table DocId Nat)
    (doc : DocId) : (tombstoneSlot idMap revMap doc).length = idMap.length := by
  rw [tombstoneSlot]
  split
  · exact length_set
  · rfl

theorem getElem?_tombstoneSlot (agree : SlotsAgree idMap revMap) (doc other : DocId) (slot : Nat) :
    (tombstoneSlot idMap revMap doc)[slot]? = some (some other) ↔
      other ≠ doc ∧ idMap[slot]? = some (some other) := by
  rw [tombstoneSlot]
  cases held : revMap.lookup doc with
  | none =>
    refine ⟨fun found => ⟨?_, found⟩, fun found => found.2⟩
    rintro rfl
    rw [(agree other slot).mpr found] at held
    cases held
  | some old =>
    simp only [List.getElem?_set]
    by_cases same : old = slot
    · subst same
      have present := (agree doc old).mp held
      rw [present, if_pos rfl]
      constructor
      · intro found
        split_ifs at found
        cases found
      · rintro ⟨different, found⟩
        rw [Option.some.inj (Option.some.inj found)] at different
        exact absurd rfl different
    · rw [if_neg same]
      refine ⟨fun found => ⟨?_, found⟩, fun found => found.2⟩
      rintro rfl
      have again := (agree other slot).mpr found
      rw [held] at again
      exact same (Option.some.inj again)

theorem slotsAgree_erase (agree : SlotsAgree idMap revMap) (doc : DocId) :
    SlotsAgree (tombstoneSlot idMap revMap doc) (revMap.erase doc) := by
  intro other slot
  rw [getElem?_tombstoneSlot agree]
  by_cases same : other = doc
  · subst same
    simp
  · rw [AList.lookup_erase_ne same, agree other slot]
    simp [same]

theorem slotsAgree_insert (agree : SlotsAgree idMap revMap) (doc : DocId) :
    SlotsAgree (tombstoneSlot idMap revMap doc ++ [some doc]) (revMap.insert doc idMap.length) := by
  intro other slot
  have beyond : idMap.length ≤ slot → revMap.lookup other ≠ some slot := by
    intro outside held
    have found := (agree other slot).mp held
    rw [List.getElem?_eq_none outside] at found
    cases found
  rw [List.getElem?_append, length_tombstoneSlot]
  by_cases inside : slot < idMap.length
  · rw [if_pos inside, getElem?_tombstoneSlot agree]
    by_cases same : other = doc
    · subst same
      simp [Nat.ne_of_gt inside]
    · rw [AList.lookup_insert_ne same, agree other slot]
      simp [same]
  · rw [if_neg inside]
    have outside := Nat.le_of_not_lt inside
    by_cases same : other = doc
    · subst same
      rw [AList.lookup_insert, List.getElem?_singleton, Option.some.injEq]
      split_ifs with last
      · exact ⟨fun _ => rfl, fun _ => by omega⟩
      · exact ⟨fun first => by omega, nofun⟩
    · rw [AList.lookup_insert_ne same]
      refine ⟨fun held => absurd held (beyond outside), fun found => ?_⟩
      have member := mem_singleton.mp (mem_of_getElem? found)
      exact absurd (Option.some.inj member) same

/-- A slot taken at the end. -/
theorem set_resizeFor (idMap : List (Option DocId)) (doc : DocId) :
    (resizeFor idMap idMap.length).set idMap.length (some doc) = idMap ++ [some doc] := by
  rw [resizeFor, if_pos le_rfl, Nat.add_sub_cancel_left, replicate_one,
    set_append_right _ _ le_rfl, Nat.sub_self, set_cons_zero]

end Slots

namespace TenantIndex

/-- `TenantIndex::new`. -/
def new (dimension : Nat) : TenantIndex where
  idMap := []
  revMap := ∅
  storedVecs := ∅
  nextId := 0
  dimension := dimension
  slots := fun _ _ => ⟨nofun, nofun⟩
  stored := fun _ => Iff.rfl
  next := rfl

variable (index : TenantIndex)

def takeSlot (doc : DocId) : List (Option DocId) :=
  let idMap := tombstoneSlot index.idMap index.revMap doc
  (resizeFor idMap index.nextId).set index.nextId (some doc)

theorem takeSlot_eq (doc : DocId) :
    index.takeSlot doc = tombstoneSlot index.idMap index.revMap doc ++ [some doc] := by
  rw [takeSlot, index.next, ← length_tombstoneSlot index.idMap index.revMap doc]
  exact set_resizeFor _ doc

/-- `TenantIndex::insert`. -/
def insert (doc : DocId) (embedding : Embedding) : TenantIndex where
  idMap := index.takeSlot doc
  revMap := index.revMap.insert doc index.nextId
  storedVecs := index.storedVecs.insert doc embedding
  nextId := index.nextId + 1
  dimension := index.dimension
  slots := by
    rw [takeSlot_eq, index.next]
    exact slotsAgree_insert index.slots doc
  stored := by
    intro other
    rw [AList.mem_insert, AList.mem_insert, index.stored]
  next := by
    rw [takeSlot_eq, length_append, length_tombstoneSlot, index.next]
    rfl

/-- `TenantIndex::tombstone`, for the index it leaves. -/
def tombstone (doc : DocId) : TenantIndex where
  idMap := tombstoneSlot index.idMap index.revMap doc
  revMap := index.revMap.erase doc
  storedVecs := index.storedVecs.erase doc
  nextId := index.nextId
  dimension := index.dimension
  slots := slotsAgree_erase index.slots doc
  stored := by
    intro other
    rw [AList.mem_erase, AList.mem_erase, index.stored]
  next := by rw [length_tombstoneSlot, index.next]

/-- The number of `tombstone` calls that find their document, over a list of them. -/
def tombstonedCount : TenantIndex → List DocId → Nat
  | _, [] => 0
  | index, doc :: docs =>
    (if doc ∈ index.revMap then 1 else 0) + (index.tombstone doc).tombstonedCount docs

/-- `TenantIndex::live_count`. -/
def liveCount : Nat := index.revMap.keys.length

def live (doc : DocId) : Option Embedding :=
  if doc ∈ index.revMap then index.storedVecs.lookup doc else none

def put (change : DocId × Option Embedding) : TenantIndex :=
  match change.2 with
  | some embedding => index.insert change.1 embedding
  | none => index.tombstone change.1

def putAll (changes : List (DocId × Option Embedding)) : TenantIndex := changes.foldl put index

theorem live_eq_lookup (doc : DocId) : index.live doc = index.storedVecs.lookup doc := by
  rw [live]
  split_ifs with member
  · rfl
  · rw [← index.stored] at member
    exact (AList.lookup_eq_none.mpr member).symm

theorem live_new (dimension : Nat) : (new dimension).live = fun _ => none := rfl

theorem storedVecs_put (change : DocId × Option Embedding) :
    (index.put change).storedVecs = index.storedVecs.put change := by
  obtain ⟨doc, _ | embedding⟩ := change <;> rfl

theorem live_put (change : DocId × Option Embedding) :
    (index.put change).live = Function.update index.live change.1 change.2 := by
  have stored (index : TenantIndex) : index.live = fun doc => index.storedVecs.lookup doc :=
    funext index.live_eq_lookup
  rw [stored, stored, storedVecs_put, Table.lookup_put]

/-- **Batches.** The live vectors after a batch are the overlay of the batch. -/
theorem live_putAll (changes : List (DocId × Option Embedding)) :
    (index.putAll changes).live = overlay changes index.live := by
  induction changes generalizing index with
  | nil => rfl
  | cons change changes ih =>
    change ((index.put change).putAll changes).live = _
    rw [ih, live_put]
    rfl

theorem dimension_putAll (changes : List (DocId × Option Embedding)) :
    (index.putAll changes).dimension = index.dimension := by
  induction changes generalizing index with
  | nil => rfl
  | cons change changes ih =>
    change ((index.put change).putAll changes).dimension = _
    rw [ih]
    obtain ⟨doc, _ | embedding⟩ := change <;> rfl

theorem liveCount_put_le (change : DocId × Option Embedding) :
    (index.put change).liveCount ≤ index.liveCount + change.2.toList.length := by
  obtain ⟨doc, _ | embedding⟩ := change
  · have fewer : (index.revMap.erase doc).entries.Sublist index.revMap.entries :=
      kerase_sublist doc _
    exact (fewer.map _).length_le
  · have fewer : (index.revMap.entries.kerase doc).Sublist index.revMap.entries :=
      kerase_sublist doc _
    exact Nat.succ_le_succ (fewer.map _).length_le

theorem liveCount_putAll_le (changes : List (DocId × Option Embedding)) :
    (index.putAll changes).liveCount ≤
      index.liveCount + (changes.map fun change => change.2.toList.length).sum := by
  induction changes generalizing index with
  | nil => exact le_rfl
  | cons change changes ih =>
    rw [map_cons, sum_cons, ← Nat.add_assoc]
    exact (ih (index.put change)).trans (Nat.add_le_add_right (index.liveCount_put_le change) _)

end TenantIndex

end KwaaiNet
