import KwaaiNet.Foundation.Execution
import KwaaiNet.Storage.Db

/-! # Concurrent calls on the vector store

The calls of `VectorStore` and `TenantManager`, cut at their transactions and at the locks of the
indices: a running call is the statement it will execute next. Any running call may be the next
to execute its statement, and a transaction may fail.

A call commits its transaction first and changes the index afterwards, and nothing orders the
index changes of two calls as their transactions were ordered; and nothing keeps a call from
committing rows of a tenant that was deleted after the call looked its index up.
`KwaaiNet.StorageSystem.agrees_of_inOrder` says that memory and disk agree after every run
without these two.
-/

namespace KwaaiNet

open Foundation List

/-- A call on the store. -/
inductive StorageCall where
  | create (new : NewTenant)
  | vectors (tenant : TenantId) (call : VectorCall)
  | delete (tenant : TenantId)

/-- A running call, by its next statement. -/
inductive StorageTask where
  | insertTenant (new : NewTenant)
  | insertIndex (tenant : TenantId) (dimension : Nat)
  | lookUp (tenant : TenantId) (call : VectorCall)
  | writeVectors (tenant : TenantId) (call : VectorCall)
  | updateIndex (tenant : TenantId) (call : VectorCall)
  | deleteTenant (tenant : TenantId)
  | removeIndex (tenant : TenantId)
  deriving DecidableEq

def StorageCall.start : StorageCall → StorageTask
  | .create new => .insertTenant new
  | .vectors tenant call => .lookUp tenant call
  | .delete tenant => .deleteTenant tenant

structure StorageSystem where
  db : StorageDb
  tasks : List StorageTask

/-- The steps of the system. A call that draws the id of a tenant draws a new one. -/
inductive StorageEvent where
  | arrive (call : StorageCall)
  | advance (n : Nat) (fresh : TenantId)
  | fail (n : Nat)

namespace StorageTask

def tenant? : StorageTask → Option TenantId
  | .insertTenant _ => none
  | .insertIndex tenant _ | .lookUp tenant _ | .writeVectors tenant _ | .updateIndex tenant _
  | .deleteTenant tenant | .removeIndex tenant => some tenant

def transacts : StorageTask → Bool
  | .insertTenant _ | .writeVectors .. | .deleteTenant _ => true
  | _ => false

/-- Executes a statement: what it leaves of the store, and what is left of the call. -/
def exec (fresh : TenantId) (db : StorageDb) : StorageTask → StorageDb × List StorageTask
  | .insertTenant new => (db.insertTenant fresh new, [.insertIndex fresh new.vectorDimension])
  | .insertIndex tenant dimension => (db.insertIndex tenant dimension, [])
  | .lookUp tenant call =>
    -- an empty batch returns before the lookup
    if call.changes = [] then (db, [])
    else if tenant ∈ db.indices then (db, [.writeVectors tenant call]) else (db, [])
  | .writeVectors tenant call => (db.writeVectors tenant call, [.updateIndex tenant call])
  | .updateIndex tenant call => (db.updateIndex tenant call, [])
  | .deleteTenant tenant =>
    match db.deleteTenant? tenant with
    | some after => (after, [.removeIndex tenant])
    | none => (db, [])
  | .removeIndex tenant => (db.removeIndex tenant, [])

def Apart (tenant : TenantId) (call : VectorCall) : StorageTask → Prop
  | .updateIndex changed earlier =>
    changed = tenant → ∀ doc ∈ earlier.changes.map Prod.fst, doc ∉ call.changes.map Prod.fst
  | _ => True

def InOrder (db : StorageDb) (before : List StorageTask) : StorageTask → Prop
  | .writeVectors tenant (.upload _) =>
    ∀ record, db.tenants.lookup tenant = some record → record.status ≠ .deleted
  | .updateIndex tenant call => ∀ task ∈ before, task.Apart tenant call
  | _ => True

end StorageTask

namespace StorageSystem

/-- One step. The rest of a call goes to the end, so calls that are about to change an index
stand in the order of their transactions. -/
def step (system : StorageSystem) : StorageEvent → StorageSystem
  | .arrive call => { system with tasks := system.tasks ++ [call.start] }
  | .advance n fresh =>
    match system.tasks[n]? with
    | some task =>
      if fresh ∈ system.db.tenants then system
      else
        let (db, rest) := task.exec fresh system.db
        ⟨db, system.tasks.eraseIdx n ++ rest⟩
    | none => system
  | .fail n =>
    match system.tasks[n]? with
    | some task =>
      if task.transacts then { system with tasks := system.tasks.eraseIdx n } else system
    | none => system

/-- The store after a run that starts with an opened database. -/
def run (tenants : Table TenantId TenantRecord) (vectors : Table (TenantId × DocId) Embedding)
    (events : List StorageEvent) : StorageSystem :=
  events.foldl step ⟨.openDb tenants vectors, []⟩

def InOrder (system : StorageSystem) : StorageEvent → Prop
  | .advance n _ =>
    ∀ task, system.tasks[n]? = some task → task.InOrder system.db (system.tasks.take n)
  | _ => True

end StorageSystem

/-! ### One tenant -/

open StorageDb (TenantView)

/-- What a statement can do to its tenant, and what it leaves of its call. -/
inductive TenantStep (tenant : TenantId) (view : TenantView) :
    StorageTask → TenantView → List StorageTask → Prop
  | insertIndex (dimension : Nat) : TenantStep tenant view (.insertIndex tenant dimension)
      { view with index := some (.new dimension), registered := True } []
  | notFound (call : VectorCall) : TenantStep tenant view (.lookUp tenant call) view []
  | found (call : VectorCall) (registered : view.registered) :
      TenantStep tenant view (.lookUp tenant call) view [.writeVectors tenant call]
  | writeVectors (call : VectorCall) : TenantStep tenant view (.writeVectors tenant call)
      { view with rows := overlay call.changes view.rows } [.updateIndex tenant call]
  | updateIndex (call : VectorCall) : TenantStep tenant view (.updateIndex tenant call)
      { view with index := view.index.map fun index => index.putAll call.changes } []
  | refused : TenantStep tenant view (.deleteTenant tenant) view []
  | deleted (record : TenantRecord) (held : view.record = some record)
      (active : record.status = .active) : TenantStep tenant view (.deleteTenant tenant)
      { view with record := some { record with status := .deleted }, rows := fun _ => none }
      [.removeIndex tenant]
  | removeIndex : TenantStep tenant view (.removeIndex tenant) { view with registered := False } []

namespace StorageTask

variable (db : StorageDb) {task : StorageTask} {tenant : TenantId}

theorem exec_step (fresh : TenantId) (about : task.tenant? = some tenant) :
    TenantStep tenant (db.view tenant) task ((task.exec fresh db).1.view tenant)
      (task.exec fresh db).2 := by
  cases task with
  | insertTenant new => cases about
  | insertIndex other dimension =>
    obtain rfl := Option.some.inj about
    rw [exec, db.view_insertIndex]
    exact .insertIndex dimension
  | lookUp other call =>
    obtain rfl := Option.some.inj about
    rw [exec]
    split_ifs with empty present
    · exact .notFound call
    · exact .found call present
    · exact .notFound call
  | writeVectors other call =>
    obtain rfl := Option.some.inj about
    rw [exec, db.view_writeVectors]
    exact .writeVectors call
  | updateIndex other call =>
    obtain rfl := Option.some.inj about
    rw [exec, db.view_updateIndex]
    exact .updateIndex call
  | deleteTenant other =>
    obtain rfl := Option.some.inj about
    rw [exec]
    cases removed : db.deleteTenant? other with
    | none => exact .refused
    | some after =>
      obtain ⟨record, held, active, marked, _⟩ := StorageDb.deleteTenant?_eq_some removed
      rw [marked]
      exact .deleted record held active
  | removeIndex other =>
    obtain rfl := Option.some.inj about
    rw [exec, db.view_removeIndex]
    exact .removeIndex

/-- A statement and what is left of its call leave the other tenants alone. -/
theorem exec_of_ne (fresh : TenantId) (about : task.tenant? ≠ some tenant)
    (drawn : ∀ new, task = .insertTenant new → fresh ≠ tenant) :
    (task.exec fresh db).1.view tenant = db.view tenant ∧
      ∀ next ∈ (task.exec fresh db).2, next.tenant? ≠ some tenant := by
  have other {acted : TenantId} (acts : some acted ≠ some tenant) : tenant ≠ acted :=
    fun same => acts (congrArg some same.symm)
  cases task with
  | insertTenant new =>
    have different := drawn new rfl
    refine ⟨db.view_insertTenant_of_ne new (Ne.symm different), fun next left => ?_⟩
    obtain rfl := mem_singleton.mp left
    exact fun same => different (Option.some.inj same)
  | insertIndex acted dimension => exact ⟨db.view_insertIndex_of_ne dimension (other about), nofun⟩
  | lookUp acted call =>
    rw [exec]
    split_ifs
    · exact ⟨rfl, nofun⟩
    · exact ⟨rfl, fun next left => mem_singleton.mp left ▸ about⟩
    · exact ⟨rfl, nofun⟩
  | writeVectors acted call =>
    exact ⟨db.view_writeVectors_of_ne call (other about),
      fun next left => mem_singleton.mp left ▸ about⟩
  | updateIndex acted call => exact ⟨db.view_updateIndex_of_ne call (other about), nofun⟩
  | deleteTenant acted =>
    rw [exec]
    cases removed : db.deleteTenant? acted with
    | none => exact ⟨rfl, nofun⟩
    | some after =>
      obtain ⟨_, _, _, _, frame⟩ := StorageDb.deleteTenant?_eq_some removed
      exact ⟨frame tenant (other about), fun next left => mem_singleton.mp left ▸ about⟩
  | removeIndex acted => exact ⟨db.view_removeIndex_of_ne (other about), nofun⟩

end StorageTask

/-! ### The account of one tenant -/

def StorageTask.pending : StorageTask → List (DocId × Option Embedding)
  | .updateIndex _ call => call.changes
  | _ => []

def StorageTask.creates : StorageTask → Bool
  | .insertIndex .. => true
  | _ => false

def StorageTask.holds : StorageTask → Bool
  | .writeVectors .. | .updateIndex .. => true
  | _ => false

/-- The changes that running calls still have to make. -/
def pendingChanges (tasks : List StorageTask) : List (DocId × Option Embedding) :=
  tasks.flatMap StorageTask.pending

/-- The account of a tenant and of the calls about it. Its index is made once. While the tenant
is active, the index with the pending changes holds the rows. Once it is deleted, no rows are
left, and its index is about to be taken out of the map or is empty and stays so. -/
structure Ledger (view : TenantView) (tasks : List StorageTask) : Prop where
  made : tasks.countP StorageTask.creates + view.index.toList.length ≤ view.record.toList.length
  awaited : ∀ record, view.record = some record → record.status = .active → view.index = none →
    0 < tasks.countP StorageTask.creates
  registered : view.registered → view.index.isSome
  held : (∃ task ∈ tasks, task.holds) → view.index.isSome
  unwritten : view.index = none → view.rows = fun _ => none
  leaving : ∀ tenant, .removeIndex tenant ∈ tasks →
    ∃ record, view.record = some record ∧ record.status = .deleted
  active : ∀ record index, view.record = some record → record.status = .active →
    view.index = some index → view.registered ∧
      overlay (pendingChanges tasks) index.live = view.rows
  deleted : ∀ record, view.record = some record → record.status = .deleted →
    view.rows = (fun _ => none) ∧
      ∀ index, view.index = some index → view.registered →
        (∃ tenant, .removeIndex tenant ∈ tasks) ∨
          index.live = (fun _ => none) ∧ ∀ change ∈ pendingChanges tasks, change.2 = none

theorem pendingChanges_append (first second : List StorageTask) :
    pendingChanges (first ++ second) = pendingChanges first ++ pendingChanges second :=
  flatMap_append

theorem pendingChanges_eq_nil {tasks : List StorageTask}
    (unheld : ¬ ∃ task ∈ tasks, task.holds) : pendingChanges tasks = [] := by
  apply flatMap_eq_nil_iff.mpr
  intro task member
  cases task with
  | updateIndex tenant call => exact absurd ⟨_, member, rfl⟩ unheld
  | _ => rfl

theorem overlay_removals {changes : List (DocId × Option Embedding)}
    (removals : ∀ change ∈ changes, change.2 = none) :
    overlay changes (fun _ => none) = fun _ => none := by
  funext doc
  by_cases touched : doc ∈ changes.map Prod.fst
  · exact overlay_of_forall touched (fun change member _ => removals change member) _
  · exact overlay_of_notMem touched _

theorem mem_of_rest {before after : List StorageTask} {task other : StorageTask}
    (member : other ∈ before ++ after) : other ∈ before ++ task :: after := by
  rcases mem_append.mp member with first | last
  · exact mem_append_left _ first
  · exact mem_append_right _ (mem_cons_of_mem _ last)

namespace Ledger

variable {view : TenantView} {tasks before after : List StorageTask} {tenant : TenantId}

theorem of_tasks (ledger : Ledger view tasks) {others : List StorageTask}
    (creates : others.countP StorageTask.creates = tasks.countP StorageTask.creates)
    (held : (∃ task ∈ others, task.holds) → view.index.isSome)
    (leaving : ∀ tenant, .removeIndex tenant ∈ others ↔ .removeIndex tenant ∈ tasks)
    (pending : pendingChanges others = pendingChanges tasks) : Ledger view others where
  made := creates ▸ ledger.made
  awaited := creates ▸ ledger.awaited
  registered := ledger.registered
  held := held
  unwritten := ledger.unwritten
  leaving := fun tenant member => ledger.leaving tenant ((leaving tenant).mp member)
  active := pending ▸ ledger.active
  deleted := by
    simp only [leaving, pending]
    exact ledger.deleted

/-- A call that is about to look something up or to run a transaction may end. -/
theorem drop {task : StorageTask} (ledger : Ledger view (before ++ task :: after))
    (creates : task.creates = false) (pending : task.pending = [])
    (leaving : ∀ tenant, task ≠ .removeIndex tenant) : Ledger view (before ++ after) := by
  apply ledger.of_tasks
  · simp [creates]
  · rintro ⟨other, member, holds⟩
    exact ledger.held ⟨other, mem_of_rest member, holds⟩
  · intro tenant
    simp [Ne.symm (leaving tenant)]
  · simp [pendingChanges, pending]

/-- A call that does nothing but look something up or run a transaction may begin. -/
theorem add {task : StorageTask} (ledger : Ledger view tasks)
    (creates : task.creates = false) (pending : task.pending = [])
    (leaving : ∀ tenant, task ≠ .removeIndex tenant)
    (holds : task.holds → view.index.isSome) : Ledger view (tasks ++ [task]) := by
  apply ledger.of_tasks
  · simp [creates]
  · rintro ⟨other, member, holding⟩
    rcases mem_append.mp member with earlier | last
    · exact ledger.held ⟨other, earlier, holding⟩
    · obtain rfl := mem_singleton.mp last
      exact holds holding
  · intro tenant
    simp [Ne.symm (leaving tenant)]
  · simp [pendingChanges, pending]

theorem insertTenant (ledger : Ledger view tasks) (absent : view.record = none)
    (new : NewTenant) (tenant : TenantId) (dimension : Nat) :
    Ledger { view with record := some new.record }
      (tasks ++ [.insertIndex tenant dimension]) := by
  have made := ledger.made
  rw [absent] at made
  have unmade : view.index = none := by
    cases held : view.index with
    | none => rfl
    | some index => simp [held] at made
  constructor
  case made => simp_all [StorageTask.creates]
  case awaited =>
    intro _ _ _ _
    simp [StorageTask.creates]
  case registered => exact ledger.registered
  case held =>
    rintro ⟨task, member, holds⟩
    rcases mem_append.mp member with earlier | last
    · exact ledger.held ⟨task, earlier, holds⟩
    · obtain rfl := mem_singleton.mp last
      cases holds
  case unwritten => exact ledger.unwritten
  case leaving =>
    intro other member
    rcases mem_append.mp member with earlier | last
    · obtain ⟨_, present, _⟩ := ledger.leaving other earlier
      rw [absent] at present
      cases present
    · cases mem_singleton.mp last
  case active =>
    intro _ index _ _ held
    rw [unmade] at held
    cases held
  case deleted =>
    intro _ held gone
    obtain rfl := Option.some.inj held
    cases gone

theorem insertIndex {dimension : Nat}
    (ledger : Ledger view (before ++ .insertIndex tenant dimension :: after)) :
    Ledger { view with index := some (.new dimension), registered := True }
      (before ++ after) := by
  have made := ledger.made
  have once : view.record.toList.length ≤ 1 := by cases view.record <;> simp
  simp only [countP_append, countP_cons, StorageTask.creates, if_true] at made
  have unmade : view.index = none := by
    cases held : view.index with
    | none => rfl
    | some index =>
      rw [held, Option.toList_some, length_singleton] at made
      omega
  have unheld : ¬ ∃ task ∈ before ++ after, task.holds := by
    rintro ⟨task, member, holds⟩
    have present := ledger.held ⟨task, mem_of_rest member, holds⟩
    rw [unmade] at present
    cases present
  have settled := pendingChanges_eq_nil unheld
  constructor
  case made =>
    simp only [countP_append, Option.toList_some, length_singleton]
    omega
  case awaited => exact fun _ _ _ absent => nomatch absent
  case registered => exact fun _ => rfl
  case held => exact fun _ => rfl
  case unwritten => exact fun absent => nomatch absent
  case leaving =>
    intro other member
    exact ledger.leaving other (mem_of_rest member)
  case active =>
    intro record _ held live indexed
    obtain rfl := Option.some.inj indexed
    rw [settled]
    exact ⟨trivial, (ledger.unwritten unmade).symm⟩
  case deleted =>
    intro record held gone
    refine ⟨(ledger.deleted record held gone).1, ?_⟩
    intro _ indexed _
    obtain rfl := Option.some.inj indexed
    rw [settled]
    exact .inr ⟨rfl, nofun⟩

theorem writeVectors {call : VectorCall}
    (ledger : Ledger view (before ++ .writeVectors tenant call :: after))
    (undeleted : ∀ record, view.record = some record → record.status = .deleted →
      ∀ change ∈ call.changes, change.2 = none) :
    Ledger { view with rows := overlay call.changes view.rows }
      (before ++ after ++ [.updateIndex tenant call]) := by
  have made : view.index.isSome :=
    ledger.held ⟨.writeVectors tenant call, mem_append_right _ mem_cons_self, rfl⟩
  have pending : pendingChanges (before ++ after ++ [StorageTask.updateIndex tenant call]) =
      pendingChanges (before ++ StorageTask.writeVectors tenant call :: after) ++
        call.changes := by
    simp [pendingChanges, StorageTask.pending]
  have leaving (other : TenantId) :
      StorageTask.removeIndex other ∈
          before ++ after ++ [StorageTask.updateIndex tenant call] ↔
        StorageTask.removeIndex other ∈
          before ++ StorageTask.writeVectors tenant call :: after := by simp
  constructor
  case made =>
    have earlier := ledger.made
    simp_all [StorageTask.creates]
  case awaited =>
    intro _ _ _ absent
    simp only at absent
    rw [absent] at made
    cases made
  case registered => exact ledger.registered
  case held => exact fun _ => made
  case unwritten =>
    intro absent
    simp only at absent
    rw [absent] at made
    cases made
  case leaving => exact fun other member => ledger.leaving other ((leaving other).mp member)
  case active =>
    intro record index held live indexed
    obtain ⟨registered, agree⟩ := ledger.active record index held live indexed
    refine ⟨registered, ?_⟩
    rw [pending, overlay_append, agree]
  case deleted =>
    intro record held gone
    obtain ⟨empty, rest⟩ := ledger.deleted record held gone
    have removals := undeleted record held gone
    refine ⟨?_, ?_⟩
    · simp only [empty]
      exact overlay_removals removals
    · intro index indexed registered
      simp only [leaving, pending]
      rcases rest index indexed registered with left | ⟨blank, none⟩
      · exact .inl left
      · refine .inr ⟨blank, fun change member => ?_⟩
        rcases mem_append.mp member with earlier | last
        · exact none change earlier
        · exact removals change last

theorem updateIndex {call : VectorCall}
    (ledger : Ledger view (before ++ .updateIndex tenant call :: after))
    (apart : ∀ doc ∈ (pendingChanges before).map Prod.fst, doc ∉ call.changes.map Prod.fst) :
    Ledger { view with index := view.index.map fun index => index.putAll call.changes }
      (before ++ after) := by
  have pending : pendingChanges (before ++ .updateIndex tenant call :: after) =
      pendingChanges before ++ call.changes ++ pendingChanges after := by
    simp [pendingChanges, StorageTask.pending]
  constructor
  case made =>
    have earlier := ledger.made
    cases held : view.index <;> simp_all [StorageTask.creates]
  case awaited =>
    intro record held live absent
    have waits := ledger.awaited record held live (Option.map_eq_none_iff.mp absent)
    simpa [StorageTask.creates] using waits
  case registered =>
    intro registered
    simpa using ledger.registered registered
  case held =>
    rintro ⟨task, member, holds⟩
    have present := ledger.held ⟨task, mem_of_rest member, holds⟩
    simpa using present
  case unwritten => exact fun absent => ledger.unwritten (Option.map_eq_none_iff.mp absent)
  case leaving =>
    intro other member
    exact ledger.leaving other (mem_of_rest member)
  case active =>
    intro record changed held live indexed
    obtain ⟨index, stood, rfl⟩ := Option.map_eq_some_iff.mp indexed
    obtain ⟨registered, agree⟩ := ledger.active record index held live stood
    refine ⟨registered, ?_⟩
    rw [← agree, pending, pendingChanges_append, index.live_putAll, overlay_append, overlay_append,
      overlay_append, overlay_comm apart]
  case deleted =>
    intro record held gone
    obtain ⟨empty, rest⟩ := ledger.deleted record held gone
    refine ⟨empty, ?_⟩
    intro changed indexed registered
    obtain ⟨index, stood, rfl⟩ := Option.map_eq_some_iff.mp indexed
    rw [pending] at rest
    rcases rest index stood registered with ⟨other, left⟩ | ⟨blank, none⟩
    · refine .inl ⟨other, ?_⟩
      simpa using left
    · refine .inr ⟨?_, fun change member => none change ?_⟩
      · rw [index.live_putAll, blank]
        apply overlay_removals
        intro change member
        exact none change (mem_append_left _ (mem_append_right _ member))
      · rw [pendingChanges_append] at member
        rcases mem_append.mp member with first | last
        · exact mem_append_left _ (mem_append_left _ first)
        · exact mem_append_right _ last

theorem deleteTenant {record : TenantRecord}
    (ledger : Ledger view (before ++ .deleteTenant tenant :: after))
    (held : view.record = some record) :
    Ledger
      { view with record := some { record with status := .deleted }, rows := fun _ => none }
      (before ++ after ++ [.removeIndex tenant]) := by
  constructor
  case made =>
    have earlier := ledger.made
    rw [held] at earlier
    simp_all [StorageTask.creates]
  case awaited =>
    intro _ marked live
    obtain rfl := Option.some.inj marked
    cases live
  case registered => exact ledger.registered
  case held =>
    rintro ⟨task, member, holds⟩
    rcases mem_append.mp member with earlier | last
    · exact ledger.held ⟨task, mem_of_rest earlier, holds⟩
    · obtain rfl := mem_singleton.mp last
      cases holds
  case unwritten => exact fun _ => rfl
  case leaving => exact fun _ _ => ⟨_, rfl, rfl⟩
  case active =>
    intro _ index marked live
    obtain rfl := Option.some.inj marked
    cases live
  case deleted => exact fun _ _ _ => ⟨rfl, fun _ _ _ => .inl ⟨tenant, by simp⟩⟩

theorem removeIndex (ledger : Ledger view (before ++ .removeIndex tenant :: after)) :
    Ledger { view with registered := False } (before ++ after) := by
  obtain ⟨gone, held, marked⟩ :=
    ledger.leaving tenant (mem_append_right _ mem_cons_self)
  constructor
  case made =>
    have earlier := ledger.made
    simp_all [StorageTask.creates]
  case awaited =>
    intro record present live
    rw [held] at present
    obtain rfl := Option.some.inj present
    rw [marked] at live
    cases live
  case registered => exact False.elim
  case held =>
    rintro ⟨task, member, holds⟩
    exact ledger.held ⟨task, mem_of_rest member, holds⟩
  case unwritten => exact ledger.unwritten
  case leaving => exact fun _ _ => ⟨gone, held, marked⟩
  case active =>
    intro record index present live
    rw [held] at present
    obtain rfl := Option.some.inj present
    rw [marked] at live
    cases live
  case deleted =>
    intro record present deleted
    exact ⟨(ledger.deleted record present deleted).1, fun _ _ registered => registered.elim⟩

theorem settled {db : StorageDb} (ledger : Ledger (db.view tenant) []) (doc : DocId) :
    db.inMemory tenant doc = db.onDisk tenant doc := by
  rw [db.onDisk_eq]
  cases held : db.tenants.lookup tenant with
  | none =>
    apply db.inMemory_of_unregistered
    intro registered
    have made := ledger.made
    obtain ⟨index, indexed⟩ := Option.isSome_iff_exists.mp (ledger.registered registered)
    rw [indexed, show (db.view tenant).record = none from held] at made
    simp at made
  | some record =>
    cases status : record.status with
    | active =>
      obtain ⟨index, indexed⟩ : ∃ index, (db.view tenant).index = some index := by
        apply Option.ne_none_iff_exists'.mp
        intro missing
        exact absurd (ledger.awaited record held status missing) (lt_irrefl 0)
      obtain ⟨registered, agree⟩ := ledger.active record index held status indexed
      rw [db.inMemory_of_registered registered indexed]
      simp only [Option.bind_some, emptyIndex, status, reduceCtorEq, if_false]
      exact congrFun agree doc
    | deleted =>
      simp only [Option.bind_some, emptyIndex, status, if_true, Option.bind_none]
      by_cases registered : (db.view tenant).registered
      · obtain ⟨index, indexed⟩ := Option.isSome_iff_exists.mp (ledger.registered registered)
        rw [db.inMemory_of_registered registered indexed]
        rcases (ledger.deleted record held status).2 index indexed registered with
          ⟨_, left⟩ | ⟨blank, _⟩
        · cases left
        · rw [blank]
      · exact db.inMemory_of_unregistered registered doc

end Ledger

section Step

variable {db : StorageDb} {task : StorageTask} {tenant : TenantId}
  {before after : List StorageTask}

theorem Ledger.exec (ledger : Ledger (db.view tenant) (before ++ task :: after))
    (fresh : TenantId) (about : task.tenant? = some tenant)
    (others : ∀ other ∈ before, other.tenant? = some tenant) (inOrder : task.InOrder db before) :
    Ledger ((task.exec fresh db).1.view tenant) (before ++ after ++ (task.exec fresh db).2) := by
  have stepped := StorageTask.exec_step db fresh about
  generalize (task.exec fresh db).1.view tenant = view at stepped ⊢
  generalize (task.exec fresh db).2 = rest at stepped ⊢
  cases stepped with
  | insertIndex dimension =>
    rw [append_nil]
    exact ledger.insertIndex
  | notFound call =>
    rw [append_nil]
    exact ledger.drop rfl rfl nofun
  | found call registered =>
    exact (ledger.drop rfl rfl nofun).add rfl rfl nofun fun _ => ledger.registered registered
  | writeVectors call =>
    apply ledger.writeVectors
    intro record held gone change member
    cases call with
    | upload vectors => exact absurd gone (inOrder record held)
    | delete ids =>
      obtain ⟨_, _, rfl⟩ := mem_map.mp member
      rfl
  | updateIndex call =>
    rw [append_nil]
    apply ledger.updateIndex
    intro doc touched
    obtain ⟨change, member, rfl⟩ := mem_map.mp touched
    obtain ⟨other, earlier, pending⟩ := mem_flatMap.mp member
    cases other with
    | updateIndex changed call =>
      exact inOrder _ earlier (Option.some.inj (others _ earlier)) _
        (mem_map_of_mem pending)
    | _ => cases pending
  | refused =>
    rw [append_nil]
    exact ledger.drop rfl rfl nofun
  | deleted record held active => exact ledger.deleteTenant held
  | removeIndex =>
    rw [append_nil]
    exact ledger.removeIndex

end Step

/-! ### Runs -/

def tasksOf (tenant : TenantId) (tasks : List StorageTask) : List StorageTask :=
  tasks.filter fun task => task.tenant? = some tenant

theorem TenantStep.tasksOf_rest {tenant : TenantId} {view changed : TenantView}
    {task : StorageTask} {rest : List StorageTask}
    (step : TenantStep tenant view task changed rest) : tasksOf tenant rest = rest := by
  apply filter_eq_self.mpr
  intro next left
  apply decide_eq_true
  cases step with
  | found | writeVectors | deleted =>
    obtain rfl := mem_singleton.mp left
    rfl
  | insertIndex | notFound | updateIndex | refused | removeIndex => cases left

theorem StorageTask.InOrder.mono {db : StorageDb} {task : StorageTask}
    {before fewer : List StorageTask} (inOrder : task.InOrder db before)
    (subset : ∀ other ∈ fewer, other ∈ before) : task.InOrder db fewer := by
  cases task with
  | updateIndex tenant call => exact fun other member => inOrder other (subset other member)
  | writeVectors tenant call =>
    cases call with
    | upload vectors => exact inOrder
    | delete ids => trivial
  | insertTenant | insertIndex | lookUp | deleteTenant | removeIndex => trivial

theorem tasksOf_append (tenant : TenantId) (first second : List StorageTask) :
    tasksOf tenant (first ++ second) = tasksOf tenant first ++ tasksOf tenant second :=
  filter_append ..

theorem tasksOf_cons_of_eq {tenant : TenantId} {task : StorageTask}
    (about : task.tenant? = some tenant) (tasks : List StorageTask) :
    tasksOf tenant (task :: tasks) = task :: tasksOf tenant tasks :=
  filter_cons_of_pos (decide_eq_true about)

theorem tasksOf_eq_nil {tenant : TenantId} {tasks : List StorageTask}
    (others : ∀ task ∈ tasks, task.tenant? ≠ some tenant) : tasksOf tenant tasks = [] :=
  filter_eq_nil_iff.mpr fun task member => by simpa using others task member

theorem tasksOf_cons_of_ne {tenant : TenantId} {task : StorageTask}
    (about : task.tenant? ≠ some tenant) (tasks : List StorageTask) :
    tasksOf tenant (task :: tasks) = tasksOf tenant tasks :=
  filter_cons_of_neg (by simpa using about)

namespace StorageSystem

def Accounted (system : StorageSystem) : Prop :=
  ∀ tenant, Ledger (system.db.view tenant) (tasksOf tenant system.tasks)

variable {system : StorageSystem}

theorem Accounted.arrive (accounted : system.Accounted) (call : StorageCall) :
    (system.step (.arrive call)).Accounted := by
  intro tenant
  have idle : call.start.creates = false ∧ call.start.pending = [] ∧
      (∀ tenant, call.start ≠ .removeIndex tenant) ∧ call.start.holds = false := by
    cases call <;> exact ⟨rfl, rfl, nofun, rfl⟩
  rw [step, tasksOf_append]
  by_cases about : call.start.tenant? = some tenant
  · rw [tasksOf_cons_of_eq about]
    exact (accounted tenant).add idle.1 idle.2.1 idle.2.2.1 fun holds => by
      rw [idle.2.2.2] at holds
      cases holds
  · rw [tasksOf_cons_of_ne about]
    exact (append_nil _).symm ▸ accounted tenant

/-- The running calls before and after the one that advances. -/
theorem split_tasks {n : Nat} {task : StorageTask} (found : system.tasks[n]? = some task) :
    system.tasks = system.tasks.take n ++ task :: system.tasks.drop (n + 1) := by
  obtain ⟨bound, rfl⟩ := List.getElem?_eq_some_iff.mp found
  rw [← drop_eq_getElem_cons bound, take_append_drop]

theorem Accounted.advance (accounted : system.Accounted) {n : Nat} {task : StorageTask}
    (found : system.tasks[n]? = some task) (fresh : TenantId)
    (drawn : ∀ new, task = .insertTenant new → fresh ∉ system.db.tenants)
    (inOrder : task.InOrder system.db (system.tasks.take n)) :
    Accounted ⟨(task.exec fresh system.db).1,
      system.tasks.eraseIdx n ++ (task.exec fresh system.db).2⟩ := by
  intro tenant
  have ledger := accounted tenant
  rw [split_tasks found, tasksOf_append] at ledger
  rw [eraseIdx_eq_take_drop_succ, tasksOf_append, tasksOf_append]
  generalize system.tasks.take n = before at ledger inOrder ⊢
  generalize system.tasks.drop (n + 1) = after at ledger ⊢
  by_cases about : task.tenant? = some tenant
  · rw [tasksOf_cons_of_eq about] at ledger
    rw [(StorageTask.exec_step system.db fresh about).tasksOf_rest]
    apply ledger.exec fresh about
    · exact fun other member => of_decide_eq_true (mem_filter.mp member).2
    · exact inOrder.mono fun other member => (mem_filter.mp member).1
  · rw [tasksOf_cons_of_ne about] at ledger
    by_cases creates : ∃ new, task = .insertTenant new ∧ fresh = tenant
    · obtain ⟨new, rfl, rfl⟩ := creates
      rw [← tasksOf_append] at ledger ⊢
      simp only [StorageTask.exec]
      rw [StorageDb.view_insertTenant, tasksOf_cons_of_eq rfl]
      exact ledger.insertTenant (AList.lookup_eq_none.mpr (drawn new rfl)) new fresh _
    · obtain ⟨frame, others⟩ := StorageTask.exec_of_ne system.db fresh about
        fun new inserts same => creates ⟨new, inserts, same⟩
      rw [frame, tasksOf_eq_nil others, append_nil]
      exact ledger

theorem Accounted.fail (accounted : system.Accounted) {n : Nat} {task : StorageTask}
    (found : system.tasks[n]? = some task) (transacts : task.transacts) :
    Accounted { system with tasks := system.tasks.eraseIdx n } := by
  intro tenant
  have ledger := accounted tenant
  rw [split_tasks found, tasksOf_append] at ledger
  rw [eraseIdx_eq_take_drop_succ, tasksOf_append]
  by_cases about : task.tenant? = some tenant
  · rw [tasksOf_cons_of_eq about] at ledger
    cases task with
    | insertTenant new => cases about
    | writeVectors acted call => exact ledger.drop rfl rfl nofun
    | deleteTenant acted => exact ledger.drop rfl rfl nofun
    | insertIndex | lookUp | updateIndex | removeIndex => cases transacts
  · rw [tasksOf_cons_of_ne about] at ledger
    exact ledger

theorem Accounted.step (accounted : system.Accounted) (event : StorageEvent)
    (inOrder : system.InOrder event) : (system.step event).Accounted := by
  cases event with
  | arrive call => exact accounted.arrive call
  | advance n fresh =>
    rw [StorageSystem.step]
    cases found : system.tasks[n]? with
    | none => exact accounted
    | some task =>
      dsimp only
      split_ifs with drawn
      · exact accounted
      · exact accounted.advance found fresh (fun _ _ => drawn) (inOrder task found)
  | fail n =>
    rw [StorageSystem.step]
    cases found : system.tasks[n]? with
    | none => exact accounted
    | some task =>
      dsimp only
      split_ifs with transacts
      · exact accounted.fail found transacts
      · exact accounted

def Tidy (tenants : Table TenantId TenantRecord) (vectors : Table (TenantId × DocId) Embedding) :
    Prop :=
  ∀ key ∈ vectors, ∃ record, tenants.lookup key.1 = some record ∧ record.status = .active

theorem accounted_openDb {tenants : Table TenantId TenantRecord}
    {vectors : Table (TenantId × DocId) Embedding} (tidy : Tidy tenants vectors) :
    Accounted ⟨.openDb tenants vectors, []⟩ := by
  intro tenant
  have rebuilt := lookup_rebuildIndices tenants vectors tenant
  have rows : (∀ record, tenants.lookup tenant = some record → record.status = .deleted) →
      (fun doc => vectors.lookup (tenant, doc)) = fun _ => none := by
    intro inactive
    funext doc
    apply AList.lookup_eq_none.mpr
    intro present
    obtain ⟨record, held, active⟩ := tidy _ present
    rw [inactive record held] at active
    cases active
  have view : (StorageDb.openDb tenants vectors).view tenant =
      ⟨tenants.lookup tenant, fun doc => vectors.lookup (tenant, doc),
        (rebuildIndices tenants vectors).lookup tenant,
        ((rebuildIndices tenants vectors).lookup tenant).isSome⟩ := by
    simp [StorageDb.view, StorageDb.openDb, AList.lookup_isSome, AList.mem_keys]
  rw [view]
  generalize (rebuildIndices tenants vectors).lookup tenant = index? at rebuilt ⊢
  cases held : tenants.lookup tenant with
  | none =>
    rw [held] at rebuilt
    obtain rfl := Option.map_eq_none_iff.mp rebuilt
    rw [rows (by rw [held]; simp)]
    refine ⟨le_rfl, ?_, ?_, ?_, fun _ => rfl, ?_, ?_, ?_⟩ <;> simp [tasksOf]
  | some record =>
    rw [held] at rebuilt
    cases status : record.status with
    | active =>
      simp only [Option.bind_some, emptyIndex, status, reduceCtorEq, if_false,
        Option.map_some] at rebuilt
      obtain ⟨index, rfl, live⟩ := Option.map_eq_some_iff.mp rebuilt
      refine ⟨le_rfl, by simp [tasksOf], fun _ => rfl, fun _ => rfl, by simp, by simp [tasksOf],
        ?_, ?_⟩
      · intro _ same _ _ indexed
        obtain rfl := Option.some.inj indexed
        exact ⟨rfl, live⟩
      · intro same present gone
        obtain rfl := Option.some.inj present
        rw [status] at gone
        cases gone
    | deleted =>
      simp only [Option.bind_some, emptyIndex, status, if_true, Option.map_none] at rebuilt
      obtain rfl := Option.map_eq_none_iff.mp rebuilt
      have marked : ∀ other, some record = some other → other.status = .deleted :=
        fun other same => Option.some.inj same ▸ status
      rw [rows (by rw [held]; exact marked)]
      refine ⟨Nat.zero_le _, ?_, by simp, by simp [tasksOf], fun _ => rfl, by simp [tasksOf],
        by simp [tasksOf], fun _ _ _ => ⟨rfl, by simp [tasksOf]⟩⟩
      intro other same active
      rw [marked other same] at active
      cases active

/-- **Memory and disk agree** when all calls have returned, after every run in which rows of a
tenant are committed while it is not deleted and an index is changed by the calls that share a
document in the order of their transactions. -/
theorem agrees_of_inOrder (tenants : Table TenantId TenantRecord)
    (vectors : Table (TenantId × DocId) Embedding) (events : List StorageEvent)
    (tidy : Tidy tenants vectors)
    (inOrder : Meets step InOrder ⟨.openDb tenants vectors, []⟩ events)
    (returned : (run tenants vectors events).tasks = []) :
    (run tenants vectors events).db.Agrees := by
  have accounted : (run tenants vectors events).Accounted :=
    (run_of_meets inOrder).invariant
      (fun system event next accounted taken => taken.2 ▸ accounted.step event taken.1)
      (accounted_openDb tidy)
  have ledger (tenant : TenantId) : Ledger ((run tenants vectors events).db.view tenant) [] := by
    have account := accounted tenant
    rw [returned] at account
    exact account
  refine ⟨fun tenant doc => (ledger tenant).settled doc, ?_⟩
  intro tenant record doc held gone
  exact congrFun ((ledger tenant).deleted record held gone).1 doc

def oneTenant : Table TenantId TenantRecord :=
  (∅ : Table TenantId TenantRecord).insert 1
    (NewTenant.record ⟨"bob", 1024, none, 1, "2026-01-01T00:00:00+00:00"⟩)

/-- Two uploads of one document: both look the index up and commit, and then change the index in
the order given by the positions of the running calls. -/
def twoUploads (order : List Nat) : List StorageEvent :=
  [.arrive (.vectors 1 (.upload [(7, [1])])), .arrive (.vectors 1 (.upload [(7, [2])])),
    .advance 0 2, .advance 0 2, .advance 0 2, .advance 0 2] ++ order.map (StorageEvent.advance · 2)

theorem twoUploads_inOrder_agrees : (run oneTenant ∅ (twoUploads [0, 0])).db.Agrees := by
  apply agrees_of_inOrder oneTenant ∅ (twoUploads [0, 0]) nofun
  · refine ⟨trivial, trivial, ?_, ?_, ?_, ?_, ?_, ?_, trivial⟩
    · rintro task ⟨⟩
      trivial
    · rintro task ⟨⟩
      trivial
    · rintro task ⟨⟩ record ⟨⟩
      exact nofun
    · rintro task ⟨⟩ record ⟨⟩
      exact nofun
    · rintro task ⟨⟩
      exact nofun
    · rintro task ⟨⟩
      exact nofun
  · rfl

/-- When the upload that commits last changes the index first, memory keeps the vector that the
database no longer has. -/
theorem twoUploads_not_agrees :
    (run oneTenant ∅ (twoUploads [1, 0])).tasks = [] ∧
      ¬ (run oneTenant ∅ (twoUploads [1, 0])).db.Agrees := by
  refine ⟨rfl, fun agrees => ?_⟩
  have same := agrees.1 1 7
  revert same
  decide +kernel

end StorageSystem

end KwaaiNet
