import Mathlib.Data.List.Dedup
import WorkflowEngine.Runtime.Manifest

/-!
# Queue rows and their declarations

`removeDeclaration` and `reconcile` of `queue-store.ts` over the rows of
`queue_items`, and the upload diff of `queue-store-lifecycle.ts`. A statement
either takes effect or fails as a whole; the DELETEs of one call are issued
together, and the call fails when one of them does, after the others have run.
-/

namespace WorkflowEngine.Runtime

open Lib
set_option autoImplicit false

structure QueueRow where
  seq : Nat
  owner : String
  repo : String
  workflow : String
  queue : String
  key : String
  item : String
  deriving DecidableEq

structure QueueScope where
  owner : String
  repo : String
  workflow : String
  queue : String
  deriving DecidableEq

/-- Without a `queue` the scope is the whole workflow. -/
structure WorkflowQueueScope where
  owner : String
  repo : String
  workflow : String
  queue : Option String
  deriving DecidableEq

def QueueRow.scope (row : QueueRow) : QueueScope := ⟨row.owner, row.repo, row.workflow, row.queue⟩

def QueueScope.toDeclaration (s : QueueScope) : WorkflowQueueScope := ⟨s.owner, s.repo, s.workflow, some s.queue⟩

/-- The WHERE clause of `removeDeclaration`. -/
def WorkflowQueueScope.covers (scope : WorkflowQueueScope) (row : QueueRow) : Bool :=
  row.owner == scope.owner && row.repo == scope.repo && row.workflow == scope.workflow &&
    (match scope.queue with
      | some queue => row.queue == queue
      | none => true)

def removeDeclaration (rows : List QueueRow) (scope : WorkflowQueueScope) : List QueueRow :=
  rows.filter fun row => !scope.covers row

/-- The outcome of each DELETE, as the database decides. -/
abbrev DeleteOutcomes := WorkflowQueueScope → Except String Unit

/-- `Promise.all` over one DELETE for each scope: the rows once all have settled. -/
def removeDeclarations (deletes : DeleteOutcomes) (scopes : List WorkflowQueueScope) (rows : List QueueRow) :
    List QueueRow :=
  scopes.foldl (fun rows scope =>
    match deletes scope with
    | .ok _ => removeDeclaration rows scope
    | .error _ => rows) rows

/-- The rejection that `Promise.all` passes on, if there is one. -/
def rejection (deletes : DeleteOutcomes) (scopes : List WorkflowQueueScope) : Except String Unit :=
  scopes.forM deletes

/-- The call fails exactly when one of its DELETEs does. -/
theorem any_delete_eq_true_iff (deletes : DeleteOutcomes) (scopes : List WorkflowQueueScope) :
    (scopes.any fun scope => deletes scope ≠ .ok ()) = true ↔ rejection deletes scopes ≠ .ok () := by
  induction scopes with
  | nil => simp [rejection, List.forM, pure, Except.pure]
  | cons scope scopes ih =>
    rw [List.any_cons, Bool.or_eq_true, ih]
    cases hd : deletes scope with
    | error message => simp [rejection, List.forM, hd, bind, Except.bind]
    | ok u => simp [rejection, List.forM, hd, bind, Except.bind]

theorem mem_removeDeclarations (deletes : DeleteOutcomes) (scopes : List WorkflowQueueScope)
    (rows : List QueueRow) (row : QueueRow) :
    row ∈ removeDeclarations deletes scopes rows ↔
      row ∈ rows ∧ ∀ scope ∈ scopes, deletes scope = .ok () → scope.covers row = false := by
  unfold removeDeclarations
  induction scopes generalizing rows with
  | nil => simp
  | cons scope scopes ih =>
    rw [List.foldl_cons, ih]
    cases hd : deletes scope with
    | error message => simp [hd]
    | ok u =>
      simp only [removeDeclaration, List.mem_filter, Bool.not_eq_eq_eq_not, Bool.not_true,
        List.forall_mem_cons, hd]
      constructor
      · rintro ⟨⟨hrow, hcovers⟩, hall⟩
        exact ⟨hrow, fun _ => hcovers, hall⟩
      · rintro ⟨hrow, hcovers, hall⟩
        exact ⟨⟨hrow, hcovers trivial⟩, hall⟩

theorem removeDeclarations_sublist (deletes : DeleteOutcomes) (scopes : List WorkflowQueueScope)
    (rows : List QueueRow) : (removeDeclarations deletes scopes rows).Sublist rows := by
  unfold removeDeclarations
  induction scopes generalizing rows with
  | nil => exact List.Sublist.refl rows
  | cons scope scopes ih =>
    rw [List.foldl_cons]
    refine (ih _).trans ?_
    cases deletes scope with
    | error message => exact List.Sublist.refl rows
    | ok u => exact List.filter_sublist

/-- Rows are removed one by one; the rest keeps its order. -/
theorem removeDeclarations_filter (deletes : DeleteOutcomes) (scopes : List WorkflowQueueScope)
    (rows : List QueueRow) (p : QueueRow → Bool)
    (hp : ∀ row, p row = true → ∀ scope ∈ scopes, scope.covers row = false) :
    (removeDeclarations deletes scopes rows).filter p = rows.filter p := by
  unfold removeDeclarations
  induction scopes generalizing rows with
  | nil => rfl
  | cons scope scopes ih =>
    rw [List.foldl_cons, ih _ fun row hrow s hs => hp row hrow s (List.mem_cons_of_mem _ hs)]
    cases deletes scope with
    | error message => rfl
    | ok u =>
      rw [removeDeclaration, List.filter_filter]
      apply List.filter_congr
      intro row _
      cases hrow : p row with
      | false => rfl
      | true => simp [hp row hrow scope List.mem_cons_self]

/-! ### The boot reconciliation -/

def tupleKey (t : QueueScope) : String :=
  t.owner ++ " " ++ t.repo ++ " " ++ t.workflow ++ " " ++ t.queue

/-- The distinct tuples in the table whose key is not a declared one. -/
def orphans (rows : List QueueRow) (declared : List QueueScope) : List QueueScope :=
  (rows.map QueueRow.scope).dedup.filter fun p => tupleKey p ∉ declared.map tupleKey

/-- `select` is the outcome of the SELECT DISTINCT. -/
def reconcile (select : Except String Unit) (deletes : DeleteOutcomes) (declared : List QueueScope)
    (rows : List QueueRow) : List QueueRow :=
  match select with
  | .error _ => rows
  | .ok _ => removeDeclarations deletes ((orphans rows declared).map QueueScope.toDeclaration) rows

theorem covers_toDeclaration (s : QueueScope) (row : QueueRow) :
    s.toDeclaration.covers row = true ↔ row.scope = s := by
  obtain ⟨owner, repo, workflow, queue⟩ := s
  simp [QueueScope.toDeclaration, WorkflowQueueScope.covers, QueueRow.scope, and_assoc]

/-- A row goes exactly when its tuple is taken for an orphan and the DELETE for it succeeds. -/
theorem mem_reconcile_ok (deletes : DeleteOutcomes) (declared : List QueueScope) (rows : List QueueRow)
    (row : QueueRow) :
    row ∈ reconcile (.ok ()) deletes declared rows ↔
      row ∈ rows ∧
        (tupleKey row.scope ∈ declared.map tupleKey ∨ deletes row.scope.toDeclaration ≠ .ok ()) := by
  simp only [reconcile, mem_removeDeclarations, orphans, List.mem_map, List.mem_filter, List.mem_dedup,
    decide_eq_true_eq]
  refine and_congr_right ?_
  intro hrow
  constructor
  · intro h
    by_cases hkey : ∃ t ∈ declared, tupleKey t = tupleKey row.scope
    · exact Or.inl hkey
    · refine Or.inr ?_
      intro hok
      have hcovers := h row.scope.toDeclaration ⟨row.scope, ⟨⟨row, hrow, rfl⟩, hkey⟩, rfl⟩ hok
      rw [(covers_toDeclaration row.scope row).mpr rfl] at hcovers
      cases hcovers
  · rintro h scope ⟨s, ⟨_, hnot⟩, rfl⟩ hok
    rw [Bool.eq_false_iff]
    intro hcovers
    rw [covers_toDeclaration] at hcovers
    subst hcovers
    rcases h with hdeclared | hfails
    · exact hnot hdeclared
    · exact hfails hok

/-! ### The upload diff -/

structure DiffResult where
  removedWorkflows : List String
  perWorkflow : List (String × List String)
  deriving DecidableEq

def queueNames (workflow : WorkflowManifest) : List String := workflow.queues.map (·.name)

def diffManifests (oldWorkflows newWorkflows : OrderedMap String WorkflowManifest) : DiffResult where
  removedWorkflows := oldWorkflows.keys.filter fun name => !newWorkflows.has name
  perWorkflow := newWorkflows.entries.filterMap fun e =>
    match oldWorkflows.get? e.1 with
    | none => none
    | some oldWf =>
      let removed := (queueNames oldWf).filter fun q => q ∉ queueNames e.2
      if removed.isEmpty then none else some (e.1, removed)

/-- The DELETEs of `applyQueueDiffViaStore`. -/
def DiffResult.scopes (diff : DiffResult) (owner repo : String) : List WorkflowQueueScope :=
  diff.removedWorkflows.map (fun workflow => ⟨owner, repo, workflow, none⟩) ++
    diff.perWorkflow.flatMap fun e => e.2.map fun queue => ⟨owner, repo, e.1, some queue⟩

theorem diffManifests_empty (newWorkflows : OrderedMap String WorkflowManifest) (owner repo : String) :
    (diffManifests .empty newWorkflows).scopes owner repo = [] := by
  simp [diffManifests, DiffResult.scopes, OrderedMap.keys]

end WorkflowEngine.Runtime
