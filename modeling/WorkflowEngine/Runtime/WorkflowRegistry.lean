import WorkflowEngine.Runtime.OwnerRepoState
import WorkflowEngine.Runtime.QueueStore

/-!
# Registering an upload

`registerOwner` of `workflow-registry.ts` on the four stores it writes: the trigger
backends, the persisted tarball, the queue rows and its own `ownerStates`. What
the backends, the storage and the database answer is a parameter; a backend
replaces its entries for a repo as a whole, and a storage write is atomic.
-/

namespace WorkflowEngine.Runtime

open Lib
set_option autoImplicit false

variable {Z B : Type}

/-- `B` are the bytes of a tarball. `installed` is what each backend was last given for a repo. -/
structure Registry (Z B : Type) where
  ownerStates : OrderedMap String (OrderedMap String (OwnerRepoState Z))
  installed : OrderedMap (TriggerKind × String × String) (List (TriggerEntry Z))
  storage : OrderedMap String B
  rows : List QueueRow

structure TriggerConfigError where
  backend : TriggerKind
  trigger : String
  message : String
  deriving DecidableEq

structure BackendInfraError where
  backend : TriggerKind
  message : String
  deriving DecidableEq

inductive ReconfigureOutcome where
  | ok
  | configErrors (first : TriggerConfigError) (rest : List TriggerConfigError)
  | rejected (message : String)
  deriving DecidableEq

structure UploadOutcomes where
  reconfigure : TriggerKind → ReconfigureOutcome
  write : Except String Unit
  delete : DeleteOutcomes

/-- Why `registerOwner` returns a failure, by the step that failed. -/
inductive RegisterFailure where
  | prepare (failure : PrepareFailure)
  | backends (userErrors : List TriggerConfigError) (infraErrors : List BackendInfraError)
  | persist (message : String)
  | queueLifecycle (message : String)
  deriving DecidableEq

def RegisterFailure.error : RegisterFailure → String
  | .prepare failure => failure.error
  | .backends userErrors _ => if userErrors.isEmpty then "trigger_backend_failed" else "trigger_config_failed"
  | .persist message => "failed to persist workflow bundle: " ++ message
  | .queueLifecycle message => "failed to apply queue store lifecycle: " ++ message

inductive RegisterResult where
  | ok (workflows : List String)
  | failed (failure : RegisterFailure)
  deriving DecidableEq

def repoKey (owner repo : String) : String := "workflows/" ++ owner ++ "/" ++ repo ++ ".tar.gz"

/-- The entries of a state that go to the backend of one kind. -/
def OwnerRepoState.entriesOfKind (state : OwnerRepoState Z) (kind : TriggerKind) : List (TriggerEntry Z) :=
  state.entries.values.filter fun e => e.descriptor.kind = kind

namespace Registry

def getRepoState (r : Registry Z B) (owner repo : String) : Option (OwnerRepoState Z) :=
  (r.ownerStates.get? owner).bind fun repos => repos.get? repo

def setRepoState (r : Registry Z B) (owner repo : String) (state : OwnerRepoState Z) : Registry Z B :=
  { r with
    ownerStates := r.ownerStates.set owner (((r.ownerStates.get? owner).getD .empty).set repo state) }

theorem getRepoState_setRepoState (r : Registry Z B) (owner repo owner' repo' : String)
    (state : OwnerRepoState Z) :
    (r.setRepoState owner repo state).getRepoState owner' repo' =
      if owner' = owner ∧ repo' = repo then some state else r.getRepoState owner' repo' := by
  simp only [getRepoState, setRepoState, OrderedMap.get?_set]
  by_cases ho : owner' = owner
  · subst ho
    simp only [if_true, Option.bind_some, true_and, OrderedMap.get?_set]
    by_cases hr : repo' = repo
    · simp [hr]
    · cases hget : r.ownerStates.get? owner' with
      | none => simp [hr]
      | some repos => simp [hr]
  · simp [ho]

def install (r : Registry Z B) (owner repo : String) (state : OwnerRepoState Z) (kind : TriggerKind) :
    Registry Z B :=
  { r with installed := r.installed.set (kind, owner, repo) (state.entriesOfKind kind) }

def persistTarball (r : Registry Z B) (owner repo : String) (bytes : B) : Registry Z B :=
  { r with storage := r.storage.set (repoKey owner repo) bytes }

/-- The DELETEs that replacing the current state of the repo calls for. -/
def queueDiff (r : Registry Z B) (owner repo : String) (state : OwnerRepoState Z) :
    List WorkflowQueueScope :=
  let oldWorkflows := ((r.getRepoState owner repo).map (·.workflows)).getD .empty
  (diffManifests oldWorkflows state.workflows).scopes owner repo

end Registry

def ReconfigureOutcome.userErrors : ReconfigureOutcome → List TriggerConfigError
  | .configErrors first rest => first :: rest
  | _ => []

def ReconfigureOutcome.infraErrors (kind : TriggerKind) : ReconfigureOutcome → List BackendInfraError
  | .rejected message => [⟨kind, message⟩]
  | _ => []

/-- The aggregate of `reconfigureBackends`, once every backend has settled; `none` is `ok`. -/
def aggregate (kinds : List TriggerKind) (outcomes : TriggerKind → ReconfigureOutcome) :
    Option (List TriggerConfigError × List BackendInfraError) :=
  let userErrors := kinds.flatMap fun k => (outcomes k).userErrors
  let infraErrors := kinds.flatMap fun k => (outcomes k).infraErrors k
  if userErrors.isEmpty && infraErrors.isEmpty then none else some (userErrors, infraErrors)

/-- An answer other than `ok` always brings an error with it. -/
theorem any_reconfigure_eq_true_iff (kinds : List TriggerKind) (outcomes : TriggerKind → ReconfigureOutcome) :
    (kinds.any fun kind => outcomes kind ≠ .ok) = true ↔ aggregate kinds outcomes ≠ none := by
  have hone : ∀ kind, outcomes kind = .ok ↔
      (outcomes kind).userErrors = [] ∧ (outcomes kind).infraErrors kind = [] := by
    intro kind
    cases outcomes kind with
    | ok => simp [ReconfigureOutcome.userErrors, ReconfigureOutcome.infraErrors]
    | configErrors first rest => simp [ReconfigureOutcome.userErrors]
    | rejected message => simp [ReconfigureOutcome.infraErrors]
  have hall : aggregate kinds outcomes = none ↔ ∀ kind ∈ kinds, outcomes kind = .ok := by
    simp only [aggregate, hone, imp_and, forall_and, ← List.flatMap_eq_nil_iff]
    simp
  rw [ne_eq, hall]
  simp

namespace Registry

def reconfigureBackends (r : Registry Z B) (kinds : List TriggerKind)
    (outcomes : TriggerKind → ReconfigureOutcome) (owner repo : String) (state : OwnerRepoState Z) :
    Registry Z B :=
  kinds.foldl (fun r k => if outcomes k = .ok then r.install owner repo state k else r) r

/-- `registerOwner` from the queue lifecycle on. -/
def applyQueueLifecycle (r : Registry Z B) (delete : DeleteOutcomes) (owner repo : String)
    (state : OwnerRepoState Z) : Registry Z B × RegisterResult :=
  let scopes := r.queueDiff owner repo state
  let deleted := { r with rows := removeDeclarations delete scopes r.rows }
  match rejection delete scopes with
  | .error message => (deleted, .failed (.queueLifecycle message))
  | .ok _ => (deleted.setRepoState owner repo state, .ok state.workflows.keys)

/-- `registerOwner` from the storage write on. -/
def persistAndSwap (r : Registry Z B) (outcomes : UploadOutcomes) (owner repo : String)
    (state : OwnerRepoState Z) : Option B → Registry Z B × RegisterResult
  | none => r.applyQueueLifecycle outcomes.delete owner repo state
  | some bytes =>
    match outcomes.write with
    | .error message => (r, .failed (.persist message))
    | .ok _ => (r.persistTarball owner repo bytes).applyQueueLifecycle outcomes.delete owner repo state

/-- The registry after the call and what the call gives back; an error is thrown. -/
def registerOwner (options : WorkflowRegistryOptions Z) (outcomes : UploadOutcomes) (r : Registry Z B)
    (owner repo : String) (files : OrderedMap String String) (tarballBytes : Option B) :
    Registry Z B × Except String RegisterResult :=
  match prepareOwnerRepoState options owner repo files with
  | .error thrown => (r, .error thrown)
  | .ok (.error failure) => (r, .ok (.failed (.prepare failure)))
  | .ok (.ok state) =>
    let reconfigured := r.reconfigureBackends options.backends outcomes.reconfigure owner repo state
    match aggregate options.backends outcomes.reconfigure with
    | some (userErrors, infraErrors) => (reconfigured, .ok (.failed (.backends userErrors infraErrors)))
    | none =>
      let (swapped, result) := reconfigured.persistAndSwap outcomes owner repo state tarballBytes
      (swapped, .ok result)

/-! ### What a failed upload leaves behind -/

theorem reconfigureBackends_frame (r : Registry Z B) (kinds : List TriggerKind)
    (outcomes : TriggerKind → ReconfigureOutcome) (owner repo : String) (state : OwnerRepoState Z) :
    (r.reconfigureBackends kinds outcomes owner repo state).ownerStates = r.ownerStates ∧
    (r.reconfigureBackends kinds outcomes owner repo state).storage = r.storage ∧
    (r.reconfigureBackends kinds outcomes owner repo state).rows = r.rows := by
  unfold reconfigureBackends
  induction kinds generalizing r with
  | nil => exact ⟨rfl, rfl, rfl⟩
  | cons k kinds ih =>
    rw [List.foldl_cons]
    obtain ⟨hstates, hstorage, hrows⟩ := ih (if outcomes k = .ok then r.install owner repo state k else r)
    rw [hstates, hstorage, hrows]
    split
    · exact ⟨rfl, rfl, rfl⟩
    · exact ⟨rfl, rfl, rfl⟩

theorem queueDiff_congr {r s : Registry Z B} (h : r.ownerStates = s.ownerStates) (owner repo : String)
    (state : OwnerRepoState Z) : r.queueDiff owner repo state = s.queueDiff owner repo state := by
  simp only [queueDiff, getRepoState, h]

/-- The row belongs to no declaration that the upload removes. -/
def Kept (scopes : List WorkflowQueueScope) (row : QueueRow) : Bool := scopes.all fun s => !s.covers row

theorem covers_of_kept {scopes : List WorkflowQueueScope} {row : QueueRow} (h : Kept scopes row = true) :
    ∀ scope ∈ scopes, scope.covers row = false := by
  intro scope hscope
  have hall := List.all_eq_true.mp h scope hscope
  simpa using hall

theorem applyQueueLifecycle_failed {r s : Registry Z B} {delete : DeleteOutcomes} {owner repo : String}
    {state : OwnerRepoState Z} {failure : RegisterFailure}
    (h : r.applyQueueLifecycle delete owner repo state = (s, .failed failure)) :
    (∃ message, failure = .queueLifecycle message) ∧ s.ownerStates = r.ownerStates ∧ s.storage = r.storage ∧
      s.rows.Sublist r.rows ∧ s.rows.filter (Kept (r.queueDiff owner repo state)) =
        r.rows.filter (Kept (r.queueDiff owner repo state)) := by
  unfold applyQueueLifecycle at h
  dsimp only at h
  split at h
  · rename_i message _
    cases h
    refine ⟨⟨message, rfl⟩, rfl, rfl, removeDeclarations_sublist _ _ _, ?_⟩
    exact removeDeclarations_filter _ _ _ _ fun row hrow => covers_of_kept hrow
  · cases h

/-- Where the storage stands after the write step of an upload. -/
def storageAfterWrite (r : Registry Z B) (owner repo : String) : Option B → OrderedMap String B
  | none => r.storage
  | some bytes => r.storage.set (repoKey owner repo) bytes

theorem persistAndSwap_failed {r s : Registry Z B} {outcomes : UploadOutcomes} {owner repo : String}
    {state : OwnerRepoState Z} {tarballBytes : Option B} {failure : RegisterFailure}
    (h : r.persistAndSwap outcomes owner repo state tarballBytes = (s, .failed failure)) :
    s.ownerStates = r.ownerStates ∧
      (((∀ message, failure ≠ .queueLifecycle message) ∧ s.storage = r.storage ∧ s.rows = r.rows) ∨
       ((∃ message, failure = .queueLifecycle message) ∧
        s.storage = r.storageAfterWrite owner repo tarballBytes ∧ s.rows.Sublist r.rows ∧
        s.rows.filter (Kept (r.queueDiff owner repo state)) =
          r.rows.filter (Kept (r.queueDiff owner repo state)))) := by
  unfold persistAndSwap at h
  split at h
  · obtain ⟨hfailure, hstates, hstorage, hrows⟩ := applyQueueLifecycle_failed h
    exact ⟨hstates, Or.inr ⟨hfailure, hstorage, hrows⟩⟩
  · rename_i bytes
    split at h
    · cases h
      exact ⟨rfl, Or.inl ⟨by simp, rfl, rfl⟩⟩
    · obtain ⟨hfailure, hstates, hstorage, hrows⟩ := applyQueueLifecycle_failed h
      exact ⟨hstates, Or.inr ⟨hfailure, hstorage, hrows⟩⟩

/-- The repo's state, the tarballs and the queue rows are as before. -/
structure Unchanged (r s : Registry Z B) (owner repo : String) : Prop where
  state : s.getRepoState owner repo = r.getRepoState owner repo
  storage : s.storage = r.storage
  rows : s.rows = r.rows

/-- A call that does not succeed leaves the in-memory state alone. Up to the storage write it leaves
tarball and rows alone too. A failed DELETE comes after the write: the tarball is then the uploaded
one, and only rows under removed declarations can be gone. -/
theorem registerOwner_failure (options : WorkflowRegistryOptions Z) (outcomes : UploadOutcomes)
    (r s : Registry Z B) (owner repo : String) (files : OrderedMap String String) (tarballBytes : Option B)
    (result : Except String RegisterResult)
    (h : registerOwner options outcomes r owner repo files tarballBytes = (s, result))
    (hfail : ∀ workflows, result ≠ .ok (.ok workflows)) :
    s.ownerStates = r.ownerStates ∧
      (((∀ message, result ≠ .ok (.failed (.queueLifecycle message))) ∧
          s.storage = r.storage ∧ s.rows = r.rows) ∨
       ((∃ message, result = .ok (.failed (.queueLifecycle message))) ∧
          s.storage = r.storageAfterWrite owner repo tarballBytes ∧ s.rows.Sublist r.rows ∧
          ∃ state, prepareOwnerRepoState options owner repo files = .ok (.ok state) ∧
            s.rows.filter (Kept (r.queueDiff owner repo state)) =
              r.rows.filter (Kept (r.queueDiff owner repo state)))) := by
  unfold registerOwner at h
  split at h
  · cases h
    exact ⟨rfl, Or.inl ⟨by simp, rfl, rfl⟩⟩
  · cases h
    exact ⟨rfl, Or.inl ⟨by simp, rfl, rfl⟩⟩
  · rename_i state hprepared
    obtain ⟨hstates, hstorage, hrows⟩ :=
      reconfigureBackends_frame r options.backends outcomes.reconfigure owner repo state
    dsimp only at h
    split at h
    · cases h
      exact ⟨hstates, Or.inl ⟨by simp, hstorage, hrows⟩⟩
    · cases h
      cases hswap : (r.reconfigureBackends options.backends outcomes.reconfigure owner repo
          state).persistAndSwap outcomes owner repo state tarballBytes with
      | mk s' result' =>
        rw [hswap] at hfail
        cases result' with
        | ok workflows => exact absurd rfl (hfail workflows)
        | failed failure =>
          obtain ⟨hstates', hcases⟩ := persistAndSwap_failed hswap
          rw [queueDiff_congr hstates, hrows] at hcases
          refine ⟨hstates'.trans hstates, ?_⟩
          rcases hcases with ⟨hne, hstorage', hrows'⟩ | ⟨⟨message, hmessage⟩, hstorage', hrows'⟩
          · refine Or.inl ⟨?_, hstorage'.trans hstorage, hrows'⟩
            intro message heq
            cases heq
            exact hne message rfl
          · refine Or.inr ⟨⟨message, by rw [hmessage]⟩, ?_, hrows'.1, state, hprepared, hrows'.2⟩
            rw [hstorage']
            cases tarballBytes with
            | none => exact hstorage
            | some bytes => simp only [storageAfterWrite, hstorage]

end Registry

def mailer (queues : List QueueManifest) (h : (queues.map (·.name)).Nodup) : WorkflowManifest :=
  .plain "mailer" "1b2c" .empty
    ⟨.cron, "daily", .object [("schedule", .string "0 7 * * *")], .null, .null⟩ queues h

def jobsQueue : List QueueManifest := [⟨"jobs", .null⟩]

theorem nodup_jobsQueue : (jobsQueue.map (·.name)).Nodup := List.nodup_singleton _

/-- `manifest.json` is `"with queue"` or anything else. -/
def mailerOptions : WorkflowRegistryOptions Unit where
  keyStore := ⟨fun _ => none⟩
  fromJSONSchema := fun _ => .ok ()
  applyStripMarkers := id
  parseManifest := fun raw =>
    if raw = "with queue" then .ok (.single (mailer jobsQueue nodup_jobsQueue))
    else .ok (.single (mailer [] List.nodup_nil))
  backends := [.http, .cron]

def mailerFiles (raw : String) : OrderedMap String String :=
  (OrderedMap.empty.set "manifest.json" raw).set "mailer.js" "exports.daily = run"

def mailerRow : QueueRow := ⟨1, "acme", "site", "mailer", "jobs", "", "{}"⟩

namespace Registry

/-- The workflow with its queue is registered and one item waits in the queue. -/
def mailerRegistry : Registry Unit String :=
  { (registerOwner mailerOptions ⟨fun _ => .ok, .ok (), fun _ => .ok ()⟩ ⟨.empty, .empty, .empty, []⟩
      "acme" "site" (mailerFiles "with queue") (some "old tarball")).1 with rows := [mailerRow] }

/-- An upload that removes the queue while the DELETE fails. -/
def lockedUpload : Registry Unit String × Except String RegisterResult :=
  registerOwner mailerOptions ⟨fun _ => .ok, .ok (), fun _ => .error "SQLITE_BUSY"⟩ mailerRegistry
    "acme" "site" (mailerFiles "without queue") (some "new tarball")

/-- The failed upload has replaced the tarball. -/
theorem lockedUpload_not_unchanged :
    lockedUpload.2 = .ok (.failed (.queueLifecycle "SQLITE_BUSY")) ∧
      ¬ Unchanged mailerRegistry lockedUpload.1 "acme" "site" := by
  refine ⟨by decide, ?_⟩
  intro h
  have hget := congrArg (OrderedMap.get? · (repoKey "acme" "site")) h.storage
  revert hget
  decide

theorem registerOwner_failure_lockedUpload :
    lockedUpload.1.ownerStates = mailerRegistry.ownerStates ∧
      lockedUpload.1.storage = mailerRegistry.storage.set (repoKey "acme" "site") "new tarball" := by
  have h := registerOwner_failure mailerOptions ⟨fun _ => .ok, .ok (), fun _ => .error "SQLITE_BUSY"⟩
    mailerRegistry lockedUpload.1 "acme" "site" (mailerFiles "without queue") (some "new tarball")
    lockedUpload.2 rfl (by
      intro workflows
      rw [show lockedUpload.2 = .ok (.failed (.queueLifecycle "SQLITE_BUSY")) by decide]
      simp)
  refine ⟨h.1, ?_⟩
  rcases h.2 with ⟨hne, _⟩ | ⟨_, hstorage, _⟩
  · exact absurd (by decide) (hne "SQLITE_BUSY")
  · exact hstorage

end Registry

end WorkflowEngine.Runtime
