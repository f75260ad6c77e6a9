import WorkflowEngine.Runtime.EventRows
import WorkflowEngine.Runtime.WorkflowUpload

/-!
# One `system.upload` event for each uploaded version

What the upload handler does once `registerOwner` has returned: it lists the repo
from the registry, and for one workflow after the other awaits `hasUploadEvent`
and then the insert of the event. Any number of calls on one `(owner, repo)` run
at the same time. An insert is one step here, with the retries of the store
behind it; it ends stored or dropped.
-/

namespace WorkflowEngine.Runtime

open Lib
set_option autoImplicit false

variable {Z B : Type}

/-! ## What the handler reads -/

/-- A property of a value that comes from `JSON.parse`; the last of several members of a name counts. -/
def parsedProperty (key : String) : JsValue → JsValue
  | .object fields => (fields.reverse.lookup key).getD .undefined
  | _ => .undefined

def setManifestWorkflow (out : OrderedMap String JsValue) (wf : JsValue) : OrderedMap String JsValue :=
  match parsedProperty "name" wf with
  | .string name => out.set name wf
  | _ => out

def parseManifestWorkflows (files : OrderedMap String String) : OrderedMap String JsValue :=
  match (files.get? "manifest.json").bind fun raw => jsonParse raw.toList with
  | none => .empty
  | some parsed =>
    match parsedProperty "workflows" parsed with
    | .array workflows => workflows.foldl setManifestWorkflow .empty
    | _ => .empty

/-- `manifestByName.get(name) ?? {}`. -/
def uploadSnapshot (files : OrderedMap String String) (name : String) : JsValue :=
  ((parseManifestWorkflows files).get? name).getD (.object [])

structure WorkflowEntry (Z : Type) where
  owner : String
  repo : String
  workflow : WorkflowManifest
  bundleSource : String
  triggers : List (TriggerDescriptor Z)

def collectForRepo (owner repo : String) (state : OwnerRepoState Z) : List (WorkflowEntry Z) :=
  state.workflows.entries.filterMap fun e =>
    match state.bundleSources.get? e.1, state.descriptors.get? e.1 with
    | some bundleSource, some descriptors => some ⟨owner, repo, e.2, bundleSource, descriptors⟩
    | _, _ => none

/-- `list(owner, repo)`. -/
def Registry.list (r : Registry Z B) (owner repo : String) : List (WorkflowEntry Z) :=
  ((r.getRepoState owner repo).map (collectForRepo owner repo)).getD []

def isUploadEvent (owner repo workflow workflowSha : String) (e : InvocationEvent JsValue) : Bool :=
  e.kind = "system.upload" && e.owner = owner && e.repo = repo && e.workflow = workflow &&
    e.workflowSha = workflowSha

def uploadEventCount (rows : List (InvocationEvent JsValue)) (owner repo workflow workflowSha : String) : Nat :=
  rows.countP (isUploadEvent owner repo workflow workflowSha)

def hasUploadEvent (rows : List (InvocationEvent JsValue)) (owner repo workflow workflowSha : String) : Bool :=
  0 < uploadEventCount rows owner repo workflow workflowSha

/-- The event of `emitSystemUpload`. -/
def systemUpload (owner repo : String) (workflow : WorkflowManifest) (snapshot : JsValue)
    (user : DispatchUser) (id atIso : String) : InvocationEvent JsValue where
  id := id
  owner := owner
  repo := repo
  workflow := workflow.name
  workflowSha := workflow.sha
  kind := "system.upload"
  name := workflow.name
  seq := 0
  ref := some 0
  ts := 0
  atIso := atIso
  input := some snapshot
  output := none
  error := none
  metadata := some (DispatchMeta.toJs ⟨.upload, some user⟩)

/-! ## The calls -/

/-- An `emitUploadEvents`: the entries still to come, and the one whose insert is awaited. -/
structure UploadEmission where
  user : DispatchUser
  pending : List WorkflowManifest
  recording : Option WorkflowManifest

structure UploadHost (Z B : Type) where
  uploads : Uploads Z B
  emissions : OrderedMap Nat UploadEmission
  rows : List (InvocationEvent JsValue)

inductive UploadHostAct (B : Type) where
  | upload (act : UploadAct B)
  | list (u : Nat) (user : DispatchUser)
  | check (u : Nat)
  | insert (u : Nat) (id atIso : String) (stored : Bool)
  | other (row : InvocationEvent JsValue)

namespace UploadHost

section Step
variable (options : WorkflowRegistryOptions Z) (owner repo : String)

def start (r : Registry Z B) : UploadHost Z B := ⟨⟨r, []⟩, .empty, []⟩

/-- The call has returned from `registerOwner` and starts its loop. -/
def list (s : UploadHost Z B) (u : Nat) (user : DispatchUser) : Option (UploadHost Z B) :=
  match s.uploads.runs[u]?, s.emissions.get? u with
  | some run, none =>
    if run.phase = .returned then
      let pending := (s.uploads.registry.list owner repo).map (·.workflow)
      some { s with emissions := s.emissions.set u ⟨user, pending, none⟩ }
    else none
  | _, _ => none

/-- The answer of `hasUploadEvent` for the next entry. -/
def check (s : UploadHost Z B) (u : Nat) : Option (UploadHost Z B) :=
  match s.emissions.get? u with
  | some ⟨user, wf :: pending, none⟩ =>
    let recording := if hasUploadEvent s.rows owner repo wf.name wf.sha then none else some wf
    some { s with emissions := s.emissions.set u ⟨user, pending, recording⟩ }
  | _ => none

/-- The snapshot is from the call's own files, the workflow from the registry. -/
def insert (s : UploadHost Z B) (u : Nat) (id atIso : String) (stored : Bool) : Option (UploadHost Z B) :=
  match s.uploads.runs[u]?, s.emissions.get? u with
  | some run, some ⟨user, pending, some wf⟩ =>
    let event := systemUpload owner repo wf (uploadSnapshot run.upload.files wf.name) user id atIso
    some { s with
      emissions := s.emissions.set u ⟨user, pending, none⟩
      rows := if stored then s.rows ++ [event] else s.rows }
  | _, _ => none

/-- A row of an invocation, or of an upload to another repo. -/
def other (s : UploadHost Z B) (row : InvocationEvent JsValue) : Option (UploadHost Z B) :=
  if row.kind = "system.upload" ∧ row.owner = owner ∧ row.repo = repo then none
  else some { s with rows := s.rows ++ [row] }

def step (s : UploadHost Z B) : UploadHostAct B → Option (UploadHost Z B)
  | .upload act => (Uploads.step options owner repo s.uploads act).map fun uploads => { s with uploads := uploads }
  | .list u user => s.list owner repo u user
  | .check u => s.check owner repo u
  | .insert u id atIso stored => s.insert owner repo u id atIso stored
  | .other row => s.other owner repo row

end Step
end UploadHost

def WorkflowManifest.version (wf : WorkflowManifest) : String × String := (wf.name, wf.sha)

/-- The `(workflow, sha)` pairs that a state registers. -/
def OwnerRepoState.versions (state : OwnerRepoState Z) : List (String × String) :=
  state.workflows.values.map (·.version)

/-- Name and sha of a raw manifest entry. -/
def entryVersion (entry : JsValue) : Option (String × String) :=
  match parsedProperty "name" entry, parsedProperty "sha" entry with
  | .string name, .string sha => some (name, sha)
  | _, _ => none

/-- The schema behind `parseManifest` reads the entries of the raw manifest one by one. -/
def ReadsEntries (parseManifest : String → Except String Manifest) : Prop :=
  ∀ raw manifest, parseManifest raw = .ok manifest →
    ∃ parsed entries, jsonParse raw.toList = some parsed ∧ parsedProperty "workflows" parsed = .array entries ∧
      entries.map entryVersion = manifest.workflows.map fun wf => some wf.version

namespace UploadHost

section Law
variable (owner repo : String)

/-- A call that has returned from `registerOwner` has registered this version. -/
def Registered (s : UploadHost Z B) (version : String × String) : Prop :=
  ∃ run ∈ s.uploads.runs, run.phase = .returned ∧ version ∈ run.state.versions

/-- Every call that has returned from `registerOwner` has been through its loop. -/
def Settled (s : UploadHost Z B) : Prop :=
  ∀ u run, s.uploads.runs[u]? = some run → run.phase = .returned →
    ∃ e, s.emissions.get? u = some e ∧ e.pending = [] ∧ e.recording = none

instance decidableSettled (s : UploadHost Z B) : Decidable s.Settled :=
  decidable_of_iff (∀ u : Fin s.uploads.runs.length, s.uploads.runs[u].phase = .returned →
      ∃ e ∈ s.emissions.get? u, e.pending = [] ∧ e.recording = none) <| by
    constructor
    · intro h u run hrun hphase
      obtain ⟨hlt, rfl⟩ := List.getElem?_eq_some_iff.mp hrun
      exact h ⟨u, hlt⟩ hphase
    · intro h u hphase
      exact h u _ (List.getElem?_eq_getElem u.isLt) hphase

/-- Every registered version has one event, and an event holds the entry of an upload of its version. -/
structure OneEach (s : UploadHost Z B) : Prop where
  one : ∀ name sha, s.Registered (name, sha) → uploadEventCount s.rows owner repo name sha = 1
  snapshot : ∀ name sha, ∀ row ∈ s.rows, isUploadEvent owner repo name sha row = true →
    ∃ run ∈ s.uploads.runs, run.phase = .returned ∧ (name, sha) ∈ run.state.versions ∧
      ∃ entry, (parseManifestWorkflows run.upload.files).get? name = some entry ∧
        entryVersion entry = some (name, sha) ∧ row.input = some entry

/-- A call lists the versions it has registered itself, checks a version while nobody else is between the
check and the insert of it, and has its event stored. -/
def undisturbed (s : UploadHost Z B) : UploadHostAct B → Bool
  | .list u _ =>
    let listed := (s.uploads.registry.list owner repo).map (·.workflow.version)
    (s.uploads.runs[u]?).all fun run =>
      run.state.versions.all (listed.contains ·) && listed.all (run.state.versions.contains ·)
  | .check u =>
    ((s.emissions.get? u).bind (·.pending.head?)).all fun wf =>
      s.emissions.values.all fun e => e.recording.map (·.version) != some wf.version
  | .insert _ _ _ stored => stored
  | _ => true

end Law
end UploadHost

/-! ## What the registry does meanwhile -/

namespace Uploads

section Runs
variable {options : WorkflowRegistryOptions Z} {owner repo : String}

theorem deleted_returned {s : Uploads Z B} {u : Nat} {run : UploadRun Z B} (hrun : s.runs[u]? = some run)
    (hphase : run.phase = .returned) (scope : WorkflowQueueScope) (outcome : Except String Unit) :
    s.deleted u scope outcome = none := by
  simp [deleted, hrun, hphase]

/-- The calls after a step: a new one, prepared from its files, or one that had not returned goes on. -/
theorem step_runs {s t : Uploads Z B} {a : UploadAct B} (h : step options owner repo s a = some t) :
    t.runs = s.runs ∨
    (∃ run, prepareOwnerRepoState options owner repo run.upload.files = .ok (.ok run.state) ∧
      run.phase ≠ .returned ∧ t.runs = s.runs ++ [run]) ∨
    (∃ u run phase, s.runs[u]? = some run ∧ run.phase ≠ .returned ∧
      t.runs = s.runs.modify u fun run => { run with phase := phase }) := by
  cases a with
  | start upload =>
    cases h
    unfold start
    split
    · rename_i state hprepared
      refine Or.inr (Or.inl ⟨⟨upload, state, _⟩, hprepared, ?_, rfl⟩)
      intro hphase
      have hswapped := UploadPhase.swapped_reconfigure options.backends false
      rw [show UploadPhase.reconfigure options.backends false = .returned from hphase] at hswapped
      cases hswapped
    · exact Or.inl rfl
  | reconfigured u kind outcome =>
    cases step_cases h with
    | installed _ _ run pending anyFailed hrun hphase hmem =>
      refine Or.inr (Or.inr ⟨u, run, _, hrun, ?_, rfl⟩)
      simp [hphase]
    | refused _ _ _ run pending anyFailed hrun hphase =>
      refine Or.inr (Or.inr ⟨u, run, _, hrun, ?_, rfl⟩)
      simp [hphase]
  | written u outcome =>
    cases step_cases h with
    | wrote _ run scopes hrun hphase =>
      refine Or.inr (Or.inr ⟨u, run, _, hrun, ?_, rfl⟩)
      simp [hphase]
    | writeFailed _ message run hrun hphase =>
      refine Or.inr (Or.inr ⟨u, run, _, hrun, ?_, rfl⟩)
      simp [hphase]
  | deleted u scope outcome =>
    have hphase : ∀ run, s.runs[u]? = some run → run.phase ≠ .returned := by
      intro run hrun hret
      rw [step, deleted_returned hrun hret] at h
      cases h
    have hframe : (s.afterDelete scope outcome).runs = s.runs := by
      cases outcome <;> rfl
    cases step_cases h with
    | removed _ _ _ run pending pending' hrun =>
      exact Or.inr (Or.inr ⟨u, run, _, hrun, hphase run hrun, by rw [setPhase, hframe]⟩)
    | drained _ _ _ run step pending hrun =>
      exact Or.inr (Or.inr ⟨u, run, _, hrun, hphase run hrun, by rw [setPhase, hframe]⟩)
  | swap u =>
    cases step_cases h with
    | swapped _ run hrun hphase =>
      refine Or.inr (Or.inr ⟨u, run, _, hrun, ?_, rfl⟩)
      simp [hphase]

/-- A call that has returned stays as it is. -/
theorem step_returned {s t : Uploads Z B} {a : UploadAct B} (h : step options owner repo s a = some t)
    {u : Nat} {run : UploadRun Z B} (hrun : s.runs[u]? = some run) (hphase : run.phase = .returned) :
    t.runs[u]? = some run := by
  rcases step_runs h with hruns | ⟨new, -, -, hruns⟩ | ⟨v, other, phase, hv, hother, hruns⟩
  · rw [hruns, hrun]
  · rw [hruns, List.getElem?_append_left (List.getElem?_eq_some_iff.mp hrun).1, hrun]
  · have hne : v ≠ u := by
      intro heq
      subst heq
      cases hv.symm.trans hrun
      exact hother hphase
    rw [hruns, List.getElem?_modify, hrun]
    simp [hne]

/-- Every call in flight comes from an archive that has been accepted. -/
theorem step_prepared {s t : Uploads Z B} {a : UploadAct B} (h : step options owner repo s a = some t)
    (hs : ∀ run ∈ s.runs, prepareOwnerRepoState options owner repo run.upload.files = .ok (.ok run.state)) :
    ∀ run ∈ t.runs, prepareOwnerRepoState options owner repo run.upload.files = .ok (.ok run.state) := by
  intro run hmem
  rcases step_runs h with hruns | ⟨new, hprepared, -, hruns⟩ | ⟨v, other, phase, -, -, hruns⟩
  · exact hs run (hruns ▸ hmem)
  · rw [hruns, List.mem_append, List.mem_singleton] at hmem
    rcases hmem with hmem | rfl
    · exact hs run hmem
    · exact hprepared
  · rw [hruns] at hmem
    obtain ⟨u, hu⟩ := List.mem_iff_getElem?.mp hmem
    rw [List.getElem?_modify] at hu
    obtain ⟨old, hold, heq⟩ := Option.map_eq_some_iff.mp hu
    have hprepared := hs old (List.mem_of_getElem? hold)
    split at heq
    · subst heq
      exact hprepared
    · subst heq
      exact hprepared

end Runs

end Uploads

/-! ## Counting events -/

theorem hasUploadEvent_eq_true_iff (rows : List (InvocationEvent JsValue)) (owner repo name sha : String) :
    hasUploadEvent rows owner repo name sha = true ↔ 0 < uploadEventCount rows owner repo name sha := by
  simp [hasUploadEvent]

theorem isUploadEvent_systemUpload (owner repo name sha : String) (wf : WorkflowManifest) (snapshot : JsValue)
    (user : DispatchUser) (id atIso : String) :
    isUploadEvent owner repo name sha (systemUpload owner repo wf snapshot user id atIso) = true ↔
      wf.version = (name, sha) := by
  simp only [isUploadEvent, Bool.and_eq_true, decide_eq_true_eq]
  simp [systemUpload, WorkflowManifest.version]

theorem uploadEventCount_append (rows : List (InvocationEvent JsValue)) (owner repo name sha : String)
    (row : InvocationEvent JsValue) :
    uploadEventCount (rows ++ [row]) owner repo name sha =
      uploadEventCount rows owner repo name sha + if isUploadEvent owner repo name sha row then 1 else 0 := by
  simp [uploadEventCount, List.countP_append, List.countP_cons]

/-! ## The insert in the event store -/

/-- The rows that the database of an event store holds. -/
def EventStore.rows (store : EventStore JsValue) : List (InvocationEvent JsValue) :=
  store.inserted.flatMap (·.events)

/-- `record` on an upload event starts a commit of this event alone; once the insert has gone through there is
one row more. -/
theorem EventStore.rows_record (config : EventStoreConfig) (store : EventStore JsValue)
    (event : InvocationEvent JsValue) (hkind : event.kind = "system.upload") (hrunning : store.stopped = false)
    (hfresh : store.accumulator.get? event.id = none) :
    ∃ t, exec (EventStore.step config) store [.record event, .attempt store.commits.length .ok] = some t ∧
      t.rows = store.rows ++ [event] := by
  have hterminal : isTerminal event.kind = true := by
    rw [hkind]
    decide
  have hrecord : store.record event =
      { store with
        accumulator := (store.accumulator.set event.id [event]).delete event.id
        accepted := store.accepted ++ [event]
        commits := store.commits ++ [⟨⟨event.id, event.owner, event.repo, [event], none⟩, 0⟩] } := by
    simp [EventStore.record, hrunning, hterminal, EventStore.appendToAccumulator, EventStore.commitInvocation,
      hfresh]
  have hattempt : EventStore.step config (store.record event) (.attempt store.commits.length .ok) =
      some { store.record event with
        commits := (store.record event).commits.eraseIdx store.commits.length
        inserted := store.inserted ++ [⟨event.id, event.owner, event.repo, [event], none⟩] } := by
    rw [hrecord]
    simp only [EventStore.step, EventStore.attempt, List.getElem?_concat_length]
  refine ⟨_, exec_cons_eq_some.mpr ⟨_, rfl, exec_cons_eq_some.mpr ⟨_, hattempt, rfl⟩⟩, ?_⟩
  simp [EventStore.rows, Batch.events]

namespace UploadHost

section Emits
variable (options : WorkflowRegistryOptions Z) (owner repo : String)

/-- The entries of a call that have no event yet for all it knows. -/
def remaining (e : UploadEmission) : List (String × String) :=
  (e.recording.toList ++ e.pending).map (·.version)

/-- What a call that lists its own versions still owes. -/
structure Owes (rows : List (InvocationEvent JsValue)) (e : UploadEmission) (run : UploadRun Z B) : Prop where
  own : ∀ version ∈ remaining e, version ∈ run.state.versions
  rest : ∀ name sha, (name, sha) ∈ run.state.versions →
    (name, sha) ∈ remaining e ∨ 0 < uploadEventCount rows owner repo name sha

/-- At most one event for a version, none while one is on its way, and at most one on its way. -/
structure Emits (s : UploadHost Z B) : Prop where
  prepared : ∀ run ∈ s.uploads.runs,
    prepareOwnerRepoState options owner repo run.upload.files = .ok (.ok run.state)
  owes : ∀ u e, s.emissions.get? u = some e →
    ∃ run, s.uploads.runs[u]? = some run ∧ run.phase = .returned ∧ Owes owner repo s.rows e run
  atMost : ∀ name sha, uploadEventCount s.rows owner repo name sha ≤ 1
  absent : ∀ u e wf, s.emissions.get? u = some e → e.recording = some wf →
    uploadEventCount s.rows owner repo wf.name wf.sha = 0
  alone : ∀ u v e e' wf wf', s.emissions.get? u = some e → s.emissions.get? v = some e' →
    e.recording = some wf → e'.recording = some wf' → wf.version = wf'.version → u = v
  snapshot : ∀ name sha, ∀ row ∈ s.rows, isUploadEvent owner repo name sha row = true →
    ∃ run ∈ s.uploads.runs, run.phase = .returned ∧ (name, sha) ∈ run.state.versions ∧
      row.input = some (uploadSnapshot run.upload.files name)

/-- Everything a step can do. -/
inductive Stepped (s : UploadHost Z B) : UploadHostAct B → UploadHost Z B → Prop
  | upload (act : UploadAct B) (uploads : Uploads Z B) :
    Uploads.step options owner repo s.uploads act = some uploads →
    Stepped s (.upload act) { s with uploads := uploads }
  | listed (u : Nat) (user : DispatchUser) (run : UploadRun Z B) :
    s.uploads.runs[u]? = some run → run.phase = .returned →
    Stepped s (.list u user)
      { s with emissions :=
          s.emissions.set u ⟨user, (s.uploads.registry.list owner repo).map (·.workflow), none⟩ }
  | skipped (u : Nat) (user : DispatchUser) (wf : WorkflowManifest) (pending : List WorkflowManifest) :
    s.emissions.get? u = some ⟨user, wf :: pending, none⟩ →
    0 < uploadEventCount s.rows owner repo wf.name wf.sha →
    Stepped s (.check u) { s with emissions := s.emissions.set u ⟨user, pending, none⟩ }
  | began (u : Nat) (user : DispatchUser) (wf : WorkflowManifest) (pending : List WorkflowManifest) :
    s.emissions.get? u = some ⟨user, wf :: pending, none⟩ →
    uploadEventCount s.rows owner repo wf.name wf.sha = 0 →
    Stepped s (.check u) { s with emissions := s.emissions.set u ⟨user, pending, some wf⟩ }
  | inserted (u : Nat) (id atIso : String) (stored : Bool) (run : UploadRun Z B) (user : DispatchUser)
      (pending : List WorkflowManifest) (wf : WorkflowManifest) :
    s.uploads.runs[u]? = some run → s.emissions.get? u = some ⟨user, pending, some wf⟩ →
    Stepped s (.insert u id atIso stored)
      { s with
        emissions := s.emissions.set u ⟨user, pending, none⟩
        rows := if stored then
            s.rows ++ [systemUpload owner repo wf (uploadSnapshot run.upload.files wf.name) user id atIso]
          else s.rows }
  | other (row : InvocationEvent JsValue) :
    (∀ name sha, isUploadEvent owner repo name sha row = false) →
    Stepped s (.other row) { s with rows := s.rows ++ [row] }

variable {options owner repo}

theorem step_cases {s t : UploadHost Z B} {a : UploadHostAct B} (h : step options owner repo s a = some t) :
    Stepped options owner repo s a t := by
  cases a with
  | upload act =>
    obtain ⟨uploads, huploads, rfl⟩ := Option.map_eq_some_iff.mp h
    exact .upload act uploads huploads
  | list u user =>
    simp only [step, list] at h
    split at h
    · rename_i run hrun _
      split at h
      · rename_i hphase
        cases h
        exact .listed u user run hrun hphase
      · cases h
    · cases h
  | check u =>
    simp only [step, check] at h
    split at h
    · rename_i user wf pending hget
      cases h
      by_cases hhas : hasUploadEvent s.rows owner repo wf.name wf.sha = true
      · rw [if_pos hhas]
        exact .skipped u user wf pending hget ((hasUploadEvent_eq_true_iff _ _ _ _ _).mp hhas)
      · rw [if_neg hhas]
        rw [hasUploadEvent_eq_true_iff] at hhas
        exact .began u user wf pending hget (by omega)
    · cases h
  | insert u id atIso stored =>
    simp only [step, insert] at h
    split at h
    · rename_i run user pending wf hrun hget
      cases h
      exact .inserted u id atIso stored run user pending wf hrun hget
    · cases h
  | other row =>
    simp only [step, other] at h
    split at h
    · cases h
    · rename_i hrow
      cases h
      refine .other row ?_
      intro name sha
      rw [Bool.eq_false_iff]
      intro hevent
      apply hrow
      simp only [isUploadEvent, Bool.and_eq_true, decide_eq_true_eq] at hevent
      exact ⟨hevent.1.1.1.1, hevent.1.1.1.2, hevent.1.1.2⟩

theorem Owes.mono {rows rows' : List (InvocationEvent JsValue)} {e : UploadEmission} {run : UploadRun Z B}
    (h : Owes owner repo rows e run)
    (hle : ∀ name sha, uploadEventCount rows owner repo name sha ≤ uploadEventCount rows' owner repo name sha) :
    Owes owner repo rows' e run := by
  refine ⟨h.own, ?_⟩
  intro name sha hversion
  rcases h.rest name sha hversion with hleft | hcount
  · exact Or.inl hleft
  · exact Or.inr (Nat.lt_of_lt_of_le hcount (hle name sha))

theorem emits_upload {s : UploadHost Z B} {act : UploadAct B} {uploads : Uploads Z B}
    (h : Uploads.step options owner repo s.uploads act = some uploads) (hs : Emits options owner repo s) :
    Emits options owner repo { s with uploads := uploads } := by
  refine ⟨Uploads.step_prepared h hs.prepared, ?_, hs.atMost, hs.absent, hs.alone, ?_⟩
  · intro u e hget
    obtain ⟨run, hrun, hphase, howes⟩ := hs.owes u e hget
    exact ⟨run, Uploads.step_returned h hrun hphase, hphase, howes⟩
  · intro name sha row hrow hevent
    obtain ⟨run, hmem, hphase, hrest⟩ := hs.snapshot name sha row hrow hevent
    obtain ⟨u, hu⟩ := List.mem_iff_getElem?.mp hmem
    exact ⟨run, List.mem_of_getElem? (Uploads.step_returned h hu hphase), hphase, hrest⟩

/-- A call goes on without an insert. -/
theorem emits_set {s : UploadHost Z B} (hs : Emits options owner repo s) {u : Nat} {e : UploadEmission}
    {run : UploadRun Z B} (hrun : s.uploads.runs[u]? = some run) (hphase : run.phase = .returned)
    (howes : Owes owner repo s.rows e run)
    (hnew : ∀ wf, e.recording = some wf → uploadEventCount s.rows owner repo wf.name wf.sha = 0 ∧
      ∀ v e' wf', s.emissions.get? v = some e' → e'.recording = some wf' → wf.version ≠ wf'.version) :
    Emits options owner repo { s with emissions := s.emissions.set u e } := by
  refine ⟨hs.prepared, ?_, hs.atMost, ?_, ?_, hs.snapshot⟩
  · intro v e' h
    rcases OrderedMap.get?_set_cases h with ⟨rfl, rfl⟩ | ⟨-, hold⟩
    · exact ⟨run, hrun, hphase, howes⟩
    · exact hs.owes v e' hold
  · intro v e' wf h hrec
    rcases OrderedMap.get?_set_cases h with ⟨rfl, rfl⟩ | ⟨-, hold⟩
    · exact (hnew wf hrec).1
    · exact hs.absent v e' wf hold hrec
  · intro v w e₁ e₂ wf₁ wf₂ h₁ h₂ hrec₁ hrec₂ heq
    rcases OrderedMap.get?_set_cases h₁ with ⟨rfl, rfl⟩ | ⟨-, hold₁⟩
    · rcases OrderedMap.get?_set_cases h₂ with ⟨rfl, -⟩ | ⟨-, hold₂⟩
      · rfl
      · exact absurd heq ((hnew wf₁ hrec₁).2 w e₂ wf₂ hold₂ hrec₂)
    · rcases OrderedMap.get?_set_cases h₂ with ⟨rfl, rfl⟩ | ⟨-, hold₂⟩
      · exact absurd heq.symm ((hnew wf₂ hrec₂).2 v e₁ wf₁ hold₁ hrec₁)
      · exact hs.alone v w e₁ e₂ wf₁ wf₂ hold₁ hold₂ hrec₁ hrec₂ heq

/-- The event of a call arrives: its version had none, and no other call is after it. -/
theorem emits_insert {s : UploadHost Z B} (hs : Emits options owner repo s) {u : Nat} {run : UploadRun Z B}
    {user : DispatchUser} {pending : List WorkflowManifest} {wf : WorkflowManifest}
    (hrun : s.uploads.runs[u]? = some run) (hget : s.emissions.get? u = some ⟨user, pending, some wf⟩)
    (id atIso : String) :
    Emits options owner repo { s with
      emissions := s.emissions.set u ⟨user, pending, none⟩
      rows := s.rows ++
        [systemUpload owner repo wf (uploadSnapshot run.upload.files wf.name) user id atIso] } := by
  obtain ⟨run', hrun', hphase, howes⟩ := hs.owes u _ hget
  cases hrun.symm.trans hrun'
  have hzero := hs.absent u _ wf hget rfl
  have hversion : wf.version ∈ run.state.versions := howes.own _ (List.mem_map_of_mem List.mem_cons_self)
  have hcount : ∀ name sha, uploadEventCount (s.rows ++
      [systemUpload owner repo wf (uploadSnapshot run.upload.files wf.name) user id atIso]) owner repo name sha =
      uploadEventCount s.rows owner repo name sha + if wf.version = (name, sha) then 1 else 0 := by
    intro name sha
    rw [uploadEventCount_append]
    simp only [isUploadEvent_systemUpload]
  have hmono : ∀ name sha, uploadEventCount s.rows owner repo name sha ≤ uploadEventCount (s.rows ++
      [systemUpload owner repo wf (uploadSnapshot run.upload.files wf.name) user id atIso]) owner repo name sha := by
    intro name sha
    rw [hcount]
    exact Nat.le_add_right _ _
  refine ⟨hs.prepared, ?_, ?_, ?_, ?_, ?_⟩
  · intro v e' h
    rcases OrderedMap.get?_set_cases h with ⟨rfl, rfl⟩ | ⟨-, hold⟩
    · refine ⟨run, hrun, hphase, fun version hmem => howes.own version (List.mem_cons_of_mem _ hmem), ?_⟩
      intro name sha hmem
      rcases howes.rest name sha hmem with hleft | hold
      · rcases List.mem_cons.mp hleft with heq | hleft
        · right
          rw [hcount, if_pos heq.symm]
          exact Nat.succ_pos _
        · exact Or.inl hleft
      · exact Or.inr (Nat.lt_of_lt_of_le hold (hmono name sha))
    · obtain ⟨run', hrun', hphase', howes'⟩ := hs.owes v e' hold
      exact ⟨run', hrun', hphase', howes'.mono hmono⟩
  · intro name sha
    rw [hcount]
    split
    · rename_i heq
      cases heq
      omega
    · exact hs.atMost name sha
  · intro v e' wf' h hrec
    rcases OrderedMap.get?_set_cases h with ⟨rfl, rfl⟩ | ⟨hne, hold⟩
    · cases hrec
    · rw [hcount, hs.absent v e' wf' hold hrec, if_neg]
      intro heq
      exact hne (hs.alone v u e' _ wf' wf hold hget hrec rfl heq.symm)
  · intro v w e₁ e₂ wf₁ wf₂ h₁ h₂ hrec₁ hrec₂ heq
    rcases OrderedMap.get?_set_cases h₁ with ⟨rfl, rfl⟩ | ⟨-, hold₁⟩
    · cases hrec₁
    · rcases OrderedMap.get?_set_cases h₂ with ⟨rfl, rfl⟩ | ⟨-, hold₂⟩
      · cases hrec₂
      · exact hs.alone v w e₁ e₂ wf₁ wf₂ hold₁ hold₂ hrec₁ hrec₂ heq
  · intro name sha row hrow hevent
    rcases List.mem_append.mp hrow with hold | hnew
    · exact hs.snapshot name sha row hold hevent
    · cases List.mem_singleton.mp hnew
      have heq := (isUploadEvent_systemUpload _ _ _ _ _ _ _ _ _).mp hevent
      cases heq
      exact ⟨run, List.mem_of_getElem? hrun, hphase, hversion, rfl⟩

theorem emits_other {s : UploadHost Z B} (hs : Emits options owner repo s) {row : InvocationEvent JsValue}
    (hrow : ∀ name sha, isUploadEvent owner repo name sha row = false) :
    Emits options owner repo { s with rows := s.rows ++ [row] } := by
  have hcount : ∀ name sha, uploadEventCount (s.rows ++ [row]) owner repo name sha =
      uploadEventCount s.rows owner repo name sha := by
    intro name sha
    simp [uploadEventCount_append, hrow]
  refine ⟨hs.prepared, ?_, ?_, ?_, hs.alone, ?_⟩
  · intro u e hget
    obtain ⟨run, hrun, hphase, howes⟩ := hs.owes u e hget
    exact ⟨run, hrun, hphase, howes.mono fun name sha => (hcount name sha).ge⟩
  · intro name sha
    rw [hcount]
    exact hs.atMost name sha
  · intro u e wf hget hrec
    rw [hcount]
    exact hs.absent u e wf hget hrec
  · intro name sha r hr hevent
    rcases List.mem_append.mp hr with hold | hnew
    · exact hs.snapshot name sha r hold hevent
    · rw [List.mem_singleton.mp hnew, hrow] at hevent
      cases hevent

/-- What a call owes when it lists exactly its own versions. -/
theorem owes_of_undisturbed {s : UploadHost Z B} {u : Nat} {user : DispatchUser} {run : UploadRun Z B}
    (hrun : s.uploads.runs[u]? = some run)
    (hok : undisturbed owner repo s (.list u user : UploadHostAct B) = true) :
    Owes owner repo s.rows ⟨user, (s.uploads.registry.list owner repo).map (·.workflow), none⟩ run := by
  simp only [undisturbed, hrun, Option.all_some, Bool.and_eq_true, List.all_eq_true, List.contains_iff_mem] at hok
  have hremaining : remaining ⟨user, (s.uploads.registry.list owner repo).map (·.workflow), none⟩ =
      (s.uploads.registry.list owner repo).map (·.workflow.version) := by
    simp [remaining, Function.comp_def]
  refine ⟨?_, ?_⟩
  · intro version hmem
    rw [hremaining] at hmem
    exact hok.2 version hmem
  · intro name sha hmem
    left
    rw [hremaining]
    exact hok.1 _ hmem

theorem emits_step {s t : UploadHost Z B} {a : UploadHostAct B} (h : Stepped options owner repo s a t)
    (hok : undisturbed owner repo s a = true) (hs : Emits options owner repo s) : Emits options owner repo t := by
  cases h with
  | upload act uploads h => exact emits_upload h hs
  | listed u user run hrun hphase =>
    refine emits_set hs hrun hphase (owes_of_undisturbed hrun hok) ?_
    intro wf hrec
    cases hrec
  | skipped u user wf pending hget hpos =>
    obtain ⟨run, hrun, hphase, howes⟩ := hs.owes u _ hget
    refine emits_set hs hrun hphase ⟨fun version hmem => howes.own version (List.mem_cons_of_mem _ hmem), ?_⟩ ?_
    · intro name sha hmem
      rcases howes.rest name sha hmem with hleft | hcount
      · rcases List.mem_cons.mp hleft with heq | hleft
        · cases heq
          exact Or.inr hpos
        · exact Or.inl hleft
      · exact Or.inr hcount
    · intro wf' hrec
      cases hrec
  | began u user wf pending hget hzero =>
    obtain ⟨run, hrun, hphase, howes⟩ := hs.owes u _ hget
    refine emits_set hs hrun hphase ⟨howes.own, howes.rest⟩ ?_
    intro wf' hrec
    cases hrec
    refine ⟨hzero, ?_⟩
    intro v e' wf' hget' hrec' heq
    simp only [undisturbed, hget, Option.bind_some, List.head?_cons, Option.all_some, List.all_eq_true,
      bne_iff_ne] at hok
    apply hok e' (OrderedMap.mem_values_of_get? hget')
    rw [hrec', heq]
    rfl
  | inserted u id atIso stored run user pending wf hrun hget =>
    have hstored : stored = true := hok
    rw [if_pos hstored]
    exact emits_insert hs hrun hget id atIso
  | other row hrow => exact emits_other hs hrow

theorem emits_of_undisturbed {r : Registry Z B} {s : UploadHost Z B} {acts : List (UploadHostAct B)}
    (hok : Along (step options owner repo) (fun s a => undisturbed owner repo s a = true) (start r) acts)
    (h : exec (step options owner repo) (start r) acts = some s) : Emits options owner repo s := by
  have hinit : Emits options owner repo (start r : UploadHost Z B) := by
    refine ⟨?_, ?_, ?_, ?_, ?_, ?_⟩
    · intro run hrun
      cases hrun
    · intro u e hget
      cases hget
    · intro name sha
      exact Nat.zero_le 1
    · intro u e wf hget
      cases hget
    · intro u v e e' wf wf' hget
      cases hget
    · intro name sha row hrow
      cases hrow
  exact exec_invariant_along (fun s a t hs hok h => emits_step (step_cases h) hok hs) hinit hok h

end Emits

end UploadHost

/-! ## What a call lists

A prepared state gives back each of its workflows, so a call whose own state is still in place lists its
own versions.
-/

/-- Every workflow of the state has its bundle and its descriptors. -/
def OwnerRepoState.Whole (state : OwnerRepoState Z) : Prop :=
  ∀ name ∈ state.workflows.keys, state.bundleSources.has name = true ∧ state.descriptors.has name = true

theorem whole_add {state : OwnerRepoState Z} (h : state.Whole) (owner repo : String) (wf : WorkflowManifest)
    (bundleSource : String) (descriptors : List (TriggerDescriptor Z)) :
    (state.add owner repo wf bundleSource descriptors).Whole := by
  intro name hname
  simp only [OwnerRepoState.add, OrderedMap.mem_keys_set] at hname
  simp only [OwnerRepoState.add, OrderedMap.has, OrderedMap.get?_set]
  by_cases heq : name = wf.name
  · simp [heq]
  · have hold : name ∈ state.workflows.keys := hname.resolve_left heq
    simpa [heq, OrderedMap.has] using h name hold

theorem whole_of_buildOwnerRepoStateFrom {options : WorkflowRegistryOptions Z} {owner repo : String}
    {files : OrderedMap String String} (wfs : List WorkflowManifest) {state final : OwnerRepoState Z}
    {failures : List (String × List String)} (hstate : state.Whole)
    (h : buildOwnerRepoStateFrom options owner repo files wfs state failures = .ok (.ok final)) : final.Whole := by
  induction wfs generalizing state failures with
  | nil =>
    simp only [buildOwnerRepoStateFrom, Except.ok.injEq] at h
    split at h
    · cases h
      exact hstate
    · cases h
  | cons wf wfs ih =>
    unfold buildOwnerRepoStateFrom at h
    split at h
    · exact ih hstate h
    · split at h
      · cases h
      · exact ih hstate h
      · cases h
      · exact ih (whole_add hstate _ _ _ _ _) h

theorem whole_of_prepared {options : WorkflowRegistryOptions Z} {owner repo : String}
    {files : OrderedMap String String} {state : OwnerRepoState Z}
    (h : prepareOwnerRepoState options owner repo files = .ok (.ok state)) : state.Whole := by
  unfold prepareOwnerRepoState at h
  split at h
  · cases h
  · split at h
    · cases h
    · split at h
      · cases h
      · refine whole_of_buildOwnerRepoStateFrom _ ?_ h
        intro name hname
        cases hname

theorem collectForRepo_workflows {state : OwnerRepoState Z} (h : state.Whole) (owner repo : String) :
    (collectForRepo owner repo state).map (·.workflow) = state.workflows.values := by
  have hall : ∀ es : List (String × WorkflowManifest), (∀ e ∈ es, e.1 ∈ state.workflows.keys) →
      (es.filterMap fun e =>
        match state.bundleSources.get? e.1, state.descriptors.get? e.1 with
        | some bundleSource, some descriptors =>
          some (⟨owner, repo, e.2, bundleSource, descriptors⟩ : WorkflowEntry Z)
        | _, _ => none).map (·.workflow) = es.map Prod.snd := by
    intro es
    induction es with
    | nil => intro _; rfl
    | cons e es ih =>
      intro hkeys
      obtain ⟨hbundle, hdescriptors⟩ := h e.1 (hkeys e List.mem_cons_self)
      obtain ⟨bundleSource, hb⟩ := Option.isSome_iff_exists.mp hbundle
      obtain ⟨descriptors, hd⟩ := Option.isSome_iff_exists.mp hdescriptors
      have hrest := ih fun x hx => hkeys x (List.mem_cons_of_mem e hx)
      simp only [List.filterMap_cons, hb, hd, List.map_cons, hrest]
  exact hall _ fun e he => List.mem_map_of_mem he

/-- Nobody has swapped since: the call lists what it has registered. -/
theorem UploadHost.undisturbed_list {options : WorkflowRegistryOptions Z} {owner repo : String}
    {s : UploadHost Z B} (hs : UploadHost.Emits options owner repo s) {u : Nat} {run : UploadRun Z B}
    (hrun : s.uploads.runs[u]? = some run)
    (hstate : s.uploads.registry.getRepoState owner repo = some run.state) (user : DispatchUser) :
    UploadHost.undisturbed owner repo s (.list u user : UploadHostAct B) = true := by
  have hwhole := whole_of_prepared (hs.prepared run (List.mem_of_getElem? hrun))
  have hlisted : (s.uploads.registry.list owner repo).map (·.workflow.version) = run.state.versions := by
    have hworkflows := congrArg (List.map WorkflowManifest.version) (collectForRepo_workflows hwhole owner repo)
    rw [List.map_map] at hworkflows
    simp only [Registry.list, hstate, Option.map_some, Option.getD_some]
    exact hworkflows
  simp [UploadHost.undisturbed, hrun, hlisted]

/-! ## Snapshots -/

theorem parsedProperty_of_entryVersion {entry : JsValue} {name sha : String}
    (h : entryVersion entry = some (name, sha)) : parsedProperty "name" entry = .string name := by
  unfold entryVersion at h
  split at h
  · rename_i hname hsha
    cases h
    exact hname
  · cases h

/-- Each entry that has its own name is found under that name. -/
theorem get?_foldl_setManifestWorkflow {entries : List JsValue} {workflows : List WorkflowManifest}
    (h : entries.map entryVersion = workflows.map fun wf => some wf.version)
    (hnodup : (workflows.map (·.name)).Nodup) {wf : WorkflowManifest} (hwf : wf ∈ workflows) :
    ∃ entry, (entries.foldl setManifestWorkflow .empty).get? wf.name = some entry ∧
      entryVersion entry = some wf.version := by
  have hname : ∀ entry ∈ entries, ∃ w ∈ workflows, entryVersion entry = some w.version := by
    intro entry hentry
    have hmem := List.mem_map_of_mem (f := entryVersion) hentry
    rw [h] at hmem
    obtain ⟨w, hw, heq⟩ := List.mem_map.mp hmem
    exact ⟨w, hw, heq.symm⟩
  have hfold : entries.foldl setManifestWorkflow .empty =
      entries.foldl (fun m e => m.set ((entryVersion e).getD ("", "")).1 e) .empty := by
    apply List.foldl_ext
    intro m entry hentry
    obtain ⟨w, -, hversion⟩ := hname entry hentry
    have hprop := parsedProperty_of_entryVersion hversion
    simp only [setManifestWorkflow, hprop, hversion, Option.getD_some, WorkflowManifest.version]
  have hkeys : entries.map (fun e => ((entryVersion e).getD ("", "")).1) = workflows.map (·.name) := by
    have hmap := congrArg (List.map fun v : Option (String × String) => (v.getD ("", "")).1) h
    simpa [WorkflowManifest.version, Function.comp_def] using hmap
  obtain ⟨entry, hentry, hversion⟩ : ∃ entry ∈ entries, entryVersion entry = some wf.version := by
    have hmem := List.mem_map_of_mem (f := fun w : WorkflowManifest => some w.version) hwf
    rw [← h] at hmem
    exact List.mem_map.mp hmem
  refine ⟨entry, ?_, hversion⟩
  rw [hfold]
  refine (OrderedMap.get?_foldl_set (fun e => ((entryVersion e).getD ("", "")).1) id entries (hkeys ▸ hnodup)
    .empty wf.name entry).mpr (Or.inl ⟨entry, hentry, ?_, rfl⟩)
  rw [hversion]
  rfl

/-- The snapshot of a version is the manifest entry of that version. -/
theorem uploadSnapshot_of_prepared {options : WorkflowRegistryOptions Z} {owner repo : String}
    {files : OrderedMap String String} {state : OwnerRepoState Z} (hreads : ReadsEntries options.parseManifest)
    (h : prepareOwnerRepoState options owner repo files = .ok (.ok state)) {name sha : String}
    (hversion : (name, sha) ∈ state.versions) :
    ∃ entry, (parseManifestWorkflows files).get? name = some entry ∧ entryVersion entry = some (name, sha) ∧
      uploadSnapshot files name = entry := by
  obtain ⟨raw, manifest, hraw, hmanifest, hworkflows⟩ := prepareOwnerRepoState_workflows h
  obtain ⟨parsed, entries, hparsed, hentries, hmap⟩ := hreads raw manifest hmanifest
  obtain ⟨wf, hwf, hsame⟩ := List.mem_map.mp hversion
  obtain ⟨key, hkey⟩ := OrderedMap.get?_of_mem_values hwf
  obtain ⟨entry, hget, hentry⟩ :=
    get?_foldl_setManifestWorkflow hmap manifest.names_nodup ((hworkflows key wf).mp hkey).1
  have hparse : parseManifestWorkflows files = entries.foldl setManifestWorkflow .empty := by
    simp only [parseManifestWorkflows, hraw, Option.bind_some, hparsed, hentries]
  have hname : wf.name = name := congrArg Prod.fst hsame
  rw [hname] at hget
  rw [hsame] at hentry
  refine ⟨entry, by rw [hparse, hget], hentry, ?_⟩
  simp only [uploadSnapshot, hparse, hget, Option.getD_some]

namespace UploadHost

/-- Uploads in any interleaving leave one event for each version they have registered, with the entry of one
of the uploads of that version, when each call lists its own versions, no two calls are between check and
insert of one version, and no event is dropped. -/
theorem oneEach_of_undisturbed (options : WorkflowRegistryOptions Z) (owner repo : String)
    (hreads : ReadsEntries options.parseManifest) (r : Registry Z B) (s : UploadHost Z B)
    (acts : List (UploadHostAct B)) (h : exec (step options owner repo) (start r) acts = some s)
    (hok : Along (step options owner repo) (fun s a => undisturbed owner repo s a = true) (start r) acts)
    (hsettled : s.Settled) : OneEach owner repo s := by
  have hemits := emits_of_undisturbed hok h
  refine ⟨?_, ?_⟩
  · rintro name sha ⟨run, hmem, hphase, hversion⟩
    obtain ⟨u, hu⟩ := List.mem_iff_getElem?.mp hmem
    obtain ⟨e, hget, hpending, hrecording⟩ := hsettled u run hu hphase
    obtain ⟨run', hu', -, howes⟩ := hemits.owes u e hget
    cases hu.symm.trans hu'
    have hpos : 0 < uploadEventCount s.rows owner repo name sha := by
      rcases howes.rest name sha hversion with hleft | hcount
      · simp [remaining, hpending, hrecording] at hleft
      · exact hcount
    have hle := hemits.atMost name sha
    omega
  · intro name sha row hrow hevent
    obtain ⟨run, hmem, hphase, hversion, hinput⟩ := hemits.snapshot name sha row hrow hevent
    obtain ⟨entry, hget, hentry, hsnapshot⟩ :=
      uploadSnapshot_of_prepared hreads (hemits.prepared run hmem) hversion
    exact ⟨run, hmem, hphase, hversion, entry, hget, hentry, by rw [hinput, hsnapshot]⟩

end UploadHost

/-! ### A workflow with a manual trigger -/

def manualMailer : WorkflowManifest :=
  .plain "mailer" "1b2c" .empty ⟨.manual, "send", .object [], .object [], .object []⟩ [] List.nodup_nil

def manualJson : JsonValue :=
  .object [("workflows", .array [.object
    [("name", .string "mailer"), ("module", .string "mailer.js"), ("sha", .string "1b2c"), ("env", .object []),
      ("actions", .array []), ("triggers", .array [.object
        [("name", .string "send"), ("type", .string "manual"), ("inputSchema", .object []),
          ("outputSchema", .object [])]]),
      ("queues", .array [])]])]

/-- The one manifest that these uploads have. -/
def manualOptions : WorkflowRegistryOptions Unit where
  keyStore := ⟨fun _ => none⟩
  fromJSONSchema := fun _ => .ok ()
  applyStripMarkers := id
  parseManifest := fun raw =>
    if raw = String.ofList manualJson.print then .ok (.single manualMailer) else .error "no such manifest"
  backends := []

def manualFiles (raw : String) : OrderedMap String String :=
  (OrderedMap.empty.set "manifest.json" raw).set "mailer.js" "exports.send = run"

def manualUpload : Upload String := ⟨manualFiles (String.ofList manualJson.print), "tarball"⟩

def manualState : OwnerRepoState Unit :=
  OwnerRepoState.empty.add "acme" "site" manualMailer "exports.send = run"
    [⟨⟨.manual, "send", "mailer", .object [], .object [], .object []⟩, (), ()⟩]

theorem readsEntries_manualOptions : ReadsEntries manualOptions.parseManifest := by
  intro raw manifest h
  simp only [manualOptions] at h
  split at h
  · rename_i hraw
    cases h
    refine ⟨.ofJson manualJson, _, ?_, rfl, rfl⟩
    rw [hraw, String.toList_ofList, jsonParse, parseJson_print]
    rfl
  · cases h

theorem prepare_manualFiles {raw : String} (h : raw = String.ofList manualJson.print) :
    prepareOwnerRepoState manualOptions "acme" "site" (manualFiles raw) = .ok (.ok manualState) := by
  have hraw : (manualFiles raw).get? "manifest.json" = some raw := by rfl
  have hparse : manualOptions.parseManifest raw = .ok (.single manualMailer) := by
    simp only [manualOptions, if_pos h]
  unfold prepareOwnerRepoState
  simp only [hraw, hparse]
  rfl

theorem prepare_manualUpload :
    prepareOwnerRepoState manualOptions "acme" "site" manualUpload.files = .ok (.ok manualState) :=
  prepare_manualFiles rfl

namespace UploadHost

abbrev manualStep := step (B := String) manualOptions "acme" "site"

def emptyRegistry : Registry Unit String := ⟨.empty, .empty, .empty, []⟩

/-- Two calls with the same archive have started. -/
def bothStarted : UploadHost Unit String :=
  ⟨⟨emptyRegistry, List.replicate 2 ⟨manualUpload, manualState, .persisting⟩⟩, .empty, []⟩

def startBoth : List (UploadHostAct String) := List.replicate 2 (.upload (.start manualUpload))

theorem exec_startBoth : exec manualStep (start emptyRegistry) startBoth = some bothStarted := by
  simp only [startBoth, List.replicate, exec, manualStep, step, Uploads.step, Uploads.start, start,
    prepare_manualUpload, Option.map_some, Option.bind_some]
  rfl

theorem along_startBoth {acts : List (UploadHostAct String)}
    (h : Along manualStep (fun s a => undisturbed "acme" "site" s a = true) bothStarted acts) :
    Along manualStep (fun s a => undisturbed "acme" "site" s a = true) (start emptyRegistry)
      (startBoth ++ acts) := by
  obtain ⟨s, hs, hrest⟩ := exec_cons_eq_some.mp exec_startBoth
  obtain ⟨t, ht, hnil⟩ := exec_cons_eq_some.mp hrest
  cases hnil
  exact (along_cons_of_some hs).mpr ⟨rfl, (along_cons_of_some ht).mpr ⟨rfl, h⟩⟩

def uploader : DispatchUser := ⟨"ada", "ada@example.org"⟩

/-- Both calls have registered the archive and have listed the repo. -/
def bothListed : List (UploadHostAct String) :=
  [.upload (.written 0 (.ok ())), .upload (.swap 0), .upload (.written 1 (.ok ())), .upload (.swap 1),
   .list 0 uploader, .list 1 uploader]

/-- Both calls check before either inserts. -/
def racingChecks : List (UploadHostAct String) :=
  [.check 0, .check 1, .insert 0 "evt_0" "2026-01-01T00:00:00.000Z" true,
   .insert 1 "evt_1" "2026-01-01T00:00:00.000Z" true]

/-- The second call checks after the first one's insert. -/
def orderlyChecks : List (UploadHostAct String) :=
  [.check 0, .insert 0 "evt_0" "2026-01-01T00:00:00.000Z" true, .check 1]

theorem exec_ends {P : UploadHost Unit String → Bool} (acts : List (UploadHostAct String))
    (h : (exec manualStep bothStarted acts).any P = true) :
    ∃ s, exec manualStep (start emptyRegistry) (startBoth ++ acts) = some s ∧ P s = true := by
  cases hs : exec manualStep bothStarted acts with
  | none =>
    rw [hs] at h
    cases h
  | some s =>
    rw [hs] at h
    exact ⟨s, exec_append_eq_some.mpr ⟨_, exec_startBoth, hs⟩, h⟩

/-- Two uploads of one archive leave two events of its version. -/
theorem racingChecks_two_events :
    ∃ s, exec manualStep (start emptyRegistry) (startBoth ++ (bothListed ++ racingChecks)) = some s ∧
      (∀ run ∈ s.uploads.runs, run.phase = .returned) ∧ s.Settled ∧ ¬ OneEach "acme" "site" s := by
  obtain ⟨s, hs, hend⟩ := exec_ends (P := fun s => decide
    ((∀ run ∈ s.uploads.runs, run.phase = .returned) ∧ s.Settled ∧
      (∃ run ∈ s.uploads.runs, run.phase = .returned ∧ ("mailer", "1b2c") ∈ run.state.versions) ∧
      uploadEventCount s.rows "acme" "site" "mailer" "1b2c" = 2)) (bothListed ++ racingChecks) (by decide)
  obtain ⟨hreturned, hsettled, hregistered, hcount⟩ := of_decide_eq_true hend
  refine ⟨s, hs, hreturned, hsettled, ?_⟩
  intro hone
  have hsame := (hone.one "mailer" "1b2c" hregistered).symm.trans hcount
  cases hsame

/-- Two uploads of one archive of which the second finds the first one's event. -/
theorem oneEach_of_undisturbed_orderlyChecks :
    ∃ s, exec manualStep (start emptyRegistry) (startBoth ++ (bothListed ++ orderlyChecks)) = some s ∧
      OneEach "acme" "site" s := by
  obtain ⟨s, hs, hend⟩ := exec_ends (P := fun s => decide s.Settled) (bothListed ++ orderlyChecks) (by decide)
  have hrest : Along manualStep (fun s a => undisturbed "acme" "site" s a = true) bothStarted
      (bothListed ++ orderlyChecks) := by
    decide
  refine ⟨s, hs, oneEach_of_undisturbed manualOptions "acme" "site" readsEntries_manualOptions emptyRegistry s _ hs
    (along_startBoth hrest) (of_decide_eq_true hend)⟩

end UploadHost

end WorkflowEngine.Runtime
