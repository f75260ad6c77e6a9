import WorkflowEngine.Lib.Transition
import WorkflowEngine.Runtime.WorkflowRegistry

/-!
# Concurrent uploads to one repo

`registerOwner` cut at its awaits, for any number of calls on one `(owner, repo)`.
The calls are numbered in the order in which they start. Nothing in the registry
keeps a later call from overtaking an earlier one between two awaits; the stores
agree in the end as long as none does.
-/

namespace WorkflowEngine.Runtime

open Lib
set_option autoImplicit false

variable {Z B : Type}

structure Upload (B : Type) where
  files : OrderedMap String String
  tarballBytes : B

inductive FailedStep where
  | backends
  | persist
  | queueLifecycle
  deriving DecidableEq

/-- What a call still waits for. After a failed DELETE the others run on. -/
inductive UploadPhase where
  | reconfiguring (pending : List TriggerKind) (anyFailed : Bool)
  | persisting
  | deleting (pending : List WorkflowQueueScope)
  | returned
  | failed (step : FailedStep) (pending : List WorkflowQueueScope)
  deriving DecidableEq

structure UploadRun (Z B : Type) where
  upload : Upload B
  state : OwnerRepoState Z
  phase : UploadPhase

structure Uploads (Z B : Type) where
  registry : Registry Z B
  runs : List (UploadRun Z B)

inductive UploadAct (B : Type) where
  | start (upload : Upload B)
  | reconfigured (u : Nat) (kind : TriggerKind) (outcome : ReconfigureOutcome)
  | written (u : Nat) (outcome : Except String Unit)
  | deleted (u : Nat) (scope : WorkflowQueueScope) (outcome : Except String Unit)
  | swap (u : Nat)

namespace UploadPhase

/-- The backend of this kind has answered. -/
def settled (kind : TriggerKind) : UploadPhase → Bool
  | .reconfiguring pending _ => !pending.contains kind
  | _ => true

def wrote : UploadPhase → Bool
  | .deleting _ => true
  | .returned => true
  | .failed .queueLifecycle _ => true
  | _ => false

def swapped : UploadPhase → Bool
  | .returned => true
  | _ => false

/-- Nothing has failed so far. -/
def clean : UploadPhase → Bool
  | .reconfiguring _ anyFailed => !anyFailed
  | .failed _ _ => false
  | _ => true

/-- `Promise.allSettled` over the backends that are left. -/
def reconfigure (pending : List TriggerKind) (anyFailed : Bool) : UploadPhase :=
  if pending.isEmpty then (if anyFailed then .failed .backends [] else .persisting)
  else .reconfiguring pending anyFailed

end UploadPhase

namespace Uploads

section Step
variable (options : WorkflowRegistryOptions Z) (owner repo : String)

def setPhase (s : Uploads Z B) (u : Nat) (phase : UploadPhase) : Uploads Z B :=
  { s with runs := s.runs.modify u fun run => { run with phase := phase } }

/-- The synchronous start of the call; one that is rejected here has returned and done nothing. -/
def start (s : Uploads Z B) (upload : Upload B) : Uploads Z B :=
  match prepareOwnerRepoState options owner repo upload.files with
  | .ok (.ok state) =>
    { s with runs := s.runs ++ [⟨upload, state, .reconfigure options.backends false⟩] }
  | _ => s

def reconfigured (s : Uploads Z B) (u : Nat) (kind : TriggerKind) (outcome : ReconfigureOutcome) :
    Option (Uploads Z B) :=
  match s.runs[u]? with
  | none => none
  | some run =>
    match run.phase with
    | .reconfiguring pending anyFailed =>
      if kind ∈ pending then
        let rest := pending.filter (· ≠ kind)
        if outcome = .ok then
          some ({ s with registry := s.registry.install owner repo run.state kind }.setPhase u
            (.reconfigure rest anyFailed))
        else some (s.setPhase u (.reconfigure rest true))
      else none
    | _ => none

def written (s : Uploads Z B) (u : Nat) (outcome : Except String Unit) : Option (Uploads Z B) :=
  match s.runs[u]? with
  | none => none
  | some run =>
    if run.phase = .persisting then
      match outcome with
      | .ok _ =>
        let registry := s.registry.persistTarball owner repo run.upload.tarballBytes
        some ({ s with registry := registry }.setPhase u
          (.deleting (registry.queueDiff owner repo run.state)))
      | .error _ => some (s.setPhase u (.failed .persist []))
    else none

def afterDelete (s : Uploads Z B) (scope : WorkflowQueueScope) (outcome : Except String Unit) :
    Uploads Z B :=
  match outcome with
  | .ok _ => { s with registry := { s.registry with rows := removeDeclaration s.registry.rows scope } }
  | .error _ => s

def deleted (s : Uploads Z B) (u : Nat) (scope : WorkflowQueueScope) (outcome : Except String Unit) :
    Option (Uploads Z B) :=
  match s.runs[u]? with
  | none => none
  | some run =>
    match run.phase with
    | .deleting pending =>
      if scope ∈ pending then
        some ((s.afterDelete scope outcome).setPhase u
          (match outcome with
            | .ok _ => .deleting (pending.erase scope)
            | .error _ => .failed .queueLifecycle (pending.erase scope)))
      else none
    | .failed step pending =>
      if scope ∈ pending then
        some ((s.afterDelete scope outcome).setPhase u (.failed step (pending.erase scope)))
      else none
    | _ => none

def swap (s : Uploads Z B) (u : Nat) : Option (Uploads Z B) :=
  match s.runs[u]? with
  | none => none
  | some run =>
    if run.phase = .deleting [] then
      some ({ s with registry := s.registry.setRepoState owner repo run.state }.setPhase u .returned)
    else none

def step (s : Uploads Z B) : UploadAct B → Option (Uploads Z B)
  | .start upload => some (s.start options owner repo upload)
  | .reconfigured u kind outcome => s.reconfigured owner repo u kind outcome
  | .written u outcome => s.written owner repo u outcome
  | .deleted u scope outcome => s.deleted u scope outcome
  | .swap u => s.swap owner repo u

/-- State, backends and tarball of the repo all come from one call. -/
def Agreement (s : Uploads Z B) : Prop :=
  ∃ run ∈ s.runs, s.registry.getRepoState owner repo = some run.state ∧
    (∀ kind ∈ options.backends,
      s.registry.installed.get? (kind, owner, repo) = some (run.state.entriesOfKind kind)) ∧
    s.registry.storage.get? (repoKey owner repo) = some run.upload.tarballBytes

end Step

/-- A call that started later than `u` has already done it. -/
def overtaken (runs : List (UploadRun Z B)) (u : Nat) (done : UploadPhase → Bool) : Bool :=
  (runs.drop (u + 1)).any fun run => done run.phase

/-- The step is not a write over what a call that started later has written. -/
def InOrder (s : Uploads Z B) : UploadAct B → Prop
  | .reconfigured u kind .ok => overtaken s.runs u (·.settled kind) = false
  | .written u (.ok _) => overtaken s.runs u (·.wrote) = false
  | .swap u => overtaken s.runs u (·.swapped) = false
  | _ => True

instance decidableInOrder (s : Uploads Z B) : (a : UploadAct B) → Decidable (InOrder s a)
  | .start _ => isTrue trivial
  | .reconfigured u kind .ok => inferInstanceAs (Decidable (overtaken s.runs u (·.settled kind) = false))
  | .reconfigured _ _ (.configErrors _ _) => isTrue trivial
  | .reconfigured _ _ (.rejected _) => isTrue trivial
  | .written u (.ok _) => inferInstanceAs (Decidable (overtaken s.runs u (·.wrote) = false))
  | .written _ (.error _) => isTrue trivial
  | .deleted _ _ _ => isTrue trivial
  | .swap u => inferInstanceAs (Decidable (overtaken s.runs u (·.swapped) = false))

section Stepped
variable (options : WorkflowRegistryOptions Z) (owner repo : String)

/-- Everything a step can do, with the call it concerns. -/
inductive Stepped (s : Uploads Z B) : UploadAct B → Uploads Z B → Prop
  | rejected (upload : Upload B) : Stepped s (.start upload) s
  | started (upload : Upload B) (state : OwnerRepoState Z) :
    Stepped s (.start upload)
      { s with runs := s.runs ++ [⟨upload, state, .reconfigure options.backends false⟩] }
  | installed (u : Nat) (kind : TriggerKind) (run : UploadRun Z B) (pending : List TriggerKind)
      (anyFailed : Bool) :
    s.runs[u]? = some run → run.phase = .reconfiguring pending anyFailed → kind ∈ pending →
    Stepped s (.reconfigured u kind .ok)
      ({ s with registry := s.registry.install owner repo run.state kind }.setPhase u
        (.reconfigure (pending.filter (· ≠ kind)) anyFailed))
  | refused (u : Nat) (kind : TriggerKind) (outcome : ReconfigureOutcome) (run : UploadRun Z B)
      (pending : List TriggerKind) (anyFailed : Bool) :
    s.runs[u]? = some run → run.phase = .reconfiguring pending anyFailed →
    Stepped s (.reconfigured u kind outcome) (s.setPhase u (.reconfigure (pending.filter (· ≠ kind)) true))
  | wrote (u : Nat) (run : UploadRun Z B) (scopes : List WorkflowQueueScope) :
    s.runs[u]? = some run → run.phase = .persisting →
    Stepped s (.written u (.ok ()))
      ({ s with registry := s.registry.persistTarball owner repo run.upload.tarballBytes }.setPhase u
        (.deleting scopes))
  | writeFailed (u : Nat) (message : String) (run : UploadRun Z B) :
    s.runs[u]? = some run → run.phase = .persisting →
    Stepped s (.written u (.error message)) (s.setPhase u (.failed .persist []))
  | removed (u : Nat) (scope : WorkflowQueueScope) (outcome : Except String Unit) (run : UploadRun Z B)
      (pending pending' : List WorkflowQueueScope) :
    s.runs[u]? = some run → run.phase = .deleting pending →
    Stepped s (.deleted u scope outcome) ((s.afterDelete scope outcome).setPhase u (.deleting pending'))
  | drained (u : Nat) (scope : WorkflowQueueScope) (outcome : Except String Unit) (run : UploadRun Z B)
      (step : FailedStep) (pending : List WorkflowQueueScope) :
    s.runs[u]? = some run →
    Stepped s (.deleted u scope outcome) ((s.afterDelete scope outcome).setPhase u (.failed step pending))
  | swapped (u : Nat) (run : UploadRun Z B) :
    s.runs[u]? = some run → run.phase = .deleting [] →
    Stepped s (.swap u)
      ({ s with registry := s.registry.setRepoState owner repo run.state }.setPhase u .returned)

variable {options owner repo}

theorem step_cases {s t : Uploads Z B} {a : UploadAct B} (h : step options owner repo s a = some t) :
    Stepped options owner repo s a t := by
  cases a with
  | start upload =>
    cases h
    unfold start
    split
    · exact .started upload _
    · exact .rejected upload
  | reconfigured u kind outcome =>
    simp only [step, reconfigured] at h
    split at h
    · cases h
    · rename_i run hrun
      split at h
      · rename_i pending anyFailed hphase
        split at h
        · rename_i hmem
          split at h
          · rename_i hok
            subst hok
            cases h
            exact .installed u kind run pending anyFailed hrun hphase hmem
          · cases h
            exact .refused u kind outcome run pending anyFailed hrun hphase
        · cases h
      · cases h
  | written u outcome =>
    simp only [step, written] at h
    split at h
    · cases h
    · rename_i run hrun
      split at h
      · rename_i hphase
        cases outcome with
        | ok v =>
          cases h
          exact .wrote u run _ hrun hphase
        | error message =>
          cases h
          exact .writeFailed u message run hrun hphase
      · cases h
  | deleted u scope outcome =>
    simp only [step, deleted] at h
    split at h
    · cases h
    · rename_i run hrun
      split at h
      · rename_i pending hphase
        split at h
        · cases outcome with
          | ok v =>
            cases h
            exact .removed u scope _ run pending _ hrun hphase
          | error message =>
            cases h
            exact .drained u scope _ run _ _ hrun
        · cases h
      · split at h
        · cases h
          exact .drained u scope _ run _ _ hrun
        · cases h
      · cases h
  | swap u =>
    simp only [step, swap] at h
    split at h
    · cases h
    · rename_i run hrun
      split at h
      · rename_i hphase
        cases h
        exact .swapped u run hrun hphase
      · cases h

end Stepped

/-! ### A call on its own -/

section Alone
variable (options : WorkflowRegistryOptions Z) (owner repo : String)

/-- The call that started last is in the given phase. -/
def pushed (registry : Registry Z B) (runs : List (UploadRun Z B)) (upload : Upload B)
    (state : OwnerRepoState Z) (phase : UploadPhase) : Uploads Z B :=
  ⟨registry, runs ++ [⟨upload, state, phase⟩]⟩

variable (registry : Registry Z B) (runs : List (UploadRun Z B)) (upload : Upload B) (state : OwnerRepoState Z)

theorem getElem?_pushed (phase : UploadPhase) :
    (pushed registry runs upload state phase).runs[runs.length]? = some ⟨upload, state, phase⟩ :=
  List.getElem?_concat_length

theorem setPhase_pushed (phase phase' : UploadPhase) :
    (pushed registry runs upload state phase).setPhase runs.length phase' =
      pushed registry runs upload state phase' := by
  simp only [setPhase, pushed, Uploads.mk.injEq, true_and]
  rw [List.modify_eq_take_cons_drop (by simp)]
  simp

theorem pushed_install (phase : UploadPhase) (kind : TriggerKind) :
    { pushed registry runs upload state phase with
      registry := (pushed registry runs upload state phase).registry.install owner repo state kind } =
    pushed (registry.install owner repo state kind) runs upload state phase := rfl

theorem afterDelete_pushed (deletes : DeleteOutcomes) (phase : UploadPhase) (scope : WorkflowQueueScope) :
    (pushed registry runs upload state phase).afterDelete scope (deletes scope) =
      pushed { registry with rows := removeDeclarations deletes [scope] registry.rows } runs upload state phase := by
  rw [removeDeclarations, List.foldl_cons, List.foldl_nil]
  cases deletes scope with
  | ok v => rfl
  | error message => rfl

theorem exec_reconfigured (outcomes : TriggerKind → ReconfigureOutcome) (kinds : List TriggerKind)
    (hnodup : kinds.Nodup) (anyFailed : Bool) :
    exec (step options owner repo) (pushed registry runs upload state (.reconfigure kinds anyFailed))
      (kinds.map fun kind => .reconfigured runs.length kind (outcomes kind)) =
    some (pushed (registry.reconfigureBackends kinds outcomes owner repo state) runs upload state
      (.reconfigure [] (anyFailed || kinds.any fun kind => outcomes kind ≠ .ok))) := by
  induction kinds generalizing registry anyFailed with
  | nil => simp [Registry.reconfigureBackends]
  | cons kind kinds ih =>
    obtain ⟨hnew, hnodup⟩ := List.nodup_cons.mp hnodup
    have hrest : (kind :: kinds).filter (· ≠ kind) = kinds := by
      rw [List.filter_cons_of_neg (by simp), List.filter_eq_self]
      intro k hk
      have hne : k ≠ kind := fun heq => hnew (heq ▸ hk)
      simpa using hne
    have hphase : UploadPhase.reconfigure (kind :: kinds) anyFailed = .reconfiguring (kind :: kinds) anyFailed :=
      rfl
    have hstep : step options owner repo
        (pushed registry runs upload state (.reconfigure (kind :: kinds) anyFailed))
        (.reconfigured runs.length kind (outcomes kind)) =
      some (pushed (if outcomes kind = .ok then registry.install owner repo state kind else registry) runs
        upload state (.reconfigure kinds (anyFailed || decide (outcomes kind ≠ .ok)))) := by
      simp only [step, reconfigured, getElem?_pushed, hphase, List.mem_cons_self, if_true, hrest]
      by_cases hok : outcomes kind = .ok
      · simp only [hok, if_true, pushed_install, setPhase_pushed]
        simp
      · simp only [hok, if_false, setPhase_pushed]
        simp [hok]
    rw [List.map_cons, exec, hstep, Option.bind_some, ih _ hnodup]
    simp only [Registry.reconfigureBackends, List.foldl_cons, List.any_cons, Bool.or_assoc]

/-- What a call waits for while its DELETEs run. -/
def deletePhase (anyFailed : Bool) (pending : List WorkflowQueueScope) : UploadPhase :=
  if anyFailed then .failed .queueLifecycle pending else .deleting pending

theorem exec_deleted (deletes : DeleteOutcomes) (scopes : List WorkflowQueueScope) (anyFailed : Bool) :
    exec (step options owner repo) (pushed registry runs upload state (deletePhase anyFailed scopes))
      (scopes.map fun scope => .deleted runs.length scope (deletes scope)) =
    some (pushed { registry with rows := removeDeclarations deletes scopes registry.rows } runs upload state
      (deletePhase (anyFailed || scopes.any fun scope => deletes scope ≠ .ok ()) [])) := by
  induction scopes generalizing registry anyFailed with
  | nil => simp [removeDeclarations]
  | cons scope scopes ih =>
    have hstep : step options owner repo (pushed registry runs upload state (deletePhase anyFailed (scope :: scopes)))
        (.deleted runs.length scope (deletes scope)) =
      some (pushed { registry with rows := removeDeclarations deletes [scope] registry.rows } runs upload state
        (deletePhase (anyFailed || decide (deletes scope ≠ .ok ())) scopes)) := by
      simp only [step, deleted, getElem?_pushed]
      cases anyFailed with
      | false =>
        simp only [deletePhase, Bool.false_eq_true, if_false, List.mem_cons_self, if_true, List.erase_cons_head,
          afterDelete_pushed, setPhase_pushed]
        cases hd : deletes scope with
        | ok v => simp
        | error message => simp
      | true =>
        simp only [deletePhase, List.mem_cons_self, if_true, List.erase_cons_head, afterDelete_pushed,
          setPhase_pushed, Bool.true_or]
    rw [List.map_cons, exec, hstep, Option.bind_some, ih]
    simp only [removeDeclarations, List.foldl_cons, List.foldl_nil, List.any_cons, Bool.or_assoc]

theorem exec_applyQueueLifecycle (delete : DeleteOutcomes) :
    ∃ acts phase, exec (step options owner repo)
        (pushed registry runs upload state (.deleting (registry.queueDiff owner repo state))) acts =
      some (pushed (registry.applyQueueLifecycle delete owner repo state).1 runs upload state phase) ∧
      (phase = .returned ↔
        ∃ workflows, (registry.applyQueueLifecycle delete owner repo state).2 = .ok workflows) := by
  have hdeletes := exec_deleted options owner repo registry runs upload state
    delete (registry.queueDiff owner repo state) false
  unfold Registry.applyQueueLifecycle
  dsimp only
  cases hrejection : rejection delete (registry.queueDiff owner repo state) with
  | error message =>
    have hany : (registry.queueDiff owner repo state).any (fun scope => delete scope ≠ .ok ()) = true := by
      rw [any_delete_eq_true_iff, hrejection]
      simp
    rw [hany] at hdeletes
    exact ⟨_, _, hdeletes, by simp [deletePhase]⟩
  | ok v =>
    have hany : (registry.queueDiff owner repo state).any (fun scope => delete scope ≠ .ok ()) = false := by
      rw [← Bool.not_eq_true, any_delete_eq_true_iff, hrejection]
      simp
    rw [hany] at hdeletes
    refine ⟨_ ++ [.swap runs.length], .returned, exec_append_eq_some.mpr ⟨_, hdeletes, ?_⟩, by simp⟩
    simp only [exec, step, swap, getElem?_pushed, deletePhase, Bool.or_self, Bool.false_eq_true, if_false,
      if_true, Option.bind_some]
    exact congrArg some (setPhase_pushed _ _ _ _ _ _)

theorem exec_persistAndSwap (outcomes : UploadOutcomes) :
    ∃ acts phase, exec (step options owner repo) (pushed registry runs upload state .persisting) acts =
        some (pushed (registry.persistAndSwap outcomes owner repo state (some upload.tarballBytes)).1 runs upload
          state phase) ∧
      (phase = .returned ↔ ∃ workflows,
        (registry.persistAndSwap outcomes owner repo state (some upload.tarballBytes)).2 = .ok workflows) := by
  have hwritten : ∀ outcome, step options owner repo (pushed registry runs upload state .persisting)
      (.written runs.length outcome) = match outcome with
        | .ok _ => some (pushed (registry.persistTarball owner repo upload.tarballBytes) runs upload state
            (.deleting ((registry.persistTarball owner repo upload.tarballBytes).queueDiff owner repo state)))
        | .error _ => some (pushed registry runs upload state (.failed .persist [])) := by
    intro outcome
    simp only [step, written, getElem?_pushed, if_true]
    cases outcome with
    | ok v =>
      exact congrArg some (setPhase_pushed (registry.persistTarball owner repo upload.tarballBytes) _ _ _ _ _)
    | error message => exact congrArg some (setPhase_pushed _ _ _ _ _ _)
  unfold Registry.persistAndSwap
  dsimp only
  cases hwrite : outcomes.write with
  | error message =>
    refine ⟨[.written runs.length (.error message)], .failed .persist [], ?_, by simp⟩
    simp [exec, hwritten]
  | ok v =>
    obtain ⟨acts, phase, hexec, hphase⟩ := exec_applyQueueLifecycle options owner repo
      (registry.persistTarball owner repo upload.tarballBytes) runs upload state outcomes.delete
    refine ⟨.written runs.length (.ok ()) :: acts, phase, ?_, hphase⟩
    rw [exec, hwritten]
    exact hexec

/-- A call that nothing interleaves with does what `registerOwner` does. -/
theorem exec_alone (s : Uploads Z B) (outcomes : UploadOutcomes)
    (hprepared : prepareOwnerRepoState options owner repo upload.files = .ok (.ok state)) :
    ∃ acts phase, exec (step options owner repo) s (.start upload :: acts) =
        some (pushed (s.registry.registerOwner options outcomes owner repo upload.files
          (some upload.tarballBytes)).1 s.runs upload state phase) ∧
      (phase = .returned ↔ ∃ workflows, (s.registry.registerOwner options outcomes owner repo upload.files
        (some upload.tarballBytes)).2 = .ok (.ok workflows)) := by
  have hstart : step options owner repo s (.start upload) =
      some (pushed s.registry s.runs upload state (.reconfigure options.backends false)) := by
    simp [step, start, hprepared, pushed]
  have hreconfigured := exec_reconfigured options owner repo s.registry s.runs
    upload state outcomes.reconfigure options.backends options.backends_nodup false
  unfold Registry.registerOwner
  rw [hprepared]
  dsimp only
  cases haggregate : aggregate options.backends outcomes.reconfigure with
  | some errors =>
    have hany : options.backends.any (fun kind => outcomes.reconfigure kind ≠ .ok) = true := by
      rw [any_reconfigure_eq_true_iff, haggregate]
      simp
    rw [hany] at hreconfigured
    refine ⟨_, _, exec_cons_eq_some.mpr ⟨_, hstart, hreconfigured⟩, ?_⟩
    simp [UploadPhase.reconfigure]
  | none =>
    have hany : options.backends.any (fun kind => outcomes.reconfigure kind ≠ .ok) = false := by
      rw [← Bool.not_eq_true, any_reconfigure_eq_true_iff, haggregate]
      simp
    rw [hany] at hreconfigured
    obtain ⟨acts, phase, hexec, hphase⟩ := exec_persistAndSwap options owner repo
      (s.registry.reconfigureBackends options.backends outcomes.reconfigure owner repo state) s.runs upload state
      outcomes
    have hrest := exec_append_eq_some.mpr ⟨_, hreconfigured, hexec⟩
    refine ⟨_, phase, exec_cons_eq_some.mpr ⟨_, hstart, hrest⟩, ?_⟩
    rw [hphase]
    simp

end Alone

/-! ### The latest call wins -/

theorem overtaken_eq_false_iff (runs : List (UploadRun Z B)) (u : Nat) (done : UploadPhase → Bool) :
    overtaken runs u done = false ↔ ∀ v run, u < v → runs[v]? = some run → done run.phase = false := by
  rw [overtaken, List.any_eq_false]
  constructor
  · intro h v run huv hv
    have hmem : run ∈ runs.drop (u + 1) := by
      rw [List.mem_iff_getElem?]
      refine ⟨v - (u + 1), ?_⟩
      rw [List.getElem?_drop, ← hv]
      congr 1
      omega
    simpa using h run hmem
  · intro h run hmem
    obtain ⟨i, hi⟩ := List.mem_iff_getElem?.mp hmem
    rw [List.getElem?_drop] at hi
    simp [h (u + 1 + i) run (by omega) hi]

/-- `P` holds of the last call, in starting order, that is `done`. -/
def Latest (runs : List (UploadRun Z B)) (done : UploadPhase → Bool)
    (P : Upload B → OwnerRepoState Z → Prop) : Prop :=
  ∀ (u : Nat) run, runs[u]? = some run → done run.phase = true → overtaken runs u done = false →
    P run.upload run.state

@[simp] theorem setPhase_registry (s : Uploads Z B) (u : Nat) (phase : UploadPhase) :
    (s.setPhase u phase).registry = s.registry := rfl

theorem getElem?_setPhase (s : Uploads Z B) (u v : Nat) (phase : UploadPhase) :
    (s.setPhase u phase).runs[v]? =
      (s.runs[v]?).map fun run => if u = v then { run with phase := phase } else run := by
  simp only [setPhase, List.getElem?_modify]
  rfl

/-- The call `u` goes on, but not past the point in question. -/
theorem Latest.keep {s : Uploads Z B} {done : UploadPhase → Bool} {P : Upload B → OwnerRepoState Z → Prop}
    (h : Latest s.runs done P) {u : Nat} {run : UploadRun Z B} {phase : UploadPhase}
    (hrun : s.runs[u]? = some run) (hdone : done phase = done run.phase) :
    Latest (s.setPhase u phase).runs done P := by
  have hsame : ∀ (v : Nat) run', (s.setPhase u phase).runs[v]? = some run' →
      ∃ old, s.runs[v]? = some old ∧ done run'.phase = done old.phase ∧ run'.upload = old.upload ∧
        run'.state = old.state := by
    intro v run' hv
    rw [getElem?_setPhase] at hv
    obtain ⟨old, hold, rfl⟩ := Option.map_eq_some_iff.mp hv
    refine ⟨old, hold, ?_⟩
    split
    · rename_i huv
      subst huv
      cases hrun.symm.trans hold
      exact ⟨hdone, rfl, rfl⟩
    · exact ⟨rfl, rfl, rfl⟩
  intro v run' hv hdone' hfree
  obtain ⟨old, hold, hd, hupload, hstate⟩ := hsame v run' hv
  rw [hupload, hstate]
  apply h v old hold (hd ▸ hdone')
  rw [overtaken_eq_false_iff] at hfree ⊢
  intro w run'' hvw hw
  have hw' : (s.setPhase u phase).runs[w]? =
      some (if u = w then { run'' with phase := phase } else run'') := by
    rw [getElem?_setPhase, hw]
    rfl
  obtain ⟨old', hold', hd', _⟩ := hsame w _ hw'
  cases hw.symm.trans hold'
  rw [← hd']
  exact hfree w _ hvw hw'

/-- The call `u` reaches the point in question and no later one has: it is the last. -/
theorem Latest.take {s : Uploads Z B} {done : UploadPhase → Bool} {P : Upload B → OwnerRepoState Z → Prop}
    {u : Nat} {run : UploadRun Z B} {phase : UploadPhase} (hrun : s.runs[u]? = some run)
    (hfree : overtaken s.runs u done = false) (hdone : done phase = true) (hP : P run.upload run.state) :
    Latest (s.setPhase u phase).runs done P := by
  rw [overtaken_eq_false_iff] at hfree
  intro v run' hv hdone' hlast
  rw [overtaken_eq_false_iff] at hlast
  have hu : (s.setPhase u phase).runs[u]? = some { run with phase := phase } := by
    rw [getElem?_setPhase, hrun]
    simp
  rcases Nat.lt_trichotomy v u with hlt | rfl | hgt
  · have hcontra := hlast u _ hlt hu
    rw [hdone] at hcontra
    cases hcontra
  · cases hu.symm.trans hv
    exact hP
  · rw [getElem?_setPhase] at hv
    obtain ⟨old, hold, rfl⟩ := Option.map_eq_some_iff.mp hv
    rw [if_neg (by omega)] at hdone'
    rw [hfree v old hgt hold] at hdone'
    cases hdone'

theorem Latest.push {runs : List (UploadRun Z B)} {done : UploadPhase → Bool}
    {P : Upload B → OwnerRepoState Z → Prop} (h : Latest runs done P) {run : UploadRun Z B}
    (hnot : done run.phase = false) : Latest (runs ++ [run]) done P := by
  intro v run' hv hdone hfree
  have hlt : v < runs.length := by
    by_contra hge
    rcases Nat.lt_or_eq_of_le (Nat.le_of_not_lt hge) with hgt | heq
    · rw [List.getElem?_eq_none (by simp; omega)] at hv
      cases hv
    · rw [← heq, List.getElem?_concat_length] at hv
      cases hv
      rw [hnot] at hdone
      cases hdone
  rw [List.getElem?_append_left hlt] at hv
  apply h v run' hv hdone
  rw [overtaken_eq_false_iff] at hfree ⊢
  intro w run'' hvw hw
  apply hfree w run'' hvw
  rw [List.getElem?_append_left (List.getElem?_eq_some_iff.mp hw).1]
  exact hw

theorem Latest.imp {runs : List (UploadRun Z B)} {done : UploadPhase → Bool}
    {P Q : Upload B → OwnerRepoState Z → Prop} (h : Latest runs done P)
    (hPQ : ∀ upload state, P upload state → Q upload state) : Latest runs done Q :=
  fun u run hu hd hl => hPQ _ _ (h u run hu hd hl)

end Uploads

namespace UploadPhase

@[simp] theorem clean_reconfigure (pending : List TriggerKind) (anyFailed : Bool) :
    (reconfigure pending anyFailed).clean = !anyFailed := by
  unfold reconfigure
  split
  · cases anyFailed <;> rfl
  · rfl

@[simp] theorem settled_reconfigure (pending : List TriggerKind) (anyFailed : Bool) (kind : TriggerKind) :
    (reconfigure pending anyFailed).settled kind = !pending.contains kind := by
  unfold reconfigure
  split
  · rename_i hnil
    rw [List.isEmpty_iff.mp hnil]
    cases anyFailed <;> rfl
  · rfl

@[simp] theorem wrote_reconfigure (pending : List TriggerKind) (anyFailed : Bool) :
    (reconfigure pending anyFailed).wrote = false := by
  unfold reconfigure
  split
  · cases anyFailed <;> rfl
  · rfl

@[simp] theorem swapped_reconfigure (pending : List TriggerKind) (anyFailed : Bool) :
    (reconfigure pending anyFailed).swapped = false := by
  unfold reconfigure
  split
  · cases anyFailed <;> rfl
  · rfl

end UploadPhase

namespace Uploads

section Tracks
variable (options : WorkflowRegistryOptions Z) (owner repo : String)

/-- Each store holds what the last call to write it has written. -/
structure Tracks (s : Uploads Z B) : Prop where
  installed : ∀ kind ∈ options.backends, Latest s.runs (·.settled kind) fun _ state =>
    s.registry.installed.get? (kind, owner, repo) = some (state.entriesOfKind kind)
  stored : Latest s.runs (·.wrote) fun upload _ =>
    s.registry.storage.get? (repoKey owner repo) = some upload.tarballBytes
  current : Latest s.runs (·.swapped) fun _ state => s.registry.getRepoState owner repo = some state

def Clean (s : Uploads Z B) : Prop := ∀ run ∈ s.runs, run.phase.clean = true

variable {options owner repo}

theorem afterDelete_frame (s : Uploads Z B) (scope : WorkflowQueueScope) (outcome : Except String Unit) :
    ∃ rows, s.afterDelete scope outcome = { s with registry := { s.registry with rows := rows } } := by
  cases outcome with
  | ok v => exact ⟨_, rfl⟩
  | error message => exact ⟨s.registry.rows, rfl⟩

theorem mem_setPhase {s : Uploads Z B} {u : Nat} {run : UploadRun Z B} (phase : UploadPhase)
    (hrun : s.runs[u]? = some run) : { run with phase := phase } ∈ (s.setPhase u phase).runs := by
  rw [List.mem_iff_getElem?]
  refine ⟨u, ?_⟩
  rw [getElem?_setPhase, hrun]
  simp

theorem clean_of_setPhase {s : Uploads Z B} {u : Nat} {run : UploadRun Z B} {phase : UploadPhase}
    (hrun : s.runs[u]? = some run) (h : Clean (s.setPhase u phase))
    (hphase : phase.clean = true → run.phase.clean = true) : Clean s := by
  intro run' hmem
  obtain ⟨v, hv⟩ := List.mem_iff_getElem?.mp hmem
  by_cases huv : u = v
  · subst huv
    cases hrun.symm.trans hv
    exact hphase (h _ (mem_setPhase phase hrun))
  · apply h
    rw [List.mem_iff_getElem?]
    refine ⟨v, ?_⟩
    rw [getElem?_setPhase, hv]
    simp [huv]

theorem not_clean_setPhase {s : Uploads Z B} {u : Nat} {run : UploadRun Z B} {phase : UploadPhase}
    (hrun : s.runs[u]? = some run) (hphase : phase.clean = false) : ¬ Clean (s.setPhase u phase) := by
  intro h
  have hclean := h _ (mem_setPhase phase hrun)
  rw [hphase] at hclean
  cases hclean

/-- A step that fails nothing came from a state in which nothing had failed. -/
theorem clean_of_stepped {s t : Uploads Z B} {a : UploadAct B} (h : Stepped options owner repo s a t)
    (ht : Clean t) : Clean s := by
  cases h with
  | rejected upload => exact ht
  | started upload state => exact fun run hrun => ht run (List.mem_append_left _ hrun)
  | installed u kind run pending anyFailed hrun hphase =>
    refine clean_of_setPhase (s := { s with registry := _ }) hrun ht ?_
    rw [hphase, UploadPhase.clean_reconfigure]
    exact id
  | refused u kind outcome run pending anyFailed hrun =>
    exact absurd ht (not_clean_setPhase hrun (by simp))
  | wrote u run scopes hrun hphase =>
    refine clean_of_setPhase (s := { s with registry := _ }) hrun ht ?_
    rw [hphase]
    exact fun _ => rfl
  | writeFailed u message run hrun => exact absurd ht (not_clean_setPhase hrun rfl)
  | removed u scope outcome run pending pending' hrun hphase =>
    obtain ⟨rows, hrows⟩ := afterDelete_frame s scope outcome
    rw [hrows] at ht
    refine clean_of_setPhase (s := { s with registry := _ }) hrun ht ?_
    rw [hphase]
    exact fun _ => rfl
  | drained u scope outcome run step pending hrun =>
    obtain ⟨rows, hrows⟩ := afterDelete_frame s scope outcome
    rw [hrows] at ht
    exact absurd ht (not_clean_setPhase (s := { s with registry := _ }) hrun rfl)
  | swapped u run hrun hphase =>
    refine clean_of_setPhase (s := { s with registry := _ }) hrun ht ?_
    rw [hphase]
    exact fun _ => rfl

/-- A step that is in order, and after which nothing has failed, keeps the last writers on record. -/
theorem tracks_step {s t : Uploads Z B} {a : UploadAct B} (h : Stepped options owner repo s a t)
    (hok : InOrder s a) (ht : Clean t) (hs : Tracks options owner repo s) : Tracks options owner repo t := by
  cases h with
  | rejected upload => exact hs
  | started upload state =>
    refine ⟨?_, ?_, ?_⟩
    · intro kind hkind
      exact (hs.installed kind hkind).push (by simpa using hkind)
    · exact hs.stored.push (by simp)
    · exact hs.current.push (by simp)
  | installed u kind run pending anyFailed hrun hphase hmem =>
    refine ⟨?_, ?_, ?_⟩
    · intro kind' hkind'
      by_cases heq : kind' = kind
      · subst heq
        refine Latest.take (s := { s with registry := _ }) hrun hok (by simp) ?_
        simp [Registry.install]
      · refine Latest.imp (Latest.keep (s := { s with registry := _ }) (hs.installed kind' hkind') hrun ?_) ?_
        · rw [hphase, UploadPhase.settled_reconfigure]
          simp [UploadPhase.settled, heq]
        · intro upload state hstate
          simpa [Registry.install, OrderedMap.get?_set, heq] using hstate
    · refine Latest.keep (s := { s with registry := _ }) hs.stored hrun ?_
      rw [hphase, UploadPhase.wrote_reconfigure]
      rfl
    · refine Latest.keep (s := { s with registry := _ }) hs.current hrun ?_
      rw [hphase, UploadPhase.swapped_reconfigure]
      rfl
  | refused u kind outcome run pending anyFailed hrun =>
    exact absurd ht (not_clean_setPhase hrun (by simp))
  | wrote u run scopes hrun hphase =>
    refine ⟨?_, ?_, ?_⟩
    · intro kind hkind
      refine Latest.keep (s := { s with registry := _ }) (hs.installed kind hkind) hrun ?_
      rw [hphase]
      rfl
    · refine Latest.take (s := { s with registry := _ }) hrun hok rfl ?_
      simp [Registry.persistTarball]
    · refine Latest.keep (s := { s with registry := _ }) hs.current hrun ?_
      rw [hphase]
      rfl
  | writeFailed u message run hrun => exact absurd ht (not_clean_setPhase hrun rfl)
  | removed u scope outcome run pending pending' hrun hphase =>
    obtain ⟨rows, hrows⟩ := afterDelete_frame s scope outcome
    rw [hrows]
    refine ⟨?_, ?_, ?_⟩
    · intro kind hkind
      refine Latest.keep (s := { s with registry := _ }) (hs.installed kind hkind) hrun ?_
      rw [hphase]
      rfl
    · refine Latest.keep (s := { s with registry := _ }) hs.stored hrun ?_
      rw [hphase]
      rfl
    · refine Latest.keep (s := { s with registry := _ }) hs.current hrun ?_
      rw [hphase]
      rfl
  | drained u scope outcome run step pending hrun =>
    obtain ⟨rows, hrows⟩ := afterDelete_frame s scope outcome
    rw [hrows] at ht
    exact absurd ht (not_clean_setPhase (s := { s with registry := _ }) hrun rfl)
  | swapped u run hrun hphase =>
    refine ⟨?_, ?_, ?_⟩
    · intro kind hkind
      refine Latest.keep (s := { s with registry := _ }) (hs.installed kind hkind) hrun ?_
      rw [hphase]
      rfl
    · refine Latest.keep (s := { s with registry := _ }) hs.stored hrun ?_
      rw [hphase]
      rfl
    · refine Latest.take (s := { s with registry := _ }) hrun hok rfl ?_
      simp [Registry.getRepoState_setRepoState]

theorem tracks_of_inOrder {r : Registry Z B} {s : Uploads Z B} {acts : List (UploadAct B)}
    (hok : Along (step options owner repo) InOrder ⟨r, []⟩ acts)
    (h : exec (step options owner repo) ⟨r, []⟩ acts = some s) (hs : Clean s) :
    Tracks options owner repo s := by
  have hinit : Tracks options owner repo (⟨r, []⟩ : Uploads Z B) := by
    refine ⟨?_, ?_, ?_⟩
    · intro kind _ u run hrun
      simp at hrun
    · intro u run hrun
      simp at hrun
    · intro u run hrun
      simp at hrun
  have hstep : ∀ (s : Uploads Z B) a t, (Clean s → Tracks options owner repo s) → InOrder s a →
      step options owner repo s a = some t → Clean t → Tracks options owner repo t := by
    intro s a t hinv hok hstep ht
    have hstepped := step_cases hstep
    exact tracks_step hstepped hok ht (hinv (clean_of_stepped hstepped ht))
  exact exec_invariant_along hstep (fun _ => hinit) hok h hs

end Tracks

section Agreement
variable (options : WorkflowRegistryOptions Z) (owner repo : String)

/-- Uploads of which none writes over a later one's work leave, once all of them have returned, state,
backends and tarball of one and the same call. -/
theorem agreement_of_inOrder (r : Registry Z B) (s : Uploads Z B) (acts : List (UploadAct B))
    (h : exec (step options owner repo) ⟨r, []⟩ acts = some s)
    (hok : Along (step options owner repo) InOrder ⟨r, []⟩ acts)
    (hsome : s.runs ≠ []) (hreturned : ∀ run ∈ s.runs, run.phase = .returned) :
    Agreement options owner repo s := by
  have hclean : Clean s := by
    intro run hrun
    rw [hreturned run hrun]
    rfl
  have htracks := tracks_of_inOrder hok h hclean
  obtain ⟨run, hlast⟩ := Option.ne_none_iff_exists'.mp (mt List.getLast?_eq_none_iff.mp hsome)
  have hmem := List.mem_of_getLast? hlast
  rw [List.getLast?_eq_getElem?] at hlast
  have hfree : ∀ done, overtaken s.runs (s.runs.length - 1) done = false := by
    intro done
    rw [overtaken_eq_false_iff]
    intro v run' hv hget
    have hlt := (List.getElem?_eq_some_iff.mp hget).1
    omega
  refine ⟨run, hmem, ?_, ?_, ?_⟩
  · refine htracks.current _ run hlast ?_ (hfree _)
    rw [hreturned run hmem]
    rfl
  · intro kind hkind
    refine htracks.installed kind hkind _ run hlast ?_ (hfree _)
    rw [hreturned run hmem]
    rfl
  · refine htracks.stored _ run hlast ?_ (hfree _)
    rw [hreturned run hmem]
    rfl

end Agreement

/-- Uploads to a repo that has none yet. -/
def uploadMailer (acts : List (UploadAct String)) : Option (Uploads Unit String) :=
  exec (step mailerOptions "acme" "site") ⟨⟨.empty, .empty, .empty, []⟩, []⟩ acts

/-- Both calls have reconfigured the backends before either writes; then the second one finishes first. -/
def overtakingUploads : List (UploadAct String) :=
  [.start ⟨mailerFiles "with queue", "first tarball"⟩,
   .reconfigured 0 .http .ok, .reconfigured 0 .cron .ok,
   .start ⟨mailerFiles "without queue", "second tarball"⟩,
   .reconfigured 1 .http .ok, .reconfigured 1 .cron .ok,
   .written 1 (.ok ()), .swap 1, .written 0 (.ok ()), .swap 0]

/-- Entries for the cron backend, by the queues of the workflows they fire. -/
def cronQueues (entries : List (TriggerEntry Unit)) : List (List String) :=
  entries.map fun e => queueNames e.workflow

/-- The tarball is the first upload's, the cron backend fires the second upload's workflow. -/
theorem overtakingUploads_disagree :
    ∃ s, uploadMailer overtakingUploads = some s ∧ (∀ run ∈ s.runs, run.phase = .returned) ∧
      ¬ Agreement mailerOptions "acme" "site" s := by
  obtain ⟨s, hs⟩ : ∃ s, uploadMailer overtakingUploads = some s := Option.isSome_iff_exists.mp (by decide)
  have hphases : (uploadMailer overtakingUploads).map (fun s => s.runs.map (·.phase)) =
      some [.returned, .returned] := by
    decide
  have hcalls : (uploadMailer overtakingUploads).map (fun s => s.runs.map fun run =>
      (run.upload.tarballBytes, cronQueues (run.state.entriesOfKind .cron))) =
        some [("first tarball", [["jobs"]]), ("second tarball", [[]])] := by
    decide
  have htarball : (uploadMailer overtakingUploads).bind
      (fun s => s.registry.storage.get? (repoKey "acme" "site")) = some "first tarball" := by
    decide
  have hcron : (uploadMailer overtakingUploads).bind
      (fun s => (s.registry.installed.get? (.cron, "acme", "site")).map cronQueues) = some [[]] := by
    decide
  simp only [hs, Option.map_some, Option.bind_some, Option.some.injEq] at hphases hcalls htarball hcron
  refine ⟨s, hs, ?_, ?_⟩
  · intro run hmem
    have hphase := List.mem_map_of_mem (f := fun run : UploadRun Unit String => run.phase) hmem
    rw [hphases] at hphase
    simpa using hphase
  · rintro ⟨run, hmem, -, hinstalled, hbytes⟩
    have hcall := List.mem_map_of_mem (f := fun run : UploadRun Unit String =>
      (run.upload.tarballBytes, cronQueues (run.state.entriesOfKind .cron))) hmem
    rw [hinstalled .cron (by decide), Option.map_some, Option.some.injEq] at hcron
    rw [hbytes, Option.some.injEq] at htarball
    rw [hcalls, htarball, hcron] at hcall
    revert hcall
    decide

/-- The calls overlap, but each store takes the second upload last. -/
def overlappingUploads : List (UploadAct String) :=
  [.start ⟨mailerFiles "with queue", "first tarball"⟩, .reconfigured 0 .http .ok,
   .start ⟨mailerFiles "without queue", "second tarball"⟩,
   .reconfigured 0 .cron .ok, .reconfigured 1 .cron .ok, .reconfigured 1 .http .ok,
   .written 0 (.ok ()), .swap 0,
   .written 1 (.ok ()), .deleted 1 ⟨"acme", "site", "mailer", some "jobs"⟩ (.ok ()), .swap 1]

theorem agreement_of_inOrder_overlappingUploads :
    ∃ s, uploadMailer overlappingUploads = some s ∧ Agreement mailerOptions "acme" "site" s := by
  obtain ⟨s, hs⟩ : ∃ s, uploadMailer overlappingUploads = some s := Option.isSome_iff_exists.mp (by decide)
  have hphases : (uploadMailer overlappingUploads).map (fun s => s.runs.map (·.phase)) =
      some [.returned, .returned] := by
    decide
  simp only [hs, Option.map_some, Option.some.injEq] at hphases
  refine ⟨s, hs, agreement_of_inOrder mailerOptions "acme" "site" _ s overlappingUploads hs (by decide) ?_ ?_⟩
  · intro hnil
    rw [hnil] at hphases
    cases hphases
  · intro run hmem
    have hphase := List.mem_map_of_mem (f := fun run : UploadRun Unit String => run.phase) hmem
    rw [hphases] at hphase
    simpa using hphase

end Uploads

end WorkflowEngine.Runtime
