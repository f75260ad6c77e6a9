import WorkflowEngine.Lib.Fallible
import WorkflowEngine.Lib.JsObject
import WorkflowEngine.Lib.JsonText
import WorkflowEngine.Runtime.OwnerRepoState

/-!
# The `env` record from `defineWorkflow` to the bundle

`env`, `resolveEnvRecord` and `defineWorkflow` of the SDK as the build evaluates them,
the `env` part of `buildManifestFromMod`, and `bundle` with `sealManifest`. The record is
keyed by property; the secret bindings, and after sealing the secrets, by variable name.
-/

namespace WorkflowEngine.Sdk

open Lib WorkflowEngine.Runtime
set_option autoImplicit false

/-! ## `defineWorkflow` -/

structure EnvRef where
  name : Option String
  default : Option String
  secret : Bool
  secret_undefaulted : secret = true → default = none

inductive EnvOptions where
  | plain (name default : Option String)
  | secret (name : Option String)

def env : EnvOptions → EnvRef
  | .plain name default => ⟨name, default, false, fun hsecret => nomatch hsecret⟩
  | .secret name => ⟨name, none, true, fun _ => rfl⟩

/-- The variable that a reference under this key stands for. -/
def EnvRef.envName (r : EnvRef) (key : String) : String := r.name.getD key

inductive EnvValue where
  | text (value : String)
  | ref (r : EnvRef)

def encodeSentinel (name : String) : Except String String :=
  match name.toList with
  | [] => .error (invalid name)
  | c :: cs =>
    if isNameStart c && cs.all isNameChar then .ok (String.ofList (sentinelOpen ++ name.toList ++ ['\x00']))
    else .error (invalid name)
where
  invalid (name : String) : String :=
    "invalid secret name (must match ^[A-Za-z_][A-Za-z0-9_]*$): " ++ String.ofList (printString name)

section Define
variable (envSource : OrderedMap String String)

/-- One turn of the loop of `resolveEnvRecord`. -/
def resolveEntry (e : String × EnvValue) : Except String (String × PropertyRead String) :=
  match e.2 with
  | .text value => .ok (e.1, .own value)
  | .ref r =>
    match (envSource.read (r.envName e.1)).or (r.default.map .own) with
    | none => .error ("Missing environment variable: " ++ r.envName e.1)
    | some envValue =>
      if r.secret then do
        let sentinel ← encodeSentinel (r.envName e.1)
        return (e.1, .own sentinel)
      else .ok (e.1, envValue)

def resolveEnvRecord (record : OrderedMap String EnvValue) :
    Except String (OrderedMap String (PropertyRead String)) := do
  let resolved ← record.entries.mapM (resolveEntry envSource)
  return .assignAll resolved

end Define

/-- The name under which a secret of the record is bound. -/
def secretBinding (e : String × EnvValue) : Option String :=
  match e.2 with
  | .text _ => none
  | .ref r => if r.secret then some (r.envName e.1) else none

structure Workflow where
  name : String
  env : OrderedMap String (PropertyRead String)
  secretBindings : List String

/-- An absent `env` reads as an empty one. -/
structure DefineWorkflowConfig where
  name : Option String
  env : OrderedMap String EnvValue

def defineWorkflow (config : DefineWorkflowConfig) (envSource : OrderedMap String String) :
    Except String Workflow := do
  let resolved ← resolveEnvRecord envSource config.env
  return {
    name := config.name.getD ""
    env := resolved
    secretBindings := config.env.entries.filterMap secretBinding }

/-! ## The manifest -/

inductive BundleError where
  | evaluation (message : String)
  | invalidManifest
  | missingSecretEnv (missing : List String)

/-- What the build makes of a workflow file beside its `env`. -/
structure WorkflowModule where
  filestem : String
  sha : String
  actions : List ActionManifest
  triggers : List TriggerManifest
  queues : List QueueManifest

/-- What the schema asks of the module: a trigger, and names that tell its parts apart. -/
structure WorkflowModule.Valid (mod : WorkflowModule) : Prop where
  queueNames : (mod.queues.map (·.name)).Nodup
  triggers : mod.triggers ≠ []
  triggerNames : (mod.triggers.map (·.name)).Nodup
  actionNames : (mod.actions.map (·.name)).Nodup

instance (mod : WorkflowModule) : Decidable mod.Valid :=
  decidable_of_iff ((mod.queues.map (·.name)).Nodup ∧ mod.triggers ≠ [] ∧
      (mod.triggers.map (·.name)).Nodup ∧ (mod.actions.map (·.name)).Nodup)
    ⟨fun h => ⟨h.1, h.2.1, h.2.2.1, h.2.2.2⟩, fun h => ⟨h.1, h.2, h.3, h.4⟩⟩

/-- A manifest that has passed the schema, with the names of the secrets still to be sealed. -/
structure UnsealedWorkflowManifest where
  built : WorkflowManifest
  secretBindings : List String
  unsealed : built.secrets = none ∧ built.secretsKeyId = none

/-- The schema wants a string under every key. -/
def textEntry (e : String × PropertyRead String) : Except BundleError (String × String) :=
  match e.2 with
  | .own value => .ok (e.1, value)
  | .inherited _ => .error .invalidManifest

def manifestEnv (workflow : Workflow) : Except BundleError (OrderedMap String String) := do
  let kept ← (workflow.env.entries.filter fun e => e.1 ∉ workflow.secretBindings).mapM textEntry
  return .assignAll kept

/-- `workflow?.name || filestem`. -/
def workflowName (mod : WorkflowModule) (workflow : Workflow) : String :=
  if workflow.name = "" then mod.filestem else workflow.name

theorem isSome_eq_of_unsealed :
    (none : Option (OrderedMap String String)).isSome = (none : Option String).isSome := rfl

theorem disjoint_of_unsealed (env : OrderedMap String String) :
    ∀ m ∈ (none : Option (OrderedMap String String)), ∀ k ∈ m.keys, k ∉ env.keys := by
  intro m hm
  cases hm

def buildManifestFromMod (mod : WorkflowModule) (workflow : Workflow) :
    Except BundleError UnsealedWorkflowManifest := do
  let env ← manifestEnv workflow
  if h : mod.Valid then
    return {
      built := {
        name := workflowName mod workflow
        module := workflowName mod workflow ++ ".js"
        sha := mod.sha
        env := env
        secrets := none
        secretsKeyId := none
        actions := mod.actions
        triggers := mod.triggers
        queues := mod.queues
        queueNames_nodup := h.queueNames
        secrets_iff := isSome_eq_of_unsealed
        secrets_disjoint := disjoint_of_unsealed env
        triggers_nonempty := h.triggers
        triggerNames_nodup := h.triggerNames
        actionNames_nodup := h.actionNames }
      secretBindings := workflow.secretBindings
      unsealed := ⟨rfl, rfl⟩ }
  else throw .invalidManifest

/-! ## Sealing -/

/-- The server's public key: `sealCiphertext` is the function of the source under it, in base64. -/
structure PublicKey where
  keyId : String
  sealCiphertext : String → String

/-- A sealed manifest before the server has validated it. -/
structure SealedWorkflowManifest where
  rest : WorkflowManifest
  unsealed : rest.secrets = none ∧ rest.secretsKeyId = none
  secrets : Option (OrderedMap String String × String)

/-- `String(value)` of what `Object.prototype` has under a name. -/
def inheritedText (name : String) : String :=
  if name = "__proto__" then "[object Object]"
  else "function " ++ (if name = "constructor" then "Object" else name) ++ "() { [native code] }"

def sealBinding (key : PublicKey) (env : OrderedMap String String) (name : String) :
    Except BundleError (String × String) :=
  match env.read name with
  | none => .error (.missingSecretEnv [name])
  | some (.own plaintext) => .ok (name, key.sealCiphertext plaintext)
  | some (.inherited inherited) => .ok (name, key.sealCiphertext (inheritedText inherited))

def sealManifest (wf : UnsealedWorkflowManifest) (key : PublicKey) (env : OrderedMap String String) :
    Except BundleError SealedWorkflowManifest :=
  if wf.secretBindings = [] then .ok ⟨wf.built, wf.unsealed, none⟩
  else do
    let secrets ← wf.secretBindings.mapM (sealBinding key env)
    return ⟨wf.built, wf.unsealed, some (.assignAll secrets, key.keyId)⟩

def collectMissingSecretBindings (wf : UnsealedWorkflowManifest) (env : OrderedMap String String) : List String :=
  wf.secretBindings.filter fun name => (env.read name).isNone

def evaluationError (filestem message : String) : BundleError :=
  .evaluation ("Failed to evaluate bundled workflow \"" ++ filestem ++ "\": " ++ message)

/-- `bundle` for one workflow file: build, then seal what is secret. -/
def bundle (mod : WorkflowModule) (config : DefineWorkflowConfig) (key : PublicKey)
    (env : OrderedMap String String) : Except BundleError SealedWorkflowManifest := do
  let workflow ← (defineWorkflow config env).mapError (evaluationError mod.filestem)
  let wf ← buildManifestFromMod mod workflow
  let missing := collectMissingSecretBindings wf env
  if missing ≠ [] then throw (.missingSecretEnv missing) else sealManifest wf key env

/-! ## What the stages leave under a key -/

section Stages
variable {envSource : OrderedMap String String} {record : OrderedMap String EnvValue}

theorem resolveEntry_fst {e : String × EnvValue} {p : String × PropertyRead String}
    (h : resolveEntry envSource e = .ok p) : p.1 = e.1 := by
  unfold resolveEntry at h
  split at h
  · cases h
    rfl
  · split at h
    · cases h
    · split at h
      · obtain ⟨sentinel, _, h⟩ := bind_eq_ok h
        cases h
        rfl
      · cases h
        rfl

theorem get?_resolveEnvRecord {resolved : OrderedMap String (PropertyRead String)}
    (h : resolveEnvRecord envSource record = .ok resolved) (key : String) (v : PropertyRead String) :
    resolved.get? key = some v ↔
      (∃ value, record.get? key = some value ∧ resolveEntry envSource (key, value) = .ok (key, v)) ∧
        key ≠ "__proto__" := by
  obtain ⟨pairs, hpairs, h⟩ := bind_eq_ok h
  cases h
  have hmem : ∀ k w, (k, w) ∈ pairs ↔
      ∃ value, record.get? k = some value ∧ resolveEntry envSource (k, value) = .ok (k, w) := by
    intro k w
    rw [mem_mapM hpairs]
    constructor
    · rintro ⟨⟨k', value⟩, he, hentry⟩
      obtain rfl : k = k' := resolveEntry_fst hentry
      exact ⟨value, (record.get?_eq_some_iff k value).mpr he, hentry⟩
    · rintro ⟨value, hvalue, hentry⟩
      exact ⟨(k, value), (record.get?_eq_some_iff k value).mp hvalue, hentry⟩
  rw [OrderedMap.get?_assignAll, hmem]
  intro w w' hw hw'
  obtain ⟨value, hvalue, hentry⟩ := (hmem key w).mp hw
  obtain ⟨value', hvalue', hentry'⟩ := (hmem key w').mp hw'
  rw [hvalue] at hvalue'
  cases hvalue'
  rw [hentry] at hentry'
  cases hentry'
  rfl

theorem textEntry_eq_ok {e : String × PropertyRead String} {p : String × String} :
    textEntry e = .ok p ↔ e = (p.1, .own p.2) := by
  obtain ⟨key, v⟩ := e
  obtain ⟨key', value⟩ := p
  cases v with
  | own value' => simp [textEntry]
  | inherited name => simp [textEntry]

theorem get?_manifestEnv {workflow : Workflow} {env : OrderedMap String String}
    (h : manifestEnv workflow = .ok env) (key value : String) :
    env.get? key = some value ↔
      (workflow.env.get? key = some (.own value) ∧ key ∉ workflow.secretBindings) ∧ key ≠ "__proto__" := by
  obtain ⟨pairs, hpairs, h⟩ := bind_eq_ok h
  cases h
  have hmem : ∀ k w, (k, w) ∈ pairs ↔ workflow.env.get? k = some (.own w) ∧ k ∉ workflow.secretBindings := by
    intro k w
    rw [mem_mapM hpairs]
    simp only [textEntry_eq_ok, OrderedMap.get?_eq_some_iff]
    simp
  rw [OrderedMap.get?_assignAll, hmem]
  intro w w' hw hw'
  have hsame := ((hmem key w).mp hw).1.symm.trans ((hmem key w').mp hw').1
  cases hsame
  rfl

theorem sealBinding_fst {key : PublicKey} {env : OrderedMap String String} {name : String}
    {p : String × String} (h : sealBinding key env name = .ok p) : p.1 = name := by
  unfold sealBinding at h
  split at h <;> cases h <;> rfl

theorem get?_secrets {key : PublicKey} {env : OrderedMap String String} {names : List String}
    {secrets : List (String × String)} (h : names.mapM (sealBinding key env) = .ok secrets)
    (name ciphertext : String) :
    (OrderedMap.assignAll secrets).get? name = some ciphertext ↔
      (name ∈ names ∧ sealBinding key env name = .ok (name, ciphertext)) ∧ name ≠ "__proto__" := by
  have hmem : ∀ k w, (k, w) ∈ secrets ↔ k ∈ names ∧ sealBinding key env k = .ok (k, w) := by
    intro k w
    rw [mem_mapM h]
    constructor
    · rintro ⟨k', hk', hsealed⟩
      obtain rfl : k = k' := sealBinding_fst hsealed
      exact ⟨hk', hsealed⟩
    · rintro ⟨hk, hsealed⟩
      exact ⟨k, hk, hsealed⟩
  rw [OrderedMap.get?_assignAll, hmem]
  intro w w' hw hw'
  have hsame := ((hmem name w).mp hw).2.symm.trans ((hmem name w').mp hw').2
  cases hsame
  rfl

/-- The names of the secret bindings are the variables of the secret references. -/
theorem mem_secretBindings (name : String) :
    name ∈ record.entries.filterMap secretBinding ↔
      ∃ key r, record.get? key = some (.ref r) ∧ r.secret = true ∧ r.envName key = name := by
  simp only [List.mem_filterMap, OrderedMap.get?_eq_some_iff]
  constructor
  · rintro ⟨⟨key, value⟩, he, hbinding⟩
    cases value with
    | text value => cases hbinding
    | ref r =>
      simp only [secretBinding] at hbinding
      split at hbinding
      · rename_i hsecret
        exact ⟨key, r, he, hsecret, Option.some.inj hbinding⟩
      · cases hbinding
  · rintro ⟨key, r, he, hsecret, rfl⟩
    refine ⟨(key, .ref r), he, ?_⟩
    simp only [secretBinding, hsecret, if_true]

end Stages

/-! ## When the bundle is made -/

section Bundled
variable {mod : WorkflowModule} {config : DefineWorkflowConfig} {key : PublicKey}
  {env : OrderedMap String String}

/-- The secrets of the record by their variables. -/
def DefineWorkflowConfig.bindings (config : DefineWorkflowConfig) : List String :=
  config.env.entries.filterMap secretBinding

/-- A sealed manifest and the stages it came from. -/
structure Bundled (config : DefineWorkflowConfig) (key : PublicKey) (env : OrderedMap String String)
    (m : SealedWorkflowManifest) : Prop where
  resolved : ∃ resolved, resolveEnvRecord env config.env = .ok resolved ∧
    (∀ k v, resolved.get? k = some v → k ∉ config.bindings → ∃ value, v = .own value) ∧
    ∀ k value, m.rest.env.get? k = some value ↔
      (resolved.get? k = some (.own value) ∧ k ∉ config.bindings) ∧ k ≠ "__proto__"
  present : ∀ name ∈ config.bindings, ∃ ciphertext, sealBinding key env name = .ok (name, ciphertext)
  sealed : m.secrets = none ∧ config.bindings = [] ∨ ∃ secrets, m.secrets = some (secrets, key.keyId) ∧
    ∀ name ciphertext, secrets.get? name = some ciphertext ↔
      (name ∈ config.bindings ∧ sealBinding key env name = .ok (name, ciphertext)) ∧ name ≠ "__proto__"

/-- The workflow that `defineWorkflow` makes of a resolved record. -/
def DefineWorkflowConfig.workflow (config : DefineWorkflowConfig)
    (resolved : OrderedMap String (PropertyRead String)) : Workflow :=
  ⟨config.name.getD "", resolved, config.bindings⟩

/-- What a bundle is made from. -/
theorem bundle_eq_ok {m : SealedWorkflowManifest} (h : bundle mod config key env = .ok m) :
    ∃ resolved, resolveEnvRecord env config.env = .ok resolved ∧
      manifestEnv (config.workflow resolved) = .ok m.rest.env ∧ mod.Valid ∧
      (m.secrets = none ∧ config.bindings = [] ∨ ∃ pairs,
        config.bindings.mapM (sealBinding key env) = .ok pairs ∧
          m.secrets = some (.assignAll pairs, key.keyId)) := by
  obtain ⟨workflow, hworkflow, hbuild⟩ := bind_eq_ok h
  obtain ⟨wf, hwf, hseal⟩ := bind_eq_ok hbuild
  obtain ⟨resolved, hresolved, hdefined⟩ := bind_eq_ok (mapError_eq_ok hworkflow)
  obtain rfl : config.workflow resolved = workflow := Except.ok.inj hdefined
  have hsealed : sealManifest wf key env = .ok m := by
    dsimp only at hseal
    split at hseal
    · cases hseal
    · exact hseal
  obtain ⟨menv, hmenv, hwf⟩ := bind_eq_ok hwf
  split at hwf
  · rename_i hvalid
    cases hwf
    unfold sealManifest at hsealed
    split at hsealed
    · rename_i hempty
      cases hsealed
      exact ⟨resolved, hresolved, hmenv, hvalid, Or.inl ⟨rfl, hempty⟩⟩
    · obtain ⟨pairs, hpairs, hsealed⟩ := bind_eq_ok hsealed
      cases hsealed
      exact ⟨resolved, hresolved, hmenv, hvalid, Or.inr ⟨pairs, hpairs, rfl⟩⟩
  · cases hwf

/-- The schema has found a text under every key that was kept. -/
theorem text_of_manifestEnv {workflow : Workflow} {menv : OrderedMap String String}
    (h : manifestEnv workflow = .ok menv) {k : String} {v : PropertyRead String}
    (hv : workflow.env.get? k = some v) (hk : k ∉ workflow.secretBindings) : ∃ value, v = .own value := by
  obtain ⟨kept, hkept, _⟩ := bind_eq_ok h
  have hmem : (k, v) ∈ workflow.env.entries.filter fun e => e.1 ∉ workflow.secretBindings :=
    List.mem_filter.mpr ⟨(workflow.env.get?_eq_some_iff k v).mp hv, decide_eq_true hk⟩
  obtain ⟨p, hp⟩ := ok_of_mapM hkept hmem
  exact ⟨p.2, congrArg Prod.snd (textEntry_eq_ok.mp hp)⟩

theorem bundled_of_bundle {m : SealedWorkflowManifest} (h : bundle mod config key env = .ok m) :
    Bundled config key env m := by
  obtain ⟨resolved, hresolved, hmenv, _, ⟨hnone, hempty⟩ | ⟨pairs, hpairs, hsecrets⟩⟩ := bundle_eq_ok h
  · refine ⟨⟨resolved, hresolved, fun _ _ => text_of_manifestEnv hmenv, get?_manifestEnv hmenv⟩, ?_,
      Or.inl ⟨hnone, hempty⟩⟩
    rw [hempty]
    intro name hname
    cases hname
  · refine ⟨⟨resolved, hresolved, fun _ _ => text_of_manifestEnv hmenv, get?_manifestEnv hmenv⟩, ?_,
      Or.inr ⟨_, hsecrets, get?_secrets hpairs⟩⟩
    intro name hname
    obtain ⟨p, hp⟩ := ok_of_mapM hpairs hname
    obtain rfl := sealBinding_fst hp
    exact ⟨p.2, hp⟩

theorem sealBinding_of_read {name : String} (h : (env.read name).isSome = true) :
    ∃ p, sealBinding key env name = .ok p := by
  obtain ⟨v, hv⟩ := Option.isSome_iff_exists.mp h
  unfold sealBinding
  rw [hv]
  cases v <;> exact ⟨_, rfl⟩

theorem exists_bundle {resolved : OrderedMap String (PropertyRead String)} {menv : OrderedMap String String}
    (hresolved : resolveEnvRecord env config.env = .ok resolved)
    (hmenv : manifestEnv (config.workflow resolved) = .ok menv) (hvalid : mod.Valid)
    (hread : ∀ name ∈ config.bindings, (env.read name).isSome = true) :
    ∃ m, bundle mod config key env = .ok m := by
  have hdefined : defineWorkflow config env = .ok (config.workflow resolved) := by
    unfold defineWorkflow
    rw [hresolved]
    rfl
  obtain ⟨wf, hwf, hnames⟩ : ∃ wf, buildManifestFromMod mod (config.workflow resolved) = .ok wf ∧
      wf.secretBindings = config.bindings := by
    unfold buildManifestFromMod
    rw [hmenv]
    simp only [bind, Except.bind, dif_pos hvalid]
    exact ⟨_, rfl, rfl⟩
  have hmissing : collectMissingSecretBindings wf env = [] := by
    unfold collectMissingSecretBindings
    rw [hnames, List.filter_eq_nil_iff]
    intro name hname
    rw [Option.isNone_iff_eq_none, ← ne_eq, ← Option.isSome_iff_ne_none]
    exact hread name hname
  have hsealed : ∃ m, sealManifest wf key env = .ok m := by
    unfold sealManifest
    split
    · exact ⟨_, rfl⟩
    · have hall : ∀ name ∈ wf.secretBindings, ∃ p, sealBinding key env name = .ok p := by
        rw [hnames]
        intro name hname
        exact sealBinding_of_read (hread name hname)
      obtain ⟨pairs, hpairs⟩ := exists_mapM hall
      rw [hpairs]
      exact ⟨_, rfl⟩
  obtain ⟨m, hm⟩ := hsealed
  refine ⟨m, ?_⟩
  unfold bundle
  rw [hdefined]
  simp only [Except.mapError, bind, Except.bind, hwf, hmissing]
  exact hm

/-! ### Another value for a variable -/

theorem resolveEntry_set {e : String × EnvValue} {p : String × PropertyRead String}
    (h : resolveEntry env e = .ok p) (n a : String) :
    ∃ v, resolveEntry (env.set n a) e = .ok (e.1, v) ∧ (v = p.2 ∨ v = .own a) := by
  obtain ⟨k, value⟩ := e
  cases value with
  | text value =>
    cases h
    exact ⟨.own value, rfl, Or.inl rfl⟩
  | ref r =>
    simp only [resolveEntry] at h ⊢
    rw [OrderedMap.read_set]
    by_cases hn : r.envName k = n
    · rw [if_pos hn, Option.some_or]
      split at h
      · cases h
      · cases hsecret : r.secret with
        | false => exact ⟨.own a, rfl, Or.inr rfl⟩
        | true =>
          rw [hsecret] at h
          obtain ⟨sentinel, hsentinel, h⟩ := bind_eq_ok h
          cases h
          simp only [if_true, hsentinel]
          exact ⟨_, rfl, Or.inl rfl⟩
    · rw [if_neg hn]
      refine ⟨p.2, ?_, Or.inl rfl⟩
      have hentry : resolveEntry env (k, .ref r) = .ok p := h
      have hfst : p.1 = k := resolveEntry_fst hentry
      rw [h, ← hfst]

/-- A build that succeeds still does when a variable is given another value. -/
theorem exists_bundle_set {m : SealedWorkflowManifest} (h : bundle mod config key env = .ok m) (n a : String) :
    ∃ m', bundle mod config key (env.set n a) = .ok m' := by
  obtain ⟨resolved, hresolved, hmenv, hvalid, _⟩ := bundle_eq_ok h
  have hentries : ∀ e ∈ config.env.entries, ∃ p, resolveEntry env e = .ok p := by
    obtain ⟨pairs, hpairs, _⟩ := bind_eq_ok hresolved
    exact fun e he => ok_of_mapM hpairs he
  obtain ⟨pairs', hpairs'⟩ : ∃ pairs', config.env.entries.mapM (resolveEntry (env.set n a)) = .ok pairs' := by
    apply exists_mapM
    intro e he
    obtain ⟨p, hp⟩ := hentries e he
    obtain ⟨v, hv, _⟩ := resolveEntry_set hp n a
    exact ⟨_, hv⟩
  have hresolved' : resolveEnvRecord (env.set n a) config.env = .ok (.assignAll pairs') := by
    unfold resolveEnvRecord
    rw [hpairs']
    rfl
  have hkept : ∀ e ∈ (OrderedMap.assignAll pairs').entries.filter (fun e => e.1 ∉ config.bindings),
      ∃ p, textEntry e = .ok p := by
    intro e he
    obtain ⟨he, hnot⟩ := List.mem_filter.mp he
    have hget := (OrderedMap.get?_eq_some_iff _ e.1 e.2).mpr he
    obtain ⟨⟨value, hvalue, hentry⟩, hproto⟩ := (get?_resolveEnvRecord hresolved' e.1 e.2).mp hget
    obtain ⟨p, hp⟩ := hentries (e.1, value) ((config.env.get?_eq_some_iff e.1 value).mp hvalue)
    obtain ⟨v, hv, hcases⟩ := resolveEntry_set hp n a
    rw [hentry] at hv
    obtain rfl : e.2 = v := congrArg Prod.snd (Except.ok.inj hv)
    rcases hcases with hsame | hown
    · have hfst : p.1 = e.1 := resolveEntry_fst hp
      have hold : resolved.get? e.1 = some p.2 := by
        refine (get?_resolveEnvRecord hresolved e.1 p.2).mpr ⟨⟨value, hvalue, ?_⟩, hproto⟩
        rw [hp, ← hfst]
      obtain ⟨kept, hkept, _⟩ := bind_eq_ok hmenv
      have hmem : (e.1, p.2) ∈ (config.workflow resolved).env.entries.filter
          fun e => e.1 ∉ (config.workflow resolved).secretBindings :=
        List.mem_filter.mpr ⟨(resolved.get?_eq_some_iff e.1 p.2).mp hold, hnot⟩
      rw [← hsame] at hmem
      exact ok_of_mapM hkept hmem
    · exact ⟨(e.1, a), textEntry_eq_ok.mpr (Prod.ext rfl hown)⟩
  obtain ⟨kept', hkept'⟩ := exists_mapM hkept
  have hmenv' : manifestEnv (config.workflow (.assignAll pairs')) = .ok (.assignAll kept') := by
    unfold manifestEnv DefineWorkflowConfig.workflow
    rw [hkept']
    rfl
  refine exists_bundle hresolved' hmenv' hvalid ?_
  intro name hname
  rw [OrderedMap.read_set]
  split
  · rfl
  · obtain ⟨ciphertext, hsealed⟩ := (bundled_of_bundle h).present name hname
    unfold sealBinding at hsealed
    cases hread : env.read name with
    | none =>
      rw [hread] at hsealed
      cases hsealed
    | some v => rfl

end Bundled

end WorkflowEngine.Sdk
