import WorkflowEngine.Lib.Text
import WorkflowEngine.Runtime.Manifest

/-!
# From an uploaded archive to the state of a repo

`prepareOwnerRepoState` of `workflow-registry.ts` and what it calls: manifest
lookup, module check, descriptor construction with secret sentinels resolved and
schemas rehydrated. Everything here is synchronous and touches nothing outside;
a failed decryption is thrown, every other failure is a result.
-/

namespace WorkflowEngine.Runtime

open Lib
set_option autoImplicit false

variable {Z : Type}

/-! ### Secret sentinels -/

def isNameStart (c : Char) : Bool := c.isAlpha || c == '_'

def isNameChar (c : Char) : Bool := c.isAlphanum || c == '_'

def sentinelOpen : List Char := '\x00' :: "secret:".toList

/-- `SENTINEL_SUBSTRING_RE` at the start of `cs`: the name and what follows the match. -/
def matchSentinel (cs : List Char) : Option (List Char × List Char) :=
  if sentinelOpen.isPrefixOf cs then
    let rest := cs.drop sentinelOpen.length
    let name := rest.takeWhile isNameChar
    match name, rest.dropWhile isNameChar with
    | c :: _, '\x00' :: after => if isNameStart c then some (name, after) else none
    | _, _ => none
  else none

/-- `missing.add(name)` on a `Set`. -/
def addMissing (missing : List String) (name : String) : List String :=
  if name ∈ missing then missing else missing ++ [name]

/-- The replacer of `resolveString`, left to right; `fuel` bounds the characters left. -/
def replaceSentinels (store : OrderedMap String String) :
    Nat → List Char → List String → List Char × List String
  | 0, cs, missing => (cs, missing)
  | _ + 1, [], missing => ([], missing)
  | fuel + 1, c :: cs, missing =>
    match matchSentinel (c :: cs) with
    | none =>
      let (out, missing) := replaceSentinels store fuel cs missing
      (c :: out, missing)
    | some (name, after) =>
      match store.get? (String.ofList name) with
      | some plaintext =>
        let (out, missing) := replaceSentinels store fuel after missing
        (plaintext.toList ++ out, missing)
      | none =>
        let (out, missing) :=
          replaceSentinels store fuel after (addMissing missing (String.ofList name))
        (sentinelOpen ++ name ++ '\x00' :: out, missing)

def resolveString (store : OrderedMap String String) (s : String) (missing : List String) :
    String × List String :=
  if includes sentinelOpen s.toList then
    let (out, missing) := replaceSentinels store s.toList.length s.toList missing
    (String.ofList out, missing)
  else (s, missing)

mutual

def resolveSecretSentinels (store : OrderedMap String String) : Json → List String → Json × List String
  | .string s, missing =>
    let (s, missing) := resolveString store s missing
    (.string s, missing)
  | .array items, missing =>
    let (items, missing) := resolveItems store items missing
    (.array items, missing)
  | .object fields, missing =>
    let (fields, missing) := resolveFields store fields missing
    (.object fields, missing)
  | .null, missing => (.null, missing)
  | .bool b, missing => (.bool b, missing)
  | .number text, missing => (.number text, missing)

def resolveItems (store : OrderedMap String String) : List Json → List String → List Json × List String
  | [], missing => ([], missing)
  | v :: vs, missing =>
    let (v, missing) := resolveSecretSentinels store v missing
    let (vs, missing) := resolveItems store vs missing
    (v :: vs, missing)

/-- `out[k] = …` on an ordinary object makes no property of `__proto__`. -/
def resolveFields (store : OrderedMap String String) :
    List (String × Json) → List String → List (String × Json) × List String
  | [], missing => ([], missing)
  | (k, v) :: fields, missing =>
    let (v, missing) := resolveSecretSentinels store v missing
    let (fields, missing) := resolveFields store fields missing
    (if k = "__proto__" then fields else (k, v) :: fields, missing)

end

/-! ### Trigger descriptors -/

/-- `backends` are the kinds of the registered trigger sources, in order. Zod is third party. -/
structure WorkflowRegistryOptions (Z : Type) where
  keyStore : SecretsKeyStore
  fromJSONSchema : Json → Except String Z
  applyStripMarkers : Z → Z
  parseManifest : String → Except String Manifest
  backends : List TriggerKind
  backends_nodup : backends.Nodup := by decide

def TriggerKind.toString : TriggerKind → String
  | .http => "http"
  | .cron => "cron"
  | .manual => "manual"
  | .imap => "imap"
  | .ws => "ws"

structure PreResolveDescriptor where
  kind : TriggerKind
  name : String
  workflowName : String
  config : Json
  inputSchema : Json
  outputSchema : Json

structure TriggerDescriptor (Z : Type) extends PreResolveDescriptor where
  zodInputSchema : Z
  zodOutputSchema : Z

/-- Each builder copies the fields of its kind. -/
def buildPreResolvedDescriptor (workflowName : String) (entry : TriggerManifest) :
    PreResolveDescriptor where
  kind := entry.type
  name := entry.name
  workflowName := workflowName
  config := entry.config
  inputSchema := entry.inputSchema
  outputSchema := entry.outputSchema

/-- The deep walk over a descriptor; no kind contains a sentinel. -/
def PreResolveDescriptor.resolve (d : PreResolveDescriptor) (store : OrderedMap String String)
    (missing : List String) : PreResolveDescriptor × List String :=
  let (name, missing) := resolveString store d.name missing
  let (workflowName, missing) := resolveString store d.workflowName missing
  let (config, missing) := resolveSecretSentinels store d.config missing
  let (inputSchema, missing) := resolveSecretSentinels store d.inputSchema missing
  let (outputSchema, missing) := resolveSecretSentinels store d.outputSchema missing
  (⟨d.kind, name, workflowName, config, inputSchema, outputSchema⟩, missing)

def rehydrateSchema (options : WorkflowRegistryOptions Z) (workflowName triggerName field : String)
    (schema : Json) : Except String Z :=
  match options.fromJSONSchema schema with
  | .ok base => .ok (options.applyStripMarkers base)
  | .error reason =>
    .error ("workflow \"" ++ workflowName ++ "\" trigger \"" ++ triggerName ++ "\" " ++ field ++
      ": failed to rehydrate JSON Schema (" ++ reason ++ ")")

def attachZodSchemas (options : WorkflowRegistryOptions Z) (d : PreResolveDescriptor) :
    Except String (TriggerDescriptor Z) := do
  let zodInputSchema ← rehydrateSchema options d.workflowName d.name "inputSchema" d.inputSchema
  let zodOutputSchema ← rehydrateSchema options d.workflowName d.name "outputSchema" d.outputSchema
  return { d with zodInputSchema := zodInputSchema, zodOutputSchema := zodOutputSchema }

def allowedKind (options : WorkflowRegistryOptions Z) (kind : TriggerKind) : Bool :=
  options.backends.isEmpty || options.backends.contains kind

inductive DescriptorsResult (Z : Type) where
  | ok (descriptors : List (TriggerDescriptor Z))
  | error (message : String)
  | missing (names : List String)

def sortNames (names : List String) : List String := names.mergeSort fun a b => a ≤ b

/-- The loop of `buildDescriptors` over the triggers still to come. -/
def buildDescriptorsFrom (options : WorkflowRegistryOptions Z) (workflowName : String)
    (store : OrderedMap String String) :
    List TriggerManifest → List String → List (TriggerDescriptor Z) → DescriptorsResult Z
  | [], missing, descriptors => if missing.isEmpty then .ok descriptors else .missing (sortNames missing)
  | entry :: entries, missing, descriptors =>
    if allowedKind options entry.type then
      let (resolved, missing) := (buildPreResolvedDescriptor workflowName entry).resolve store missing
      match attachZodSchemas options resolved with
      | .ok d => buildDescriptorsFrom options workflowName store entries missing (descriptors ++ [d])
      | .error message => .error message
    else
      .error ("invalid manifest: unsupported trigger kind \"" ++ entry.type.toString ++ "\" (workflow \"" ++
        workflowName ++ "\" trigger \"" ++ entry.name ++ "\")")

def buildDescriptors (options : WorkflowRegistryOptions Z) (workflow : WorkflowManifest) :
    Except String (DescriptorsResult Z) := do
  let store ← decryptWorkflowSecrets workflow options.keyStore
  return buildDescriptorsFrom options workflow.name store workflow.triggers [] []

/-! ### The state of a repo -/

/-- A descriptor with what its `fire` and `exception` closures close over. -/
structure TriggerEntry (Z : Type) where
  owner : String
  repo : String
  workflow : WorkflowManifest
  descriptor : TriggerDescriptor Z
  bundleSource : String

structure OwnerRepoState (Z : Type) where
  workflows : OrderedMap String WorkflowManifest
  bundleSources : OrderedMap String String
  descriptors : OrderedMap String (List (TriggerDescriptor Z))
  entries : OrderedMap String (TriggerEntry Z)

def OwnerRepoState.empty : OwnerRepoState Z := ⟨.empty, .empty, .empty, .empty⟩

def OwnerRepoState.add (state : OwnerRepoState Z) (owner repo : String) (wf : WorkflowManifest)
    (bundleSource : String) (descriptors : List (TriggerDescriptor Z)) : OwnerRepoState Z where
  workflows := state.workflows.set wf.name wf
  bundleSources := state.bundleSources.set wf.name bundleSource
  descriptors := state.descriptors.set wf.name descriptors
  entries := descriptors.foldl (fun entries d =>
    entries.set (wf.name ++ "/" ++ d.name) ⟨owner, repo, wf, d, bundleSource⟩) state.entries

/-- Why an archive is not registered. -/
inductive PrepareFailure where
  | missingManifest
  | invalidManifest (message : String)
  | missingModule (module : String)
  | descriptors (message : String)
  | secretRefUnresolved (failures : List (String × List String))
  deriving DecidableEq

def PrepareFailure.error : PrepareFailure → String
  | .missingManifest => "missing manifest.json"
  | .invalidManifest message => "invalid manifest: " ++ message
  | .missingModule module => "missing workflow module: " ++ module
  | .descriptors message => message
  | .secretRefUnresolved _ => "secret_ref_unresolved"

/-- The loop of `buildOwnerRepoState` over the workflows still to come. -/
def buildOwnerRepoStateFrom (options : WorkflowRegistryOptions Z) (owner repo : String)
    (files : OrderedMap String String) :
    List WorkflowManifest → OwnerRepoState Z → List (String × List String) →
      Except String (Except PrepareFailure (OwnerRepoState Z))
  | [], state, failures => .ok (if failures.isEmpty then .ok state else .error (.secretRefUnresolved failures))
  | wf :: wfs, state, failures =>
    match files.get? wf.module with
    | none => buildOwnerRepoStateFrom options owner repo files wfs state failures
    | some bundleSource =>
      match buildDescriptors options wf with
      | .error thrown => .error thrown
      | .ok (.missing names) =>
        buildOwnerRepoStateFrom options owner repo files wfs state (failures ++ [(wf.name, names)])
      | .ok (.error message) => .ok (.error (.descriptors message))
      | .ok (.ok descriptors) =>
        buildOwnerRepoStateFrom options owner repo files wfs
          (state.add owner repo wf bundleSource descriptors) failures

def validateModulesPresent (manifest : Manifest) (files : OrderedMap String String) :
    Option PrepareFailure :=
  (manifest.workflows.find? fun wf => !files.has wf.module).map fun wf => .missingModule wf.module

/-- The outer error is thrown, the inner one returned. -/
def prepareOwnerRepoState (options : WorkflowRegistryOptions Z) (owner repo : String)
    (files : OrderedMap String String) : Except String (Except PrepareFailure (OwnerRepoState Z)) :=
  match files.get? "manifest.json" with
  | none => .ok (.error .missingManifest)
  | some manifestRaw =>
    match options.parseManifest manifestRaw with
    | .error message => .ok (.error (.invalidManifest message))
    | .ok manifest =>
      match validateModulesPresent manifest files with
      | some failure => .ok (.error failure)
      | none => buildOwnerRepoStateFrom options owner repo files manifest.workflows .empty []

/-! ### What a prepared state holds -/

theorem has_of_validateModulesPresent {manifest : Manifest} {files : OrderedMap String String}
    (h : validateModulesPresent manifest files = none) :
    ∀ wf ∈ manifest.workflows, files.has wf.module = true := by
  intro wf hwf
  rw [validateModulesPresent, Option.map_eq_none_iff, List.find?_eq_none] at h
  simpa using h wf hwf

theorem workflows_of_buildOwnerRepoStateFrom {options : WorkflowRegistryOptions Z} {owner repo : String}
    {files : OrderedMap String String} (wfs : List WorkflowManifest)
    (hfiles : ∀ wf ∈ wfs, files.has wf.module = true) {state final : OwnerRepoState Z}
    {failures : List (String × List String)}
    (h : buildOwnerRepoStateFrom options owner repo files wfs state failures = .ok (.ok final)) :
    failures = [] ∧ final.workflows = wfs.foldl (fun m wf => m.set wf.name wf) state.workflows := by
  induction wfs generalizing state failures with
  | nil =>
    simp only [buildOwnerRepoStateFrom, Except.ok.injEq] at h
    split at h
    · rename_i hnil
      cases h
      exact ⟨by simpa using hnil, rfl⟩
    · cases h
  | cons wf wfs ih =>
    have hrest : ∀ w ∈ wfs, files.has w.module = true := fun w hw => hfiles w (List.mem_cons_of_mem _ hw)
    have hhas := hfiles wf List.mem_cons_self
    unfold buildOwnerRepoStateFrom at h
    split at h
    · rename_i hnone
      simp [OrderedMap.has, hnone] at hhas
    · split at h
      · cases h
      · -- A workflow with unresolved secrets makes the final result a failure.
        have hne := (ih hrest h).1
        simp at hne
      · cases h
      · obtain ⟨hnil, hworkflows⟩ := ih hrest h
        exact ⟨hnil, hworkflows⟩

/-- A prepared state holds exactly the workflows of the manifest. -/
theorem prepareOwnerRepoState_workflows {options : WorkflowRegistryOptions Z} {owner repo : String}
    {files : OrderedMap String String} {state : OwnerRepoState Z}
    (h : prepareOwnerRepoState options owner repo files = .ok (.ok state)) :
    ∃ raw manifest, files.get? "manifest.json" = some raw ∧ options.parseManifest raw = .ok manifest ∧
      ∀ name wf, state.workflows.get? name = some wf ↔ wf ∈ manifest.workflows ∧ wf.name = name := by
  unfold prepareOwnerRepoState at h
  split at h
  · cases h
  · rename_i raw hraw
    split at h
    · cases h
    · rename_i manifest hmanifest
      split at h
      · cases h
      · rename_i hmodules
        have hbuilt := workflows_of_buildOwnerRepoStateFrom manifest.workflows
          (has_of_validateModulesPresent hmodules) h
        refine ⟨raw, manifest, hraw, hmanifest, ?_⟩
        intro name wf
        rw [hbuilt.2, OrderedMap.get?_foldl_set _ _ _ manifest.names_nodup]
        simp only [OwnerRepoState.empty, OrderedMap.get?_empty, reduceCtorEq, and_false, or_false]
        constructor
        · rintro ⟨x, hx, hname, rfl⟩
          exact ⟨hx, hname⟩
        · rintro ⟨hwf, hname⟩
          exact ⟨wf, hwf, hname, rfl⟩

end WorkflowEngine.Runtime
