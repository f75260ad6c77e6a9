import WorkflowEngine.Runtime.UploadEvents

/-!
# The upload handler

`createUploadHandler` of `api/upload.ts`: the bytes of one request, its files, the check of the secrets, the
registration and the events. Gunzip and tar, the schema of the manifest, and what backends, storage and event
store answer are parameters.
-/

namespace WorkflowEngine.Runtime.UploadHandler

open Lib
set_option autoImplicit false

variable {Z B : Type}

/-! ## Archives -/

structure TarEntry where
  isFile : Bool
  name : String
  content : String
  size : Nat

/-- `decode` is `none` for bytes that are not a gzip tar archive. -/
structure UploadDeps (Z B : Type) where
  options : WorkflowRegistryOptions Z
  schema : JsValue → Except String Manifest
  syntaxError : String → String
  decode : B → Option (List TarEntry)
  hasStorage : Bool

def maxDecompressedBytes : Nat := 10485760

def totalBytes (entries : List TarEntry) : Nat := ((entries.filter (·.isFile)).map (·.size)).sum

def filesOf (entries : List TarEntry) : OrderedMap String String :=
  (entries.filter (·.isFile)).foldl (fun files e => files.set e.name e.content) .empty

def extractOwnerTarGz (d : UploadDeps Z B) (bytes : B) : Option (OrderedMap String String) :=
  match d.decode bytes with
  | none => none
  | some entries => if maxDecompressedBytes < totalBytes entries then none else some (filesOf entries)

/-! ## Manifests and their secrets -/

/-- `JSON.parse`, then `ManifestSchema.parse`. -/
def UploadDeps.parseManifest (d : UploadDeps Z B) (raw : String) : Except String Manifest :=
  match jsonParse raw.toList with
  | none => .error (d.syntaxError raw)
  | some parsed => d.schema parsed

def UploadDeps.registryOptions (d : UploadDeps Z B) : WorkflowRegistryOptions Z :=
  { d.options with parseManifest := d.parseManifest }

inductive SecretsVerifyFailure where
  | unknownSecretKeyId (workflow keyId : String)
  | secretDecryptFailed (workflow envName : String)
  deriving DecidableEq

def verifyWorkflowSecrets (keyStore : SecretsKeyStore) (workflow : WorkflowManifest) :
    Option SecretsVerifyFailure :=
  match workflow.secrets, workflow.secretsKeyId with
  | some secrets, some keyId =>
    if (keyStore.lookup keyId).isNone then some (.unknownSecretKeyId workflow.name keyId)
    else
      (secrets.entries.find? fun e => !(decryptSealed e.2 keyId keyStore).isOk).map fun e =>
        .secretDecryptFailed workflow.name e.1
  | _, _ => none

def verifyManifestSecrets (manifest : Manifest) (keyStore : SecretsKeyStore) : Option SecretsVerifyFailure :=
  manifest.workflows.findSome? (verifyWorkflowSecrets keyStore)

/-- An error is what `JSON.parse` throws. -/
def verifySecretsIfPresent (d : UploadDeps Z B) (files : OrderedMap String String) :
    Except String (Option SecretsVerifyFailure) :=
  match files.get? "manifest.json" with
  | none => .ok none
  | some manifestRaw =>
    match jsonParse manifestRaw.toList with
    | none => .error (d.syntaxError manifestRaw)
    | some parsed =>
      match d.schema parsed with
      | .error _ => .ok none
      | .ok manifest => .ok (verifyManifestSecrets manifest d.options.keyStore)

/-! ## Responses -/

structure Response where
  status : Nat
  body : Option JsValue

def jsonResponse (status : Nat) (fields : List (String × JsValue)) : Response := ⟨status, some (.object fields)⟩

def unsupportedMediaType : Response :=
  jsonResponse 415 [("error", .string "Not a valid gzip/tar archive")]

def secretsResponse (owner : String) : SecretsVerifyFailure → Response
  | .unknownSecretKeyId workflow keyId =>
    jsonResponse 400 [("error", .string "unknown_secret_key_id"), ("owner", .string owner),
      ("workflow", .string workflow), ("keyId", .string keyId)]
  | .secretDecryptFailed workflow envName =>
    jsonResponse 400 [("error", .string "secret_decrypt_failed"), ("owner", .string owner),
      ("workflow", .string workflow), ("envName", .string envName)]

def configErrorValue (e : TriggerConfigError) : JsValue :=
  .object [("backend", .string e.backend.toString), ("trigger", .string e.trigger), ("message", .string e.message)]

def infraErrorValue (e : BackendInfraError) : JsValue :=
  .object [("backend", .string e.backend.toString), ("message", .string e.message)]

def secretFailureValue (f : String × List String) : JsValue :=
  .object [("workflow", .string f.1), ("missing", .array (f.2.map .string))]

def failureResponse (failure : RegisterFailure) : Response :=
  let error := ("error", .string failure.error)
  match failure with
  | .prepare (.secretRefUnresolved failures) =>
    jsonResponse 400 [error, ("failures", .array (failures.map secretFailureValue))]
  | .backends (first :: rest) infraErrors =>
    jsonResponse 400 ([error, ("errors", .array ((first :: rest).map configErrorValue))] ++
      if infraErrors.isEmpty then [] else [("infra_errors", .array (infraErrors.map infraErrorValue))])
  | .backends [] infraErrors => jsonResponse 500 [error, ("errors", .array (infraErrors.map infraErrorValue))]
  | _ => jsonResponse 422 [error]

/-! ## The handler -/

structure UploadServer (Z B : Type) where
  registry : Registry Z B
  rows : List (InvocationEvent JsValue)

/-- For each workflow how `hasUploadEvent` fails, if it does, and what becomes of its event. -/
structure EmitOutcomes where
  readFails : String → Option String
  stored : String → Bool
  id : String → String
  atIso : String → String

structure RequestOutcomes where
  register : UploadOutcomes
  emit : EmitOutcomes

section Handler
variable (d : UploadDeps Z B) (outcomes : RequestOutcomes) (owner repo : String) (user : DispatchUser)

/-- The loop of `emitUploadEvents`; only a read of the event store can throw out of it. -/
def emitUploadEvents (files : OrderedMap String String) :
    List WorkflowManifest → List (InvocationEvent JsValue) → List (InvocationEvent JsValue) × Except String Unit
  | [], rows => (rows, .ok ())
  | wf :: wfs, rows =>
    match outcomes.emit.readFails wf.name with
    | some message => (rows, .error message)
    | none =>
      if hasUploadEvent rows owner repo wf.name wf.sha || !outcomes.emit.stored wf.name then
        emitUploadEvents files wfs rows
      else
        let event := systemUpload owner repo wf (uploadSnapshot files wf.name) user (outcomes.emit.id wf.name)
          (outcomes.emit.atIso wf.name)
        emitUploadEvents files wfs (rows ++ [event])

def registerAndEmit (s : UploadServer Z B) (files : OrderedMap String String) (bytes : B) :
    UploadServer Z B × Except String Response :=
  let (registry, result) := s.registry.registerOwner d.registryOptions outcomes.register owner repo files
    (if d.hasStorage then some bytes else none)
  match result with
  | .error thrown => ({ s with registry := registry }, .error thrown)
  | .ok (.failed failure) => ({ s with registry := registry }, .ok (failureResponse failure))
  | .ok (.ok _) =>
    let listed := (registry.list owner repo).map (·.workflow)
    match emitUploadEvents outcomes owner repo user files listed s.rows with
    | (rows, .error thrown) => (⟨registry, rows⟩, .error thrown)
    | (rows, .ok ()) => (⟨registry, rows⟩, .ok ⟨204, none⟩)

/-- The server after the request and the answer; an error is thrown. -/
def uploadHandler (s : UploadServer Z B) (bytes : B) : UploadServer Z B × Except String Response :=
  match extractOwnerTarGz d bytes with
  | none => (s, .ok unsupportedMediaType)
  | some files =>
    match verifySecretsIfPresent d files with
    | .error thrown => (s, .error thrown)
    | .ok (some failure) => (s, .ok (secretsResponse owner failure))
    | .ok none => registerAndEmit d outcomes owner repo user s files bytes

end Handler

/-! ## The documented answer -/

/-- What the files of an archive call for, before anything is changed: the secrets come before the modules. -/
inductive Verdict (Z : Type) where
  | manifest
  | secrets
  | accepted (state : OwnerRepoState Z)

/-- The manifest of an archive, if it has one that is JSON and passes the schema. -/
def manifestOf (d : UploadDeps Z B) (files : OrderedMap String String) : Option Manifest :=
  match files.get? "manifest.json" with
  | none => none
  | some raw => (d.parseManifest raw).toOption

def verdict (d : UploadDeps Z B) (owner repo : String) (files : OrderedMap String String) : Verdict Z :=
  match manifestOf d files with
  | none => .manifest
  | some manifest =>
    if (verifyManifestSecrets manifest d.options.keyStore).isSome then .secrets
    else
      match prepareOwnerRepoState d.registryOptions owner repo files with
      | .ok (.ok state) => .accepted state
      | .ok (.error (.secretRefUnresolved _)) => .secrets
      | _ => .manifest

section Documented
variable (d : UploadDeps Z B) (outcomes : RequestOutcomes) (owner repo : String)

/-- The storage took the archive, or there is none. -/
def writeOk : Bool := !d.hasStorage || outcomes.register.write.isOk

def deletesOk (r : Registry Z B) (state : OwnerRepoState Z) : Bool :=
  (rejection outcomes.register.delete (r.queueDiff owner repo state)).isOk

def serverStatus (r : Registry Z B) (state : OwnerRepoState Z) : Nat :=
  match aggregate d.options.backends outcomes.register.reconfigure with
  | some (userErrors, _) => if userErrors.isEmpty then 500 else 400
  | none => if writeOk d outcomes && deletesOk outcomes owner repo r state then 204 else 500

def documentedStatus (r : Registry Z B) (bytes : B) : Nat :=
  match d.decode bytes with
  | none => 415
  | some entries =>
    match verdict d owner repo (filesOf entries) with
    | .manifest => 422
    | .secrets => 400
    | .accepted state => serverStatus d outcomes owner repo r state

/-- The request changes something only where its archive is accepted. -/
def Accepted (bytes : B) : Prop :=
  ∃ entries state, d.decode bytes = some entries ∧ verdict d owner repo (filesOf entries) = .accepted state

/-- The handler answers, with the documented status, and a request that is not accepted changes nothing. -/
structure AsDocumented (user : DispatchUser) (s : UploadServer Z B) (bytes : B) : Prop where
  answers : ∃ response, (uploadHandler d outcomes owner repo user s bytes).2 = .ok response ∧
    response.status = documentedStatus d outcomes owner repo s.registry bytes
  unchanged : ¬ Accepted d owner repo bytes → (uploadHandler d outcomes owner repo user s bytes).1 = s

/-- The requests that the handler answers so. -/
structure Served (r : Registry Z B) (bytes : B) : Prop where
  size : ∀ entries, d.decode bytes = some entries → totalBytes entries ≤ maxDecompressedBytes
  json : ∀ entries raw, d.decode bytes = some entries → (filesOf entries).get? "manifest.json" = some raw →
    (jsonParse raw.toList).isSome = true
  server : ∀ entries state, d.decode bytes = some entries → verdict d owner repo (filesOf entries) = .accepted state →
    aggregate d.options.backends outcomes.register.reconfigure = none →
    writeOk d outcomes = true ∧ deletesOk outcomes owner repo r state = true ∧
      ∀ wf ∈ state.workflows.values, outcomes.emit.readFails wf.name = none

end Documented

/-! ## Secrets that verify can be decrypted -/

theorem exists_decrypted {keyId : String} {keyStore : SecretsKeyStore} {entries : List (String × String)}
    (h : ∀ e ∈ entries, (decryptSealed e.2 keyId keyStore).isOk = true) (out : OrderedMap String String) :
    ∃ store, entries.foldlM (fun out e => do
      let plaintext ← decryptSealed e.2 keyId keyStore
      return out.set e.1 plaintext) out = .ok store := by
  induction entries generalizing out with
  | nil => exact ⟨out, rfl⟩
  | cons e entries ih =>
    obtain ⟨hfirst, hrest⟩ := List.forall_mem_cons.mp h
    cases hplain : decryptSealed e.2 keyId keyStore with
    | error message =>
      rw [hplain] at hfirst
      cases hfirst
    | ok plaintext =>
      obtain ⟨store, hstore⟩ := ih hrest (out.set e.1 plaintext)
      refine ⟨store, ?_⟩
      rw [List.foldlM_cons, hplain]
      exact hstore

theorem exists_decryptWorkflowSecrets {keyStore : SecretsKeyStore} {wf : WorkflowManifest}
    (h : verifyWorkflowSecrets keyStore wf = none) : ∃ store, decryptWorkflowSecrets wf keyStore = .ok store := by
  unfold decryptWorkflowSecrets
  cases hsecrets : wf.secrets with
  | none => exact ⟨.empty, rfl⟩
  | some secrets =>
    cases hkeyId : wf.secretsKeyId with
    | none => exact ⟨.empty, rfl⟩
    | some keyId =>
      simp only [verifyWorkflowSecrets, hsecrets, hkeyId] at h
      split at h
      · cases h
      · rw [Option.map_eq_none_iff, List.find?_eq_none] at h
        exact exists_decrypted (by simpa using h) .empty

theorem exists_build {options : WorkflowRegistryOptions Z} {owner repo : String}
    {files : OrderedMap String String} (wfs : List WorkflowManifest)
    (h : ∀ wf ∈ wfs, ∃ store, decryptWorkflowSecrets wf options.keyStore = .ok store) (state : OwnerRepoState Z)
    (failures : List (String × List String)) :
    ∃ result, buildOwnerRepoStateFrom options owner repo files wfs state failures = .ok result := by
  induction wfs generalizing state failures with
  | nil => exact ⟨_, rfl⟩
  | cons wf wfs ih =>
    obtain ⟨⟨store, hstore⟩, hrest⟩ := List.forall_mem_cons.mp h
    unfold buildOwnerRepoStateFrom
    cases files.get? wf.module with
    | none => exact ih hrest state failures
    | some bundleSource =>
      have hdescriptors : buildDescriptors options wf =
          .ok (buildDescriptorsFrom options wf.name store wf.triggers [] []) := by
        rw [buildDescriptors, hstore]
        rfl
      simp only [hdescriptors]
      cases hbuilt : buildDescriptorsFrom options wf.name store wf.triggers [] [] with
      | ok descriptors => exact ih hrest _ failures
      | error message => exact ⟨_, rfl⟩
      | missing names => exact ih hrest state _

/-! ## Before anything is changed -/

section Rejected
variable {d : UploadDeps Z B} {owner repo : String} {files : OrderedMap String String}

/-- With verified secrets the registration does not throw. -/
theorem exists_prepared (owner repo : String) {manifest : Manifest} (hmanifest : manifestOf d files = some manifest)
    (hverified : verifyManifestSecrets manifest d.options.keyStore = none) :
    ∃ result, prepareOwnerRepoState d.registryOptions owner repo files = .ok result := by
  cases hraw : files.get? "manifest.json" with
  | none => simp [manifestOf, hraw] at hmanifest
  | some raw =>
    simp only [manifestOf, hraw] at hmanifest
    have hparsed : d.registryOptions.parseManifest raw = .ok manifest := by
      cases hparse : d.parseManifest raw with
      | error message =>
        rw [hparse] at hmanifest
        cases hmanifest
      | ok m =>
        rw [hparse] at hmanifest
        cases hmanifest
        exact hparse
    simp only [prepareOwnerRepoState, hraw, hparsed]
    split
    · exact ⟨_, rfl⟩
    · refine exists_build manifest.workflows ?_ .empty []
      intro wf hwf
      exact exists_decryptWorkflowSecrets (List.findSome?_eq_none_iff.mp hverified wf hwf)

/-- Without a manifest the registration returns a failure that is not about secrets. -/
theorem prepared_of_manifestOf_none (owner repo : String) (h : manifestOf d files = none) :
    ∃ failure, prepareOwnerRepoState d.registryOptions owner repo files = .ok (.error failure) ∧
      (failureResponse (.prepare failure)).status = 422 := by
  cases hraw : files.get? "manifest.json" with
  | none =>
    simp only [prepareOwnerRepoState, hraw]
    exact ⟨_, rfl, rfl⟩
  | some raw =>
    simp only [manifestOf, hraw] at h
    cases hparse : d.parseManifest raw with
    | ok m =>
      rw [hparse] at h
      cases h
    | error message =>
      have hparsed : d.registryOptions.parseManifest raw = .error message := hparse
      simp only [prepareOwnerRepoState, hraw, hparsed]
      exact ⟨_, rfl, rfl⟩

end Rejected

section Flow
variable {d : UploadDeps Z B} {outcomes : RequestOutcomes} {owner repo : String} {user : DispatchUser}
  {s : UploadServer Z B} {bytes : B} {files : OrderedMap String String}

theorem extract_of_size {entries : List TarEntry} (hdecode : d.decode bytes = some entries)
    (hsize : totalBytes entries ≤ maxDecompressedBytes) : extractOwnerTarGz d bytes = some (filesOf entries) := by
  simp [extractOwnerTarGz, hdecode, Nat.not_lt.mpr hsize]

theorem verifySecrets_of_json
    (hjson : ∀ raw, files.get? "manifest.json" = some raw → (jsonParse raw.toList).isSome = true) :
    verifySecretsIfPresent d files =
      .ok ((manifestOf d files).bind (verifyManifestSecrets · d.options.keyStore)) := by
  unfold verifySecretsIfPresent manifestOf
  cases hraw : files.get? "manifest.json" with
  | none => rfl
  | some raw =>
    obtain ⟨parsed, hparsed⟩ := Option.isSome_iff_exists.mp (hjson raw hraw)
    simp only [UploadDeps.parseManifest, hparsed]
    cases d.schema parsed with
    | error message => rfl
    | ok manifest => rfl

theorem verifySecrets_of_text {raw : String} (hraw : files.get? "manifest.json" = some raw)
    (hjson : jsonParse raw.toList = none) : verifySecretsIfPresent d files = .error (d.syntaxError raw) := by
  simp only [verifySecretsIfPresent, hraw, hjson]

section Answered
variable {registry : Registry Z B}

theorem registerAndEmit_failed {failure : RegisterFailure}
    (h : s.registry.registerOwner d.registryOptions outcomes.register owner repo files
      (if d.hasStorage then some bytes else none) = (registry, .ok (.failed failure))) :
    registerAndEmit d outcomes owner repo user s files bytes =
      ({ s with registry := registry }, .ok (failureResponse failure)) := by
  simp only [registerAndEmit, h]

theorem registerAndEmit_ok {workflows : List String}
    (h : s.registry.registerOwner d.registryOptions outcomes.register owner repo files
      (if d.hasStorage then some bytes else none) = (registry, .ok (.ok workflows))) :
    registerAndEmit d outcomes owner repo user s files bytes =
      (let emitted := emitUploadEvents outcomes owner repo user files
        ((registry.list owner repo).map (·.workflow)) s.rows
       (⟨registry, emitted.1⟩, emitted.2.map fun _ => ⟨204, none⟩)) := by
  simp only [registerAndEmit, h]
  rcases hemit : emitUploadEvents outcomes owner repo user files ((registry.list owner repo).map (·.workflow))
    s.rows with ⟨rows, result⟩
  rw [hemit]
  cases result with
  | error thrown => rfl
  | ok u => rfl

end Answered

theorem registerAndEmit_rejected {failure : PrepareFailure}
    (h : prepareOwnerRepoState d.registryOptions owner repo files = .ok (.error failure)) :
    registerAndEmit d outcomes owner repo user s files bytes = (s, .ok (failureResponse (.prepare failure))) := by
  refine registerAndEmit_failed ?_
  simp only [Registry.registerOwner, h]

theorem failureResponse_backends_status (userErrors : List TriggerConfigError)
    (infraErrors : List BackendInfraError) :
    (failureResponse (.backends userErrors infraErrors)).status = if userErrors.isEmpty then 500 else 400 := by
  cases userErrors <;> rfl

theorem emit_ok_iff (wfs : List WorkflowManifest) (rows : List (InvocationEvent JsValue)) :
    (emitUploadEvents outcomes owner repo user files wfs rows).2 = .ok () ↔
      ∀ wf ∈ wfs, outcomes.emit.readFails wf.name = none := by
  induction wfs generalizing rows with
  | nil => simp [emitUploadEvents]
  | cons wf wfs ih =>
    unfold emitUploadEvents
    rw [List.forall_mem_cons]
    cases hread : outcomes.emit.readFails wf.name with
    | some message => simp
    | none =>
      simp only [true_and]
      split
      · exact ih rows
      · exact ih _

/-- After the backends have been given the entries. -/
theorem registerAndEmit_refused {state : OwnerRepoState Z} {userErrors : List TriggerConfigError}
    {infraErrors : List BackendInfraError}
    (h : prepareOwnerRepoState d.registryOptions owner repo files = .ok (.ok state))
    (hbackends : aggregate d.options.backends outcomes.register.reconfigure = some (userErrors, infraErrors)) :
    (registerAndEmit d outcomes owner repo user s files bytes).2 =
      .ok (failureResponse (.backends userErrors infraErrors)) := by
  have hsame : aggregate d.registryOptions.backends outcomes.register.reconfigure = some (userErrors, infraErrors) :=
    hbackends
  have hregister : s.registry.registerOwner d.registryOptions outcomes.register owner repo files
      (if d.hasStorage then some bytes else none) =
        (s.registry.reconfigureBackends d.options.backends outcomes.register.reconfigure owner repo state,
          .ok (.failed (.backends userErrors infraErrors))) := by
    simp only [Registry.registerOwner, h, hsame]
    rfl
  rw [registerAndEmit_failed hregister]

theorem registerOwner_of_backends {state : OwnerRepoState Z} (r : Registry Z B) (tarballBytes : Option B)
    (h : prepareOwnerRepoState d.registryOptions owner repo files = .ok (.ok state))
    (hbackends : aggregate d.options.backends outcomes.register.reconfigure = none) :
    ∃ r' : Registry Z B, r'.ownerStates = r.ownerStates ∧
      r.registerOwner d.registryOptions outcomes.register owner repo files tarballBytes =
        ((r'.persistAndSwap outcomes.register owner repo state tarballBytes).1,
          .ok (r'.persistAndSwap outcomes.register owner repo state tarballBytes).2) := by
  have hsame : aggregate d.registryOptions.backends outcomes.register.reconfigure = none := hbackends
  refine ⟨r.reconfigureBackends d.registryOptions.backends outcomes.register.reconfigure owner repo state,
    (Registry.reconfigureBackends_frame _ _ _ _ _ _).1, ?_⟩
  simp only [Registry.registerOwner, h, hsame]

theorem persistAndSwap_writeFailed {r : Registry Z B} {state : OwnerRepoState Z}
    (hwrite : writeOk d outcomes = false) :
    ∃ message, r.persistAndSwap outcomes.register owner repo state (if d.hasStorage then some bytes else none) =
      (r, .failed (.persist message)) := by
  unfold writeOk at hwrite
  simp only [Bool.or_eq_false_iff, Bool.not_eq_false'] at hwrite
  obtain ⟨hstorage, hfailed⟩ := hwrite
  rw [if_pos hstorage, Registry.persistAndSwap]
  cases hw : outcomes.register.write with
  | error message => exact ⟨message, rfl⟩
  | ok u =>
    rw [hw] at hfailed
    cases hfailed

/-- The registry from which the queue lifecycle starts. -/
theorem persistAndSwap_written {r : Registry Z B} {state : OwnerRepoState Z} (hwrite : writeOk d outcomes = true) :
    ∃ r' : Registry Z B, r'.ownerStates = r.ownerStates ∧
      r.persistAndSwap outcomes.register owner repo state (if d.hasStorage then some bytes else none) =
        r'.applyQueueLifecycle outcomes.register.delete owner repo state := by
  unfold writeOk at hwrite
  cases hstorage : d.hasStorage with
  | false => exact ⟨r, rfl, rfl⟩
  | true =>
    simp only [hstorage, Bool.not_true, Bool.false_or] at hwrite
    rw [if_pos rfl, Registry.persistAndSwap]
    cases hw : outcomes.register.write with
    | error message =>
      rw [hw] at hwrite
      cases hwrite
    | ok u => exact ⟨r.persistTarball owner repo bytes, rfl, rfl⟩

theorem deletesOk_congr {r r' : Registry Z B} (h : r'.ownerStates = r.ownerStates) (state : OwnerRepoState Z) :
    deletesOk outcomes owner repo r' state = deletesOk outcomes owner repo r state := by
  unfold deletesOk
  rw [Registry.queueDiff_congr h]

theorem applyQueueLifecycle_of_deletes {r : Registry Z B} {state : OwnerRepoState Z}
    (hdeletes : deletesOk outcomes owner repo r state = true) :
    ∃ registry, registry.getRepoState owner repo = some state ∧
      r.applyQueueLifecycle outcomes.register.delete owner repo state = (registry, .ok state.workflows.keys) := by
  unfold deletesOk at hdeletes
  cases hrejection : rejection outcomes.register.delete (r.queueDiff owner repo state) with
  | error message =>
    rw [hrejection] at hdeletes
    cases hdeletes
  | ok u =>
    simp only [Registry.applyQueueLifecycle, hrejection]
    exact ⟨_, by rw [Registry.getRepoState_setRepoState, if_pos ⟨rfl, rfl⟩], rfl⟩

theorem applyQueueLifecycle_of_failed {r : Registry Z B} {state : OwnerRepoState Z}
    (hdeletes : deletesOk outcomes owner repo r state = false) :
    ∃ registry message, r.applyQueueLifecycle outcomes.register.delete owner repo state =
      (registry, .failed (.queueLifecycle message)) := by
  unfold deletesOk at hdeletes
  cases hrejection : rejection outcomes.register.delete (r.queueDiff owner repo state) with
  | error message =>
    simp only [Registry.applyQueueLifecycle, hrejection]
    exact ⟨_, message, rfl⟩
  | ok u =>
    rw [hrejection] at hdeletes
    cases hdeletes

/-- After the backends have taken the entries, a failure is answered 422 although it is the server's. -/
theorem registerAndEmit_unwritten {state : OwnerRepoState Z}
    (h : prepareOwnerRepoState d.registryOptions owner repo files = .ok (.ok state))
    (hbackends : aggregate d.options.backends outcomes.register.reconfigure = none)
    (hfailed : (writeOk d outcomes && deletesOk outcomes owner repo s.registry state) = false) :
    ∃ response, (registerAndEmit d outcomes owner repo user s files bytes).2 = .ok response ∧
      response.status = 422 := by
  obtain ⟨r, hr, hregister⟩ := registerOwner_of_backends s.registry
    (if d.hasStorage then some bytes else none) h hbackends
  cases hwrite : writeOk d outcomes with
  | false =>
    obtain ⟨message, hresult⟩ := persistAndSwap_writeFailed hwrite
    rw [hresult] at hregister
    exact ⟨_, congrArg Prod.snd (registerAndEmit_failed hregister), rfl⟩
  | true =>
    obtain ⟨r', hr', hswap⟩ := persistAndSwap_written hwrite
    have hdeletes : deletesOk outcomes owner repo r' state = false := by
      rw [deletesOk_congr (hr'.trans hr)]
      simpa only [hwrite, Bool.true_and] using hfailed
    obtain ⟨registry, message, hresult⟩ := applyQueueLifecycle_of_failed hdeletes
    rw [hswap, hresult] at hregister
    exact ⟨_, congrArg Prod.snd (registerAndEmit_failed hregister), rfl⟩

theorem registerAndEmit_written {state : OwnerRepoState Z}
    (h : prepareOwnerRepoState d.registryOptions owner repo files = .ok (.ok state))
    (hbackends : aggregate d.options.backends outcomes.register.reconfigure = none)
    (hwrite : writeOk d outcomes = true) (hdeletes : deletesOk outcomes owner repo s.registry state = true) :
    (registerAndEmit d outcomes owner repo user s files bytes).2 =
      (emitUploadEvents outcomes owner repo user files state.workflows.values s.rows).2.map fun _ =>
        ⟨204, none⟩ := by
  obtain ⟨r, hr, hregister⟩ := registerOwner_of_backends s.registry
    (if d.hasStorage then some bytes else none) h hbackends
  obtain ⟨r', hr', hswap⟩ := persistAndSwap_written hwrite
  rw [← deletesOk_congr (hr'.trans hr)] at hdeletes
  obtain ⟨registry, hstate, hresult⟩ := applyQueueLifecycle_of_deletes hdeletes
  rw [hswap, hresult] at hregister
  have hlisted : (registry.list owner repo).map (·.workflow) = state.workflows.values := by
    rw [Registry.list, hstate]
    exact collectForRepo_workflows (whole_of_prepared h) owner repo
  rw [registerAndEmit_ok hregister, hlisted]

/-! ## The answer to an archive -/

section Archive
variable {entries : List TarEntry}

theorem uploadHandler_of_verified (hdecode : d.decode bytes = some entries)
    (hsize : totalBytes entries ≤ maxDecompressedBytes)
    (hjson : ∀ raw, (filesOf entries).get? "manifest.json" = some raw → (jsonParse raw.toList).isSome = true)
    (hverified : ∀ manifest, manifestOf d (filesOf entries) = some manifest →
      verifyManifestSecrets manifest d.options.keyStore = none) :
    uploadHandler d outcomes owner repo user s bytes =
      registerAndEmit d outcomes owner repo user s (filesOf entries) bytes := by
  have hnone : (manifestOf d (filesOf entries)).bind (verifyManifestSecrets · d.options.keyStore) = none := by
    rw [Option.bind_eq_none_iff]
    exact hverified
  simp only [uploadHandler, extract_of_size hdecode hsize, verifySecrets_of_json hjson, hnone]

theorem secretsResponse_status (owner : String) (failure : SecretsVerifyFailure) :
    (secretsResponse owner failure).status = 400 := by
  cases failure <;> rfl

/-- An archive that is not accepted is answered as documented, with nothing changed. -/
theorem uploadHandler_of_rejected (hdecode : d.decode bytes = some entries)
    (hsize : totalBytes entries ≤ maxDecompressedBytes)
    (hjson : ∀ raw, (filesOf entries).get? "manifest.json" = some raw → (jsonParse raw.toList).isSome = true)
    (hrejected : ∀ state, verdict d owner repo (filesOf entries) ≠ .accepted state) :
    ∃ response, uploadHandler d outcomes owner repo user s bytes = (s, .ok response) ∧
      response.status = documentedStatus d outcomes owner repo s.registry bytes := by
  cases hmanifest : manifestOf d (filesOf entries) with
  | none =>
    obtain ⟨failure, hprepared, hstatus⟩ := prepared_of_manifestOf_none owner repo hmanifest
    refine ⟨failureResponse (.prepare failure), ?_, ?_⟩
    · rw [uploadHandler_of_verified hdecode hsize hjson (by simp [hmanifest]), registerAndEmit_rejected hprepared]
    · simp only [documentedStatus, hdecode, verdict, hmanifest, hstatus]
  | some manifest =>
    cases hverify : verifyManifestSecrets manifest d.options.keyStore with
    | some failure =>
      refine ⟨secretsResponse owner failure, ?_, ?_⟩
      · simp only [uploadHandler, extract_of_size hdecode hsize, verifySecrets_of_json hjson, hmanifest,
          Option.bind_some, hverify]
      · simp only [documentedStatus, hdecode, verdict, hmanifest, hverify, Option.isSome_some, if_true,
          secretsResponse_status]
    | none =>
      have hregister : uploadHandler d outcomes owner repo user s bytes =
          registerAndEmit d outcomes owner repo user s (filesOf entries) bytes :=
        uploadHandler_of_verified hdecode hsize hjson (by simpa [hmanifest] using hverify)
      obtain ⟨result, hprepared⟩ := exists_prepared owner repo hmanifest hverify
      cases result with
      | ok state =>
        refine absurd ?_ (hrejected state)
        simp [verdict, hmanifest, hverify, hprepared]
      | error failure =>
        refine ⟨failureResponse (.prepare failure), hregister.trans (registerAndEmit_rejected hprepared), ?_⟩
        simp only [documentedStatus, hdecode, verdict, hmanifest, hverify, hprepared]
        cases failure <;> rfl

theorem prepared_of_accepted {files : OrderedMap String String} {state : OwnerRepoState Z}
    (h : verdict d owner repo files = .accepted state) :
    (∀ manifest, manifestOf d files = some manifest → verifyManifestSecrets manifest d.options.keyStore = none) ∧
      prepareOwnerRepoState d.registryOptions owner repo files = .ok (.ok state) := by
  unfold verdict at h
  split at h
  · cases h
  · rename_i manifest hmanifest
    split at h
    · cases h
    · rename_i hverified
      split at h
      · rename_i hprepared
        cases h
        refine ⟨?_, hprepared⟩
        intro m hm
        rw [hmanifest, Option.some_inj] at hm
        subst hm
        simpa using hverified
      · cases h
      · cases h

/-- What comes of an accepted archive, by what the server does with it. -/
theorem answer_of_accepted (hdecode : d.decode bytes = some entries)
    (hsize : totalBytes entries ≤ maxDecompressedBytes)
    (hjson : ∀ raw, (filesOf entries).get? "manifest.json" = some raw → (jsonParse raw.toList).isSome = true)
    {state : OwnerRepoState Z} (haccepted : verdict d owner repo (filesOf entries) = .accepted state) :
    (∃ response, (uploadHandler d outcomes owner repo user s bytes).2 = .ok response ∧
      response.status = documentedStatus d outcomes owner repo s.registry bytes) ↔
    (aggregate d.options.backends outcomes.register.reconfigure = none →
      writeOk d outcomes = true ∧ deletesOk outcomes owner repo s.registry state = true ∧
        ∀ wf ∈ state.workflows.values, outcomes.emit.readFails wf.name = none) := by
  obtain ⟨hverified, hprepared⟩ := prepared_of_accepted haccepted
  rw [uploadHandler_of_verified hdecode hsize hjson hverified]
  have hdocumented : documentedStatus d outcomes owner repo s.registry bytes =
      serverStatus d outcomes owner repo s.registry state := by
    simp only [documentedStatus, hdecode, haccepted]
  rw [hdocumented]
  cases hbackends : aggregate d.options.backends outcomes.register.reconfigure with
  | some errors =>
    obtain ⟨userErrors, infraErrors⟩ := errors
    refine iff_of_true ⟨_, registerAndEmit_refused hprepared hbackends, ?_⟩ nofun
    rw [failureResponse_backends_status]
    simp only [serverStatus, hbackends]
  | none =>
    cases hserver : writeOk d outcomes && deletesOk outcomes owner repo s.registry state with
    | false =>
      obtain ⟨response, hresponse, hstatus⟩ : ∃ response,
          (registerAndEmit d outcomes owner repo user s (filesOf entries) bytes).2 = .ok response ∧
            response.status = 422 := registerAndEmit_unwritten hprepared hbackends hserver
      refine iff_of_false ?_ ?_
      · rintro ⟨response', hresponse', hstatus'⟩
        rw [hresponse, Except.ok.injEq] at hresponse'
        subst hresponse'
        simp [serverStatus, hbackends, hserver, hstatus] at hstatus'
      · intro hok
        obtain ⟨hwrite, hdeletes, hread⟩ := hok rfl
        simp [hwrite, hdeletes] at hserver
    | true =>
      obtain ⟨hwrite, hdeletes⟩ := Bool.and_eq_true_iff.mp hserver
      rw [registerAndEmit_written hprepared hbackends hwrite hdeletes]
      have hstatus : serverStatus d outcomes owner repo s.registry state = 204 := by
        simp [serverStatus, hbackends, hserver]
      have hemit : (emitUploadEvents outcomes owner repo user (filesOf entries) state.workflows.values s.rows).2 =
          .ok () ↔ ∀ wf ∈ state.workflows.values, outcomes.emit.readFails wf.name = none :=
        emit_ok_iff state.workflows.values s.rows
      rw [hstatus]
      cases hresult : (emitUploadEvents outcomes owner repo user (filesOf entries) state.workflows.values s.rows).2 with
      | error thrown =>
        rw [hresult] at hemit
        refine iff_of_false ?_ ?_
        · rintro ⟨response, hresponse, -⟩
          cases hresponse
        · intro hok
          cases hemit.mpr (hok rfl).2.2
      | ok u =>
        rw [hresult] at hemit
        exact iff_of_true ⟨_, rfl, rfl⟩ fun _ => ⟨hwrite, hdeletes, hemit.mp rfl⟩

end Archive

/-! ## What does not come to an answer -/

theorem documentedStatus_ne_415 {entries : List TarEntry} (hdecode : d.decode bytes = some entries)
    (r : Registry Z B) : documentedStatus d outcomes owner repo r bytes ≠ 415 := by
  simp only [documentedStatus, hdecode, serverStatus]
  repeat' split
  all_goals decide

theorem not_asDocumented_of_size {entries : List TarEntry} (hdecode : d.decode bytes = some entries)
    (hsize : maxDecompressedBytes < totalBytes entries) : ¬ AsDocumented d outcomes owner repo user s bytes := by
  rintro ⟨⟨response, hresponse, hstatus⟩, -⟩
  have hextract : extractOwnerTarGz d bytes = none := by simp [extractOwnerTarGz, hdecode, hsize]
  simp only [uploadHandler, hextract, Except.ok.injEq] at hresponse
  subst hresponse
  exact documentedStatus_ne_415 hdecode s.registry hstatus.symm

theorem not_asDocumented_of_text {entries : List TarEntry} {raw : String} (hdecode : d.decode bytes = some entries)
    (hsize : totalBytes entries ≤ maxDecompressedBytes)
    (hraw : (filesOf entries).get? "manifest.json" = some raw) (hjson : jsonParse raw.toList = none) :
    ¬ AsDocumented d outcomes owner repo user s bytes := by
  rintro ⟨⟨response, hresponse, -⟩, -⟩
  simp only [uploadHandler, extract_of_size hdecode hsize, verifySecrets_of_text hraw hjson] at hresponse
  cases hresponse

/-- The handler answers as documented exactly the requests whose archive is no larger than the limit and whose
manifest is JSON, unless the storage, the queue store or the event store fails. -/
theorem uploadHandler_asDocumented_iff (d : UploadDeps Z B) (outcomes : RequestOutcomes) (owner repo : String)
    (user : DispatchUser) (s : UploadServer Z B) (bytes : B) :
    AsDocumented d outcomes owner repo user s bytes ↔ Served d outcomes owner repo s.registry bytes := by
  cases hdecode : d.decode bytes with
  | none =>
    have hextract : extractOwnerTarGz d bytes = none := by simp [extractOwnerTarGz, hdecode]
    refine iff_of_true ⟨⟨unsupportedMediaType, ?_, ?_⟩, ?_⟩ ⟨?_, ?_, ?_⟩
    · simp only [uploadHandler, hextract]
    · simp only [documentedStatus, hdecode]
      rfl
    · intro _
      simp only [uploadHandler, hextract]
    · simp [hdecode]
    · simp [hdecode]
    · simp [hdecode]
  | some entries =>
    by_cases hsize : totalBytes entries ≤ maxDecompressedBytes
    · by_cases hjson : ∀ raw, (filesOf entries).get? "manifest.json" = some raw →
          (jsonParse raw.toList).isSome = true
      · by_cases haccepted : ∃ state, verdict d owner repo (filesOf entries) = .accepted state
        · obtain ⟨state, haccepted⟩ := haccepted
          constructor
          · intro h
            refine ⟨?_, ?_, ?_⟩
            · simpa [hdecode] using hsize
            · intro entries' raw hentries'
              cases hdecode.symm.trans hentries'
              exact hjson raw
            · intro entries' state' hentries' hstate'
              cases hdecode.symm.trans hentries'
              cases haccepted.symm.trans hstate'
              exact (answer_of_accepted hdecode hsize hjson haccepted).mp h.answers
          · intro h
            exact ⟨(answer_of_accepted hdecode hsize hjson haccepted).mpr (h.server entries state hdecode haccepted),
              fun hnot => absurd ⟨entries, state, hdecode, haccepted⟩ hnot⟩
        · have hrejected : ∀ state, verdict d owner repo (filesOf entries) ≠ .accepted state :=
            not_exists.mp haccepted
          obtain ⟨response, hresponse, hstatus⟩ : ∃ response, uploadHandler d outcomes owner repo user s bytes =
              (s, .ok response) ∧ response.status = documentedStatus d outcomes owner repo s.registry bytes :=
            uploadHandler_of_rejected hdecode hsize hjson hrejected
          refine iff_of_true ⟨⟨response, congrArg Prod.snd hresponse, hstatus⟩,
            fun _ => congrArg Prod.fst hresponse⟩ ⟨?_, ?_, ?_⟩
          · simpa [hdecode] using hsize
          · intro entries' raw hentries'
            cases hdecode.symm.trans hentries'
            exact hjson raw
          · intro entries' state' hentries' hstate'
            cases hdecode.symm.trans hentries'
            exact absurd hstate' (hrejected state')
      · simp only [not_forall, Bool.not_eq_true, Option.isSome_eq_false_iff, Option.isNone_iff_eq_none] at hjson
        obtain ⟨raw, hraw, htext⟩ := hjson
        refine iff_of_false (not_asDocumented_of_text hdecode hsize hraw htext) ?_
        intro h
        have hsome := h.json entries raw hdecode hraw
        rw [htext] at hsome
        cases hsome
    · exact iff_of_false (not_asDocumented_of_size hdecode (Nat.not_le.mp hsize)) fun h =>
        hsize (h.size entries hdecode)

end Flow

/-! ## A manifest that is not JSON -/

def plainDeps : UploadDeps Unit (List TarEntry) where
  options :=
    { keyStore := ⟨fun _ => none⟩, fromJSONSchema := fun _ => .ok (), applyStripMarkers := id
      parseManifest := fun _ => .error "Invalid input", backends := [], backends_nodup := List.nodup_nil }
  schema := fun _ => .error "Invalid input"
  syntaxError := fun _ => "Expected property name or '\x7d' in JSON at position 1"
  decode := some
  hasStorage := true

def successful : RequestOutcomes where
  register := ⟨fun _ => .ok, .ok (), fun _ => .ok ()⟩
  emit := ⟨fun _ => none, fun _ => true, fun name => "evt_" ++ name, fun _ => "2025-01-01T00:00:00.000Z"⟩

def emptyServer : UploadServer Unit (List TarEntry) := ⟨⟨.empty, .empty, .empty, []⟩, []⟩

def braceArchive : List TarEntry := [⟨true, "manifest.json", "\x7b", 1⟩]

theorem brace_manifest_throws :
    documentedStatus plainDeps successful "acme" "api" emptyServer.registry braceArchive = 422 ∧
    (uploadHandler plainDeps successful "acme" "api" ⟨"ana", "ana@acme.dev"⟩ emptyServer braceArchive).2 =
      .error "Expected property name or '\x7d' in JSON at position 1" ∧
    ¬ AsDocumented plainDeps successful "acme" "api" ⟨"ana", "ana@acme.dev"⟩ emptyServer braceArchive := by
  have htext : jsonParse "\x7b".toList = none := by
    rw [← Option.isNone_iff_eq_none]
    decide
  refine ⟨rfl, rfl, ?_⟩
  exact not_asDocumented_of_text (rfl : plainDeps.decode braceArchive = some braceArchive) (by decide) rfl htext

end WorkflowEngine.Runtime.UploadHandler
