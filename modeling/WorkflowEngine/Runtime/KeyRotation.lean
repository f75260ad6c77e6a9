import WorkflowEngine.Runtime.KeyRing

/-!
# A restart with another list of keys

Only decryption reads the key store, and only a workflow with a secret asks it for a
key. So a stored bundle gives the state that it gave before, or its repo is not loaded.
-/

namespace WorkflowEngine.Runtime

open Lib
set_option autoImplicit false

variable {Z B : Type}

/-! ## One workflow -/

/-- The key that the secrets of a workflow are sealed for, if it has any. -/
def WorkflowManifest.sealedFor (wf : WorkflowManifest) : Option String :=
  match wf.secrets, wf.secretsKeyId with
  | some secrets, some keyId => if secrets.entries.isEmpty then none else some keyId
  | _, _ => none

def unknownKeyId (keyId : String) : String := "unknown secretsKeyId \"" ++ keyId ++ "\""

section Workflow
variable {wf : WorkflowManifest} {store store' : SecretsKeyStore}

theorem sealedFor_eq_some {keyId : String} (h : wf.sealedFor = some keyId) :
    ∃ secrets e es, wf.secrets = some secrets ∧ wf.secretsKeyId = some keyId ∧ secrets.entries = e :: es := by
  unfold WorkflowManifest.sealedFor at h
  split at h
  · rename_i secrets keyId' hsecrets hkey
    cases hentries : secrets.entries with
    | nil => simp [hentries] at h
    | cons e es =>
      rw [hentries, List.isEmpty_cons, if_neg Bool.false_ne_true] at h
      cases h
      exact ⟨secrets, e, es, hsecrets, hkey, hentries⟩
  · cases h

theorem decryptWorkflowSecrets_congr (h : ∀ keyId ∈ wf.sealedFor, store'.lookup keyId = store.lookup keyId) :
    decryptWorkflowSecrets wf store' = decryptWorkflowSecrets wf store := by
  unfold decryptWorkflowSecrets
  unfold WorkflowManifest.sealedFor at h
  split
  · rename_i secrets keyId hsecrets hkey
    rw [hsecrets, hkey] at h
    cases hentries : secrets.entries with
    | nil => rfl
    | cons e es =>
      have hlookup := h keyId (by simp [hentries])
      have hsealed : ∀ ciphertext, decryptSealed ciphertext keyId store' = decryptSealed ciphertext keyId store := by
        intro ciphertext
        unfold decryptSealed
        rw [hlookup]
      simp only [hsealed]
  · rfl

theorem decryptWorkflowSecrets_lost {keyId : String} (h : wf.sealedFor = some keyId)
    (hlost : store.lookup keyId = none) : decryptWorkflowSecrets wf store = .error (unknownKeyId keyId) := by
  obtain ⟨secrets, e, es, hsecrets, hkey, hentries⟩ := sealedFor_eq_some h
  have hsealed : decryptSealed e.2 keyId store = .error (unknownKeyId keyId) := by
    unfold decryptSealed
    rw [hlost]
    rfl
  unfold decryptWorkflowSecrets
  rw [hsecrets, hkey]
  dsimp only
  rw [hentries, List.foldlM_cons, hsealed]
  rfl

/-- A workflow that was decrypted found its key. -/
theorem lookup_of_decrypted {keyId : String} (h : wf.sealedFor = some keyId) {plain : OrderedMap String String}
    (hok : decryptWorkflowSecrets wf store = .ok plain) : (store.lookup keyId).isSome = true := by
  cases hlookup : store.lookup keyId with
  | none =>
    rw [decryptWorkflowSecrets_lost h hlookup] at hok
    cases hok
  | some found => rfl

end Workflow

/-! ## One repo -/

def WorkflowRegistryOptions.withKeys (options : WorkflowRegistryOptions Z) (store : SecretsKeyStore) :
    WorkflowRegistryOptions Z := { options with keyStore := store }

/-- No fingerprint stands for two keys. -/
def SecretsKeyStore.Compatible (store store' : SecretsKeyStore) : Prop :=
  ∀ keyId found found', store.lookup keyId = some found → store'.lookup keyId = some found' → found = found'

section Repo
variable {options : WorkflowRegistryOptions Z} {store store' : SecretsKeyStore} {owner repo : String}
  {files : OrderedMap String String}

theorem buildDescriptorsFrom_withKeys (workflowName : String) (plain : OrderedMap String String)
    (entries : List TriggerManifest) (missing : List String) (descriptors : List (TriggerDescriptor Z)) :
    buildDescriptorsFrom (options.withKeys store) workflowName plain entries missing descriptors =
      buildDescriptorsFrom options workflowName plain entries missing descriptors := by
  induction entries generalizing missing descriptors with
  | nil => rfl
  | cons entry entries ih =>
    simp only [buildDescriptorsFrom, ih]
    rfl

theorem buildDescriptors_congr {wf : WorkflowManifest}
    (h : ∀ keyId ∈ wf.sealedFor, store'.lookup keyId = store.lookup keyId) :
    buildDescriptors (options.withKeys store') wf = buildDescriptors (options.withKeys store) wf := by
  have hsame : decryptWorkflowSecrets wf (options.withKeys store').keyStore =
      decryptWorkflowSecrets wf (options.withKeys store).keyStore := decryptWorkflowSecrets_congr h
  simp only [buildDescriptors, buildDescriptorsFrom_withKeys, hsame]

theorem buildDescriptors_lost {wf : WorkflowManifest} {keyId : String} (h : wf.sealedFor = some keyId)
    (hlost : store.lookup keyId = none) :
    buildDescriptors (options.withKeys store) wf = .error (unknownKeyId keyId) := by
  unfold buildDescriptors WorkflowRegistryOptions.withKeys
  rw [decryptWorkflowSecrets_lost h hlost]
  rfl

theorem lookup_of_buildDescriptors {wf : WorkflowManifest} {result : DescriptorsResult Z}
    (h : buildDescriptors (options.withKeys store) wf = .ok result) {keyId : String} (hsealed : wf.sealedFor = some keyId) :
    (store.lookup keyId).isSome = true := by
  obtain ⟨plain, hplain, -⟩ := bind_eq_ok h
  exact lookup_of_decrypted hsealed hplain

theorem buildOwnerRepoStateFrom_kept (wfs : List WorkflowManifest)
    (h : ∀ wf ∈ wfs, ∀ keyId ∈ wf.sealedFor, store'.lookup keyId = store.lookup keyId) (state : OwnerRepoState Z)
    (failures : List (String × List String)) :
    buildOwnerRepoStateFrom (options.withKeys store') owner repo files wfs state failures =
      buildOwnerRepoStateFrom (options.withKeys store) owner repo files wfs state failures := by
  induction wfs generalizing state failures with
  | nil => rfl
  | cons wf wfs ih =>
    have hrest := ih fun w hw => h w (List.mem_cons_of_mem _ hw)
    simp only [buildOwnerRepoStateFrom, buildDescriptors_congr (h wf List.mem_cons_self), hrest]

/-- A registration that goes through finds the key of every workflow. -/
theorem lookup_of_buildOwnerRepoStateFrom (wfs : List WorkflowManifest)
    (hfiles : ∀ wf ∈ wfs, files.has wf.module = true) {state final : OwnerRepoState Z}
    {failures : List (String × List String)}
    (h : buildOwnerRepoStateFrom (options.withKeys store) owner repo files wfs state failures = .ok (.ok final)) :
    ∀ wf ∈ wfs, ∀ keyId ∈ wf.sealedFor, (store.lookup keyId).isSome = true := by
  induction wfs generalizing state failures with
  | nil => nofun
  | cons wf wfs ih =>
    have hrestFiles : ∀ w ∈ wfs, files.has w.module = true := fun w hw => hfiles w (List.mem_cons_of_mem _ hw)
    cases hmodule : files.get? wf.module with
    | none =>
      have hhas := hfiles wf List.mem_cons_self
      rw [OrderedMap.has, hmodule] at hhas
      cases hhas
    | some bundleSource =>
      simp only [buildOwnerRepoStateFrom, hmodule] at h
      cases hbuilt : buildDescriptors (options.withKeys store) wf with
      | error thrown =>
        rw [hbuilt] at h
        cases h
      | ok result =>
        have hrest : ∀ w ∈ wfs, ∀ keyId ∈ w.sealedFor, (store.lookup keyId).isSome = true := by
          rw [hbuilt] at h
          cases result with
          | ok descriptors => exact ih hrestFiles h
          | error message => cases h
          | missing names => exact ih hrestFiles h
        intro w hw keyId hsealed
        rcases List.mem_cons.mp hw with rfl | hw
        · exact lookup_of_buildDescriptors hbuilt hsealed
        · exact hrest w hw keyId hsealed

/-- The first workflow whose key is gone ends the registration. -/
theorem buildOwnerRepoStateFrom_lost (wfs : List WorkflowManifest)
    (hfiles : ∀ wf ∈ wfs, files.has wf.module = true) (hcompatible : store.Compatible store')
    (hlost : ∃ wf ∈ wfs, ∃ keyId ∈ wf.sealedFor, store'.lookup keyId = none) {state final : OwnerRepoState Z}
    {failures : List (String × List String)}
    (h : buildOwnerRepoStateFrom (options.withKeys store) owner repo files wfs state failures = .ok (.ok final)) :
    ∃ keyId, store'.lookup keyId = none ∧
      buildOwnerRepoStateFrom (options.withKeys store') owner repo files wfs state failures = .error (unknownKeyId keyId) := by
  induction wfs generalizing state failures with
  | nil =>
    obtain ⟨wf, hwf, -⟩ := hlost
    cases hwf
  | cons wf wfs ih =>
    have hrestFiles : ∀ w ∈ wfs, files.has w.module = true := fun w hw => hfiles w (List.mem_cons_of_mem _ hw)
    cases hmodule : files.get? wf.module with
    | none =>
      have hhas := hfiles wf List.mem_cons_self
      rw [OrderedMap.has, hmodule] at hhas
      cases hhas
    | some bundleSource =>
      simp only [buildOwnerRepoStateFrom, hmodule] at h ⊢
      by_cases hhead : ∃ keyId ∈ wf.sealedFor, store'.lookup keyId = none
      · obtain ⟨keyId, hsealed, hnone⟩ := hhead
        rw [buildDescriptors_lost hsealed hnone]
        exact ⟨keyId, hnone, rfl⟩
      · have hrestLost : ∃ w ∈ wfs, ∃ keyId ∈ w.sealedFor, store'.lookup keyId = none := by
          obtain ⟨w, hw, hkey⟩ := hlost
          rcases List.mem_cons.mp hw with rfl | hw
          · exact absurd hkey hhead
          · exact ⟨w, hw, hkey⟩
        cases hbuilt : buildDescriptors (options.withKeys store) wf with
        | error thrown =>
          rw [hbuilt] at h
          cases h
        | ok result =>
          -- the key is in both stores, and the same
          have hsame : ∀ keyId ∈ wf.sealedFor, store'.lookup keyId = store.lookup keyId := by
            intro keyId hsealed
            obtain ⟨found, hfound⟩ := Option.isSome_iff_exists.mp (lookup_of_buildDescriptors hbuilt hsealed)
            obtain ⟨found', hfound'⟩ := Option.ne_none_iff_exists'.mp fun hnone => hhead ⟨keyId, hsealed, hnone⟩
            rw [hfound, hfound', hcompatible keyId found found' hfound hfound']
          rw [buildDescriptors_congr hsame, hbuilt]
          rw [hbuilt] at h
          cases result with
          | ok descriptors => exact ih hrestFiles hrestLost h
          | error message => cases h
          | missing names => exact ih hrestFiles hrestLost h

/-- The key store has every key that a workflow of the repo is sealed for. -/
def Keeps (store : SecretsKeyStore) (state : OwnerRepoState Z) : Prop :=
  ∀ name wf, state.workflows.get? name = some wf → ∀ keyId ∈ wf.sealedFor, store.lookup keyId ≠ none

theorem prepareOwnerRepoState_rotated (hcompatible : store.Compatible store') {state : OwnerRepoState Z}
    (h : prepareOwnerRepoState (options.withKeys store) owner repo files = .ok (.ok state)) :
    (Keeps store' state → prepareOwnerRepoState (options.withKeys store') owner repo files = .ok (.ok state)) ∧
      (¬ Keeps store' state → ∃ keyId, store'.lookup keyId = none ∧
        prepareOwnerRepoState (options.withKeys store') owner repo files = .error (unknownKeyId keyId)) := by
  obtain ⟨raw, manifest, hraw, hmanifest, hworkflows⟩ := prepareOwnerRepoState_workflows h
  have hparse : options.parseManifest raw = .ok manifest := hmanifest
  cases hmodules : validateModulesPresent manifest files with
  | some failure =>
    unfold prepareOwnerRepoState at h
    simp only [hraw, hmanifest, hmodules] at h
    cases h
  | none =>
    have hprepare : ∀ store : SecretsKeyStore, prepareOwnerRepoState (options.withKeys store) owner repo files =
        buildOwnerRepoStateFrom (options.withKeys store) owner repo files manifest.workflows .empty [] := by
      intro store
      unfold prepareOwnerRepoState
      simp only [hraw, WorkflowRegistryOptions.withKeys, hparse, hmodules]
    rw [hprepare] at h
    have hfiles := has_of_validateModulesPresent hmodules
    constructor
    · intro hkeeps
      rw [hprepare, buildOwnerRepoStateFrom_kept manifest.workflows, h]
      intro wf hwf keyId hsealed
      have hsome := lookup_of_buildOwnerRepoStateFrom manifest.workflows hfiles h wf hwf keyId hsealed
      obtain ⟨found, hfound⟩ := Option.isSome_iff_exists.mp hsome
      obtain ⟨found', hfound'⟩ := Option.ne_none_iff_exists'.mp
        (hkeeps wf.name wf ((hworkflows wf.name wf).mpr ⟨hwf, rfl⟩) keyId hsealed)
      rw [hfound, hfound', hcompatible keyId found found' hfound hfound']
    · intro hnot
      rw [hprepare]
      apply buildOwnerRepoStateFrom_lost manifest.workflows hfiles hcompatible ?_ h
      by_contra hnone
      apply hnot
      intro name wf hwf keyId hsealed hlookup
      exact hnone ⟨wf, ((hworkflows name wf).mp hwf).1, keyId, hsealed, hlookup⟩

end Repo

/-! ## The restart -/

section Restart
variable {options : WorkflowRegistryOptions Z} {store store' : SecretsKeyStore} {owner repo : String}

/-- The manifest inside a bundle does not depend on the keys. -/
def Bundles.withKeys (bundles : Bundles options B) (store : SecretsKeyStore) : Bundles (options.withKeys store) B where
  extractOwnerTarGz := bundles.extractOwnerTarGz
  declared := bundles.declared
  declared_eq := bundles.declared_eq

theorem recoveredState_rotated (bundles : Bundles options B) (outcomes : RecoverOutcomes)
    (hcompatible : store.Compatible store') (storage : OrderedMap String B) {state : OwnerRepoState Z}
    (h : Registry.recoveredState (options.withKeys store) (bundles.withKeys store) outcomes storage owner repo = some state) :
    (Keeps store' state →
      Registry.recoveredState (options.withKeys store') (bundles.withKeys store') outcomes storage owner repo = some state) ∧
    (¬ Keeps store' state →
      Registry.recoveredState (options.withKeys store') (bundles.withKeys store') outcomes storage owner repo = none) := by
  unfold Registry.recoveredState at h ⊢
  split at h
  · cases h
  · rename_i bytes hbytes
    split at h
    · rename_i files hread hfiles
      split at h
      · rename_i prepared hprepared
        split at h
        · rename_i haggregate
          cases h
          obtain ⟨hkept, hlost⟩ := prepareOwnerRepoState_rotated hcompatible hprepared
          have hfiles' : (bundles.withKeys store').extractOwnerTarGz bytes = .ok files := hfiles
          have haggregate' : (aggregate (options.withKeys store').backends (outcomes.reconfigure owner repo)).isNone = true :=
            haggregate
          simp only [hread, hfiles', haggregate', if_true]
          constructor
          · intro hkeeps
            rw [hkept hkeeps]
          · intro hnot
            obtain ⟨keyId, -, herror⟩ := hlost hnot
            rw [herror]
        · cases h
      · cases h
    · cases h

/-- What a boot has loaded of a repo. -/
theorem getRepoState_recover (options : WorkflowRegistryOptions Z) (bundles : Bundles options B)
    (outcomes : RecoverOutcomes) (storage : OrderedMap String B) (rows : List QueueRow) (owner repo : String) :
    (Registry.recover options bundles outcomes (Registry.boot storage rows)).getRepoState owner repo =
      if Registry.Listed outcomes.listed owner repo then
        Registry.recoveredState options bundles outcomes storage owner repo
      else none := by
  obtain ⟨-, -, hstate⟩ := Registry.recoverAll_fresh options bundles outcomes outcomes.listed outcomes.listed_nodup
    (Registry.boot storage rows) fun _ _ _ => rfl
  have hloaded := hstate owner repo
  unfold Registry.recover
  dsimp only
  split
  · exact hloaded
  · exact hloaded

/-- The keys that the secrets of a repo are sealed for. -/
def SealedFor (state : OwnerRepoState Z) (keyId : String) : Prop :=
  ∃ name wf, state.workflows.get? name = some wf ∧ wf.sealedFor = some keyId

theorem keeps_iff {box : SealedBox} {csv : String} {ring : KeyRing} (hring : createKeyStore box csv = .ok ring)
    (state : OwnerRepoState Z) :
    Keeps (ring.store box) state ↔ ∀ keyId, SealedFor state keyId → keyId ∈ ring.allKeyIds := by
  have hlookup : ∀ keyId, (ring.store box).lookup keyId ≠ none ↔ keyId ∈ ring.allKeyIds := by
    obtain ⟨keys, hkeys, rfl⟩ := createKeyStore_eq_ok_iff.mp hring
    intro keyId
    have hfound := lookup_ringOf hkeys.fingerprints keyId
    simp only [KeyRing.store, ne_eq, Option.map_eq_none_iff, KeyRing.allKeyIds, ringOf, List.mem_map]
    constructor
    · intro hne
      obtain ⟨found, hsome⟩ := Option.ne_none_iff_exists'.mp hne
      obtain ⟨key, hkey, hid, -⟩ := (hfound found).mp hsome
      exact ⟨key, hkey, hid⟩
    · rintro ⟨key, hkey, hid⟩
      have hsome := (hfound (resolveKey box key)).mpr ⟨key, hkey, hid, rfl⟩
      exact fun hnone => nomatch hsome.symm.trans hnone
  simp only [Keeps, hlookup]
  constructor
  · rintro h keyId ⟨name, wf, hwf, hsealed⟩
    exact h name wf hwf keyId hsealed
  · intro h name wf hwf keyId hsealed
    exact h keyId ⟨name, wf, hwf, hsealed⟩

/-- A restart with another list of keys loads a repo as the start before it did, with the same secrets in the same
descriptors, if and only if the list still has every key that the repo is sealed for; else the repo is not loaded. -/
theorem restart_rotated (box : SealedBox) (ring : KeyRing) {csv' : String} {ring' : KeyRing}
    (hring' : createKeyStore box csv' = .ok ring')
    (hone : ∀ keyId key key', ring.lookup keyId = some key → ring'.lookup keyId = some key' → key = key')
    (bundles : Bundles options B) (outcomes : RecoverOutcomes) (storage : OrderedMap String B) (rows rows' : List QueueRow)
    {state : OwnerRepoState Z}
    (h : (Registry.recover (options.withKeys (ring.store box)) (bundles.withKeys (ring.store box)) outcomes
      (Registry.boot storage rows)).getRepoState owner repo = some state) :
    let restarted := (Registry.recover (options.withKeys (ring'.store box)) (bundles.withKeys (ring'.store box)) outcomes
      (Registry.boot storage rows')).getRepoState owner repo
    (restarted = some state ↔ ∀ keyId, SealedFor state keyId → keyId ∈ ring'.allKeyIds) ∧
      (restarted = some state ∨ restarted = none) := by
  have hcompatible : (ring.store box).Compatible (ring'.store box) := by
    intro keyId found found' hfound hfound'
    obtain ⟨key, hkey, rfl⟩ := Option.map_eq_some_iff.mp hfound
    obtain ⟨key', hkey', rfl⟩ := Option.map_eq_some_iff.mp hfound'
    rw [hone keyId key key' hkey hkey']
  rw [getRepoState_recover] at h
  simp only [getRepoState_recover]
  split at h
  · rename_i hlisted
    obtain ⟨hkept, hlost⟩ := recoveredState_rotated bundles outcomes hcompatible storage h
    rw [if_pos hlisted, ← keeps_iff hring']
    by_cases hkeeps : Keeps (ring'.store box) state
    · simp [hkept hkeeps, hkeeps]
    · simp [hlost hkeeps, hkeeps]
  · cases h

end Restart

/-! ### An old key kept and an old key dropped -/

def oldKey : String := "AQEBAQEBAQEBAQEBAQEBAQEBAQEBAQEBAQEBAQEBAQE="

def newKey : String := "AAAAAAAAAAAAAAAAAAAAAAAAAAAAAAAAAAAAAAAAAAA="

def twoKeyBox : SealedBox where
  base64 := fun text => if text = oldKey then List.replicate 32 1 else if text = newKey then List.replicate 32 0 else []
  derivePublicKey := id
  fingerprintSync := fun pk => if pk = List.replicate 32 1 then "00112233aabbccdd" else "6b1e7f0d2c94a853"
  unsealCiphertext := fun _ _ _ => .ok [116]

def oldRing : KeyRing := ringOf twoKeyBox [⟨"k1", List.replicate 32 1⟩]

def bothRing : KeyRing := ringOf twoKeyBox [⟨"k2", List.replicate 32 0⟩, ⟨"k1", List.replicate 32 1⟩]

theorem createKeyStore_both : createKeyStore twoKeyBox ("k2:" ++ newKey ++ ", k1:" ++ oldKey) = .ok bothRing := by
  rfl

theorem lookup_oldRing {keyId : String} {key key' : ResolvedKey} (h : oldRing.lookup keyId = some key)
    (h' : bothRing.lookup keyId = some key') : key = key' := by
  obtain ⟨a, ha, rfl, rfl⟩ := (lookup_ringOf (by decide) _ _).mp h
  obtain ⟨b, hb, hid, rfl⟩ := (lookup_ringOf (by decide) _ _).mp h'
  obtain rfl := List.mem_singleton.mp ha
  rcases List.mem_cons.mp hb with rfl | hb
  · exact absurd hid (by decide)
  · rw [List.mem_singleton.mp hb]

theorem restart_rotated_mailer : ∃ state : OwnerRepoState Unit, SealedFor state "00112233aabbccdd" ∧
    (Registry.recover (rotatedOptions.withKeys (bothRing.store twoKeyBox))
      (sealedBundles.withKeys (bothRing.store twoKeyBox)) quietBoot
      (Registry.boot (OrderedMap.empty.set (repoKey "acme" "site") "tarball") [])).getRepoState "acme" "site" =
        some state := by
  refine ⟨_, ⟨"mailer", sealedManifest, rfl, rfl⟩, (restart_rotated twoKeyBox oldRing createKeyStore_both
    (fun _ _ _ => lookup_oldRing) sealedBundles quietBoot
    (OrderedMap.empty.set (repoKey "acme" "site") "tarball") [] [] rfl).1.mpr ?_⟩
  rintro keyId ⟨name, wf, hwf, hsealed⟩
  change (OrderedMap.empty.set "mailer" sealedManifest).get? name = some wf at hwf
  rw [OrderedMap.get?_set] at hwf
  split at hwf
  · cases hwf
    cases hsealed
    decide
  · cases hwf

end WorkflowEngine.Runtime
