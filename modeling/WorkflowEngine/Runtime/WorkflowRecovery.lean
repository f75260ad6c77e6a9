import WorkflowEngine.Runtime.WorkflowRegistry

/-!
# Recovery at boot

`recover` of `workflow-registry.ts`: every listed bundle is read, unpacked and
registered, and then `reconcile` deletes the queue rows that no loaded workflow
declares. A bundle whose recovery fails is only logged, so its queues look
undeclared to the reconciliation although the tarball is still there.
-/

namespace WorkflowEngine.Runtime

open Lib
set_option autoImplicit false

variable {Z B : Type}

/-! ### Keys of persisted bundles -/

def isOwnerChar (c : Char) : Bool := c.isAlphanum || c == '_' || c == '-'

def isRepoChar (c : Char) : Bool := c.isAlphanum || c == '.' || c == '_' || c == '-'

/-- `OWNER_NAME_RE`. -/
def validateOwner (cs : List Char) : Bool :=
  match cs with
  | [] => false
  | c :: rest => c.isAlphanum && rest.all isOwnerChar && rest.length ≤ 62

/-- `REPO_NAME_RE`. -/
def validateRepo (cs : List Char) : Bool := !cs.isEmpty && cs.all isRepoChar && cs.length ≤ 100

/-- `parseRecoverKey` on keys that end in `.tar.gz`: `REPO_KEY_RE`, then the name checks. -/
def parseRecoverKey (key : String) : Option (String × String) :=
  if "workflows/".toList.isPrefixOf key.toList then
    let rest := key.toList.drop "workflows/".toList.length
    let owner := rest.takeWhile (· ≠ '/')
    match rest.dropWhile (· ≠ '/') with
    | '/' :: file =>
      let repo := file.take (file.length - ".tar.gz".toList.length)
      if ".tar.gz".toList.isSuffixOf file && !repo.contains '/' && validateOwner owner && validateRepo repo then
        some (String.ofList owner, String.ofList repo)
      else none
    | _ => none
  else none

theorem eq_repoKey_of_parseRecoverKey {key owner repo : String}
    (h : parseRecoverKey key = some (owner, repo)) : key = repoKey owner repo := by
  unfold parseRecoverKey at h
  split at h
  · rename_i hprefix
    obtain ⟨rest, hrest⟩ := List.isPrefixOf_iff_prefix.mp hprefix
    dsimp only at h
    rw [← hrest, List.drop_left] at h
    split at h
    · rename_i file hfile
      split at h
      · rename_i hcond
        simp only [Bool.and_eq_true] at hcond
        obtain ⟨stem, hstem⟩ := List.isSuffixOf_iff_suffix.mp hcond.1.1.1
        cases h
        have htake : file.take (file.length - ".tar.gz".toList.length) = stem := by
          rw [← hstem, List.length_append, Nat.add_sub_cancel, List.take_left]
        have hsplit : rest = rest.takeWhile (· ≠ '/') ++ '/' :: file := by
          rw [← hfile, List.takeWhile_append_dropWhile]
        apply String.toList_inj.mp
        simp only [repoKey, String.toList_append, String.toList_ofList, htake, List.append_assoc]
        rw [← hrest]
        conv_lhs => rw [hsplit, ← hstem]
        rfl
      · cases h
    · cases h
  · cases h

/-! ### Recovery -/

def Manifest.declared (manifest : Manifest) : List (String × String) :=
  manifest.workflows.flatMap fun wf => (queueNames wf).map fun queue => (wf.name, queue)

/-- `declared` are the workflow and queue names in the manifest inside a tarball, readable or not. -/
structure Bundles (options : WorkflowRegistryOptions Z) (B : Type) where
  extractOwnerTarGz : B → Except String (OrderedMap String String)
  declared : B → List (String × String)
  declared_eq : ∀ bytes files raw manifest, extractOwnerTarGz bytes = .ok files →
    files.get? "manifest.json" = some raw → options.parseManifest raw = .ok manifest →
    declared bytes = manifest.declared

/-- `listed` are the keys that the listing yields before it ends or throws. -/
structure RecoverOutcomes where
  listed : List String
  listed_nodup : listed.Nodup := by decide
  listError : Option String
  read : String → Except String Unit
  reconfigure : String → String → TriggerKind → ReconfigureOutcome
  select : Except String Unit
  delete : DeleteOutcomes

namespace Registry

/-- The registry of a process that has just started. -/
def boot (storage : OrderedMap String B) (rows : List QueueRow) : Registry Z B :=
  ⟨.empty, .empty, storage, rows⟩

section Recover
variable (options : WorkflowRegistryOptions Z) (bundles : Bundles options B) (outcomes : RecoverOutcomes)

/-- A missing key, a read error, a bad archive and a failed or thrown registration all end here. -/
def recoverOne (r : Registry Z B) (key owner repo : String) : Registry Z B :=
  match r.storage.get? key with
  | none => r
  | some bytes =>
    match outcomes.read key with
    | .error _ => r
    | .ok _ =>
      match bundles.extractOwnerTarGz bytes with
      | .error _ => r
      | .ok files =>
        (registerOwner options ⟨outcomes.reconfigure owner repo, .ok (), outcomes.delete⟩ r owner repo
          files none).1

def recoverKey (r : Registry Z B) (key : String) : Registry Z B :=
  match parseRecoverKey key with
  | none => r
  | some (owner, repo) => r.recoverOne options bundles outcomes key owner repo

/-- `snapshotLoadedWorkflows`, flattened as in `reconcileQueueStoreOnBoot`. -/
def loadedTuples (r : Registry Z B) : List QueueScope :=
  r.ownerStates.entries.flatMap fun o => o.2.entries.flatMap fun p =>
    p.2.workflows.entries.flatMap fun w => (queueNames w.2).map fun queue => ⟨o.1, p.1, w.1, queue⟩

def recover (r : Registry Z B) : Registry Z B :=
  let loaded := outcomes.listed.foldl (recoverKey options bundles outcomes) r
  match outcomes.listError with
  | some _ => loaded
  | none =>
    { loaded with rows := reconcile outcomes.select outcomes.delete loaded.loadedTuples loaded.rows }

/-- The state that a readable, valid and installable bundle of the repo gives. -/
def recoveredState (storage : OrderedMap String B) (owner repo : String) : Option (OwnerRepoState Z) :=
  match storage.get? (repoKey owner repo) with
  | none => none
  | some bytes =>
    match outcomes.read (repoKey owner repo), bundles.extractOwnerTarGz bytes with
    | .ok _, .ok files =>
      match prepareOwnerRepoState options owner repo files with
      | .ok (.ok state) =>
        if (aggregate options.backends (outcomes.reconfigure owner repo)).isNone then some state else none
      | _ => none
    | _, _ => none

end Recover

/-- Without a tarball to write and without a previous state nothing but the state can change. -/
theorem registerOwner_fresh (options : WorkflowRegistryOptions Z) (outcomes : UploadOutcomes)
    {r : Registry Z B} {owner repo : String} (files : OrderedMap String String)
    (hfresh : r.getRepoState owner repo = none) :
    (registerOwner options outcomes r owner repo files none).1.storage = r.storage ∧
    (registerOwner options outcomes r owner repo files none).1.rows = r.rows ∧
    ∀ owner' repo', (registerOwner options outcomes r owner repo files none).1.getRepoState owner' repo' =
      match prepareOwnerRepoState options owner repo files with
      | .ok (.ok state) =>
        if (aggregate options.backends outcomes.reconfigure).isNone ∧ owner' = owner ∧ repo' = repo then
          some state
        else r.getRepoState owner' repo'
      | _ => r.getRepoState owner' repo' := by
  unfold registerOwner
  cases hp : prepareOwnerRepoState options owner repo files with
  | error thrown => exact ⟨rfl, rfl, fun _ _ => rfl⟩
  | ok prepared =>
    cases prepared with
    | error failure => exact ⟨rfl, rfl, fun _ _ => rfl⟩
    | ok state =>
      obtain ⟨hstates, hstorage, hrows⟩ :=
        reconfigureBackends_frame r options.backends outcomes.reconfigure owner repo state
      have hsame : ∀ owner' repo', (r.reconfigureBackends options.backends outcomes.reconfigure owner repo
          state).getRepoState owner' repo' = r.getRepoState owner' repo' := by
        intro owner' repo'
        simp only [getRepoState, hstates]
      have hscopes : (r.reconfigureBackends options.backends outcomes.reconfigure owner repo
          state).queueDiff owner repo state = [] := by
        rw [queueDiff_congr hstates]
        simp only [queueDiff, hfresh, Option.map_none, Option.getD_none, diffManifests_empty]
      cases ha : aggregate options.backends outcomes.reconfigure with
      | some errors =>
        refine ⟨hstorage, hrows, ?_⟩
        intro owner' repo'
        simpa using hsame owner' repo'
      | none =>
        simp only [persistAndSwap, applyQueueLifecycle, hscopes, rejection, removeDeclarations,
          List.foldl_nil]
        refine ⟨hstorage, hrows, ?_⟩
        intro owner' repo'
        refine (getRepoState_setRepoState _ _ _ _ _ _).trans ?_
        simp only [Option.isNone_none, true_and]
        split
        · rfl
        · exact hsame owner' repo'

section Recover
variable (options : WorkflowRegistryOptions Z) (bundles : Bundles options B) (outcomes : RecoverOutcomes)

theorem recoverOne_fresh {r : Registry Z B} {owner repo : String}
    (hfresh : r.getRepoState owner repo = none) :
    (r.recoverOne options bundles outcomes (repoKey owner repo) owner repo).storage = r.storage ∧
    (r.recoverOne options bundles outcomes (repoKey owner repo) owner repo).rows = r.rows ∧
    ∀ owner' repo', (r.recoverOne options bundles outcomes (repoKey owner repo) owner repo).getRepoState
        owner' repo' =
      if owner' = owner ∧ repo' = repo then recoveredState options bundles outcomes r.storage owner repo
      else r.getRepoState owner' repo' := by
  have hsame : ∀ owner' repo', r.getRepoState owner' repo' =
      if owner' = owner ∧ repo' = repo then none else r.getRepoState owner' repo' := by
    intro owner' repo'
    split
    · rename_i heq
      rw [heq.1, heq.2, hfresh]
    · rfl
  cases hget : r.storage.get? (repoKey owner repo) with
  | none =>
    simp only [recoverOne, recoveredState, hget]
    exact ⟨trivial, trivial, hsame⟩
  | some bytes =>
    cases hread : outcomes.read (repoKey owner repo) with
    | error message =>
      simp only [recoverOne, recoveredState, hget, hread]
      exact ⟨trivial, trivial, hsame⟩
    | ok u =>
      cases hfiles : bundles.extractOwnerTarGz bytes with
      | error message =>
        simp only [recoverOne, recoveredState, hget, hread, hfiles]
        exact ⟨trivial, trivial, hsame⟩
      | ok files =>
        simp only [recoverOne, recoveredState, hget, hread, hfiles]
        obtain ⟨hstorage, hrows, hstate⟩ := registerOwner_fresh options
          ⟨outcomes.reconfigure owner repo, .ok (), outcomes.delete⟩ files hfresh
        refine ⟨hstorage, hrows, ?_⟩
        intro owner' repo'
        rw [hstate]
        cases prepareOwnerRepoState options owner repo files with
        | error thrown => exact hsame owner' repo'
        | ok prepared =>
          cases prepared with
          | error failure => exact hsame owner' repo'
          | ok state =>
            dsimp only
            by_cases hok : (aggregate options.backends (outcomes.reconfigure owner repo)).isNone = true
            · simp [hok]
            · simp only [hok]
              exact hsame owner' repo'

/-- The listing yields the key of the repo, and the key is taken for one. -/
def Listed (keys : List String) (owner repo : String) : Prop :=
  repoKey owner repo ∈ keys ∧ parseRecoverKey (repoKey owner repo) = some (owner, repo)

instance (keys : List String) (owner repo : String) : Decidable (Listed keys owner repo) :=
  inferInstanceAs (Decidable (_ ∧ _))

theorem listed_cons_skipped {key : String} (hparse : parseRecoverKey key = none) (keys : List String)
    (owner repo : String) : Listed (key :: keys) owner repo ↔ Listed keys owner repo := by
  simp only [Listed, List.mem_cons]
  constructor
  · rintro ⟨heq | hmem, hkey⟩
    · rw [heq, hparse] at hkey
      cases hkey
    · exact ⟨hmem, hkey⟩
  · rintro ⟨hmem, hkey⟩
    exact ⟨Or.inr hmem, hkey⟩

theorem listed_cons_parsed {owner repo : String}
    (hparse : parseRecoverKey (repoKey owner repo) = some (owner, repo)) (keys : List String)
    (owner' repo' : String) :
    Listed (repoKey owner repo :: keys) owner' repo' ↔
      (owner' = owner ∧ repo' = repo) ∨ Listed keys owner' repo' := by
  constructor
  · rintro ⟨hmem, hkey⟩
    rcases List.mem_cons.mp hmem with heq | hmem
    · rw [heq, hparse] at hkey
      cases hkey
      exact Or.inl ⟨rfl, rfl⟩
    · exact Or.inr ⟨hmem, hkey⟩
  · rintro (⟨rfl, rfl⟩ | hlisted)
    · exact ⟨List.mem_cons_self, hparse⟩
    · exact ⟨List.mem_cons_of_mem _ hlisted.1, hlisted.2⟩

/-- Every listed repo is recovered from its own bundle, whatever happens to the others. -/
theorem recoverAll_fresh (keys : List String) (hnodup : keys.Nodup) (r : Registry Z B)
    (hfresh : ∀ owner repo, Listed keys owner repo → r.getRepoState owner repo = none) :
    (keys.foldl (recoverKey options bundles outcomes) r).storage = r.storage ∧
    (keys.foldl (recoverKey options bundles outcomes) r).rows = r.rows ∧
    ∀ owner repo, (keys.foldl (recoverKey options bundles outcomes) r).getRepoState owner repo =
      if Listed keys owner repo then recoveredState options bundles outcomes r.storage owner repo
      else r.getRepoState owner repo := by
  induction keys generalizing r with
  | nil => exact ⟨rfl, rfl, fun _ _ => by simp [Listed]⟩
  | cons key keys ih =>
    rw [List.nodup_cons] at hnodup
    rw [List.foldl_cons]
    cases hparse : parseRecoverKey key with
    | none =>
      have hskip : r.recoverKey options bundles outcomes key = r := by simp only [recoverKey, hparse]
      rw [hskip]
      simp only [listed_cons_skipped hparse] at hfresh ⊢
      exact ih hnodup.2 r hfresh
    | some pair =>
      obtain ⟨owner, repo⟩ := pair
      have hkey := eq_repoKey_of_parseRecoverKey hparse
      subst hkey
      have hlisted := listed_cons_parsed hparse keys
      obtain ⟨hstorage, hrows, hstate⟩ := recoverOne_fresh options bundles outcomes
        (hfresh owner repo ((hlisted owner repo).mpr (Or.inl ⟨rfl, rfl⟩)))
      have hstep : r.recoverKey options bundles outcomes (repoKey owner repo) =
          r.recoverOne options bundles outcomes (repoKey owner repo) owner repo := by
        simp only [recoverKey, hparse]
      have hother : ∀ owner' repo', Listed keys owner' repo' → ¬ (owner' = owner ∧ repo' = repo) := by
        rintro owner' repo' hl ⟨rfl, rfl⟩
        exact hnodup.1 hl.1
      obtain ⟨hstorage', hrows', hstate'⟩ := ih hnodup.2
        (r.recoverOne options bundles outcomes (repoKey owner repo) owner repo) (by
          intro owner' repo' h
          rw [hstate, if_neg (hother owner' repo' h)]
          exact hfresh owner' repo' ((hlisted owner' repo').mpr (Or.inr h)))
      rw [hstep]
      refine ⟨hstorage'.trans hstorage, hrows'.trans hrows, ?_⟩
      intro owner' repo'
      rw [hstate', hstorage, hstate]
      simp only [hlisted]
      by_cases hl : Listed keys owner' repo'
      · simp [hl]
      · by_cases heq : owner' = owner ∧ repo' = repo
        · simp [heq.1, heq.2]
        · simp [hl, heq]

theorem mem_loadedTuples (r : Registry Z B) (t : QueueScope) :
    t ∈ r.loadedTuples ↔ ∃ state, r.getRepoState t.owner t.repo = some state ∧
      ∃ wf, state.workflows.get? t.workflow = some wf ∧ t.queue ∈ queueNames wf := by
  simp only [loadedTuples, List.mem_flatMap, List.mem_map, getRepoState, Option.bind_eq_some_iff]
  constructor
  · rintro ⟨⟨owner, repos⟩, ho, ⟨repo, state⟩, hr, ⟨name, wf⟩, hw, queue, hq, rfl⟩
    exact ⟨state, ⟨repos, (OrderedMap.get?_eq_some_iff _ _ _).mpr ho,
      (OrderedMap.get?_eq_some_iff _ _ _).mpr hr⟩, wf, (OrderedMap.get?_eq_some_iff _ _ _).mpr hw, hq⟩
  · rintro ⟨state, ⟨repos, ho, hr⟩, wf, hw, hq⟩
    exact ⟨(t.owner, repos), (OrderedMap.get?_eq_some_iff _ _ _).mp ho, (t.repo, state),
      (OrderedMap.get?_eq_some_iff _ _ _).mp hr, (t.workflow, wf),
      (OrderedMap.get?_eq_some_iff _ _ _).mp hw, t.queue, hq, rfl⟩

/-- The tuple is declared by the manifest inside the persisted bundle of its repo. -/
def Declares (storage : OrderedMap String B) (t : QueueScope) : Prop :=
  ∃ bytes, storage.get? (repoKey t.owner t.repo) = some bytes ∧ (t.workflow, t.queue) ∈ bundles.declared bytes

/-- The bundle of the repo is listed, read, unpacked, accepted and installed. -/
def Recovers (storage : OrderedMap String B) (owner repo : String) : Prop :=
  Listed outcomes.listed owner repo ∧ (recoveredState options bundles outcomes storage owner repo).isSome = true

theorem recoveredState_eq_some {storage : OrderedMap String B} {owner repo : String}
    {state : OwnerRepoState Z}
    (h : recoveredState options bundles outcomes storage owner repo = some state) :
    ∃ bytes files, storage.get? (repoKey owner repo) = some bytes ∧
      bundles.extractOwnerTarGz bytes = .ok files ∧
      prepareOwnerRepoState options owner repo files = .ok (.ok state) := by
  unfold recoveredState at h
  split at h
  · cases h
  · rename_i bytes hbytes
    split at h
    · rename_i files _ hfiles
      split at h
      · rename_i prepared hprepared
        split at h
        · cases h
          exact ⟨bytes, files, hbytes, hfiles, hprepared⟩
        · cases h
      · cases h
    · cases h

/-- A recovered state declares what the manifest inside the bundle declares. -/
theorem declares_iff_of_recoveredState {storage : OrderedMap String B} {t : QueueScope}
    {state : OwnerRepoState Z}
    (h : recoveredState options bundles outcomes storage t.owner t.repo = some state) :
    (∃ wf, state.workflows.get? t.workflow = some wf ∧ t.queue ∈ queueNames wf) ↔
      Declares options bundles storage t := by
  obtain ⟨bytes, files, hbytes, hfiles, hprepared⟩ := recoveredState_eq_some options bundles outcomes h
  obtain ⟨raw, manifest, hraw, hmanifest, hworkflows⟩ := prepareOwnerRepoState_workflows hprepared
  have hdeclared := bundles.declared_eq bytes files raw manifest hfiles hraw hmanifest
  have hdeclares : Declares options bundles storage t ↔ (t.workflow, t.queue) ∈ manifest.declared := by
    rw [← hdeclared]
    constructor
    · rintro ⟨bytes', hbytes', hmem⟩
      cases hbytes.symm.trans hbytes'
      exact hmem
    · intro hmem
      exact ⟨bytes, hbytes, hmem⟩
  rw [hdeclares]
  simp only [Manifest.declared, List.mem_flatMap, List.mem_map, Prod.mk.injEq]
  constructor
  · rintro ⟨wf, hwf, hq⟩
    obtain ⟨hmem, hname⟩ := (hworkflows _ _).mp hwf
    exact ⟨wf, hmem, t.queue, hq, hname, rfl⟩
  · rintro ⟨wf, hmem, queue, hq, hname, rfl⟩
    exact ⟨wf, (hworkflows _ _).mpr ⟨hmem, hname⟩, hq⟩

/-- What the reconciliation takes for declared. -/
theorem mem_loadedTuples_recoverAll (storage : OrderedMap String B) (rows : List QueueRow) (t : QueueScope) :
    t ∈ (outcomes.listed.foldl (recoverKey options bundles outcomes) (boot storage rows)).loadedTuples ↔
      Recovers options bundles outcomes storage t.owner t.repo ∧ Declares options bundles storage t := by
  have hfresh : ∀ owner repo, Listed outcomes.listed owner repo →
      (boot storage rows : Registry Z B).getRepoState owner repo = none := fun _ _ _ => rfl
  obtain ⟨_, _, hstate⟩ := recoverAll_fresh options bundles outcomes outcomes.listed outcomes.listed_nodup
    (boot storage rows) hfresh
  rw [mem_loadedTuples, Recovers]
  simp only [hstate]
  by_cases hl : Listed outcomes.listed t.owner t.repo
  · simp only [hl, if_true, true_and]
    constructor
    · rintro ⟨state, hs, hwf⟩
      refine ⟨?_, (declares_iff_of_recoveredState options bundles outcomes hs).mp hwf⟩
      exact Option.isSome_iff_exists.mpr ⟨state, hs⟩
    · rintro ⟨hsome, hdeclares⟩
      obtain ⟨state, hs⟩ := Option.isSome_iff_exists.mp hsome
      exact ⟨state, hs, (declares_iff_of_recoveredState options bundles outcomes hs).mpr hdeclares⟩
  · simp only [hl, if_false, false_and, iff_false]
    rintro ⟨state, hs, _⟩
    cases hs

/-- The rows that the reconciliation would take from bundles that did not recover are spared. -/
def Spared (storage : OrderedMap String B) (rows : List QueueRow) : Prop :=
  outcomes.listError ≠ none ∨ outcomes.select ≠ .ok () ∨
    ∀ row ∈ rows, Declares options bundles storage row.scope →
      ¬ Recovers options bundles outcomes storage row.owner row.repo →
        (∃ t, tupleKey t = tupleKey row.scope ∧ Recovers options bundles outcomes storage t.owner t.repo ∧
          Declares options bundles storage t) ∨
        outcomes.delete row.scope.toDeclaration ≠ .ok ()

/-- Boot keeps every row that a persisted bundle declares if and only if it never reaches the
reconciliation or every declared row of a bundle that failed to recover escapes it. -/
theorem recover_keeps_declared_iff (storage : OrderedMap String B) (rows : List QueueRow) :
    (∀ row ∈ rows, Declares options bundles storage row.scope →
      row ∈ (recover options bundles outcomes (boot storage rows)).rows) ↔
    Spared options bundles outcomes storage rows := by
  have hfresh : ∀ owner repo, Listed outcomes.listed owner repo →
      (boot storage rows : Registry Z B).getRepoState owner repo = none := fun _ _ _ => rfl
  obtain ⟨_, hrows, _⟩ := recoverAll_fresh options bundles outcomes outcomes.listed outcomes.listed_nodup
    (boot storage rows) hfresh
  unfold recover Spared
  dsimp only
  cases hlist : outcomes.listError with
  | some message =>
    refine ⟨fun _ => Or.inl (by simp), ?_⟩
    intro _ row hrow _
    rw [hrows]
    exact hrow
  | none =>
    cases hselect : outcomes.select with
    | error message =>
      refine ⟨fun _ => Or.inr (Or.inl (by simp)), ?_⟩
      intro _ row hrow _
      simp only [reconcile, hrows]
      exact hrow
    | ok u =>
      simp only [hrows, ne_eq, not_true_eq_false, false_or]
      refine forall₂_congr fun row hrow => ?_
      refine forall_congr' fun hdeclares => ?_
      rw [mem_reconcile_ok, List.mem_map]
      simp only [mem_loadedTuples_recoverAll]
      constructor
      · rintro ⟨_, ⟨t, ht, hkey⟩ | hfails⟩ _
        · exact Or.inl ⟨t, hkey, ht⟩
        · exact Or.inr hfails
      · intro h
        refine ⟨hrow, ?_⟩
        by_cases hrec : Recovers options bundles outcomes storage row.owner row.repo
        · exact Or.inl ⟨row.scope, ⟨hrec, hdeclares⟩, rfl⟩
        · rcases h hrec with ⟨t, hkey, ht⟩ | hfails
          · exact Or.inl ⟨t, ht, hkey⟩
          · exact Or.inr hfails

end Recover

end Registry

/-- A workflow with a queue and a secret sealed for a key that the server no longer has. -/
def sealedManifest : WorkflowManifest where
  name := "mailer"
  module := "mailer.js"
  sha := "1b2c"
  env := .empty
  secrets := some (OrderedMap.empty.set "API_TOKEN" "c2VhbGVk")
  secretsKeyId := some "00112233aabbccdd"
  actions := []
  triggers := [⟨.http, "hook", .null, .null, .null⟩]
  queues := jobsQueue
  queueNames_nodup := nodup_jobsQueue
  secrets_disjoint := by simp [OrderedMap.keys]
  actionNames_nodup := List.nodup_nil

def rotatedOptions : WorkflowRegistryOptions Unit where
  keyStore := ⟨fun _ => none⟩
  fromJSONSchema := fun _ => .ok ()
  applyStripMarkers := id
  parseManifest := fun _ => .ok (.single sealedManifest)
  backends := [.http]

def sealedBundles : Bundles rotatedOptions String where
  extractOwnerTarGz := fun _ => .ok ((OrderedMap.empty.set "manifest.json" "").set "mailer.js" "")
  declared := fun _ => (Manifest.single sealedManifest).declared
  declared_eq := by
    intro bytes files raw manifest _ _ hparse
    cases hparse
    rfl

def quietBoot : RecoverOutcomes where
  listed := [repoKey "acme" "site"]
  listError := none
  read := fun _ => .ok ()
  reconfigure := fun _ _ _ => .ok
  select := .ok ()
  delete := fun _ => .ok ()

namespace Registry

/-- The bundle is there and declares the queue; its row is deleted. -/
theorem rotatedKey_deletes_declared :
    ∃ row ∈ [(⟨1, "acme", "site", "mailer", "jobs", "", "7"⟩ : QueueRow)],
      Declares rotatedOptions sealedBundles (OrderedMap.empty.set (repoKey "acme" "site") "tarball") row.scope ∧
      row ∉ (recover rotatedOptions sealedBundles quietBoot
        (boot (OrderedMap.empty.set (repoKey "acme" "site") "tarball")
          [⟨1, "acme", "site", "mailer", "jobs", "", "7"⟩])).rows := by
  refine ⟨_, List.mem_singleton_self _, ⟨"tarball", by decide, by decide⟩, by decide⟩

end Registry

end WorkflowEngine.Runtime
