import WorkflowEngine.Runtime.WorkflowRegistry

/-!
# The trigger entries of a registered repo

Every map of triggers is keyed by the text `workflow + "/" + trigger`: the
`entries` of the registry by the manifest's workflow name and the resolved trigger
name, the per-repo maps of the `http`, `cron`, `imap` and `ws` sources by the names
in the resolved descriptor. The schema leaves workflow names and the names of cron
triggers open, so a key need not tell where its workflow ends, and a name may
itself hold a secret sentinel that is resolved before it becomes part of a key.
-/

namespace WorkflowEngine.Runtime

open Lib
set_option autoImplicit false

variable {Z B : Type}

/-! ## What resolving a descriptor gives -/

theorem replaceSentinels_fst (store : OrderedMap String String) (fuel : Nat) (cs : List Char)
    (missing missing' : List String) :
    (replaceSentinels store fuel cs missing).1 = (replaceSentinels store fuel cs missing').1 := by
  induction fuel generalizing cs missing missing' with
  | zero => rfl
  | succ fuel ih =>
    cases cs with
    | nil => rfl
    | cons c cs =>
      simp only [replaceSentinels]
      split
      · simp only [ih cs missing missing']
      · rename_i name after _
        split
        · simp only [ih after missing missing']
        · simp only [ih after (addMissing missing (String.ofList name))
            (addMissing missing' (String.ofList name))]

/-- The text that the sentinels of `s` are resolved to. -/
def resolvedText (store : OrderedMap String String) (s : String) : String :=
  (resolveString store s []).1

theorem resolveString_fst (store : OrderedMap String String) (s : String) (missing : List String) :
    (resolveString store s missing).1 = resolvedText store s := by
  unfold resolvedText resolveString
  split
  · simp only [replaceSentinels_fst store _ _ missing []]
  · rfl

mutual

theorem resolveSecretSentinels_fst (store : OrderedMap String String) (v : Json)
    (missing missing' : List String) :
    (resolveSecretSentinels store v missing).1 = (resolveSecretSentinels store v missing').1 := by
  cases v with
  | string s => simp only [resolveSecretSentinels, resolveString_fst]
  | array items =>
    simp only [resolveSecretSentinels, resolveItems_fst store items missing missing']
  | object fields =>
    simp only [resolveSecretSentinels, resolveFields_fst store fields missing missing']
  | null => rfl
  | bool b => rfl
  | number text => rfl

theorem resolveItems_fst (store : OrderedMap String String) (vs : List Json)
    (missing missing' : List String) :
    (resolveItems store vs missing).1 = (resolveItems store vs missing').1 := by
  cases vs with
  | nil => rfl
  | cons v vs =>
    simp only [resolveItems, resolveSecretSentinels_fst store v missing missing']
    rw [resolveItems_fst store vs _ (resolveSecretSentinels store v missing').2]

theorem resolveFields_fst (store : OrderedMap String String) (fields : List (String × Json))
    (missing missing' : List String) :
    (resolveFields store fields missing).1 = (resolveFields store fields missing').1 := by
  cases fields with
  | nil => rfl
  | cons field fields =>
    obtain ⟨k, v⟩ := field
    simp only [resolveFields, resolveSecretSentinels_fst store v missing missing']
    rw [resolveFields_fst store fields _ (resolveSecretSentinels store v missing').2]

end

theorem resolve_fst (d : PreResolveDescriptor) (store : OrderedMap String String)
    (missing missing' : List String) : (d.resolve store missing).1 = (d.resolve store missing').1 := by
  simp only [PreResolveDescriptor.resolve, resolveString_fst]
  rw [resolveSecretSentinels_fst store d.config _
      (resolveString store d.workflowName (resolveString store d.name missing').2).2,
    resolveSecretSentinels_fst store d.inputSchema _
      (resolveSecretSentinels store d.config
        (resolveString store d.workflowName (resolveString store d.name missing').2).2).2,
    resolveSecretSentinels_fst store d.outputSchema _
      (resolveSecretSentinels store d.inputSchema
        (resolveSecretSentinels store d.config
          (resolveString store d.workflowName (resolveString store d.name missing').2).2).2).2]

/-- One turn of the loop of `buildDescriptors`. -/
def describeTrigger (options : WorkflowRegistryOptions Z) (store : OrderedMap String String)
    (workflowName : String) (t : TriggerManifest) : Except String (TriggerDescriptor Z) :=
  attachZodSchemas options ((buildPreResolvedDescriptor workflowName t).resolve store []).1

theorem attachZodSchemas_ok {options : WorkflowRegistryOptions Z} {p : PreResolveDescriptor}
    {d : TriggerDescriptor Z} (h : attachZodSchemas options p = .ok d) :
    d.toPreResolveDescriptor = p := by
  unfold attachZodSchemas at h
  cases h1 : rehydrateSchema options p.workflowName p.name "inputSchema" p.inputSchema with
  | error m =>
    rw [h1] at h
    cases h
  | ok z1 =>
    cases h2 : rehydrateSchema options p.workflowName p.name "outputSchema" p.outputSchema with
    | error m =>
      rw [h1, h2] at h
      cases h
    | ok z2 =>
      rw [h1, h2] at h
      cases h
      rfl

/-- The names and the kind that a descriptor has. -/
theorem describeTrigger_names {options : WorkflowRegistryOptions Z} {store : OrderedMap String String}
    {workflowName : String} {t : TriggerManifest} {d : TriggerDescriptor Z}
    (h : describeTrigger options store workflowName t = .ok d) :
    d.kind = t.type ∧ d.name = resolvedText store t.name ∧
      d.workflowName = resolvedText store workflowName := by
  have hd := attachZodSchemas_ok h
  have hkind := congrArg PreResolveDescriptor.kind hd
  have hname := congrArg PreResolveDescriptor.name hd
  have hworkflow := congrArg PreResolveDescriptor.workflowName hd
  simp only [PreResolveDescriptor.resolve, buildPreResolvedDescriptor, resolveString_fst]
    at hkind hname hworkflow
  exact ⟨hkind, hname, hworkflow⟩

/-! ## The entries that an upload makes -/

/-- The entry of one trigger of one workflow, if the upload gets as far. -/
def entryOf (options : WorkflowRegistryOptions Z) (owner repo : String)
    (files : OrderedMap String String) (workflow : WorkflowManifest) (t : TriggerManifest) :
    Option (TriggerEntry Z) :=
  match files.get? workflow.module, decryptWorkflowSecrets workflow options.keyStore with
  | some bundleSource, .ok store =>
    match describeTrigger options store workflow.name t with
    | .ok d => some ⟨owner, repo, workflow, d, bundleSource⟩
    | .error _ => none
  | _, _ => none

/-- A trigger of a manifest with the entry that was built for it. -/
structure Registration (Z : Type) where
  workflow : WorkflowManifest
  trigger : TriggerManifest
  entry : TriggerEntry Z

/-- The key that `buildOwnerRepoState` files the entry under. -/
def Registration.key (x : Registration Z) : String :=
  x.workflow.name ++ "/" ++ x.entry.descriptor.name

def Manifest.pairs (manifest : Manifest) : List (WorkflowManifest × TriggerManifest) :=
  manifest.workflows.flatMap fun w => w.triggers.map fun t => (w, t)

theorem buildDescriptorsFrom_ok {options : WorkflowRegistryOptions Z} {workflowName : String}
    {store : OrderedMap String String} {ts : List TriggerManifest} {missing : List String}
    {ds ds' : List (TriggerDescriptor Z)}
    (h : buildDescriptorsFrom options workflowName store ts missing ds = .ok ds') :
    ∃ new, ds' = ds ++ new ∧
      List.Forall₂ (fun t d => describeTrigger options store workflowName t = .ok d ∧
        allowedKind options t.type = true) ts new := by
  induction ts generalizing missing ds with
  | nil =>
    simp only [buildDescriptorsFrom] at h
    split at h
    · cases h
      exact ⟨[], by simp, .nil⟩
    · cases h
  | cons t ts ih =>
    simp only [buildDescriptorsFrom] at h
    split at h
    · rename_i hkind
      split at h
      · rename_i d hd
        obtain ⟨new, rfl, hnew⟩ := ih h
        refine ⟨d :: new, by simp, .cons ⟨?_, hkind⟩ hnew⟩
        rw [describeTrigger, resolve_fst _ store [] missing]
        exact hd
      · cases h
    · cases h

theorem entries_add (state : OwnerRepoState Z) (owner repo : String) (wf : WorkflowManifest)
    (bundleSource : String) (regs : List (Registration Z))
    (hregs : ∀ x ∈ regs, x.workflow = wf ∧
      x.entry = ⟨owner, repo, wf, x.entry.descriptor, bundleSource⟩) :
    (state.add owner repo wf bundleSource (regs.map (·.entry.descriptor))).entries =
      regs.foldl (fun m x => m.set x.key x.entry) state.entries := by
  simp only [OwnerRepoState.add]
  generalize state.entries = m
  induction regs generalizing m with
  | nil => rfl
  | cons x regs ih =>
    obtain ⟨hw, he⟩ := hregs x List.mem_cons_self
    rw [List.map_cons, List.foldl_cons, List.foldl_cons,
      ih (fun y hy => hregs y (List.mem_cons_of_mem x hy)), Registration.key, hw, ← he]

/-- The registrations of one workflow. -/
theorem registrations_of_descriptors {options : WorkflowRegistryOptions Z} (owner repo : String)
    {files : OrderedMap String String} {wf : WorkflowManifest} {bundleSource : String}
    {store : OrderedMap String String} (hfile : files.get? wf.module = some bundleSource)
    (hstore : decryptWorkflowSecrets wf options.keyStore = .ok store) {ts : List TriggerManifest}
    {ds : List (TriggerDescriptor Z)}
    (h : List.Forall₂ (fun t d => describeTrigger options store wf.name t = .ok d ∧
      allowedKind options t.type = true) ts ds) :
    ∃ regs : List (Registration Z),
      regs.map (fun x => (x.workflow, x.trigger)) = ts.map (fun t => (wf, t)) ∧
      regs.map (·.entry.descriptor) = ds ∧
      ∀ x ∈ regs, x.workflow = wf ∧ x.entry = ⟨owner, repo, wf, x.entry.descriptor, bundleSource⟩ ∧
        entryOf options owner repo files x.workflow x.trigger = some x.entry ∧
        allowedKind options x.trigger.type = true := by
  induction h with
  | nil => exact ⟨[], rfl, rfl, by simp⟩
  | @cons t d ts ds hd _ ih =>
    obtain ⟨regs, hpairs, hds, hall⟩ := ih
    refine ⟨⟨wf, t, ⟨owner, repo, wf, d, bundleSource⟩⟩ :: regs, by simp [hpairs], by simp [hds], ?_⟩
    intro x hx
    rcases List.mem_cons.mp hx with rfl | hx
    · exact ⟨rfl, rfl, by simp [entryOf, hfile, hstore, hd.1], hd.2⟩
    · exact hall x hx

theorem entries_of_buildOwnerRepoStateFrom {options : WorkflowRegistryOptions Z}
    {owner repo : String} {files : OrderedMap String String} (wfs : List WorkflowManifest)
    (hfiles : ∀ wf ∈ wfs, files.has wf.module = true) {state final : OwnerRepoState Z}
    {failures : List (String × List String)}
    (h : buildOwnerRepoStateFrom options owner repo files wfs state failures = .ok (.ok final)) :
    ∃ regs : List (Registration Z),
      regs.map (fun x => (x.workflow, x.trigger)) =
        wfs.flatMap (fun w => w.triggers.map fun t => (w, t)) ∧
      (∀ x ∈ regs, entryOf options owner repo files x.workflow x.trigger = some x.entry ∧
        allowedKind options x.trigger.type = true) ∧
      final.entries = regs.foldl (fun m x => m.set x.key x.entry) state.entries := by
  induction wfs generalizing state failures with
  | nil =>
    simp only [buildOwnerRepoStateFrom, Except.ok.injEq] at h
    split at h
    · cases h
      exact ⟨[], rfl, by simp, rfl⟩
    · cases h
  | cons wf wfs ih =>
    have hrest : ∀ w ∈ wfs, files.has w.module = true :=
      fun w hw => hfiles w (List.mem_cons_of_mem _ hw)
    have hnofail := workflows_of_buildOwnerRepoStateFrom (wf :: wfs) hfiles h
    unfold buildOwnerRepoStateFrom at h
    split at h
    · rename_i hnone
      have hhas := hfiles wf List.mem_cons_self
      simp [OrderedMap.has, hnone] at hhas
    · rename_i bundleSource hfile
      cases hb : buildDescriptors options wf with
      | error thrown =>
        rw [hb] at h
        cases h
      | ok result =>
        rw [hb] at h
        cases result with
        | error message => cases h
        | missing names =>
          -- A workflow with unresolved secrets makes the final result a failure.
          have hne := (workflows_of_buildOwnerRepoStateFrom wfs hrest h).1
          simp at hne
        | ok ds =>
          unfold buildDescriptors at hb
          cases hstore : decryptWorkflowSecrets wf options.keyStore with
          | error thrown =>
            rw [hstore] at hb
            cases hb
          | ok store =>
            rw [hstore] at hb
            simp only [bind, Except.bind, pure, Except.pure, Except.ok.injEq] at hb
            obtain ⟨new, hnew, hforall⟩ := buildDescriptorsFrom_ok hb
            obtain rfl : ds = new := by simpa using hnew
            obtain ⟨regs, hpairs, hds, hall⟩ :=
              registrations_of_descriptors owner repo hfile hstore hforall
            obtain ⟨regs', hpairs', hall', hentries⟩ := ih hrest h
            refine ⟨regs ++ regs', by simp [hpairs, hpairs'], ?_, ?_⟩
            · intro x hx
              rcases List.mem_append.mp hx with hx | hx
              · exact (hall x hx).2.2
              · exact hall' x hx
            · rw [hentries, ← hds, entries_add state owner repo wf bundleSource regs
                fun x hx => ⟨(hall x hx).1, (hall x hx).2.1⟩, List.foldl_append]

/-- A prepared state, by the registrations that its entries come from. -/
theorem prepareOwnerRepoState_entries {options : WorkflowRegistryOptions Z} {owner repo : String}
    {files : OrderedMap String String} {state : OwnerRepoState Z}
    (h : prepareOwnerRepoState options owner repo files = .ok (.ok state)) :
    ∃ raw manifest, files.get? "manifest.json" = some raw ∧
      options.parseManifest raw = .ok manifest ∧
      ∃ regs : List (Registration Z),
        regs.map (fun x => (x.workflow, x.trigger)) = manifest.pairs ∧
        (∀ x ∈ regs, entryOf options owner repo files x.workflow x.trigger = some x.entry ∧
          allowedKind options x.trigger.type = true) ∧
        state.entries = regs.foldl (fun m x => m.set x.key x.entry) .empty := by
  unfold prepareOwnerRepoState at h
  split at h
  · cases h
  · rename_i raw hraw
    split at h
    · cases h
    · rename_i manifest hmanifest
      split at h
      · cases h
      · rename_i hmodules
        exact ⟨raw, manifest, hraw, hmanifest, entries_of_buildOwnerRepoStateFrom manifest.workflows
          (has_of_validateModulesPresent hmodules) h⟩

/-! ## After a successful upload -/

namespace Registry

def getEntry (r : Registry Z B) (owner repo workflowName triggerName : String) :
    Option (TriggerEntry Z) :=
  (r.getRepoState owner repo).bind fun state => state.entries.get? (workflowName ++ "/" ++ triggerName)

theorem aggregate_eq_none_iff (kinds : List TriggerKind)
    (outcomes : TriggerKind → ReconfigureOutcome) :
    aggregate kinds outcomes = none ↔ ∀ kind ∈ kinds, outcomes kind = .ok := by
  have h := any_reconfigure_eq_true_iff kinds outcomes
  constructor
  · intro hnone kind hkind
    by_contra hne
    refine h.mp ?_ hnone
    exact List.any_eq_true.mpr ⟨kind, hkind, by simpa using hne⟩
  · intro hall
    by_contra hne
    obtain ⟨kind, hkind, hbad⟩ := List.any_eq_true.mp (h.mpr hne)
    simp [hall kind hkind] at hbad

theorem installed_reconfigureBackends (r : Registry Z B) (kinds : List TriggerKind)
    (outcomes : TriggerKind → ReconfigureOutcome) (owner repo : String) (state : OwnerRepoState Z)
    (hok : ∀ kind ∈ kinds, outcomes kind = .ok) (kind : TriggerKind) :
    (r.reconfigureBackends kinds outcomes owner repo state).installed.get? (kind, owner, repo) =
      if kind ∈ kinds then some (state.entriesOfKind kind)
      else r.installed.get? (kind, owner, repo) := by
  unfold reconfigureBackends
  induction kinds generalizing r with
  | nil => rfl
  | cons k kinds ih =>
    rw [List.foldl_cons, ih _ fun j hj => hok j (List.mem_cons_of_mem k hj),
      if_pos (hok k List.mem_cons_self)]
    by_cases hmem : kind ∈ kinds
    · simp [hmem]
    · by_cases hk : kind = k
      · subst hk
        simp [hmem, install]
      · simp [hmem, hk, install, OrderedMap.get?_set]

/-- A successful upload: the prepared state is the repo's state, and every backend was given the
entries of its kind. -/
theorem registerOwner_ok {options : WorkflowRegistryOptions Z} {outcomes : UploadOutcomes}
    {r s : Registry Z B} {owner repo : String} {files : OrderedMap String String}
    {tarballBytes : Option B} {workflows : List String}
    (h : registerOwner options outcomes r owner repo files tarballBytes =
      (s, .ok (.ok workflows))) :
    ∃ state, prepareOwnerRepoState options owner repo files = .ok (.ok state) ∧
      s.getRepoState owner repo = some state ∧
      (∀ kind ∈ options.backends, outcomes.reconfigure kind = .ok) ∧
      ∀ kind ∈ options.backends,
        s.installed.get? (kind, owner, repo) = some (state.entriesOfKind kind) := by
  unfold registerOwner at h
  split at h
  · cases h
  · cases h
  · rename_i state hprepared
    dsimp only at h
    split at h
    · cases h
    · rename_i hnone
      have hok := (aggregate_eq_none_iff _ _).mp hnone
      have hinst := installed_reconfigureBackends r options.backends outcomes.reconfigure owner repo
        state hok
      generalize hq : r.reconfigureBackends options.backends outcomes.reconfigure owner repo state =
        q at h hinst
      have hswap : ∀ p : Registry Z B, p.installed = q.installed →
          ∀ t, p.applyQueueLifecycle outcomes.delete owner repo state = (t, .ok workflows) →
          t.getRepoState owner repo = some state ∧ t.installed = q.installed := by
        intro p hp t ht
        unfold applyQueueLifecycle at ht
        dsimp only at ht
        split at ht
        · cases ht
        · cases ht
          refine ⟨?_, hp⟩
          rw [getRepoState_setRepoState, if_pos ⟨rfl, rfl⟩]
      have hdone : s.getRepoState owner repo = some state ∧ s.installed = q.installed := by
        cases tarballBytes with
        | none =>
          refine hswap q rfl s ?_
          simpa [persistAndSwap, Prod.ext_iff] using h
        | some bytes =>
          cases hw : outcomes.write with
          | error message => simp [persistAndSwap, hw] at h
          | ok u =>
            refine hswap (q.persistTarball owner repo bytes) rfl s ?_
            simpa [persistAndSwap, hw, Prod.ext_iff] using h
      refine ⟨state, hprepared, hdone.1, hok, ?_⟩
      intro kind hkind
      rw [hdone.2, hinst, if_pos hkind]

end Registry

/-! ## Keys that tell the triggers apart -/

/-- `triggerKey` of the `http` source and `entryKey` of the `cron`, `imap` and `ws` sources. -/
def entryKey (workflowName triggerName : String) : String := workflowName ++ "/" ++ triggerName

/-- The map that `reconfigure` of those sources builds for one repo. -/
def sourceMap (entries : List (TriggerEntry Z)) : OrderedMap String (TriggerEntry Z) :=
  entries.foldl (fun m e => m.set (entryKey e.descriptor.workflowName e.descriptor.name) e) .empty

/-- A text of a workflow's manifest after its secret sentinels are resolved. -/
def resolvedName (options : WorkflowRegistryOptions Z) (workflow : WorkflowManifest) (s : String) :
    String :=
  match decryptWorkflowSecrets workflow options.keyStore with
  | .ok store => resolvedText store s
  | .error _ => s

theorem entryOf_eq_some {options : WorkflowRegistryOptions Z} {owner repo : String}
    {files : OrderedMap String String} {workflow : WorkflowManifest} {t : TriggerManifest}
    {e : TriggerEntry Z} (h : entryOf options owner repo files workflow t = some e) :
    e.owner = owner ∧ e.repo = repo ∧ e.workflow = workflow ∧ e.descriptor.kind = t.type ∧
      e.descriptor.name = resolvedName options workflow t.name ∧
      e.descriptor.workflowName = resolvedName options workflow workflow.name := by
  unfold entryOf at h
  split at h
  · rename_i bundleSource store _ hstore
    split at h
    · rename_i d hd
      cases h
      obtain ⟨hkind, hname, hworkflow⟩ := describeTrigger_names hd
      exact ⟨rfl, rfl, rfl, hkind, by simp [resolvedName, hstore, hname],
        by simp [resolvedName, hstore, hworkflow]⟩
    · cases h
  · cases h

theorem mem_pairs {manifest : Manifest} {w : WorkflowManifest} {t : TriggerManifest} :
    (w, t) ∈ manifest.pairs ↔ w ∈ manifest.workflows ∧ t ∈ w.triggers := by
  simp [Manifest.pairs]

/-- Names tell the triggers of a manifest apart. -/
theorem pairs_ext {manifest : Manifest} {p q : WorkflowManifest × TriggerManifest}
    (hp : p ∈ manifest.pairs) (hq : q ∈ manifest.pairs) (hw : p.1.name = q.1.name)
    (ht : p.2.name = q.2.name) : p = q := by
  obtain ⟨w, t⟩ := p
  obtain ⟨w', t'⟩ := q
  obtain ⟨hwmem, htmem⟩ := mem_pairs.mp hp
  obtain ⟨hwmem', htmem'⟩ := mem_pairs.mp hq
  obtain rfl : w = w' := List.inj_on_of_nodup_map manifest.names_nodup hwmem hwmem' hw
  obtain rfl : t = t' := List.inj_on_of_nodup_map w.triggerNames_nodup htmem htmem' ht
  rfl

theorem pairs_nodup (manifest : Manifest) : manifest.pairs.Nodup := by
  rw [Manifest.pairs, List.nodup_flatMap]
  constructor
  · intro w _
    refine List.Nodup.map ?_ (List.Nodup.of_map _ w.triggerNames_nodup)
    intro t t' h
    exact (Prod.mk.inj h).2
  · refine List.Pairwise.imp ?_ (List.Nodup.of_map _ manifest.names_nodup)
    intro w w' hne p hp hp'
    obtain ⟨t, _, rfl⟩ := List.mem_map.mp hp
    obtain ⟨t', _, h⟩ := List.mem_map.mp hp'
    exact hne (Prod.mk.inj h).1.symm

/-- The schema takes the keys apart: a trigger name resolves to itself, no two triggers share a key,
and those of one source share none after their workflow names are resolved. -/
structure DistinctKeys (options : WorkflowRegistryOptions Z) (manifest : Manifest) : Prop where
  plain : ∀ p ∈ manifest.pairs, resolvedName options p.1 p.2.name = p.2.name
  keys : (manifest.pairs.map fun p => entryKey p.1.name p.2.name).Nodup
  sources : ∀ kind ∈ options.backends, kind ≠ .manual →
    ((manifest.pairs.filter fun p => p.2.type = kind).map fun p =>
      entryKey (resolvedName options p.1 p.1.name) (resolvedName options p.1 p.2.name)).Nodup

/-- Every trigger of the manifest has an entry of its own, in the registry and in its source. The
`manual` source keeps none. -/
structure OwnEntries (options : WorkflowRegistryOptions Z) (r : Registry Z B) (owner repo : String)
    (files : OrderedMap String String) (manifest : Manifest) : Prop where
  size : ∃ state, r.getRepoState owner repo = some state ∧
    state.entries.size = manifest.pairs.length
  found : ∀ p ∈ manifest.pairs, ∃ e, entryOf options owner repo files p.1 p.2 = some e ∧
    r.getEntry owner repo p.1.name p.2.name = some e
  sources : ∀ kind ∈ options.backends, kind ≠ .manual →
    ∃ entries, r.installed.get? (kind, owner, repo) = some entries ∧
      (sourceMap entries).size = (manifest.pairs.filter fun p => p.2.type = kind).length

section Registered
variable {options : WorkflowRegistryOptions Z} {owner repo : String}
  {files : OrderedMap String String} {manifest : Manifest} {state : OwnerRepoState Z}
  {regs : List (Registration Z)}

theorem key_eq {x : Registration Z}
    (hx : entryOf options owner repo files x.workflow x.trigger = some x.entry) :
    x.key = entryKey x.workflow.name (resolvedName options x.workflow x.trigger.name) := by
  obtain ⟨-, -, -, -, hname, -⟩ := entryOf_eq_some hx
  rw [Registration.key, hname, entryKey]

theorem map_key_of_plain (hpairs : regs.map (fun x => (x.workflow, x.trigger)) = manifest.pairs)
    (hregs : ∀ x ∈ regs, entryOf options owner repo files x.workflow x.trigger = some x.entry)
    (hplain : ∀ p ∈ manifest.pairs, resolvedName options p.1 p.2.name = p.2.name) :
    regs.map Registration.key = manifest.pairs.map fun p => entryKey p.1.name p.2.name := by
  rw [← hpairs, List.map_map]
  apply List.map_congr_left
  intro x hx
  have hmem : (x.workflow, x.trigger) ∈ manifest.pairs := hpairs ▸ List.mem_map_of_mem hx
  rw [key_eq (hregs x hx), hplain _ hmem]
  rfl

/-- Looking every trigger up by the names of the manifest finds its own entry exactly when the names
resolve to themselves and the keys differ. -/
theorem found_iff (hpairs : regs.map (fun x => (x.workflow, x.trigger)) = manifest.pairs)
    (hregs : ∀ x ∈ regs, entryOf options owner repo files x.workflow x.trigger = some x.entry)
    (hentries : state.entries = regs.foldl (fun m x => m.set x.key x.entry) .empty) :
    (∀ p ∈ manifest.pairs, ∃ e, entryOf options owner repo files p.1 p.2 = some e ∧
        state.entries.get? (entryKey p.1.name p.2.name) = some e) ↔
      (∀ p ∈ manifest.pairs, resolvedName options p.1 p.2.name = p.2.name) ∧
        (manifest.pairs.map fun p => entryKey p.1.name p.2.name).Nodup := by
  constructor
  · intro hfound
    have hplain : ∀ p ∈ manifest.pairs, resolvedName options p.1 p.2.name = p.2.name := by
      intro p hp
      obtain ⟨e, he, hget⟩ := hfound p hp
      rw [hentries] at hget
      rcases OrderedMap.mem_of_get?_foldl_set _ _ regs hget with ⟨x, hx, hkey, rfl⟩ | hnone
      · obtain ⟨-, -, hw, -, hname, -⟩ := entryOf_eq_some he
        obtain ⟨-, -, hw', -, -, -⟩ := entryOf_eq_some (hregs x hx)
        rw [Registration.key, ← hw', hw, hname, entryKey] at hkey
        have hkey := String.ext_iff.mp hkey
        simp only [String.toList_append] at hkey
        exact String.ext_iff.mpr (List.append_cancel_left hkey)
      · simp at hnone
    refine ⟨hplain, ?_⟩
    refine List.Nodup.map_on ?_ (pairs_nodup manifest)
    intro p hp q hq hkey
    obtain ⟨e, he, hget⟩ := hfound p hp
    obtain ⟨e', he', hget'⟩ := hfound q hq
    rw [hkey, hget'] at hget
    obtain rfl : e' = e := Option.some.inj hget
    obtain ⟨-, -, hw, -, hname, -⟩ := entryOf_eq_some he
    obtain ⟨-, -, hw', -, hname', -⟩ := entryOf_eq_some he'
    apply pairs_ext hp hq
    · rw [← hw, hw']
    · rw [← hplain p hp, ← hplain q hq, ← hname, hname']
  · rintro ⟨hplain, hkeys⟩ p hp
    rw [← hpairs] at hp
    obtain ⟨x, hx, rfl⟩ := List.mem_map.mp hp
    have hmem : (x.workflow, x.trigger) ∈ manifest.pairs := hpairs ▸ hp
    refine ⟨x.entry, hregs x hx, ?_⟩
    rw [hentries, OrderedMap.get?_foldl_set]
    · refine Or.inl ⟨x, hx, ?_, rfl⟩
      rw [key_eq (hregs x hx), hplain _ hmem]
    · rw [map_key_of_plain hpairs hregs hplain]
      exact hkeys

/-- Under distinct keys the state holds the entries one by one, in the order of the manifest. -/
theorem values_of_distinct (hpairs : regs.map (fun x => (x.workflow, x.trigger)) = manifest.pairs)
    (hregs : ∀ x ∈ regs, entryOf options owner repo files x.workflow x.trigger = some x.entry)
    (hentries : state.entries = regs.foldl (fun m x => m.set x.key x.entry) .empty)
    (hplain : ∀ p ∈ manifest.pairs, resolvedName options p.1 p.2.name = p.2.name)
    (hkeys : (manifest.pairs.map fun p => entryKey p.1.name p.2.name).Nodup) :
    state.entries.values = regs.map (·.entry) := by
  have hmap := map_key_of_plain hpairs hregs hplain
  rw [OrderedMap.values, hentries, OrderedMap.entries_foldl_set_of_nodup _ _ _ _ (hmap ▸ hkeys)]
  · simp
  · intro x _
    rfl

theorem sourceMap_size_iff (hpairs : regs.map (fun x => (x.workflow, x.trigger)) = manifest.pairs)
    (hregs : ∀ x ∈ regs, entryOf options owner repo files x.workflow x.trigger = some x.entry)
    (hvalues : state.entries.values = regs.map (·.entry)) (kind : TriggerKind) :
    (sourceMap (state.entriesOfKind kind)).size =
        (manifest.pairs.filter fun p => p.2.type = kind).length ↔
      ((manifest.pairs.filter fun p => p.2.type = kind).map fun p =>
        entryKey (resolvedName options p.1 p.1.name)
          (resolvedName options p.1 p.2.name)).Nodup := by
  have hkind : state.entriesOfKind kind =
      (regs.filter fun x => x.trigger.type = kind).map (·.entry) := by
    rw [OwnerRepoState.entriesOfKind, hvalues, List.filter_map]
    congr 1
    apply List.filter_congr
    intro x hx
    obtain ⟨-, -, -, hk, -, -⟩ := entryOf_eq_some (hregs x hx)
    simp [hk]
  have hfilter : manifest.pairs.filter (fun p => p.2.type = kind) =
      (regs.filter fun x => x.trigger.type = kind).map fun x => (x.workflow, x.trigger) := by
    rw [← hpairs, List.filter_map]
    rfl
  rw [hkind, hfilter, List.length_map, List.map_map]
  have hsize := OrderedMap.size_foldl_set_eq_iff
    (fun e : TriggerEntry Z => entryKey e.descriptor.workflowName e.descriptor.name) (fun e => e)
    ((regs.filter fun x => x.trigger.type = kind).map (·.entry))
  rw [List.length_map, List.map_map] at hsize
  unfold sourceMap
  rw [hsize]
  refine iff_of_eq (congrArg List.Nodup ?_)
  apply List.map_congr_left
  intro x hx
  obtain ⟨-, -, -, -, hname, hworkflow⟩ := entryOf_eq_some (hregs x (List.mem_of_mem_filter hx))
  simp [hname, hworkflow]

end Registered

/-- After an upload that succeeds, every trigger has an entry of its own exactly when the keys tell
the triggers of the manifest apart. -/
theorem ownEntries_iff_distinctKeys (options : WorkflowRegistryOptions Z) (outcomes : UploadOutcomes)
    (r s : Registry Z B) (owner repo : String) (files : OrderedMap String String)
    (tarballBytes : Option B) (workflows : List String) (raw : String) (manifest : Manifest)
    (h : Registry.registerOwner options outcomes r owner repo files tarballBytes =
      (s, .ok (.ok workflows)))
    (hraw : files.get? "manifest.json" = some raw)
    (hmanifest : options.parseManifest raw = .ok manifest) :
    OwnEntries options s owner repo files manifest ↔ DistinctKeys options manifest := by
  obtain ⟨state, hprepared, hstate, _, hinstalled⟩ := Registry.registerOwner_ok h
  obtain ⟨raw', manifest', hraw', hmanifest', regs, hpairs, hall, hentries⟩ :=
    prepareOwnerRepoState_entries hprepared
  obtain rfl : raw = raw' := Option.some.inj (hraw.symm.trans hraw')
  obtain rfl : manifest = manifest' := Except.ok.inj (hmanifest.symm.trans hmanifest')
  have hregs : ∀ x ∈ regs, entryOf options owner repo files x.workflow x.trigger = some x.entry :=
    fun x hx => (hall x hx).1
  have hget : ∀ w t, s.getEntry owner repo w t = state.entries.get? (entryKey w t) := by
    intro w t
    rw [Registry.getEntry, hstate]
    rfl
  have hfound := found_iff hpairs hregs hentries
  constructor
  · intro hown
    have hkeys := hfound.mp fun p hp => by
      obtain ⟨e, he, hgot⟩ := hown.found p hp
      exact ⟨e, he, (hget _ _).symm.trans hgot⟩
    refine ⟨hkeys.1, hkeys.2, ?_⟩
    intro kind hkind hmanual
    obtain ⟨entries, hentriesOf, hsize⟩ := hown.sources kind hkind hmanual
    obtain rfl : state.entriesOfKind kind = entries :=
      Option.some.inj ((hinstalled kind hkind).symm.trans hentriesOf)
    have hvalues := values_of_distinct hpairs hregs hentries hkeys.1 hkeys.2
    exact (sourceMap_size_iff hpairs hregs hvalues kind).mp hsize
  · intro hdistinct
    have hvalues := values_of_distinct hpairs hregs hentries hdistinct.plain hdistinct.keys
    refine ⟨⟨state, hstate, ?_⟩, ?_, ?_⟩
    · have hlength := congrArg List.length hvalues
      rw [OrderedMap.values, List.length_map, List.length_map] at hlength
      rw [OrderedMap.size, hlength, ← hpairs, List.length_map]
    · intro p hp
      obtain ⟨e, he, hgot⟩ := hfound.mpr ⟨hdistinct.plain, hdistinct.keys⟩ p hp
      exact ⟨e, he, (hget _ _).trans hgot⟩
    · intro kind hkind hmanual
      exact ⟨_, hinstalled kind hkind,
        (sourceMap_size_iff hpairs hregs hvalues kind).mpr (hdistinct.sources kind hkind hmanual)⟩

/-! ## Two uploads -/

def cronWorkflow (workflow trigger : String) : WorkflowManifest :=
  .plain workflow "1b2c" .empty
    ⟨.cron, trigger, .object [("schedule", .string "0 7 * * *")], .null, .null⟩ [] List.nodup_nil

/-- `manifest.json` is read as the given manifest. -/
def manifestOptions (manifest : Manifest) : WorkflowRegistryOptions Unit where
  keyStore := ⟨fun _ => none⟩
  fromJSONSchema := fun _ => .ok ()
  applyStripMarkers := id
  parseManifest := fun _ => .ok manifest
  backends := [.http, .cron, .manual, .imap, .ws]

/-- A tarball with one bundle for each workflow of the manifest. -/
def manifestFiles (manifest : Manifest) : OrderedMap String String :=
  manifest.workflows.foldl (fun m w => m.set w.module "") (OrderedMap.empty.set "manifest.json" "")

def uploadManifest (manifest : Manifest) : Registry Unit String × Except String RegisterResult :=
  Registry.registerOwner (manifestOptions manifest) ⟨fun _ => .ok, .ok (), fun _ => .ok ()⟩
    ⟨.empty, .empty, .empty, []⟩ "acme" "site" (manifestFiles manifest) none

def twoCrons : Manifest := ⟨[cronWorkflow "a" "b", cronWorkflow "c" "d"], by decide⟩

theorem ownEntries_iff_distinctKeys_twoCrons :
    (uploadManifest twoCrons).2 = .ok (.ok ["a", "c"]) ∧
      OwnEntries (manifestOptions twoCrons) (uploadManifest twoCrons).1 "acme" "site"
        (manifestFiles twoCrons) twoCrons := by
  have hok : (uploadManifest twoCrons).2 = .ok (.ok ["a", "c"]) := by decide
  refine ⟨hok, ?_⟩
  refine (ownEntries_iff_distinctKeys (manifestOptions twoCrons) ⟨fun _ => .ok, .ok (), fun _ => .ok ()⟩
    ⟨.empty, .empty, .empty, []⟩ _ "acme" "site" (manifestFiles twoCrons) none ["a", "c"] "" twoCrons
    (Prod.ext rfl hok) (by decide) rfl).mpr ⟨?_, ?_, ?_⟩
  · decide
  · decide
  · decide

/-- `"a" + "/" + "b/c"` is `"a/b" + "/" + "c"`. -/
def sameKey : Manifest := ⟨[cronWorkflow "a" "b/c", cronWorkflow "a/b" "c"], by decide⟩

theorem sameKey_not_ownEntries :
    (uploadManifest sameKey).2 = .ok (.ok ["a", "a/b"]) ∧
      ¬ OwnEntries (manifestOptions sameKey) (uploadManifest sameKey).1 "acme" "site"
        (manifestFiles sameKey) sameKey := by
  refine ⟨by decide, ?_⟩
  intro h
  obtain ⟨state, hstate, hsize⟩ := h.size
  have hone : ((uploadManifest sameKey).1.getRepoState "acme" "site").map (·.entries.size) =
      some 1 := by decide
  rw [hstate, Option.map_some, hsize] at hone
  exact absurd hone (by decide)

end WorkflowEngine.Runtime
