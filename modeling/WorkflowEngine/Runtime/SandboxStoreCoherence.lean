import WorkflowEngine.Runtime.SandboxStore

/-!
# What a cached sandbox was built from

The cache key is the owner and the `sha` of the manifest; the CLI hashes the
bundle alone. A sandbox bakes in name, env, decrypted secrets, action schemas and
queue validators of the manifest that caused its build. So `get` answers with a
sandbox of its own manifest exactly as long as a call that hits carries a manifest
that agrees with the previous call on that key.
-/

namespace WorkflowEngine.Runtime

open Lib
set_option autoImplicit false

variable {Z : Type}

/-- Two manifests from which the same sandbox is built. -/
structure WorkflowManifest.Agree (options : SandboxStoreOptions Z) (w w' : WorkflowManifest) : Prop where
  name : w.name = w'.name
  env : w.env = w'.env
  secrets : decryptWorkflowSecrets w options.keyStore = decryptWorkflowSecrets w' options.keyStore
  actions : compileActionValidators w = compileActionValidators w'
  queues : queueValidators options w = queueValidators options w'

theorem workflowConfig_eq_ok_iff (options : SandboxStoreOptions Z) (w : WorkflowManifest)
    (config : WorkflowConfig Z) :
    workflowConfig options w = .ok config ↔
      w.name = config.name ∧ w.env = config.env ∧
        decryptWorkflowSecrets w options.keyStore = .ok config.plaintextStore ∧
        compileActionValidators w = config.hostCallAction ∧
        queueValidators options w = .ok config.validators := by
  unfold workflowConfig
  cases hs : decryptWorkflowSecrets w options.keyStore with
  | error m => simp [bind, Except.bind]
  | ok plaintexts =>
    cases hq : queueValidators options w with
    | error m => simp [bind, Except.bind]
    | ok validators =>
      obtain ⟨name, env, store, actions, queues⟩ := config
      simp [bind, Except.bind, pure, Except.pure]

theorem workflowConfig_agree_iff {options : SandboxStoreOptions Z} {w w' : WorkflowManifest}
    {config : WorkflowConfig Z} (h : workflowConfig options w = .ok config) :
    workflowConfig options w' = .ok config ↔ w.Agree options w' := by
  obtain ⟨hn, he, hs, ha, hq⟩ := (workflowConfig_eq_ok_iff options w config).mp h
  rw [workflowConfig_eq_ok_iff]
  constructor
  · rintro ⟨hn', he', hs', ha', hq'⟩
    exact ⟨hn.trans hn'.symm, he.trans he'.symm, hs.trans hs'.symm, ha.trans ha'.symm,
      hq.trans hq'.symm⟩
  · intro hagree
    exact ⟨hagree.name ▸ hn, hagree.env ▸ he, hagree.secrets ▸ hs, hagree.actions ▸ ha,
      hagree.queues ▸ hq⟩

namespace SandboxStore

/-- Every promise that `get` handed out is of a sandbox built from the caller's own manifest. -/
def Coherent (options : SandboxStoreOptions Z) (s : SandboxStore Z) : Prop :=
  ∀ r ∈ s.gets, ∃ c, s.sandboxes[r.sandbox]? = some c ∧ workflowConfig options r.workflow = .ok c.config

def lastGet (s : SandboxStore Z) (key : String) : Option GetCall :=
  s.gets.find? fun r => storeKey r.owner r.workflow.sha = key

/-- A call that finds its key cached carries a manifest that agrees with the previous call's. -/
def UnchangedOnHit (options : SandboxStoreOptions Z) (s : SandboxStore Z) : StoreAct → Prop
  | .invoke owner workflow _ =>
    s.cache.has (storeKey owner workflow.sha) = true →
      ∀ prev, s.lastGet (storeKey owner workflow.sha) = some prev → prev.workflow.Agree options workflow
  | _ => True

/-- A step that answers no call: the cache can only lose entries. -/
structure Quiet (s t : SandboxStore Z) : Prop where
  gets : t.gets = s.gets
  cache : ∀ k e, t.cache.get? k = some e → s.cache.get? k = some e
  configs : t.sandboxes.map (·.config) = s.sandboxes.map (·.config)

theorem Quiet.refl (s : SandboxStore Z) : Quiet s s := ⟨rfl, fun _ _ h => h, rfl⟩

theorem Quiet.trans {s t u : SandboxStore Z} (h : Quiet s t) (h' : Quiet t u) : Quiet s u :=
  ⟨h'.gets.trans h.gets, fun k e he => h.cache k e (h'.cache k e he), h'.configs.trans h.configs⟩

theorem quiet_mapSandbox (s : SandboxStore Z) (b : Nat) (f : SandboxCell Z → SandboxCell Z)
    (hf : ∀ c, (f c).config = c.config) : Quiet s (s.mapSandbox b f) := by
  refine ⟨rfl, fun _ _ h => h, ?_⟩
  apply List.ext_getElem?
  intro j
  simp only [mapSandbox, List.getElem?_map, List.getElem?_modify]
  cases s.sandboxes[j]? with
  | none => rfl
  | some c =>
    by_cases h : b = j
    · simp [h, hf]
    · simp [h]

theorem quiet_setPhase (s : SandboxStore Z) (i : Nat) (p : InvokePhase) : Quiet s (s.setPhase i p) :=
  ⟨rfl, fun _ _ h => h, rfl⟩

theorem quiet_delete (s : SandboxStore Z) (k : String) :
    Quiet s { s with cache := s.cache.delete k } := by
  refine ⟨rfl, ?_, rfl⟩
  intro j e he
  rw [OrderedMap.get?_delete] at he
  split at he
  · cases he
  · exact he

theorem quiet_forget (s : SandboxStore Z) (b : Nat) : Quiet s (s.forget b) := by
  unfold forget
  split
  · exact Quiet.refl s
  · split
    · split
      · exact quiet_delete s _
      · exact Quiet.refl s
    · exact Quiet.refl s

theorem quiet_evict (s : SandboxStore Z) (e : CacheEntry) : Quiet s (s.evict e) :=
  (quiet_delete s e.key).trans (quiet_mapSandbox _ _ _ fun _ => rfl)

theorem quiet_foldl_evict (vs : List CacheEntry) (s : SandboxStore Z) : Quiet s (vs.foldl evict s) := by
  induction vs generalizing s with
  | nil => exact Quiet.refl s
  | cons v vs ih => exact (quiet_evict s v).trans (ih (s.evict v))

theorem quiet_sweep (s : SandboxStore Z) (maxCount : Nat) : Quiet s (s.sweep maxCount) := by
  unfold sweep
  split
  · exact Quiet.refl s
  · exact quiet_foldl_evict _ s

theorem quiet_mapSandbox_setPhase (s : SandboxStore Z) (b i : Nat) (f : SandboxCell Z → SandboxCell Z)
    (p : InvokePhase) (hf : ∀ c, (f c).config = c.config) :
    Quiet s ((s.mapSandbox b f).setPhase i p) :=
  (quiet_mapSandbox s b f hf).trans (quiet_setPhase _ i p)

theorem quiet_of_stepped {options : SandboxStoreOptions Z} {s t : SandboxStore Z} {a : StoreAct}
    (h : Stepped options s a t) (ha : ∀ owner workflow source, a ≠ .invoke owner workflow source) :
    Quiet s t := by
  cases h with
  | threw owner workflow source => exact absurd rfl (ha owner workflow source)
  | hit owner workflow source => exact absurd rfl (ha owner workflow source)
  | missed owner workflow source => exact absurd rfl (ha owner workflow source)
  | built b => exact quiet_mapSandbox s b _ fun _ => rfl
  | buildFailed b =>
    refine Quiet.trans ?_ (quiet_forget _ b)
    exact quiet_mapSandbox s b _ fun _ => rfl
  | enqueued i b => exact quiet_mapSandbox_setPhase s b i _ _ fun _ => rfl
  | rejected i => exact quiet_setPhase s i _
  | refused i => exact quiet_setPhase s i _
  | started i b => exact quiet_mapSandbox_setPhase s b i _ _ fun _ => rfl
  | cutOff i => exact quiet_setPhase s i _
  | ran i b => exact quiet_mapSandbox_setPhase s b i _ _ fun _ => rfl
  | finished i b => exact quiet_mapSandbox_setPhase s b i _ _ fun _ => rfl
  | terminated b => exact (quiet_forget s b).trans (quiet_mapSandbox _ b _ fun _ => rfl)
  | disposeCalled => exact ⟨rfl, fun _ _ h => h, rfl⟩
  | disposeCleared => exact ⟨rfl, fun _ _ h => by simp at h, rfl⟩
  | entryDisposed e _ pending =>
    have hq : Quiet s { s with dispose := .cleared pending } := ⟨rfl, fun _ _ h => h, rfl⟩
    exact hq.trans (quiet_mapSandbox _ e.sandbox _ fun _ => rfl)
  | entryFailed => exact ⟨rfl, fun _ _ h => h, rfl⟩

theorem Quiet.getElem? {s t : SandboxStore Z} (h : Quiet s t) {b : Nat} {c : SandboxCell Z}
    (hc : s.sandboxes[b]? = some c) : ∃ d, t.sandboxes[b]? = some d ∧ d.config = c.config := by
  have hmap : (t.sandboxes.map (·.config))[b]? = some c.config := by
    rw [h.configs, List.getElem?_map, hc]
    rfl
  rw [List.getElem?_map] at hmap
  exact Option.map_eq_some_iff.mp hmap

theorem Quiet.length_eq {s t : SandboxStore Z} (h : Quiet s t) :
    t.sandboxes.length = s.sandboxes.length := by
  simpa using congrArg List.length h.configs

/-- A cached entry is the one that the last call on its key was answered with. -/
structure Tracked (s : SandboxStore Z) : Prop where
  found : ∀ k e, s.cache.get? k = some e → ∃ r, s.lastGet k = some r ∧ r.sandbox = e.sandbox
  exists_ : ∀ r ∈ s.gets, r.sandbox < s.sandboxes.length

theorem tracked_create : Tracked (create : SandboxStore Z) :=
  ⟨fun _ _ h => by simp [create] at h, fun _ h => by simp [create] at h⟩

theorem Tracked.quiet {s t : SandboxStore Z} (h : Tracked s) (hq : Quiet s t) : Tracked t := by
  constructor
  · intro k e he
    have hlast : t.lastGet k = s.lastGet k := by simp only [lastGet, hq.gets]
    rw [hlast]
    exact h.found k e (hq.cache k e he)
  · intro r hr
    rw [hq.length_eq]
    exact h.exists_ r (hq.gets ▸ hr)

/-- An answered call becomes the last one on its key, and the key's entry is what it returned. -/
theorem Tracked.answer {s t : SandboxStore Z} (h : Tracked s) (owner : String)
    (workflow : WorkflowManifest) (e : CacheEntry)
    (hgets : t.gets = ⟨owner, workflow, e.sandbox⟩ :: s.gets)
    (hcache : ∀ k, t.cache.get? k =
      if k = storeKey owner workflow.sha then some e else s.cache.get? k)
    (hlen : s.sandboxes.length ≤ t.sandboxes.length) (he : e.sandbox < t.sandboxes.length) :
    Tracked t := by
  constructor
  · intro k e' hk
    rw [hcache] at hk
    simp only [lastGet, hgets, List.find?_cons]
    split at hk
    · rename_i hkey
      cases hk
      exact ⟨⟨owner, workflow, e.sandbox⟩, by simp [hkey], rfl⟩
    · rename_i hkey
      have hne : (storeKey owner workflow.sha = k) = False := by simp [Ne.symm hkey]
      simp only [hne, decide_false]
      exact h.found k e' hk
  · intro r hr
    rw [hgets] at hr
    rcases List.mem_cons.mp hr with rfl | hr
    · exact he
    · have := h.exists_ r hr
      omega

theorem tracked_hit {s : SandboxStore Z} (h : Tracked s) {owner : String} {workflow : WorkflowManifest}
    {e : CacheEntry} (hget : s.cache.get? (storeKey owner workflow.sha) = some e) :
    Tracked (s.hit owner workflow e) := by
  obtain ⟨r, hr, hsame⟩ := h.found _ _ hget
  have hlt := h.exists_ r (List.mem_of_find?_eq_some hr)
  apply h.answer owner workflow { e with runCount := e.runCount + 1 } rfl
  · intro k
    simp only [hit, OrderedMap.get?_set, OrderedMap.get?_delete]
    split
    · rfl
    · rfl
  · exact Nat.le_refl _
  · rw [← hsame] at *
    exact hlt

theorem tracked_insert {s : SandboxStore Z} (h : Tracked s) (owner : String)
    (workflow : WorkflowManifest) (bundleSource : String) (config : WorkflowConfig Z) :
    Tracked (s.insert owner workflow bundleSource config) := by
  apply h.answer owner workflow
    ⟨storeKey owner workflow.sha, owner, workflow.sha, s.sandboxes.length, 1⟩ rfl
  · intro k
    simp only [insert, OrderedMap.get?_set]
  · simp [insert]
  · simp [insert]

theorem quiet_invocations (s : SandboxStore Z) (ps : List InvokePhase) :
    Quiet s { s with invocations := ps } := ⟨rfl, fun _ _ h => h, rfl⟩

/-- What an `invoke` step does to the cache: nothing, a hit, or a new entry and a sweep. -/
theorem stepped_answer {options : SandboxStoreOptions Z} {s t : SandboxStore Z} {a : StoreAct}
    (h : Stepped options s a t) :
    (Quiet s t ∧ UnchangedOnHit options s a) ∨
    (∃ owner workflow source e, a = .invoke owner workflow source ∧
      s.cache.get? (storeKey owner workflow.sha) = some e ∧ Quiet (s.hit owner workflow e) t) ∨
    (∃ owner workflow source config, a = .invoke owner workflow source ∧
      s.cache.get? (storeKey owner workflow.sha) = none ∧ workflowConfig options workflow = .ok config ∧
      Quiet (s.insert owner workflow source config) t) := by
  cases a with
  | invoke owner workflow source =>
    cases h with
    | threw _ _ _ message hget =>
      refine Or.inl ⟨quiet_invocations s _, ?_⟩
      intro hhas
      simp [OrderedMap.has, hget] at hhas
    | hit _ _ _ e hget =>
      exact Or.inr (Or.inl ⟨owner, workflow, source, e, rfl, hget, quiet_invocations _ _⟩)
    | missed _ _ _ config t hget hconfig ht =>
      subst ht
      exact Or.inr (Or.inr ⟨owner, workflow, source, config, rfl, hget, hconfig,
        (quiet_sweep _ _).trans (quiet_invocations _ _)⟩)
  | _ => exact Or.inl ⟨quiet_of_stepped h (by simp), trivial⟩

theorem coherent_congr {options : SandboxStoreOptions Z} {s t : SandboxStore Z} (h : Quiet s t) :
    Coherent options t ↔ Coherent options s := by
  have hcell : ∀ (b : Nat) (w : WorkflowManifest),
      (∃ c, t.sandboxes[b]? = some c ∧ workflowConfig options w = .ok c.config) ↔
        ∃ c, s.sandboxes[b]? = some c ∧ workflowConfig options w = .ok c.config := by
    intro b w
    have hb := congrArg (fun l => l[b]?) h.configs
    simp only [List.getElem?_map] at hb
    cases hs : s.sandboxes[b]? with
    | none => simp_all
    | some c =>
      obtain ⟨d, hd, hdc⟩ := h.getElem? hs
      simp [hd, hdc]
  simp only [Coherent, h.gets, hcell]

theorem coherent_insert {options : SandboxStoreOptions Z} {s : SandboxStore Z} (ht : Tracked s)
    {owner : String} {workflow : WorkflowManifest} {source : String} {config : WorkflowConfig Z}
    (hconfig : workflowConfig options workflow = .ok config) :
    Coherent options (s.insert owner workflow source config) ↔ Coherent options s := by
  have hold : ∀ r ∈ s.gets, (s.insert owner workflow source config).sandboxes[r.sandbox]? =
      s.sandboxes[r.sandbox]? := fun r hr => List.getElem?_append_left (ht.exists_ r hr)
  constructor
  · intro h r hr
    rw [← hold r hr]
    exact h r (List.mem_cons_of_mem _ hr)
  · intro h r hr
    rcases List.mem_cons.mp hr with rfl | hr
    · refine ⟨_, List.getElem?_concat_length, hconfig⟩
    · rw [hold r hr]
      exact h r hr

/-- On a hit the call is answered rightly exactly when its manifest agrees with the previous one. -/
theorem coherent_hit {options : SandboxStoreOptions Z} {s : SandboxStore Z} (ht : Tracked s)
    (hs : Coherent options s) {owner : String} {workflow : WorkflowManifest} {source : String}
    {e : CacheEntry} (hget : s.cache.get? (storeKey owner workflow.sha) = some e) :
    Coherent options (s.hit owner workflow e) ↔
      UnchangedOnHit options s (.invoke owner workflow source) := by
  obtain ⟨prev, hprev, hsame⟩ := ht.found _ _ hget
  obtain ⟨c, hc, hconfig⟩ := hs prev (List.mem_of_find?_eq_some hprev)
  rw [hsame] at hc
  have hagree : workflowConfig options workflow = .ok c.config ↔ prev.workflow.Agree options workflow :=
    workflowConfig_agree_iff hconfig
  constructor
  · intro h _ prev' hprev'
    cases hprev.symm.trans hprev'
    obtain ⟨d, hd, hwd⟩ := h ⟨owner, workflow, e.sandbox⟩ List.mem_cons_self
    have hcd : c = d := Option.some.inj (hc.symm.trans hd)
    subst hcd
    exact hagree.mp hwd
  · intro h r hr
    rcases List.mem_cons.mp hr with rfl | hr
    · exact ⟨c, hc, hagree.mpr (h (by simp [OrderedMap.has, hget]) prev hprev)⟩
    · exact hs r hr

theorem tracked_step {options : SandboxStoreOptions Z} {s t : SandboxStore Z} {a : StoreAct}
    (h : Tracked s) (ht : step options s a = some t) : Tracked t := by
  rcases stepped_answer (step_cases ht) with
    ⟨hq, _⟩ | ⟨owner, workflow, source, e, rfl, hget, hq⟩ |
    ⟨owner, workflow, source, config, rfl, _, _, hq⟩
  · exact h.quiet hq
  · exact (tracked_hit h hget).quiet hq
  · exact (tracked_insert h owner workflow source config).quiet hq

theorem coherent_step_iff {options : SandboxStoreOptions Z} {s t : SandboxStore Z} {a : StoreAct}
    (h : Tracked s) (hs : Coherent options s) (ht : step options s a = some t) :
    Coherent options t ↔ UnchangedOnHit options s a := by
  rcases stepped_answer (step_cases ht) with
    ⟨hq, hok⟩ | ⟨owner, workflow, source, e, rfl, hget, hq⟩ |
    ⟨owner, workflow, source, config, rfl, hget, hconfig, hq⟩
  · rw [coherent_congr hq]
    exact ⟨fun _ => hok, fun _ => hs⟩
  · rw [coherent_congr hq]
    exact coherent_hit h hs hget
  · rw [coherent_congr hq, coherent_insert h hconfig]
    refine ⟨fun _ hhas => ?_, fun _ => hs⟩
    simp [OrderedMap.has, hget] at hhas

theorem coherent_of_step {options : SandboxStoreOptions Z} {s t : SandboxStore Z} {a : StoreAct}
    (h : Tracked s) (ht : step options s a = some t) (hc : Coherent options t) :
    Coherent options s := by
  rcases stepped_answer (step_cases ht) with
    ⟨hq, _⟩ | ⟨owner, workflow, source, e, rfl, _, hq⟩ |
    ⟨owner, workflow, source, config, rfl, _, hconfig, hq⟩
  · exact (coherent_congr hq).mp hc
  · intro r hr
    exact (coherent_congr hq).mp hc r (List.mem_cons_of_mem _ hr)
  · exact (coherent_insert h hconfig).mp ((coherent_congr hq).mp hc)

/-- Every invocation of a run gets a sandbox of its own manifest if and only if no call hits the
cache with a manifest that disagrees with the previous call on its key. -/
theorem coherent_iff_unchangedOnHit (options : SandboxStoreOptions Z) {s : SandboxStore Z}
    {acts : List StoreAct} (h : exec (step options) create acts = some s) :
    Coherent options s ↔ Along (step options) (UnchangedOnHit options) create acts := by
  have hcreate : Coherent options (create : SandboxStore Z) := by
    intro r hr
    simp [create] at hr
  exact exec_good_iff_along (fun _ _ _ hs ht => tracked_step hs ht)
    (fun _ _ _ hs hc ht => coherent_step_iff hs hc ht)
    (fun _ _ _ hs ht hc => coherent_of_step hs ht hc) tracked_create hcreate h

end SandboxStore

/-- A workflow whose bundle, and so its sha, does not depend on the two parameters. -/
def digestManifest (apiUrl schedule : String) : WorkflowManifest :=
  .plain "digest" "9f86d081" (OrderedMap.empty.set "API_URL" apiUrl)
    ⟨.cron, "daily", .object [("schedule", .string schedule), ("tz", .string "UTC")], .null, .null⟩
    [] List.nodup_nil

def plainOptions : SandboxStoreOptions Unit := ⟨⟨fun _ => none⟩, fun _ => .ok (), 10⟩

namespace SandboxStore

/-- An invocation under one manifest, an upload, and an invocation under the next. -/
def reupload (first second : WorkflowManifest) : List StoreAct :=
  [.invoke "acme" first "exports.daily = run", .buildResolved 0, .resume 0, .startRun 0,
    .settleRun 0 (.ok ()), .finish 0, .invoke "acme" second "exports.daily = run"]

/-- An upload that changes only the env keeps the sha, and the next invocation runs with the old env. -/
theorem changedEnv_not_coherent :
    ∃ s, exec (step plainOptions) create
        (reupload (digestManifest "https://old.test" "0 7 * * *")
          (digestManifest "https://new.test" "0 7 * * *")) = some s ∧
      ¬ Coherent plainOptions s := by
  refine ⟨_, rfl, ?_⟩
  intro h
  obtain ⟨c, hc, hconfig⟩ := h _ List.mem_cons_self
  cases hc
  have henv := ((workflowConfig_eq_ok_iff _ _ _).mp hconfig).2.1
  revert henv
  decide

theorem coherent_iff_unchangedOnHit_changedSchedule :
    ∃ s, exec (step plainOptions) create
        (reupload (digestManifest "https://old.test" "0 7 * * *")
          (digestManifest "https://old.test" "0 8 * * *")) = some s ∧
      Coherent plainOptions s := by
  have hrun := Option.some_get (x := exec (step plainOptions) create
    (reupload (digestManifest "https://old.test" "0 7 * * *")
      (digestManifest "https://old.test" "0 8 * * *"))) (by decide)
  refine ⟨_, hrun.symm, (coherent_iff_unchangedOnHit plainOptions hrun.symm).mpr ?_⟩
  -- Only the two calls of `get` have something to show; the first finds an empty cache.
  refine (along_cons_of_some rfl).mpr ⟨?_, (along_cons_of_some rfl).mpr ⟨trivial,
    (along_cons_of_some rfl).mpr ⟨trivial, (along_cons_of_some rfl).mpr ⟨trivial,
    (along_cons_of_some rfl).mpr ⟨trivial, (along_cons_of_some rfl).mpr ⟨trivial,
    (along_cons_of_some rfl).mpr ⟨?_, trivial⟩⟩⟩⟩⟩⟩⟩
  · intro hhas
    cases hhas
  · intro _ prev hprev
    cases hprev
    exact ⟨rfl, rfl, rfl, rfl, rfl⟩

end SandboxStore

end WorkflowEngine.Runtime
