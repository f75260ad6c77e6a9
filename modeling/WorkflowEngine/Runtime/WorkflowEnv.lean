import WorkflowEngine.Sdk.Bundle

/-!
# `workflow.env` in the guest

What the server makes of a bundle until the guest reads `workflow.env`: the validation of
the upload, the decryption of the secrets and the merge of `plugins/secrets.ts`. The
manifest's `env` is keyed by property and its secrets by variable name, so the guest finds
a secret under its own key only where the two are the same.
-/

namespace WorkflowEngine.Runtime.WorkflowEnv

open Lib Sdk
set_option autoImplicit false

/-! ## The server -/

/-- `workflowManifestSchema` on an uploaded manifest. What it asks of the other fields the build has
seen to. -/
def parseWorkflow (m : SealedWorkflowManifest) : Option WorkflowManifest :=
  match m.secrets with
  | none => some m.rest
  | some (secrets, keyId) =>
    if h : ∀ k ∈ secrets.keys, m.rest.env.hasProperty k = false then
      some { m.rest with
        secrets := some secrets
        secretsKeyId := some keyId
        secrets_iff := rfl
        secrets_disjoint := by
          intro secrets' hsecrets k hk
          obtain rfl := Option.some.inj hsecrets
          exact (OrderedMap.hasProperty_eq_false.mp (h k hk)).1 }
    else none

structure SecretsConfig where
  name : String
  env : OrderedMap String String
  plaintextStore : OrderedMap String String

/-- `mergedEnv` of `getSecretsConfigDescriptor`. -/
def SecretsConfig.mergedEnv (config : SecretsConfig) : OrderedMap String String :=
  (OrderedMap.empty.spread config.env).spread config.plaintextStore

/-- The `env` that `guest` installs. -/
def SecretsConfig.guestEnv (config : SecretsConfig) : OrderedMap String String :=
  OrderedMap.empty.spread config.mergedEnv

/-- From an uploaded manifest to `workflow.env`. -/
def workflowEnv (keyStore : SecretsKeyStore) (m : SealedWorkflowManifest) :
    Option (OrderedMap String String) := do
  let workflow ← parseWorkflow m
  let plaintextStore ← (decryptWorkflowSecrets workflow keyStore).toOption
  return SecretsConfig.guestEnv ⟨workflow.name, workflow.env, plaintextStore⟩

theorem get?_guestEnv (config : SecretsConfig) (key : String) :
    config.guestEnv.get? key = (config.plaintextStore.get? key).or (config.env.get? key) := by
  simp [SecretsConfig.guestEnv, SecretsConfig.mergedEnv, OrderedMap.get?_spread]

/-! ## Decryption -/

section Decrypt
variable {β : Type} {f : String × String → Except String β}

/-- A loop that fills a map under distinct keys and may throw. -/
theorem get?_foldlM_set {es : List (String × String)} (hnodup : (es.map Prod.fst).Nodup)
    {m out : OrderedMap String β}
    (h : es.foldlM (fun out e => do
      let v ← f e
      return out.set e.1 v) m = .ok out) (k : String) (v : β) :
    out.get? k = some v ↔ (∃ e ∈ es, e.1 = k ∧ f e = .ok v) ∨ (k ∉ es.map Prod.fst ∧ m.get? k = some v) := by
  induction es generalizing m with
  | nil =>
    cases h
    simp
  | cons e es ih =>
    rw [List.map_cons, List.nodup_cons] at hnodup
    obtain ⟨m', hm', h⟩ := bind_eq_ok h
    obtain ⟨w, hw, hset⟩ := bind_eq_ok hm'
    cases hset
    rw [ih hnodup.2 h, OrderedMap.get?_set]
    by_cases hk : k = e.1
    · subst hk
      have hnot : ¬∃ e' ∈ es, e'.1 = e.1 ∧ f e' = .ok v := by
        rintro ⟨e', he', hkey, _⟩
        exact hnodup.1 (hkey ▸ List.mem_map_of_mem he')
      simp [hnot, hnodup.1, hw]
    · simp [hk, Ne.symm hk]

theorem exists_foldlM_set {es : List (String × String)} (h : ∀ e ∈ es, ∃ v, f e = .ok v)
    (m : OrderedMap String β) :
    ∃ out, es.foldlM (fun out e => do
      let v ← f e
      return out.set e.1 v) m = .ok out := by
  induction es generalizing m with
  | nil => exact ⟨m, rfl⟩
  | cons e es ih =>
    obtain ⟨v, hv⟩ := h e List.mem_cons_self
    rw [List.foldlM_cons, hv]
    exact ih (fun e' he' => h e' (List.mem_cons_of_mem e he')) (m.set e.1 v)

end Decrypt

section Secrets
variable {workflow : WorkflowManifest} {keyStore : SecretsKeyStore} {secrets : OrderedMap String String}
  {keyId : String}

theorem get?_decryptWorkflowSecrets (hsecrets : workflow.secrets = some secrets)
    (hkey : workflow.secretsKeyId = some keyId) {store : OrderedMap String String}
    (h : decryptWorkflowSecrets workflow keyStore = .ok store) (name plaintext : String) :
    store.get? name = some plaintext ↔
      ∃ ciphertext, secrets.get? name = some ciphertext ∧ decryptSealed ciphertext keyId keyStore = .ok plaintext := by
  unfold decryptWorkflowSecrets at h
  rw [hsecrets, hkey] at h
  rw [get?_foldlM_set secrets.nodup h]
  constructor
  · rintro (⟨e, he, rfl, hplain⟩ | ⟨_, hempty⟩)
    · exact ⟨e.2, (secrets.get?_eq_some_iff e.1 e.2).mpr he, hplain⟩
    · cases hempty
  · rintro ⟨ciphertext, hget, hplain⟩
    exact Or.inl ⟨(name, ciphertext), (secrets.get?_eq_some_iff name ciphertext).mp hget, rfl, hplain⟩

theorem exists_decryptWorkflowSecrets (hsecrets : workflow.secrets = some secrets)
    (hkey : workflow.secretsKeyId = some keyId)
    (h : ∀ name ciphertext, secrets.get? name = some ciphertext →
      ∃ plaintext, decryptSealed ciphertext keyId keyStore = .ok plaintext) :
    ∃ store, decryptWorkflowSecrets workflow keyStore = .ok store := by
  unfold decryptWorkflowSecrets
  rw [hsecrets, hkey]
  apply exists_foldlM_set
  intro e he
  exact h e.1 e.2 ((secrets.get?_eq_some_iff e.1 e.2).mpr he)

theorem decryptWorkflowSecrets_of_none (hsecrets : workflow.secrets = none) :
    decryptWorkflowSecrets workflow keyStore = .ok .empty := by
  unfold decryptWorkflowSecrets
  rw [hsecrets]

end Secrets

/-! ## What the guest finds under a key -/

/-- `TextDecoder` would take the mark off. -/
def BomFree (value : String) : Prop := value.toList.head? ≠ some '\ufeff'

instance (value : String) : Decidable (BomFree value) := inferInstanceAs (Decidable (_ ≠ _))

/-- A key pair of the server: its public half seals what the key store opens. -/
structure KeyPair (keyStore : SecretsKeyStore) where
  key : PublicKey
  unsealCiphertext : String → Except String String
  known : keyStore.lookup key.keyId = some unsealCiphertext
  opens : ∀ value, BomFree value → unsealCiphertext (key.sealCiphertext value) = .ok value

/-- The values of the secrets are read back as they were. -/
def SecretsBomFree (record : OrderedMap String EnvValue) (env : OrderedMap String String) : Prop :=
  ∀ key r value, record.get? key = some (.ref r) → r.secret = true → env.get? (r.envName key) = some value →
    BomFree value

section Guest
variable {keyStore : SecretsKeyStore} (pair : KeyPair keyStore) {config : DefineWorkflowConfig}
  {env : OrderedMap String String} {m : SealedWorkflowManifest} {out : OrderedMap String String}

theorem decryptSealed_sealed {value : String} (h : BomFree value) :
    decryptSealed (pair.key.sealCiphertext value) pair.key.keyId keyStore = .ok value := by
  unfold decryptSealed
  rw [pair.known]
  exact pair.opens value h

theorem bomFree_of_binding (hbom : SecretsBomFree config.env env) {name value : String}
    (hname : name ∈ config.bindings) (hvalue : env.get? name = some value) : BomFree value := by
  obtain ⟨key, r, hr, hsecret, rfl⟩ := (mem_secretBindings name).mp hname
  exact hbom key r value hr hsecret hvalue

/-- A binding that is sealed was set in the environment, or is a name of `Object.prototype`. -/
theorem sealed_cases {key : PublicKey} {name ciphertext : String}
    (h : sealBinding key env name = .ok (name, ciphertext)) :
    (∃ value, env.get? name = some value ∧ ciphertext = key.sealCiphertext value) ∨ name ∈ objectPrototype := by
  unfold sealBinding OrderedMap.read at h
  cases hget : env.get? name with
  | some value =>
    rw [hget] at h
    cases h
    exact Or.inl ⟨value, rfl, rfl⟩
  | none =>
    rw [hget] at h
    by_cases hproto : name ∈ objectPrototype
    · exact Or.inr hproto
    · simp only [if_neg hproto] at h
      cases h

/-- The upload of a manifest is only accepted where no secret has a name that every object has. -/
theorem not_inherited {workflow : WorkflowManifest} (hb : Bundled config pair.key env m)
    (hparse : parseWorkflow m = some workflow) {name : String} (hname : name ∈ config.bindings)
    (hproto : name ≠ "__proto__") : name ∉ objectPrototype := by
  obtain ⟨ciphertext, hsealed⟩ := hb.present name hname
  rcases hb.sealed with ⟨_, hempty⟩ | ⟨secrets, hsecrets, hget⟩
  · rw [hempty] at hname
    cases hname
  · have hmem : name ∈ secrets.keys := by
      have hsome := (hget name ciphertext).mpr ⟨⟨hname, hsealed⟩, hproto⟩
      by_contra hnot
      rw [(secrets.get?_eq_none_iff name).mpr hnot] at hsome
      cases hsome
    unfold parseWorkflow at hparse
    rw [hsecrets] at hparse
    simp only at hparse
    split at hparse
    · rename_i hcheck
      exact (OrderedMap.hasProperty_eq_false.mp (hcheck name hmem)).2
    · cases hparse

/-- What the decrypted secrets have under a name: the value of that variable. -/
theorem get?_plaintextStore {workflow : WorkflowManifest} {store : OrderedMap String String}
    (hb : Bundled config pair.key env m) (hbom : SecretsBomFree config.env env)
    (hparse : parseWorkflow m = some workflow) (hstore : decryptWorkflowSecrets workflow keyStore = .ok store)
    (name : String) :
    workflow.env = m.rest.env ∧
      store.get? name = if name ∈ config.bindings ∧ name ≠ "__proto__" then env.get? name else none := by
  rcases hb.sealed with ⟨hnone, hempty⟩ | ⟨secrets, hsecrets, hget⟩
  · unfold parseWorkflow at hparse
    rw [hnone] at hparse
    obtain rfl := Option.some.inj hparse
    rw [decryptWorkflowSecrets_of_none m.unsealed.1] at hstore
    cases hstore
    rw [hempty]
    exact ⟨rfl, rfl⟩
  · obtain ⟨henv, hws, hwk⟩ : workflow.env = m.rest.env ∧ workflow.secrets = some secrets ∧
        workflow.secretsKeyId = some pair.key.keyId := by
      unfold parseWorkflow at hparse
      rw [hsecrets] at hparse
      simp only at hparse
      split at hparse
      · obtain rfl := Option.some.inj hparse
        exact ⟨rfl, rfl, rfl⟩
      · cases hparse
    refine ⟨henv, ?_⟩
    apply Option.ext
    intro plaintext
    rw [get?_decryptWorkflowSecrets hws hwk hstore]
    by_cases hname : name ∈ config.bindings ∧ name ≠ "__proto__"
    · rw [if_pos hname]
      have hnot := not_inherited pair hb hparse hname.1 hname.2
      obtain ⟨ciphertext, hsealed⟩ := hb.present name hname.1
      have hciphertext := (hget name ciphertext).mpr ⟨⟨hname.1, hsealed⟩, hname.2⟩
      obtain ⟨value, hvalue, rfl⟩ := (sealed_cases hsealed).resolve_right hnot
      have hopen := decryptSealed_sealed pair (bomFree_of_binding hbom hname.1 hvalue)
      rw [hvalue, hciphertext]
      simp [hopen]
    · rw [if_neg hname]
      have hnone : secrets.get? name = none := by
        cases hs : secrets.get? name with
        | none => rfl
        | some ciphertext =>
          obtain ⟨⟨hmem, _⟩, hproto⟩ := (hget name ciphertext).mp hs
          exact absurd ⟨hmem, hproto⟩ hname
      simp [hnone]

/-- A key that names a secret variable has that variable's value, any other what the manifest has. -/
theorem get?_workflowEnv (hb : Bundled config pair.key env m) (hbom : SecretsBomFree config.env env)
    (hout : workflowEnv keyStore m = some out) (key : String) :
    out.get? key = if key ∈ config.bindings ∧ key ≠ "__proto__" then env.get? key else m.rest.env.get? key := by
  obtain ⟨workflow, hparse, hrest⟩ := Option.bind_eq_some_iff.mp hout
  obtain ⟨store, hstore, hguest⟩ := Option.bind_eq_some_iff.mp hrest
  obtain rfl := Option.some.inj hguest
  have hdecrypted : decryptWorkflowSecrets workflow keyStore = .ok store := by
    cases hd : decryptWorkflowSecrets workflow keyStore with
    | error e =>
      rw [hd] at hstore
      cases hstore
    | ok store' =>
      rw [hd] at hstore
      cases hstore
      rfl
  obtain ⟨henv, hget⟩ := get?_plaintextStore pair hb hbom hparse hdecrypted key
  rw [get?_guestEnv]
  dsimp only
  rw [hget, henv]
  by_cases hname : key ∈ config.bindings ∧ key ≠ "__proto__"
  · rw [if_pos hname, if_pos hname]
    obtain ⟨ciphertext, hsealed⟩ := hb.present key hname.1
    obtain ⟨value, hvalue, _⟩ :=
      (sealed_cases hsealed).resolve_right (not_inherited pair hb hparse hname.1 hname.2)
    rw [hvalue]
    rfl
  · rw [if_neg hname, if_neg hname]
    rfl

end Guest

/-! ## The declared environment -/

/-- The value that the record declares under a key. -/
def declaredValue (env : OrderedMap String String) (key : String) : EnvValue → Option String
  | .text value => some value
  | .ref r => (env.get? (r.envName key)).or r.default

/-- The guest has the declared keys with the declared values, and no others. -/
def AsDeclared (record : OrderedMap String EnvValue) (env out : OrderedMap String String) : Prop :=
  ∀ key,
    match record.get? key with
    | none => out.get? key = none
    | some value => (declaredValue env key value).isSome ∧ out.get? key = declaredValue env key value

/-- Whatever the environment, a workflow that is built and sealed has its declared environment. -/
def EnvFaithful {keyStore : SecretsKeyStore} (pair : KeyPair keyStore) (mod : WorkflowModule)
    (config : DefineWorkflowConfig) : Prop :=
  ∀ env m, SecretsBomFree config.env env → bundle mod config pair.key env = .ok m →
    ∃ out, workflowEnv keyStore m = some out ∧ AsDeclared config.env env out

/-- Every secret has its variable's name for a key, which is no name that every object has. -/
structure SecretsKeyedByName (record : OrderedMap String EnvValue) : Prop where
  no_proto : record.get? "__proto__" = none
  secrets : ∀ key r, record.get? key = some (.ref r) → r.secret = true →
    r.envName key = key ∧ key ∉ objectPrototype

section Declared
variable {keyStore : SecretsKeyStore} (pair : KeyPair keyStore) {mod : WorkflowModule}
  {config : DefineWorkflowConfig} {env : OrderedMap String String} {m : SealedWorkflowManifest}

/-- The bindings are then the keys of the secrets. -/
theorem SecretsKeyedByName.mem_bindings (h : SecretsKeyedByName config.env) (key : String) :
    key ∈ config.bindings ↔ ∃ r, config.env.get? key = some (.ref r) ∧ r.secret = true := by
  constructor
  · intro hkey
    obtain ⟨key', r, hr, hsecret, rfl⟩ := (mem_secretBindings key).mp hkey
    obtain ⟨hname, _⟩ := h.secrets key' r hr hsecret
    rw [hname]
    exact ⟨r, hr, hsecret⟩
  · rintro ⟨r, hr, hsecret⟩
    exact (mem_secretBindings key).mpr ⟨key, r, hr, hsecret, (h.secrets key r hr hsecret).1⟩

theorem SecretsKeyedByName.not_inherited (h : SecretsKeyedByName config.env) {name : String}
    (hname : name ∈ config.bindings) : name ∉ objectPrototype := by
  obtain ⟨r, hr, hsecret⟩ := (h.mem_bindings name).mp hname
  exact (h.secrets name r hr hsecret).2

/-- The server then accepts the manifest and opens its secrets. -/
theorem exists_workflowEnv (h : SecretsKeyedByName config.env) (hb : Bundled config pair.key env m)
    (hbom : SecretsBomFree config.env env) : ∃ out, workflowEnv keyStore m = some out := by
  unfold workflowEnv
  rcases hb.sealed with ⟨hnone, _⟩ | ⟨secrets, hsecrets, hget⟩
  · have hparse : parseWorkflow m = some m.rest := by
      unfold parseWorkflow
      rw [hnone]
    rw [hparse, Option.bind_eq_bind, Option.bind_some, decryptWorkflowSecrets_of_none m.unsealed.1]
    exact ⟨_, rfl⟩
  · have hcheck : ∀ k ∈ secrets.keys, m.rest.env.hasProperty k = false := by
      intro k hk
      obtain ⟨ciphertext, hciphertext⟩ : ∃ ciphertext, secrets.get? k = some ciphertext := by
        rw [← Option.ne_none_iff_exists']
        intro hnone
        exact (secrets.get?_eq_none_iff k).mp hnone hk
      obtain ⟨⟨hname, _⟩, _⟩ := (hget k ciphertext).mp hciphertext
      refine OrderedMap.hasProperty_eq_false.mpr ⟨?_, h.not_inherited hname⟩
      rw [← OrderedMap.get?_eq_none_iff]
      cases hvalue : m.rest.env.get? k with
      | none => rfl
      | some value =>
        obtain ⟨_, _, _, henv⟩ := hb.resolved
        exact absurd hname ((henv k value).mp hvalue).1.2
    have hopens : ∀ name ciphertext, secrets.get? name = some ciphertext →
        ∃ plaintext, decryptSealed ciphertext pair.key.keyId keyStore = .ok plaintext := by
      intro name ciphertext hciphertext
      obtain ⟨⟨hname, hsealed⟩, _⟩ := (hget name ciphertext).mp hciphertext
      obtain ⟨value, hvalue, rfl⟩ := (sealed_cases hsealed).resolve_right (h.not_inherited hname)
      exact ⟨value, decryptSealed_sealed pair (bomFree_of_binding hbom hname hvalue)⟩
    obtain ⟨workflow, hparse, hws, hwk⟩ : ∃ workflow, parseWorkflow m = some workflow ∧
        workflow.secrets = some secrets ∧ workflow.secretsKeyId = some pair.key.keyId := by
      unfold parseWorkflow
      rw [hsecrets]
      simp only [dif_pos hcheck]
      exact ⟨_, rfl, rfl, rfl⟩
    obtain ⟨store, hstore⟩ := exists_decryptWorkflowSecrets hws hwk hopens
    rw [hparse, Option.bind_eq_bind, Option.bind_some, hstore]
    exact ⟨_, rfl⟩

/-- A plain reference that was resolved has its variable's value, or the default. -/
theorem resolved_plain {key : String} {r : EnvRef} {value : String} (hsecret : r.secret = false)
    (h : resolveEntry env (key, .ref r) = .ok (key, .own value)) :
    declaredValue env key (.ref r) = some value := by
  simp only [resolveEntry, hsecret, Bool.false_eq_true, if_false, OrderedMap.read] at h
  cases hget : env.get? (r.envName key) with
  | some value' =>
    simp only [hget, Option.some_or] at h
    cases h
    rw [declaredValue, hget]
    rfl
  | none =>
    by_cases hproto : r.envName key ∈ objectPrototype
    · simp only [hget, if_pos hproto, Option.some_or] at h
      cases h
    · cases hdefault : r.default with
      | none =>
        simp only [hget, if_neg hproto, hdefault, Option.map_none, Option.none_or] at h
        cases h
      | some value' =>
        simp only [hget, if_neg hproto, hdefault, Option.map_some, Option.none_or] at h
        cases h
        rw [declaredValue, hget, hdefault]
        rfl

/-- A value that is no secret crosses in the manifest, as the build resolved it. -/
theorem declared_of_plain (h : SecretsKeyedByName config.env) (hb : Bundled config pair.key env m)
    (hbom : SecretsBomFree config.env env) {out : OrderedMap String String} (hout : workflowEnv keyStore m = some out)
    {key : String} {value : EnvValue} {declared : Option String} (hvalue : config.env.get? key = some value)
    (hnot : key ∉ config.bindings)
    (hdeclared : ∀ v, resolveEntry env (key, value) = .ok (key, .own v) → declared = some v) :
    declared.isSome ∧ out.get? key = declared := by
  have hkey := get?_workflowEnv pair hb hbom hout key
  obtain ⟨resolved, hresolved, htext, henv⟩ := hb.resolved
  have hproto : key ≠ "__proto__" := by
    rintro rfl
    rw [h.no_proto] at hvalue
    cases hvalue
  obtain ⟨pairs, hpairs, _⟩ := bind_eq_ok hresolved
  obtain ⟨p, hp⟩ := ok_of_mapM hpairs ((config.env.get?_eq_some_iff key value).mp hvalue)
  obtain rfl : p.1 = key := resolveEntry_fst hp
  have hget := (get?_resolveEnvRecord hresolved p.1 p.2).mpr ⟨⟨value, hvalue, hp⟩, hproto⟩
  obtain ⟨v, hv⟩ := htext _ _ hget hnot
  rw [hv] at hget
  rw [if_neg (fun hmem => hnot hmem.1), (henv p.1 v).mpr ⟨⟨hget, hnot⟩, hproto⟩] at hkey
  have hentry : resolveEntry env (p.1, value) = .ok (p.1, .own v) := by
    rw [hp, ← hv]
  rw [hdeclared v hentry]
  exact ⟨rfl, hkey⟩

theorem undeclared_absent (h : SecretsKeyedByName config.env) (hb : Bundled config pair.key env m)
    (hbom : SecretsBomFree config.env env) {out : OrderedMap String String} (hout : workflowEnv keyStore m = some out)
    {key : String} (hvalue : config.env.get? key = none) : out.get? key = none := by
  obtain ⟨resolved, hresolved, _, henv⟩ := hb.resolved
  have hnot : key ∉ config.bindings := by
    rw [h.mem_bindings]
    rintro ⟨r, hr, _⟩
    rw [hvalue] at hr
    cases hr
  rw [get?_workflowEnv pair hb hbom hout key, if_neg (fun hmem => hnot hmem.1)]
  cases hget : m.rest.env.get? key with
  | none => rfl
  | some v =>
    obtain ⟨⟨hget', _⟩, _⟩ := (henv key v).mp hget
    obtain ⟨⟨value, hvalue', _⟩, _⟩ := (get?_resolveEnvRecord hresolved key _).mp hget'
    rw [hvalue] at hvalue'
    cases hvalue'

/-- A secret crosses sealed, under the name of its variable, which is its key. -/
theorem declared_of_secret (h : SecretsKeyedByName config.env) (hb : Bundled config pair.key env m)
    (hbom : SecretsBomFree config.env env) {out : OrderedMap String String} (hout : workflowEnv keyStore m = some out)
    {key : String} {r : EnvRef} (hvalue : config.env.get? key = some (.ref r)) (hsecret : r.secret = true) :
    (declaredValue env key (.ref r)).isSome ∧ out.get? key = declaredValue env key (.ref r) := by
  have hkey := get?_workflowEnv pair hb hbom hout key
  obtain ⟨hname, hnot⟩ := h.secrets key r hvalue hsecret
  have hmem : key ∈ config.bindings := (h.mem_bindings key).mpr ⟨r, hvalue, hsecret⟩
  have hproto : key ≠ "__proto__" := by
    rintro rfl
    exact hnot (by decide)
  rw [if_pos ⟨hmem, hproto⟩] at hkey
  obtain ⟨ciphertext, hsealed⟩ := hb.present key hmem
  obtain ⟨v, hv, _⟩ := (sealed_cases hsealed).resolve_right hnot
  have hdeclared : declaredValue env key (.ref r) = some v := by
    rw [declaredValue, hname, hv, Option.some_or]
  rw [hdeclared, hkey, hv]
  exact ⟨rfl, rfl⟩

theorem asDeclared_of_keyedByName (h : SecretsKeyedByName config.env) (hb : Bundled config pair.key env m)
    (hbom : SecretsBomFree config.env env) {out : OrderedMap String String}
    (hout : workflowEnv keyStore m = some out) : AsDeclared config.env env out := by
  intro key
  cases hvalue : config.env.get? key with
  | none => exact undeclared_absent pair h hb hbom hout hvalue
  | some value =>
    cases value with
    | text value =>
      refine declared_of_plain pair h hb hbom hout hvalue ?_ ?_
      · rw [h.mem_bindings]
        rintro ⟨r, hr, _⟩
        rw [hvalue] at hr
        cases hr
      · intro v hv
        cases hv
        rfl
    | ref r =>
      cases hsecret : r.secret with
      | false =>
        refine declared_of_plain pair h hb hbom hout hvalue ?_ fun v hv => resolved_plain hsecret hv
        rw [h.mem_bindings]
        rintro ⟨r', hr', hsecret'⟩
        rw [hvalue] at hr'
        cases hr'
        rw [hsecret] at hsecret'
        cases hsecret'
      | true => exact declared_of_secret pair h hb hbom hout hvalue hsecret

/-- With another value for the variable of a secret the guest would have to see another value under the
secret's key; what it sees there does not come from that variable where the names differ. -/
theorem envName_eq_of_faithful (hf : EnvFaithful pair mod config) {env₀ : OrderedMap String String}
    {m₀ : SealedWorkflowManifest} (hbom₀ : SecretsBomFree config.env env₀)
    (hm₀ : bundle mod config pair.key env₀ = .ok m₀) {key : String} {r : EnvRef}
    (hr : config.env.get? key = some (.ref r)) (hsecret : r.secret = true) (hproto : key ≠ "__proto__") :
    r.envName key = key := by
  by_contra hne
  have hseen : ∀ value, BomFree value →
      (if key ∈ config.bindings then env₀.get? key = some value
        else encodeSentinel (r.envName key) = .ok value) := by
    intro value hfree
    obtain ⟨m', hm'⟩ := exists_bundle_set hm₀ (r.envName key) value
    have hbom' : SecretsBomFree config.env (env₀.set (r.envName key) value) := by
      intro key' r' value' hr' hsecret' hvalue'
      rw [OrderedMap.get?_set] at hvalue'
      split at hvalue'
      · obtain rfl := Option.some.inj hvalue'
        exact hfree
      · exact hbom₀ key' r' value' hr' hsecret' hvalue'
    obtain ⟨out, hout, hdeclared⟩ := hf _ m' hbom' hm'
    have hb := bundled_of_bundle hm'
    have hkey := get?_workflowEnv pair hb hbom' hout key
    have hvalue := hdeclared key
    rw [hr] at hvalue
    dsimp only at hvalue
    rw [declaredValue, OrderedMap.get?_set_self, Option.some_or] at hvalue
    rw [hvalue.2] at hkey
    by_cases hmem : key ∈ config.bindings
    · rw [if_pos hmem]
      rw [if_pos ⟨hmem, hproto⟩, OrderedMap.get?_set_of_ne _ _ _ (Ne.symm hne)] at hkey
      exact hkey.symm
    · rw [if_neg hmem]
      rw [if_neg (fun h => hmem h.1)] at hkey
      obtain ⟨resolved, hresolved, _, henv⟩ := hb.resolved
      obtain ⟨⟨hget, _⟩, _⟩ := (henv key value).mp hkey.symm
      obtain ⟨⟨value', hvalue', hentry⟩, _⟩ := (get?_resolveEnvRecord hresolved key _).mp hget
      rw [hr] at hvalue'
      cases hvalue'
      simp only [resolveEntry, OrderedMap.read_set, hsecret, if_true, Option.some_or] at hentry
      obtain ⟨sentinel, hsentinel, hown⟩ := bind_eq_ok hentry
      cases hown
      exact hsentinel
  have hx := hseen "x" (by decide)
  have hy := hseen "y" (by decide)
  split at hx
  · rename_i hmem
    rw [if_pos hmem, hx] at hy
    exact absurd (Option.some.inj hy) (by decide)
  · rename_i hmem
    rw [if_neg hmem, hx] at hy
    exact absurd (Except.ok.inj hy) (by decide)

/-- For every record that can be built: the guest sees the declared environment, whatever the values of
the variables, exactly when each secret stands under its variable's name, and that is no name of
`Object.prototype`. -/
theorem envFaithful_iff_keyedByName (mod : WorkflowModule) (config : DefineWorkflowConfig)
    (hbuilds : ∃ env m, SecretsBomFree config.env env ∧ bundle mod config pair.key env = .ok m) :
    EnvFaithful pair mod config ↔ SecretsKeyedByName config.env := by
  obtain ⟨env₀, m₀, hbom₀, hm₀⟩ := hbuilds
  constructor
  · intro hf
    obtain ⟨out, hout, hdeclared⟩ := hf env₀ m₀ hbom₀ hm₀
    have hb := bundled_of_bundle hm₀
    have hno : config.env.get? "__proto__" = none := by
      cases hvalue : config.env.get? "__proto__" with
      | none => rfl
      | some value =>
        have hkey := get?_workflowEnv pair hb hbom₀ hout "__proto__"
        have hseen := hdeclared "__proto__"
        rw [hvalue] at hseen
        obtain ⟨hsome, hsame⟩ := hseen
        rw [← hsame, hkey, if_neg (fun h => h.2 rfl)] at hsome
        obtain ⟨v, hv⟩ := Option.isSome_iff_exists.mp hsome
        obtain ⟨_, _, _, henv⟩ := hb.resolved
        exact absurd rfl ((henv _ v).mp hv).2
    refine ⟨hno, ?_⟩
    intro key r hr hsecret
    have hproto : key ≠ "__proto__" := by
      rintro rfl
      rw [hno] at hr
      cases hr
    have hname := envName_eq_of_faithful pair hf hbom₀ hm₀ hr hsecret hproto
    obtain ⟨workflow, hparse, _⟩ := Option.bind_eq_some_iff.mp hout
    have hmem : key ∈ config.bindings := (mem_secretBindings key).mpr ⟨key, r, hr, hsecret, hname⟩
    exact ⟨hname, not_inherited pair hb hparse hmem hproto⟩
  · intro h env m hbom hm
    have hb := bundled_of_bundle hm
    obtain ⟨out, hout⟩ := exists_workflowEnv pair h hb hbom
    exact ⟨out, hout, asDeclared_of_keyedByName pair h hb hbom hout⟩

end Declared

theorem secretsBomFree_of_values {record : OrderedMap String EnvValue} {env : OrderedMap String String}
    (h : ∀ value ∈ env.values, BomFree value) : SecretsBomFree record env :=
  fun _ _ value _ _ hvalue => h value (OrderedMap.mem_values_of_get? hvalue)

/-! ## Two records -/

/-- A key store with one key, whose boxes are the plaintexts backwards. -/
def mirrorStore : SecretsKeyStore where
  lookup keyId :=
    if keyId = "00112233aabbccdd" then some fun ciphertext => .ok (String.ofList ciphertext.toList.reverse) else none

def mirrorPair : KeyPair mirrorStore where
  key := ⟨"00112233aabbccdd", fun plaintext => String.ofList plaintext.toList.reverse⟩
  unsealCiphertext ciphertext := .ok (String.ofList ciphertext.toList.reverse)
  known := rfl
  opens value _ := by simp

/-- A workflow file with one manual trigger. -/
def shop : WorkflowModule := ⟨"shop", "0f3a", [], [⟨.manual, "go", .object [], .null, .null⟩], []⟩

def apiVariables : OrderedMap String String := OrderedMap.empty.set "API_TOKEN" "s3cret"

/-- `{ API_TOKEN: env({ secret: true }) }` -/
def keyedSecret : DefineWorkflowConfig :=
  ⟨none, OrderedMap.empty.set "API_TOKEN" (.ref (env (.secret none)))⟩

theorem envFaithful_keyedSecret : EnvFaithful mirrorPair shop keyedSecret := by
  refine (envFaithful_iff_keyedByName mirrorPair shop keyedSecret ?_).mpr ⟨rfl, ?_⟩
  · exact ⟨apiVariables, _, secretsBomFree_of_values (by decide), rfl⟩
  · intro key r hr _
    have hmem := (keyedSecret.env.get?_eq_some_iff key (.ref r)).mp hr
    obtain ⟨rfl, href⟩ := Prod.ext_iff.mp (List.mem_singleton.mp hmem)
    cases href
    exact ⟨rfl, by decide⟩

/-- `{ TOKEN: env({ name: "API_TOKEN", secret: true }) }` -/
def renamedSecret : DefineWorkflowConfig :=
  ⟨none, OrderedMap.empty.set "TOKEN" (.ref (env (.secret (some "API_TOKEN"))))⟩

/-- The guest sees the sentinel under the declared key, and the secret under one that was not declared. -/
theorem renamedSecret_not_faithful :
    (∃ m out, bundle shop renamedSecret mirrorPair.key apiVariables = .ok m ∧
      workflowEnv mirrorStore m = some out ∧
        out.entries = [("TOKEN", "\x00secret:API_TOKEN\x00"), ("API_TOKEN", "s3cret")]) ∧
    ¬EnvFaithful mirrorPair shop renamedSecret := by
  obtain ⟨m, out, hm, hout, hentries, htoken⟩ : ∃ m out,
      bundle shop renamedSecret mirrorPair.key apiVariables = .ok m ∧ workflowEnv mirrorStore m = some out ∧
        out.entries = [("TOKEN", "\x00secret:API_TOKEN\x00"), ("API_TOKEN", "s3cret")] ∧
          out.get? "TOKEN" = some "\x00secret:API_TOKEN\x00" :=
    ⟨_, _, rfl, rfl, rfl, rfl⟩
  refine ⟨⟨m, out, hm, hout, hentries⟩, ?_⟩
  intro hf
  obtain ⟨out', hout', hdeclared⟩ := hf apiVariables m (secretsBomFree_of_values (by decide)) hm
  obtain rfl := Option.some.inj (hout.symm.trans hout')
  have hsame : out.get? "TOKEN" = some "s3cret" := (hdeclared "TOKEN").2
  rw [htoken] at hsame
  exact absurd (Option.some.inj hsame) (by decide)

end WorkflowEngine.Runtime.WorkflowEnv
