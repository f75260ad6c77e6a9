import Mathlib.Data.List.TakeWhile
import WorkflowEngine.Runtime.TriggerUrls

/-!
# Which URLs lead to which entries

The `http` and `ws` sources beside the registry that reconfigures them with every
upload. After an upload, each http and ws trigger of its manifest is reached by its
own URL and by no other exactly when the names of the workflows fit the parser of
their triggers and no trigger has lost its entry to a later one.
-/

namespace WorkflowEngine.Runtime

open Lib
set_option autoImplicit false

variable {Z B : Type}

/-! ## Uploads and the two indexes -/

structure RepoUpload (B : Type) where
  owner : String
  repo : String
  files : OrderedMap String String
  tarballBytes : Option B
  outcomes : UploadOutcomes

structure Ingress (Z B : Type) where
  registry : Registry Z B
  http : HttpTriggerSource Z
  ws : WsTriggerSource Z

/-- The entries that an upload reconfigures the source of a kind with, if it gets as far. -/
def RepoUpload.reconfigured (u : RepoUpload B) (options : WorkflowRegistryOptions Z) (kind : TriggerKind) :
    Option (List (TriggerEntry Z)) :=
  match prepareOwnerRepoState options u.owner u.repo u.files with
  | .ok (.ok state) =>
    if kind ∈ options.backends ∧ u.outcomes.reconfigure kind = .ok then
      some (state.entriesOfKind kind)
    else none
  | _ => none

namespace Ingress

def registerOwner (options : WorkflowRegistryOptions Z) (g : Ingress Z B) (u : RepoUpload B) :
    Ingress Z B × Except String RegisterResult :=
  let (registry, result) :=
    g.registry.registerOwner options u.outcomes u.owner u.repo u.files u.tarballBytes
  let http := match u.reconfigured options .http with
    | none => g.http
    | some entries => g.http.reconfigure u.owner u.repo entries
  let ws := match u.reconfigured options .ws with
    | none => g.ws
    | some entries => g.ws.reconfigure u.owner u.repo entries
  (⟨registry, http, ws⟩, result)

/-- The sources of a server that has started. -/
def boot (registry : Registry Z B) (ready : Bool) : Ingress Z B := ⟨registry, ⟨.empty, ready⟩, ⟨.empty⟩⟩

def run (options : WorkflowRegistryOptions Z) (g : Ingress Z B) (us : List (RepoUpload B)) :
    Ingress Z B :=
  us.foldl (fun g u => (g.registerOwner options u).1) g

end Ingress

theorem lookup_http_reconfigure (s : HttpTriggerSource Z) (owner repo : String)
    (entries : List (TriggerEntry Z)) (o r w t : String) :
    (s.reconfigure owner repo entries).pairs.lookup o r w t =
      if pairKey o r = pairKey owner repo then (sourceMap entries).get? (entryKey w t)
      else s.pairs.lookup o r w t := by
  unfold HttpTriggerSource.reconfigure EntryIndex.lookup
  dsimp only
  by_cases hempty : entries.length = 0
  · obtain rfl := List.length_eq_zero_iff.mp hempty
    rw [if_pos hempty]
    dsimp only
    rw [OrderedMap.get?_delete]
    split <;> rfl
  · rw [if_neg hempty]
    dsimp only
    rw [OrderedMap.get?_set]
    split <;> rfl

theorem lookup_ws_reconfigure (s : WsTriggerSource Z) (owner repo : String)
    (entries : List (TriggerEntry Z)) (o r w t : String) :
    (s.reconfigure owner repo entries).entries.lookup o r w t =
      if pairKey o r = pairKey owner repo then (sourceMap entries).get? (entryKey w t)
      else s.entries.lookup o r w t := by
  unfold WsTriggerSource.reconfigure EntryIndex.lookup
  dsimp only
  by_cases hempty : (sourceMap entries).size = 0
  · have hmap : sourceMap entries = .empty :=
      OrderedMap.ext_entries (List.length_eq_zero_iff.mp hempty)
    rw [if_pos hempty, hmap]
    dsimp only
    rw [OrderedMap.get?_delete]
    split <;> rfl
  · rw [if_neg hempty]
    dsimp only
    rw [OrderedMap.get?_set]
    split <;> rfl

/-- What the URL of a repo finds in an index belongs to the repo. -/
def EntryIndex.Owned (pairs : EntryIndex Z) : Prop :=
  ∀ o r w t e, Plain o → Plain r → pairs.lookup o r w t = some e → e.owner = o ∧ e.repo = r

theorem mem_sourceMap {entries : List (TriggerEntry Z)} {w t : String} {e : TriggerEntry Z}
    (h : (sourceMap entries).get? (entryKey w t) = some e) :
    e ∈ entries ∧ entryKey e.descriptor.workflowName e.descriptor.name = entryKey w t := by
  rcases OrderedMap.mem_of_get?_foldl_set _ _ entries h with ⟨e', he, hkey, rfl⟩ | hnone
  · exact ⟨he, hkey⟩
  · simp at hnone

theorem owner_of_reconfigured {options : WorkflowRegistryOptions Z} {u : RepoUpload B}
    {kind : TriggerKind} {entries : List (TriggerEntry Z)}
    (h : u.reconfigured options kind = some entries) {e : TriggerEntry Z} (he : e ∈ entries) :
    e.owner = u.owner ∧ e.repo = u.repo := by
  unfold RepoUpload.reconfigured at h
  split at h
  · rename_i state hstate
    split at h
    · cases h
      obtain ⟨raw, manifest, -, -, regs, -, hregs, hentries⟩ := prepareOwnerRepoState_entries hstate
      obtain ⟨k, hk⟩ := OrderedMap.get?_of_mem_values (List.mem_of_mem_filter he)
      rw [hentries] at hk
      rcases OrderedMap.mem_of_get?_foldl_set _ _ regs hk with ⟨x, hx, -, rfl⟩ | hnone
      · obtain ⟨howner, hrepo, -⟩ := entryOf_eq_some (hregs x hx).1
        exact ⟨howner, hrepo⟩
      · simp at hnone
    · cases h
  · cases h

/-- One source's step. -/
theorem Owned.of_reconfigure {pairs pairs' : EntryIndex Z} {options : WorkflowRegistryOptions Z}
    {u : RepoUpload B} {kind : TriggerKind} {entries : List (TriggerEntry Z)} (h : pairs.Owned)
    (hentries : u.reconfigured options kind = some entries)
    (hlookup : ∀ o r w t, pairs'.lookup o r w t =
      if pairKey o r = pairKey u.owner u.repo then (sourceMap entries).get? (entryKey w t)
      else pairs.lookup o r w t) : pairs'.Owned := by
  intro o r w t e ho hr he
  rw [hlookup] at he
  split at he
  · rename_i hkey
    obtain ⟨howner, hrepo⟩ := owner_of_reconfigured hentries (mem_sourceMap he).1
    obtain ⟨rfl, rfl⟩ := entryKey_inj ho hr hkey
    exact ⟨howner, hrepo⟩
  · exact h o r w t e ho hr he

theorem owned_empty : EntryIndex.Owned (OrderedMap.empty : EntryIndex Z) := by
  intro o r w t e _ _ h
  simp [EntryIndex.lookup] at h

theorem owned_registerOwner (options : WorkflowRegistryOptions Z) {g : Ingress Z B} (u : RepoUpload B)
    (hhttp : g.http.pairs.Owned) (hws : g.ws.entries.Owned) :
    (g.registerOwner options u).1.http.pairs.Owned ∧
      (g.registerOwner options u).1.ws.entries.Owned := by
  unfold Ingress.registerOwner
  dsimp only
  constructor
  · cases h : u.reconfigured options .http with
    | none => exact hhttp
    | some entries => exact Owned.of_reconfigure hhttp h (lookup_http_reconfigure _ _ _ _)
  · cases h : u.reconfigured options .ws with
    | none => exact hws
    | some entries => exact Owned.of_reconfigure hws h (lookup_ws_reconfigure _ _ _ _)

theorem owned_run (options : WorkflowRegistryOptions Z) (us : List (RepoUpload B)) {g : Ingress Z B}
    (hhttp : g.http.pairs.Owned) (hws : g.ws.entries.Owned) :
    (g.run options us).http.pairs.Owned ∧ (g.run options us).ws.entries.Owned := by
  induction us generalizing g with
  | nil => exact ⟨hhttp, hws⟩
  | cons u us ih =>
    obtain ⟨hhttp', hws'⟩ := owned_registerOwner options u hhttp hws
    exact ih hhttp' hws'

/-! ## The triggers of one upload -/

/-- The key under which the registry files a trigger. -/
def registryKey (options : WorkflowRegistryOptions Z) (p : WorkflowManifest × TriggerManifest) : String :=
  entryKey p.1.name (resolvedName options p.1 p.2.name)

/-- No later trigger of the manifest is filed under the same key. -/
def LastOfKey (options : WorkflowRegistryOptions Z) (manifest : Manifest)
    (p : WorkflowManifest × TriggerManifest) : Prop :=
  ∃ before after, manifest.pairs = before ++ p :: after ∧
    ∀ q ∈ after, registryKey options q ≠ registryKey options p

/-- What the schemas of the trigger kinds ask of names, and of the method of an http trigger. -/
structure Manifest.Accepted (manifest : Manifest) : Prop where
  triggerNames : ∀ p ∈ manifest.pairs, p.2.type ≠ .cron → triggerNameRe p.2.name = true
  methods : ∀ p ∈ manifest.pairs, p.2.type = .http →
    ∃ fields method, p.2.config = .object fields ∧ fields.lookup "method" = some (.string method)

section Uploaded
variable {options : WorkflowRegistryOptions Z} {owner repo : String}
  {files : OrderedMap String String} {manifest : Manifest} {state : OwnerRepoState Z}
  {regs : List (Registration Z)}

theorem mem_entriesOfKind
    (hregs : ∀ x ∈ regs, entryOf options owner repo files x.workflow x.trigger = some x.entry)
    (hentries : state.entries = regs.foldl (fun m x => m.set x.key x.entry) .empty)
    {kind : TriggerKind} {e : TriggerEntry Z} (he : e ∈ state.entriesOfKind kind) :
    ∃ before x after, regs = before ++ x :: after ∧ x.entry = e ∧ x.trigger.type = kind ∧
      ∀ y ∈ after, y.key ≠ x.key := by
  obtain ⟨hvalue, hkind⟩ := List.mem_filter.mp he
  obtain ⟨k, hk⟩ := OrderedMap.get?_of_mem_values hvalue
  rw [hentries] at hk
  rcases OrderedMap.split_of_get?_foldl_set _ _ regs hk with
    ⟨before, x, after, hsplit, hkey, rfl, hafter⟩ | ⟨-, hnone⟩
  · obtain ⟨-, -, -, hxkind, -, -⟩ := entryOf_eq_some (hregs x (by simp [hsplit]))
    refine ⟨before, x, after, hsplit, rfl, ?_, ?_⟩
    · rw [← hxkind]
      simpa using hkind
    · intro y hy
      rw [hkey]
      exact hafter y hy
  · simp at hnone

theorem mem_entriesOfKind_of_lastOfKey
    (hpairs : regs.map (fun x => (x.workflow, x.trigger)) = manifest.pairs)
    (hregs : ∀ x ∈ regs, entryOf options owner repo files x.workflow x.trigger = some x.entry)
    (hentries : state.entries = regs.foldl (fun m x => m.set x.key x.entry) .empty)
    {w : WorkflowManifest} {t : TriggerManifest} (hlast : LastOfKey options manifest (w, t)) :
    ∃ e, entryOf options owner repo files w t = some e ∧ e ∈ state.entriesOfKind t.type := by
  obtain ⟨before, after, hsplit, hafter⟩ := hlast
  rw [← hpairs] at hsplit
  obtain ⟨rb, rest, hregs', hrb, hrest⟩ := List.map_eq_append_iff.mp hsplit
  obtain ⟨x, ra, rfl, hx, hra⟩ := List.map_eq_cons_iff.mp hrest
  obtain ⟨rfl, rfl⟩ := Prod.mk.inj hx
  have hxmem : x ∈ regs := by simp [hregs']
  refine ⟨x.entry, hregs x hxmem, ?_⟩
  have hget : state.entries.get? x.key = some x.entry := by
    rw [hentries, hregs']
    apply OrderedMap.get?_foldl_set_last
    intro y hy
    have hymem : y ∈ regs := by simp [hregs', hy]
    have hne := hafter (y.workflow, y.trigger) (by
      rw [← hra]
      exact List.mem_map_of_mem hy)
    rw [key_eq (hregs x hxmem), key_eq (hregs y hymem)]
    exact hne
  obtain ⟨-, -, -, hkind, -, -⟩ := entryOf_eq_some (hregs x hxmem)
  refine List.mem_filter.mpr ⟨OrderedMap.mem_values_of_get? hget, ?_⟩
  simpa using hkind

/-- A trigger with a plain name whose entry a source was given is the last of its key. -/
theorem lastOfKey_of_mem_entriesOfKind
    (hpairs : regs.map (fun x => (x.workflow, x.trigger)) = manifest.pairs)
    (hregs : ∀ x ∈ regs, entryOf options owner repo files x.workflow x.trigger = some x.entry)
    (hentries : state.entries = regs.foldl (fun m x => m.set x.key x.entry) .empty)
    {kind : TriggerKind}
    (hplain : ∀ p ∈ manifest.pairs, p.2.type = kind → Plain p.2.name) {w : WorkflowManifest}
    {t : TriggerManifest} (hmem : (w, t) ∈ manifest.pairs) (hkind : t.type = kind)
    {e : TriggerEntry Z} (he : entryOf options owner repo files w t = some e)
    (hin : e ∈ state.entriesOfKind kind) : LastOfKey options manifest (w, t) := by
  obtain ⟨before, x, after, hsplit, rfl, hxkind, hafter⟩ := mem_entriesOfKind hregs hentries hin
  have hxmem : x ∈ regs := by simp [hsplit]
  have hxpair : (x.workflow, x.trigger) ∈ manifest.pairs := hpairs ▸ List.mem_map_of_mem hxmem
  obtain ⟨-, -, hxw, -, hxname, -⟩ := entryOf_eq_some (hregs x hxmem)
  obtain ⟨-, -, hw, -, hname, -⟩ := entryOf_eq_some he
  have heq : (x.workflow, x.trigger) = (w, t) := by
    apply pairs_ext hxpair hmem
    · rw [← hxw, hw]
    · rw [resolvedName_of_plain _ _ (hplain _ hxpair hxkind)] at hxname
      rw [resolvedName_of_plain _ _ (hplain _ hmem hkind)] at hname
      exact hxname.symm.trans hname
  refine ⟨before.map fun x => (x.workflow, x.trigger), after.map fun x => (x.workflow, x.trigger),
    ?_, ?_⟩
  · rw [← hpairs, hsplit, ← heq]
    simp
  · intro q hq
    obtain ⟨y, hy, rfl⟩ := List.mem_map.mp hq
    have hne := hafter y hy
    rw [key_eq (hregs x hxmem), key_eq (hregs y (by simp [hsplit, hy]))] at hne
    rw [← heq]
    exact hne

/-- Where the names of a kind are plain, the source finds each entry by the manifest's own names. -/
theorem get?_sourceMap
    (hpairs : regs.map (fun x => (x.workflow, x.trigger)) = manifest.pairs)
    (hregs : ∀ x ∈ regs, entryOf options owner repo files x.workflow x.trigger = some x.entry)
    (hentries : state.entries = regs.foldl (fun m x => m.set x.key x.entry) .empty)
    {kind : TriggerKind}
    (hplain : ∀ p ∈ manifest.pairs, p.2.type = kind → Plain p.1.name ∧ Plain p.2.name)
    {w t : String} {e : TriggerEntry Z} :
    (sourceMap (state.entriesOfKind kind)).get? (entryKey w t) = some e ↔
      e ∈ state.entriesOfKind kind ∧ ∃ p ∈ manifest.pairs, p.2.type = kind ∧
        entryOf options owner repo files p.1 p.2 = some e ∧
        entryKey p.1.name p.2.name = entryKey w t := by
  have hreg : ∀ e ∈ state.entriesOfKind kind, ∃ p ∈ manifest.pairs, p.2.type = kind ∧
      entryOf options owner repo files p.1 p.2 = some e ∧
      e.descriptor.workflowName = p.1.name ∧ e.descriptor.name = p.2.name := by
    intro e he
    obtain ⟨before, x, after, hsplit, rfl, hxkind, -⟩ := mem_entriesOfKind hregs hentries he
    have hxmem : x ∈ regs := by simp [hsplit]
    have hxpair : (x.workflow, x.trigger) ∈ manifest.pairs := hpairs ▸ List.mem_map_of_mem hxmem
    obtain ⟨-, -, -, -, hname, hworkflow⟩ := entryOf_eq_some (hregs x hxmem)
    obtain ⟨hpw, hpt⟩ := hplain _ hxpair hxkind
    rw [resolvedName_of_plain _ _ hpt] at hname
    rw [resolvedName_of_plain _ _ hpw] at hworkflow
    exact ⟨_, hxpair, hxkind, hregs x hxmem, hworkflow, hname⟩
  constructor
  · intro h
    obtain ⟨hmem, hkey⟩ := mem_sourceMap h
    obtain ⟨p, hp, hpkind, hentry, hworkflow, hname⟩ := hreg e hmem
    refine ⟨hmem, p, hp, hpkind, hentry, ?_⟩
    rw [← hworkflow, ← hname]
    exact hkey
  · rintro ⟨hmem, p, hp, hpkind, hentry, hkey⟩
    have hinj : ∀ e ∈ state.entriesOfKind kind, ∀ e' ∈ state.entriesOfKind kind,
        entryKey e.descriptor.workflowName e.descriptor.name =
          entryKey e'.descriptor.workflowName e'.descriptor.name → e = e' := by
      intro e he e' he' hsame
      obtain ⟨q, hq, hqkind, hqentry, hqw, hqt⟩ := hreg e he
      obtain ⟨q', hq', -, hqentry', hqw', hqt'⟩ := hreg e' he'
      rw [hqw, hqt, hqw', hqt'] at hsame
      obtain ⟨hw, ht⟩ := entryKey_inj (hplain q hq hqkind).1 (hplain q hq hqkind).2 hsame
      obtain rfl := pairs_ext hq hq' hw ht
      exact Option.some.inj (hqentry.symm.trans hqentry')
    have hget := OrderedMap.get?_foldl_set_of_injOn
      (fun e : TriggerEntry Z => entryKey e.descriptor.workflowName e.descriptor.name) (fun e => e)
      (state.entriesOfKind kind) hinj hmem
    obtain ⟨-, -, -, -, hname, hworkflow⟩ := entryOf_eq_some hentry
    rw [resolvedName_of_plain _ _ (hplain p hp hpkind).2] at hname
    rw [resolvedName_of_plain _ _ (hplain p hp hpkind).1] at hworkflow
    rw [hname, hworkflow, hkey] at hget
    exact hget

end Uploaded

theorem lookup_resolveFields (store : OrderedMap String String) (fields : List (String × Json))
    (missing : List String) (k : String) (hproto : k ≠ "__proto__") (v : Json) (h : fields.lookup k = some v) :
    (resolveFields store fields missing).1.lookup k = some (resolveSecretSentinels store v []).1 := by
  induction fields generalizing missing with
  | nil => cases h
  | cons field fields ih =>
    obtain ⟨k', v'⟩ := field
    simp only [resolveFields, List.lookup_cons] at h ⊢
    by_cases hk : k == k'
    · rw [hk] at h
      cases h
      rw [if_neg (beq_iff_eq.mp hk ▸ hproto), List.lookup_cons, hk, resolveSecretSentinels_fst store v missing []]
    · rw [Bool.not_eq_true] at hk
      rw [hk] at h
      split
      · exact ih _ h
      · rw [List.lookup_cons, hk]
        exact ih _ h

/-- The descriptor of an accepted http trigger has a method. -/
theorem method_of_entryOf {options : WorkflowRegistryOptions Z} {owner repo : String}
    {files : OrderedMap String String} {w : WorkflowManifest} {t : TriggerManifest}
    {e : TriggerEntry Z} (he : entryOf options owner repo files w t = some e)
    {fields : List (String × Json)} {method : String} (hconfig : t.config = .object fields)
    (hmethod : fields.lookup "method" = some (.string method)) :
    ∃ m, e.descriptor.method = some m := by
  unfold entryOf at he
  split at he
  · rename_i bundleSource store _ _
    split at he
    · rename_i d hd
      cases he
      have hd := congrArg PreResolveDescriptor.config (attachZodSchemas_ok hd)
      simp only [PreResolveDescriptor.resolve, buildPreResolvedDescriptor, hconfig,
        resolveSecretSentinels] at hd
      refine ⟨resolvedText store method, ?_⟩
      simp only [TriggerDescriptor.method, hd]
      rw [lookup_resolveFields store fields _ "method" (by decide) _ hmethod]
      simp [resolveSecretSentinels, resolveString_fst]
    · cases he
  · cases he

/-! ## Reachability -/

/-- A URL with or without a query. -/
def OnUrl (url base : String) : Prop := url = base ∨ ∃ query, url = base ++ "?" ++ query

def mechanical (owner repo : String) (p : WorkflowManifest × TriggerManifest) : ScopeKey :=
  ⟨owner, repo, p.1.name, p.2.name⟩

/-- The URL of every http and ws trigger of the manifest leads to its entry, and no other URL leads
to an entry of the repo. -/
structure Routes (options : WorkflowRegistryOptions Z) (g : Ingress Z B) (owner repo : String)
    (files : OrderedMap String String) (manifest : Manifest) : Prop where
  http : ∀ p ∈ manifest.pairs, p.2.type = .http →
    ∃ e method, entryOf options owner repo files p.1 p.2 = some e ∧
      e.descriptor.method = some method ∧
      ∀ req body, req.path = HttpTriggerSource.urlOf (mechanical owner repo p) → req.method = method →
        parseBody req = .ok body →
        g.http.handler req = .fire e ⟨body, headersToRecord req.headers, req.url, req.method⟩
  ws : ∀ p ∈ manifest.pairs, p.2.type = .ws →
    ∃ e, entryOf options owner repo files p.1 p.2 = some e ∧
      ∀ auth req url, WsTriggerSource.Authorised auth req owner → req.url = some url →
        OnUrl url (WsTriggerSource.urlOf (mechanical owner repo p)) →
        g.ws.upgradeHandler auth req = .connection (mechanical owner repo p) e
  httpOnly : ∀ req e input, g.http.handler req = .fire e input → e.owner = owner → e.repo = repo →
    ∃ p ∈ manifest.pairs, p.2.type = .http ∧ entryOf options owner repo files p.1 p.2 = some e ∧
      req.path = HttpTriggerSource.urlOf (mechanical owner repo p)
  wsOnly : ∀ auth req k e, g.ws.upgradeHandler auth req = .connection k e → e.owner = owner →
    e.repo = repo →
    ∃ p ∈ manifest.pairs, p.2.type = .ws ∧ entryOf options owner repo files p.1 p.2 = some e ∧
      k = mechanical owner repo p ∧
      ∃ url, req.url = some url ∧ OnUrl url (WsTriggerSource.urlOf (mechanical owner repo p))

/-- The names of the workflows fit the parser of each of their triggers, and no http or ws trigger
loses its entry to a later one. -/
structure Routable (options : WorkflowRegistryOptions Z) (manifest : Manifest) : Prop where
  http : ∀ p ∈ manifest.pairs, p.2.type = .http → ownerNameRe p.1.name = true
  ws : ∀ p ∈ manifest.pairs, p.2.type = .ws → triggerNameRe p.1.name = true
  last : ∀ p ∈ manifest.pairs, p.2.type = .http ∨ p.2.type = .ws → LastOfKey options manifest p

theorem dropQuery_of_onUrl {url base : String} (hbase : '?' ∉ base.toList) (h : OnUrl url base) :
    dropQuery url = base := by
  have hall : ∀ c ∈ base.toList, decide (c ≠ '?') = true := by
    intro c hc
    refine decide_eq_true ?_
    rintro rfl
    exact hbase hc
  rcases h with rfl | ⟨query, rfl⟩
  · rw [dropQuery, List.takeWhile_eq_self_iff.mpr hall, String.ofList_toList]
  · have hsep : "?".toList = ['?'] := rfl
    rw [dropQuery, String.toList_append, String.toList_append, hsep, List.append_assoc,
      List.takeWhile_append_of_pos hall]
    simp

theorem onUrl_dropQuery (url : String) : OnUrl url (dropQuery url) := by
  have hsplit := List.takeWhile_append_dropWhile (p := (· ≠ '?')) (l := url.toList)
  cases hrest : url.toList.dropWhile (· ≠ '?') with
  | nil =>
    rw [hrest, List.append_nil] at hsplit
    refine Or.inl ?_
    rw [dropQuery, hsplit, String.ofList_toList]
  | cons c rest =>
    have hc : c = '?' := by
      have hhead := List.head?_dropWhile_not (· ≠ '?') url.toList
      rw [hrest] at hhead
      simpa using hhead
    subst hc
    refine Or.inr ⟨String.ofList rest, String.ext_iff.mpr ?_⟩
    have hsep : "?".toList = ['?'] := rfl
    rw [hrest] at hsplit
    simp only [dropQuery, String.toList_append, String.toList_ofList, hsep, List.append_assoc,
      List.singleton_append]
    exact hsplit.symm

theorem plain_mechanical {k : ScopeKey} (howner : Plain k.owner) (hrepo : Plain k.repo)
    (hworkflow : Plain k.workflow) (htrigger : Plain k.trigger) :
    '?' ∉ (WsTriggerSource.urlOf k).toList := by
  have hno : ∀ {s : String}, Plain s → '?' ∉ s.toList := fun h hmem => (h _ hmem).2.1 rfl
  have hprefix : '?' ∉ wsPrefix := by decide
  simp [WsTriggerSource.urlOf, ScopeKey.path, hprefix, hno howner, hno hrepo, hno hworkflow, hno htrigger]

section Reachability
variable {options : WorkflowRegistryOptions Z} {owner repo : String}
  {files : OrderedMap String String} {manifest : Manifest} {state : OwnerRepoState Z}
  {regs : List (Registration Z)} {g : Ingress Z B}

/-- The http triggers of a manifest whose URLs lead to their entries. -/
theorem http_of_reached (howner : ownerNameRe owner = true) (hrepo : repoNameRe repo = true)
    (haccepted : manifest.Accepted)
    (hlookup : ∀ w t, g.http.pairs.lookup owner repo w t =
      (sourceMap (state.entriesOfKind .http)).get? (entryKey w t))
    {p : WorkflowManifest × TriggerManifest} (hp : p ∈ manifest.pairs) (hkind : p.2.type = .http)
    {e : TriggerEntry Z} {method : String}
    (hreach : ∀ req body, req.path = HttpTriggerSource.urlOf (mechanical owner repo p) →
      req.method = method → parseBody req = .ok body →
      g.http.handler req = .fire e ⟨body, headersToRecord req.headers, req.url, req.method⟩) :
    ownerNameRe p.1.name = true ∧ e ∈ state.entriesOfKind .http := by
  have htrigger := plain_of_triggerNameRe (haccepted.triggerNames p hp (by simp [hkind]))
  have hfire := hreach ⟨method, HttpTriggerSource.urlOf (mechanical owner repo p), "", [], some .null⟩
    .null rfl rfl (by simp [parseBody])
  obtain ⟨k, hpath, hko, hkr, hkw, hkt, hget, -⟩ := HttpTriggerSource.fire_of_handler hfire
  have hkpath : k.path = (mechanical owner repo p).path := by
    have hlist := congrArg String.toList hpath
    simp only [HttpTriggerSource.urlOf, String.toList_ofList] at hlist
    exact (List.append_cancel_left hlist).symm
  have hsegments := segments_path (plain_of_ownerNameRe hko) (plain_of_repoNameRe hkr)
    (plain_of_ownerNameRe hkw) (plain_of_triggerNameRe hkt)
  have hk : k = mechanical owner repo p := path_inj hsegments (plain_of_ownerNameRe howner)
    (plain_of_repoNameRe hrepo) htrigger hkpath
  subst hk
  rw [mechanical] at hget
  rw [hlookup] at hget
  exact ⟨hkw, (mem_sourceMap hget).1⟩

/-- An authorised request for any URL. -/
theorem authorised_any (howner : ownerNameRe owner = true) (url : String) :
    WsTriggerSource.Authorised ⟨fun _ => some fun _ => .ok (some ⟨"", "", [owner]⟩)⟩
      ⟨some url, some "websocket", some "github", some "Bearer token"⟩ owner := by
  have hupgrade : toLowerCase "websocket" = "websocket" := by decide
  refine ⟨by simp [isUpgradeRequest, hupgrade], ⟨"github", _, _, rfl, by decide, rfl, rfl, ?_⟩,
    ⟨_, rfl, by decide⟩⟩
  simp [isMember, ownerSet, howner]

theorem ws_of_reached (howner : ownerNameRe owner = true)
    (hlookup : ∀ w t, g.ws.entries.lookup owner repo w t =
      (sourceMap (state.entriesOfKind .ws)).get? (entryKey w t))
    {p : WorkflowManifest × TriggerManifest} {e : TriggerEntry Z}
    (hreach : ∀ auth req url, WsTriggerSource.Authorised auth req owner → req.url = some url →
      OnUrl url (WsTriggerSource.urlOf (mechanical owner repo p)) →
      g.ws.upgradeHandler auth req = .connection (mechanical owner repo p) e) :
    triggerNameRe p.1.name = true ∧ e ∈ state.entriesOfKind .ws := by
  have hconn := hreach _ _ _ (authorised_any howner (WsTriggerSource.urlOf (mechanical owner repo p))) rfl
    (Or.inl rfl)
  obtain ⟨url, -, hparse, hget⟩ := WsTriggerSource.connection_of_upgradeHandler hconn
  obtain ⟨-, -, -, hworkflow, -⟩ := WsTriggerSource.parseScopeFromUrl_eq_some.mp hparse
  rw [mechanical] at hget
  rw [hlookup] at hget
  exact ⟨hworkflow, (mem_sourceMap hget).1⟩

theorem routable_of_routes (howner : ownerNameRe owner = true) (hrepo : repoNameRe repo = true)
    (haccepted : manifest.Accepted)
    (hpairs : regs.map (fun x => (x.workflow, x.trigger)) = manifest.pairs)
    (hregs : ∀ x ∈ regs, entryOf options owner repo files x.workflow x.trigger = some x.entry)
    (hentries : state.entries = regs.foldl (fun m x => m.set x.key x.entry) .empty)
    (hhttp : ∀ w t, g.http.pairs.lookup owner repo w t =
      (sourceMap (state.entriesOfKind .http)).get? (entryKey w t))
    (hws : ∀ w t, g.ws.entries.lookup owner repo w t =
      (sourceMap (state.entriesOfKind .ws)).get? (entryKey w t))
    (h : Routes options g owner repo files manifest) : Routable options manifest := by
  have hplain : ∀ kind, kind ≠ .cron → ∀ p ∈ manifest.pairs, p.2.type = kind → Plain p.2.name :=
    fun kind hkind p hp htype =>
      plain_of_triggerNameRe (haccepted.triggerNames p hp (by rwa [htype]))
  refine ⟨?_, ?_, ?_⟩
  · intro p hp hkind
    obtain ⟨e, method, -, -, hreach⟩ := h.http p hp hkind
    exact (http_of_reached howner hrepo haccepted hhttp hp hkind hreach).1
  · intro p hp hkind
    obtain ⟨e, -, hreach⟩ := h.ws p hp hkind
    exact (ws_of_reached howner hws hreach).1
  · rintro p hp (hkind | hkind)
    · obtain ⟨e, method, he, -, hreach⟩ := h.http p hp hkind
      have hin := (http_of_reached howner hrepo haccepted hhttp hp hkind hreach).2
      exact lastOfKey_of_mem_entriesOfKind hpairs hregs hentries (hplain .http (by decide)) hp hkind he
        hin
    · obtain ⟨e, he, hreach⟩ := h.ws p hp hkind
      have hin := (ws_of_reached howner hws hreach).2
      exact lastOfKey_of_mem_entriesOfKind hpairs hregs hentries (hplain .ws (by decide)) hp hkind he hin

theorem routes_of_routable (howner : ownerNameRe owner = true) (hrepo : repoNameRe repo = true)
    (haccepted : manifest.Accepted)
    (hpairs : regs.map (fun x => (x.workflow, x.trigger)) = manifest.pairs)
    (hregs : ∀ x ∈ regs, entryOf options owner repo files x.workflow x.trigger = some x.entry)
    (hentries : state.entries = regs.foldl (fun m x => m.set x.key x.entry) .empty)
    (hhttp : ∀ w t, g.http.pairs.lookup owner repo w t =
      (sourceMap (state.entriesOfKind .http)).get? (entryKey w t))
    (hws : ∀ w t, g.ws.entries.lookup owner repo w t =
      (sourceMap (state.entriesOfKind .ws)).get? (entryKey w t))
    (hownedHttp : g.http.pairs.Owned) (hownedWs : g.ws.entries.Owned)
    (h : Routable options manifest) : Routes options g owner repo files manifest := by
  have hplainHttp : ∀ p ∈ manifest.pairs, p.2.type = .http → Plain p.1.name ∧ Plain p.2.name :=
    fun p hp hkind => ⟨plain_of_ownerNameRe (h.http p hp hkind),
      plain_of_triggerNameRe (haccepted.triggerNames p hp (by simp [hkind]))⟩
  have hplainWs : ∀ p ∈ manifest.pairs, p.2.type = .ws → Plain p.1.name ∧ Plain p.2.name :=
    fun p hp hkind => ⟨plain_of_triggerNameRe (h.ws p hp hkind),
      plain_of_triggerNameRe (haccepted.triggerNames p hp (by simp [hkind]))⟩
  have hpo := plain_of_ownerNameRe howner
  have hpr := plain_of_repoNameRe hrepo
  refine ⟨?_, ?_, ?_, ?_⟩
  · intro p hp hkind
    obtain ⟨e, he, hin⟩ :=
      mem_entriesOfKind_of_lastOfKey hpairs hregs hentries (h.last p hp (Or.inl hkind))
    obtain ⟨fields, text, hconfig, hfield⟩ := haccepted.methods p hp hkind
    obtain ⟨method, hmethod⟩ := method_of_entryOf he hconfig hfield
    refine ⟨e, method, he, hmethod, ?_⟩
    intro req body hpath hreq hbody
    obtain ⟨hpw, hpt⟩ := hplainHttp p hp hkind
    rw [hkind] at hin
    have hget := (get?_sourceMap hpairs hregs hentries hplainHttp).mpr ⟨hin, p, hp, hkind, he, rfl⟩
    rw [HttpTriggerSource.handler_urlOf _ _ hpath hpo hpr hpw hpt]
    subst hreq
    have htrigger := haccepted.triggerNames p hp (by simp [hkind])
    simp [HttpTriggerSource.route, mechanical, howner, hrepo, h.http p hp hkind, htrigger, hhttp, hget,
      hmethod, hbody]
  · intro p hp hkind
    obtain ⟨e, he, hin⟩ :=
      mem_entriesOfKind_of_lastOfKey hpairs hregs hentries (h.last p hp (Or.inr hkind))
    refine ⟨e, he, ?_⟩
    intro auth req url hauth hurl hon
    obtain ⟨hpw, hpt⟩ := hplainWs p hp hkind
    rw [hkind] at hin
    have hget := (get?_sourceMap hpairs hregs hentries hplainWs).mpr ⟨hin, p, hp, hkind, he, rfl⟩
    have hcut := dropQuery_of_onUrl (plain_mechanical (k := mechanical owner repo p) hpo hpr hpw hpt) hon
    have hparse := WsTriggerSource.parseScopeFromUrl_eq_some.mpr
      ⟨hcut, howner, hrepo, h.ws p hp hkind, haccepted.triggerNames p hp (by simp [hkind])⟩
    obtain ⟨-, -, -, hekind, -, -⟩ := entryOf_eq_some he
    exact WsTriggerSource.upgradeHandler_urlOf _ hauth hurl hparse ((hws _ _).trans hget)
      (hekind.trans hkind)
  · intro req e input hfire heo her
    obtain ⟨k, hpath, hko, hkr, hkw, hkt, hget, -⟩ := HttpTriggerSource.fire_of_handler hfire
    obtain ⟨ho, hr⟩ := hownedHttp _ _ _ _ _ (plain_of_ownerNameRe hko) (plain_of_repoNameRe hkr) hget
    obtain ⟨o, r, w, t⟩ := k
    obtain rfl : owner = o := heo.symm.trans ho
    obtain rfl : repo = r := her.symm.trans hr
    rw [hhttp] at hget
    obtain ⟨-, p, hp, hkind, he, hkey⟩ := (get?_sourceMap hpairs hregs hentries hplainHttp).mp hget
    obtain ⟨rfl, rfl⟩ := entryKey_inj (hplainHttp p hp hkind).1 (hplainHttp p hp hkind).2 hkey
    exact ⟨p, hp, hkind, he, hpath⟩
  · intro auth req k e hconn heo her
    obtain ⟨url, hurl, hparse, hget⟩ := WsTriggerSource.connection_of_upgradeHandler hconn
    obtain ⟨hcut, hko, hkr, -, -⟩ := WsTriggerSource.parseScopeFromUrl_eq_some.mp hparse
    obtain ⟨ho, hr⟩ := hownedWs _ _ _ _ _ (plain_of_ownerNameRe hko) (plain_of_repoNameRe hkr) hget
    obtain ⟨o, r, w, t⟩ := k
    obtain rfl : owner = o := heo.symm.trans ho
    obtain rfl : repo = r := her.symm.trans hr
    rw [hws] at hget
    obtain ⟨-, p, hp, hkind, he, hkey⟩ := (get?_sourceMap hpairs hregs hentries hplainWs).mp hget
    obtain ⟨rfl, rfl⟩ := entryKey_inj (hplainWs p hp hkind).1 (hplainWs p hp hkind).2 hkey
    refine ⟨p, hp, hkind, he, rfl, url, hurl, ?_⟩
    have hon := onUrl_dropQuery url
    rw [hcut] at hon
    exact hon

end Reachability

theorem registerOwner_lookup {options : WorkflowRegistryOptions Z} {g : Ingress Z B} {u : RepoUpload B}
    {state : OwnerRepoState Z}
    (hstate : prepareOwnerRepoState options u.owner u.repo u.files = .ok (.ok state))
    (hok : ∀ kind ∈ options.backends, u.outcomes.reconfigure kind = .ok)
    (hhttp : .http ∈ options.backends) (hws : .ws ∈ options.backends) (w t : String) :
    (g.registerOwner options u).1.http.pairs.lookup u.owner u.repo w t =
        (sourceMap (state.entriesOfKind .http)).get? (entryKey w t) ∧
      (g.registerOwner options u).1.ws.entries.lookup u.owner u.repo w t =
        (sourceMap (state.entriesOfKind .ws)).get? (entryKey w t) := by
  have hgiven : ∀ kind ∈ options.backends,
      u.reconfigured options kind = some (state.entriesOfKind kind) := by
    intro kind hkind
    simp [RepoUpload.reconfigured, hstate, hkind, hok kind hkind]
  unfold Ingress.registerOwner
  dsimp only
  rw [hgiven _ hhttp, hgiven _ hws]
  dsimp only
  rw [lookup_http_reconfigure, lookup_ws_reconfigure, if_pos rfl, if_pos rfl]
  exact ⟨rfl, rfl⟩

/-- Uploads of other repos leave what the URLs of a repo find. -/
theorem run_lookup_of_ne (options : WorkflowRegistryOptions Z) {o r : String} (ho : Plain o)
    (hr : Plain r) (us : List (RepoUpload B)) (hne : ∀ u ∈ us, ¬ (u.owner = o ∧ u.repo = r))
    (g : Ingress Z B) (w t : String) :
    (g.run options us).http.pairs.lookup o r w t = g.http.pairs.lookup o r w t ∧
      (g.run options us).ws.entries.lookup o r w t = g.ws.entries.lookup o r w t := by
  induction us generalizing g with
  | nil => exact ⟨rfl, rfl⟩
  | cons u us ih =>
    obtain ⟨hhttp, hws⟩ := ih (fun v hv => hne v (List.mem_cons_of_mem u hv)) (g.registerOwner options u).1
    have hkey : pairKey o r ≠ pairKey u.owner u.repo := by
      intro hsame
      obtain ⟨rfl, rfl⟩ := entryKey_inj ho hr hsame
      exact hne u List.mem_cons_self ⟨rfl, rfl⟩
    constructor
    · refine hhttp.trans ?_
      unfold Ingress.registerOwner
      dsimp only
      cases u.reconfigured options .http with
      | none => rfl
      | some entries => exact (lookup_http_reconfigure _ _ _ _ _ _ _ _).trans (if_neg hkey)
    · refine hws.trans ?_
      unfold Ingress.registerOwner
      dsimp only
      cases u.reconfigured options .ws with
      | none => rfl
      | some entries => exact (lookup_ws_reconfigure _ _ _ _ _ _ _ _).trans (if_neg hkey)

def wsWorkflow (workflow trigger : String) : WorkflowManifest :=
  .plain workflow "1b2c" .empty ⟨.ws, trigger, .object [], .null, .null⟩ [] List.nodup_nil

theorem mem_pairs_wsWorkflow {workflow trigger : String} {p : WorkflowManifest × TriggerManifest} :
    p ∈ (Manifest.single (wsWorkflow workflow trigger)).pairs ↔
      p = (wsWorkflow workflow trigger, ⟨.ws, trigger, .object [], .null, .null⟩) := by
  simp [Manifest.pairs, Manifest.single, wsWorkflow, WorkflowManifest.plain]

def manifestUpload (manifest : Manifest) : RepoUpload String :=
  ⟨"acme", "site", manifestFiles manifest, none, fun _ => .ok, .ok (), fun _ => .ok ()⟩

/-- The server after one upload. -/
def ingressOf (manifest : Manifest) : Ingress Unit String :=
  (Ingress.boot ⟨.empty, .empty, .empty, []⟩ true).run (manifestOptions manifest) [manifestUpload manifest]

def underscored : Manifest := .single (wsWorkflow "my_flow" "feed")

/-- `-` is fine in the URL of a webhook and not in that of a websocket. -/
def dashed : Manifest := .single (wsWorkflow "my-flow" "feed")

end WorkflowEngine.Runtime
