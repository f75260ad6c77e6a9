import WorkflowEngine.Runtime.SandboxStoreSweep

/-!
# The life of a cached sandbox

`createSandboxStore` on its own: any caller of `get`, any outcome of the builds,
runs that make a sandbox active, deaths of workers, and any number of calls of
`dispose`, each with the phases between its awaits. `disposals` lists the
`sb.dispose()` calls that the store makes, so that `pendingDisposals` holds
positions of it; `crashed` lists the sandboxes that `onTerminated` took out of the
cache; `quiet` says that no call of `get` was answered since the cache was cleared.

Every sandbox is in one place: in the cache, in the snapshot of a `dispose` call,
among the disposals or among the crashed. The steps only move it.
-/

namespace WorkflowEngine.Runtime

open Lib
set_option autoImplicit false

variable {Z : Type}

/-- Where one call of `dispose` stands: polling, waiting for the builds of its snapshot, waiting for
the disposals that were pending then, or done. -/
inductive DisposeCall where
  | draining
  | waiting (entries : List CacheEntry)
  | settling (disposals : List Nat)
  | resolved
  deriving DecidableEq

def DisposeCall.entries : DisposeCall → List CacheEntry
  | .waiting entries => entries
  | _ => []

/-- The call will still wait for the disposal. -/
def DisposeCall.Covers (n : Nat) : DisposeCall → Prop
  | .draining => True
  | .waiting _ => True
  | .settling disposals => n ∈ disposals
  | .resolved => False

structure StoreLifecycle (Z : Type) where
  store : SandboxStore Z
  disposeCalls : List DisposeCall
  disposals : List Nat
  pendingDisposals : List Nat
  crashed : List Nat
  quiet : Bool

inductive LifecycleAct where
  | get (owner : String) (workflow : WorkflowManifest) (bundleSource : String)
  | built (sandbox : Nat)
  | buildFailed (sandbox : Nat) (message : String)
  | runStarted (sandbox : Nat)
  | runSettled (sandbox : Nat)
  | terminated (sandbox : Nat) (cause : String)
  | dispose
  | clear (call : Nat) (deadline : Bool)
  | drained (call : Nat) (entry : CacheEntry)
  | drainsDone (call : Nat)
  | disposalSettled (disposal : Nat)
  | disposeResolved (call : Nat)

namespace SandboxStore

def runStarted (s : SandboxStore Z) (b : Nat) : Option (SandboxStore Z) :=
  match s.sandboxes[b]? with
  | none => none
  | some c =>
    if c.status = .ready ∧ runGuard c = none then
      some (s.mapSandbox b fun c => { c with runInFlight := true })
    else none

def runSettled (s : SandboxStore Z) (b : Nat) : Option (SandboxStore Z) :=
  match s.sandboxes[b]? with
  | none => none
  | some c =>
    if c.runInFlight then some (s.mapSandbox b fun c => { c with runInFlight := false }) else none

end SandboxStore

namespace StoreLifecycle

open SandboxStore

def create : StoreLifecycle Z := ⟨.create, [], [], [], [], false⟩

/-- The bookkeeping of `disposeEntry` on entries whose sandboxes are built. -/
def disposing (s : StoreLifecycle Z) (es : List CacheEntry) : StoreLifecycle Z :=
  { s with
    disposals := s.disposals ++ es.map (·.sandbox)
    pendingDisposals := s.pendingDisposals ++ List.range' s.disposals.length es.length }

def get (options : SandboxStoreOptions Z) (s : StoreLifecycle Z) (owner : String)
    (workflow : WorkflowManifest) (bundleSource : String) : StoreLifecycle Z :=
  match s.store.get options owner workflow bundleSource with
  | .error _ => s
  | .ok (store, _) =>
    { s with store := store, quiet := false }.disposing
      (s.store.sweptBy options owner workflow bundleSource)

def clear (s : StoreLifecycle Z) (k : Nat) (deadline : Bool) : Option (StoreLifecycle Z) :=
  match s.disposeCalls[k]? with
  | some .draining =>
    if deadline || s.store.cache.values.all fun e => !s.store.active e then
      some { s with
        store := { s.store with cache := .empty }
        disposeCalls := s.disposeCalls.set k (.waiting s.store.cache.values)
        quiet := true }
    else none
  | _ => none

/-- The callbacks of `dispose` on the promise of one entry of its snapshot. -/
def drained (s : StoreLifecycle Z) (k : Nat) (e : CacheEntry) : Option (StoreLifecycle Z) :=
  match s.disposeCalls[k]? with
  | some (.waiting entries) =>
    if e ∈ entries then
      let s := { s with disposeCalls := s.disposeCalls.set k (.waiting (entries.erase e)) }
      match s.store.statusOf e.sandbox with
      | some .ready => some ({ s with store := s.store.disposeEntry e }.disposing [e])
      | some (.failed _) => some s
      | _ => none
    else none
  | _ => none

def drainsDone (s : StoreLifecycle Z) (k : Nat) : Option (StoreLifecycle Z) :=
  match s.disposeCalls[k]? with
  | some (.waiting []) =>
    some { s with disposeCalls := s.disposeCalls.set k (.settling s.pendingDisposals) }
  | _ => none

def disposeResolved (s : StoreLifecycle Z) (k : Nat) : Option (StoreLifecycle Z) :=
  match s.disposeCalls[k]? with
  | some (.settling disposals) =>
    if disposals.all fun n => n ∉ s.pendingDisposals then
      some { s with disposeCalls := s.disposeCalls.set k .resolved }
    else none
  | _ => none

def step (options : SandboxStoreOptions Z) (s : StoreLifecycle Z) :
    LifecycleAct → Option (StoreLifecycle Z)
  | .get owner workflow bundleSource => some (s.get options owner workflow bundleSource)
  | .built b => (s.store.settleBuild b .ready).map fun store => { s with store := store }
  | .buildFailed b message =>
    (s.store.settleBuild b (.failed message)).map fun store => { s with store := store.forget b }
  | .runStarted b => (s.store.runStarted b).map fun store => { s with store := store }
  | .runSettled b => (s.store.runSettled b).map fun store => { s with store := store }
  | .terminated b cause =>
    (s.store.terminate b cause).map fun store =>
      { s with
        store := store
        crashed := if s.store.caches b then s.crashed ++ [b] else s.crashed }
  | .dispose => some { s with disposeCalls := s.disposeCalls ++ [DisposeCall.draining] }
  | .clear k deadline => s.clear k deadline
  | .drained k e => s.drained k e
  | .drainsDone k => s.drainsDone k
  | .disposalSettled n =>
    if n ∈ s.pendingDisposals then
      some { s with pendingDisposals := s.pendingDisposals.erase n }
    else none
  | .disposeResolved k => s.disposeResolved k

/-! ## Every sandbox in one place -/

/-- How often a sandbox is in the snapshot of a `dispose` call. -/
def snapshotsAt (s : StoreLifecycle Z) (b : Nat) : Nat :=
  (s.disposeCalls.flatMap fun c => c.entries.map (·.sandbox)).count b

def placesAt (s : StoreLifecycle Z) (b : Nat) : Nat :=
  s.store.cachedAt b + s.snapshotsAt b + s.disposals.count b + s.crashed.count b

structure Placed (s : StoreLifecycle Z) : Prop where
  keyed : Keyed s.store
  recent : Recent s.store
  atMost : ∀ b, s.placesAt b ≤ 1
  present : ∀ b status, s.store.look (·.status) b = some status → (∀ m, status ≠ .failed m) →
    s.placesAt b = 1
  fresh : ∀ b, s.store.look (·.status) b = none → s.placesAt b = 0
  ended : ∀ b, b ∈ s.disposals ∨ b ∈ s.crashed → s.store.look (·.status) b = some .ready
  emptied : s.quiet = true → s.store.cache = .empty
  covered : s.quiet = true → ∀ n ∈ s.pendingDisposals, ∃ c ∈ s.disposeCalls, c.Covers n

theorem placed_create : Placed (create : StoreLifecycle Z) where
  keyed := fun k e he => by simp [create, SandboxStore.create] at he
  recent := List.Pairwise.nil
  atMost := fun b => by simp [placesAt, snapshotsAt, create, cachedAt, SandboxStore.create, OrderedMap.values]
  present := fun b status hb => by simp [create, SandboxStore.create, look] at hb
  fresh := fun b _ => by
    simp [placesAt, snapshotsAt, create, cachedAt, SandboxStore.create, OrderedMap.values]
  ended := fun b hb => by simp [create] at hb
  emptied := fun h => by simp [create] at h
  covered := fun h => by simp [create] at h

/-- A step on one sandbox that is not cached, or whose build does not fail. -/
theorem Placed.mapSandbox {s : StoreLifecycle Z} (h : Placed s) (b : Nat)
    (f : SandboxCell Z → SandboxCell Z) (hkey : ∀ c, (f c).key = c.key)
    (hstatus : ∀ c, s.store.sandboxes[b]? = some c →
      (f c).status = c.status ∨ (c.status = .building ∧ (f c).status = .ready)) :
    Placed { s with store := s.store.mapSandbox b f } := by
  have hlook : ∀ j, (s.store.mapSandbox b f).look (·.status) j = s.store.look (·.status) j ∨
      (s.store.look (·.status) j = some .building ∧
        (s.store.mapSandbox b f).look (·.status) j = some .ready) := by
    intro j
    rw [look_mapSandbox]
    split
    · rename_i hj
      subst hj
      simp only [look]
      cases hc : s.store.sandboxes[b]? with
      | none => exact Or.inl rfl
      | some c => simpa using hstatus c hc
    · exact Or.inl rfl
  refine ⟨?_, h.recent, h.atMost, ?_, ?_, ?_, h.emptied, h.covered⟩
  · refine h.keyed.mono (fun _ _ he => he) (fun j => look_mapSandbox_of_eq _ _ _ _ _ hkey) ?_
    intro k e _
    rcases hlook e.sandbox with hx | hx
    · exact Or.inl hx
    · exact Or.inr hx.2
  · intro j status hj hne
    rcases hlook j with hx | hx
    · exact h.present j status (hx.symm.trans hj) hne
    · exact h.present j .building hx.1 (by simp)
  · intro j hj
    rcases hlook j with hx | hx
    · exact h.fresh j (hx.symm.trans hj)
    · simp [hx.2] at hj
  · intro j hj
    have hready := h.ended j hj
    rcases hlook j with hx | hx
    · exact hx.trans hready
    · exact hx.2

theorem Placed.disposing {s : StoreLifecycle Z} (es : List CacheEntry)
    (hkeyed : Keyed s.store) (hrecent : Recent s.store)
    (hplaces : ∀ b, s.placesAt b + (es.map (·.sandbox)).count b ≤ 1 ∧
      (∀ status, s.store.look (·.status) b = some status → (∀ m, status ≠ .failed m) →
        s.placesAt b + (es.map (·.sandbox)).count b = 1) ∧
      (s.store.look (·.status) b = none → s.placesAt b + (es.map (·.sandbox)).count b = 0))
    (hended : ∀ b, b ∈ s.disposals ∨ b ∈ s.crashed → s.store.look (·.status) b = some .ready)
    (hes : ∀ e ∈ es, s.store.look (·.status) e.sandbox = some .ready)
    (hemptied : s.quiet = true → s.store.cache = .empty)
    (hcovered : s.quiet = true → ∀ n, n ∈ s.pendingDisposals ∨ es ≠ [] →
      ∃ c ∈ s.disposeCalls, c.Covers n) : Placed (s.disposing es) := by
  have hat : ∀ b, (s.disposing es).placesAt b = s.placesAt b + (es.map (·.sandbox)).count b := by
    intro b
    simp only [placesAt, StoreLifecycle.disposing, snapshotsAt, List.count_append]
    omega
  refine ⟨hkeyed, hrecent, ?_, ?_, ?_, ?_, hemptied, ?_⟩
  · intro b
    rw [hat]
    exact (hplaces b).1
  · intro b status hb hne
    rw [hat]
    exact (hplaces b).2.1 status hb hne
  · intro b hb
    rw [hat]
    exact (hplaces b).2.2 hb
  · intro b hb
    simp only [StoreLifecycle.disposing, List.mem_append] at hb
    rcases hb with (hb | hb) | hb
    · exact hended b (Or.inl hb)
    · obtain ⟨e, he, rfl⟩ := List.mem_map.mp hb
      exact hes e he
    · exact hended b (Or.inr hb)
  · intro hq n hn
    refine hcovered hq n ?_
    rcases List.mem_append.mp hn with hn | hn
    · exact Or.inl hn
    · refine Or.inr ?_
      intro hnil
      simp [hnil] at hn

theorem Placed.hit {s : StoreLifecycle Z} (h : Placed s) {owner : String}
    {workflow : WorkflowManifest} {e : CacheEntry}
    (hget : s.store.cache.get? (storeKey owner workflow.sha) = some e) :
    Placed ({ s with store := s.store.hit owner workflow e, quiet := false }.disposing []) := by
  have hat : ∀ b, { s with store := s.store.hit owner workflow e, quiet := false }.placesAt b =
      s.placesAt b := by
    intro b
    simp only [placesAt, snapshotsAt, s.store.cachedAt_hit hget b]
  refine Placed.disposing [] (h.keyed.hit hget) (h.recent.hit owner workflow e) ?_ h.ended
    (by simp) (by simp) (by simp)
  intro b
  simp only [List.map_nil, List.count_nil, Nat.add_zero, hat]
  exact ⟨h.atMost b, h.present b, h.fresh b⟩

theorem Placed.missed {options : SandboxStoreOptions Z} {s : StoreLifecycle Z} (h : Placed s)
    {owner : String} {workflow : WorkflowManifest} (source : String) (config : WorkflowConfig Z)
    (hget : s.store.cache.get? (storeKey owner workflow.sha) = none) :
    Placed
      ({ s with
        store := (s.store.idleVictims options).foldl evict
          (s.store.insert owner workflow source config)
        quiet := false }.disposing (s.store.idleVictims options)) := by
  obtain ⟨hkeys, hcached⟩ := idleVictims_cached options h.keyed source config hget
  have hins := h.keyed.insert owner workflow source config
  have hlook : ∀ b, ((s.store.idleVictims options).foldl evict
      (s.store.insert owner workflow source config)).look (·.status) b =
        if b = s.store.sandboxes.length then some .building else s.store.look (·.status) b := by
    intro b
    rw [look_foldl_evict_of_eq _ (fun _ => rfl), look_insert_eq]
  have hnew : s.store.look (·.status) s.store.sandboxes.length = none := by simp [look]
  have hready : ∀ b, s.store.look (·.status) b = some .ready →
      ((s.store.idleVictims options).foldl evict
        (s.store.insert owner workflow source config)).look (·.status) b = some .ready := by
    intro b hb
    rw [hlook, if_neg]
    · exact hb
    · intro heq
      simp [heq, hnew] at hb
  refine Placed.disposing (s.store.idleVictims options) (hins.foldl_evict _)
    ((h.recent.insert source config hget).foldl_evict _) ?_ ?_ ?_ (by simp) (by simp)
  · intro b
    have hevict := cachedAt_foldl_evict (s.store.idleVictims options) hkeys
      (fun v hv => (hcached v hv).2) b
    have hinsert := s.store.cachedAt_insert source config hget b
    have hcount : { s with
        store := (s.store.idleVictims options).foldl evict
          (s.store.insert owner workflow source config)
        quiet := false }.placesAt b + ((s.store.idleVictims options).map (·.sandbox)).count b =
          s.placesAt b + [s.store.sandboxes.length].count b := by
      simp only [placesAt, snapshotsAt]
      omega
    rw [hcount]
    simp only [hlook, List.count_singleton]
    by_cases hb : b = s.store.sandboxes.length
    · subst hb
      have hzero := h.fresh _ hnew
      simp [hzero]
    · have hne : (s.store.sandboxes.length == b) = false := by
        simpa using fun heq => hb heq.symm
      simp only [hne, hb, if_false]
      exact ⟨h.atMost b, h.present b, h.fresh b⟩
  · intro b hb
    exact hready b (h.ended b hb)
  · intro v hv
    have hidle := (List.mem_filter.mp (List.mem_of_mem_take hv)).2
    exact hready _ ((evictable_iff_look s.store v).mp hidle).1

theorem Placed.get {s : StoreLifecycle Z} (h : Placed s) (options : SandboxStoreOptions Z)
    (owner : String) (workflow : WorkflowManifest) (source : String) :
    Placed (s.get options owner workflow source) := by
  unfold StoreLifecycle.get
  cases hget : s.store.cache.get? (storeKey owner workflow.sha) with
  | some e =>
    have heq : s.store.get options owner workflow source =
        .ok (s.store.hit owner workflow e, e.sandbox) := by simp [SandboxStore.get, hget]
    have hswept : s.store.sweptBy options owner workflow source = [] := by simp [sweptBy, hget]
    rw [heq, hswept]
    exact h.hit hget
  | none =>
    cases hconfig : workflowConfig options workflow with
    | error message =>
      have heq : s.store.get options owner workflow source = .error message := by
        simp [SandboxStore.get, hget, hconfig]
      rw [heq]
      exact h
    | ok config =>
      obtain ⟨heq, hswept⟩ := get_miss h.keyed source hget hconfig
      rw [heq, hswept]
      exact h.missed source config hget

theorem Placed.buildFailed {s : StoreLifecycle Z} (h : Placed s) {b : Nat} {c : SandboxCell Z}
    (hc : s.store.sandboxes[b]? = some c) (hb : c.status = .building) (message : String) :
    Placed
      { s with
        store := (s.store.mapSandbox b fun c => { c with status := .failed message }).forget b } := by
  rw [forget_mapSandbox s.store b (fun c => { c with status := .failed message }) fun _ => rfl]
  have hstatus : s.store.look (·.status) b = some .building := by simp [look, hc, hb]
  have hlook : ∀ j, ((s.store.forget b).mapSandbox b fun c =>
      { c with status := .failed message }).look (·.status) j =
        if b = j then some (.failed message) else s.store.look (·.status) j := by
    intro j
    rw [look_mapSandbox]
    split
    · rename_i hj
      subst hj
      rw [look_forget]
      simp [look, hc]
    · exact look_forget _ _ _ _
  have hone := h.present b .building hstatus (by simp)
  have hat : ∀ j, s.placesAt j = { s with
      store := (s.store.forget b).mapSandbox b fun c => { c with status := .failed message } }.placesAt j +
        if s.store.caches b then [b].count j else 0 := by
    intro j
    have hcached := cachedAt_forget h.keyed b j
    simp only [placesAt, snapshotsAt]
    change _ = (s.store.forget b).cachedAt j + _ + _ + _ + _
    omega
  refine ⟨?_, h.recent.forget b, ?_, ?_, ?_, ?_, ?_, h.covered⟩
  · refine (h.keyed.forget b).mono (fun _ _ he => he)
      (fun j => look_mapSandbox_of_eq _ _ _ _ _ fun _ => rfl) ?_
    intro k e he
    refine Or.inl ?_
    rw [hlook, look_forget, if_neg]
    rintro rfl
    have hpos := cachedAt_pos (s := s.store.forget e.sandbox) he
    have hcached := cachedAt_forget h.keyed e.sandbox e.sandbox
    have hcaches := (caches_iff h.keyed e.sandbox).mpr ⟨k, e, get?_forget he, rfl⟩
    simp only [hcaches, if_true, List.count_singleton_self] at hcached
    simp only [placesAt] at hone
    omega
  · intro j
    have := hat j
    have := h.atMost j
    omega
  · intro j status hj hne
    rw [hlook] at hj
    split at hj
    · cases hj
      exact absurd rfl (hne message)
    · rename_i hbj
      have hx := h.present j status hj hne
      have hy := hat j
      have hz : [b].count j = 0 := by simpa [List.count_singleton] using hbj
      rw [hz] at hy
      simp only [ite_self, Nat.add_zero] at hy
      rw [← hy]
      exact hx
  · intro j hj
    rw [hlook] at hj
    split at hj
    · cases hj
    · have hx := h.fresh j hj
      have hy := hat j
      omega
  · intro j hj
    have hx := h.ended j hj
    rw [hlook, if_neg]
    · exact hx
    · rintro rfl
      rw [hstatus] at hx
      cases hx
  · intro hq
    exact forget_of_empty (h.emptied hq) b

theorem Placed.terminated {s : StoreLifecycle Z} (h : Placed s) {b : Nat} {c : SandboxCell Z}
    (hc : s.store.sandboxes[b]? = some c) (hb : c.status = .ready) (cause : String) :
    Placed
      { s with
        store := (s.store.forget b).mapSandbox b fun c => { c with terminated := some cause }
        crashed := if s.store.caches b then s.crashed ++ [b] else s.crashed } := by
  have hstatus : s.store.look (·.status) b = some .ready := by simp [look, hc, hb]
  have hlook : ∀ j, ((s.store.forget b).mapSandbox b fun c =>
      { c with terminated := some cause }).look (·.status) j = s.store.look (·.status) j := by
    intro j
    refine Eq.trans (look_mapSandbox_of_eq _ _ _ _ _ ?_) (look_forget s.store b _ j)
    exact fun _ => rfl
  have hat : ∀ j, { s with
      store := (s.store.forget b).mapSandbox b fun c => { c with terminated := some cause }
      crashed := if s.store.caches b then s.crashed ++ [b] else s.crashed }.placesAt j =
        s.placesAt j := by
    intro j
    have hcached := cachedAt_forget h.keyed b j
    simp only [placesAt, snapshotsAt]
    change (s.store.forget b).cachedAt j + _ + _ + _ = _
    by_cases hx : s.store.caches b = true
    · simp only [hx, if_true, List.count_append] at hcached ⊢
      omega
    · rw [if_neg hx] at hcached
      rw [if_neg hx]
      omega
  refine ⟨?_, h.recent.forget b, ?_, ?_, ?_, ?_, ?_, h.covered⟩
  · refine (h.keyed.forget b).mono (fun _ _ he => he)
      (fun j => look_mapSandbox_of_eq _ _ _ _ _ fun _ => rfl) ?_
    intro k e _
    exact Or.inl ((hlook _).trans (look_forget s.store b _ _).symm)
  · intro j
    rw [hat]
    exact h.atMost j
  · intro j status hj hne
    rw [hat]
    exact h.present j status ((hlook j).symm.trans hj) hne
  · intro j hj
    rw [hat]
    exact h.fresh j ((hlook j).symm.trans hj)
  · intro j hj
    refine (hlook j).trans ?_
    rcases hj with hj | hj
    · exact h.ended j (Or.inl hj)
    · change j ∈ (if s.store.caches b then s.crashed ++ [b] else s.crashed) at hj
      split at hj
      · rcases List.mem_append.mp hj with hj | hj
        · exact h.ended j (Or.inr hj)
        · rw [List.mem_singleton.mp hj]
          exact hstatus
      · exact h.ended j (Or.inr hj)
  · intro hq
    exact forget_of_empty (h.emptied hq) b

/-! ## The calls of `dispose` -/

theorem covers_set {calls : List DisposeCall} {k n : Nat} {c c' : DisposeCall}
    (hk : calls[k]? = some c) (hcov : c.Covers n → c'.Covers n)
    (h : ∃ d ∈ calls, d.Covers n) : ∃ d ∈ calls.set k c', d.Covers n := by
  obtain ⟨d, hd, hn⟩ := h
  have hlt := lt_of_getElem?_eq_some hk
  obtain ⟨j, hj⟩ := List.mem_iff_getElem?.mp hd
  by_cases hjk : j = k
  · subst hjk
    obtain rfl : c = d := Option.some.inj (hk.symm.trans hj)
    refine ⟨c', List.mem_iff_getElem?.mpr ⟨j, ?_⟩, hcov hn⟩
    rw [List.getElem?_set_self hlt]
  · refine ⟨d, List.mem_iff_getElem?.mpr ⟨j, ?_⟩, hn⟩
    rw [List.getElem?_set_ne (Ne.symm hjk)]
    exact hj

/-- A call that moves on without giving up an entry of its snapshot. -/
theorem Placed.advance {s : StoreLifecycle Z} (h : Placed s) {k : Nat} {c c' : DisposeCall}
    (hk : s.disposeCalls[k]? = some c) (hentries : c'.entries = c.entries)
    (hcov : ∀ n ∈ s.pendingDisposals, c.Covers n → c'.Covers n) :
    Placed { s with disposeCalls := s.disposeCalls.set k c' } := by
  have hat : ∀ b, { s with disposeCalls := s.disposeCalls.set k c' }.placesAt b = s.placesAt b := by
    intro b
    have hset := count_flatMap_set (fun c : DisposeCall => c.entries.map (·.sandbox)) hk c' b
    rw [hentries] at hset
    simp only [placesAt, snapshotsAt]
    omega
  refine ⟨h.keyed, h.recent, ?_, ?_, ?_, h.ended, h.emptied, ?_⟩
  · intro b
    rw [hat]
    exact h.atMost b
  · intro b status hb hne
    rw [hat]
    exact h.present b status hb hne
  · intro b hb
    rw [hat]
    exact h.fresh b hb
  · intro hq n hn
    exact covers_set hk (hcov n hn) (h.covered hq n hn)

theorem Placed.disposeCalled {s : StoreLifecycle Z} (h : Placed s) :
    Placed { s with disposeCalls := s.disposeCalls ++ [DisposeCall.draining] } := by
  have hat : ∀ b, { s with disposeCalls := s.disposeCalls ++ [DisposeCall.draining] }.placesAt b =
      s.placesAt b := by
    intro b
    simp [placesAt, snapshotsAt, DisposeCall.entries]
  refine ⟨h.keyed, h.recent, ?_, ?_, ?_, h.ended, h.emptied, ?_⟩
  · intro b
    rw [hat]
    exact h.atMost b
  · intro b status hb hne
    rw [hat]
    exact h.present b status hb hne
  · intro b hb
    rw [hat]
    exact h.fresh b hb
  · intro hq n hn
    obtain ⟨c, hc, hcov⟩ := h.covered hq n hn
    exact ⟨c, List.mem_append_left _ hc, hcov⟩

theorem Placed.clear {s t : StoreLifecycle Z} (h : Placed s) {k : Nat} {deadline : Bool}
    (ht : s.clear k deadline = some t) : Placed t := by
  unfold StoreLifecycle.clear at ht
  split at ht
  · rename_i hk
    split at ht
    · cases ht
      have hat : ∀ b, { s with
          store := { s.store with cache := .empty }
          disposeCalls := s.disposeCalls.set k (.waiting s.store.cache.values)
          quiet := true }.placesAt b = s.placesAt b := by
        intro b
        have hset := count_flatMap_set (fun c : DisposeCall => c.entries.map (·.sandbox)) hk
          (.waiting s.store.cache.values) b
        simp only [DisposeCall.entries, List.map_nil, List.count_nil] at hset
        have hempty : SandboxStore.cachedAt { s.store with cache := .empty } b = 0 := by
          simp [SandboxStore.cachedAt, OrderedMap.values]
        have hcached : s.store.cachedAt b = (s.store.cache.values.map (·.sandbox)).count b := rfl
        simp only [placesAt, snapshotsAt, DisposeCall.entries, hempty]
        omega
      refine ⟨?_, List.Pairwise.nil, ?_, ?_, ?_, h.ended, fun _ => rfl, ?_⟩
      · intro k e he
        simp at he
      · intro b
        rw [hat]
        exact h.atMost b
      · intro b status hb hne
        rw [hat]
        exact h.present b status hb hne
      · intro b hb
        rw [hat]
        exact h.fresh b hb
      · intro _ n _
        have hlt := lt_of_getElem?_eq_some hk
        refine ⟨.waiting s.store.cache.values, List.mem_iff_getElem?.mpr ⟨k, ?_⟩, trivial⟩
        rw [List.getElem?_set_self hlt]
    · cases ht
  · cases ht

theorem drained_cases {s t : StoreLifecycle Z} {k : Nat} {e : CacheEntry}
    (h : s.drained k e = some t) :
    ∃ entries, s.disposeCalls[k]? = some (.waiting entries) ∧ e ∈ entries ∧
      ((s.store.look (·.status) e.sandbox = some .ready ∧
        t = { s with
          store := s.store.disposeEntry e
          disposeCalls := s.disposeCalls.set k (.waiting (entries.erase e)) }.disposing [e]) ∨
      ((∃ m, s.store.look (·.status) e.sandbox = some (.failed m)) ∧
        t = { s with disposeCalls := s.disposeCalls.set k (.waiting (entries.erase e)) })) := by
  unfold StoreLifecycle.drained at h
  split at h
  · rename_i entries hk
    split at h
    · rename_i hmem
      refine ⟨entries, hk, hmem, ?_⟩
      dsimp only at h
      split at h
      · rename_i hready
        cases h
        exact Or.inl ⟨hready, rfl⟩
      · rename_i m hfailed
        cases h
        exact Or.inr ⟨⟨m, hfailed⟩, rfl⟩
      · cases h
    · cases h
  · cases h

/-- What a `dispose` call gives up leaves its snapshot. -/
theorem placesAt_erase {s : StoreLifecycle Z} {k : Nat} {e : CacheEntry} {entries : List CacheEntry}
    (hk : s.disposeCalls[k]? = some (.waiting entries)) (hmem : e ∈ entries) (b : Nat) :
    s.placesAt b =
      { s with disposeCalls := s.disposeCalls.set k (.waiting (entries.erase e)) }.placesAt b +
        [e.sandbox].count b := by
  have hflat := count_flatMap_set (fun c : DisposeCall => c.entries.map (·.sandbox)) hk
    (.waiting (entries.erase e)) b
  have hperm := ((List.perm_cons_erase hmem).map (·.sandbox)).count_eq b
  rw [List.map_cons, List.count_cons] at hperm
  simp only [DisposeCall.entries] at hflat
  simp only [placesAt, snapshotsAt, DisposeCall.entries, List.count_singleton]
  omega

theorem Placed.drained {s t : StoreLifecycle Z} (h : Placed s) {k : Nat} {e : CacheEntry}
    (ht : s.drained k e = some t) : Placed t := by
  obtain ⟨entries, hk, hmem, ⟨hready, rfl⟩ | ⟨⟨m, hfailed⟩, rfl⟩⟩ := drained_cases ht
  · have hlook : ∀ b, (s.store.disposeEntry e).look (·.status) b = s.store.look (·.status) b :=
      fun b => look_mapSandbox_of_eq _ _ _ _ _ fun _ => rfl
    have hat : ∀ b, { s with
        store := s.store.disposeEntry e
        disposeCalls := s.disposeCalls.set k (.waiting (entries.erase e)) }.placesAt b +
          ([e].map (·.sandbox)).count b = s.placesAt b :=
      fun b => (placesAt_erase hk hmem b).symm
    refine Placed.disposing [e] ?_ h.recent ?_ ?_ ?_ h.emptied ?_
    · exact h.keyed.mono (fun _ _ he => he) (fun b => look_mapSandbox_of_eq _ _ _ _ _ fun _ => rfl)
        fun _ e' _ => Or.inl (hlook e'.sandbox)
    · intro b
      rw [hat b, hlook b]
      exact ⟨h.atMost b, h.present b, h.fresh b⟩
    · intro b hb
      exact (hlook b).trans (h.ended b hb)
    · intro e' he'
      rw [List.mem_singleton.mp he']
      exact (hlook e.sandbox).trans hready
    · intro _ n _
      refine ⟨.waiting (entries.erase e), List.mem_iff_getElem?.mpr ⟨k, ?_⟩, trivial⟩
      exact List.getElem?_set_self (lt_of_getElem?_eq_some hk)
  · refine ⟨h.keyed, h.recent, ?_, ?_, ?_, h.ended, h.emptied, ?_⟩
    · intro b
      have hb := placesAt_erase hk hmem b
      have := h.atMost b
      omega
    · intro b status hb hne
      have hne' : b ≠ e.sandbox := by
        rintro rfl
        exact hne m (Option.some.inj (hb.symm.trans hfailed))
      have hplaces := placesAt_erase hk hmem b
      have hone := h.present b status hb hne
      have hzero : [e.sandbox].count b = 0 := by simpa [List.count_singleton] using Ne.symm hne'
      omega
    · intro b hb
      have hplaces := placesAt_erase hk hmem b
      have hzero := h.fresh b hb
      omega
    · intro hq n hn
      exact covers_set hk (fun _ => trivial) (h.covered hq n hn)

theorem placed_step {options : SandboxStoreOptions Z} {s t : StoreLifecycle Z} {a : LifecycleAct}
    (h : Placed s) (ht : step options s a = some t) : Placed t := by
  cases a with
  | get owner workflow source =>
    cases ht
    exact h.get options owner workflow source
  | built b =>
    obtain ⟨store, hs, rfl⟩ := Option.map_eq_some_iff.mp ht
    obtain ⟨c, hc, hb, rfl⟩ := stepped_settleBuild hs
    refine h.mapSandbox b _ (fun _ => rfl) ?_
    intro d hd
    obtain rfl : c = d := Option.some.inj (hc.symm.trans hd)
    exact Or.inr ⟨hb, rfl⟩
  | buildFailed b message =>
    obtain ⟨store, hs, rfl⟩ := Option.map_eq_some_iff.mp ht
    obtain ⟨c, hc, hb, rfl⟩ := stepped_settleBuild hs
    exact h.buildFailed hc hb message
  | runStarted b =>
    obtain ⟨store, hs, rfl⟩ := Option.map_eq_some_iff.mp ht
    unfold SandboxStore.runStarted at hs
    split at hs
    · cases hs
    · split at hs
      · cases hs
        exact h.mapSandbox b _ (fun _ => rfl) fun _ _ => Or.inl rfl
      · cases hs
  | runSettled b =>
    obtain ⟨store, hs, rfl⟩ := Option.map_eq_some_iff.mp ht
    unfold SandboxStore.runSettled at hs
    split at hs
    · cases hs
    · split at hs
      · cases hs
        exact h.mapSandbox b _ (fun _ => rfl) fun _ _ => Or.inl rfl
      · cases hs
  | terminated b cause =>
    obtain ⟨store, hs, rfl⟩ := Option.map_eq_some_iff.mp ht
    unfold SandboxStore.terminate at hs
    split at hs
    · rename_i c hc
      split at hs
      · rename_i hb
        cases hs
        exact h.terminated hc hb.1 cause
      · cases hs
    · cases hs
  | dispose =>
    cases ht
    exact h.disposeCalled
  | clear k deadline => exact h.clear ht
  | drained k e => exact h.drained ht
  | drainsDone k =>
    simp only [step, StoreLifecycle.drainsDone] at ht
    split at ht
    · rename_i hk
      cases ht
      exact h.advance hk rfl fun n hn _ => hn
    · cases ht
  | disposalSettled n =>
    simp only [step] at ht
    split at ht
    · cases ht
      exact ⟨h.keyed, h.recent, h.atMost, h.present, h.fresh, h.ended, h.emptied,
        fun hq m hm => h.covered hq m (List.mem_of_mem_erase hm)⟩
    · cases ht
  | disposeResolved k =>
    simp only [step, StoreLifecycle.disposeResolved] at ht
    split at ht
    · rename_i disposals hk
      split at ht
      · rename_i hall
        cases ht
        refine h.advance hk rfl ?_
        intro n hn hcov
        have hnot := List.all_eq_true.mp hall n hcov
        simp [hn] at hnot
      · cases ht
    · cases ht

theorem exec_placed {options : SandboxStoreOptions Z} {acts : List LifecycleAct}
    {s : StoreLifecycle Z} (h : exec (step options) create acts = some s) : Placed s :=
  exec_invariant (fun _ _ _ hi hs => placed_step hi hs) placed_create h

/-! ## What the store keeps to -/

structure Disciplined (options : SandboxStoreOptions Z) (s : StoreLifecycle Z) : Prop where
  unique : ∀ e ∈ s.store.cache.values, ∀ e' ∈ s.store.cache.values,
    e.owner = e'.owner → e.sha = e'.sha → e = e'
  shared : ∀ owner workflow source e, s.store.cache.get? (storeKey owner workflow.sha) = some e →
    ∃ t, s.store.get options owner workflow source = .ok (t, e.sandbox) ∧
      t.sandboxes = s.store.sandboxes
  building : ∀ b c, s.store.sandboxes[b]? = some c → c.status = .building →
    (∃ e, s.store.cache.get? c.key = some e ∧ e.sandbox = b) ∨
      ∃ call ∈ s.disposeCalls, ∃ e ∈ call.entries, e.sandbox = b
  kept : ∀ a t b, (∃ cause, a = .terminated b cause) ∨ (∃ message, a = .buildFailed b message) →
    step options s a = some t → ∀ k e, s.store.cache.get? k = some e → e.sandbox ≠ b →
      t.store.cache.get? k = some e
  swept : ∀ owner workflow source t b, s.store.cache.get? (storeKey owner workflow.sha) = none →
    s.store.get options owner workflow source = .ok (t, b) →
      Swept options s.store t (s.store.sweptBy options owner workflow source)
  once : ∀ b, s.disposals.count b ≤ 1
  disposed : s.quiet = true → (∀ call ∈ s.disposeCalls, call = .resolved) →
    s.pendingDisposals = [] ∧
      ∀ b, s.store.look (·.status) b = some .ready → b ∉ s.crashed → s.disposals.count b = 1

theorem get?_forget_of_ne {s : SandboxStore Z} (h : Keyed s) {b : Nat} {k : String} {e : CacheEntry}
    (he : s.cache.get? k = some e) (hne : e.sandbox ≠ b) : (s.forget b).cache.get? k = some e := by
  rcases forget_cases h b with ⟨k', e', he', hb, -, hf⟩ | ⟨-, hf⟩
  · rw [hf]
    refine (OrderedMap.get?_delete_of_ne _ ?_).trans he
    rintro rfl
    obtain rfl : e = e' := Option.some.inj (he.symm.trans he')
    exact hne hb
  · rw [hf]
    exact he

theorem Placed.kept {options : SandboxStoreOptions Z} {s t : StoreLifecycle Z} (h : Placed s)
    {a : LifecycleAct} {b : Nat}
    (ha : (∃ cause, a = .terminated b cause) ∨ ∃ message, a = .buildFailed b message)
    (ht : step options s a = some t) {k : String} {e : CacheEntry}
    (he : s.store.cache.get? k = some e) (hne : e.sandbox ≠ b) : t.store.cache.get? k = some e := by
  rcases ha with ⟨cause, rfl⟩ | ⟨message, rfl⟩
  · obtain ⟨store, hs, rfl⟩ := Option.map_eq_some_iff.mp ht
    unfold SandboxStore.terminate at hs
    split at hs
    · split at hs
      · cases hs
        exact get?_forget_of_ne h.keyed he hne
      · cases hs
    · cases hs
  · obtain ⟨store, hs, rfl⟩ := Option.map_eq_some_iff.mp ht
    obtain ⟨c, -, -, rfl⟩ := stepped_settleBuild hs
    rw [forget_mapSandbox s.store b (fun c => { c with status := .failed message }) fun _ => rfl]
    exact get?_forget_of_ne h.keyed he hne

/-- A build in progress is the entry of its key, unless a `dispose` call is waiting for it. -/
theorem Placed.building {s : StoreLifecycle Z} (h : Placed s) {b : Nat} {c : SandboxCell Z}
    (hc : s.store.sandboxes[b]? = some c) (hb : c.status = .building) :
    (∃ e, s.store.cache.get? c.key = some e ∧ e.sandbox = b) ∨
      ∃ call ∈ s.disposeCalls, ∃ e ∈ call.entries, e.sandbox = b := by
  have hstatus : s.store.look (·.status) b = some .building := by simp [look, hc, hb]
  have hone := h.present b .building hstatus (by simp)
  have hnot : ¬ (b ∈ s.disposals ∨ b ∈ s.crashed) := by
    intro hx
    have := h.ended b hx
    simp [hstatus] at this
  have hd : s.disposals.count b = 0 := List.count_eq_zero.mpr fun hx => hnot (Or.inl hx)
  have hcr : s.crashed.count b = 0 := List.count_eq_zero.mpr fun hx => hnot (Or.inr hx)
  simp only [placesAt, hd, hcr] at hone
  by_cases hcached : 0 < s.store.cachedAt b
  · obtain ⟨k, e, he, rfl⟩ := get?_of_cachedAt_pos hcached
    obtain ⟨-, -, hkey, -⟩ := h.keyed k e he
    rw [look, hc] at hkey
    obtain rfl : c.key = k := Option.some.inj hkey
    exact Or.inl ⟨e, he, rfl⟩
  · have hsnap : 0 < s.snapshotsAt b := by omega
    obtain ⟨call, hcall, hmem⟩ := List.mem_flatMap.mp (List.count_pos_iff.mp hsnap)
    obtain ⟨e, he, rfl⟩ := List.mem_map.mp hmem
    exact Or.inr ⟨call, hcall, e, he, rfl⟩

/-- When every `dispose` call has resolved, a sandbox has no other place left than the disposals. -/
theorem Placed.disposed {s : StoreLifecycle Z} (h : Placed s) (hq : s.quiet = true)
    (hall : ∀ call ∈ s.disposeCalls, call = .resolved) :
    s.pendingDisposals = [] ∧
      ∀ b, s.store.look (·.status) b = some .ready → b ∉ s.crashed → s.disposals.count b = 1 := by
  constructor
  · rw [List.eq_nil_iff_forall_not_mem]
    intro n hn
    obtain ⟨c, hc, hcov⟩ := h.covered hq n hn
    rw [hall c hc] at hcov
    exact hcov
  · intro b hb hcr
    have hone := h.present b .ready hb (by simp)
    have hcached : s.store.cachedAt b = 0 := by
      simp [cachedAt, h.emptied hq, OrderedMap.values]
    have hsnap : s.snapshotsAt b = 0 := by
      apply List.count_eq_zero.mpr
      intro hx
      obtain ⟨call, hcall, hmem⟩ := List.mem_flatMap.mp hx
      rw [hall call hcall] at hmem
      simp [DisposeCall.entries] at hmem
    have hzero : s.crashed.count b = 0 := List.count_eq_zero.mpr hcr
    simp only [placesAt] at hone
    omega

theorem Placed.disciplined {options : SandboxStoreOptions Z} {s : StoreLifecycle Z} (h : Placed s) :
    Disciplined options s where
  unique := by
    intro e he e' he' howner hsha
    have h1 := (mem_values_iff h.keyed.filed e).mp he
    have h2 := (mem_values_iff h.keyed.filed e').mp he'
    have hk : e.key = e'.key := by
      rw [← (h.keyed _ _ h1).2.1, ← (h.keyed _ _ h2).2.1, howner, hsha]
    rw [hk, h2] at h1
    exact (Option.some.inj h1).symm
  shared := by
    intro owner workflow source e he
    exact ⟨s.store.hit owner workflow e, by simp [SandboxStore.get, he], rfl⟩
  building := fun b c hc hb => h.building hc hb
  kept := fun a t b ha ht k e he hne => h.kept ha ht he hne
  swept := by
    intro owner workflow source t b hget hok
    cases hconfig : workflowConfig options workflow with
    | error message => simp [SandboxStore.get, hget, hconfig] at hok
    | ok config =>
      obtain ⟨heq, hswept⟩ := get_miss h.keyed source hget hconfig
      rw [heq] at hok
      cases hok
      rw [hswept]
      exact swept_of_miss h.keyed h.recent source config hget
  once := by
    intro b
    have := h.atMost b
    simp only [placesAt] at this
    omega
  disposed := fun hq hall => h.disposed hq hall

/-- Whatever callers, builds, workers and `dispose` calls do and in whatever order. -/
theorem store_disciplined (options : SandboxStoreOptions Z) (acts : List LifecycleAct)
    (s : StoreLifecycle Z) (h : exec (step options) create acts = some s) :
    Disciplined options s :=
  (exec_placed h).disciplined

/-- Three workflows on a store with room for one: the sweep takes the first, the second crashes, and
`dispose` gets the third. -/
def evictedTrace : List LifecycleAct :=
  [.get "acme" (hookManifest "alpha" "a1") "", .built 0, .get "acme" (hookManifest "beta" "b1") "",
    .built 1, .terminated 1 "boom", .get "acme" (hookManifest "gamma" "c1") "", .dispose,
    .clear 0 false, .built 2, .drained 0 ⟨"acme/c1", "acme", "c1", 2, 1⟩, .disposalSettled 0,
    .drainsDone 0, .disposalSettled 1, .disposeResolved 0]

theorem store_disciplined_evicted : ∃ s, exec (step singleOptions) create evictedTrace = some s ∧
    (s.disposals = [0, 2] ∧ s.crashed = [1] ∧ s.quiet = true ∧ s.disposeCalls = [.resolved]) ∧
    Disciplined singleOptions s :=
  ⟨_, rfl, ⟨rfl, rfl, rfl, rfl⟩, store_disciplined singleOptions evictedTrace _ rfl⟩

/-- A hit sweeps nothing, so two idle entries stay in a cache with room for one; and a `get` after
`dispose` has cleared the cache starts a second build beside the first. -/
theorem hit_sweeps_nothing :
    (∃ s, exec (step singleOptions) create
        [.get "acme" (hookManifest "alpha" "a1") "", .get "acme" (hookManifest "beta" "b1") "",
          .built 0, .built 1, .get "acme" (hookManifest "alpha" "a1") ""] = some s ∧
      ¬ (s.store.cache.size ≤ 1 ∨ ∀ e ∈ s.store.cache.values,
        s.store.look (·.status) e.sandbox = some .building ∨ s.store.active e = true)) ∧
    ∃ s, exec (step singleOptions) create
        [.get "acme" (hookManifest "alpha" "a1") "", .dispose, .clear 0 false,
          .get "acme" (hookManifest "alpha" "a1") ""] = some s ∧
      s.store.sandboxes.map (fun c => (c.key, c.status)) =
        [("acme/a1", .building), ("acme/a1", .building)] := by
  refine ⟨⟨_, rfl, by decide⟩, ⟨_, rfl, rfl⟩⟩

end StoreLifecycle

end WorkflowEngine.Runtime
