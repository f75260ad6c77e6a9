import WorkflowEngine.Lib.ListIndex
import WorkflowEngine.Runtime.SandboxStoreCoherence
import WorkflowEngine.Runtime.SandboxStoreEviction

/-!
# What the sweep takes

The insertion order of the cache is the order of last use, since a hit moves its
entry to the end. So the victims of a miss are the least recently used entries
among those that are built and idle, and if the cap still does not hold after
them, everything left is building or active.
-/

namespace WorkflowEngine.Runtime

open Lib
set_option autoImplicit false

variable {Z : Type}

namespace SandboxStore

/-- `cache.get(key) === entry` for the entry of build `b`. -/
def caches (s : SandboxStore Z) (b : Nat) : Bool :=
  match s.sandboxes[b]? with
  | none => false
  | some c =>
    match s.cache.get? c.key with
    | some e => e.sandbox = b
    | none => false

/-- `entry.sandbox?.isActive === true`. -/
def active (s : SandboxStore Z) (e : CacheEntry) : Bool :=
  match s.sandboxes[e.sandbox]? with
  | some c => c.status = .ready && c.runInFlight
  | none => false

/-- The entries that a call of `get` evicts: none on a hit. -/
def sweptBy (options : SandboxStoreOptions Z) (s : SandboxStore Z) (owner : String)
    (workflow : WorkflowManifest) (bundleSource : String) : List CacheEntry :=
  match s.cache.get? (storeKey owner workflow.sha), workflowConfig options workflow with
  | none, .ok config =>
    let t := s.insert owner workflow bundleSource config
    t.victims options.maxCount t.cache.size t.cache.values
  | _, _ => []

/-! ## What the operations do to the cache -/

/-- How often a sandbox is in the cache. -/
def cachedAt (s : SandboxStore Z) (b : Nat) : Nat := (s.cache.values.map (·.sandbox)).count b

/-- A cached entry is filed under its own key, its sandbox is of that key, and its build has not
failed. -/
def Keyed (s : SandboxStore Z) : Prop :=
  ∀ k e, s.cache.get? k = some e →
    e.key = k ∧ storeKey e.owner e.sha = k ∧ s.look (·.key) e.sandbox = some k ∧
      (s.look (·.status) e.sandbox = some .building ∨ s.look (·.status) e.sandbox = some .ready)

theorem cachedAt_delete (s : SandboxStore Z) {k : String} {e : CacheEntry}
    (h : s.cache.get? k = some e) (b : Nat) :
    s.cachedAt b = { s with cache := s.cache.delete k }.cachedAt b + [e.sandbox].count b := by
  have hperm := (s.cache.perm_values_delete h).map (·.sandbox)
  rw [cachedAt, hperm.count_eq, List.map_cons, List.count_cons, List.count_singleton]
  rfl

theorem cachedAt_hit (s : SandboxStore Z) {owner : String} {workflow : WorkflowManifest}
    {e : CacheEntry} (h : s.cache.get? (storeKey owner workflow.sha) = some e) (b : Nat) :
    (s.hit owner workflow e).cachedAt b = s.cachedAt b := by
  rw [s.cachedAt_delete h b]
  simp only [cachedAt, hit, OrderedMap.values, OrderedMap.entries_set_delete, List.map_append,
    List.map_cons, List.map_nil, List.count_append]

theorem cachedAt_insert (s : SandboxStore Z) {owner : String} {workflow : WorkflowManifest}
    (source : String) (config : WorkflowConfig Z)
    (h : s.cache.get? (storeKey owner workflow.sha) = none) (b : Nat) :
    (s.insert owner workflow source config).cachedAt b =
      s.cachedAt b + [s.sandboxes.length].count b := by
  simp only [cachedAt, insert, OrderedMap.values, OrderedMap.entries_set_of_get?_none _ _ _ h,
    List.map_append, List.map_cons, List.map_nil, List.count_append]

theorem cachedAt_pos {s : SandboxStore Z} {k : String} {e : CacheEntry}
    (h : s.cache.get? k = some e) : 0 < s.cachedAt e.sandbox :=
  List.count_pos_iff.mpr (List.mem_map_of_mem (OrderedMap.mem_values_of_get? h))

theorem get?_of_cachedAt_pos {s : SandboxStore Z} {b : Nat} (h : 0 < s.cachedAt b) :
    ∃ k e, s.cache.get? k = some e ∧ e.sandbox = b := by
  obtain ⟨e, he, rfl⟩ := List.mem_map.mp (List.count_pos_iff.mp h)
  obtain ⟨⟨k, e⟩, hmem, rfl⟩ := List.mem_map.mp he
  exact ⟨k, e, (OrderedMap.get?_eq_some_iff _ _ _).mpr hmem, rfl⟩

theorem cachedAt_foldl_evict (vs : List CacheEntry) {s : SandboxStore Z}
    (hkeys : (vs.map (·.key)).Nodup) (hget : ∀ v ∈ vs, s.cache.get? v.key = some v) (b : Nat) :
    s.cachedAt b = (vs.foldl evict s).cachedAt b + (vs.map (·.sandbox)).count b := by
  induction vs generalizing s with
  | nil => rfl
  | cons v vs ih =>
    rw [List.map_cons, List.nodup_cons] at hkeys
    have hrest := ih (s := s.evict v) hkeys.2 fun w hw =>
      get?_evict hkeys.1 hw (hget w (List.mem_cons_of_mem _ hw))
    have hone := s.cachedAt_delete (hget v List.mem_cons_self) b
    change s.cachedAt b = (s.evict v).cachedAt b + _ at hone
    rw [List.foldl_cons, List.map_cons, List.count_cons]
    rw [List.count_singleton] at hone
    omega

/-- Evictions leave everything of a sandbox but its flag. -/
theorem look_foldl_evict_of_eq {α : Type} (g : SandboxCell Z → α)
    (hg : ∀ c, g { c with disposed := true } = g c) (vs : List CacheEntry) (s : SandboxStore Z)
    (b : Nat) : (vs.foldl evict s).look g b = s.look g b := by
  induction vs generalizing s with
  | nil => rfl
  | cons v vs ih =>
    refine Eq.trans (ih (s.evict v)) ?_
    unfold evict disposeEntry
    exact look_mapSandbox_of_eq _ _ _ _ _ hg

theorem entries_foldl_evict (vs : List CacheEntry) (s : SandboxStore Z) :
    (vs.foldl evict s).cache.entries =
      s.cache.entries.filter fun x => x.1 ∉ vs.map (·.key) := by
  induction vs generalizing s with
  | nil => simp
  | cons v vs ih =>
    rw [List.foldl_cons, ih]
    simp only [evict, disposeEntry, mapSandbox, OrderedMap.entries_delete, List.filter_filter]
    apply List.filter_congr
    intro x _
    rw [List.map_cons]
    by_cases hv : x.1 = v.key
    · simp [hv]
    · simp [hv, List.mem_cons]

theorem caches_iff {s : SandboxStore Z} (h : Keyed s) (b : Nat) :
    s.caches b = true ↔ ∃ k e, s.cache.get? k = some e ∧ e.sandbox = b := by
  unfold caches
  constructor
  · intro hb
    split at hb
    · cases hb
    · rename_i c _
      split at hb
      · rename_i e he
        exact ⟨c.key, e, he, by simpa using hb⟩
      · cases hb
  · rintro ⟨k, e, he, rfl⟩
    obtain ⟨-, -, hkey, -⟩ := h k e he
    obtain ⟨c, hc, rfl⟩ := Option.map_eq_some_iff.mp hkey
    simp [hc, he]

/-- `forget` takes out the entry of its own build and nothing else. -/
theorem forget_cases {s : SandboxStore Z} (h : Keyed s) (b : Nat) :
    (∃ k e, s.cache.get? k = some e ∧ e.sandbox = b ∧ s.caches b = true ∧
      s.forget b = { s with cache := s.cache.delete k }) ∨
    (s.caches b = false ∧ s.forget b = s) := by
  cases hb : s.caches b with
  | true =>
    obtain ⟨k, e, he, rfl⟩ := (caches_iff h b).mp hb
    obtain ⟨-, -, hkey, -⟩ := h k e he
    obtain ⟨c, hc, rfl⟩ := Option.map_eq_some_iff.mp hkey
    exact Or.inl ⟨c.key, e, he, rfl, rfl, by simp [forget, hc, he]⟩
  | false =>
    refine Or.inr ⟨rfl, ?_⟩
    unfold caches at hb
    unfold forget
    split
    · rfl
    · rename_i c hc
      simp only [hc] at hb
      split
      · rename_i e he
        simp only [he, decide_eq_false_iff_not] at hb
        rw [if_neg hb]
      · rfl

/-! ## Keys and recency -/

theorem Keyed.filed {s : SandboxStore Z} (h : Keyed s) : Filed s := by
  intro k e he
  obtain ⟨hk, -, hkey, -⟩ := h k e he
  exact ⟨hk, hkey⟩

/-- A step that caches nothing new and fails no cached build. -/
theorem Keyed.mono {s t : SandboxStore Z} (h : Keyed s)
    (hcache : ∀ k e, t.cache.get? k = some e → s.cache.get? k = some e)
    (hkey : ∀ b, t.look (·.key) b = s.look (·.key) b)
    (hstatus : ∀ k e, t.cache.get? k = some e →
      t.look (·.status) e.sandbox = s.look (·.status) e.sandbox ∨
        t.look (·.status) e.sandbox = some .ready) : Keyed t := by
  intro k e he
  obtain ⟨h1, h2, h3, h4⟩ := h k e (hcache k e he)
  refine ⟨h1, h2, (hkey _).trans h3, ?_⟩
  rcases hstatus k e he with hx | hx
  · rw [hx]
    exact h4
  · exact Or.inr hx

theorem Keyed.hit {s : SandboxStore Z} (h : Keyed s) {owner : String} {workflow : WorkflowManifest}
    {e : CacheEntry} (hget : s.cache.get? (storeKey owner workflow.sha) = some e) :
    Keyed (s.hit owner workflow e) := by
  intro k e' he'
  simp only [SandboxStore.hit, OrderedMap.get?_set, OrderedMap.get?_delete] at he'
  split at he'
  · rename_i hk
    subst hk
    cases he'
    exact h _ e hget
  · exact h k e' he'

theorem Keyed.insert {s : SandboxStore Z} (h : Keyed s) (owner : String)
    (workflow : WorkflowManifest) (source : String) (config : WorkflowConfig Z) :
    Keyed (s.insert owner workflow source config) := by
  intro k e he
  simp only [SandboxStore.insert, OrderedMap.get?_set] at he
  split at he
  · rename_i hk
    subst hk
    cases he
    exact ⟨rfl, rfl, by simp [look, SandboxStore.insert], Or.inl (by simp [look, SandboxStore.insert])⟩
  · obtain ⟨h1, h2, h3, h4⟩ := h k e he
    refine ⟨h1, h2, look_insert s owner workflow source config _ h3, ?_⟩
    rcases h4 with h4 | h4
    · exact Or.inl (look_insert s owner workflow source config _ h4)
    · exact Or.inr (look_insert s owner workflow source config _ h4)

theorem get?_foldl_evict {vs : List CacheEntry} {s : SandboxStore Z} {k : String} {e : CacheEntry}
    (h : (vs.foldl evict s).cache.get? k = some e) : s.cache.get? k = some e := by
  rw [OrderedMap.get?_eq_some_iff, entries_foldl_evict] at h
  exact (OrderedMap.get?_eq_some_iff _ _ _).mpr (List.mem_of_mem_filter h)

theorem Keyed.foldl_evict {s : SandboxStore Z} (h : Keyed s) (vs : List CacheEntry) :
    Keyed (vs.foldl evict s) :=
  h.mono (fun _ _ he => get?_foldl_evict he)
    (fun b => look_foldl_evict_of_eq _ (fun _ => rfl) vs s b)
    (fun _ e _ => Or.inl (look_foldl_evict_of_eq _ (fun _ => rfl) vs s e.sandbox))

/-- How many answered calls ago a key was last asked for. -/
def lastUse (s : SandboxStore Z) (k : String) : Nat :=
  s.gets.findIdx fun r => storeKey r.owner r.workflow.sha = k

def Older (s : SandboxStore Z) (e e' : CacheEntry) : Prop := s.lastUse e'.key < s.lastUse e.key

/-- The cache is in order of last use, the least recently used entry first. -/
def Recent (s : SandboxStore Z) : Prop :=
  s.cache.keys.Pairwise fun k k' => s.lastUse k' < s.lastUse k

theorem Recent.sublist {s t : SandboxStore Z} (h : Recent s) (hgets : t.gets = s.gets)
    (hsub : t.cache.keys.Sublist s.cache.keys) : Recent t := by
  unfold Recent lastUse
  rw [hgets]
  exact List.Pairwise.sublist hsub h

/-- A call that is answered makes its key the most recent one. -/
theorem Recent.answer {s t : SandboxStore Z} (h : Recent s) (owner : String)
    (workflow : WorkflowManifest) (b : Nat) (hgets : t.gets = ⟨owner, workflow, b⟩ :: s.gets)
    (keys : List String) (hsub : keys.Sublist s.cache.keys)
    (hnot : storeKey owner workflow.sha ∉ keys)
    (hkeys : t.cache.keys = keys ++ [storeKey owner workflow.sha]) : Recent t := by
  have hnew : t.lastUse (storeKey owner workflow.sha) = 0 := by
    simp [lastUse, hgets, List.findIdx_cons]
  have hold : ∀ k ∈ keys, t.lastUse k = s.lastUse k + 1 := by
    intro k hk
    have hne : storeKey owner workflow.sha ≠ k := by
      intro heq
      exact hnot (heq ▸ hk)
    simp [lastUse, hgets, List.findIdx_cons, hne]
  unfold Recent
  rw [hkeys, List.pairwise_append]
  refine ⟨?_, List.pairwise_singleton _ _, ?_⟩
  · have hp := List.Pairwise.sublist hsub h
    refine List.Pairwise.imp_of_mem ?_ hp
    intro k k' hk hk' hlt
    rw [hold k hk, hold k' hk']
    omega
  · intro k hk k' hk'
    rw [List.mem_singleton.mp hk', hnew, hold k hk]
    omega

theorem Recent.hit {s : SandboxStore Z} (h : Recent s) (owner : String)
    (workflow : WorkflowManifest) (e : CacheEntry) : Recent (s.hit owner workflow e) := by
  apply h.answer owner workflow e.sandbox rfl (s.cache.delete (storeKey owner workflow.sha)).keys
  · exact List.filter_sublist.map Prod.fst
  · rw [← OrderedMap.get?_eq_none_iff]
    exact OrderedMap.get?_delete_self _ _
  · simp only [SandboxStore.hit, OrderedMap.keys, OrderedMap.entries_set_delete, List.map_append,
      List.map_cons, List.map_nil]

theorem Recent.insert {s : SandboxStore Z} (h : Recent s) {owner : String}
    {workflow : WorkflowManifest} (source : String) (config : WorkflowConfig Z)
    (hget : s.cache.get? (storeKey owner workflow.sha) = none) :
    Recent (s.insert owner workflow source config) := by
  apply h.answer owner workflow s.sandboxes.length rfl s.cache.keys
  · exact List.Sublist.refl _
  · rw [← OrderedMap.get?_eq_none_iff]
    exact hget
  · simp only [SandboxStore.insert, OrderedMap.keys, OrderedMap.entries_set_of_get?_none _ _ _ hget,
      List.map_append, List.map_cons, List.map_nil]

theorem gets_foldl_evict (vs : List CacheEntry) (s : SandboxStore Z) :
    (vs.foldl evict s).gets = s.gets := by
  induction vs generalizing s with
  | nil => rfl
  | cons v vs ih => exact ih (s.evict v)

theorem Recent.foldl_evict {s : SandboxStore Z} (h : Recent s) (vs : List CacheEntry) :
    Recent (vs.foldl evict s) := by
  refine h.sublist (gets_foldl_evict vs s) ?_
  rw [OrderedMap.keys, entries_foldl_evict]
  exact List.filter_sublist.map Prod.fst

/-- The values in the order of the map, by last use. -/
theorem Recent.values {s : SandboxStore Z} (h : Recent s) (hk : Keyed s) :
    s.cache.values.Pairwise s.Older := by
  have hkeys : s.cache.values.map (·.key) = s.cache.keys := by
    rw [OrderedMap.values, OrderedMap.keys, List.map_map]
    apply List.map_congr_left
    intro x hx
    exact (hk x.1 x.2 ((OrderedMap.get?_eq_some_iff _ _ _).mpr hx)).1
  unfold Recent at h
  rw [← hkeys, List.pairwise_map] at h
  exact h

/-! ## The sweep of a miss -/

/-- `t` is `s` after a miss that evicted `vs`: the cap holds unless everything left is building or
active, and what was evicted was idle and less recently used than any idle entry that stayed. -/
structure Swept (options : SandboxStoreOptions Z) (s t : SandboxStore Z) (vs : List CacheEntry) :
    Prop where
  bounded : t.cache.size ≤ options.maxCount ∨
    ∀ e ∈ t.cache.values, t.look (·.status) e.sandbox = some .building ∨ t.active e = true
  idle : ∀ v ∈ vs, s.evictable v = true
  gone : ∀ e ∈ s.cache.values, e ∈ vs ↔ e ∉ t.cache.values
  ordered : vs.Pairwise s.Older
  oldest : ∀ v ∈ vs, ∀ e ∈ s.cache.values, e ∉ vs → s.evictable e = true → s.Older v e

theorem size_foldl_evict (vs : List CacheEntry) {s : SandboxStore Z}
    (hkeys : (vs.map (·.key)).Nodup) (hget : ∀ v ∈ vs, s.cache.get? v.key = some v) :
    (vs.foldl evict s).cache.size + vs.length = s.cache.size := by
  induction vs generalizing s with
  | nil => rfl
  | cons v vs ih =>
    rw [List.map_cons, List.nodup_cons] at hkeys
    have hrest := ih (s := s.evict v) hkeys.2 fun w hw =>
      get?_evict hkeys.1 hw (hget w (List.mem_cons_of_mem _ hw))
    have hone := (s.cache.perm_entries_delete (hget v List.mem_cons_self)).length_eq
    change s.cache.size = (s.evict v).cache.size + 1 at hone
    rw [List.foldl_cons, List.length_cons]
    omega

/-- The victims of a miss are cached, under different keys, and none of them is the new entry. -/
theorem idleVictims_cached (options : SandboxStoreOptions Z) {s : SandboxStore Z} (h : Keyed s)
    {owner : String} {workflow : WorkflowManifest} (source : String) (config : WorkflowConfig Z)
    (hget : s.cache.get? (storeKey owner workflow.sha) = none) :
    ((s.idleVictims options).map (·.key)).Nodup ∧
      ∀ v ∈ s.idleVictims options,
        v ∈ s.cache.values ∧
          (s.insert owner workflow source config).cache.get? v.key = some v := by
  have hsub : (s.idleVictims options).Sublist s.cache.values :=
    (List.take_sublist _ _).trans List.filter_sublist
  refine ⟨(values_keys_nodup h.filed).sublist (hsub.map _), ?_⟩
  intro v hv
  have hmem := hsub.subset hv
  have hcached := (mem_values_iff h.filed v).mp hmem
  refine ⟨hmem, ?_⟩
  have hne : v.key ≠ storeKey owner workflow.sha := by
    intro heq
    rw [← heq, hcached] at hget
    cases hget
  exact (OrderedMap.get?_set_of_ne _ _ _ hne).trans hcached

theorem get_miss {options : SandboxStoreOptions Z} {s : SandboxStore Z} (h : Keyed s)
    {owner : String} {workflow : WorkflowManifest} (source : String) {config : WorkflowConfig Z}
    (hget : s.cache.get? (storeKey owner workflow.sha) = none)
    (hconfig : workflowConfig options workflow = .ok config) :
    s.get options owner workflow source =
        .ok ((s.idleVictims options).foldl evict (s.insert owner workflow source config),
          s.sandboxes.length) ∧
      s.sweptBy options owner workflow source = s.idleVictims options := by
  have hvictims := victims_insert h.filed options source config hget
  constructor
  · simp only [get, hget, hconfig, sweep_eq_foldl, hvictims]
  · simp only [sweptBy, hget, hconfig, hvictims]

theorem mem_values_foldl_evict {s : SandboxStore Z} (h : Keyed s) (vs : List CacheEntry)
    (e : CacheEntry) :
    e ∈ (vs.foldl evict s).cache.values ↔ e ∈ s.cache.values ∧ e.key ∉ vs.map (·.key) := by
  rw [mem_values_iff (h.foldl_evict vs).filed, mem_values_iff h.filed, OrderedMap.get?_eq_some_iff,
    OrderedMap.get?_eq_some_iff, entries_foldl_evict, List.mem_filter]
  simp

/-- A cached entry that the sweep may not take is building or active. -/
theorem building_or_active {s : SandboxStore Z} (h : Keyed s) {e : CacheEntry}
    (he : e ∈ s.cache.values) (hidle : s.evictable e = false) :
    s.look (·.status) e.sandbox = some .building ∨ s.active e = true := by
  obtain ⟨-, -, -, hstatus⟩ := h e.key e ((mem_values_iff h.filed e).mp he)
  rcases hstatus with hb | hr
  · exact Or.inl hb
  · refine Or.inr ?_
    obtain ⟨c, hc, hready⟩ := Option.map_eq_some_iff.mp hr
    simp only [evictable, active, hc, hready] at hidle ⊢
    simpa using hidle

theorem active_congr {s t : SandboxStore Z} {e : CacheEntry}
    (hs : t.look (·.status) e.sandbox = s.look (·.status) e.sandbox)
    (hf : t.look (·.runInFlight) e.sandbox = s.look (·.runInFlight) e.sandbox) :
    t.active e = s.active e := by
  unfold active
  unfold look at hs hf
  cases ht : t.sandboxes[e.sandbox]? with
  | none =>
    rw [ht] at hs
    cases hx : s.sandboxes[e.sandbox]? with
    | none => rfl
    | some c => simp [hx] at hs
  | some c =>
    rw [ht] at hs hf
    cases hx : s.sandboxes[e.sandbox]? with
    | none => simp [hx] at hs
    | some d =>
      rw [hx] at hs hf
      simp only [Option.map_some, Option.some.injEq] at hs hf
      simp only [hs, hf]

theorem swept_bounded {options : SandboxStoreOptions Z} {s : SandboxStore Z} (h : Keyed s)
    {owner : String} {workflow : WorkflowManifest} (source : String) (config : WorkflowConfig Z)
    (hget : s.cache.get? (storeKey owner workflow.sha) = none) {t : SandboxStore Z}
    (ht : t = (s.idleVictims options).foldl evict (s.insert owner workflow source config)) :
    t.cache.size ≤ options.maxCount ∨
      ∀ e ∈ t.cache.values, t.look (·.status) e.sandbox = some .building ∨ t.active e = true := by
  obtain ⟨hkeys, hcached⟩ := idleVictims_cached options h source config hget
  have hins := h.insert owner workflow source config
  have hsize := size_foldl_evict _ hkeys fun v hv => (hcached v hv).2
  have hgrow : (s.insert owner workflow source config).cache.size = s.cache.size + 1 := by
    simp only [SandboxStore.insert, OrderedMap.size, OrderedMap.entries_set_of_get?_none _ _ _ hget,
      List.length_append, List.length_singleton]
  by_cases hfull : (s.cache.values.filter s.evictable).length <
      s.cache.size + 1 - options.maxCount
  · refine Or.inr ?_
    have hall : s.idleVictims options = s.cache.values.filter s.evictable :=
      List.take_of_length_le (Nat.le_of_lt hfull)
    intro e he
    subst ht
    rw [mem_values_foldl_evict hins] at he
    obtain ⟨hmem, hnot⟩ := he
    have hidle : (s.insert owner workflow source config).evictable e = false := by
      by_contra hx
      have hx : (s.insert owner workflow source config).evictable e = true := by simpa using hx
      have hnew := victims_insert h.filed options source config hget
      rw [victims_eq_take, hgrow, hall, List.take_of_length_le] at hnew
      · have hin : e ∈ s.idleVictims options := by
          rw [hall, ← hnew]
          exact List.mem_filter.mpr ⟨hmem, hx⟩
        exact hnot (List.mem_map_of_mem hin)
      · have hlen := congrArg List.length hnew
        rw [List.length_take] at hlen
        omega
    have hstatus := look_foldl_evict_of_eq (·.status) (fun _ => rfl) (s.idleVictims options)
      (s.insert owner workflow source config) e.sandbox
    have hflight := look_foldl_evict_of_eq (·.runInFlight) (fun _ => rfl) (s.idleVictims options)
      (s.insert owner workflow source config) e.sandbox
    rw [active_congr hstatus hflight, hstatus]
    exact building_or_active hins hmem hidle
  · refine Or.inl ?_
    have hlen : (s.idleVictims options).length = s.cache.size + 1 - options.maxCount := by
      rw [idleVictims, List.length_take]
      omega
    rw [ht]
    omega

theorem swept_of_miss {options : SandboxStoreOptions Z} {s : SandboxStore Z} (h : Keyed s)
    (hr : Recent s) {owner : String} {workflow : WorkflowManifest} (source : String)
    (config : WorkflowConfig Z) (hget : s.cache.get? (storeKey owner workflow.sha) = none) :
    Swept options s ((s.idleVictims options).foldl evict (s.insert owner workflow source config))
      (s.idleVictims options) := by
  obtain ⟨hkeys, hcached⟩ := idleVictims_cached options h source config hget
  have hins := h.insert owner workflow source config
  have hpair := (hr.values h).filter s.evictable
  have hsplit := List.take_append_drop (s.cache.size + 1 - options.maxCount)
    (s.cache.values.filter s.evictable)
  rw [← hsplit, List.pairwise_append] at hpair
  refine ⟨swept_bounded h source config hget rfl, ?_, ?_, hpair.1, ?_⟩
  · intro v hv
    exact (List.mem_filter.mp (List.mem_of_mem_take hv)).2
  · intro e he
    have hold : e ∈ (s.insert owner workflow source config).cache.values := by
      have hcur := (mem_values_iff h.filed e).mp he
      refine (mem_values_iff hins.filed e).mpr ?_
      have hne : e.key ≠ storeKey owner workflow.sha := by
        intro heq
        rw [← heq, hcur] at hget
        cases hget
      exact (OrderedMap.get?_set_of_ne _ _ _ hne).trans hcur
    rw [mem_values_foldl_evict hins]
    constructor
    · intro hv hx
      exact hx.2 (List.mem_map_of_mem hv)
    · intro hx
      by_contra hv
      refine hx ⟨hold, ?_⟩
      intro hmem
      obtain ⟨v, hvmem, hkey⟩ := List.mem_map.mp hmem
      have hve : v = e := by
        have h1 := (mem_values_iff h.filed v).mp (hcached v hvmem).1
        have h2 := (mem_values_iff h.filed e).mp he
        rw [hkey, h2] at h1
        exact (Option.some.inj h1).symm
      exact hv (hve ▸ hvmem)
  · intro v hv e he hnot hidle
    apply hpair.2.2 v hv e
    have hmem : e ∈ s.cache.values.filter s.evictable := List.mem_filter.mpr ⟨he, hidle⟩
    rw [← hsplit, List.mem_append] at hmem
    exact hmem.resolve_left hnot

theorem look_insert_eq {α : Type} (s : SandboxStore Z) (owner : String) (workflow : WorkflowManifest)
    (source : String) (config : WorkflowConfig Z) (b : Nat) (g : SandboxCell Z → α) :
    (s.insert owner workflow source config).look g b =
      if b = s.sandboxes.length then
        some (g ⟨storeKey owner workflow.sha, owner, source, workflow.name ++ ".js", config, .building,
          false, none, false, []⟩)
      else s.look g b := by
  simp only [look, SandboxStore.insert]
  split
  · rename_i hb
    subst hb
    simp
  · rename_i hb
    by_cases hlt : b < s.sandboxes.length
    · rw [List.getElem?_append_left hlt]
    · rw [List.getElem?_eq_none (by simp; omega), List.getElem?_eq_none (by omega)]

theorem forget_mapSandbox (s : SandboxStore Z) (b : Nat) (f : SandboxCell Z → SandboxCell Z)
    (hf : ∀ c, (f c).key = c.key) :
    (s.mapSandbox b f).forget b = (s.forget b).mapSandbox b f := by
  unfold forget mapSandbox
  simp only [List.getElem?_modify_eq, Option.map_eq_map]
  cases s.sandboxes[b]? with
  | none => rfl
  | some c =>
    simp only [Option.map_some, hf]
    cases s.cache.get? c.key with
    | none => rfl
    | some e =>
      by_cases he : e.sandbox = b
      · simp only [he, if_true]
      · simp only [he, if_false]

theorem cachedAt_forget {s : SandboxStore Z} (h : Keyed s) (b j : Nat) :
    s.cachedAt j = (s.forget b).cachedAt j + if s.caches b then [b].count j else 0 := by
  rcases forget_cases h b with ⟨k, e, he, rfl, hc, hf⟩ | ⟨hc, hf⟩
  · rw [hf, hc, s.cachedAt_delete he j]
    simp
  · rw [hf, hc]
    simp

theorem get?_forget {s : SandboxStore Z} {b : Nat} {k : String} {e : CacheEntry}
    (he : (s.forget b).cache.get? k = some e) : s.cache.get? k = some e :=
  (quiet_forget s b).cache k e he

theorem forget_of_empty {s : SandboxStore Z} (h : s.cache = .empty) (b : Nat) :
    (s.forget b).cache = .empty := by
  unfold forget
  split
  · exact h
  · simp only [h, OrderedMap.get?_empty]

theorem look_forget {α : Type} (s : SandboxStore Z) (b : Nat) (g : SandboxCell Z → α) (j : Nat) :
    (s.forget b).look g j = s.look g j := by
  have hs : (s.forget b).sandboxes = s.sandboxes := by
    unfold forget
    repeat' split
    all_goals rfl
  rw [look, look, hs]

theorem Keyed.forget {s : SandboxStore Z} (h : Keyed s) (b : Nat) : Keyed (s.forget b) :=
  h.mono (fun _ _ he => get?_forget he) (fun j => look_forget s b _ j)
    fun _ e _ => Or.inl (look_forget s b _ e.sandbox)

theorem Recent.forget {s : SandboxStore Z} (h : Recent s) (b : Nat) : Recent (s.forget b) := by
  refine h.sublist (quiet_forget s b).gets ?_
  unfold SandboxStore.forget
  split
  · exact List.Sublist.refl _
  · split
    · split
      · exact List.filter_sublist.map Prod.fst
      · exact List.Sublist.refl _
    · exact List.Sublist.refl _

end SandboxStore

end WorkflowEngine.Runtime
