import WorkflowEngine.Lib.ListIndex
import WorkflowEngine.Runtime.SandboxStore

/-!
# Evictions under waiting invocations

The sweep spares a sandbox while `isActive`, which is true only between
`sb.run` and its settlement. An invocation holds its sandbox longer: from the
call of `get` through the run queue. So the sweep is safe exactly on the steps
where none of the idle entries that it takes has an invocation waiting for it.
-/

namespace WorkflowEngine.Runtime

open Lib
set_option autoImplicit false

variable {Z : Type}

/-- The sandbox whose run the invocation still has to finish. -/
def InvokePhase.holds : InvokePhase → Option Nat
  | .awaiting b => some b
  | .queued b => some b
  | .running b => some b
  | _ => none

/-- The sandbox that the invocation has been given and not yet entered. -/
def InvokePhase.waitsFor : InvokePhase → Option Nat
  | .awaiting b => some b
  | .queued b => some b
  | _ => none

def InvokePhase.result : InvokePhase → Option InvokeResult
  | .emitting _ result => some result
  | .settled result => some result
  | _ => none

theorem InvokePhase.holds_cases {p : InvokePhase} {b : Nat} (h : p.holds = some b) :
    p.waitsFor = some b ∨ p = .running b := by
  cases p with
  | running c =>
    cases h
    exact Or.inr rfl
  | awaiting c => exact Or.inl h
  | queued c => exact Or.inl h
  | emitting c r => cases h
  | settled r => cases h
  | rejected m => cases h

namespace SandboxStore

/-- No invocation has lost the sandbox it was given. -/
structure Undisturbed (s : SandboxStore Z) : Prop where
  held : ∀ p ∈ s.invocations, ∀ b, p.holds = some b → ∀ c, s.sandboxes[b]? = some c → c.disposed = false
  results : ∀ p ∈ s.invocations, p.result ≠ some (.error .disposed)

/-- The entries that the sweep takes when a new one is inserted, least recently used first. -/
def idleVictims (options : SandboxStoreOptions Z) (s : SandboxStore Z) : List CacheEntry :=
  (s.cache.values.filter s.evictable).take (s.cache.size + 1 - options.maxCount)

/-- A call that builds a new sandbox finds no waiting invocation on the idle entries that have to
make room for it. -/
def VictimsUnwanted (options : SandboxStoreOptions Z) (s : SandboxStore Z) : StoreAct → Prop
  | .invoke owner workflow _ =>
    s.cache.has (storeKey owner workflow.sha) = false → (∃ config, workflowConfig options workflow = .ok config) →
      ∀ e ∈ s.idleVictims options, ∀ p ∈ s.invocations, p.waitsFor ≠ some e.sandbox
  | _ => True

theorem victims_eq_take (s : SandboxStore Z) (maxCount : Nat) (es : List CacheEntry) (remaining : Nat) :
    s.victims maxCount remaining es = (es.filter s.evictable).take (remaining - maxCount) := by
  induction es generalizing remaining with
  | nil => simp [victims]
  | cons e es ih =>
    unfold victims
    split
    · rename_i hle
      rw [Nat.sub_eq_zero_of_le hle, List.take_zero]
    · rename_i hlt
      split
      · rename_i he
        have hsucc : remaining - maxCount = (remaining - 1 - maxCount) + 1 := by omega
        rw [List.filter_cons_of_pos he, hsucc, List.take_succ_cons, ih]
      · rename_i he
        rw [List.filter_cons_of_neg he, ih]

/-- One field of sandbox `b`. -/
def look {α : Type} (s : SandboxStore Z) (g : SandboxCell Z → α) (b : Nat) : Option α :=
  (s.sandboxes[b]?).map g

theorem look_mapSandbox {α : Type} (s : SandboxStore Z) (b j : Nat) (f : SandboxCell Z → SandboxCell Z)
    (g : SandboxCell Z → α) :
    (s.mapSandbox b f).look g j = if b = j then s.look (fun c => g (f c)) j else s.look g j := by
  simp only [look, mapSandbox, List.getElem?_modify]
  by_cases h : b = j
  · simp [h, Function.comp_def]
  · simp [h]

theorem look_mapSandbox_of_eq {α : Type} (s : SandboxStore Z) (b j : Nat)
    (f : SandboxCell Z → SandboxCell Z) (g : SandboxCell Z → α) (h : ∀ c, g (f c) = g c) :
    (s.mapSandbox b f).look g j = s.look g j := by
  simp only [look_mapSandbox, h, ite_self]

/-- A run occupies its sandbox alone, and the sandbox says so. -/
structure Exclusive (s : SandboxStore Z) : Prop where
  running : ∀ (i b : Nat), s.invocations[i]? = some (.running b) → s.look (·.runInFlight) b = some true
  single : ∀ (i j b : Nat), s.invocations[i]? = some (.running b) →
    s.invocations[j]? = some (.running b) → i = j

structure Sound (s : SandboxStore Z) : Prop where
  cached : ∀ k e, s.cache.get? k = some e →
    e.key = k ∧ s.look (·.key) e.sandbox = some k ∧ s.look (·.disposed) e.sandbox = some false
  held : ∀ (i : Nat) p b, s.invocations[i]? = some p → p.holds = some b →
    s.look (·.disposed) b = some false
  results : ∀ (i : Nat) p, s.invocations[i]? = some p → p.result ≠ some (.error .disposed)

/-- A cached entry is filed under its own key, and its sandbox is of that key. -/
def Filed (s : SandboxStore Z) : Prop :=
  ∀ k e, s.cache.get? k = some e → e.key = k ∧ s.look (·.key) e.sandbox = some k

theorem Sound.filed {s : SandboxStore Z} (h : Sound s) : Filed s := by
  intro k e he
  obtain ⟨hk, hkey, -⟩ := h.cached k e he
  exact ⟨hk, hkey⟩

theorem Sound.undisturbed {s : SandboxStore Z} (h : Sound s) : Undisturbed s := by
  constructor
  · intro p hp b hb c hc
    obtain ⟨i, hi⟩ := List.mem_iff_getElem?.mp hp
    have hlook := h.held i p b hi hb
    rw [look, hc] at hlook
    exact Option.some.inj hlook
  · intro p hp
    obtain ⟨i, hi⟩ := List.mem_iff_getElem?.mp hp
    exact h.results i p hi

theorem sound_create : Sound (create : SandboxStore Z) := by
  constructor <;> simp [create]

theorem exclusive_create : Exclusive (create : SandboxStore Z) := by
  constructor <;> simp [create]

/-! ### One run at a time -/

/-- A step that starts no run and lowers no flag. -/
theorem Exclusive.mono {s t : SandboxStore Z} (h : Exclusive s)
    (hrun : ∀ (i b : Nat), t.invocations[i]? = some (.running b) → s.invocations[i]? = some (.running b))
    (hflight : ∀ b, s.look (·.runInFlight) b = some true → t.look (·.runInFlight) b = some true) :
    Exclusive t := by
  constructor
  · intro i b hi
    exact hflight b (h.running i b (hrun i b hi))
  · intro i j b hi hj
    exact h.single i j b (hrun i b hi) (hrun j b hj)

theorem getElem?_setPhase {s : SandboxStore Z} {i j : Nat} {p q : InvokePhase}
    (h : (s.setPhase i p).invocations[j]? = some q) :
    (j = i ∧ q = p) ∨ (j ≠ i ∧ s.invocations[j]? = some q) :=
  getElem?_set_cases h

theorem getElem?_push {ps : List InvokePhase} {p q : InvokePhase} {j : Nat}
    (h : (ps ++ [p])[j]? = some q) : q = p ∨ ps[j]? = some q := by
  rcases getElem?_snoc_cases h with hold | ⟨_, hnew⟩
  · exact Or.inr hold
  · exact Or.inl hnew

theorem Exclusive.mapSandbox {s : SandboxStore Z} (h : Exclusive s) (b : Nat)
    (f : SandboxCell Z → SandboxCell Z) (hf : ∀ c, (f c).runInFlight = c.runInFlight) :
    Exclusive (s.mapSandbox b f) := by
  refine h.mono (fun _ _ hi => hi) ?_
  intro j hj
  rw [look_mapSandbox_of_eq _ _ _ _ _ hf]
  exact hj

theorem Exclusive.setPhase {s : SandboxStore Z} (h : Exclusive s) (i : Nat) (p : InvokePhase)
    (hp : ∀ b, p ≠ .running b) : Exclusive (s.setPhase i p) := by
  refine h.mono ?_ (fun _ hj => hj)
  intro j b hj
  rcases getElem?_setPhase hj with ⟨_, heq⟩ | ⟨_, hold⟩
  · exact absurd heq.symm (hp b)
  · exact hold

theorem Exclusive.push {s : SandboxStore Z} (h : Exclusive s) (p : InvokePhase)
    (hp : ∀ b, p ≠ .running b) : Exclusive { s with invocations := s.invocations ++ [p] } := by
  refine h.mono ?_ (fun _ hj => hj)
  intro j b hj
  rcases getElem?_push hj with heq | hold
  · exact absurd heq.symm (hp b)
  · exact hold

theorem Exclusive.forget {s : SandboxStore Z} (h : Exclusive s) (b : Nat) : Exclusive (s.forget b) := by
  unfold SandboxStore.forget
  repeat' split
  all_goals exact ⟨h.running, h.single⟩

theorem Exclusive.sweep {s : SandboxStore Z} (h : Exclusive s) (maxCount : Nat) :
    Exclusive (s.sweep maxCount) := by
  unfold SandboxStore.sweep
  split
  · exact h
  · generalize s.victims maxCount s.cache.size s.cache.values = vs
    rename_i hsize
    clear hsize
    induction vs generalizing s with
    | nil => exact h
    | cons v vs ih =>
      apply ih
      exact Exclusive.mapSandbox (s := { s with cache := s.cache.delete v.key }) ⟨h.running, h.single⟩
        v.sandbox _ fun _ => rfl

theorem look_insert {α : Type} (s : SandboxStore Z) (owner : String) (workflow : WorkflowManifest)
    (source : String) (config : WorkflowConfig Z) (g : SandboxCell Z → α) {b : Nat} {x : α}
    (h : s.look g b = some x) : (s.insert owner workflow source config).look g b = some x := by
  obtain ⟨c, hc, hx⟩ := Option.map_eq_some_iff.mp h
  have hlt : b < s.sandboxes.length := (List.getElem?_eq_some_iff.mp hc).1
  rw [look, insert, List.getElem?_append_left hlt, hc, ← hx]
  rfl

theorem Exclusive.start {s : SandboxStore Z} (h : Exclusive s) {i b : Nat} {c : SandboxCell Z}
    (hc : s.sandboxes[b]? = some c) (hidle : c.runInFlight = false) :
    Exclusive ((s.mapSandbox b fun c => { c with runInFlight := true }).setPhase i (.running b)) := by
  have hnone : ∀ j : Nat, s.invocations[j]? ≠ some (.running b) := by
    intro j hj
    have hflight := h.running j b hj
    simp [look, hc, hidle] at hflight
  constructor
  · intro j b' hj
    have hlook : ∀ b', (s.look (·.runInFlight) b' = some true ∨ b' = b) →
        (s.mapSandbox b fun c => { c with runInFlight := true }).look (·.runInFlight) b' = some true := by
      intro b' hb'
      rw [look_mapSandbox]
      split
      · rename_i heq
        subst heq
        simp [look, hc]
      · rename_i hne
        rcases hb' with hb' | hb'
        · exact hb'
        · exact absurd hb'.symm hne
    apply hlook
    rcases getElem?_setPhase hj with ⟨_, heq⟩ | ⟨_, hold⟩
    · cases heq
      exact Or.inr rfl
    · exact Or.inl (h.running j b' hold)
  · intro j k b' hj hk
    rcases getElem?_setPhase hj with ⟨hji, hjq⟩ | ⟨_, hjold⟩
    · rcases getElem?_setPhase hk with ⟨hki, _⟩ | ⟨_, hkold⟩
      · exact hji.trans hki.symm
      · cases hjq
        exact absurd hkold (hnone k)
    · rcases getElem?_setPhase hk with ⟨_, hkq⟩ | ⟨_, hkold⟩
      · cases hkq
        exact absurd hjold (hnone j)
      · exact h.single j k b' hjold hkold

theorem Exclusive.settle {s : SandboxStore Z} (h : Exclusive s) {i b : Nat} (p : InvokePhase)
    (hi : s.invocations[i]? = some (.running b)) (hp : ∀ b, p ≠ .running b) :
    Exclusive ((s.mapSandbox b fun c => { c with runInFlight := false }).setPhase i p) := by
  have hold : ∀ (j b' : Nat),
      ((s.mapSandbox b fun c => { c with runInFlight := false }).setPhase i p).invocations[j]? =
        some (.running b') → j ≠ i ∧ s.invocations[j]? = some (.running b') := by
    intro j b' hj
    rcases getElem?_setPhase hj with ⟨_, heq⟩ | hold
    · exact absurd heq.symm (hp b')
    · exact hold
  constructor
  · intro j b' hj
    obtain ⟨hji, hj⟩ := hold j b' hj
    have hne : b ≠ b' := by
      rintro rfl
      exact hji (h.single j i b hj hi)
    change (s.mapSandbox b _).look _ b' = _
    rw [look_mapSandbox, if_neg hne]
    exact h.running j b' hj
  · intro j k b' hj hk
    exact h.single j k b' (hold j b' hj).2 (hold k b' hk).2

theorem exclusive_step {options : SandboxStoreOptions Z} {s t : SandboxStore Z} {a : StoreAct}
    (h : Exclusive s) (ht : step options s a = some t) : Exclusive t := by
  cases step_cases ht with
  | threw owner workflow source message => exact h.push _ (by simp)
  | hit owner workflow source e =>
    exact Exclusive.push (s := s.hit owner workflow e) ⟨h.running, h.single⟩ _ (by simp)
  | missed owner workflow source config t hget hconfig heq =>
    subst heq
    have hins : Exclusive (s.insert owner workflow source config) :=
      h.mono (fun _ _ hi => hi) fun _ hb => look_insert s owner workflow source config _ hb
    exact (hins.sweep _).push _ (by simp)
  | built b => exact h.mapSandbox b _ fun _ => rfl
  | buildFailed b =>
    apply Exclusive.forget
    exact h.mapSandbox b _ fun _ => rfl
  | enqueued i b =>
    apply Exclusive.setPhase
    · exact h.mapSandbox b _ fun _ => rfl
    · simp
  | rejected i => exact h.setPhase i _ (by simp)
  | refused i => exact h.setPhase i _ (by simp)
  | started i b c hi hc hguard =>
    apply h.start hc
    unfold runGuard at hguard
    repeat' split at hguard
    all_goals simp_all
  | cutOff i => exact h.setPhase i _ (by simp)
  | ran i b c result hi => exact h.settle _ hi (by simp)
  | finished i b =>
    apply Exclusive.setPhase
    · exact h.mapSandbox b _ fun _ => rfl
    · simp
  | terminated b => exact (h.forget b).mapSandbox b _ fun _ => rfl
  | disposeCalled => exact ⟨h.running, h.single⟩
  | disposeCleared => exact ⟨h.running, h.single⟩
  | entryDisposed e _ pending =>
    exact Exclusive.mapSandbox (s := { s with dispose := .cleared pending }) ⟨h.running, h.single⟩ e.sandbox _
      fun _ => rfl
  | entryFailed => exact ⟨h.running, h.single⟩

/-! ### What the sweep may take -/

/-- A step that disposes nothing; a phase that changes holds a live sandbox. -/
theorem Sound.mono {s t : SandboxStore Z} (h : Sound s)
    (hcache : ∀ k e, t.cache.get? k = some e → s.cache.get? k = some e)
    (hkey : ∀ b, t.look (·.key) b = s.look (·.key) b)
    (hdisposed : ∀ b, t.look (·.disposed) b = s.look (·.disposed) b)
    (hphase : ∀ (j : Nat) q, t.invocations[j]? = some q → s.invocations[j]? = some q ∨
      ((∀ b, q.holds = some b → s.look (·.disposed) b = some false) ∧ q.result ≠ some (.error .disposed))) :
    Sound t := by
  refine ⟨?_, ?_, ?_⟩
  · intro k e he
    rw [hkey, hdisposed]
    exact h.cached k e (hcache k e he)
  · intro j q b hj hq
    rw [hdisposed]
    rcases hphase j q hj with hold | hnew
    · exact h.held j q b hold hq
    · exact hnew.1 b hq
  · intro j q hj
    rcases hphase j q hj with hold | hnew
    · exact h.results j q hold
    · exact hnew.2

theorem Sound.mapSandbox {s : SandboxStore Z} (h : Sound s) (b : Nat) (f : SandboxCell Z → SandboxCell Z)
    (hkey : ∀ c, (f c).key = c.key) (hdisposed : ∀ c, (f c).disposed = c.disposed) :
    Sound (s.mapSandbox b f) :=
  h.mono (fun _ _ he => he) (fun _ => look_mapSandbox_of_eq _ _ _ _ _ hkey)
    (fun _ => look_mapSandbox_of_eq _ _ _ _ _ hdisposed) fun _ _ hj => Or.inl hj

theorem Sound.setPhase {s : SandboxStore Z} (h : Sound s) (i : Nat) (p : InvokePhase)
    (hheld : ∀ b, p.holds = some b → s.look (·.disposed) b = some false)
    (hres : p.result ≠ some (.error .disposed)) : Sound (s.setPhase i p) := by
  refine h.mono (fun _ _ he => he) (fun _ => rfl) (fun _ => rfl) ?_
  intro j q hj
  rcases getElem?_setPhase hj with ⟨_, rfl⟩ | ⟨_, hold⟩
  · exact Or.inr ⟨hheld, hres⟩
  · exact Or.inl hold

theorem Sound.push {s : SandboxStore Z} (h : Sound s) (p : InvokePhase)
    (hheld : ∀ b, p.holds = some b → s.look (·.disposed) b = some false)
    (hres : p.result ≠ some (.error .disposed)) :
    Sound { s with invocations := s.invocations ++ [p] } := by
  refine h.mono (fun _ _ he => he) (fun _ => rfl) (fun _ => rfl) ?_
  intro j q hj
  rcases getElem?_push hj with rfl | hold
  · exact Or.inr ⟨hheld, hres⟩
  · exact Or.inl hold

theorem Sound.delete {s : SandboxStore Z} (h : Sound s) (k : String) :
    Sound { s with cache := s.cache.delete k } := by
  refine h.mono ?_ (fun _ => rfl) (fun _ => rfl) fun _ _ hj => Or.inl hj
  intro j e he
  rw [OrderedMap.get?_delete] at he
  split at he
  · cases he
  · exact he

theorem Sound.forget {s : SandboxStore Z} (h : Sound s) (b : Nat) : Sound (s.forget b) := by
  unfold SandboxStore.forget
  split
  · exact h
  · split
    · split
      · exact h.delete _
      · exact h
    · exact h

theorem Sound.hit {s : SandboxStore Z} (h : Sound s) {owner : String} {workflow : WorkflowManifest}
    {e : CacheEntry} (hget : s.cache.get? (storeKey owner workflow.sha) = some e) :
    Sound (s.hit owner workflow e) := by
  refine ⟨?_, h.held, h.results⟩
  intro k e' he'
  simp only [SandboxStore.hit, OrderedMap.get?_set, OrderedMap.get?_delete] at he'
  split at he'
  · rename_i hk
    cases he'
    rw [hk]
    exact h.cached _ e hget
  · exact h.cached k e' he'

theorem Sound.insert {s : SandboxStore Z} (h : Sound s) (owner : String) (workflow : WorkflowManifest)
    (source : String) (config : WorkflowConfig Z) : Sound (s.insert owner workflow source config) := by
  refine ⟨?_, ?_, h.results⟩
  · intro k e he
    simp only [SandboxStore.insert, OrderedMap.get?_set] at he
    split at he
    · rename_i hk
      cases he
      refine ⟨hk.symm, ?_, ?_⟩
      · simp [look, SandboxStore.insert, hk]
      · simp [look, SandboxStore.insert]
    · obtain ⟨hek, hkey, hdisposed⟩ := h.cached k e he
      exact ⟨hek, look_insert s owner workflow source config _ hkey,
        look_insert s owner workflow source config _ hdisposed⟩
  · intro j p b hj hp
    exact look_insert s owner workflow source config _ (h.held j p b hj hp)

/-- Taking out a cached entry that no invocation holds. -/
theorem Sound.evict {s : SandboxStore Z} (h : Sound s) {v : CacheEntry}
    (hget : s.cache.get? v.key = some v)
    (hfree : ∀ (i : Nat) p, s.invocations[i]? = some p → p.holds ≠ some v.sandbox) : Sound (s.evict v) := by
  have hlook : ∀ b, b ≠ v.sandbox → s.look (·.disposed) b = some false →
      (s.evict v).look (·.disposed) b = some false := by
    intro b hne hb
    unfold SandboxStore.evict disposeEntry
    rw [look_mapSandbox, if_neg (Ne.symm hne)]
    exact hb
  refine ⟨?_, ?_, h.results⟩
  · intro k e he
    have he' : s.cache.get? k = some e ∧ k ≠ v.key := by
      change (s.cache.delete v.key).get? k = some e at he
      rw [OrderedMap.get?_delete] at he
      split at he
      · cases he
      · exact ⟨he, by assumption⟩
    obtain ⟨hek, hkey, hdisposed⟩ := h.cached k e he'.1
    obtain ⟨_, hvkey, _⟩ := h.cached _ v hget
    have hne : e.sandbox ≠ v.sandbox := by
      intro heq
      rw [heq, hvkey] at hkey
      exact he'.2 (Option.some.inj hkey).symm
    refine ⟨hek, Eq.trans (look_mapSandbox_of_eq _ _ _ _ _ ?_) hkey, hlook _ hne hdisposed⟩
    exact fun _ => rfl
  · intro i p b hi hp
    apply hlook
    · rintro rfl
      exact hfree i p hi hp
    · exact h.held i p b hi hp

theorem get?_evict {s : SandboxStore Z} {v w : CacheEntry} {vs : List CacheEntry}
    (hkey : v.key ∉ vs.map (·.key)) (hw : w ∈ vs) (hget : s.cache.get? w.key = some w) :
    (s.evict v).cache.get? w.key = some w := by
  have hne : w.key ≠ v.key := by
    intro heq
    exact hkey (heq ▸ List.mem_map_of_mem hw)
  change (s.cache.delete v.key).get? w.key = some w
  rw [OrderedMap.get?_delete_of_ne _ hne]
  exact hget

theorem Sound.foldl_evict (vs : List CacheEntry) {s : SandboxStore Z} (h : Sound s)
    (hkeys : (vs.map (·.key)).Nodup) (hget : ∀ v ∈ vs, s.cache.get? v.key = some v)
    (hfree : ∀ v ∈ vs, ∀ (i : Nat) p, s.invocations[i]? = some p → p.holds ≠ some v.sandbox) :
    Sound (vs.foldl SandboxStore.evict s) := by
  induction vs generalizing s with
  | nil => exact h
  | cons v vs ih =>
    rw [List.map_cons, List.nodup_cons] at hkeys
    apply ih
    · exact h.evict (hget v List.mem_cons_self) (hfree v List.mem_cons_self)
    · exact hkeys.2
    · intro w hw
      exact get?_evict hkeys.1 hw (hget w (List.mem_cons_of_mem _ hw))
    · intro w hw
      exact hfree w (List.mem_cons_of_mem _ hw)

theorem sweep_eq_foldl (s : SandboxStore Z) (maxCount : Nat) :
    s.sweep maxCount = (s.victims maxCount s.cache.size s.cache.values).foldl evict s := by
  unfold sweep
  split
  · rename_i hle
    rw [victims_eq_take, Nat.sub_eq_zero_of_le hle, List.take_zero]
    rfl
  · rfl

theorem evictable_iff_look (s : SandboxStore Z) (e : CacheEntry) :
    s.evictable e = true ↔
      s.look (·.status) e.sandbox = some .ready ∧ s.look (·.runInFlight) e.sandbox = some false := by
  unfold evictable look
  cases s.sandboxes[e.sandbox]? with
  | none => simp
  | some c => simp

theorem mem_values_iff {s : SandboxStore Z} (h : Filed s) (e : CacheEntry) :
    e ∈ s.cache.values ↔ s.cache.get? e.key = some e := by
  rw [OrderedMap.get?_eq_some_iff, OrderedMap.values, List.mem_map]
  constructor
  · rintro ⟨⟨k, e'⟩, hmem, rfl⟩
    obtain ⟨hk, _⟩ := h k e' ((OrderedMap.get?_eq_some_iff _ _ _).mpr hmem)
    exact hk ▸ hmem
  · intro hmem
    exact ⟨(e.key, e), hmem, rfl⟩

theorem values_keys_nodup {s : SandboxStore Z} (h : Filed s) : (s.cache.values.map (·.key)).Nodup := by
  have hkeys : s.cache.values.map (·.key) = s.cache.entries.map Prod.fst := by
    rw [OrderedMap.values, List.map_map]
    apply List.map_congr_left
    intro x hx
    exact (h x.1 x.2 ((OrderedMap.get?_eq_some_iff _ _ _).mpr hx)).1
  rw [hkeys]
  exact s.cache.nodup

/-- The new entry is still building, so the sweep takes only entries that were there before. -/
theorem victims_insert {s : SandboxStore Z} (h : Filed s) (options : SandboxStoreOptions Z) {owner : String}
    {workflow : WorkflowManifest} (source : String) (config : WorkflowConfig Z)
    (hget : s.cache.get? (storeKey owner workflow.sha) = none) :
    (s.insert owner workflow source config).victims options.maxCount
        (s.insert owner workflow source config).cache.size
        (s.insert owner workflow source config).cache.values = s.idleVictims options := by
  have hentries := s.cache.entries_set_of_get?_none (storeKey owner workflow.sha)
    ⟨storeKey owner workflow.sha, owner, workflow.sha, s.sandboxes.length, 1⟩ hget
  have hsize : (s.insert owner workflow source config).cache.size = s.cache.size + 1 := by
    simp only [insert, OrderedMap.size, hentries, List.length_append, List.length_singleton]
  have hold : ∀ e ∈ s.cache.values,
      (s.insert owner workflow source config).evictable e = s.evictable e := by
    intro e he
    obtain ⟨_, hkey⟩ := h _ e ((mem_values_iff h e).mp he)
    obtain ⟨c, hc, _⟩ := Option.map_eq_some_iff.mp hkey
    have hlt : e.sandbox < s.sandboxes.length := (List.getElem?_eq_some_iff.mp hc).1
    simp only [evictable, insert, List.getElem?_append_left hlt]
  have hnew : List.filter (s.insert owner workflow source config).evictable
      [⟨storeKey owner workflow.sha, owner, workflow.sha, s.sandboxes.length, 1⟩] = [] := by
    simp [evictable, insert]
  have hvalues : (s.insert owner workflow source config).cache.values =
      s.cache.values ++ [⟨storeKey owner workflow.sha, owner, workflow.sha, s.sandboxes.length, 1⟩] := by
    simp only [insert, OrderedMap.values, hentries, List.map_append, List.map_cons, List.map_nil]
  rw [victims_eq_take, hsize, hvalues, List.filter_append, List.filter_congr hold, hnew, List.append_nil,
    idleVictims]

theorem Sound.missed {options : SandboxStoreOptions Z} {s : SandboxStore Z} (h : Sound s)
    (hx : Exclusive s) {owner : String} {workflow : WorkflowManifest} (source : String)
    (config : WorkflowConfig Z) (hget : s.cache.get? (storeKey owner workflow.sha) = none)
    (hfree : ∀ e ∈ s.idleVictims options, ∀ p ∈ s.invocations, p.waitsFor ≠ some e.sandbox) :
    Sound ((s.insert owner workflow source config).sweep options.maxCount) := by
  rw [sweep_eq_foldl, victims_insert h.filed options source config hget]
  have hsub : (s.idleVictims options).Sublist s.cache.values :=
    (List.take_sublist _ _).trans List.filter_sublist
  have hcached : ∀ v ∈ s.idleVictims options, s.cache.get? v.key = some v := by
    intro v hv
    exact (mem_values_iff h.filed v).mp (hsub.subset hv)
  apply Sound.foldl_evict _ (h.insert owner workflow source config)
  · exact (values_keys_nodup h.filed).sublist (hsub.map _)
  · intro v hv
    have hne : v.key ≠ storeKey owner workflow.sha := by
      intro heq
      rw [← heq, hcached v hv] at hget
      cases hget
    exact (OrderedMap.get?_set_of_ne _ _ _ hne).trans (hcached v hv)
  · intro v hv i p hi hp
    rcases InvokePhase.holds_cases hp with hwait | rfl
    · exact hfree v hv p (List.mem_of_getElem? hi) hwait
    · have hflight := hx.running i _ hi
      have hidle := List.mem_filter.mp (List.mem_of_mem_take hv)
      rw [((evictable_iff_look s v).mp hidle.2).2] at hflight
      cases hflight

theorem look_foldl_evict {α : Type} (g : SandboxCell Z → α) (vs : List CacheEntry) (s : SandboxStore Z)
    {b : Nat} (h : ∀ v ∈ vs, v.sandbox ≠ b) : (vs.foldl evict s).look g b = s.look g b := by
  induction vs generalizing s with
  | nil => rfl
  | cons v vs ih =>
    refine (ih (s.evict v) fun w hw => h w (List.mem_cons_of_mem _ hw)).trans ?_
    unfold evict disposeEntry
    rw [look_mapSandbox, if_neg (h v List.mem_cons_self)]
    rfl

/-- The sandbox whose build caused the sweep is not among those it disposes. -/
theorem look_missed {s : SandboxStore Z} (h : Sound s) (options : SandboxStoreOptions Z) {owner : String}
    {workflow : WorkflowManifest} (source : String) (config : WorkflowConfig Z)
    (hget : s.cache.get? (storeKey owner workflow.sha) = none) :
    ((s.insert owner workflow source config).sweep options.maxCount).look (·.disposed) s.sandboxes.length =
      some false := by
  rw [sweep_eq_foldl, victims_insert h.filed options source config hget, look_foldl_evict]
  · simp [look, insert]
  · intro v hv heq
    have hmem := (List.mem_filter.mp (List.mem_of_mem_take hv)).1
    obtain ⟨_, hkey, _⟩ := h.cached _ v ((mem_values_iff h.filed v).mp hmem)
    simp [look, heq] at hkey

theorem runGuard_ne_disposed {c : SandboxCell Z} (h : c.disposed = false) :
    runGuard c ≠ some .disposed := by
  unfold runGuard
  rw [h]
  cases c.terminated with
  | some cause => simp
  | none => cases c.runInFlight <;> simp

theorem dispose_forget (s : SandboxStore Z) (b : Nat) : (s.forget b).dispose = s.dispose := by
  unfold forget
  repeat' split
  all_goals rfl

theorem dispose_sweep (s : SandboxStore Z) (maxCount : Nat) : (s.sweep maxCount).dispose = s.dispose := by
  rw [sweep_eq_foldl]
  generalize s.victims maxCount s.cache.size s.cache.values = vs
  induction vs generalizing s with
  | nil => rfl
  | cons v vs ih => exact ih (s.evict v)

/-- Up to a call of the store's own `dispose`. -/
theorem dispose_of_stepped {options : SandboxStoreOptions Z} {s t : SandboxStore Z} {a : StoreAct}
    (h : Stepped options s a t) (ht : t.dispose = .notCalled) : s.dispose = .notCalled := by
  cases h with
  | missed owner workflow source config t hget hconfig heq =>
    subst heq
    change (SandboxStore.sweep _ _).dispose = _ at ht
    rw [dispose_sweep] at ht
    exact ht
  | buildFailed b =>
    rw [dispose_forget] at ht
    exact ht
  | terminated b =>
    change (SandboxStore.forget s b).dispose = _ at ht
    rw [dispose_forget] at ht
    exact ht
  | disposeCalled => cases ht
  | disposeCleared => cases ht
  | entryDisposed => cases ht
  | entryFailed => cases ht
  | _ => exact ht

theorem sound_step {options : SandboxStoreOptions Z} {s t : SandboxStore Z} {a : StoreAct}
    (h : Sound s) (hx : Exclusive s) (hok : VictimsUnwanted options s a)
    (ht : step options s a = some t) (hnot : t.dispose = .notCalled) : Sound t := by
  cases step_cases ht with
  | threw owner workflow source message => exact h.push _ (by simp [InvokePhase.holds]) (by simp [InvokePhase.result])
  | hit owner workflow source e hget =>
    refine (h.hit hget).push _ ?_ (by simp [InvokePhase.result])
    intro b hb
    cases hb
    exact (h.cached _ e hget).2.2
  | missed owner workflow source config t hget hconfig heq =>
    subst heq
    have hfree := hok (by simp [OrderedMap.has, hget]) ⟨config, hconfig⟩
    refine (h.missed hx source config hget hfree).push _ ?_ (by simp [InvokePhase.result])
    intro b hb
    cases hb
    exact look_missed h options source config hget
  | built b => exact h.mapSandbox b _ (fun _ => rfl) fun _ => rfl
  | buildFailed b =>
    apply Sound.forget
    exact h.mapSandbox b _ (fun _ => rfl) fun _ => rfl
  | enqueued i b hi =>
    apply Sound.setPhase
    · exact h.mapSandbox b _ (fun _ => rfl) fun _ => rfl
    · intro b' hb'
      cases hb'
      rw [look_mapSandbox_of_eq]
      · exact h.held i _ b hi rfl
      · exact fun _ => rfl
    · simp [InvokePhase.result]
  | rejected i => exact h.setPhase i _ (by simp [InvokePhase.holds]) (by simp [InvokePhase.result])
  | refused i b c err hi hc hguard =>
    refine h.setPhase i _ (by simp [InvokePhase.holds]) ?_
    have hlook := h.held i _ b hi rfl
    rw [look, hc] at hlook
    rintro heq
    cases heq
    exact runGuard_ne_disposed (Option.some.inj hlook) hguard
  | started i b c hi hc hguard =>
    apply Sound.setPhase
    · exact h.mapSandbox b _ (fun _ => rfl) fun _ => rfl
    · intro b' hb'
      cases hb'
      rw [look_mapSandbox_of_eq]
      · exact h.held i _ b hi rfl
      · exact fun _ => rfl
    · simp [InvokePhase.result]
  | cutOff i b c result hi hc hdisposed =>
    have hlook := h.held i _ b hi rfl
    simp [look, hc, hdisposed] at hlook
  | ran i b c result hi =>
    apply Sound.setPhase
    · exact h.mapSandbox b _ (fun _ => rfl) fun _ => rfl
    · simp [InvokePhase.holds]
    · cases result <;> simp [InvokePhase.result, Except.mapError]
  | finished i b result hi =>
    apply Sound.setPhase
    · exact h.mapSandbox b _ (fun _ => rfl) fun _ => rfl
    · simp [InvokePhase.holds]
    · exact h.results i (.emitting b result) hi
  | terminated b => exact (h.forget b).mapSandbox b _ (fun _ => rfl) fun _ => rfl
  | disposeCalled => cases hnot
  | disposeCleared => cases hnot
  | entryDisposed => cases hnot
  | entryFailed => cases hnot

/-- As long as the store is not disposed and no sweep takes an idle sandbox that an invocation is
waiting for, no invocation loses its sandbox. -/
theorem undisturbed_of_victimsUnwanted (options : SandboxStoreOptions Z) {s : SandboxStore Z}
    {acts : List StoreAct} (h : exec (step options) create acts = some s)
    (hok : Along (step options) (VictimsUnwanted options) create acts) (hnot : s.dispose = .notCalled) :
    Undisturbed s := by
  have hstep : ∀ (s : SandboxStore Z) a t, (Exclusive s ∧ (s.dispose = .notCalled → Sound s)) →
      VictimsUnwanted options s a → step options s a = some t →
      Exclusive t ∧ (t.dispose = .notCalled → Sound t) := by
    rintro s a t ⟨hx, hs⟩ hok ht
    refine ⟨exclusive_step hx ht, ?_⟩
    intro hnot
    exact sound_step (hs (dispose_of_stepped (step_cases ht) hnot)) hx hok ht hnot
  have hsound := exec_invariant_along hstep ⟨exclusive_create, fun _ => sound_create⟩ hok h
  exact (hsound.2 hnot).undisturbed

end SandboxStore

def hookManifest (name sha : String) : WorkflowManifest :=
  .plain name sha .empty ⟨.http, "hook", .null, .null, .null⟩ [] List.nodup_nil

def singleOptions : SandboxStoreOptions Unit := ⟨⟨fun _ => none⟩, fun _ => .ok (), 1⟩

namespace SandboxStore

/-- The first of two invocations of one workflow has run and its events are being stored when
another workflow needs the only slot: the second invocation finds its sandbox disposed. -/
theorem queuedBehindTail_disturbed :
    ∃ s, exec (step singleOptions) create
        [.invoke "acme" (hookManifest "alpha" "a1") "", .buildResolved 0, .resume 0,
          .invoke "acme" (hookManifest "alpha" "a1") "", .resume 1, .startRun 0, .settleRun 0 (.ok ()),
          .invoke "acme" (hookManifest "beta" "b1") "", .finish 0, .startRun 1, .finish 1] = some s ∧
      s.dispose = .notCalled ∧ .settled (.error .disposed) ∈ s.invocations ∧ ¬ Undisturbed s := by
  refine ⟨_, rfl, rfl, by decide, ?_⟩
  intro h
  exact h.results (.settled (.error .disposed)) (by decide) rfl

theorem undisturbed_of_victimsUnwanted_idleEvicted :
    ∃ s, exec (step singleOptions) create
        [.invoke "acme" (hookManifest "alpha" "a1") "", .buildResolved 0, .resume 0, .startRun 0,
          .settleRun 0 (.ok ()), .invoke "acme" (hookManifest "beta" "b1") ""] = some s ∧
      s.look (·.disposed) 0 = some true ∧ Undisturbed s := by
  have hrun := Option.some_get (x := exec (step singleOptions) create
    [.invoke "acme" (hookManifest "alpha" "a1") "", .buildResolved 0, .resume 0, .startRun 0,
      .settleRun 0 (.ok ()), .invoke "acme" (hookManifest "beta" "b1") ""]) (by decide)
  refine ⟨_, hrun.symm, by decide, undisturbed_of_victimsUnwanted singleOptions hrun.symm ?_ (by decide)⟩
  refine (along_cons_of_some rfl).mpr ⟨?_, (along_cons_of_some rfl).mpr ⟨trivial,
    (along_cons_of_some rfl).mpr ⟨trivial, (along_cons_of_some rfl).mpr ⟨trivial,
    (along_cons_of_some rfl).mpr ⟨trivial, (along_cons_of_some rfl).mpr ⟨?_, trivial⟩⟩⟩⟩⟩⟩
  · intro _ _
    decide
  · intro _ _
    decide

end SandboxStore

end WorkflowEngine.Runtime
