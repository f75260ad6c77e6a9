import WorkflowEngine.Runtime.CronRuns
import WorkflowEngine.Runtime.TriggerEntries

/-!
# What the cron source tells about secret schedules

The registry puts the plaintext of a workflow's secrets in place of the sentinels of
a cron trigger before the cron source sees it. When `cron-parser` rejects what has
become of `schedule` and `tz`, `arm` logs both with the parser's message and emits
them as a `trigger.exception`. A run is followed here with the sentinel-bearing
descriptor and the plaintext store behind every entry.
-/

namespace WorkflowEngine.Runtime.Cron

open Lib
set_option autoImplicit false

abbrev PlaintextStore := OrderedMap String String

/-! ## Descriptors -/

/-- The cron fields of a descriptor of the registry. -/
def Descriptor.ofTrigger (p : PreResolveDescriptor) : Option Descriptor :=
  match p.kind, p.config with
  | .cron, .object [("schedule", .string schedule), ("tz", .string tz)] =>
    some ⟨p.workflowName, p.name, schedule, tz⟩
  | _, _ => none

def Descriptor.resolve (store : PlaintextStore) (d : Descriptor) : Descriptor where
  workflowName := resolvedText store d.workflowName
  name := resolvedText store d.name
  schedule := resolvedText store d.schedule
  tz := resolvedText store d.tz

/-- The deep walk of `buildDescriptors` over a cron descriptor replaces its four texts. -/
theorem ofTrigger_resolve {p : PreResolveDescriptor} {d : Descriptor}
    (h : Descriptor.ofTrigger p = some d) (store : PlaintextStore) (missing : List String) :
    Descriptor.ofTrigger (p.resolve store missing).1 = some (d.resolve store) := by
  unfold Descriptor.ofTrigger at h
  split at h
  · rename_i schedule tz hkind hconfig
    cases h
    simp [Descriptor.ofTrigger, PreResolveDescriptor.resolve, hkind, hconfig, resolveSecretSentinels,
      resolveFields, resolveString_fst, Descriptor.resolve]
  · cases h

/-! ## Records -/

/-- The log record `cron.schedule-invalid`. -/
structure ScheduleInvalid where
  owner : String
  repo : String
  workflow : String
  trigger : String
  schedule : String
  tz : String
  error : String
  deriving DecidableEq

/-- The parameters of `exception`: `name`, `error.message` and `input`. -/
structure TriggerException where
  name : String
  message : String
  schedule : String
  tz : String
  deriving DecidableEq

namespace CronSource

def identities (s : CronSource) : List (String × String × Descriptor) :=
  s.entries.map SourceEntry.identity

def logRecords (s : CronSource) : List ScheduleInvalid :=
  s.reports.filterMap fun r => (s.entries[r.1]?).map fun x =>
    ⟨x.owner, x.repo, x.descriptor.workflowName, x.descriptor.name, x.descriptor.schedule,
      x.descriptor.tz, r.2⟩

def exceptions (s : CronSource) : List TriggerException :=
  s.reports.filterMap fun r => (s.entries[r.1]?).map fun x =>
    ⟨"cron.schedule-invalid", r.2, x.descriptor.schedule, x.descriptor.tz⟩

end CronSource

/-! ## The armings of a step -/

/-- The message with which an arming at `now` fails. -/
def rejection (cron : CronExpressionParser) (d : Descriptor) (now : Int) : Option String :=
  match computeNextDelay cron d now with
  | .error message => some message
  | .ok _ => none

/-- The entries that a step arms, each with the date. -/
def armingsOf (s : CronSource) : CronAction → List (Nat × Int)
  | .reconfigure _ _ entries => entries.zipIdx.map fun d => (s.entries.length + d.2, d.1.2)
  | .stop => []
  | .wake h now =>
    match s.timers[h]? with
    | some t => if t.wasClamped ∧ (s.entries[t.entry]?).isSome then [(t.entry, now)] else []
    | none => []
  | .settled e now => if s.isCurrent e then [(e, now)] else []

/-- The entries that a step makes. -/
def installedBy : CronAction → List (String × String × Descriptor)
  | .reconfigure owner repo entries => entries.map fun d => (owner, repo, d.1)
  | .stop | .wake _ _ | .settled _ _ => []

/-- The report of an arming, by what the entries are. -/
def reportOf (cron : CronExpressionParser) (ids : List (String × String × Descriptor))
    (arming : Nat × Int) : Option (Nat × String) :=
  (ids[arming.1]?).bind fun x => (rejection cron x.2.2 arming.2).map fun message => (arming.1, message)

/-- `t` comes from `s` by the armings, after new entries were added. -/
structure Armed (cron : CronExpressionParser) (new : List (String × String × Descriptor))
    (armings : List (Nat × Int)) (s t : CronSource) : Prop where
  identities : t.identities = s.identities ++ new
  reports : t.reports = s.reports ++ armings.filterMap (reportOf cron t.identities)
  inRange : ∀ a ∈ armings, a.1 < t.identities.length

theorem armed_of_same {cron : CronExpressionParser} {s t : CronSource}
    (hidentities : t.identities = s.identities) (hreports : t.reports = s.reports) :
    Armed cron [] [] s t := by
  refine ⟨by simp [hidentities], by simp [hreports], ?_⟩
  intro a ha
  cases ha

theorem reportOf_append {cron : CronExpressionParser} {ids : List (String × String × Descriptor)}
    (new : List (String × String × Descriptor)) {armings : List (Nat × Int)}
    (h : ∀ a ∈ armings, a.1 < ids.length) :
    armings.filterMap (reportOf cron (ids ++ new)) = armings.filterMap (reportOf cron ids) := by
  apply List.filterMap_congr
  intro a ha
  rw [reportOf, reportOf, List.getElem?_append_left (h a ha)]

theorem Armed.trans {cron : CronExpressionParser} {new new' : List (String × String × Descriptor)}
    {armings armings' : List (Nat × Int)} {s t u : CronSource} (h : Armed cron new armings s t)
    (h' : Armed cron new' armings' t u) : Armed cron (new ++ new') (armings ++ armings') s u := by
  refine ⟨by rw [h'.identities, h.identities, List.append_assoc], ?_, ?_⟩
  · rw [h'.reports, h.reports, List.filterMap_append, List.append_assoc]
    congr 2
    rw [h'.identities]
    exact (reportOf_append new' h.inRange).symm
  · intro a ha
    have hlength : t.identities.length ≤ u.identities.length := by
      rw [h'.identities, List.length_append]
      omega
    rcases List.mem_append.mp ha with ha | ha
    · exact Nat.lt_of_lt_of_le (h.inRange a ha) hlength
    · exact h'.inRange a ha

theorem identities_setTimer {s : CronSource} {e : Nat} {x : SourceEntry}
    (hx : s.entries[e]? = some x) (timer : Option Nat) :
    (s.entries.set e { x with timer := timer }).map SourceEntry.identity = s.identities :=
  map_set_of_eq SourceEntry.identity hx rfl

theorem identities_getElem? {s : CronSource} {e : Nat} {x : SourceEntry} (hx : s.entries[e]? = some x) :
    s.identities[e]? = some (x.owner, x.repo, x.descriptor) := by
  rw [CronSource.identities, List.getElem?_map, hx]
  rfl

/-- `arm` of an entry that exists. -/
theorem armed_arm (cron : CronExpressionParser) {s : CronSource} {e : Nat} {x : SourceEntry}
    (hx : s.entries[e]? = some x) (now : Int) : Armed cron [] [(e, now)] s (s.arm cron e now) := by
  have hidentities : (s.arm cron e now).identities = s.identities := by
    rcases arm_cases cron hx now with ⟨message, heq⟩ | ⟨wasClamped, delay, -, -, heq⟩
    · rw [heq]
      rfl
    · rw [heq]
      exact identities_setTimer hx _
  refine ⟨by simp [hidentities], ?_, ?_⟩
  · rw [hidentities, List.filterMap_cons, List.filterMap_nil, reportOf, identities_getElem? hx]
    unfold CronSource.arm
    rw [hx]
    dsimp only [Option.bind_some]
    cases hdelay : computeNextDelay cron x.descriptor now with
    | error message => simp [rejection, hdelay]
    | ok delay => simp [rejection, hdelay]
  · intro a ha
    rw [List.mem_singleton.mp ha, hidentities]
    exact lt_of_getElem?_eq_some (identities_getElem? hx)

theorem armed_install (cron : CronExpressionParser) (s : CronSource) (owner repo : String)
    (d : Descriptor) : Armed cron [(owner, repo, d)] [] s (s.install owner repo d) := by
  refine ⟨?_, by simp [CronSource.install], ?_⟩
  · simp [CronSource.identities, CronSource.install, SourceEntry.identity]
  · intro a ha
    cases ha

theorem cancel_same (s : CronSource) (e : Nat) :
    (s.cancel e).identities = s.identities ∧ (s.cancel e).reports = s.reports ∧
      (s.cancel e).entries.length = s.entries.length := by
  unfold CronSource.cancel
  cases hx : s.entries[e]? with
  | none => exact ⟨rfl, rfl, rfl⟩
  | some x =>
    dsimp only
    cases x.timer with
    | none => exact ⟨rfl, rfl, rfl⟩
    | some h =>
      refine ⟨identities_setTimer hx none, ?_, by simp⟩
      dsimp only [CronSource.clearTimeout]
      split
      · split <;> rfl
      · rfl

theorem foldl_cancel_same (ids : List Nat) (s : CronSource) :
    (ids.foldl CronSource.cancel s).identities = s.identities ∧
      (ids.foldl CronSource.cancel s).reports = s.reports ∧
      (ids.foldl CronSource.cancel s).entries.length = s.entries.length := by
  induction ids generalizing s with
  | nil => exact ⟨rfl, rfl, rfl⟩
  | cons e ids ih =>
    obtain ⟨hids, hreports, hlength⟩ := cancel_same s e
    obtain ⟨hids', hreports', hlength'⟩ := ih (s.cancel e)
    exact ⟨hids'.trans hids, hreports'.trans hreports, hlength'.trans hlength⟩

/-- The loop of `reconfigure`; `k` counts the entries that it has made before. -/
theorem armed_installAll (cron : CronExpressionParser) (owner repo : String)
    (entries : List (Descriptor × Int)) (s : CronSource) (n k : Nat) (hn : s.entries.length = n + k) :
    Armed cron (entries.map fun d => (owner, repo, d.1))
      ((entries.zipIdx k).map fun d => (n + d.2, d.1.2)) s
      (entries.foldl (fun s d => (s.install owner repo d.1).arm cron s.entries.length d.2) s) := by
  induction entries generalizing s k with
  | nil => exact armed_of_same rfl rfl
  | cons d entries ih =>
    have hx : (s.install owner repo d.1).entries[s.entries.length]? = some ⟨owner, repo, d.1, none⟩ := by
      simp [CronSource.install]
    have hone := (armed_install cron s owner repo d.1).trans (armed_arm cron hx d.2)
    have hlength := (arm_frame cron (s.install owner repo d.1) s.entries.length d.2).2.1
    have hrest := ih ((s.install owner repo d.1).arm cron s.entries.length d.2) (k + 1) (by
      rw [hlength]
      simp only [CronSource.install, List.length_append, List.length_singleton]
      omega)
    have hboth := hone.trans hrest
    simpa [← hn] using hboth

theorem armed_reconfigure (cron : CronExpressionParser) (s : CronSource) (owner repo : String)
    (entries : List (Descriptor × Int)) :
    Armed cron (installedBy (.reconfigure owner repo entries)) (armingsOf s (.reconfigure owner repo entries)) s
      (s.reconfigure cron owner repo entries) := by
  obtain ⟨hids, hreports, hlength⟩ :=
    foldl_cancel_same (((s.pairs.get? (pairKey owner repo)).map OrderedMap.values).getD []) s
  rw [← cancelPair_eq] at hids hreports hlength
  unfold CronSource.reconfigure
  dsimp only
  split
  · rename_i hnil
    obtain rfl := List.length_eq_zero_iff.mp hnil
    exact armed_of_same hids hreports
  · have hdropped : Armed cron [] [] s
        { s.cancelPair owner repo with
          pairs := ((s.cancelPair owner repo).pairs.delete (pairKey owner repo)).set
            (pairKey owner repo) .empty } := armed_of_same hids hreports
    exact hdropped.trans (armed_installAll cron owner repo entries
      { s.cancelPair owner repo with
        pairs := ((s.cancelPair owner repo).pairs.delete (pairKey owner repo)).set
          (pairKey owner repo) .empty } s.entries.length 0 hlength)

theorem armed_wake {cron : CronExpressionParser} {s t : CronSource} {handle : Nat} {now : Int}
    (h : step cron s (.wake handle now) = some t) : Armed cron [] (armingsOf s (.wake handle now)) s t := by
  simp only [step] at h
  simp only [armingsOf]
  split at h
  · cases h
  · rename_i u hu
    rw [hu]
    split at h
    · obtain rfl := Option.some.inj h
      unfold CronSource.onFire
      dsimp only
      cases hx : s.entries[u.entry]? with
      | none =>
        simp only [Option.isSome_none, Bool.false_eq_true, and_false, if_false]
        exact armed_of_same rfl rfl
      | some x =>
        simp only [Option.isSome_some, and_true]
        have hself : (s.entries.set u.entry { x with timer := none })[u.entry]? =
            some { x with timer := none } := List.getElem?_set_self (lt_of_getElem?_eq_some hx)
        have hcleared : Armed cron [] [] s
            { s with
              timers := s.timers.set handle { u with status := .woken }
              entries := s.entries.set u.entry { x with timer := none } } :=
          armed_of_same (identities_setTimer hx none) rfl
        split
        · exact hcleared.trans (armed_arm cron hself now)
        · exact armed_of_same (identities_setTimer hx none) rfl
    · cases h

/-- What a step adds to the reports: one for each arming that the parser rejects. -/
theorem armed_step {cron : CronExpressionParser} {s t : CronSource} {a : CronAction}
    (h : step cron s a = some t) : Armed cron (installedBy a) (armingsOf s a) s t := by
  cases a with
  | reconfigure owner repo entries =>
    obtain rfl := Option.some.inj h
    exact armed_reconfigure cron s owner repo entries
  | stop =>
    obtain rfl := Option.some.inj h
    obtain ⟨hids, hreports, -⟩ :=
      foldl_cancel_same (s.pairs.values.flatMap OrderedMap.values) s
    exact armed_of_same hids hreports
  | wake handle now => exact armed_wake h
  | settled e now =>
    obtain ⟨-, hcases⟩ := settled_cases h
    simp only [installedBy, armingsOf]
    rcases hcases with ⟨hcur, rfl⟩ | ⟨hcur, rfl⟩
    · rw [if_pos hcur]
      cases hx : s.entries[e]? with
      | none =>
        rw [isCurrent_of_none hx] at hcur
        cases hcur
      | some x =>
        have hfired : Armed cron [] [] s { s with firing := s.firing.erase e } := armed_of_same rfl rfl
        have hx' : ({ s with firing := s.firing.erase e } : CronSource).entries[e]? = some x := hx
        exact hfired.trans (armed_arm cron hx' now)
    · rw [hcur]
      exact armed_of_same rfl rfl

/-! ## Runs of registrations -/

/-- The decrypted secrets of each workflow, by its name in the manifest. -/
abbrev Stores := String → PlaintextStore

/-- The call of `reconfigure` that the registry makes for sentinel-bearing descriptors. -/
def CronAction.resolved (stores : Stores) : CronAction → CronAction
  | .reconfigure owner repo entries =>
    .reconfigure owner repo (entries.map fun d => (d.1.resolve (stores d.1.workflowName), d.2))
  | .stop => .stop
  | .wake h now => .wake h now
  | .settled e now => .settled e now

def manifestsOf (stores : Stores) : CronAction → List (PlaintextStore × Descriptor)
  | .reconfigure _ _ entries => entries.map fun d => (stores d.1.workflowName, d.1)
  | .stop | .wake _ _ | .settled _ _ => []

/-- An arming, with the descriptor of the manifest and the plaintexts it was resolved with. -/
structure Arming where
  entry : Nat
  store : PlaintextStore
  descriptor : Descriptor
  now : Int

/-- The source, with what stands behind each entry and the armings so far. -/
structure Registered where
  source : CronSource
  manifests : List (PlaintextStore × Descriptor)
  armings : List Arming

namespace Registered

def create : Registered := ⟨createCronTriggerSource, [], []⟩

def arming (manifests : List (PlaintextStore × Descriptor)) (a : Nat × Int) : Option Arming :=
  (manifests[a.1]?).map fun m => ⟨a.1, m.1, m.2, a.2⟩

def step (cron : CronExpressionParser) (r : Registered) (a : Stores × CronAction) : Option Registered :=
  (Cron.step cron r.source (a.2.resolved a.1)).map fun t =>
    let manifests := r.manifests ++ manifestsOf a.1 a.2
    ⟨t, manifests, r.armings ++ (armingsOf r.source (a.2.resolved a.1)).filterMap (arming manifests)⟩

end Registered

def Arming.resolved (g : Arming) : Descriptor := g.descriptor.resolve g.store

def Arming.report (cron : CronExpressionParser) (g : Arming) : Option (Nat × String) :=
  (rejection cron g.resolved g.now).map fun message => (g.entry, message)

/-- The schedule, the tz and the message that an arming makes known. -/
def Arming.tells (cron : CronExpressionParser) (g : Arming) : Option (String × String × String) :=
  (rejection cron g.resolved g.now).map fun message => (g.resolved.schedule, g.resolved.tz, message)

structure Recorded (cron : CronExpressionParser) (r : Registered) : Prop where
  resolved : r.source.identities.map (fun x => x.2.2) = r.manifests.map fun m => m.2.resolve m.1
  reports : r.source.reports = r.armings.filterMap (Arming.report cron)
  known : ∀ g ∈ r.armings, r.manifests[g.entry]? = some (g.store, g.descriptor)

theorem recorded_create (cron : CronExpressionParser) : Recorded cron .create := by
  refine ⟨rfl, rfl, ?_⟩
  intro g hg
  cases hg

theorem installedBy_resolved (stores : Stores) (a : CronAction) :
    (installedBy (a.resolved stores)).map (fun x => x.2.2) =
      (manifestsOf stores a).map fun m => m.2.resolve m.1 := by
  cases a with
  | reconfigure owner repo entries => simp [installedBy, manifestsOf, CronAction.resolved]
  | stop => rfl
  | wake h now => rfl
  | settled e now => rfl

/-- The reports of armings, read off the entries or off what stands behind them. -/
theorem filterMap_arming {cron : CronExpressionParser} {ids : List (String × String × Descriptor)}
    {manifests : List (PlaintextStore × Descriptor)}
    (h : ids.map (fun x => x.2.2) = manifests.map fun m => m.2.resolve m.1) (armings : List (Nat × Int)) :
    (armings.filterMap (Registered.arming manifests)).filterMap (Arming.report cron) =
      armings.filterMap (reportOf cron ids) := by
  rw [List.filterMap_filterMap]
  apply List.filterMap_congr
  intro a _
  have hat := congrArg (fun l => l[a.1]?) h
  simp only [List.getElem?_map] at hat
  cases hm : manifests[a.1]? with
  | none =>
    rw [hm, Option.map_none, Option.map_eq_none_iff] at hat
    simp [Registered.arming, reportOf, hm, hat]
  | some m =>
    rw [hm, Option.map_some] at hat
    obtain ⟨x, hx, hdescriptor⟩ := Option.map_eq_some_iff.mp hat
    simp [Registered.arming, reportOf, hm, hx, Arming.report, Arming.resolved, hdescriptor]

theorem Recorded.step {cron : CronExpressionParser} {r u : Registered} {a : Stores × CronAction}
    (h : Recorded cron r) (hstep : r.step cron a = some u) : Recorded cron u := by
  obtain ⟨t, ht, rfl⟩ := Option.map_eq_some_iff.mp hstep
  have harmed := armed_step ht
  have hresolved : t.identities.map (fun x => x.2.2) =
      (r.manifests ++ manifestsOf a.1 a.2).map fun m => m.2.resolve m.1 := by
    rw [harmed.identities, List.map_append, List.map_append, h.resolved, installedBy_resolved]
  refine ⟨hresolved, ?_, ?_⟩
  · rw [harmed.reports, h.reports, List.filterMap_append, filterMap_arming hresolved]
  · intro g hg
    rcases List.mem_append.mp hg with hg | hg
    · rw [List.getElem?_append_left (lt_of_getElem?_eq_some (h.known g hg))]
      exact h.known g hg
    · obtain ⟨b, -, hb⟩ := List.mem_filterMap.mp hg
      obtain ⟨m, hm, rfl⟩ := Option.map_eq_some_iff.mp hb
      exact hm

theorem recorded_exec {cron : CronExpressionParser} {as : List (Stores × CronAction)} {r : Registered}
    (h : exec (Registered.step cron) .create as = some r) : Recorded cron r :=
  exec_invariant (fun _ _ _ hs hstep => hs.step hstep) (recorded_create cron) h

/-- What the records of a run tell is what its armings tell. -/
theorem Recorded.tells {cron : CronExpressionParser} {r : Registered} (h : Recorded cron r) {β : Type}
    (f : SourceEntry → String → β) (k : String × String × String → β)
    (hf : ∀ x message, f x message = k (x.descriptor.schedule, x.descriptor.tz, message)) :
    r.source.reports.filterMap (fun p => (r.source.entries[p.1]?).map fun x => f x p.2) =
      (r.armings.filterMap (Arming.tells cron)).map k := by
  rw [h.reports, List.filterMap_filterMap, List.map_filterMap]
  apply List.filterMap_congr
  intro g hg
  have hat := congrArg (fun l => l[g.entry]?) h.resolved
  simp only [List.getElem?_map, h.known g hg, Option.map_some, CronSource.identities] at hat
  obtain ⟨y, hy, hdescriptor⟩ := Option.map_eq_some_iff.mp hat
  obtain ⟨x, hx, rfl⟩ := Option.map_eq_some_iff.mp hy
  have hdescriptor : x.descriptor = g.resolved := hdescriptor
  cases hrejection : rejection cron g.resolved g.now with
  | none => simp [Arming.report, Arming.tells, hrejection]
  | some message =>
    simp [Arming.report, Arming.tells, hrejection, hx, hf, hdescriptor]

/-! ## Two registrations -/

/-- Two armings of one descriptor of the manifest at one date. -/
def SameArming (g g' : Arming) : Prop := g.descriptor = g'.descriptor ∧ g.now = g'.now

/-- The plaintexts make no difference to schedule and tz, or the parser accepts what both make. -/
def Harmless (cron : CronExpressionParser) (g g' : Arming) : Prop :=
  (g.resolved.schedule = g'.resolved.schedule ∧ g.resolved.tz = g'.resolved.tz) ∨
    (rejection cron g.resolved g.now = none ∧ rejection cron g'.resolved g'.now = none)

instance (cron : CronExpressionParser) (g g' : Arming) : Decidable (Harmless cron g g') :=
  inferInstanceAs (Decidable ((_ ∧ _) ∨ (_ ∧ _)))

instance (g g' : Arming) : Decidable (SameArming g g') := inferInstanceAs (Decidable (_ ∧ _))

theorem rejection_congr {cron : CronExpressionParser} {d d' : Descriptor} {now : Int}
    (hschedule : d.schedule = d'.schedule) (htz : d.tz = d'.tz) :
    rejection cron d now = rejection cron d' now := by
  rw [rejection, rejection, computeNextDelay, computeNextDelay, hschedule, htz]

/-- One arming tells the same in both registrations exactly when it is harmless. -/
theorem tells_eq_iff_harmless {cron : CronExpressionParser} {g g' : Arming} (hsame : SameArming g g') :
    g.tells cron = g'.tells cron ↔ Harmless cron g g' := by
  constructor
  · intro h
    unfold Arming.tells at h
    cases hr : rejection cron g.resolved g.now with
    | none =>
      rw [hr, Option.map_none, eq_comm, Option.map_eq_none_iff] at h
      exact Or.inr ⟨hr, h⟩
    | some message =>
      rw [hr, Option.map_some, eq_comm] at h
      obtain ⟨message', -, heq⟩ := Option.map_eq_some_iff.mp h
      simp only [Prod.mk.injEq] at heq
      exact Or.inl ⟨heq.1.symm, heq.2.1.symm⟩
  · intro h
    rcases h with ⟨hschedule, htz⟩ | ⟨hnone, hnone'⟩
    · rw [Arming.tells, Arming.tells, rejection_congr hschedule htz, hsame.2, hschedule, htz]
    · rw [Arming.tells, Arming.tells, hnone, hnone']
      rfl

theorem tells_of_harmless {cron : CronExpressionParser} {gs gs' : List Arming}
    (hsame : List.Forall₂ SameArming gs gs') (hharmless : List.Forall₂ (Harmless cron) gs gs') :
    gs.filterMap (Arming.tells cron) = gs'.filterMap (Arming.tells cron) := by
  induction hsame with
  | nil => rfl
  | cons hhead _ ih =>
    obtain ⟨hfirst, hrest⟩ := List.forall₂_cons.mp hharmless
    rw [List.filterMap_cons, List.filterMap_cons, (tells_eq_iff_harmless hhead).mpr hfirst, ih hrest]

/-- Two runs that arm the same descriptors at the same dates, under whatever plaintexts, publish the
same schedules, tzs and messages as long as every arming is harmless. -/
theorem records_agree_of_harmless (cron : CronExpressionParser) (as bs : List (Stores × CronAction))
    {r r' : Registered} (hr : exec (Registered.step cron) .create as = some r)
    (hr' : exec (Registered.step cron) .create bs = some r')
    (hsame : List.Forall₂ SameArming r.armings r'.armings)
    (hharmless : List.Forall₂ (Harmless cron) r.armings r'.armings) :
    r.source.logRecords.map (fun l => (l.schedule, l.tz, l.error)) =
        r'.source.logRecords.map (fun l => (l.schedule, l.tz, l.error)) ∧
      r.source.exceptions = r'.source.exceptions := by
  have hlog : ∀ {u : Registered}, Recorded cron u →
      u.source.logRecords.map (fun l => (l.schedule, l.tz, l.error)) =
        u.armings.filterMap (Arming.tells cron) := by
    intro u hu
    rw [CronSource.logRecords, List.map_filterMap]
    have htells := hu.tells (fun x message => (x.descriptor.schedule, x.descriptor.tz, message)) id
      (fun _ _ => rfl)
    rw [List.map_id] at htells
    rw [← htells]
    apply List.filterMap_congr
    intro p _
    rw [Option.map_map]
    rfl
  have hexceptions : ∀ {u : Registered}, Recorded cron u →
      u.source.exceptions = (u.armings.filterMap (Arming.tells cron)).map fun p =>
        ⟨"cron.schedule-invalid", p.2.2, p.1, p.2.1⟩ := by
    intro u hu
    exact hu.tells (fun x message =>
        (⟨"cron.schedule-invalid", message, x.descriptor.schedule, x.descriptor.tz⟩ : TriggerException))
      (fun p => ⟨"cron.schedule-invalid", p.2.2, p.1, p.2.1⟩) fun _ _ => rfl
  have htells := tells_of_harmless hsame hharmless
  constructor
  · rw [hlog (recorded_exec hr), hlog (recorded_exec hr'), htells]
  · rw [hexceptions (recorded_exec hr), hexceptions (recorded_exec hr'), htells]

/-- Only one schedule is well formed. -/
def strictCron : CronExpressionParser where
  next schedule _ now :=
    if schedule = "* * * * *" then .ok (now - now % 60000 + 60000) else .error "Invalid cron expression"

def storeWith (name plaintext : String) : Stores := fun _ => OrderedMap.empty.set name plaintext

/-- A trigger whose tz is a secret, and one whose plain schedule is not well formed. -/
def zoned : List (Descriptor × Int) :=
  [(⟨"mailer", "tick", "* * * * *", "\x00secret:ZONE\x00"⟩, 0), (⟨"mailer", "often", "often", "UTC"⟩, 0)]

theorem records_agree_of_harmless_zoned :
    ∃ r r', exec (Registered.step strictCron) .create
        [(storeWith "ZONE" "UTC", .reconfigure "acme" "site" zoned), (storeWith "ZONE" "UTC", .wake 0 60000)]
          = some r ∧
      exec (Registered.step strictCron) .create
        [(storeWith "ZONE" "Asia/Tokyo", .reconfigure "acme" "site" zoned),
          (storeWith "ZONE" "Asia/Tokyo", .wake 0 61000)] = some r' ∧
      r.source.logRecords.map (fun l => (l.schedule, l.tz, l.error)) =
        r'.source.logRecords.map (fun l => (l.schedule, l.tz, l.error)) ∧
      r.source.exceptions = r'.source.exceptions := by
  refine ⟨_, _, rfl, rfl, ?_⟩
  exact records_agree_of_harmless strictCron
    [(storeWith "ZONE" "UTC", .reconfigure "acme" "site" zoned), (storeWith "ZONE" "UTC", .wake 0 60000)]
    [(storeWith "ZONE" "Asia/Tokyo", .reconfigure "acme" "site" zoned),
      (storeWith "ZONE" "Asia/Tokyo", .wake 0 61000)] rfl rfl (by decide) (by decide)

/-- A trigger whose schedule is a secret. -/
def secretSchedule : List (Descriptor × Int) :=
  [(⟨"mailer", "tick", "\x00secret:CRON\x00", "UTC"⟩, 0)]

/-- Two plaintexts that the parser rejects, each of them in the log and in the event. -/
theorem secretSchedule_published :
    ∃ r r', exec (Registered.step strictCron) .create
        [(storeWith "CRON" "every day", .reconfigure "acme" "site" secretSchedule)] = some r ∧
      exec (Registered.step strictCron) .create
        [(storeWith "CRON" "at noon", .reconfigure "acme" "site" secretSchedule)] = some r' ∧
      List.Forall₂ SameArming r.armings r'.armings ∧
      r.source.logRecords.map (fun l => (l.schedule, l.tz, l.error)) =
        [("every day", "UTC", "Invalid cron expression")] ∧
      r'.source.logRecords.map (fun l => (l.schedule, l.tz, l.error)) =
        [("at noon", "UTC", "Invalid cron expression")] ∧
      r.source.exceptions ≠ r'.source.exceptions := by
  exact ⟨_, _, rfl, rfl, by decide, by decide, by decide, by decide⟩

end WorkflowEngine.Runtime.Cron
